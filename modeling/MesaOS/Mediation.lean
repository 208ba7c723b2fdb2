/-
The packet filter and the packets that come in.

`Firewall::check_packet` says which packets are blocked, and `IPv4::handle_packet` does not
ask it.

* `receive_withRules` — no rule table changes what a packet does;
* `mediated_iff` — so a packet that is denied is kept out only where no handler takes it.
-/
import MesaOS.Firewall
import MesaOS.DHCP

open MachineWord NetworkOrder

namespace MesaOS.Net

/-- The packet filter, the connections, the configuration of IPv4, and what has been written to
the screen.  `IPv4::my_ip` is the address in the configuration. -/
structure Machine where
  fw : Firewall
  tcp : TCP
  st : Station
  screen : String

/-! ### The handlers -/

/-- `itoa(value, b, 10)` -/
def itoa (value : U32) : String := toString value.toInt

/-- `ICMP::handle_packet`: what it writes. -/
def ICMP.handlePacket (data : ℕ → U8) (size srcIp : U32) : String :=
  if size < 8 then ""
  else if data 0 = 0 then
    let seq := swapUint16 (get16 data 6)
    "Reply from " ++ itoa (srcIp &&& 0xFF) ++ "." ++ itoa (srcIp >>> 8 &&& 0xFF) ++ "." ++
      itoa (srcIp >>> 16 &&& 0xFF) ++ "." ++ itoa (srcIp >>> 24 &&& 0xFF) ++
      ": bytes=" ++ itoa (size - 8) ++ " seq=" ++ itoa (seq.setWidth 32) ++ " ttl=??\n"
  else ""

/-- `DHCP::handle_packet`: what it writes. -/
def DHCP.report (st : Station) (msg : DHCPPacket) : String :=
  if msg.size < 240 then ""
  else if chaddr msg ≠ Ethernet.getMacAddress st.toHost then ""
  else if yiaddr msg ≠ 0 then "\n[ NETWORK: IP Address Successfully Configured ]\n"
  else ""

namespace Machine

/-- `UDP::handle_packet`, and `DHCP::handle_packet` for port 68. -/
def handleUdp (m : Machine) (srcIp : U32) (data : ℕ → U8) (size : U32) : Machine :=
  match UDP.handlePacket srcIp data size with
  | some datagram =>
    if datagram.destPort = 68 then
      let msg : DHCPPacket := { data := fun i => data (8 + i), size := size - 8 }
      { m with
        st := DHCP.handlePacket m.st msg
        screen := m.screen ++ DHCP.report m.st msg }
    else m
  | none => m

/-- `TCP::handle_packet`, and what it sends. -/
def handleTcp (m : Machine) (srcIp : U32) (data : ℕ → U8) (size : U32) : Machine × List Packet :=
  let (tcp, packets) := { m.tcp with myIp := m.st.myIp }.handlePacket srcIp data size
  ({ m with tcp := tcp }, packets)

/-- A packet that comes to `IPv4::handle_packet`: the new state, and what is sent. -/
def receive (m : Machine) (data : ℕ → U8) (size : U32) : Machine × List Packet :=
  match IPv4.handlePacket data size with
  | some (.udp, srcIp, payload) => (m.handleUdp srcIp (payload.of data) payload.size, [])
  | some (.tcp, srcIp, payload) => m.handleTcp srcIp (payload.of data) payload.size
  | some (.icmp, srcIp, payload) =>
    ({ m with screen := m.screen ++ ICMP.handlePacket (payload.of data) payload.size srcIp }, [])
  | none => (m, [])

end Machine

/-! ### The rule table -/

/-- A packet as `check_packet` is given it; ICMP has no ports. -/
def IPv4.packetInfo (data : ℕ → U8) : PacketInfo :=
  let payload := fun i => data ((headerSize data).toNat + i)
  let port := fun i => if transport data = some .icmp then 0 else swapUint16 (get16 payload i)
  { srcIp := srcIp data, dstIp := destIp data, srcPort := port 0, dstPort := port 2
    protocol := data 9 }

namespace Machine

def withRules (m : Machine) (fw : Firewall) : Machine := { m with fw := fw }

/-- **No rule table changes what a packet does.** -/
theorem receive_withRules (m : Machine) (fw : Firewall) (data : ℕ → U8) (size : U32) :
    (m.withRules fw).receive data size =
      ((m.receive data size).1.withRules fw, (m.receive data size).2) := by
  rw [receive, receive]
  cases IPv4.handlePacket data size with
  | none => rfl
  | some call =>
    obtain ⟨handler, srcIp, payload⟩ := call
    cases handler with
    | udp =>
      dsimp only
      rw [handleUdp, handleUdp]
      cases UDP.handlePacket srcIp (payload.of data) payload.size with
      | none => rfl
      | some datagram =>
        dsimp only
        split <;> rfl
    | tcp => rfl
    | icmp => rfl

/-- A packet that the firewall denies is handed to no handler, and all stays as it is. -/
def Mediated (m : Machine) (data : ℕ → U8) (size : U32) : Prop :=
  m.fw.checkPacket (IPv4.packetInfo data) = false →
    IPv4.handlePacket data size = none ∧ m.receive data size = (m, [])

/-- The packet has a header, and its protocol a handler. -/
def Carried (data : ℕ → U8) (size : U32) : Prop :=
  20 ≤ size.toNat ∧ IPv4.transport data ≠ none

theorem carried_iff (data : ℕ → U8) (size : U32) :
    IPv4.handlePacket data size ≠ none ↔ Carried data size := by
  rw [IPv4.handlePacket, Carried]
  by_cases hsize : size < 20
  · have hlt : size.toNat < 20 := BitVec.lt_def.mp hsize
    rw [if_pos hsize]
    exact iff_of_false (fun h => h rfl) fun h => absurd h.1 (Nat.not_le.mpr hlt)
  · have hle : 20 ≤ size.toNat := toNat_le_of_not_lt hsize
    rw [if_neg hsize, and_iff_right hle]
    exact not_congr Option.map_eq_none_iff

/-- **Which packets the firewall keeps out**: none.  A packet is treated as it says only when
it allows the packet, or when there is no handler for it anyway. -/
theorem mediated_iff (m : Machine) (data : ℕ → U8) (size : U32) :
    m.Mediated data size ↔
      m.fw.checkPacket (IPv4.packetInfo data) = true ∨ ¬ Carried data size := by
  rw [← carried_iff, not_not, Mediated]
  cases hcheck : m.fw.checkPacket (IPv4.packetInfo data) with
  | true => exact iff_of_true (fun h => absurd h.symm Bool.false_ne_true) (.inl rfl)
  | false =>
    constructor
    · intro h
      exact .inr (h rfl).1
    · rintro (h | hnone) -
      · exact absurd h Bool.false_ne_true
      · refine ⟨hnone, ?_⟩
        rw [receive, hnone]

/-- A machine whose firewall has its default rule only, which denies everything. -/
def guarded : Machine where
  fw := Firewall.initializeFirewall
  tcp := TCP.initializeTcp 0x0200000A
  st := freshStation 0x0200000A 0x56
  screen := ""

/-- A `SYN` from 10.0.0.3 to port 80 of 10.0.0.2. -/
def synPacket : List U8 :=
  [0x45, 0, 0, 40, 0, 0, 0, 0, 64, 6, 0, 0, 10, 0, 0, 3, 10, 0, 0, 2] ++
    [0x9C, 0x40, 0, 80, 0, 0, 0, 0, 0, 0, 0, 0, 0x50, tcpSyn, 0x20, 0, 0, 0, 0, 0]

/-- **A packet that is denied and opens a connection.** -/
theorem synPacket_not_mediated :
    (guarded.receive (bufferOf synPacket) 40).1.tcp.connections = [1] ∧
      ¬ ∀ (m : Machine) (data : ℕ → U8) (size : U32), m.Mediated data size := by
  refine ⟨by decide, ?_⟩
  intro h
  obtain ⟨hnone, -⟩ := h guarded (bufferOf synPacket) 40 (by decide)
  exact absurd hnone (by decide)

end Machine

end MesaOS.Net
