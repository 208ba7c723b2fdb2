/-
`TCP::listen` and `TCP::accept`.

`listen` makes a connection without a remote address and port, and `find_connection`
compares all four numbers.  So a client's `SYN` does not find it; `handle_packet` makes
a new connection, which the socket of `listen` does not lead to.

* `accept_iff` — which clients `accept` returns.
-/
import MesaOS.RFC793
import MesaOS.TCPLookup

open MachineWord NetworkOrder RFC793

namespace MesaOS.Net

/-! ### Handshakes -/

namespace TCPConnection

theorem switchState_listen (conn : TCPConnection) (hstate : conn.state = .listen) (myIp : U32)
    {flags : U8} (hsyn : hasFlag flags tcpSyn = true) (payload : ℕ → U8) (dataSize : U32) :
    ∃ seq out, conn.switchState myIp flags payload dataSize =
      ({ conn with state := .synReceived, seqNumber := seq }, out, false) := by
  rw [switchState, hstate]
  dsimp only
  rw [if_pos hsyn, sendFlags_eq]
  exact ⟨_, _, rfl⟩

theorem switchState_synReceived (conn : TCPConnection) (hstate : conn.state = .synReceived)
    (myIp : U32) {flags : U8} (hack : hasFlag flags tcpAck = true) (payload : ℕ → U8)
    (dataSize : U32) :
    conn.switchState myIp flags payload dataSize =
      ({ conn with state := .established }, [], false) := by
  rw [switchState, hstate]
  dsimp only
  rw [if_pos hack]

end TCPConnection

/-- A segment from a client's port to port `p`, as RFC 793 lays it out, in a datagram. -/
structure FromClient (clientIp : U32) (clientPort p : U16) (packet : Packet) : Prop where
  src : packet.src = clientIp
  sourcePort : (decode packet.bytes).sourcePort = clientPort
  destinationPort : (decode packet.bytes).destinationPort = p
  header : 20 ≤ packet.bytes.length
  datagram : packet.bytes.length < 2 ^ 16

/-- The packets arrive one after the other. -/
def TCP.receiveAll (t : TCP) (packets : List Packet) : TCP :=
  packets.foldl (fun t packet => (t.receive packet).1) t

/-- Segments to other ports than `p` leave the connection at `fd` as it is. -/
def TCP.LeftAlone (fd : ℕ) (p : U16) (t : TCP) : List Packet → Prop
  | [] => True
  | packet :: rest =>
    ((decode packet.bytes).destinationPort ≠ p →
      (t.receive packet).1.memory fd = t.memory fd) ∧
    TCP.LeftAlone fd p (t.receive packet).1 rest

theorem srcPort_eq (packet : Packet) :
    TCPHeader.srcPort (bufferOf packet.bytes) = swap16 (decode packet.bytes).sourcePort :=
  get16_eq_swap16 _ _

theorem destPort_eq (packet : Packet) :
    TCPHeader.destPort (bufferOf packet.bytes) = swap16 (decode packet.bytes).destinationPort :=
  get16_eq_swap16 _ _

/-- Which clients reach the connection of `listen`. -/
theorem TCP.Reaches.of_listening {t : TCP} {fd : ℕ} {p : U16} {packet : Packet} {size : U32}
    (hends : (t.memory fd).Matches t.myIp 0 p 0)
    (h : t.Reaches fd packet.src (bufferOf packet.bytes) size) :
    packet.src = 0 ∧ (decode packet.bytes).sourcePort = 0 ∧
      (decode packet.bytes).destinationPort = swap16 p := by
  obtain ⟨-, hremote, hport, hrport⟩ := hends
  obtain ⟨-, hremote', hport', hrport'⟩ := matches_of_findConnection h.2
  rw [destPort_eq, hport] at hport'
  rw [srcPort_eq, hrport] at hrport'
  refine ⟨hremote'.symm.trans hremote, ?_, ?_⟩
  · rw [← swap16_swap16 (decode packet.bytes).sourcePort, ← hrport']
    decide
  · rw [hport', swap16_swap16]

/-! ### A client that is not found -/

/-- As long as only such segments and those of one client arrive, the connection waits. -/
theorem TCP.memory_receiveAll {fd : ℕ} {p clientPort : U16} {clientIp : U32}
    (hclient : ¬(clientIp = 0 ∧ clientPort = 0 ∧ swap16 p = p)) {t : TCP} {packets : List Packet}
    (hpackets : ∀ packet ∈ packets, (decode packet.bytes).destinationPort ≠ p ∨
      FromClient clientIp clientPort p packet)
    (hlt : fd < t.nextPointer) (hends : (t.memory fd).Matches t.myIp 0 p 0)
    (halone : t.LeftAlone fd p packets) : (t.receiveAll packets).memory fd = t.memory fd := by
  induction packets generalizing t with
  | nil => rfl
  | cons packet rest ih =>
    obtain ⟨hnext, hip⟩ := t.handlePacket_frame packet.src (bufferOf packet.bytes)
      (BitVec.ofNat 32 packet.bytes.length)
    have hsame : (t.receive packet).1.memory fd = t.memory fd := by
      rcases hpackets packet List.mem_cons_self with hother | hfrom
      · exact halone.1 hother
      · refine handlePacket_memory_of_not_reaches hlt fun hreaches => hclient ?_
        obtain ⟨hsrc, hsport, hdport⟩ := hreaches.of_listening hends
        exact ⟨hfrom.src.symm.trans hsrc, hfrom.sourcePort.symm.trans hsport,
          hdport.symm.trans hfrom.destinationPort⟩
    have hrest := ih (t := (t.receive packet).1)
      (fun q hq => hpackets q (List.mem_cons_of_mem _ hq)) (lt_of_lt_of_le hlt hnext)
      (by rw [hsame, receive, hip]; exact hends) halone.2
    exact hrest.trans hsame

/-! ### A client that is found -/

/-- The connection at `fd` is the one that segments without remote address and port reach. -/
structure TCP.Serving (fd : ℕ) (p : U16) (state : TCPState) (t : TCP) : Prop where
  allocated : t.Allocated
  found : t.findConnection t.myIp 0 p 0 = some fd
  state : (t.memory fd).state = state

theorem TCP.Serving.other {fd : ℕ} {p : U16} {state : TCPState} {t : TCP}
    (h : t.Serving fd p state) (hp : swap16 p = p) {packet : Packet}
    (hother : (decode packet.bytes).destinationPort ≠ p) :
    (t.receive packet).1.Serving fd p state ∧
      (t.receive packet).1.memory fd = t.memory fd := by
  have hreaches : ¬ t.Reaches fd packet.src (bufferOf packet.bytes)
      (BitVec.ofNat 32 packet.bytes.length) := fun hreaches =>
    hother (((hreaches.of_listening (matches_of_findConnection h.found)).2.2).trans hp)
  have hlt := h.allocated fd (mem_of_findConnection h.found)
  have hmemory := handlePacket_memory_of_not_reaches hlt hreaches
  obtain ⟨halloc, hfound⟩ := findConnection_handlePacket h.allocated h.found hreaches
  refine ⟨⟨halloc, ?_, ?_⟩, hmemory⟩
  · rw [receive, (t.handlePacket_frame _ _ _).2]
    exact hfound
  · rw [receive, hmemory]
    exact h.state

theorem TCP.Serving.receiveAll {fd : ℕ} {p : U16} {state : TCPState} {t : TCP}
    (h : t.Serving fd p state) (hp : swap16 p = p) {packets : List Packet}
    (hothers : ∀ packet ∈ packets, (decode packet.bytes).destinationPort ≠ p) :
    (t.receiveAll packets).Serving fd p state ∧ t.LeftAlone fd p packets := by
  induction packets generalizing t with
  | nil => exact ⟨h, trivial⟩
  | cons packet rest ih =>
    obtain ⟨hserving, hmemory⟩ := h.other hp (hothers packet List.mem_cons_self)
    obtain ⟨hlast, halone⟩ := ih hserving fun q hq => hothers q (List.mem_cons_of_mem _ hq)
    exact ⟨hlast, fun _ => hmemory, halone⟩

/-- The connection after a segment that reaches it. -/
theorem TCP.Serving.put {fd : ℕ} {p : U16} {state state' : TCPState} {t : TCP}
    (h : t.Serving fd p state) {conn : TCPConnection} (hstate : conn.state = state')
    (hends : (t.memory fd).SameEnds conn) : (t.put fd conn).Serving fd p state' := by
  refine ⟨h.allocated, ?_, by rw [put_memory_self, hstate]⟩
  rw [findConnection_put hends]
  exact h.found

theorem TCP.Serving.reaches {fd : ℕ} {p : U16} {state : TCPState} {t : TCP}
    (h : t.Serving fd p state) (hp : swap16 p = p) {packet : Packet}
    (hfrom : FromClient 0 0 p packet) :
    t.Reaches fd packet.src (bufferOf packet.bytes) (BitVec.ofNat 32 packet.bytes.length) := by
  have hheader := hfrom.header
  have hdatagram := hfrom.datagram
  refine ⟨?_, ?_⟩
  · rw [BitVec.toNat_ofNat]
    omega
  · rw [destPort_eq, srcPort_eq, hfrom.sourcePort, hfrom.destinationPort, hp, hfrom.src]
    exact h.found

theorem TCP.Serving.syn {fd : ℕ} {p : U16} {t : TCP} (h : t.Serving fd p .listen)
    (hp : swap16 p = p) {packet : Packet} (hfrom : FromClient 0 0 p packet)
    (hsyn : hasFlag (decode packet.bytes).controlBits tcpSyn = true) :
    (t.receive packet).1.Serving fd p .synReceived := by
  obtain ⟨seq, out, hswitch⟩ := (t.acknowledged fd (bufferOf packet.bytes)
    (BitVec.ofNat 32 packet.bytes.length)).switchState_listen h.state t.myIp hsyn _ _
  rw [receive, (h.reaches hp hfrom).handlePacket_eq, deliver_eq_put hswitch]
  exact h.put rfl ⟨rfl, rfl, rfl, rfl⟩

theorem TCP.Serving.ack {fd : ℕ} {p : U16} {t : TCP} (h : t.Serving fd p .synReceived)
    (hp : swap16 p = p) {packet : Packet} (hfrom : FromClient 0 0 p packet)
    (hack : hasFlag (decode packet.bytes).controlBits tcpAck = true) :
    (t.receive packet).1.Serving fd p .established := by
  have hswitch := (t.acknowledged fd (bufferOf packet.bytes)
    (BitVec.ofNat 32 packet.bytes.length)).switchState_synReceived h.state t.myIp hack
    (fun i => bufferOf packet.bytes ((TCPHeader.dataOffset (bufferOf packet.bytes)).toNat + i))
    (BitVec.ofNat 32 packet.bytes.length - TCPHeader.dataOffset (bufferOf packet.bytes))
  rw [receive, (h.reaches hp hfrom).handlePacket_eq, deliver_eq_put hswitch]
  exact h.put rfl ⟨rfl, rfl, rfl, rfl⟩

/-! ### `listen` and `accept` -/

/-- A connection that `listen` has just made. -/
theorem TCP.serving_listen {t : TCP} (halloc : t.Allocated) (p : U16) :
    (t.listen p).1.Serving (t.listen p).2 p .listen := by
  have hcreate : (t.createConnection t.myIp 0 p 0).1.Serving t.nextPointer p .closed := by
    refine ⟨fun q hq => ?_, ?_, ?_⟩
    · rcases List.mem_cons.mp hq with rfl | hq
      · exact Nat.lt_succ_self _
      · exact Nat.lt_succ_of_lt (halloc q hq)
    · have hfound := findConnection_createConnection halloc t.myIp 0 t.myIp 0 p 0 p 0
      rw [if_pos ⟨rfl, rfl, rfl, rfl⟩] at hfound
      exact hfound
    · rw [createConnection]
      dsimp only
      rw [Function.update_self]
  rw [listen]
  exact hcreate.put rfl ⟨rfl, rfl, rfl, rfl⟩

/-- The client's `SYN` and its acknowledgment arrive, among segments to other ports. -/
def Handshake (clientIp : U32) (clientPort p : U16) (packets : List Packet) : Prop :=
  ∃ before syn between ack after, packets = before ++ syn :: between ++ ack :: after ∧
    FromClient clientIp clientPort p syn ∧
    hasFlag (decode syn.bytes).controlBits tcpSyn = true ∧
    FromClient clientIp clientPort p ack ∧
    hasFlag (decode ack.bytes).controlBits tcpAck = true ∧
    ∀ packet ∈ before ++ between ++ after, (decode packet.bytes).destinationPort ≠ p

/-- `accept` returns the client, and segments to other ports have left the socket alone. -/
def Serves (t : TCP) (clientIp : U32) (clientPort p : U16) (packets : List Packet) : Prop :=
  (∃ socket, ((t.listen p).1.receiveAll packets).accept (t.listen p).2 =
    some (socket, clientIp, clientPort)) ∧ (t.listen p).1.LeftAlone (t.listen p).2 p packets

theorem TCP.receiveAll_append (t : TCP) (packets packets' : List Packet) :
    t.receiveAll (packets ++ packets') = (t.receiveAll packets).receiveAll packets' :=
  List.foldl_append

theorem TCP.leftAlone_append {fd : ℕ} {p : U16} {t : TCP} {packets packets' : List Packet} :
    t.LeftAlone fd p (packets ++ packets') ↔
      t.LeftAlone fd p packets ∧ (t.receiveAll packets).LeftAlone fd p packets' := by
  induction packets generalizing t with
  | nil => exact (and_iff_right trivial).symm
  | cons packet rest ih =>
    rw [List.cons_append, LeftAlone, LeftAlone, ih, and_assoc]
    rfl

/-- **Which clients `accept` returns**: those without an address and a port, on a port whose two
bytes are the same. -/
theorem accept_iff {t : TCP} (halloc : t.Allocated) (hnext : 0 < t.nextPointer)
    (clientIp : U32) (clientPort p : U16) (packets : List Packet)
    (hpackets : Handshake clientIp clientPort p packets) :
    Serves t clientIp clientPort p packets ↔
      clientIp = 0 ∧ clientPort = 0 ∧ swap16 p = p := by
  obtain ⟨before, syn, between, ack, after, rfl, hsyn, hsynFlag, hack, hackFlag, hothers⟩ :=
    hpackets
  have hserving := TCP.serving_listen halloc p
  have hends := TCP.matches_of_findConnection hserving.found
  have hlt := hserving.allocated _ (TCP.mem_of_findConnection hserving.found)
  constructor
  · rintro ⟨⟨socket, haccept⟩, halone⟩
    by_contra hclient
    have hmemory := TCP.memory_receiveAll hclient (fun packet hpacket => ?_) hlt hends halone
    · rw [TCP.accept, hmemory, hserving.state, if_pos (.inr (by decide))] at haccept
      exact absurd haccept (by simp)
    · simp only [List.mem_append, List.mem_cons] at hpacket hothers
      rcases hpacket with (hpacket | rfl | hpacket) | rfl | hpacket
      · exact .inl (hothers packet (.inl (.inl hpacket)))
      · exact .inr hsyn
      · exact .inl (hothers packet (.inl (.inr hpacket)))
      · exact .inr hack
      · exact .inl (hothers packet (.inr hpacket))
  · rintro ⟨rfl, rfl, hp⟩
    simp only [List.mem_append] at hothers
    obtain ⟨h1, halone1⟩ := hserving.receiveAll hp fun q hq => hothers q (.inl (.inl hq))
    have h2 := h1.syn hp hsyn hsynFlag
    obtain ⟨h3, halone3⟩ := h2.receiveAll hp fun q hq => hothers q (.inl (.inr hq))
    have h4 := h3.ack hp hack hackFlag
    obtain ⟨h5, halone5⟩ := h4.receiveAll hp fun q hq => hothers q (.inr hq)
    have hrun : (t.listen p).1.receiveAll (before ++ syn :: between ++ ack :: after) =
        ((((((t.listen p).1.receiveAll before).receive syn).1.receiveAll between).receive
          ack).1).receiveAll after := by
      rw [TCP.receiveAll_append, TCP.receiveAll_append]
      rfl
    refine ⟨⟨(t.listen p).2, ?_⟩, ?_⟩
    · have hnull : (t.listen p).2 ≠ 0 := Nat.ne_of_gt hnext
      obtain ⟨-, hremote, -, hrport⟩ := TCP.matches_of_findConnection h5.found
      rw [hrun, TCP.accept, h5.state, hremote, hrport,
        if_neg (not_or.mpr ⟨hnull, not_not.mpr rfl⟩)]
    · rw [TCP.leftAlone_append, TCP.leftAlone_append]
      refine ⟨⟨halone1, fun hother => absurd hsyn.destinationPort hother, halone3⟩,
        fun hother => absurd hack.destinationPort hother, ?_⟩
      rw [TCP.receiveAll_append]
      exact halone5

/-- A segment without data, in network byte order. -/
def clientSegment (clientIp : U32) (clientPort p : U16) (seq ack : U32) (flags : U8) : Packet where
  src := clientIp
  dst := 0x0A000001
  bytes := (le16 clientPort).reverse ++ (le16 p).reverse ++ (le32 seq).reverse ++
    (le32 ack).reverse ++ [0x50, flags] ++ (le16 8192).reverse ++ [0, 0, 0, 0]

/-- The three-way handshake, as far as the server receives it. -/
def clientHandshake (clientIp : U32) (clientPort p : U16) : List Packet :=
  [clientSegment clientIp clientPort p 5000 0 tcpSyn,
    clientSegment clientIp clientPort p 5001 0x12345679 tcpAck]

theorem accept_iff_anyone :
    Serves (TCP.initializeTcp 0x0A000001) 0 0 0x1111 (clientHandshake 0 0 0x1111) :=
  (accept_iff (fun _ h => absurd h List.not_mem_nil) (by decide) 0 0 0x1111 _
    ⟨[], _, [], _, [], rfl, ⟨rfl, rfl, by decide, by decide, by decide⟩, by decide,
      ⟨rfl, rfl, by decide, by decide, by decide⟩, by decide,
      fun _ h => absurd h List.not_mem_nil⟩).mpr ⟨rfl, rfl, by decide⟩

/-- **A client is not accepted**: 10.0.0.2 from port 40000, on port 80. -/
theorem client_not_accepted :
    Handshake 0x0A000002 40000 80 (clientHandshake 0x0A000002 40000 80) ∧
      (((TCP.initializeTcp 0x0A000001).listen 80).1.receiveAll
        (clientHandshake 0x0A000002 40000 80)).accept 1 = none ∧
      ¬ Serves (TCP.initializeTcp 0x0A000001) 0x0A000002 40000 80
        (clientHandshake 0x0A000002 40000 80) := by
  have haccept : (((TCP.initializeTcp 0x0A000001).listen 80).1.receiveAll
      (clientHandshake 0x0A000002 40000 80)).accept 1 = none := by decide +kernel
  refine ⟨⟨[], _, [], _, [], rfl, ⟨rfl, by decide, by decide, by decide, by decide⟩, by decide,
    ⟨rfl, by decide, by decide, by decide, by decide⟩, by decide,
    fun _ h => absurd h List.not_mem_nil⟩, haccept, ?_⟩
  rintro ⟨⟨socket, hsocket⟩, -⟩
  exact absurd (haccept.symm.trans hsocket) (by simp)

end MesaOS.Net
