/-
The path of a datagram (`net/ethernet.cpp`, `net/ipv4.cpp`, `net/udp.cpp`).

`Ethernet::handle_packet`, `IPv4::handle_packet` and `UDP::handle_packet` each hand a part
of the bytes that they have got to the next one.  `IPv4::handle_packet` takes the length of
that part from the header and compares it with nothing.

* `slice_iff` — the part is among the received bytes just when the lengths in the header
  are in order;
* `receive_sendPacket` — what `UDP::send_packet` sends is received, whatever padding
  follows.
-/
import MesaOS.ARP
import MesaOS.TCP

open MachineWord NetworkOrder

namespace MesaOS.Net

/-- A host, and `IPv4::subnet_mask`. -/
structure Station extends Host where
  subnetMask : U32

/-- A part of a packet: where it starts and its size. -/
structure Slice where
  offset : ℕ
  size : U32
  deriving DecidableEq

/-- The part as a buffer of its own. -/
def Slice.of (data : ℕ → U8) (s : Slice) : ℕ → U8 := fun i => data (s.offset + i)

/-! ### Receiving -/

inductive EtherHandler where
  | arp
  | ipv4
  | ipv6
  deriving DecidableEq

/-- `Ethernet::handle_packet`: which handler is called, and on what. -/
def Ethernet.handlePacket (data : ℕ → U8) (size : U32) : Option (EtherHandler × Slice) :=
  if size < 14 then none
  else
    let type := get16 data 12
    let payload : Slice := { offset := 14, size := size - 14 }
    if type = 0x0608 ∨ type = 0x0806 ∨ type = swapUint16 0x0806 then some (.arp, payload)
    else if type = 0x0008 ∨ type = 0x0800 ∨ type = swapUint16 0x0800 then some (.ipv4, payload)
    else if type = 0xDD86 ∨ type = swapUint16 0x86DD then some (.ipv6, payload)
    else none

inductive Transport where
  | udp
  | tcp
  | icmp
  deriving DecidableEq

namespace IPv4

/-- `(header->version_ihl & 0x0F) * 4` -/
def headerSize (data : ℕ → U8) : U32 := (data 0 &&& 0x0F).setWidth 32 * 4

/-- `swap_uint16(header->length)` -/
def totalLength (data : ℕ → U8) : U16 := swapUint16 (get16 data 2)

def srcIp (data : ℕ → U8) : U32 := get32 data 12

def destIp (data : ℕ → U8) : U32 := get32 data 16

/-- The handler for the protocol in the header. -/
def transport (data : ℕ → U8) : Option Transport :=
  if data 9 = 17 then some .udp
  else if data 9 = 6 then some .tcp
  else if data 9 = 1 then some .icmp
  else none

/-- `IPv4::handle_packet`: which handler is called, the sender's address, and the payload. -/
def handlePacket (data : ℕ → U8) (size : U32) : Option (Transport × U32 × Slice) :=
  if size < 20 then none
  else
    let payload : Slice :=
      { offset := (headerSize data).toNat
        size := (totalLength data).setWidth 32 - headerSize data }
    (transport data).map fun handler => (handler, srcIp data, payload)

end IPv4

/-- What `UDP::handle_packet` finds in its arguments. -/
structure Datagram where
  srcIp : U32
  destPort : U16
  payload : List U8
  deriving DecidableEq

/-- `UDP::handle_packet` -/
def UDP.handlePacket (srcIp : U32) (data : ℕ → U8) (size : U32) : Option Datagram :=
  if size < 8 then none
  else
    some
      { srcIp := srcIp, destPort := swapUint16 (get16 data 2)
        payload := (List.range (size - 8).toNat).map fun i => data (8 + i) }

/-- A frame is handed from `Ethernet::handle_packet` to `UDP::handle_packet`. -/
def UDP.receive (data : ℕ → U8) (size : U32) : Option Datagram := do
  let (.ipv4, packet) ← Ethernet.handlePacket data size | none
  let (.udp, srcIp, datagram) ← IPv4.handlePacket (packet.of data) packet.size | none
  UDP.handlePacket srcIp (datagram.of (packet.of data)) datagram.size

/-! ### Sending -/

namespace IPv4

/-- `calculate_checksum` -/
def calculateChecksum (addr : ℕ → U8) (count : ℕ) : U16 :=
  let sum := (List.range (count / 2)).foldl
    (fun sum i => sum + (get16 addr (2 * i)).setWidth 32) (0 : U32)
  let sum := if count % 2 > 0 then sum + (addr (count - 1)).setWidth 32 else sum
  ~~~ (foldSum sum).setWidth 16

/-- The header of a packet with `size` bytes of payload. -/
def header (st : Station) (id : U16) (destIp : U32) (protocol : U8) (size : ℕ)
    (checksum : U16) : List U8 :=
  [(4 <<< 4 ||| 5 : U8), 0] ++ le16 (swapUint16 (BitVec.ofNat 16 (20 + size))) ++ le16 (swapUint16 id) ++
    le16 0 ++ [64, protocol] ++ le16 checksum ++ le32 st.myIp ++ le32 destIp

/-- The address that a packet is sent to on the link. -/
def nextHop (st : Station) (destIp : U32) : U32 :=
  if st.gatewayIp ≠ 0 ∧ st.subnetMask ≠ 0 then
    if destIp &&& st.subnetMask ≠ st.myIp &&& st.subnetMask then st.gatewayIp else destIp
  else destIp

/-- `IPv4::send_packet`: the next identification, and the frames. -/
def sendPacket (st : Station) (nextId : U16) (destIp : U32) (protocol : U8) (data : List U8) :
    U16 × List (List U8) :=
  let checksum := calculateChecksum
    (bufferOf (header st nextId destIp protocol data.length 0)) 20
  let packet := header st nextId destIp protocol data.length checksum ++ data
  let (destMac, requests) := ARP.resolve st.toHost (nextHop st destIp)
  (nextId + 1, requests ++ [Ethernet.sendPacket st.toHost destMac 0x0800 packet])

end IPv4

/-- The header that `UDP::send_packet` puts before `data`. -/
def UDP.datagram (srcPort destPort : U16) (data : List U8) : List U8 :=
  le16 (swapUint16 srcPort) ++ le16 (swapUint16 destPort) ++
    le16 (swapUint16 (BitVec.ofNat 16 (data.length + 8))) ++ le16 0 ++ data

/-- `UDP::send_packet` -/
def UDP.sendPacket (st : Station) (nextId : U16) (destIp : U32) (srcPort destPort : U16)
    (data : List U8) : U16 × List (List U8) :=
  IPv4.sendPacket st nextId destIp 0x11 (UDP.datagram srcPort destPort data)

/-! ### The lengths in the header -/

theorem swapUint16_eq (val : U16) : swapUint16 val = swap16 val := by
  apply BitVec.eq_of_getLsbD_eq
  intro i hi
  rw [swapUint16, swap16, BitVec.getLsbD_or, BitVec.getLsbD_shiftLeft, BitVec.getLsbD_ushiftRight,
    BitVec.getLsbD_append]
  by_cases hlow : i < 8
  · simp [hi, hlow]
  · have hhigh : val.getLsbD (8 + i) = false := BitVec.getLsbD_of_ge _ _ (by omega)
    simp [hi, hlow, hhigh, show i - 8 < 8 by omega]

theorem swapUint16_swapUint16 (val : U16) : swapUint16 (swapUint16 val) = val := by
  rw [swapUint16_eq, swapUint16_eq, swap16_swap16]

namespace IPv4

theorem headerSize_toNat (data : ℕ → U8) :
    (headerSize data).toNat = 4 * ((data 0).toNat % 16) := by
  have hmask : (data 0 &&& (0x0F : U8)).toNat = (data 0).toNat % 2 ^ 4 :=
    toNat_and_lowMask (data 0) (k := 4) (by omega)
  rw [headerSize, BitVec.toNat_mul, BitVec.toNat_setWidth, hmask, show (4 : U32).toNat = 4 from rfl]
  omega

/-- The payload is among the received bytes, behind a header of at least 20 bytes, and as long as
the header says. -/
def SliceOk (data : ℕ → U8) (size : U32) : Prop :=
  ∀ handler src payload, handlePacket data size = some (handler, src, payload) →
    20 ≤ payload.offset ∧ payload.offset + payload.size.toNat = (totalLength data).toNat ∧
      payload.offset + payload.size.toNat ≤ size.toNat

/-- The header is at least 20 bytes long and not longer than the packet, which is not longer
than what has been received. -/
def LengthsOk (data : ℕ → U8) (size : U32) : Prop :=
  5 ≤ (data 0).toNat % 16 ∧ 4 * ((data 0).toNat % 16) ≤ (totalLength data).toNat ∧
    (totalLength data).toNat ≤ size.toNat

/-- **Which packets are handed on within their bounds**: those for which no handler is called,
and those whose lengths are in order. -/
theorem slice_iff (data : ℕ → U8) (size : U32) :
    SliceOk data size ↔ (20 ≤ size.toNat → transport data ≠ none → LengthsOk data size) := by
  have hheader := headerSize_toNat data
  have htotal := (totalLength data).isLt
  have hwide : ((totalLength data).setWidth 32).toNat = (totalLength data).toNat := by
    rw [BitVec.toNat_setWidth]
    omega
  have hsub := BitVec.toNat_sub ((totalLength data).setWidth 32) (headerSize data)
  rw [hwide, hheader] at hsub
  -- a packet that is too short, or has no handler, is not handed on
  by_cases hsize : size < 20
  · have hlt : size.toNat < 20 := BitVec.lt_def.mp hsize
    refine iff_of_true (fun handler src payload h => ?_) fun h => absurd h (by omega)
    rw [handlePacket, if_pos hsize] at h
    exact absurd h.symm (Option.some_ne_none _)
  have hle : 20 ≤ size.toNat := toNat_le_of_not_lt hsize
  rw [imp_iff_right hle]
  cases htransport : transport data with
  | none =>
    refine iff_of_true (fun handler src payload h => ?_) fun h => absurd rfl h
    rw [handlePacket, if_neg hsize, htransport] at h
    exact absurd h.symm (Option.some_ne_none _)
  | some handler =>
    rw [imp_iff_right (Option.some_ne_none handler)]
    -- the source subtracts the header from the length without a test: the difference may wrap around
    have hcall : handlePacket data size = some (handler, srcIp data,
        { offset := (headerSize data).toNat
          size := (totalLength data).setWidth 32 - headerSize data }) := by
      rw [handlePacket, if_neg hsize, htransport]
      rfl
    constructor
    · intro h
      obtain ⟨hmin, hlength, hwithin⟩ := h _ _ _ hcall
      dsimp only at hmin hlength hwithin
      refine ⟨by omega, by omega, by omega⟩
    · rintro ⟨hmin, hlength, hwithin⟩ handler' src payload h
      rw [hcall, Option.some_inj, Prod.mk.injEq, Prod.mk.injEq] at h
      obtain ⟨-, -, rfl⟩ := h
      dsimp only
      rw [hsub]
      omega

/-- The header of a datagram, with a length of 1500. -/
def longLength : List U8 := [0x45, 0, 0x05, 0xDC, 0, 0, 0, 0, 64, 17]

/-- **A payload that was not received**: 20 bytes have come in, and `UDP::handle_packet` is given
1480 more. -/
theorem longLength_not_sliceOk : ¬ ∀ data size, SliceOk data size := by
  intro h
  have hslice := h (bufferOf longLength) 20 .udp 0 { offset := 20, size := 1480 } (by decide)
  exact absurd hslice.2.2 (by decide)

end IPv4

/-! ### A datagram that is sent and received -/

/-- A part of a list of bytes that starts behind `before`. -/
theorem Slice.of_append (before rest : List U8) (size : U32) :
    Slice.of (bufferOf (before ++ rest)) { offset := before.length, size := size } =
      bufferOf rest := funext fun i => bufferOf_append before rest i

/-- A frame with an IPv4 packet in it, and what follows the frame. -/
theorem Ethernet.handlePacket_sendPacket (host : Host) (destMac : Mac) (packet padding : List U8)
    (hsize : (sendPacket host destMac 0x0800 packet ++ padding).length < 2 ^ 32) :
    ∃ s : Slice, s.size = BitVec.ofNat 32 (packet ++ padding).length ∧
      handlePacket (bufferOf (sendPacket host destMac 0x0800 packet ++ padding))
        (BitVec.ofNat 32 (sendPacket host destMac 0x0800 packet ++ padding).length) =
        some (.ipv4, s) ∧
      s.of (bufferOf (sendPacket host destMac 0x0800 packet ++ padding)) =
        bufferOf (packet ++ padding) := by
  set macs := destMac.bytes ++ (getMacAddress host).bytes with hmacs
  have hmacs12 : macs.length = 12 := by
    rw [hmacs, List.length_append, destMac.size, (getMacAddress host).size]
  set front := macs ++ le16 (swapUint16 0x0800) with hfront
  have hfront14 : front.length = 14 := by
    rw [hfront, List.length_append, hmacs12]
    rfl
  have hbytes : sendPacket host destMac 0x0800 packet ++ padding = front ++ (packet ++ padding) := by
    rw [sendPacket, ← hmacs, ← hfront, List.append_assoc]
  -- the type stands behind the two hardware addresses
  have htype : get16 (bufferOf (front ++ (packet ++ padding))) 12 = swapUint16 0x0800 :=
    get16_eq macs (by rw [hfront, List.append_assoc]) hmacs12
  rw [hbytes] at hsize ⊢
  have hlength : (front ++ (packet ++ padding)).length = 14 + (packet ++ padding).length := by
    rw [List.length_append, hfront14]
  have hlong : ¬ BitVec.ofNat 32 (front ++ (packet ++ padding)).length < (14 : U32) :=
    not_ofNat_lt (hlength ▸ Nat.le_add_right _ _) hsize
  refine ⟨{ offset := 14, size := BitVec.ofNat 32 (front ++ (packet ++ padding)).length - 14 },
    ?_, ?_, ?_⟩
  · rw [hlength, BitVec.ofNat_add, BitVec.add_comm]
    exact BitVec.add_sub_cancel ..
  · rw [handlePacket, if_neg hlong, htype]
    dsimp only
    rw [if_neg (by decide), if_pos (by decide)]
  · rw [← hfront14]
    exact Slice.of_append front _ _

theorem IPv4.length_header (st : Station) (id : U16) (destIp : U32) (protocol : U8) (size : ℕ)
    (checksum : U16) : (header st id destIp protocol size checksum).length = 20 := rfl

/-- What `handle_packet` reads in a header of `send_packet`, with anything behind it. -/
theorem IPv4.read_header (st : Station) (id : U16) (destIp : U32) (protocol : U8) (size : ℕ)
    (checksum : U16) (rest : List U8) :
    headerSize (bufferOf (header st id destIp protocol size checksum ++ rest)) = 20 ∧
      bufferOf (header st id destIp protocol size checksum ++ rest) 9 = protocol ∧
      totalLength (bufferOf (header st id destIp protocol size checksum ++ rest)) =
        BitVec.ofNat 16 (20 + size) ∧
      srcIp (bufferOf (header st id destIp protocol size checksum ++ rest)) = st.myIp := by
  set version : List U8 := [4 <<< 4 ||| 5, 0] with hversion
  set length := le16 (swapUint16 (BitVec.ofNat 16 (20 + size))) with hlength
  set middle := version ++ length ++ le16 (swapUint16 id) ++ le16 0 with hmiddle
  set front := middle ++ [64, protocol] ++ le16 checksum with hfront
  have hbytes : header st id destIp protocol size checksum = front ++ le32 st.myIp ++ le32 destIp :=
    rfl
  rw [hbytes]
  refine ⟨?_, ?_, ?_, ?_⟩
  · have hfirst : bufferOf (front ++ le32 st.myIp ++ le32 destIp ++ rest) 0 = 4 <<< 4 ||| 5 := rfl
    rw [headerSize, hfirst]
    decide
  · rfl
  · have hget : get16 (bufferOf (front ++ le32 st.myIp ++ le32 destIp ++ rest)) 2 =
        swapUint16 (BitVec.ofNat 16 (20 + size)) :=
      get16_eq version (by simp only [hfront, hmiddle, hlength, List.append_assoc]; rfl) rfl
    rw [totalLength, hget, swapUint16_swapUint16]
  · exact get32_eq front (by simp only [List.append_assoc]; rfl) rfl

/-- A packet of `IPv4::send_packet`, and what follows it. -/
theorem IPv4.handlePacket_header (st : Station) (id : U16) (destIp : U32) (checksum : U16)
    (data padding : List U8) (hdata : 20 + data.length < 2 ^ 16)
    (hsize : (header st id destIp 0x11 data.length checksum ++ data ++ padding).length < 2 ^ 32) :
    ∃ s : Slice, s.size = BitVec.ofNat 32 data.length ∧
      handlePacket (bufferOf (header st id destIp 0x11 data.length checksum ++ data ++ padding))
        (BitVec.ofNat 32
          (header st id destIp 0x11 data.length checksum ++ data ++ padding).length) =
        some (.udp, st.myIp, s) ∧
      s.of (bufferOf (header st id destIp 0x11 data.length checksum ++ data ++ padding)) =
        bufferOf (data ++ padding) := by
  rw [List.append_assoc] at hsize ⊢
  obtain ⟨hheader, hprotocol, htotal, hsrc⟩ :=
    read_header st id destIp 0x11 data.length checksum (data ++ padding)
  have hlong : ¬ BitVec.ofNat 32
      (header st id destIp 0x11 data.length checksum ++ (data ++ padding)).length < (20 : U32) := by
    refine not_ofNat_lt ?_ hsize
    rw [List.length_append, length_header]
    exact Nat.le_add_right _ _
  have htransport : transport (bufferOf
      (header st id destIp 0x11 data.length checksum ++ (data ++ padding))) = some .udp := by
    rw [transport, hprotocol, if_pos rfl]
  -- the length in the header does not count the padding
  have hwide : (BitVec.ofNat 16 (20 + data.length)).setWidth 32 - 20 =
      BitVec.ofNat 32 data.length := by
    apply BitVec.eq_of_toNat_eq
    rw [BitVec.toNat_sub, BitVec.toNat_setWidth, BitVec.toNat_ofNat, BitVec.toNat_ofNat,
      Nat.mod_eq_of_lt hdata, show (20 : U32).toNat = 20 from rfl]
    omega
  refine ⟨{ offset := 20, size := BitVec.ofNat 32 data.length }, rfl, ?_, ?_⟩
  · rw [handlePacket, if_neg hlong, htransport, hheader, htotal, hsrc, hwide]
    rfl
  · rw [← length_header st id destIp 0x11 data.length checksum]
    exact Slice.of_append _ _ _

theorem UDP.handlePacket_datagram (srcIp : U32) (srcPort destPort : U16)
    (data padding : List U8) (hdata : 8 + data.length < 2 ^ 16) :
    handlePacket srcIp (bufferOf (datagram srcPort destPort data ++ padding))
      (BitVec.ofNat 32 (datagram srcPort destPort data).length) =
      some { srcIp := srcIp, destPort := destPort, payload := data } := by
  set front := le16 (swapUint16 srcPort) ++ le16 (swapUint16 destPort) ++
    le16 (swapUint16 (BitVec.ofNat 16 (data.length + 8))) ++ le16 0 with hfront
  have hbytes : datagram srcPort destPort data = front ++ data := rfl
  have hlength : (front ++ data).length = 8 + data.length := by
    rw [List.length_append]
    rfl
  have hport : get16 (bufferOf (front ++ (data ++ padding))) 2 = swapUint16 destPort :=
    get16_eq (le16 (swapUint16 srcPort)) (by simp only [hfront, List.append_assoc]; rfl) rfl
  have hsize : (BitVec.ofNat 32 (8 + data.length) - (8 : U32)).toNat = data.length := by
    rw [BitVec.toNat_sub, BitVec.toNat_ofNat, show (8 : U32).toNat = 8 from rfl]
    omega
  have hlong : ¬ BitVec.ofNat 32 (8 + data.length) < (8 : U32) :=
    not_ofNat_lt (Nat.le_add_right _ _) (by omega)
  have hpayload : (List.range data.length).map (fun i =>
      bufferOf (front ++ (data ++ padding)) (8 + i)) = data := by
    refine Eq.trans (List.map_congr_left fun i _ => ?_) (map_bufferOf_append data padding)
    exact bufferOf_append front (data ++ padding) i
  rw [hbytes, hlength, List.append_assoc, handlePacket, if_neg hlong, hport, swapUint16_swapUint16,
    hsize, hpayload]

/-- **What `UDP::send_packet` sends is received**, with the sender's address, the port and the
whole payload, whatever padding follows the frame. -/
theorem receive_sendPacket (st : Station) (nextId : U16) (destIp : U32) (srcPort destPort : U16)
    (payload padding : List U8) (hpayload : payload.length ≤ 65507)
    (hsize : 42 + payload.length + padding.length < 2 ^ 32) :
    ∃ requests frame, (UDP.sendPacket st nextId destIp srcPort destPort payload).2 =
        requests ++ [frame] ∧
      UDP.receive (bufferOf (frame ++ padding)) (BitVec.ofNat 32 (frame ++ padding).length) =
        some { srcIp := st.myIp, destPort := destPort, payload := payload } := by
  set data := UDP.datagram srcPort destPort payload with hdata
  have hdata8 : data.length = 8 + payload.length := by
    rw [hdata, UDP.datagram, List.length_append]
    rfl
  set checksum := IPv4.calculateChecksum
    (bufferOf (IPv4.header st nextId destIp 0x11 data.length 0)) 20
  set packet := IPv4.header st nextId destIp 0x11 data.length checksum ++ data with hpacket
  have hpacket28 : packet.length = 28 + payload.length := by
    rw [hpacket, List.length_append, hdata8]
    exact (Nat.add_assoc 20 8 payload.length).symm
  rcases hresolve : ARP.resolve st.toHost (IPv4.nextHop st destIp) with ⟨destMac, requests⟩
  refine ⟨requests, Ethernet.sendPacket st.toHost destMac 0x0800 packet, ?_, ?_⟩
  · rw [UDP.sendPacket, IPv4.sendPacket, hresolve]
  -- the frame is taken apart layer by layer; only the datagram's own length cuts the padding off
  · have hframe : (Ethernet.sendPacket st.toHost destMac 0x0800 packet ++ padding).length <
        2 ^ 32 := by
      rw [Ethernet.sendPacket, List.length_append, List.length_append, List.length_append,
        List.length_append, destMac.size, (Ethernet.getMacAddress st.toHost).size, hpacket28]
      exact (by omega : 6 + 6 + 2 + (28 + payload.length) + padding.length < 2 ^ 32)
    have hrest : (packet ++ padding).length < 2 ^ 32 := by
      rw [List.length_append, hpacket28]
      omega
    obtain ⟨s, hs, hether, hof⟩ :=
      Ethernet.handlePacket_sendPacket st.toHost destMac packet padding hframe
    obtain ⟨t, ht, hip, hof'⟩ :=
      IPv4.handlePacket_header st nextId destIp checksum data padding (by omega) hrest
    rw [UDP.receive, hether]
    dsimp only [Option.bind_eq_bind, Option.bind_some]
    rw [hof, hs, hip]
    dsimp only [Option.bind_some]
    rw [hof', ht]
    exact UDP.handlePacket_datagram st.myIp srcPort destPort payload padding (by omega)

/-- A station without netmask and gateway. -/
def freshStation (ip : U32) (last : U8) : Station := { freshHost ip last with subnetMask := 0 }

theorem receive_sendPacket_padded :
    ∃ requests frame, (UDP.sendPacket (freshStation 0x0A000001 0x56) 0x1234 0x0A000002 68 67
        [0x68, 0x69]).2 = requests ++ [frame] ∧
      UDP.receive (bufferOf (frame ++ List.replicate 16 0))
        (BitVec.ofNat 32 (frame ++ List.replicate 16 0).length) =
        some { srcIp := 0x0A000001, destPort := 67, payload := [0x68, 0x69] } :=
  receive_sendPacket (freshStation 0x0A000001 0x56) 0x1234 0x0A000002 68 67 [0x68, 0x69]
    (List.replicate 16 0) (by decide) (by decide)

end MesaOS.Net
