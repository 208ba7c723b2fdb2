/-
IPv6 packets (`net/ipv6.cpp`).

The version is the upper half of the first byte of a packet.  `IPv6::handle_packet` and
`IPv6::send_packet` have it at the top of a word that they read and write in the order of the
machine, which is the upper half of the fourth byte.  The payload length in the header is
compared with nothing.

* `received_iff` — which packets are received as they should be, and that no packet is sent
  with its version in place.
-/
import MesaOS.IPv4

open MachineWord NetworkOrder

namespace MesaOS.Net

/-- An address of 16 bytes. -/
structure IPv6Addr where
  bytes : List U8
  size : bytes.length = 16
  deriving DecidableEq

/-- The sixteen bytes at index `i`. -/
def addrAt (data : ℕ → U8) (i : ℕ) : IPv6Addr := ⟨(List.range 16).map fun k => data (i + k), by simp⟩

/-- The static members of `IPv6`. -/
structure IPv6 where
  linkLocalAddr : IPv6Addr
  globalAddr : IPv6Addr
  hasGlobalAddr : Bool

inductive IPv6Handler where
  | tcp
  | udp
  | icmpv6
  deriving DecidableEq

namespace IPv6

/-- `IPv6::initialize`: the address for a hardware address. -/
def init (mac : Mac) : IPv6 where
  linkLocalAddr := addrAt (bufferOf ([0xfe, 0x80, 0, 0, 0, 0, 0, 0, bufferOf mac.bytes 0 ^^^ 0x02] ++
    (mac.bytes.drop 1).take 2 ++ [0xff, 0xfe] ++ mac.bytes.drop 3)) 0
  globalAddr := addrAt (fun _ => 0) 0
  hasGlobalAddr := false

/-- `IPv6::set_global_addr` -/
def setGlobalAddr (v6 : IPv6) (addr : IPv6Addr) : IPv6 :=
  { v6 with globalAddr := addr, hasGlobalAddr := true }

/-! ### Receiving -/

/-- `(header->version_traffic_flow >> 28) & 0xF` -/
def version (data : ℕ → U8) : U8 := (get32 data 0 >>> 28).setWidth 8 &&& 0xF

/-- `__builtin_bswap16(header->payload_length)` -/
def payloadLength (data : ℕ → U8) : U16 := swapUint16 (get16 data 4)

def srcAddr (data : ℕ → U8) : IPv6Addr := addrAt data 8

def destAddr (data : ℕ → U8) : IPv6Addr := addrAt data 24

/-- `is_for_us` -/
def IsForUs (v6 : IPv6) (addr : IPv6Addr) : Prop :=
  addr = v6.linkLocalAddr ∨ v6.hasGlobalAddr = true ∧ addr = v6.globalAddr

instance (v6 : IPv6) (addr : IPv6Addr) : Decidable (v6.IsForUs addr) :=
  inferInstanceAs (Decidable (_ ∨ _))

/-- The handler for the next header. -/
def handler (data : ℕ → U8) : Option IPv6Handler :=
  if data 6 = 6 then some .tcp
  else if data 6 = 17 then some .udp
  else if data 6 = 58 then some .icmpv6
  else none

/-- `IPv6::handle_packet`: which handler is called, the sender's address, and the payload. -/
def handlePacket (v6 : IPv6) (data : ℕ → U8) (size : U32) :
    Option (IPv6Handler × IPv6Addr × Slice) :=
  if size < 40 then none
  else if version data ≠ 6 then none
  else if ¬ v6.IsForUs (destAddr data) then none
  else
    let payload : Slice := { offset := 40, size := (payloadLength data).setWidth 32 }
    (handler data).map fun handler => (handler, srcAddr data, payload)

/-! ### Sending -/

/-- The header of a packet. -/
def header (v6 : IPv6) (dest : IPv6Addr) (nextHeader : U8) (payloadSize : U32) : List U8 :=
  let src := if v6.hasGlobalAddr then v6.globalAddr else v6.linkLocalAddr
  le32 ((6 : U32) <<< 28) ++ le16 (swapUint16 (payloadSize.setWidth 16)) ++ [nextHeader, 64] ++
    src.bytes ++ dest.bytes

/-- `IPv6::send_packet`: the frame.  `block` is what `kmalloc` returns, with the bytes in it;
a payload that is not there leaves these bytes behind the header. -/
def sendPacket (v6 : IPv6) (host : Host) (dest : IPv6Addr) (nextHeader : U8)
    (payload : Option (ℕ → U8)) (payloadSize : U32) (block : Option (ℕ → U8)) :
    Option (List U8) :=
  block.map fun packet =>
    let packetSize := 40 + payloadSize
    let bytes := header v6 dest nextHeader payloadSize ++ (List.range payloadSize.toNat).map
      (payload.getD fun i => packet (40 + i))
    Ethernet.sendPacket host broadcastMac 0x86DD (bytes.take packetSize.toNat)

/-! ### The version -/

/-- The version of a packet, in the upper half of its first byte. -/
def wireVersion (data : ℕ → U8) : U8 := data 0 >>> 4

/-- `handle_packet` reads the version in the fourth byte. -/
theorem version_eq (data : ℕ → U8) : version data = data 3 >>> 4 := by
  apply BitVec.eq_of_getLsbD_eq
  intro i hi
  rw [version, get32, BitVec.getLsbD_and, BitVec.getLsbD_setWidth, BitVec.getLsbD_ushiftRight,
    BitVec.getLsbD_append, BitVec.getLsbD_ushiftRight]
  have hmask : (0xF : U8).getLsbD i = decide (i < 4) :=
    (by decide : ∀ i : Fin 8, (0xF : U8).getLsbD i = decide (i.val < 4)) ⟨i, hi⟩
  rw [hmask]
  -- the word is read with its first byte lowest, so its upper four bits are in the fourth
  by_cases hlow : i < 4
  · have hbit : 28 + i - 8 - 8 - 8 = 4 + i := by omega
    rw [if_neg (by omega), BitVec.getLsbD_append, if_neg (by omega), BitVec.getLsbD_append,
      if_neg (by omega), hbit, decide_eq_true hi, decide_eq_true hlow, Bool.true_and, Bool.and_true]
  · rw [decide_eq_false hlow, Bool.and_false]
    exact (BitVec.getLsbD_of_ge _ _ (by omega)).symm

/-- The first byte of a packet that is sent is zero. -/
theorem wireVersion_sendPacket {v6 : IPv6} {host : Host} {dest : IPv6Addr} {nextHeader : U8}
    {payload : Option (ℕ → U8)} {payloadSize : U32} {block : Option (ℕ → U8)} {frame : List U8}
    (h : sendPacket v6 host dest nextHeader payload payloadSize block = some frame) :
    wireVersion (bufferOf (Ethernet.payload frame)) = 0 := by
  obtain ⟨packet, -, rfl⟩ := Option.map_eq_some_iff.mp h
  dsimp only
  rw [Ethernet.payload_sendPacket, wireVersion, header]
  have hfirst : ((6 : U32) <<< 28).extractLsb' 0 8 = 0 := by decide
  -- the sum may wrap around, and then the frame has no byte of the packet
  cases (40 + payloadSize).toNat with
  | zero =>
    rw [List.take_zero]
    rfl
  | succ n =>
    rw [le32, hfirst]
    simp only [List.cons_append, List.take_succ_cons, bufferOf, List.getD_cons_zero]
    rfl

/-! ### Which packets are received -/

/-- A packet for this host, whose payload has been received whole. -/
def Genuine (v6 : IPv6) (data : ℕ → U8) (size : U32) : Prop :=
  40 ≤ size.toNat ∧ wireVersion data = 6 ∧ v6.IsForUs (destAddr data) ∧
    (payloadLength data).toNat ≤ size.toNat - 40

/-- The handler that there is for the next header is called just when the packet is a genuine
one, and then with the bytes behind the header that the payload length says. -/
def Received (v6 : IPv6) (data : ℕ → U8) (size : U32) : Prop :=
  handler data ≠ none →
    (handlePacket v6 data size ≠ none ↔ v6.Genuine data size) ∧
      ∀ handler src payload, handlePacket v6 data size = some (handler, src, payload) →
        payload.offset = 40 ∧ payload.size.toNat = (payloadLength data).toNat

/-- A packet that is sent has the version 6. -/
def VersionSent (v6 : IPv6) (host : Host) (dest : IPv6Addr) (nextHeader : U8)
    (payload : Option (ℕ → U8)) (payloadSize : U32) (block : Option (ℕ → U8)) : Prop :=
  ∀ frame, sendPacket v6 host dest nextHeader payload payloadSize block = some frame →
    wireVersion (bufferOf (Ethernet.payload frame)) = 6

theorem handlePacket_ne_none_iff {v6 : IPv6} {data : ℕ → U8} {size : U32}
    (hhandler : handler data ≠ none) :
    handlePacket v6 data size ≠ none ↔
      40 ≤ size.toNat ∧ data 3 >>> 4 = 6 ∧ v6.IsForUs (destAddr data) := by
  rw [handlePacket, version_eq]
  by_cases hsize : size < 40
  · have hlt : size.toNat < 40 := BitVec.lt_def.mp hsize
    rw [if_pos hsize]
    exact iff_of_false (fun h => h rfl) fun h => absurd h.1 (Nat.not_le.mpr hlt)
  have hle : 40 ≤ size.toNat := toNat_le_of_not_lt hsize
  rw [if_neg hsize]
  by_cases hversion : data 3 >>> 4 ≠ 6
  · rw [if_pos hversion]
    exact iff_of_false (fun h => h rfl) fun h => hversion h.2.1
  rw [if_neg hversion]
  by_cases hdest : v6.IsForUs (destAddr data)
  · rw [if_neg (not_not.mpr hdest)]
    refine iff_of_true ?_ ⟨hle, not_not.mp hversion, hdest⟩
    intro hnone
    exact hhandler (Option.map_eq_none_iff.mp hnone)
  · rw [if_pos hdest]
    exact iff_of_false (fun h => h rfl) fun h => hdest h.2.2

theorem handlePacket_payload {v6 : IPv6} {data : ℕ → U8} {size : U32} {called : IPv6Handler}
    {src : IPv6Addr} {payload : Slice}
    (h : handlePacket v6 data size = some (called, src, payload)) :
    payload.offset = 40 ∧ payload.size.toNat = (payloadLength data).toNat := by
  rw [handlePacket] at h
  split_ifs at h
  obtain ⟨_, -, hcall⟩ := Option.map_eq_some_iff.mp h
  obtain ⟨-, hrest⟩ := Prod.mk.inj hcall
  obtain ⟨-, rfl⟩ := Prod.mk.inj hrest
  have hlt := (payloadLength data).isLt
  refine ⟨rfl, ?_⟩
  rw [BitVec.toNat_setWidth]
  omega

/-- The version is in its place just when it is where the code reads it, and the payload has
been received. -/
def Consistent (data : ℕ → U8) (size : U32) : Prop :=
  data 3 >>> 4 = 6 ↔ data 0 >>> 4 = 6 ∧ (payloadLength data).toNat ≤ size.toNat - 40

/-- **Which packets are received as they should be**: those without a handler, those that are
short or for others, and those in which both places for the version and the payload length
agree.  No packet is sent with its version in place. -/
theorem received_iff (v6 : IPv6) :
    (∀ data size, v6.Received data size ↔
      (handler data ≠ none → 40 ≤ size.toNat → v6.IsForUs (destAddr data) →
        Consistent data size)) ∧
    ∀ host dest nextHeader payload payloadSize, ∀ block : ℕ → U8,
      ¬ v6.VersionSent host dest nextHeader payload payloadSize (some block) := by
  constructor
  · intro data size
    rw [Received]
    refine forall_congr' fun hhandler => ?_
    rw [handlePacket_ne_none_iff hhandler, and_iff_left fun _ _ _ h => handlePacket_payload h,
      Genuine, wireVersion, Consistent]
    constructor
    · intro h hsize hdest
      constructor
      · intro hversion
        obtain ⟨-, hwire, -, hlength⟩ := h.mp ⟨hsize, hversion, hdest⟩
        exact ⟨hwire, hlength⟩
      · rintro ⟨hwire, hlength⟩
        exact (h.mpr ⟨hsize, hwire, hdest, hlength⟩).2.1
    · intro h
      constructor
      · rintro ⟨hsize, hversion, hdest⟩
        obtain ⟨hwire, hlength⟩ := (h hsize hdest).mp hversion
        exact ⟨hsize, hwire, hdest, hlength⟩
      · rintro ⟨hsize, hwire, hdest, hlength⟩
        exact ⟨hsize, (h hsize hdest).mpr ⟨hwire, hlength⟩, hdest⟩
  -- every frame that is sent is a counterexample
  · intro host dest nextHeader payload payloadSize block hsent
    obtain ⟨frame, hframe⟩ :
        ∃ frame, sendPacket v6 host dest nextHeader payload payloadSize (some block) = some frame :=
      ⟨_, rfl⟩
    have hversion := hsent frame hframe
    rw [wireVersion_sendPacket hframe] at hversion
    exact absurd hversion (by decide)

/-- The addresses of a host with the hardware address 52:54:00:12:34:56. -/
def freshIPv6 : IPv6 := init (freshHost 0 0x56).rtl8139Mac

/-- A packet without payload to this host: its version, traffic class and flow label are those
of a plain UDP packet. -/
def plainPacket : List U8 :=
  [0x60, 0, 0, 0, 0, 0, 17, 64] ++ freshIPv6.linkLocalAddr.bytes ++ freshIPv6.linkLocalAddr.bytes

/-- **A packet that is not received**: its version is read as 0. -/
theorem plainPacket_not_received :
    ¬ ∀ (v6 : IPv6) (data : ℕ → U8) (size : U32), v6.Received data size := by
  intro h
  obtain ⟨hcalled, -⟩ := h freshIPv6 (bufferOf plainPacket) 40 (by decide)
  exact hcalled.mpr ⟨by decide, by decide, .inl (by decide), by decide⟩ (by decide)

end IPv6

end MesaOS.Net
