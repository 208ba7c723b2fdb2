/-
Packets that the RTL8139 card receives (`RTL8139::receive_packet` in `drivers/rtl8139.cpp`).

The card puts its packets one behind the other into a ring of 8192 bytes; a packet that begins
in front of the end of the ring lies as a whole behind its beginning, in 1516 bytes of slack.
The driver takes packets of up to 1792 bytes.

* `received_foldl` — what holds after the headers that have been read;
* `receivedInside_iff` — when the packets lie inside the buffer;
* `inside_of_short` — packets of up to 1520 bytes always do.
-/
import Mathlib.Data.List.Induction
import MesaOS.MachineWord

open MachineWord

namespace MesaOS.Drivers

/-- The two words in front of a packet. -/
structure RxHeader where
  status : U16
  length : U16
  deriving DecidableEq

/-- What `Ethernet::handle_packet` is given, as offsets in `rx_buffer`, and the offset of the
header. -/
structure RxPacket where
  header : U32
  packet : U32
  size : U32
  deriving DecidableEq

/-- `rx_offset`, and the packets that have been handed on. -/
structure RTL8139 where
  rxOffset : U32
  passed : List RxPacket

namespace RTL8139

/-- The bytes that `initialize` allocates for `rx_buffer`. -/
def rxBufferSize : ℕ := 8192 + 16 + 1500

/-- The validation. -/
def Accepts (header : RxHeader) : Prop :=
  ¬ (header.status &&& 0x01 = 0 ∨ header.length > 1792 ∨ header.length < 4)

instance (header : RxHeader) : Decidable (Accepts header) := inferInstanceAs (Decidable (¬ _))

/-- A packet is handed on, and the offset moves behind it. -/
def pass (rx : RTL8139) (header : RxHeader) : RTL8139 :=
  let length := header.length.setWidth 32
  let rxOffset := (rx.rxOffset + length + 4 + 3) &&& ~~~3
  { rxOffset := if rxOffset ≥ 8192 then rxOffset - 8192 else rxOffset
    passed := rx.passed ++
      [{ header := rx.rxOffset, packet := rx.rxOffset + 4, size := length - 4 }] }

/-- `RTL8139::receive_packet`: the call takes the headers that the card has put into the buffer,
until one is not accepted. -/
def receivePacket (rx : RTL8139) : List RxHeader → RTL8139
  | [] => rx
  | header :: headers =>
    if ¬ Accepts header then { rx with rxOffset := 0 } else (rx.pass header).receivePacket headers

/-- The calls one after the other, each with the headers that it finds. -/
def receiveAll (calls : List (List RxHeader)) : RTL8139 :=
  calls.foldl receivePacket { rxOffset := 0, passed := [] }

/-- Header and packet lie inside the buffer. -/
def Inside (p : RxPacket) : Prop :=
  p.header.toNat + 4 ≤ rxBufferSize ∧ p.packet.toNat + p.size.toNat ≤ rxBufferSize

instance (p : RxPacket) : Decidable (Inside p) := inferInstanceAs (Decidable (_ ∧ _))

/-! ### The headers that are read -/

/-- The headers that a call reads: those up to the first one that is not accepted. -/
def readBy : List RxHeader → List RxHeader
  | [] => []
  | header :: headers => if ¬ Accepts header then [header] else header :: readBy headers

/-- One turn of the loop. -/
def turn (rx : RTL8139) (header : RxHeader) : RTL8139 :=
  if Accepts header then rx.pass header else { rx with rxOffset := 0 }

theorem receivePacket_eq (rx : RTL8139) (headers : List RxHeader) :
    rx.receivePacket headers = (readBy headers).foldl turn rx := by
  induction headers generalizing rx with
  | nil => rfl
  | cons header headers ih =>
    rw [receivePacket, readBy]
    by_cases haccepts : Accepts header
    · rw [if_neg (not_not.mpr haccepts), if_neg (not_not.mpr haccepts), List.foldl_cons, ih, turn,
        if_pos haccepts]
    · rw [if_pos haccepts, if_pos haccepts, List.foldl_cons, turn, if_neg haccepts]
      rfl

/-- The headers that the calls read. -/
def readByAll (calls : List (List RxHeader)) : List RxHeader := calls.flatMap readBy

theorem receiveAll_eq (calls : List (List RxHeader)) :
    receiveAll calls = (readByAll calls).foldl turn { rxOffset := 0, passed := [] } := by
  rw [receiveAll]
  generalize ({ rxOffset := 0, passed := [] } : RTL8139) = rx
  induction calls generalizing rx with
  | nil => rfl
  | cons headers calls ih =>
    rw [List.foldl_cons, ih, receivePacket_eq, readByAll, readByAll, List.flatMap_cons,
      List.foldl_append]

/-! ### The offset -/

/-- The bytes that a packet takes in the ring: its header, the packet and up to three more. -/
def span (header : RxHeader) : ℕ := (header.length.toNat + 4 + 3) / 4 * 4

/-- The place in the ring behind the headers that have been read: the packets since the last
reset lie one behind the other. -/
def place (headers : List RxHeader) : ℕ :=
  ((headers.reverse.takeWhile fun header => Accepts header).map span).sum % 8192

theorem place_concat (headers : List RxHeader) (header : RxHeader) :
    place (headers ++ [header]) = if Accepts header then (place headers + span header) % 8192
      else 0 := by
  rw [place, List.reverse_append, List.reverse_singleton, List.singleton_append,
    List.takeWhile_cons]
  by_cases haccepts : Accepts header
  · rw [if_pos haccepts, if_pos (decide_eq_true haccepts), List.map_cons, List.sum_cons, place]
    omega
  · rw [if_neg haccepts, if_neg (by simpa using haccepts)]
    rfl

theorem Accepts.bounds {header : RxHeader} (h : Accepts header) :
    4 ≤ header.length.toNat ∧ header.length.toNat ≤ 1792 := by
  obtain ⟨-, hlength⟩ := not_or.mp h
  obtain ⟨hlong, hshort⟩ := not_or.mp hlength
  exact ⟨toNat_le_of_not_lt hshort, toNat_le_of_not_lt hlong⟩

theorem toNat_pass {rx : RTL8139} {header : RxHeader} (haccepts : Accepts header)
    (hoffset : rx.rxOffset.toNat < 8192) (halign : rx.rxOffset.toNat % 4 = 0) :
    (rx.pass header).rxOffset.toNat = (rx.rxOffset.toNat + span header) % 8192 := by
  obtain ⟨-, hmax⟩ := haccepts.bounds
  have hsum : (rx.rxOffset + header.length.setWidth 32 + 4 + 3).toNat =
      rx.rxOffset.toNat + header.length.toNat + 4 + 3 := by
    simp only [BitVec.toNat_add, BitVec.toNat_setWidth]
    change (((rx.rxOffset.toNat + header.length.toNat % 2 ^ 32) % 2 ^ 32 + 4) % 2 ^ 32 + 3) %
      2 ^ 32 = _
    omega
  -- the offset before is aligned, so that rounding down rounds the packet up
  have hround : ((rx.rxOffset + header.length.setWidth 32 + 4 + 3) &&& ~~~3).toNat =
      rx.rxOffset.toNat + span header := by
    have hmask := toNat_and_not_lowMask (rx.rxOffset + header.length.setWidth 32 + 4 + 3) 2
    rw [hsum] at hmask
    refine hmask.trans ?_
    rw [span]
    omega
  have hspan : span header < 8192 := by
    rw [span]
    omega
  rw [pass]
  dsimp only
  generalize (rx.rxOffset + header.length.setWidth 32 + 4 + 3) &&& ~~~3 = x at hround ⊢
  by_cases hwrap : x ≥ 8192
  · have hle : 8192 ≤ x.toNat := BitVec.le_def.mp hwrap
    rw [if_pos hwrap, BitVec.toNat_sub_of_le hwrap, show (8192 : U32).toNat = 8192 from rfl]
    omega
  · have hlt : x.toNat < 8192 := BitVec.not_le.mp hwrap
    rw [if_neg hwrap]
    omega

/-! ### Runs -/

/-- The packets that lie inside the buffer, from the headers that have been read: each accepted
one is not too long for its place. -/
def Room (headers : List RxHeader) : Prop :=
  ∀ before header after, headers = before ++ header :: after → Accepts header →
    place before + header.length.toNat ≤ rxBufferSize

/-- What holds after the headers have been read. -/
structure Received (headers : List RxHeader) (rx : RTL8139) : Prop where
  offset : rx.rxOffset.toNat = place headers
  aligned : rx.rxOffset.toNat % 4 = 0
  headers_aligned : ∀ p ∈ rx.passed, p.header.toNat % 4 = 0 ∧ p.header.toNat < 8192
  inside_iff : (∀ p ∈ rx.passed, Inside p) ↔ Room headers

theorem place_lt (headers : List RxHeader) : place headers < 8192 := Nat.mod_lt _ (by decide)

theorem room_concat (headers : List RxHeader) (header : RxHeader) :
    Room (headers ++ [header]) ↔
      Room headers ∧ (Accepts header → place headers + header.length.toNat ≤ rxBufferSize) := by
  constructor
  · intro h
    refine ⟨fun before x after hsplit => ?_, h headers header [] rfl⟩
    exact h before x (after ++ [header]) (by rw [hsplit, List.append_assoc, List.cons_append])
  · rintro ⟨h, hlast⟩ before x after hsplit
    rcases List.eq_nil_or_concat after with rfl | ⟨after, y, rfl⟩
    · obtain ⟨rfl, hx⟩ := List.append_inj' hsplit rfl
      obtain rfl := List.cons.inj hx |>.1
      exact hlast
    · rw [List.concat_eq_append, ← List.cons_append, ← List.append_assoc] at hsplit
      obtain ⟨rfl, -⟩ := List.append_inj' hsplit rfl
      exact h before x after rfl

theorem inside_pass {rx : RTL8139} {header : RxHeader} (haccepts : Accepts header)
    (hoffset : rx.rxOffset.toNat < 8192) (halign : rx.rxOffset.toNat % 4 = 0) :
    Inside { header := rx.rxOffset, packet := rx.rxOffset + 4
             size := header.length.setWidth 32 - 4 } ↔
      rx.rxOffset.toNat + header.length.toNat ≤ rxBufferSize := by
  obtain ⟨hmin, hmax⟩ := haccepts.bounds
  have hlength : (header.length.setWidth 32).toNat = header.length.toNat := by
    rw [BitVec.toNat_setWidth]
    omega
  have hsize : (header.length.setWidth 32 - 4 : U32).toNat = header.length.toNat - 4 := by
    rw [BitVec.toNat_sub_of_le, hlength]
    · rfl
    · rw [BitVec.le_def, hlength]
      exact hmin
  have hpacket : (rx.rxOffset + 4).toNat = rx.rxOffset.toNat + 4 := by
    rw [BitVec.toNat_add, show (4 : U32).toNat = 4 from rfl]
    omega
  rw [Inside, hsize, hpacket, rxBufferSize]
  dsimp only
  omega

/-- **What one turn keeps.** -/
theorem received_turn {headers : List RxHeader} {rx : RTL8139} (h : Received headers rx)
    (header : RxHeader) : Received (headers ++ [header]) (rx.turn header) := by
  have hlt : rx.rxOffset.toNat < 8192 := h.offset ▸ place_lt headers
  rw [turn]
  by_cases haccepts : Accepts header
  · have hpass := toNat_pass haccepts hlt h.aligned
    have hinside := inside_pass haccepts hlt h.aligned
    rw [if_pos haccepts]
    refine ⟨?_, ?_, ?_, ?_⟩
    · rw [hpass, place_concat, if_pos haccepts, h.offset]
    · have halign := h.aligned
      rw [hpass, span]
      omega
    · intro p hp
      rcases List.mem_append.mp hp with hold | hnew
      · exact h.headers_aligned p hold
      · rw [List.mem_singleton.mp hnew]
        exact ⟨h.aligned, hlt⟩
    · rw [room_concat, ← h.inside_iff, pass]
      dsimp only
      rw [List.forall_mem_append, List.forall_mem_singleton, hinside, h.offset]
      exact and_congr_right fun _ => ⟨fun h _ => h, fun h => h haccepts⟩
  · rw [if_neg haccepts]
    refine ⟨?_, rfl, h.headers_aligned, ?_⟩
    · rw [place_concat, if_neg haccepts]
      rfl
    · rw [room_concat, and_iff_left fun h => absurd h haccepts]
      exact h.inside_iff

/-- **What a run keeps.** -/
theorem received_foldl (headers : List RxHeader) :
    Received headers (headers.foldl turn { rxOffset := 0, passed := [] }) := by
  induction headers using List.reverseRecOn with
  | nil =>
    refine ⟨rfl, rfl, fun p hp => absurd hp List.not_mem_nil, ?_⟩
    refine iff_of_true (fun p hp => absurd hp List.not_mem_nil) ?_
    intro before header after hsplit
    exact absurd hsplit.symm (by simp)
  | append_singleton headers header ih =>
    rw [List.foldl_append, List.foldl_cons, List.foldl_nil]
    exact received_turn ih header

theorem received_receiveAll (calls : List (List RxHeader)) :
    Received (readByAll calls) (receiveAll calls) := by
  rw [receiveAll_eq]
  exact received_foldl (readByAll calls)

theorem place_aligned (headers : List RxHeader) : place headers % 4 = 0 :=
  (received_foldl headers).offset ▸ (received_foldl headers).aligned

/-- **The packets of any calls**: the offset stays in the ring and aligned, and the packets lie
inside the buffer just when each has room behind those before it. -/
theorem receivedInside_iff (calls : List (List RxHeader)) :
    ((receiveAll calls).rxOffset.toNat % 4 = 0 ∧ (receiveAll calls).rxOffset.toNat < 8192) ∧
      (∀ p ∈ (receiveAll calls).passed, p.header.toNat % 4 = 0 ∧ p.header.toNat < 8192) ∧
      ((∀ p ∈ (receiveAll calls).passed, Inside p) ↔ Room (readByAll calls)) := by
  have h := received_receiveAll calls
  exact ⟨⟨h.aligned, h.offset ▸ place_lt _⟩, h.headers_aligned, h.inside_iff⟩

/-- Packets of up to 1520 bytes lie inside the buffer. -/
theorem inside_of_short (calls : List (List RxHeader))
    (hshort : ∀ header ∈ readByAll calls, header.length.toNat ≤ 1520) :
    ∀ p ∈ (receiveAll calls).passed, Inside p := by
  refine (received_receiveAll calls).inside_iff.mpr fun before header after hsplit haccepts => ?_
  have hlength := hshort header (by rw [hsplit]; simp)
  have hplace := place_aligned before
  have hlt := place_lt before
  rw [rxBufferSize]
  omega

/-- Five packets of 1600 bytes and one of 1792. -/
def longPackets : List RxHeader := List.replicate 5 ⟨1, 1600⟩ ++ [⟨1, 1792⟩]

/-- The last one ends 104 bytes behind the buffer. -/
theorem longPackets_not_inside :
    ¬ ∀ calls : List (List RxHeader), ∀ p ∈ (receiveAll calls).passed, Inside p := by
  intro h
  have hlast : (⟨8020, 8024, 1788⟩ : RxPacket) ∈ (receiveAll [longPackets]).passed := by decide
  exact absurd (h [longPackets] _ hlast) (by decide)

end RTL8139

end MesaOS.Drivers
