/-
Frames that the PCNet card receives (`PCNet::receive_packet` in `drivers/pcnet.cpp`).

The card fills the 32 descriptors that it has in order, and `receive_packet` takes those that are
filled and hands them back.  Frames come in at any time, also during a call; a call
ends after 33 frames at the latest.

* `inv_step` — what a step keeps;
* `received_of_run` — every frame is handled once, in order, and before its descriptor is
  handed back;
* `driver_decreases` — every call ends.
-/
import MesaOS.PCNet

open MachineWord Runs RingBuffer

namespace MesaOS.PCNet

/-- What `Ethernet::handle_packet` is given for a descriptor. -/
def PCNetDescriptor.received (d : PCNetDescriptor) : List U8 :=
  (List.range (d.status2 &&& 0x0FFF).toNat).map d.buffer

/-- `0x80000000 | (uint16_t)(-1536)` -/
def rxStatus : U32 := 0x80000000 ||| ((-1536 : U32).setWidth 16).setWidth 32

/-- Where a call of `receive_packet` is in its loop. -/
inductive RxPlace where
  /-- Before the test. -/
  | test
  /-- Before `Ethernet::handle_packet`. -/
  | handle
  /-- Before `status2 = 0`. -/
  | clear
  /-- Before the status is set. -/
  | giveBack
  /-- Before the index goes on. -/
  | next
  deriving DecidableEq

/-- A call that is under way: its place and count, and how many frames had been stored when it
began. -/
structure RxCall where
  place : RxPlace
  count : ℕ
  begun : ℕ

/-- The ring, `rx_index` and the call under way; the card's place in the ring; the frames that the
card has stored, those that have been handled, and how many had been stored when the last
call that is over began. -/
structure RxRing where
  ring : ℕ → PCNetDescriptor
  rxIndex : ℕ
  call : Option RxCall
  cardIndex : ℕ
  stored : List (List U8)
  handled : List (List U8)
  settled : ℕ

inductive RxEvent where
  /-- The card stores a frame, with what it writes into the two status words. -/
  | arrive (bytes : List U8) (status status2 : U32)
  /-- `receive_packet` is called. -/
  | begin
  /-- The call goes on. -/
  | driver

namespace RxRing

/-- The call is over. -/
def finish (s : RxRing) (c : RxCall) : RxRing := { s with call := none, settled := c.begun }

/-- The next step of `receive_packet`. -/
def drive (s : RxRing) (c : RxCall) : RxRing :=
  let d := s.ring s.rxIndex
  match c.place with
  | .test =>
    if ¬ d.Owned then { s with call := some { c with place := .handle } } else s.finish c
  | .handle =>
    { s with handled := s.handled ++ [d.received], call := some { c with place := .clear } }
  | .clear =>
    { s with
      ring := Function.update s.ring s.rxIndex { d with status2 := 0 }
      call := some { c with place := .giveBack } }
  | .giveBack =>
    { s with
      ring := Function.update s.ring s.rxIndex { d with status := rxStatus }
      call := some { c with place := .next } }
  | .next =>
    let s := { s with rxIndex := (s.rxIndex + 1) % 32 }
    if c.count + 1 > 32 then s.finish c
    else { s with call := some { c with place := .test, count := c.count + 1 } }

def step (s : RxRing) : RxEvent → Option RxRing
  | .arrive bytes status status2 =>
    let d := s.ring s.cardIndex
    if d.Owned ∧ bytes.length ≤ d.byteCount ∧ status &&& 0x80000000 = 0 ∧
        (status2 &&& 0x0FFF).toNat = bytes.length then
      some
        { s with
          ring := Function.update s.ring s.cardIndex
            { status := status, status2 := status2
              buffer := fun i => if i < bytes.length then bufferOf bytes i else d.buffer i }
          cardIndex := (s.cardIndex + 1) % 32
          stored := s.stored ++ [bytes] }
    else none
  | .begin =>
    if s.call.isSome then none
    else some { s with call := some { place := .test, count := 0, begun := s.stored.length } }
  | .driver => s.call.map s.drive

/-- The ring after `initialize`. -/
def start (buffers : ℕ → ℕ → U8) : RxRing where
  ring := fun i => { status := rxStatus, status2 := 0, buffer := buffers i }
  rxIndex := 0
  call := none
  cardIndex := 0
  stored := []
  handled := []
  settled := 0

/-! ### What is to hold -/

/-- The frames that have been handled are the first that were stored, with their bytes and length;
the others are in their descriptors, which have not been handed back.  What had been stored
when a call began is handled when it ends. -/
structure Received (s : RxRing) : Prop where
  handled : s.handled <+: s.stored
  kept : ∀ j frame, s.handled.length ≤ j → s.stored[j]? = some frame →
    ¬ (s.ring (j % 32)).Owned ∧ (s.ring (j % 32)).received = frame
  settled : s.settled ≤ s.handled.length

/-! ### The invariant -/

/-- So many turns of the loop are over, and so many descriptors have been handed back.  Frame `j`
of those that are stored has descriptor `j % 32`; from the first that is not handed back on
there are 32 of them, and the card has those that are not filled. -/
structure Window (s : RxRing) (turns returned : ℕ) : Prop where
  handled : s.handled <+: s.stored
  returned_le : returned ≤ s.handled.length
  room : s.stored.length ≤ returned + 32
  card : s.cardIndex = s.stored.length % 32
  rx : s.rxIndex = turns % 32
  owned : ∀ j, returned ≤ j → j < returned + 32 →
    ((s.ring (j % 32)).Owned ↔ s.stored.length ≤ j)
  holds : ∀ j frame, s.handled.length ≤ j → s.stored[j]? = some frame →
    (s.ring (j % 32)).received = frame

/-- How far a call is with the frame of its turn. -/
def AtPlace (s : RxRing) (turns : ℕ) : RxPlace → Prop
  | .test => s.handled.length = turns ∧ s.Window turns turns
  | .handle => s.handled.length = turns ∧ turns < s.stored.length ∧ s.Window turns turns
  | .clear | .giveBack => s.handled.length = turns + 1 ∧ s.Window turns turns
  | .next => s.handled.length = turns + 1 ∧ s.Window turns (turns + 1)

/-- The count of a call, and its place.  There were at most 32 frames when it began. -/
structure CallInv (s : RxRing) (c : RxCall) (turns : ℕ) : Prop where
  count : c.count ≤ 32
  begun : c.begun ≤ s.stored.length
  early : c.begun + c.count ≤ turns + 32
  place : s.AtPlace turns c.place

structure Inv (s : RxRing) : Prop where
  settled : s.settled ≤ s.handled.length
  idle : s.call = none → s.Window s.handled.length s.handled.length
  calling : ∀ c, s.call = some c → ∃ turns, s.CallInv c turns

theorem inv_start (buffers : ℕ → ℕ → U8) : (start buffers).Inv where
  settled := le_rfl
  idle := fun _ =>
    { handled := List.prefix_rfl
      returned_le := le_rfl
      room := Nat.zero_le _
      card := rfl
      rx := rfl
      owned := fun j _ _ => iff_of_true
        (by decide : (rxStatus &&& 0x80000000 : U32) ≠ 0) (Nat.zero_le j)
      holds := fun j frame _ h => absurd h (Option.some_ne_none frame).symm }
  calling := fun c h => absurd h (Option.some_ne_none c).symm

/-! ### The ring -/

section Window

variable {s : RxRing} {turns returned : ℕ}

theorem Window.length_le (h : s.Window turns returned) : s.handled.length ≤ s.stored.length :=
  h.handled.length_le

/-- The call is not part of the ring. -/
theorem Window.setCall (h : s.Window turns returned) (call : Option RxCall) (settled : ℕ) :
    { s with call := call, settled := settled }.Window turns returned :=
  ⟨h.handled, h.returned_le, h.room, h.card, h.rx, h.owned, h.holds⟩

theorem Window.kept (h : s.Window turns returned) {j : ℕ} {frame : List U8}
    (hj : s.handled.length ≤ j) (hframe : s.stored[j]? = some frame) :
    ¬ (s.ring (j % 32)).Owned ∧ (s.ring (j % 32)).received = frame := by
  have hlt := (List.getElem?_eq_some_iff.mp hframe).1
  have hreturned := h.returned_le
  have hroom := h.room
  refine ⟨?_, h.holds j frame hj hframe⟩
  rw [h.owned j (by omega) (by omega)]
  omega

/-- What is read back from a descriptor that the card has filled. -/
theorem received_filled {bytes : List U8} {status status2 : U32} (buffer : ℕ → U8)
    (h : (status2 &&& 0x0FFF).toNat = bytes.length) :
    PCNetDescriptor.received
      { status := status, status2 := status2
        buffer := fun i => if i < bytes.length then bufferOf bytes i else buffer i } = bytes := by
  rw [PCNetDescriptor.received, h]
  refine Eq.trans (List.map_congr_left fun i hi => ?_) (map_bufferOf_append bytes [])
  rw [List.append_nil]
  exact if_pos (List.mem_range.mp hi)

/-- The card stores a frame. -/
theorem Window.arrive (h : s.Window turns returned) {bytes : List U8} {status status2 : U32}
    {buffer : ℕ → U8} (howned : (s.ring s.cardIndex).Owned) (hstatus : status &&& 0x80000000 = 0)
    (hlength : (status2 &&& 0x0FFF).toNat = bytes.length) :
    { s with
      ring := Function.update s.ring s.cardIndex
        { status := status, status2 := status2
          buffer := fun i => if i < bytes.length then bufferOf bytes i else buffer i }
      cardIndex := (s.cardIndex + 1) % 32
      stored := s.stored ++ [bytes] }.Window turns returned := by
  have hle := h.length_le
  have hreturned := h.returned_le
  have hroom := h.room
  have hlt : s.stored.length < returned + 32 := by
    by_contra hfull
    -- a full ring has no descriptor for the card
    have hwrap : s.stored.length % 32 = returned % 32 := by omega
    rw [h.card, hwrap, h.owned _ le_rfl (by omega)] at howned
    omega
  refine ⟨h.handled.trans (List.prefix_append ..), hreturned, ?_, ?_, h.rx, ?_, ?_⟩
  · rw [List.length_append]
    exact hlt
  · dsimp only
    rw [h.card, Nat.mod_add_mod, List.length_append]
    rfl
  · intro j hj hj'
    dsimp only
    rw [h.card, List.length_append, List.length_singleton]
    by_cases hnew : j = s.stored.length
    · rw [hnew, Function.update_self]
      exact iff_of_false (fun hbit => hbit hstatus) (by omega)
    · rw [update_mod_of_ne _ _ (by omega) hj hlt hj' hnew, h.owned j hj hj']
      omega
  · intro j frame hj hframe
    dsimp only at hj hframe ⊢
    rw [h.card]
    by_cases hnew : j = s.stored.length
    · rw [hnew, List.getElem?_concat_length, Option.some_inj] at hframe
      rw [hnew, Function.update_self, ← hframe]
      exact received_filled _ hlength
    · have hjlt := (List.getElem?_eq_some_iff.mp hframe).1
      rw [List.length_append, List.length_singleton] at hjlt
      rw [List.getElem?_append_left (by omega)] at hframe
      rw [update_mod_of_ne _ _ (by omega) (hreturned.trans hj) hlt (by omega) hnew]
      exact h.holds j frame hj hframe

/-- The driver finds the next frame just when there is one. -/
theorem Window.owned_rxIndex (h : s.Window turns turns) :
    (s.ring s.rxIndex).Owned ↔ s.stored.length ≤ turns := by
  rw [h.rx]
  exact h.owned turns le_rfl (by omega)

/-- The next frame is handled. -/
theorem Window.handle (h : s.Window turns turns) (hturns : s.handled.length = turns)
    (hlt : turns < s.stored.length) :
    { s with handled := s.handled ++ [(s.ring s.rxIndex).received] }.Window turns turns := by
  -- the descriptor has not been handed back, so it holds what the card has stored
  have hfirst := List.getElem?_eq_getElem hlt
  have hframe := h.holds turns _ hturns.le hfirst
  refine ⟨?_, ?_, h.room, h.card, h.rx, h.owned, ?_⟩
  · rw [h.rx, hframe]
    exact prefix_concat_getElem h.handled (hturns ▸ hfirst)
  · exact h.returned_le.trans (by simp)
  · intro j frame hj
    refine h.holds j frame (le_trans ?_ hj)
    simp

/-- `status2` of a descriptor is cleared whose frame has been handled. -/
theorem Window.clear (h : s.Window turns turns) (hturns : s.handled.length = turns + 1) :
    { s with
      ring := Function.update s.ring s.rxIndex { s.ring s.rxIndex with status2 := 0 } }.Window
        turns turns := by
  have hroom := h.room
  refine ⟨h.handled, h.returned_le, h.room, h.card, h.rx, ?_, ?_⟩
  · intro j hj hj'
    dsimp only
    rw [h.rx]
    by_cases hthis : j = turns
    · rw [hthis, Function.update_self, ← h.owned turns le_rfl (by omega)]
      exact Iff.rfl
    · rw [update_mod_of_ne _ _ le_rfl hj (by omega) hj' hthis]
      exact h.owned j hj hj'
  · intro j frame hj hframe
    dsimp only at hj hframe ⊢
    have hjlt := (List.getElem?_eq_some_iff.mp hframe).1
    -- the frames that are not handled yet are in other descriptors
    rw [h.rx, update_mod_of_ne _ _ le_rfl (by omega) (by omega) (by omega) (by omega)]
    exact h.holds j frame hj hframe

/-- The descriptor is handed back. -/
theorem Window.giveBack (h : s.Window turns turns) (hturns : s.handled.length = turns + 1) :
    { s with
      ring := Function.update s.ring s.rxIndex
        { s.ring s.rxIndex with status := rxStatus } }.Window turns (turns + 1) := by
  have hroom := h.room
  refine ⟨h.handled, hturns.ge, hroom.trans (by omega), h.card, h.rx, ?_, ?_⟩
  · intro j hj hj'
    dsimp only
    rw [h.rx]
    by_cases hthis : j = turns + 32
    · rw [hthis, Nat.add_mod_right, Function.update_self]
      exact iff_of_true (by decide : (rxStatus &&& 0x80000000 : U32) ≠ 0) hroom
    · rw [update_mod_of_ne _ _ le_rfl (by omega) (by omega) (by omega) (by omega)]
      exact h.owned j (by omega) (by omega)
  · intro j frame hj hframe
    dsimp only at hj hframe ⊢
    have hjlt := (List.getElem?_eq_some_iff.mp hframe).1
    rw [h.rx, update_mod_of_ne _ _ le_rfl (by omega) (by omega) (by omega) (by omega)]
    exact h.holds j frame hj hframe

theorem Window.next (h : s.Window turns returned) :
    { s with rxIndex := (s.rxIndex + 1) % 32 }.Window (turns + 1) returned := by
  refine ⟨h.handled, h.returned_le, h.room, h.card, ?_, h.owned, h.holds⟩
  dsimp only
  rw [h.rx, Nat.mod_add_mod]

end Window

/-! ### Steps -/

theorem AtPlace.window {s : RxRing} {turns : ℕ} {place : RxPlace} (h : s.AtPlace turns place) :
    ∃ returned, s.Window turns returned := by
  cases place with
  | test => exact ⟨turns, h.2⟩
  | handle => exact ⟨turns, h.2.2⟩
  | clear | giveBack => exact ⟨turns, h.2⟩
  | next => exact ⟨turns + 1, h.2⟩

theorem Inv.received {s : RxRing} (h : s.Inv) : s.Received := by
  obtain ⟨turns, returned, hwindow⟩ : ∃ turns returned, s.Window turns returned := by
    cases hcall : s.call with
    | none => exact ⟨_, _, h.idle hcall⟩
    | some c =>
      obtain ⟨turns, hc⟩ := h.calling c hcall
      exact ⟨turns, hc.place.window⟩
  exact ⟨hwindow.handled, fun j frame => hwindow.kept, h.settled⟩

theorem inv_arrive {s s' : RxRing} {bytes : List U8} {status status2 : U32} (h : s.Inv)
    (hstep : s.step (.arrive bytes status status2) = some s') : s'.Inv := by
  rw [step] at hstep
  split at hstep
  next hfill =>
    obtain ⟨howned, -, hstatus, hlength⟩ := hfill
    obtain rfl := Option.some_inj.mp hstep
    have hmore : s.stored.length < (s.stored ++ [bytes]).length := by simp
    refine ⟨h.settled, fun hidle => (h.idle hidle).arrive howned hstatus hlength, ?_⟩
    intro c hc
    obtain ⟨turns, hinv⟩ := h.calling c hc
    refine ⟨turns, hinv.count, hinv.begun.trans hmore.le, hinv.early, ?_⟩
    have hplace := hinv.place
    rcases c with ⟨place, count, begun⟩
    cases place with
    | test => exact ⟨hplace.1, hplace.2.arrive howned hstatus hlength⟩
    | handle =>
      exact ⟨hplace.1, hplace.2.1.trans hmore, hplace.2.2.arrive howned hstatus hlength⟩
    | clear | giveBack | next => exact ⟨hplace.1, hplace.2.arrive howned hstatus hlength⟩
  next => exact absurd hstep.symm (Option.some_ne_none s')

theorem inv_begin {s s' : RxRing} (h : s.Inv) (hstep : s.step .begin = some s') : s'.Inv := by
  rw [step] at hstep
  split at hstep
  next => exact absurd hstep.symm (Option.some_ne_none s')
  next hidle =>
    obtain rfl := Option.some_inj.mp hstep
    have hwindow := h.idle (Option.not_isSome_iff_eq_none.mp hidle)
    refine ⟨h.settled, fun hnone => absurd hnone (Option.some_ne_none _), fun c hc => ?_⟩
    obtain rfl := Option.some_inj.mp hc
    refine ⟨s.handled.length, Nat.zero_le _, le_rfl, hwindow.room, rfl, ?_⟩
    exact hwindow.setCall _ s.settled

/-- A call ends when all that had been stored before it is handled. -/
theorem inv_finish {s : RxRing} {c : RxCall} (hwindow : s.Window s.handled.length s.handled.length)
    (hbegun : c.begun ≤ s.handled.length) : (s.finish c).Inv where
  settled := hbegun
  idle := fun _ => hwindow.setCall none c.begun
  calling := fun c' h => absurd h (Option.some_ne_none c').symm

/-- A call that goes on. -/
theorem inv_calling {s : RxRing} {c : RxCall} {turns : ℕ} (hsettled : s.settled ≤ s.handled.length)
    (hcall : s.call = some c) (hinv : s.CallInv c turns) : s.Inv where
  settled := hsettled
  idle := fun hnone => absurd (hcall.symm.trans hnone) (Option.some_ne_none c)
  calling := fun c' h => by
    obtain rfl := Option.some_inj.mp (hcall.symm.trans h)
    exact ⟨turns, hinv⟩

theorem inv_drive {s : RxRing} {c : RxCall} (h : s.Inv) (hc : s.call = some c) :
    (s.drive c).Inv := by
  obtain ⟨turns, hcount, hbegun, hearly, hplace⟩ := h.calling c hc
  have hsettled := h.settled
  rcases c with ⟨place, count, begun⟩
  dsimp only at hcount hbegun hearly hplace
  rw [drive]
  cases place with
  | test =>
    obtain ⟨rfl, hwindow⟩ := hplace
    dsimp only
    by_cases howned : (s.ring s.rxIndex).Owned
    · rw [if_neg (not_not.mpr howned)]
      exact inv_finish hwindow (hbegun.trans (hwindow.owned_rxIndex.mp howned))
    · rw [if_pos howned]
      have hlt := Nat.not_le.mp (mt hwindow.owned_rxIndex.mpr howned)
      exact inv_calling hsettled rfl
        ⟨hcount, hbegun, hearly, rfl, hlt, hwindow.setCall _ s.settled⟩
  | handle =>
    obtain ⟨hturns, hlt, hwindow⟩ := hplace
    have hlength : (s.handled ++ [(s.ring s.rxIndex).received]).length = turns + 1 := by
      rw [List.length_append, hturns]
      rfl
    -- the count of handled frames runs ahead of the turns until the next turn begins
    refine inv_calling (hsettled.trans (by rw [hlength]; omega)) rfl
      ⟨hcount, hbegun, hearly, hlength, ?_⟩
    exact (hwindow.handle hturns hlt).setCall _ s.settled
  | clear =>
    obtain ⟨hturns, hwindow⟩ := hplace
    exact inv_calling hsettled rfl
      ⟨hcount, hbegun, hearly, hturns, (hwindow.clear hturns).setCall _ s.settled⟩
  | giveBack =>
    obtain ⟨hturns, hwindow⟩ := hplace
    exact inv_calling hsettled rfl
      ⟨hcount, hbegun, hearly, hturns, (hwindow.giveBack hturns).setCall _ s.settled⟩
  | next =>
    obtain ⟨hturns, hwindow⟩ := hplace
    have hnext := hwindow.next
    dsimp only
    by_cases hlast : count + 1 > 32
    · -- the cut-off: 33 frames have been handled
      rw [if_pos hlast]
      refine inv_finish ?_ ?_
      · rw [← hturns] at hnext
        exact hnext
      · dsimp only
        omega
    · rw [if_neg hlast]
      have hcount' : count + 1 ≤ 32 := Nat.not_lt.mp hlast
      have hearly' : begun + (count + 1) ≤ turns + 1 + 32 := by omega
      exact inv_calling hsettled rfl
        ⟨hcount', hbegun, hearly', hturns, hnext.setCall _ s.settled⟩

/-- **What a step keeps.** -/
theorem inv_step {s s' : RxRing} {e : RxEvent} (h : s.Inv) (hstep : s.step e = some s') :
    s'.Inv := by
  cases e with
  | arrive bytes status status2 => exact inv_arrive h hstep
  | begin => exact inv_begin h hstep
  | driver =>
    obtain ⟨c, hc, rfl⟩ := Option.map_eq_some_iff.mp hstep
    exact inv_drive h hc

/-- **Every frame that the card has stored is handled once**, in order and with its length, and
before its descriptor is handed back. -/
theorem received_of_run {buffers : ℕ → ℕ → U8} {events : List RxEvent} {s : RxRing}
    (hrun : run step (start buffers) events = some s) : s.Received :=
  (run_keeps (fun _ _ _ => inv_step) (inv_start buffers) hrun).received

/-- A ring in which frame after frame comes in during a call: the fifth event stores the second
frame, and the call handles both. -/
def duringCall : List RxEvent :=
  [.arrive [0x61, 0x62] 0x03000000 2, .begin, .driver, .driver, .arrive [0x63] 0x03000000 1] ++
    List.replicate 9 .driver

theorem received_of_run_duringCall :
    ∃ s, run step (start fun _ _ => 0) duringCall = some s ∧ s.handled = [[0x61, 0x62], [0x63]] ∧
      s.Received := by
  obtain ⟨s, hs⟩ : ∃ s, run step (start fun _ _ => 0) duringCall = some s :=
    Option.isSome_iff_exists.mp (by decide +kernel)
  have hhandled : (run step (start fun _ _ => 0) duringCall).map handled =
      some [[0x61, 0x62], [0x63]] := by decide +kernel
  rw [hs, Option.map_some, Option.some_inj] at hhandled
  exact ⟨s, hs, hhandled, received_of_run hs⟩

/-! ### What the steps leave as it is -/

theorem step_arrive {rx rx' : RxRing} {bytes : List U8} {status status2 : U32}
    (h : rx.step (.arrive bytes status status2) = some rx') :
    rx'.handled = rx.handled ∧ rx'.call = rx.call ∧ rx'.stored = rx.stored ++ [bytes] ∧
      bytes.length < 2 ^ 12 := by
  rw [step] at h
  split at h
  case isTrue hfits =>
    obtain rfl := Option.some_inj.mp h
    exact ⟨rfl, rfl, rfl, Nat.lt_of_le_of_lt hfits.2.1 (BitVec.isLt _)⟩
  case isFalse => exact absurd h (Option.some_ne_none rx').symm

theorem step_begin {rx rx' : RxRing} (h : rx.step .begin = some rx') :
    rx'.handled = rx.handled ∧ rx'.stored = rx.stored := by
  rw [step] at h
  split at h
  · exact absurd h (Option.some_ne_none rx').symm
  · exact Option.some_inj.mp h ▸ ⟨rfl, rfl⟩

theorem step_driver {rx rx' : RxRing} (h : rx.step .driver = some rx') :
    rx.handled <+: rx'.handled ∧ rx'.stored = rx.stored := by
  obtain ⟨c, -, rfl⟩ := Option.map_eq_some_iff.mp h
  rcases c with ⟨place, count, begun⟩
  cases place with
  | test =>
    rw [drive]
    dsimp only
    split <;> exact ⟨List.prefix_rfl, rfl⟩
  | handle => exact ⟨List.prefix_append _ _, rfl⟩
  | clear => exact ⟨List.prefix_rfl, rfl⟩
  | giveBack => exact ⟨List.prefix_rfl, rfl⟩
  | next =>
    rw [drive]
    dsimp only
    split <;> exact ⟨List.prefix_rfl, rfl⟩

/-! ### Calls end -/

/-- The steps that a call at this place has left in its turn. -/
def stepsLeft : RxPlace → ℕ
  | .test => 5
  | .handle => 4
  | .clear => 3
  | .giveBack => 2
  | .next => 1

/-- The steps that the call under way has left. -/
def remaining (s : RxRing) : ℕ :=
  match s.call with
  | none => 0
  | some c => 5 * (32 - c.count) + stepsLeft c.place

/-- **Every call ends**: each of its steps brings the end nearer, and arrivals do not put it off. -/
theorem driver_decreases {s : RxRing} {c : RxCall} (h : s.Inv) (hc : s.call = some c) :
    ∃ s', s.step .driver = some s' ∧ s'.remaining < s.remaining := by
  obtain ⟨turns, hcount, -, -, -⟩ := h.calling c hc
  refine ⟨s.drive c, by rw [step, hc, Option.map_some], ?_⟩
  rcases c with ⟨place, count, begun⟩
  dsimp only at hcount
  have hremaining : s.remaining = 5 * (32 - count) + stepsLeft place := by rw [remaining, hc]
  rw [hremaining]
  cases place with
  | test =>
    rw [drive]
    dsimp only
    by_cases howned : (s.ring s.rxIndex).Owned
    · rw [if_neg (not_not.mpr howned)]
      exact Nat.succ_pos (5 * (32 - count) + 4)
    · rw [if_pos howned]
      exact Nat.lt_succ_self (5 * (32 - count) + 4)
  | handle => exact Nat.lt_succ_self (5 * (32 - count) + 3)
  | clear => exact Nat.lt_succ_self (5 * (32 - count) + 2)
  | giveBack => exact Nat.lt_succ_self (5 * (32 - count) + 1)
  | next =>
    rw [drive]
    dsimp only
    by_cases hlast : count + 1 > 32
    · rw [if_pos hlast]
      exact Nat.succ_pos (5 * (32 - count))
    · rw [if_neg hlast]
      exact (by omega : 5 * (32 - (count + 1)) + 5 < 5 * (32 - count) + 1)

end RxRing

end MesaOS.PCNet
