/-
Frames that the PCNet card sends (`PCNet::send_packet` in `drivers/pcnet.cpp`).

Driver and card share a ring of eight descriptors.  A descriptor with the OWN bit is the card's;
the card takes these in order and clears the bit when the frame is out.  `send_packet` does
not look at the bit before it writes the next descriptor.

* `inv_step` — what a step keeps while there is room;
* `sent_iff_of_run` — the runs in which every frame is sent as it was accepted: those with
  fewer than eight frames on their way whenever one is accepted.
-/
import MesaOS.MachineWord
import MesaOS.RingBuffer
import MesaOS.Runs

open MachineWord Runs RingBuffer

namespace MesaOS.PCNet

/-! ### Descriptors -/

/-- The two status words of a `PCNetDescriptor`, and the buffer at its address. -/
structure PCNetDescriptor where
  status : U32
  status2 : U32
  buffer : ℕ → U8

namespace PCNetDescriptor

/-- The OWN bit. -/
def Owned (d : PCNetDescriptor) : Prop := d.status &&& 0x80000000 ≠ 0

instance (d : PCNetDescriptor) : Decidable d.Owned := inferInstanceAs (Decidable (_ ≠ _))

/-- The byte count: the lower 12 bits of the status, which are a negative number. -/
def byteCount (d : PCNetDescriptor) : ℕ := (-d.status.setWidth 12).toNat

/-- The frame that the card sends from the buffer. -/
def frame (d : PCNetDescriptor) : List U8 := (List.range d.byteCount).map d.buffer

end PCNetDescriptor

/-- The arguments of a call of `send_packet`. -/
structure SendCall where
  data : ℕ → U8
  size : U32

def SendCall.frame (call : SendCall) : List U8 := (List.range call.size.toNat).map call.data

/-- `memcpy(buffer, data, size)` -/
def memcpy (buffer data : ℕ → U8) (size : U32) : ℕ → U8 :=
  fun i => if i < size.toNat then data i else buffer i

/-- `0x83000000 | (uint16_t)(-size)` -/
def txStatus (size : U32) : U32 := 0x83000000 ||| ((-size).setWidth 16).setWidth 32

/-! ### Driver and card -/

/-- The ring, `tx_index`, and the call that has filled its buffer and not yet handed it over; the
card's place in the ring, and the frame that it has begun to send; the frames that the driver
has handed over, and those that are out. -/
structure TxRing where
  ring : ℕ → PCNetDescriptor
  txIndex : ℕ
  calling : Option SendCall
  cardIndex : ℕ
  sending : Option (List U8)
  accepted : List (List U8)
  transmitted : List (List U8)

inductive TxEvent where
  /-- `send_packet` up to the `memcpy`. -/
  | send (call : SendCall)
  /-- The rest of the call. -/
  | handOver
  /-- The card begins with the next descriptor. -/
  | take
  /-- The frame is out. -/
  | done

namespace TxRing

def step (s : TxRing) : TxEvent → Option TxRing
  | .send call =>
    if s.calling.isSome then none
    else if call.size > 2000 then some s
    else
      let d := s.ring s.txIndex
      some
        { s with
          ring := Function.update s.ring s.txIndex
            { d with buffer := memcpy d.buffer call.data call.size }
          calling := some call }
  | .handOver =>
    s.calling.map fun call =>
      { s with
        ring := Function.update s.ring s.txIndex
          { s.ring s.txIndex with status2 := 0, status := txStatus call.size }
        txIndex := (s.txIndex + 1) % 8
        calling := none
        accepted := s.accepted ++ [call.frame] }
  | .take =>
    if s.sending = none ∧ (s.ring s.cardIndex).Owned then
      some { s with sending := some (s.ring s.cardIndex).frame }
    else none
  | .done =>
    s.sending.map fun frame =>
      let d := s.ring s.cardIndex
      { s with
        ring := Function.update s.ring s.cardIndex { d with status := d.status &&& 0x7FFFFFFF }
        cardIndex := (s.cardIndex + 1) % 8
        sending := none
        transmitted := s.transmitted ++ [frame] }

/-- The ring after `initialize`. -/
def start (buffers : ℕ → ℕ → U8) : TxRing where
  ring := fun i => { status := 0, status2 := 0, buffer := buffers i }
  txIndex := 0
  calling := none
  cardIndex := 0
  sending := none
  accepted := []
  transmitted := []

/-! ### What is to hold -/

/-- The frames that are out are the first that were accepted, and the others wait in the ring, in
order from the card's place on. -/
structure Delivered (s : TxRing) : Prop where
  out : s.transmitted <+: s.accepted
  room : s.accepted.length ≤ s.transmitted.length + 8
  waits : ∀ k frame, s.accepted[s.transmitted.length + k]? = some frame →
    (s.ring ((s.cardIndex + k) % 8)).Owned ∧ (s.ring ((s.cardIndex + k) % 8)).frame = frame

/-- No buffer and no descriptor is overwritten that is the card's. -/
def Untouched (s : TxRing) : TxEvent → Prop
  | .send call => ¬ call.size > 2000 → ¬ (s.ring s.txIndex).Owned
  | .handOver => ¬ (s.ring s.txIndex).Owned
  | .take | .done => True

instance (s : TxRing) (e : TxEvent) : Decidable (Untouched s e) :=
  match e with
  | .send _ => inferInstanceAs (Decidable (_ → _))
  | .handOver => inferInstanceAs (Decidable (¬ _))
  | .take | .done => isTrue trivial

/-- The step overwrites nothing of the card's, and leads to a state in which all frames are
delivered or wait. -/
def Sound (s : TxRing) (e : TxEvent) : Prop :=
  ∀ s', s.step e = some s' → Untouched s e ∧ s'.Delivered

/-- Fewer than eight frames are on their way when a call is to accept one. -/
def Room (s : TxRing) : TxEvent → Prop
  | .send call => ¬ call.size > 2000 → s.accepted.length < s.transmitted.length + 8
  | .handOver | .take | .done => True

/-! ### The words of a descriptor -/

theorem owned_txStatus (d : PCNetDescriptor) (size : U32) (h : d.status = txStatus size) :
    d.Owned := by
  intro hzero
  have hbit := congrArg (fun w : U32 => w.getLsbD 31) hzero
  rw [h, txStatus] at hbit
  simp at hbit

theorem byteCount_txStatus (d : PCNetDescriptor) {size : U32} (h : d.status = txStatus size)
    (hsize : ¬ size > 2000) : d.byteCount = size.toNat := by
  have hle : size.toNat ≤ 2000 := toNat_le_of_not_lt hsize
  have hlow : (txStatus size).setWidth 12 = (-size).setWidth 12 := by
    rw [txStatus, BitVec.setWidth_or]
    apply BitVec.eq_of_toNat_eq
    simp
  rw [PCNetDescriptor.byteCount, h, hlow]
  simp
  omega

theorem not_owned_cleared (d : PCNetDescriptor) :
    ¬ { d with status := d.status &&& 0x7FFFFFFF }.Owned := by
  rw [PCNetDescriptor.Owned, not_not, BitVec.and_assoc]
  exact BitVec.and_zero

/-! ### The invariant -/

/-- Frame `j` of those that are accepted has descriptor `j % 8`.  From the first that is not out on
there are eight of them, and the card has those with a frame in them. -/
structure Inv (s : TxRing) : Prop where
  out : s.transmitted <+: s.accepted
  room : s.accepted.length ≤ s.transmitted.length + 8
  tx : s.txIndex = s.accepted.length % 8
  card : s.cardIndex = s.transmitted.length % 8
  owned : ∀ j, s.transmitted.length ≤ j → j < s.transmitted.length + 8 →
    ((s.ring (j % 8)).Owned ↔ j < s.accepted.length)
  holds : ∀ j frame, s.transmitted.length ≤ j → s.accepted[j]? = some frame →
    (s.ring (j % 8)).frame = frame
  calling : ∀ call, s.calling = some call → ¬ call.size > 2000 ∧
    s.accepted.length < s.transmitted.length + 8 ∧
    ∀ i < call.size.toNat, (s.ring (s.accepted.length % 8)).buffer i = call.data i
  sending : ∀ frame, s.sending = some frame → s.accepted[s.transmitted.length]? = some frame

theorem inv_start (buffers : ℕ → ℕ → U8) : (start buffers).Inv where
  out := List.prefix_rfl
  room := by simp [start]
  tx := rfl
  card := rfl
  owned := fun j _ _ => iff_of_false (fun h => h BitVec.zero_and) (Nat.not_lt_zero j)
  holds := fun j frame _ h => absurd h (Option.some_ne_none frame).symm
  calling := fun call h => absurd h (Option.some_ne_none call).symm
  sending := fun frame h => absurd h (Option.some_ne_none frame).symm

theorem Inv.length_le {s : TxRing} (h : s.Inv) : s.transmitted.length ≤ s.accepted.length :=
  h.out.length_le

theorem Inv.delivered {s : TxRing} (h : s.Inv) : s.Delivered := by
  refine ⟨h.out, h.room, fun k frame hframe => ?_⟩
  have hlt := (List.getElem?_eq_some_iff.mp hframe).1
  have hroom := h.room
  rw [h.card, Nat.mod_add_mod]
  refine ⟨(h.owned _ (Nat.le_add_right _ k) (by omega)).mpr hlt, ?_⟩
  exact h.holds _ frame (Nat.le_add_right _ k) hframe

/-- The descriptor that comes next is the card's just when the ring is full. -/
theorem Inv.owned_txIndex {s : TxRing} (h : s.Inv) :
    (s.ring s.txIndex).Owned ↔ ¬ s.accepted.length < s.transmitted.length + 8 := by
  have hle := h.length_le
  have hroom := h.room
  rw [h.tx]
  by_cases hfull : s.accepted.length < s.transmitted.length + 8
  · rw [h.owned _ hle hfull]
    exact iff_of_false (lt_irrefl _) (not_not.mpr hfull)
  · have hwrap : s.accepted.length % 8 = s.transmitted.length % 8 := by omega
    rw [hwrap, h.owned _ le_rfl (by omega)]
    exact iff_of_true (by omega) hfull

theorem inv_send {s s' : TxRing} {call : SendCall} (h : s.Inv)
    (hroom : ¬ call.size > 2000 → s.accepted.length < s.transmitted.length + 8)
    (hstep : s.step (.send call) = some s') : s'.Inv := by
  have hle := h.length_le
  rw [step] at hstep
  split at hstep
  next => exact absurd hstep.symm (Option.some_ne_none s')
  next hidle =>
    split at hstep
    next => exact Option.some_inj.mp hstep ▸ h
    next hsize =>
      obtain rfl := Option.some_inj.mp hstep
      have hlt := hroom hsize
      -- there is room, so the descriptor that is filled is no waiting frame's
      refine ⟨h.out, h.room, h.tx, h.card, ?_, ?_, ?_, h.sending⟩
      · intro j hj hj'
        dsimp only at hj hj' ⊢
        rw [h.tx]
        by_cases hlast : j = s.accepted.length
        · rw [hlast, Function.update_self, ← h.owned _ hle hlt]
          exact Iff.rfl
        · rw [update_mod_of_ne _ _ hle hj hlt hj' hlast]
          exact h.owned j hj hj'
      · intro j frame hj hframe
        dsimp only at hj hframe ⊢
        have hjlt := (List.getElem?_eq_some_iff.mp hframe).1
        rw [h.tx, update_mod_of_ne _ _ hle hj hlt (by omega) (by omega)]
        exact h.holds j frame hj hframe
      · intro call' hcall
        obtain rfl := Option.some_inj.mp hcall
        refine ⟨hsize, hlt, fun i hi => ?_⟩
        dsimp only
        rw [h.tx, Function.update_self]
        exact if_pos hi

theorem inv_handOver {s s' : TxRing} (h : s.Inv) (hstep : s.step .handOver = some s') :
    s'.Inv := by
  have hle := h.length_le
  obtain ⟨call, hcall, rfl⟩ := Option.map_eq_some_iff.mp hstep
  obtain ⟨hsize, hlt, hbuffer⟩ := h.calling call hcall
  refine ⟨h.out.trans (List.prefix_append ..), ?_, ?_, h.card, ?_, ?_, ?_, ?_⟩
  · dsimp only
    rw [List.length_append]
    exact hlt
  · dsimp only
    rw [h.tx, Nat.mod_add_mod, List.length_append]
    rfl
  · intro j hj hj'
    dsimp only at hj hj' ⊢
    rw [h.tx, List.length_append, List.length_singleton]
    by_cases hlast : j = s.accepted.length
    · rw [hlast, Function.update_self]
      exact iff_of_true (owned_txStatus _ call.size rfl) (Nat.lt_succ_self _)
    · rw [update_mod_of_ne _ _ hle hj hlt hj' hlast, h.owned j hj hj']
      omega
  · intro j frame hj hframe
    dsimp only at hj hframe ⊢
    rw [h.tx]
    by_cases hlast : j = s.accepted.length
    · -- the frame that is handed over
      rw [hlast, List.getElem?_concat_length, Option.some_inj] at hframe
      rw [hlast, Function.update_self, ← hframe, PCNetDescriptor.frame,
        byteCount_txStatus _ rfl hsize, SendCall.frame]
      exact List.map_congr_left fun i hi => hbuffer i (List.mem_range.mp hi)
    · have hjlt := (List.getElem?_eq_some_iff.mp hframe).1
      rw [List.length_append, List.length_singleton] at hjlt
      rw [List.getElem?_append_left (by omega)] at hframe
      rw [update_mod_of_ne _ _ hle hj hlt (by omega) hlast]
      exact h.holds j frame hj hframe
  · intro call' hnone
    exact absurd hnone (Option.some_ne_none call').symm
  · intro frame hframe
    have hfirst := h.sending frame hframe
    have hfirstlt := (List.getElem?_eq_some_iff.mp hfirst).1
    exact (List.getElem?_append_left hfirstlt).trans hfirst

theorem inv_take {s s' : TxRing} (h : s.Inv) (hstep : s.step .take = some s') : s'.Inv := by
  rw [step] at hstep
  split at hstep
  next hready =>
    obtain rfl := Option.some_inj.mp hstep
    refine ⟨h.out, h.room, h.tx, h.card, h.owned, h.holds, h.calling, ?_⟩
    intro frame hframe
    have howned := hready.2
    rw [h.card] at howned
    -- the card stands at the oldest frame that is not out
    have hlt := (h.owned _ le_rfl (by omega)).mp howned
    have hfirst := List.getElem?_eq_getElem hlt
    rw [← Option.some_inj.mp hframe, h.card, h.holds _ _ le_rfl hfirst]
    exact hfirst
  next => exact absurd hstep.symm (Option.some_ne_none s')

theorem inv_done {s s' : TxRing} (h : s.Inv) (hstep : s.step .done = some s') : s'.Inv := by
  have hroom := h.room
  obtain ⟨frame, hframe, rfl⟩ := Option.map_eq_some_iff.mp hstep
  have hfirst := h.sending frame hframe
  have hlt := (List.getElem?_eq_some_iff.mp hfirst).1
  refine ⟨prefix_concat_getElem h.out hfirst, ?_, h.tx, ?_, ?_, ?_, ?_, ?_⟩
  · dsimp only
    rw [List.length_append]
    exact hroom.trans (by omega)
  · dsimp only
    rw [h.card, Nat.mod_add_mod, List.length_append]
    rfl
  · intro j hj hj'
    dsimp only at hj hj' ⊢
    rw [List.length_append, List.length_singleton] at hj hj'
    rw [h.card]
    by_cases hlast : j = s.transmitted.length + 8
    · -- the descriptor that the card gives back
      rw [hlast, Nat.add_mod_right, Function.update_self]
      exact iff_of_false (not_owned_cleared _) (by omega)
    · rw [update_mod_of_ne _ _ le_rfl (by omega) (by omega) (by omega) (by omega)]
      exact h.owned j (by omega) (by omega)
  · intro j waiting hj hwaiting
    dsimp only at hj hwaiting ⊢
    rw [List.length_append, List.length_singleton] at hj
    have hjlt := (List.getElem?_eq_some_iff.mp hwaiting).1
    rw [h.card, update_mod_of_ne _ _ le_rfl (by omega) (by omega) (by omega) (by omega)]
    exact h.holds j waiting (by omega) hwaiting
  · intro call hcall
    -- a call under way has its own descriptor, which the card has given back before
    obtain ⟨hsize, hfree, hbuffer⟩ := h.calling call hcall
    dsimp only
    rw [List.length_append, List.length_singleton, h.card,
      update_mod_of_ne _ _ le_rfl hlt.le (by omega) hfree (by omega)]
    exact ⟨hsize, by omega, hbuffer⟩
  · intro frame' hnone
    exact absurd hnone (Option.some_ne_none frame').symm

/-- **What a step keeps** while there is room. -/
theorem inv_step {s s' : TxRing} {e : TxEvent} (h : s.Inv) (hroom : Room s e)
    (hstep : s.step e = some s') : s'.Inv := by
  cases e with
  | send call => exact inv_send h hroom hstep
  | handOver => exact inv_handOver h hstep
  | take => exact inv_take h hstep
  | done => exact inv_done h hstep

/-! ### Runs -/

theorem sound_iff {s : TxRing} (h : s.Inv) (e : TxEvent) : Sound s e ↔ Room s e := by
  have huntouched : ∀ s', s.step e = some s' → (Untouched s e ↔ Room s e) := by
    intro s' hstep
    cases e with
    | send call => exact imp_congr_right fun _ => (not_congr h.owned_txIndex).trans not_not
    | handOver =>
      obtain ⟨call, hcall, -⟩ := Option.map_eq_some_iff.mp hstep
      refine iff_of_true ?_ trivial
      exact (not_congr h.owned_txIndex).mpr (not_not.mpr (h.calling call hcall).2.1)
    | take | done => exact Iff.rfl
  constructor
  · intro hsound
    cases hstep : s.step e with
    | some s' => exact (huntouched s' hstep).mp (hsound s' hstep).1
    | none =>
      cases e with
      | send call =>
        -- only a call that is under way keeps another from starting
        intro hsize
        by_cases hbusy : s.calling.isSome
        · obtain ⟨call', hcall⟩ := Option.isSome_iff_exists.mp hbusy
          exact (h.calling call' hcall).2.1
        · rw [step, if_neg hbusy, if_neg hsize] at hstep
          exact absurd hstep (Option.some_ne_none _)
      | handOver | take | done => trivial
  · intro hroom s' hstep
    exact ⟨(huntouched s' hstep).mpr hroom, (inv_step h hroom hstep).delivered⟩

/-- **The runs in which every frame is sent as it was accepted**: those in which there is room
for every frame that is accepted. -/
theorem sent_iff_of_run (buffers : ℕ → ℕ → U8) (events : List TxEvent) :
    Guarded step Sound (start buffers) events ↔ Guarded step Room (start buffers) events :=
  guarded_congr (fun _ _ _ => inv_step) (fun _ e h => sound_iff h e) (inv_start buffers)

/-- A frame is sent, from the card's place on. -/
theorem sends_next {s : TxRing} (h : s.Inv) (hidle : s.sending = none)
    (hlt : s.transmitted.length < s.accepted.length) :
    ∃ s', run step s [.take, .done] = some s' ∧ s'.Inv ∧ s'.sending = none ∧
      s'.accepted = s.accepted ∧ s'.transmitted.length = s.transmitted.length + 1 := by
  have howned : (s.ring s.cardIndex).Owned := by
    rw [h.card]
    exact (h.owned _ le_rfl (by omega)).mpr hlt
  have htake : s.step .take = some { s with sending := some (s.ring s.cardIndex).frame } :=
    if_pos ⟨hidle, howned⟩
  have hinv := inv_take h htake
  rw [run_cons, htake, Option.bind_some]
  exact ⟨_, rfl, inv_done hinv rfl, rfl, rfl, List.length_append⟩

/-- **Every frame that waits is sent**, when the card goes on. -/
theorem sends_all {s : TxRing} (h : s.Inv) (hidle : s.sending = none) :
    ∃ events s', run step s events = some s' ∧ s'.transmitted = s.accepted := by
  induction hn : s.accepted.length - s.transmitted.length generalizing s with
  | zero =>
    have hlength : s.transmitted.length = s.accepted.length :=
      le_antisymm h.length_le (Nat.sub_eq_zero_iff_le.mp hn)
    exact ⟨[], s, rfl, h.out.eq_of_length hlength⟩
  | succ n ih =>
    obtain ⟨t, ht, hinv, htidle, haccepted, hlength⟩ := sends_next h hidle (by omega)
    obtain ⟨events, s', hrun, hsent⟩ := ih hinv htidle (by rw [haccepted, hlength]; omega)
    refine ⟨[.take, .done] ++ events, s', ?_, hsent.trans haccepted⟩
    rw [run_append, ht]
    exact hrun

/-- A frame of one byte. -/
def oneByte (b : U8) : SendCall := { data := fun _ => b, size := 1 }

/-- Nine frames, of which the card has sent none. -/
def nineFrames : List TxEvent :=
  (List.range 9).flatMap fun i => [.send (oneByte (BitVec.ofNat 8 i)), .handOver]

/-- **The ninth frame** overwrites the first. -/
theorem nineFrames_not_sound :
    ¬ ∀ (buffers : ℕ → ℕ → U8) (events : List TxEvent),
      Guarded step Sound (start buffers) events := by
  intro h
  have huntouched : Guarded step (fun s e => (s.step e).isSome → Untouched s e)
      (start fun _ _ => 0) nineFrames := by
    refine (h _ nineFrames).imp fun s e hsound hsome => ?_
    obtain ⟨s', hstep⟩ := Option.isSome_iff_exists.mp hsome
    exact (hsound s' hstep).1
  exact absurd huntouched (by decide +kernel)

end TxRing

end MesaOS.PCNet
