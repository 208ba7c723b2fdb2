/-
Interrupts of the PCNet card (`PCNet::callback` and `PCNet::poll` in `drivers/pcnet.cpp`).

Register 0 of the card has a bit for every cause of an interrupt, which is cleared by writing a one
to it, and the bit `IENA` that enables interrupts, which is what is written to it.  `callback`
reads the register and writes it back without `IENA`; `send_packet` writes `IENA` together with
the bit that it is after.

* `enabled_of_run` — so interrupts are enabled from a call of `send_packet` to the end of the next
  `callback`;
* `deaf_until_send` — from then on no frame is handled, however many come in, before a frame is
  sent or the ring is polled;
* `signalled_iff_of_run` — the runs in which a frame that waits always has its cause set.
-/
import MesaOS.PCNetReceive

open MachineWord Runs

namespace MesaOS.PCNet

/-! ### Register 0 -/

/-- The causes, bits 8 to 14, and `IENA`. -/
structure Csr0 where
  causes : U32
  enabled : Bool

namespace Csr0

def read (c : Csr0) : U32 :=
  0x33 ||| c.causes ||| (if c.causes ≠ 0 then 0x80 else 0) ||| if c.enabled then 0x40 else 0

def write (c : Csr0) (data : U32) : Csr0 where
  causes := c.causes &&& ~~~data
  enabled := decide (data &&& 0x40 ≠ 0)

/-- The card has a cause. -/
def set (c : Csr0) (cause : U32) : Csr0 := { c with causes := c.causes ||| cause }

/-- The card asks for an interrupt. -/
def Asserted (c : Csr0) : Prop := c.enabled = true ∧ c.causes ≠ 0

instance (c : Csr0) : Decidable c.Asserted := inferInstanceAs (Decidable (_ ∧ _))

end Csr0

/-- `RINT` -/
def rint : U32 := 0x0400

/-! ### The driver and the card -/

/-- The ring, register 0, and what a `callback` that is under way has read from it. -/
structure Nic where
  rx : RxRing
  csr0 : Csr0
  callback : Option U32

inductive NicEvent where
  /-- A frame is stored. -/
  | arrive (bytes : List U8) (status status2 : U32)
  /-- A frame comes in, and no descriptor is the card's. -/
  | miss
  /-- A frame is out. -/
  | sent
  /-- `callback` is called, reads register 0, and calls `receive_packet` if there is `RINT`. -/
  | interrupt
  /-- `callback` ends. -/
  | acknowledge
  /-- `poll` is called, and calls `receive_packet`. -/
  | poll
  /-- The call of `receive_packet` goes on. -/
  | driver
  /-- `send_packet` writes register 0. -/
  | send

namespace Nic

def step (s : Nic) : NicEvent → Option Nic
  | .arrive bytes status status2 => (s.rx.step (.arrive bytes status status2)).map fun rx =>
      { s with rx := rx, csr0 := s.csr0.set rint }
  | .miss => if (s.rx.ring s.rx.cardIndex).Owned then none
    else some { s with csr0 := s.csr0.set 0x1000 }
  | .sent => some { s with csr0 := s.csr0.set 0x0200 }
  | .interrupt =>
    if s.csr0.Asserted ∧ s.callback = none ∧ s.rx.call = none then
      let csr0 := s.csr0.read
      if csr0 &&& rint ≠ 0 then
        (s.rx.step .begin).map fun rx => { s with rx := rx, callback := some csr0 }
      else some { s with callback := some csr0 }
    else none
  | .acknowledge =>
    if s.rx.call = none then
      s.callback.map fun csr0 =>
        { s with csr0 := s.csr0.write (csr0 &&& ~~~0x0040), callback := none }
    else none
  | .poll =>
    if s.callback = none then (s.rx.step .begin).map fun rx => { s with rx := rx } else none
  | .driver => (s.rx.step .driver).map fun rx => { s with rx := rx }
  | .send => some { s with csr0 := s.csr0.write 0x48 }

/-- The end of `initialize`: the end of the card's own initialization is a cause, too. -/
def start (buffers : ℕ → ℕ → U8) : Nic where
  rx := .start buffers
  csr0 := Csr0.write { causes := 0x0100, enabled := false } 0x42
  callback := none

end Nic

/-! ### What a step does -/

namespace Nic

/-- A step and what is known of it. -/
inductive Next (s : Nic) : NicEvent → Nic → Prop
  | arrive {bytes : List U8} {status status2 : U32} {rx : RxRing}
      (h : s.rx.step (.arrive bytes status status2) = some rx) :
      Next s (.arrive bytes status status2) { s with rx := rx, csr0 := s.csr0.set rint }
  | miss : Next s .miss { s with csr0 := s.csr0.set 0x1000 }
  | sent : Next s .sent { s with csr0 := s.csr0.set 0x0200 }
  | receive {rx : RxRing} (hasserted : s.csr0.Asserted) (hcallback : s.callback = none)
      (h : s.rx.step .begin = some rx) :
      Next s .interrupt { s with rx := rx, callback := some s.csr0.read }
  | other (hasserted : s.csr0.Asserted) (hcallback : s.callback = none) :
      Next s .interrupt { s with callback := some s.csr0.read }
  | acknowledge {csr0 : U32} (hcallback : s.callback = some csr0) (hcall : s.rx.call = none) :
      Next s .acknowledge
        { s with csr0 := s.csr0.write (csr0 &&& ~~~0x0040), callback := none }
  | poll {rx : RxRing} (hcallback : s.callback = none) (h : s.rx.step .begin = some rx) :
      Next s .poll { s with rx := rx }
  | driver {rx : RxRing} (h : s.rx.step .driver = some rx) : Next s .driver { s with rx := rx }
  | send : Next s .send { s with csr0 := s.csr0.write 0x48 }

variable {s s' : Nic} {e : NicEvent} {events : List NicEvent}

theorem next_of_step (hstep : s.step e = some s') : s.Next e s' := by
  cases e with
  | arrive bytes status status2 =>
    obtain ⟨rx, hrx, rfl⟩ := Option.map_eq_some_iff.mp hstep
    exact .arrive hrx
  | miss =>
    rw [step] at hstep
    split at hstep
    · exact absurd hstep (Option.some_ne_none s').symm
    · exact Option.some_inj.mp hstep ▸ .miss
  | sent => exact Option.some_inj.mp hstep ▸ .sent
  | interrupt =>
    rw [step] at hstep
    split at hstep
    case isTrue hidle =>
      dsimp only at hstep
      split at hstep
      · obtain ⟨rx, hrx, rfl⟩ := Option.map_eq_some_iff.mp hstep
        exact .receive hidle.1 hidle.2.1 hrx
      · exact Option.some_inj.mp hstep ▸ .other hidle.1 hidle.2.1
    case isFalse => exact absurd hstep (Option.some_ne_none s').symm
  | acknowledge =>
    rw [step] at hstep
    split at hstep
    case isTrue hcall =>
      obtain ⟨csr0, hcsr0, rfl⟩ := Option.map_eq_some_iff.mp hstep
      exact .acknowledge hcsr0 hcall
    case isFalse => exact absurd hstep (Option.some_ne_none s').symm
  | poll =>
    rw [step] at hstep
    split at hstep
    case isTrue hcallback =>
      obtain ⟨rx, hrx, rfl⟩ := Option.map_eq_some_iff.mp hstep
      exact .poll hcallback hrx
    case isFalse => exact absurd hstep (Option.some_ne_none s').symm
  | driver =>
    obtain ⟨rx, hrx, rfl⟩ := Option.map_eq_some_iff.mp hstep
    exact .driver hrx
  | send => exact Option.some_inj.mp hstep ▸ .send

/-! ### When interrupts are enabled -/

/-- Whether interrupts are enabled after an event. -/
def armedBy (armed : Bool) : NicEvent → Bool
  | .send => true
  | .acknowledge => false
  | .arrive .. | .miss | .sent | .interrupt | .poll | .driver => armed

/-- The last of the calls of `send_packet` and the ends of `callback` is one of the former, or there
has not been one of the latter. -/
def armed (events : List NicEvent) : Bool := events.foldl armedBy true

/-- `IENA` is the bit that `callback` does not write. -/
theorem enabled_acknowledge (c : Csr0) (csr0 : U32) :
    (c.write (csr0 &&& ~~~0x0040)).enabled = false := by
  have hbit : csr0 &&& ~~~0x0040 &&& 0x40 = 0 := by
    rw [BitVec.and_assoc, show (~~~0x0040 &&& 0x40 : U32) = 0#32 by decide]
    exact BitVec.and_zero
  rw [Csr0.write, hbit]
  rfl

theorem enabled_step (hstep : s.step e = some s') :
    s'.csr0.enabled = armedBy s.csr0.enabled e := by
  cases next_of_step hstep with
  | acknowledge => exact enabled_acknowledge _ _
  | _ => rfl

theorem enabled_of_run {buffers : ℕ → ℕ → U8} (hrun : run step (start buffers) events = some s) :
    s.csr0.enabled = armed events := by
  have hany : ∀ (t : Nic) (events : List NicEvent), run step t events = some s →
      s.csr0.enabled = events.foldl armedBy t.csr0.enabled := by
    intro t events
    induction events generalizing t with
    | nil => exact fun h => Option.some_inj.mp h ▸ rfl
    | cons e events ih =>
      intro h
      rw [run_cons] at h
      obtain ⟨u, hu, hrest⟩ := Option.bind_eq_some_iff.mp h
      rw [ih u hrest, enabled_step hu, List.foldl_cons]
  exact hany _ events hrun

/-! ### Frames that are not handled -/

/-- Nothing is under way, and interrupts are disabled. -/
structure Deaf (s : Nic) : Prop where
  callback : s.callback = none
  call : s.rx.call = none
  enabled : s.csr0.enabled = false

/-- Without a call of `send_packet` or `poll` it stays so. -/
theorem Deaf.step (h : s.Deaf) (hsend : e ≠ .send) (hpoll : e ≠ .poll)
    (hstep : s.step e = some s') : s'.Deaf ∧ s'.rx.handled = s.rx.handled := by
  cases next_of_step hstep with
  | arrive hrx =>
    obtain ⟨hhandled, hcall, -⟩ := RxRing.step_arrive hrx
    exact ⟨⟨h.callback, hcall.trans h.call, h.enabled⟩, hhandled⟩
  | miss => exact ⟨⟨h.callback, h.call, h.enabled⟩, rfl⟩
  | sent => exact ⟨⟨h.callback, h.call, h.enabled⟩, rfl⟩
  | receive hasserted => exact absurd hasserted.1 (by rw [h.enabled]; exact Bool.false_ne_true)
  | other hasserted => exact absurd hasserted.1 (by rw [h.enabled]; exact Bool.false_ne_true)
  | acknowledge hcallback => exact absurd (h.callback.symm.trans hcallback) (by simp)
  | poll => exact absurd rfl hpoll
  | driver hrx =>
    rw [RxRing.step, h.call] at hrx
    exact absurd hrx (Option.some_ne_none _).symm
  | send => exact absurd rfl hsend

/-- **The driver goes deaf.**  Once the last `callback` has ended and no frame has been sent since,
no frame that comes in is handled until one is sent or the ring is polled. -/
theorem deaf_until_send {buffers : ℕ → ℕ → U8} {rest : List NicEvent}
    (hrun : run step (start buffers) events = some s) (hcallback : s.callback = none)
    (hcall : s.rx.call = none) (harmed : armed events = false)
    (hquiet : ∀ e ∈ rest, e ≠ .send ∧ e ≠ .poll) (hrest : run step s rest = some s') :
    s'.rx.handled = s.rx.handled := by
  have hdeaf : s.Deaf := ⟨hcallback, hcall, (enabled_of_run hrun).trans harmed⟩
  have hkept := run_invariant (P := fun t : Nic => t.Deaf ∧ t.rx.handled = s.rx.handled)
    (fun t e t' ht (he : e ≠ .send ∧ e ≠ .poll) hstep => by
      obtain ⟨hdeaf', hhandled⟩ := ht.1.step he.1 he.2 hstep
      exact ⟨hdeaf', hhandled.trans ht.2⟩)
    ⟨hdeaf, rfl⟩ (guarded_of_forall_mem hquiet s) hrest
  exact hkept.2

/-- The card's own initialization causes the first interrupt, and then a frame comes in. -/
def firstInterrupt : List NicEvent := [.interrupt, .acknowledge]

theorem deaf_until_send_firstInterrupt :
    ∃ s s', run step (start fun _ _ => 0) firstInterrupt = some s ∧
      run step s [.arrive [0x61] 0x03000000 1] = some s' ∧ s'.rx.stored = [[0x61]] ∧
      s'.rx.handled = [] := by
  obtain ⟨s, hs⟩ : ∃ s, run step (start fun _ _ => 0) firstInterrupt = some s :=
    Option.isSome_iff_exists.mp (by decide +kernel)
  have hidle : (run step (start fun _ _ => 0) firstInterrupt).map (fun s =>
      (s.callback.isNone, s.rx.call.isNone, s.rx.handled)) = some (true, true, []) := by
    decide +kernel
  have harrives : (run step (start fun _ _ => 0) firstInterrupt).bind (fun s =>
      (run step s [.arrive [0x61] 0x03000000 1]).map fun s' => s'.rx.stored) =
        some [[0x61]] := by
    decide +kernel
  rw [hs, Option.map_some, Option.some_inj, Prod.mk.injEq, Prod.mk.injEq] at hidle
  obtain ⟨hcallback, hcall, hhandled⟩ := hidle
  rw [hs, Option.bind_some] at harrives
  obtain ⟨s', hs', hstored⟩ := Option.map_eq_some_iff.mp harrives
  have hquiet : ∀ e ∈ [NicEvent.arrive [0x61] 0x03000000 1], e ≠ .send ∧ e ≠ .poll := by
    intro e he
    rw [List.mem_singleton.mp he]
    exact ⟨NicEvent.noConfusion, NicEvent.noConfusion⟩
  refine ⟨s, s', hs, hs', hstored, ?_⟩
  rw [deaf_until_send hs (Option.isNone_iff_eq_none.mp hcallback)
    (Option.isNone_iff_eq_none.mp hcall) rfl hquiet hs', hhandled]

/-! ### Causes -/

/-- A frame that waits has its cause set. -/
def Signalled (s : Nic) : Prop :=
  s.rx.handled.length < s.rx.stored.length → s.csr0.causes &&& rint ≠ 0

/-- No frame waits when `callback` clears the cause. -/
def Settled (s : Nic) : NicEvent → Prop
  | .acknowledge => s.rx.call = none → ∀ csr0, s.callback = some csr0 → csr0 &&& rint ≠ 0 →
      s.rx.stored.length ≤ s.rx.handled.length
  | _ => True

theorem and_rint_iff (x : U32) : x &&& rint ≠ 0 ↔ x.getLsbD 10 = true :=
  and_twoPow_ne_zero_iff x (show 10 < 32 by omega)

theorem rint_set (c : Csr0) (cause : U32) :
    (c.set cause).causes &&& rint ≠ 0 ↔ c.causes &&& rint ≠ 0 ∨ cause &&& rint ≠ 0 := by
  simp only [and_rint_iff, Csr0.set, BitVec.getLsbD_or, Bool.or_eq_true]

theorem rint_write (c : Csr0) (data : U32) :
    (c.write data).causes &&& rint ≠ 0 ↔ c.causes &&& rint ≠ 0 ∧ data &&& rint = 0 := by
  have hdata : data &&& rint = 0 ↔ data.getLsbD 10 = false := by
    rw [← Bool.not_eq_true, ← and_rint_iff, not_not]
  rw [and_rint_iff, and_rint_iff, hdata, Csr0.write]
  simp

/-- Writing everything but `IENA` back clears the cause if it was set. -/
theorem rint_acknowledge (csr0 : U32) : csr0 &&& ~~~0x0040 &&& rint = csr0 &&& rint := by
  rw [BitVec.and_assoc, show (~~~0x0040 &&& rint : U32) = rint by decide]

theorem signalled_step (h : s.Signalled) (hstep : s.step e = some s') :
    s'.Signalled ↔ s.Settled e := by
  cases next_of_step hstep with
  | arrive hrx => exact iff_of_true (fun _ => (rint_set _ _).mpr (Or.inr (by decide))) trivial
  | miss => exact iff_of_true (fun hwaits => (rint_set _ _).mpr (Or.inl (h hwaits))) trivial
  | sent => exact iff_of_true (fun hwaits => (rint_set _ _).mpr (Or.inl (h hwaits))) trivial
  | receive hasserted hcallback hrx =>
    refine iff_of_true (fun hwaits => h ?_) trivial
    obtain ⟨hhandled, hstored⟩ := RxRing.step_begin hrx
    rw [← hhandled, ← hstored]
    exact hwaits
  | other => exact iff_of_true h trivial
  | acknowledge hcallback hcall =>
    rename_i csr0
    have hsettled : s.Settled .acknowledge ↔
        (csr0 &&& rint ≠ 0 → s.rx.stored.length ≤ s.rx.handled.length) := by
      constructor
      · exact fun hs => hs hcall csr0 hcallback
      · intro hs _ v hv
        obtain rfl := Option.some_inj.mp (hcallback.symm.trans hv)
        exact hs
    rw [hsettled, Signalled, rint_write, rint_acknowledge]
    constructor
    · exact fun hs hcause => Nat.not_lt.mp fun hwaits => hcause (hs hwaits).2
    · intro hs hwaits
      refine ⟨h hwaits, ?_⟩
      by_contra hcause
      exact absurd hwaits (Nat.not_lt.mpr (hs hcause))
  | poll hcallback hrx =>
    refine iff_of_true (fun hwaits => h ?_) trivial
    obtain ⟨hhandled, hstored⟩ := RxRing.step_begin hrx
    rw [← hhandled, ← hstored]
    exact hwaits
  | driver hrx =>
    refine iff_of_true (fun hwaits => h ?_) trivial
    obtain ⟨hhandled, hstored⟩ := RxRing.step_driver hrx
    rw [hstored] at hwaits
    exact Nat.lt_of_le_of_lt hhandled.length_le hwaits
  | send =>
    refine iff_of_true (fun hwaits => (rint_write _ _).mpr ⟨h hwaits, by decide⟩) trivial

theorem settled_of_none (hstep : s.step e = none) : s.Settled e := by
  cases e with
  | acknowledge =>
    intro hcall csr0 hcallback
    rw [step, if_pos hcall, hcallback] at hstep
    exact absurd hstep (Option.some_ne_none _)
  | _ => trivial

/-- **Waiting frames and their cause.**  All along a run every frame that waits has the cause of a
receive interrupt set, exactly if no frame waits when `callback` clears that cause, neither one
that came in behind the end of `receive_packet` nor one that it left in the ring. -/
theorem signalled_iff_of_run (buffers : ℕ → ℕ → U8) (events : List NicEvent) :
    (∀ before, before <+: events → ∀ s, run step (start buffers) before = some s →
      s.Signalled) ↔ Guarded step Settled (start buffers) events :=
  forall_reached_iff_guarded (fun _ _ => settled_of_none) (fun _ _ _ => signalled_step)
    fun h => absurd h (Nat.lt_irrefl 0)

end Nic

end MesaOS.PCNet
