/-
The limit on `SYN`s from new peers in `TCP::handle_packet`.

The limiter is to drop a `SYN` when more than ten arrive within a second.  It takes the
current time for zero, so its window never ends, and it counts all `SYN`s since boot in a
32-bit counter.

* `drops_iff` — which `SYN`s are dropped;
* `fair_iff_of_run` — the runs in which one is dropped only when ten others arrived within
  the second before.
-/
import MesaOS.TCPCalls

open MachineWord Runs

namespace MesaOS.Net

/-- A call, and the time in milliseconds at which it is made. -/
structure TimedCall where
  time : ℕ
  call : TCPCall

/-- A `SYN` from a peer without a connection, which the limiter sees. -/
def TCP.NewSyn (t : TCP) : TCPCall → Prop
  | .segment srcIp data size => ¬ size < 20 ∧
    t.findConnection t.myIp srcIp (TCPHeader.destPort data) (TCPHeader.srcPort data) = none ∧
    hasFlag (TCPHeader.flags data) tcpSyn = true
  | _ => False

instance (t : TCP) : (call : TCPCall) → Decidable (t.NewSyn call)
  | .segment .. => inferInstanceAs (Decidable (_ ∧ _))
  | .listen _ | .connect .. | .close _ | .send .. | .recv .. => inferInstanceAs (Decidable False)

theorem TCP.newSyn_segment {t : TCP} {srcIp : U32} {data : ℕ → U8} {size : U32} :
    t.NewSyn (.segment srcIp data size) ↔ ¬ size < 20 ∧
      t.findConnection t.myIp srcIp (TCPHeader.destPort data) (TCPHeader.srcPort data) = none ∧
      hasFlag (TCPHeader.flags data) tcpSyn = true := Iff.rfl

/-- `handle_packet` returns without a connection. -/
def TCP.Drops (t : TCP) : TCPCall → Prop
  | .segment srcIp data size => t.connectionFor srcIp data size = none
  | _ => False

instance (t : TCP) : (call : TCPCall) → Decidable (t.Drops call)
  | .segment .. => inferInstanceAs (Decidable (_ = _))
  | .listen _ | .connect .. | .close _ | .send .. | .recv .. => inferInstanceAs (Decidable False)

/-- The machine, and the times at which the limiter saw a `SYN`. -/
structure Watched where
  tcp : TCP
  seen : List ℕ

namespace Watched

def step (w : Watched) (e : TimedCall) : Option Watched :=
  some { tcp := (w.tcp.perform e.call).tcp
         seen := if w.tcp.NewSyn e.call then e.time :: w.seen else w.seen }

/-- The machine after boot. -/
def start (myIp : U32) : Watched := { tcp := .initializeTcp myIp, seen := [] }

/-- How many `SYN`s the limiter saw in the second before `now`. -/
def recent (w : Watched) (now : ℕ) : ℕ := (w.seen.filter fun time => now < time + 1000).length

/-- A `SYN` is dropped only after ten others within a second. -/
def Fair (w : Watched) (e : TimedCall) : Prop :=
  w.tcp.NewSyn e.call → w.tcp.Drops e.call → 10 ≤ w.recent e.time

instance (w : Watched) (e : TimedCall) : Decidable (w.Fair e) :=
  inferInstanceAs (Decidable (_ → _ → _))

/-- There were ten others within a second, or the counter has not come to eleven. -/
def Within (w : Watched) (e : TimedCall) : Prop :=
  w.tcp.NewSyn e.call → (w.seen.length + 1) % 2 ^ 32 ≤ 10 ∨ 10 ≤ w.recent e.time

/-! ### The counter -/

/-- The counter has counted all `SYN`s, and the window has not moved. -/
structure Counts (w : Watched) : Prop where
  count : w.tcp.synCount.toNat = w.seen.length % 2 ^ 32
  time : w.tcp.lastSynTime = 0

theorem counts_start (myIp : U32) : (start myIp).Counts := ⟨rfl, rfl⟩

end Watched

/-- What a segment for a connection leaves of the counter. -/
theorem TCP.deliver_limiter (t : TCP) (p : ℕ) (data : ℕ → U8) (size : U32) :
    (t.deliver p data size).1.synCount = t.synCount ∧
      (t.deliver p data size).1.lastSynTime = t.lastSynTime := by
  rw [deliver]
  dsimp only
  split <;> exact ⟨rfl, rfl⟩

theorem TCP.connectOnDemand_newSyn {t : TCP} (htime : t.lastSynTime = 0) (srcIp : U32)
    {data : ℕ → U8} (hsyn : hasFlag (TCPHeader.flags data) tcpSyn = true) :
    (t.connectOnDemand srcIp data).1.synCount = t.synCount + 1 ∧
      (t.connectOnDemand srcIp data).1.lastSynTime = 0 ∧
      ((t.connectOnDemand srcIp data).2 = none ↔ t.synCount + 1 > 10) := by
  have hwindow : 0 - t.lastSynTime < 1000 := by
    rw [htime]
    decide
  rw [connectOnDemand, if_pos hsyn]
  dsimp only
  rw [if_pos hwindow]
  by_cases hflood : t.synCount + 1 > 10
  · rw [if_pos hflood]
    exact ⟨rfl, htime, iff_of_true rfl hflood⟩
  · rw [if_neg hflood]
    exact ⟨rfl, htime, iff_of_false (Option.some_ne_none _) hflood⟩

/-- Nothing but a `SYN` from a new peer is counted. -/
theorem TCP.perform_limiter {t : TCP} (htime : t.lastSynTime = 0) (call : TCPCall) :
    (t.perform call).tcp.synCount = (if t.NewSyn call then t.synCount + 1 else t.synCount) ∧
      (t.perform call).tcp.lastSynTime = 0 := by
  cases call with
  | listen port => exact ⟨rfl, htime⟩
  | connect destIp destPort => exact ⟨rfl, htime⟩
  | close fd =>
    rw [if_neg (show ¬ t.NewSyn (.close fd) from id), perform, close]
    split_ifs <;> exact ⟨rfl, htime⟩
  | send fd data size =>
    rw [if_neg (show ¬ t.NewSyn (.send fd data size) from id), perform, send]
    dsimp only
    split <;> exact ⟨rfl, htime⟩
  | recv fd size =>
    rw [if_neg (show ¬ t.NewSyn (.recv fd size) from id), perform, recv]
    dsimp only
    split_ifs <;> exact ⟨rfl, htime⟩
  | segment srcIp data size =>
    rw [perform, handlePacket]
    by_cases hsize : size < 20
    · rw [if_pos hsize, if_neg fun h => (newSyn_segment.mp h).1 hsize]
      exact ⟨rfl, htime⟩
    rw [if_neg hsize]
    cases hfind : t.findConnection t.myIp srcIp (TCPHeader.destPort data)
      (TCPHeader.srcPort data) with
    | some p =>
      obtain ⟨hcount, hlast⟩ := t.deliver_limiter p data size
      rw [if_neg fun h => Option.some_ne_none p (hfind.symm.trans (newSyn_segment.mp h).2.1)]
      exact ⟨hcount, hlast.trans htime⟩
    | none =>
      by_cases hsyn : hasFlag (TCPHeader.flags data) tcpSyn = true
      · obtain ⟨hcount, hlast, -⟩ := connectOnDemand_newSyn htime srcIp hsyn
        rw [if_pos (newSyn_segment.mpr ⟨hsize, hfind, hsyn⟩)]
        rcases hon : t.connectOnDemand srcIp data with ⟨u, _ | p⟩
        · rw [hon] at hcount hlast
          exact ⟨hcount, hlast⟩
        · rw [hon] at hcount hlast
          obtain ⟨hcount', hlast'⟩ := u.deliver_limiter p data size
          exact ⟨hcount'.trans hcount, hlast'.trans hlast⟩
      · have hnothing : t.connectOnDemand srcIp data = (t, none) := by
          rw [connectOnDemand, if_neg hsyn]
        rw [if_neg fun h => hsyn (newSyn_segment.mp h).2.2, hnothing]
        exact ⟨rfl, htime⟩

namespace Watched

theorem counts_step {w w' : Watched} {e : TimedCall} (h : w.Counts) (hstep : w.step e = some w') :
    w'.Counts := by
  obtain rfl := Option.some_inj.mp hstep
  obtain ⟨hcount, htime⟩ := TCP.perform_limiter h.time e.call
  refine ⟨?_, htime⟩
  dsimp only
  rw [hcount]
  split
  · rw [BitVec.toNat_add, h.count, List.length_cons]
    exact Nat.mod_add_mod ..
  · exact h.count

/-- **Which `SYN`s are dropped**: those with a number above ten, counted from boot. -/
theorem drops_iff {w : Watched} (h : w.Counts) {call : TCPCall} (hsyn : w.tcp.NewSyn call) :
    w.tcp.Drops call ↔ 10 < (w.seen.length + 1) % 2 ^ 32 := by
  cases call with
  | segment srcIp data size =>
    obtain ⟨hsize, hfind, hflag⟩ := hsyn
    obtain ⟨-, -, hnone⟩ := TCP.connectOnDemand_newSyn h.time srcIp hflag
    have hcount : (w.tcp.synCount + 1).toNat = (w.seen.length + 1) % 2 ^ 32 := by
      rw [BitVec.toNat_add, h.count]
      exact Nat.mod_add_mod ..
    rw [TCP.Drops, TCP.connectionFor, if_neg hsize, hfind, ← hcount]
    dsimp only
    rw [hnone, gt_iff_lt, BitVec.lt_def]
    rfl
  | listen port => exact hsyn.elim
  | connect destIp destPort => exact hsyn.elim
  | close fd => exact hsyn.elim
  | send fd data size => exact hsyn.elim
  | recv fd size => exact hsyn.elim

/-- **The fair runs** are those in which ten `SYN`s came in the second before each one whose
number, counted from boot, is above ten. -/
theorem fair_iff_of_run (myIp : U32) (events : List TimedCall) :
    Guarded step Fair (start myIp) events ↔ Guarded step Within (start myIp) events := by
  refine guarded_congr (fun w e w' h _ => counts_step h) (fun w e h => ?_) (counts_start myIp)
  refine forall_congr' fun hsyn => ?_
  rw [drops_iff h hsyn, imp_iff_not_or, Nat.not_lt]

/-- A `SYN` from the `i`-th peer. -/
def synFrom (i : ℕ) : TCPCall :=
  .segment (BitVec.ofNat 32 (0x0A000100 + i)) (bufferOf (List.replicate 13 0 ++ [tcpSyn])) 20

/-- A `SYN` from another peer every hour. -/
def hourly (n : ℕ) : List TimedCall :=
  (List.range n).map fun i => { time := 3600000 * i, call := synFrom i }

/-- **The eleventh `SYN`** is dropped, an hour after the one before. -/
theorem hourly_not_fair :
    ¬ ∀ (myIp : U32) (events : List TimedCall), Guarded step Fair (start myIp) events := by
  intro h
  exact absurd (h 0x0A000001 (hourly 11)) (by decide +kernel)

end Watched

end MesaOS.Net
