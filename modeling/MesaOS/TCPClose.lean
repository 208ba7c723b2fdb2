/-
Closing a connection from both ends.

`Closing` is what the two ends of a connection do when it is closed, without addresses,
ports and sequence numbers; the machines refine it (`models_receive`, `models_close`).
In `FIN_WAIT_1` any acknowledgment leads to `FIN_WAIT_2`, also one that carries a
`FIN`, so two ends that close at the same time wait for each other forever
(`stuck_of_both_close`).

* `phase_step` — an orderly step leads from one phase of closing to the same or the next;
* `not_stuck_of_run` — in orderly runs no end is left half-closed.
-/
import MesaOS.TCPHandshake

open MachineWord Runs FifoNetwork

namespace MesaOS.Net

/-! ### The abstract connection -/

namespace Closing

/-- What an end of a connection is doing; `gone` is an end that was removed. -/
inductive End where
  | established
  | finWait1
  | finWait2
  | lastAck
  | timeWait
  | gone
  deriving DecidableEq

/-- A segment with `ACK`: whether it has a `FIN`, and whether it has a payload. -/
structure Message where
  fin : Bool
  data : Bool
  deriving DecidableEq

def ack : Message := ⟨false, false⟩

def fin : Message := ⟨true, false⟩

/-- What a segment does at an end, and the segments that answer it. -/
def react (m : Message) : End → End × List Message
  | .established =>
    if m.fin then (.lastAck, [ack, fin]) else (.established, if m.data then [ack] else [])
  | .finWait1 => (.finWait2, [])
  | .finWait2 => if m.fin then (.timeWait, [ack]) else (.finWait2, [])
  | .lastAck => (.gone, [])
  | .timeWait => (.gone, [])
  | .gone => (.gone, [])

/-- What `close` does at an end. -/
def close : End → End × List Message
  | .established => (.finWait1, [fin])
  | _ => (.gone, [])

/-- Either end is closed, or takes a segment. -/
def step (n : Net End Message) (e : Event Unit) : Option (Net End Message) :=
  n.step (fun _ _ => close) react e

/-! ### Phases -/

/-- No segment has a `FIN`. -/
def Plain (l : List Message) : Prop := ∀ m ∈ l, m.fin = false

/-- An end is closed for the first time while the other one still is established, and not
again while it waits for the other one. -/
def Orderly (n : Net End Message) : Event Unit → Prop
  | .call s _ => (n.node s = .established → n.node s.other = .established) ∧
      n.node s ≠ .finWait1 ∧ n.node s ≠ .finWait2
  | .deliver _ => True

/-- How far the connection has been closed, from end `s`: its `FIN` is on its way, then that of
the other end, then the last acknowledgment. -/
inductive Phase (n : Net End Message) : Prop where
  | opened (hnode : ∀ s, n.node s = .established) (hbox : ∀ s, Plain (n.inbox s))
  | asked (s : Side) (l : List Message) (hnode : n.node s = .finWait1 ∨ n.node s = .finWait2)
      (hother : n.node s.other = .established) (hbox : Plain (n.inbox s)) (hplain : Plain l)
      (hfin : n.inbox s.other = l ++ [fin])
  | answered (s : Side) (l : List Message)
      (hnode : n.node s = .finWait2 ∨ n.node s = .finWait1 ∧ l ≠ [])
      (hother : n.node s.other = .lastAck ∨ n.node s.other = .gone) (hplain : Plain l)
      (hfin : n.inbox s = l ++ [fin]) (hbox : n.inbox s.other = [])
  | finished (s : Side) (hnode : n.node s = .timeWait ∨ n.node s = .gone) (hbox : n.inbox s = [])
      (hother : n.node s.other = .lastAck ∧ n.inbox s.other = [ack] ∨
        n.node s.other = .gone ∧ Plain (n.inbox s.other))

theorem plain_cons {m : Message} {l : List Message} :
    Plain (m :: l) ↔ m.fin = false ∧ Plain l := List.forall_mem_cons

theorem plain_append {l l' : List Message} : Plain (l ++ l') ↔ Plain l ∧ Plain l' :=
  List.forall_mem_append

/-- What an established end answers to a segment without `FIN`. -/
theorem react_established {m : Message} (h : m.fin = false) :
    (react m .established).1 = .established ∧ Plain (react m .established).2 := by
  rw [react, h, if_neg Bool.false_ne_true]
  refine ⟨rfl, ?_⟩
  cases m.data with
  | true => exact List.forall_mem_singleton.mpr rfl
  | false => exact List.forall_mem_nil _

/-- A step of the end that was closed first, while its `FIN` is on its way. -/
theorem Phase.asked_after {n : Net End Message} {s : Side} {x : End} {box out l : List Message}
    (hnode : x = .finWait1 ∨ x = .finWait2) (hother : n.node s.other = .established)
    (hbox : Plain box) (hplain : Plain l) (hfin : n.inbox s.other ++ out = l ++ [fin]) :
    Phase (n.after s x box out) := by
  refine .asked s l ?_ ?_ ?_ hplain ?_
  · rw [Net.after_node_self]
    exact hnode
  · rw [Net.after_node_other]
    exact hother
  · rw [Net.after_inbox_self]
    exact hbox
  · rw [Net.after_inbox_other]
    exact hfin

/-- A step of the other end, after which its own `FIN` is on its way. -/
theorem Phase.answered_after {n : Net End Message} {s : Side} {x : End} {out l : List Message}
    (hnode : n.node s = .finWait2 ∨ n.node s = .finWait1 ∧ l ≠ [])
    (hother : x = .lastAck ∨ x = .gone) (hplain : Plain l) (hfin : n.inbox s ++ out = l ++ [fin]) :
    Phase (n.after s.other x [] out) := by
  refine .answered s l ?_ ?_ hplain ?_ (Net.after_inbox_self ..)
  · rw [Net.after_other_node]
    exact hnode
  · rw [Net.after_node_self]
    exact hother
  · rw [Net.after_other_inbox]
    exact hfin

/-- A step of the end that was closed first, once it has the other end's `FIN`. -/
theorem Phase.finished_after {n : Net End Message} {s : Side} {x : End} {out : List Message}
    (hnode : x = .timeWait ∨ x = .gone)
    (hother : n.node s.other = .lastAck ∧ n.inbox s.other ++ out = [ack] ∨
      n.node s.other = .gone ∧ Plain (n.inbox s.other ++ out)) :
    Phase (n.after s x [] out) := by
  refine .finished s ?_ (Net.after_inbox_self ..) ?_
  · rw [Net.after_node_self]
    exact hnode
  · rw [Net.after_node_other, Net.after_inbox_other]
    exact hother

/-- The other end is removed. -/
theorem Phase.finished_removed {n : Net End Message} {s : Side} {box : List Message}
    (hnode : n.node s = .timeWait ∨ n.node s = .gone) (hbox : n.inbox s = []) (hplain : Plain box) :
    Phase (n.after s.other .gone box []) := by
  refine .finished s ?_ ?_ (.inr ⟨Net.after_node_self .., ?_⟩)
  · rw [Net.after_other_node]
    exact hnode
  · rw [Net.after_other_inbox, List.append_nil]
    exact hbox
  · rw [Net.after_inbox_self]
    exact hplain

theorem phase_call {n n' : Net End Message} {r : Side} (h : Phase n)
    (hok : Orderly n (.call r ())) (hstep : step n (.call r ()) = some n') : Phase n' := by
  obtain ⟨hfirst, hfin1, hfin2⟩ := hok
  rw [Net.call_cases hstep]
  cases h with
  | opened hnode hbox =>
    rw [hnode r]
    exact .asked_after (.inl rfl) (hnode _) (hbox r) (hbox _) rfl
  | asked s l hnode hother hbox hplain hfin =>
    rcases Side.eq_or_eq_other s r with rfl | rfl
    · rcases hnode with hnode | hnode
      · exact absurd hnode hfin1
      · exact absurd hnode hfin2
    · -- the other end has not seen the `FIN` that is on its way
      have hclosed := hfirst hother
      rw [Side.other_other] at hclosed
      rcases hnode with hnode | hnode <;> rw [hnode] at hclosed <;> exact absurd hclosed (by decide)
  | answered s l hnode hother hplain hfin hbox =>
    rcases Side.eq_or_eq_other s r with rfl | rfl
    · rcases hnode with hnode | hnode
      · exact absurd hnode hfin2
      · exact absurd hnode.1 hfin1
    · have hclose : close (n.node s.other) = (.gone, []) := by
        rcases hother with hother | hother <;> rw [hother] <;> rfl
      rw [hclose, hbox]
      exact .answered_after hnode (.inr rfl) hplain (by rw [List.append_nil, hfin])
  | finished s hnode hbox hother =>
    rcases Side.eq_or_eq_other s r with rfl | rfl
    · have hclose : close (n.node r) = (.gone, []) := by
        rcases hnode with hnode | hnode <;> rw [hnode] <;> rfl
      rw [hclose, hbox]
      exact .finished_after (.inr rfl) (by rw [List.append_nil]; exact hother)
    · have hclose : close (n.node s.other) = (.gone, []) := by
        rcases hother with hother | hother <;> rw [hother.1] <;> rfl
      have hplain : Plain (n.inbox s.other) := by
        rcases hother with ⟨-, hbox⟩ | ⟨-, hbox⟩
        · rw [hbox]
          exact List.forall_mem_singleton.mpr rfl
        · exact hbox
      rw [hclose]
      exact .finished_removed hnode hbox hplain

theorem phase_deliver {n n' : Net End Message} {r : Side} (h : Phase n)
    (hstep : step n (.deliver r) = some n') : Phase n' := by
  obtain ⟨m, rest, hbox', rfl⟩ := Net.deliver_cases hstep
  cases h with
  | opened hnode hbox =>
    have hplain := hbox r
    rw [hbox', plain_cons] at hplain
    obtain ⟨hkeep, hout⟩ := react_established hplain.1
    rw [hnode r]
    refine .opened (fun s => ?_) fun s => ?_
    · rcases Side.eq_or_eq_other r s with rfl | rfl
      · rw [Net.after_node_self]
        exact hkeep
      · rw [Net.after_node_other]
        exact hnode _
    · rcases Side.eq_or_eq_other r s with rfl | rfl
      · rw [Net.after_inbox_self]
        exact hplain.2
      · rw [Net.after_inbox_other, plain_append]
        exact ⟨hbox _, hout⟩
  | asked s l hnode hother hbox hplain hfin =>
    rcases Side.eq_or_eq_other s r with rfl | rfl
    · have hreact : react m (n.node r) = (.finWait2, []) := by
        rw [hbox', plain_cons] at hbox
        rcases hnode with hnode | hnode <;> rw [hnode, react]
        rw [hbox.1, if_neg Bool.false_ne_true]
      rw [hreact]
      rw [hbox', plain_cons] at hbox
      exact .asked_after (.inr rfl) hother hbox.2 hplain (by rw [List.append_nil, hfin])
    · rw [hbox'] at hfin
      rw [hother]
      cases l with
      | nil =>
        -- the `FIN` arrives
        obtain ⟨rfl, rfl⟩ := List.cons_eq_cons.mp hfin
        have hwait : n.node s = .finWait2 ∨ n.node s = .finWait1 ∧ n.inbox s ++ [ack] ≠ [] :=
          hnode.symm.imp_right fun hnode => ⟨hnode, by simp⟩
        have hplain : Plain (n.inbox s ++ [ack]) :=
          plain_append.mpr ⟨hbox, List.forall_mem_singleton.mpr rfl⟩
        exact .answered_after hwait (.inl rfl) hplain (by rw [List.append_assoc]; rfl)
      | cons m' l =>
        obtain ⟨rfl, rfl⟩ := List.cons_eq_cons.mp hfin
        obtain ⟨hm, hplain⟩ := plain_cons.mp hplain
        obtain ⟨hkeep, hout⟩ := react_established hm
        refine .asked s l ?_ ?_ ?_ hplain ?_
        · rw [Net.after_other_node]
          exact hnode
        · rw [Net.after_node_self]
          exact hkeep
        · rw [Net.after_other_inbox, plain_append]
          exact ⟨hbox, hout⟩
        · exact Net.after_inbox_self ..
  | answered s l hnode hother hplain hfin hbox =>
    rcases Side.eq_or_eq_other s r with rfl | rfl
    · rw [hbox'] at hfin
      cases l with
      | nil =>
        -- the other end's `FIN` arrives
        obtain ⟨rfl, rfl⟩ := List.cons_eq_cons.mp hfin
        have hnode : n.node r = .finWait2 := hnode.resolve_right fun hnode => hnode.2 rfl
        rw [hnode]
        refine .finished_after (.inl rfl) ?_
        rw [hbox]
        exact hother.imp (fun hother => ⟨hother, rfl⟩)
          fun hother => ⟨hother, List.forall_mem_singleton.mpr rfl⟩
      | cons m' l =>
        obtain ⟨rfl, rfl⟩ := List.cons_eq_cons.mp hfin
        obtain ⟨hm, hplain⟩ := plain_cons.mp hplain
        have hreact : react m (n.node r) = (.finWait2, []) := by
          rcases hnode with hnode | ⟨hnode, -⟩ <;> rw [hnode, react]
          rw [hm, if_neg Bool.false_ne_true]
        rw [hreact]
        refine .answered r l ?_ ?_ hplain ?_ ?_
        · rw [Net.after_node_self]
          exact .inl rfl
        · rw [Net.after_node_other]
          exact hother
        · exact Net.after_inbox_self ..
        · rw [Net.after_inbox_other, List.append_nil]
          exact hbox
    · exact absurd (hbox'.symm.trans hbox) (by simp)
  | finished s hnode hbox hother =>
    rcases Side.eq_or_eq_other s r with rfl | rfl
    · exact absurd (hbox'.symm.trans hbox) (by simp)
    · have hreact : react m (n.node s.other) = (.gone, []) := by
        rcases hother with hother | hother <;> rw [hother.1] <;> rfl
      have hplain : Plain rest := by
        rw [hbox'] at hother
        rcases hother with ⟨-, hother⟩ | ⟨-, hother⟩
        · rw [(List.cons_eq_cons.mp hother).2]
          exact List.forall_mem_nil _
        · exact (plain_cons.mp hother).2
      rw [hreact]
      exact .finished_removed hnode hbox hplain

/-- **Orderly steps keep the phases.** -/
theorem phase_step {n n' : Net End Message} {e : Event Unit} (h : Phase n) (hok : Orderly n e)
    (hstep : step n e = some n') : Phase n' := by
  cases e with
  | call r c => exact phase_call h hok hstep
  | deliver r => exact phase_deliver h hstep

/-- Between the phases there always is a `FIN` or an acknowledgment on its way. -/
theorem Phase.not_waiting {n : Net End Message} (h : Phase n) (hquiet : n.Quiescent) (r : Side) :
    n.node r ≠ .finWait1 ∧ n.node r ≠ .finWait2 ∧ n.node r ≠ .lastAck := by
  cases h with
  | opened hnode hbox =>
    rw [hnode]
    decide
  | asked s l hnode hother hbox hplain hfin =>
    rw [hquiet] at hfin
    exact absurd hfin.symm (by simp)
  | answered s l hnode hother hplain hfin hbox =>
    rw [hquiet] at hfin
    exact absurd hfin.symm (by simp)
  | finished s hnode hbox hother =>
    rcases Side.eq_or_eq_other s r with rfl | rfl
    · rcases hnode with hnode | hnode <;> rw [hnode] <;> decide
    · rw [hquiet] at hother
      rcases hother with ⟨-, hother⟩ | ⟨hother, -⟩
      · exact absurd hother.symm (by simp)
      · rw [hother]
        decide

end Closing

/-! ### The machines -/

namespace TCP

/-- What `close` and `handle_packet` need of the connection at `p`: while it is in the list, it
is the only one there with its ends. -/
structure Endpoint (e : Ends) (p : ℕ) (t : TCP) : Prop where
  notNull : p ≠ 0
  myIp : t.myIp = e.localIp
  ends : (t.memory p).At e
  only : ∀ q ∈ t.connections, (t.memory q).At e → q = p
  nodup : t.connections.Nodup

/-- The state of the connection at `p`, if it was not removed. -/
def endState (t : TCP) (p : ℕ) : Option TCPState :=
  if p ∈ t.connections then some (t.memory p).state else none

variable {e : Ends} {p : ℕ} {t : TCP}

theorem Endpoint.lookup_of_mem (h : t.Endpoint e p) (hmem : p ∈ t.connections) :
    t.lookup e = some p := by
  cases hfind : t.lookup e with
  | none => exact absurd (decide_eq_true h.ends) (List.find?_eq_none.mp hfind p hmem)
  | some q =>
    rw [h.only q (mem_of_findConnection hfind) (matches_of_findConnection hfind)]

theorem Endpoint.lookup_of_not_mem (h : t.Endpoint e p) (hmem : p ∉ t.connections) :
    t.lookup e = none := by
  cases hfind : t.lookup e with
  | none => rfl
  | some q =>
    have hq := h.only q (mem_of_findConnection hfind) (matches_of_findConnection hfind)
    exact absurd (hq ▸ mem_of_findConnection hfind) hmem

theorem Endpoint.put (h : t.Endpoint e p) {conn : TCPConnection}
    (hends : (t.memory p).SameEnds conn) : (t.put p conn).Endpoint e p := by
  refine ⟨h.notNull, h.myIp, ?_, fun q hq hat => ?_, h.nodup⟩
  · rw [put_memory_self]
    exact (hends.at_iff e).mpr h.ends
  · by_cases hne : q = p
    · exact hne
    · rw [put_memory_of_ne _ _ hne] at hat
      exact h.only q hq hat

theorem Endpoint.remove (h : t.Endpoint e p) : (t.removeConnection p).Endpoint e p ∧
    p ∉ (t.removeConnection p).connections :=
  ⟨⟨h.notNull, h.myIp, h.ends, fun q hq => h.only q (List.mem_of_mem_erase hq), h.nodup.erase p⟩,
    h.nodup.not_mem_erase⟩

end TCP

namespace Closing

/-- The state that an end stands for. -/
def End.state : End → Option TCPState
  | .established => some .established
  | .finWait1 => some .finWait1
  | .finWait2 => some .finWait2
  | .lastAck => some .lastAck
  | .timeWait => some .timeWait
  | .gone => none

/-- The connection at `p` does what the end `x` does.  The memory of a removed connection can
still be read, and `close` looks at the state there. -/
structure Models (e : Ends) (p : ℕ) (t : TCP) (x : End) : Prop where
  endpoint : t.Endpoint e p
  state : t.endState p = x.state
  removed : p ∉ t.connections → (t.memory p).state ≠ .established

/-- The packet carries the segment `m`. -/
def Carries (e : Ends) (packet : Packet) (m : Message) : Prop :=
  ∃ flags payload, Conveys e flags payload packet ∧ hasFlag flags tcpAck = true ∧
    hasFlag flags tcpSyn = false ∧ hasFlag flags tcpFin = m.fin ∧ (payload ≠ [] ↔ m.data = true)

variable {e : Ends} {p : ℕ} {t : TCP} {x : End}

/-- A connection in the list is in the state of its end. -/
theorem Models.mem (h : Models e p t x) {state : TCPState} (hx : x.state = some state) :
    p ∈ t.connections ∧ (t.memory p).state = state := by
  have hstate := h.state
  rw [hx, TCP.endState] at hstate
  split at hstate
  · exact ⟨‹_›, Option.some_inj.mp hstate⟩
  · exact absurd hstate (by simp)

theorem Models.put (h : t.Endpoint e p) (hmem : p ∈ t.connections) {conn : TCPConnection}
    (hends : (t.memory p).SameEnds conn) (hx : x.state = some conn.state) :
    Models e p (t.put p conn) x := by
  refine ⟨h.put hends, ?_, fun hnot => absurd hmem hnot⟩
  rw [TCP.endState, TCP.put_connections, if_pos hmem, TCP.put_memory_self, hx]

theorem Models.remove (h : t.Endpoint e p) (hstate : (t.memory p).state ≠ .established) :
    Models e p (t.removeConnection p) .gone := by
  obtain ⟨hend, hnot⟩ := h.remove
  refine ⟨hend, ?_, fun _ => hstate⟩
  rw [TCP.endState, if_neg hnot]
  rfl

/-- The acknowledgments and `FIN`s of a connection. -/
theorem carries_emit (conn : TCPConnection) (h : conn.At e) (dst : U32) :
    Carries e.mirror { src := e.localIp, dst := dst, bytes := emit conn tcpAck [] } ack ∧
      Carries e.mirror
        { src := e.localIp, dst := dst, bytes := emit conn (tcpFin ||| tcpAck) [] } fin :=
  ⟨⟨_, _, conveys_emit conn h _ _ (by decide), by decide, by decide, by decide, by decide⟩,
    ⟨_, _, conveys_emit conn h _ _ (by decide), by decide, by decide, by decide, by decide⟩⟩

/-- **A segment at an end**: the machine answers as the end does. -/
theorem models_receive (h : Models e p t x) {packet : Packet} {m : Message}
    (hm : Carries e packet m) : Models e p (t.receive packet).1 (react m x).1 ∧
      List.Forall₂ (Carries e.mirror) (t.receive packet).2 (react m x).2 := by
  obtain ⟨flags, payload, hconveys, hack, hsyn, hfin, hdata⟩ := hm
  have hip := h.endpoint.myIp
  by_cases hgone : x = .gone
  · -- without the connection the segment is dropped
    subst hgone
    have hmem : p ∉ t.connections := by
      intro hmem
      have hstate := h.state
      rw [TCP.endState, if_pos hmem] at hstate
      exact absurd hstate (by simp [End.state])
    rw [hconveys.receive_unknown hip (h.endpoint.lookup_of_not_mem hmem) hsyn]
    exact ⟨h, .nil⟩
  · obtain ⟨state, hx⟩ : ∃ state, x.state = some state := by
      cases x <;> first | exact ⟨_, rfl⟩ | exact absurd rfl hgone
    obtain ⟨hmem, hstate⟩ := h.mem hx
    obtain ⟨number, hreceive⟩ := hconveys.receive hip (h.endpoint.lookup_of_mem hmem)
    rw [hreceive]
    set conn : TCPConnection := { t.memory p with ackNumber := number }
    have hends : (t.memory p).SameEnds conn := ⟨rfl, rfl, rfl, rfl⟩
    have hat : conn.At e := h.endpoint.ends
    have hconn : conn.state = state := hstate
    have hput : ∀ {conn' x'}, (t.memory p).SameEnds conn' → x'.state = some conn'.state →
        Models e p (t.put p conn') x' := fun h' => Models.put h.endpoint hmem h'
    have hremove : conn.state ≠ .established →
        Models e p ((t.put p conn).removeConnection p) .gone := fun hne =>
      Models.remove (h.endpoint.put hends) (by rw [TCP.put_memory_self]; exact hne)
    cases x with
    | established =>
      obtain rfl : TCPState.established = state := Option.some_inj.mp hx
      cases hmfin : m.fin with
      | true =>
        rw [hmfin] at hfin
        obtain ⟨seq, hswitch⟩ := conn.switchState_close hconn t.myIp hfin (bufferOf payload)
          (BitVec.ofNat 32 payload.length)
        rw [hswitch, TCP.finish_false, react, hmfin, if_pos rfl, hip]
        have hack := (carries_emit { conn with state := .closeWait } hat conn.remoteIp).1
        have hlast := (carries_emit { conn with state := .lastAck } hat conn.remoteIp).2
        exact ⟨hput ⟨rfl, rfl, rfl, rfl⟩ rfl, .cons hack (.cons hlast .nil)⟩
      | false =>
        rw [hmfin] at hfin
        have hsame := conn.sameEnds_switchState t.myIp flags (bufferOf payload)
          (BitVec.ofNat 32 payload.length)
        obtain ⟨conn', hswitch, hstate'⟩ := conn.switchState_plain hconn t.myIp hfin
          (bufferOf payload) (BitVec.ofNat 32 payload.length)
        rw [hswitch] at hsame
        rw [hswitch, TCP.finish_false, react, hmfin, if_neg Bool.false_ne_true, hip]
        refine ⟨hput (hends.trans hsame) (by rw [hstate']; rfl), ?_⟩
        have hzero : BitVec.ofNat 32 payload.length = 0 ↔ m.data = false := by
          have hshort := hconveys.short
          rw [← Bool.not_eq_true, ← hdata, not_not, ← List.length_eq_zero_iff]
          exact ⟨fun h => by bv_omega, fun h => by rw [h]; rfl⟩
        cases hmdata : m.data with
        | true =>
          rw [if_neg (by rw [hzero, hmdata]; decide), if_pos rfl]
          exact .cons (carries_emit _ ((hsame.at_iff e).mpr hat) conn.remoteIp).1 .nil
        | false =>
          rw [if_pos (hzero.mpr hmdata), if_neg Bool.false_ne_true]
          exact .nil
    | finWait1 =>
      obtain rfl : TCPState.finWait1 = state := Option.some_inj.mp hx
      rw [TCPConnection.switchState, hconn]
      dsimp only
      rw [if_pos hack, TCP.finish_false]
      exact ⟨hput ⟨rfl, rfl, rfl, rfl⟩ rfl, .nil⟩
    | finWait2 =>
      obtain rfl : TCPState.finWait2 = state := Option.some_inj.mp hx
      rw [TCPConnection.switchState, hconn]
      dsimp only
      cases hmfin : m.fin with
      | true =>
        rw [hmfin] at hfin
        rw [if_pos hfin, TCPConnection.sendFlags_eq, TCP.finish_false, react, hmfin, if_pos rfl, hip]
        have hlast := (carries_emit { conn with state := .timeWait } hat conn.remoteIp).1
        exact ⟨hput ⟨rfl, rfl, rfl, rfl⟩ rfl, .cons hlast .nil⟩
      | false =>
        rw [hmfin] at hfin
        rw [hfin, if_neg Bool.false_ne_true, TCP.finish_false, react, hmfin,
          if_neg Bool.false_ne_true]
        exact ⟨hput hends (by rw [hconn]; rfl), .nil⟩
    | lastAck =>
      obtain rfl : TCPState.lastAck = state := Option.some_inj.mp hx
      rw [TCPConnection.switchState, hconn]
      dsimp only
      rw [hack, TCP.finish_true]
      exact ⟨hremove (by rw [hconn]; decide), .nil⟩
    | timeWait =>
      obtain rfl : TCPState.timeWait = state := Option.some_inj.mp hx
      rw [TCPConnection.switchState, hconn]
      dsimp only
      rw [TCP.finish_true]
      exact ⟨hremove (by rw [hconn]; decide), .nil⟩
    | gone => exact absurd rfl hgone

/-- **`close` at an end.** -/
theorem models_close (h : Models e p t x) : Models e p (t.close p).1 (close x).1 ∧
    List.Forall₂ (Carries e.mirror) (t.close p).2 (close x).2 := by
  rw [TCP.close, if_neg h.endpoint.notNull]
  by_cases hx : x = .established
  · subst hx
    obtain ⟨hmem, hstate⟩ := h.mem rfl
    rw [if_pos hstate, TCPConnection.sendFlags_eq, h.endpoint.myIp]
    have hfin := (carries_emit { t.memory p with state := .finWait1 }
      h.endpoint.ends (t.memory p).remoteIp).2
    exact ⟨Models.put h.endpoint hmem ⟨rfl, rfl, rfl, rfl⟩ rfl, .cons hfin .nil⟩
  · have hstate : (t.memory p).state ≠ .established := by
      intro hstate
      by_cases hmem : p ∈ t.connections
      · have hx' := h.state
        rw [TCP.endState, if_pos hmem, hstate] at hx'
        cases x <;> simp [End.state] at hx hx'
      · exact h.removed hmem hstate
    have hclose : close x = (.gone, []) := by
      cases x <;> first | rfl | exact absurd rfl hx
    rw [if_neg hstate, hclose]
    exact ⟨Models.remove h.endpoint hstate, .nil⟩

end Closing

/-! ### Runs of the machines -/

/-- The program on a machine closes its connection, or a segment arrives. -/
def closeStep (fd : Side → ℕ) (n : Net TCP Packet) (e : Event Unit) : Option (Net TCP Packet) :=
  n.step (fun s _ t => t.close (fd s)) (fun packet t => t.receive packet) e

/-- A segment of the other end without `SYN` and `FIN`. -/
def DataOrAck (e : Ends) (packet : Packet) : Prop :=
  ∃ flags payload, Conveys e flags payload packet ∧ hasFlag flags tcpAck = true ∧
    hasFlag flags tcpSyn = false ∧ hasFlag flags tcpFin = false

/-- The machines have an established connection, and only data and acknowledgments are on
their way. -/
structure Connected (e : Ends) (fd : Side → ℕ) (n : Net TCP Packet) : Prop where
  endpoint : ∀ s, (n.node s).Endpoint (endsOf e s) (fd s)
  established : ∀ s, (n.node s).endState (fd s) = some .established
  inbox : ∀ s, ∀ packet ∈ n.inbox s, DataOrAck (endsOf e s) packet

/-- An established end is closed only while the other one is established, and an end that waits
in `FIN_WAIT_1` or `FIN_WAIT_2` is not closed again. -/
def OrderlyClose (fd : Side → ℕ) (n : Net TCP Packet) : Event Unit → Prop
  | .call s _ =>
    ((n.node s).endState (fd s) = some .established →
      (n.node s.other).endState (fd s.other) = some .established) ∧
    (n.node s).endState (fd s) ≠ some .finWait1 ∧ (n.node s).endState (fd s) ≠ some .finWait2
  | .deliver _ => True

instance (fd : Side → ℕ) (n : Net TCP Packet) : (e : Event Unit) → Decidable (OrderlyClose fd n e)
  | .call _ _ => inferInstanceAs (Decidable (_ ∧ _ ∧ _))
  | .deliver _ => inferInstanceAs (Decidable True)

/-- The connection is in the middle of being closed. -/
def TCP.HalfClosed (p : ℕ) (t : TCP) : Prop :=
  t.endState p = some .finWait1 ∨ t.endState p = some .finWait2 ∨ t.endState p = some .lastAck

instance (p : ℕ) (t : TCP) : Decidable (t.HalfClosed p) := inferInstanceAs (Decidable (_ ∨ _ ∨ _))

namespace Closing

/-- The network of machines does what the abstract one does. -/
def NetModels (e : Ends) (fd : Side → ℕ) : Net TCP Packet → Net End Message → Prop :=
  Net.Refines (fun s => Models (endsOf e s) (fd s)) fun s => Carries (endsOf e s)

variable {e : Ends} {fd : Side → ℕ} {n n' : Net TCP Packet} {m : Net End Message}

theorem End.state_inj {x y : End} (h : x.state = y.state) : x = y := by
  cases x <;> cases y <;> first | rfl | exact absurd h (by decide)

theorem NetModels.endState_iff (h : NetModels e fd n m) (s : Side) (x : End) :
    (n.node s).endState (fd s) = x.state ↔ m.node s = x := by
  rw [(h.node s).state]
  exact ⟨End.state_inj, congrArg _⟩

theorem NetModels.orderly (h : NetModels e fd n m) {ev : Event Unit} (hok : OrderlyClose fd n ev) :
    Orderly m ev := by
  cases ev with
  | call s c =>
    obtain ⟨hfirst, hfin1, hfin2⟩ := hok
    exact ⟨fun hs => (h.endState_iff s.other .established).mp
        (hfirst ((h.endState_iff s .established).mpr hs)),
      fun hs => hfin1 ((h.endState_iff s .finWait1).mpr hs),
      fun hs => hfin2 ((h.endState_iff s .finWait2).mpr hs)⟩
  | deliver s => trivial

/-- **One step of the machines is a step of the abstract connection.** -/
theorem NetModels.step (h : NetModels e fd n m) {ev : Event Unit}
    (hstep : closeStep fd n ev = some n') :
    ∃ m', Closing.step m ev = some m' ∧ NetModels e fd n' m' := by
  refine Net.Refines.step (fun _ _ => True) ?_ ?_ h (fun _ _ _ => trivial) hstep
  · intro s c t x _ ht
    rw [endsOf_other]
    exact models_close ht
  · intro s packet a t x ha ht
    rw [endsOf_other]
    exact models_receive ht ha

/-- What is on its way at first. -/
theorem exists_plain {l : List Packet} {e : Ends} (h : ∀ packet ∈ l, DataOrAck e packet) :
    ∃ l', List.Forall₂ (Carries e) l l' ∧ Plain l' := by
  induction l with
  | nil => exact ⟨[], .nil, List.forall_mem_nil _⟩
  | cons packet l ih =>
    obtain ⟨hpacket, hrest⟩ := List.forall_mem_cons.mp h
    obtain ⟨l', hl', hplain⟩ := ih hrest
    obtain ⟨flags, payload, hconveys, hack, hsyn, hfin⟩ := hpacket
    refine ⟨⟨false, decide (payload ≠ [])⟩ :: l', .cons ?_ hl', plain_cons.mpr ⟨rfl, hplain⟩⟩
    exact ⟨flags, payload, hconveys, hack, hsyn, hfin, decide_eq_true_iff.symm⟩

theorem exists_opened (h : Connected e fd n) : ∃ m, NetModels e fd n m ∧ Phase m := by
  choose inbox hinbox hplain using fun s => exists_plain (h.inbox s)
  refine ⟨⟨fun _ => .established, inbox⟩, ⟨fun s => ⟨h.endpoint s, h.established s, ?_⟩, hinbox⟩,
    .opened (fun _ => rfl) hplain⟩
  intro hnot
  have hstate := h.established s
  rw [TCP.endState, if_neg hnot] at hstate
  exact absurd hstate (by simp)

end Closing

/-- **No end is left half-closed**, in runs in which the ends are closed in an orderly way. -/
theorem not_halfClosed_of_run {e : Ends} {fd : Side → ℕ} {n n' : Net TCP Packet}
    {events : List (Event Unit)} (hstart : Connected e fd n)
    (hok : Guarded (closeStep fd) (OrderlyClose fd) n events)
    (hrun : run (closeStep fd) n events = some n') (hquiet : n'.Quiescent) (s : Side) :
    ¬ (n'.node s).HalfClosed (fd s) := by
  obtain ⟨m, hmodels, hphase⟩ := run_invariant
    (P := fun n => ∃ m, Closing.NetModels e fd n m ∧ Closing.Phase m)
    (fun n ev n' ⟨m, hm, hphase⟩ hok hstep => by
      obtain ⟨m', hm', hmodels⟩ := hm.step hstep
      exact ⟨m', hmodels, Closing.phase_step hphase (hm.orderly hok) hm'⟩)
    (Closing.exists_opened hstart) hok hrun
  obtain ⟨hfin1, hfin2, hlast⟩ := hphase.not_waiting (Net.Refines.quiescent hmodels hquiet) s
  rintro (h | h | h)
  · exact hfin1 ((hmodels.endState_iff s .finWait1).mp h)
  · exact hfin2 ((hmodels.endState_iff s .finWait2).mp h)
  · exact hlast ((hmodels.endState_iff s .lastAck).mp h)

/-- Two machines after a handshake, each with the connection at 1. -/
def establishedPair : Net TCP Packet :=
  ((run (Session.step 1) (Session.start firstMachine secondMachine 80)
    [.send (fun _ => 0) 0, .deliver .right, .deliver .right, .deliver .left]).getD
      (Session.start firstMachine secondMachine 80)).net

theorem connected_establishedPair :
    Connected (clientEnds firstMachine secondMachine 80) (fun _ => 1) establishedPair where
  endpoint
    | .left => ⟨by decide, by decide +kernel, by decide +kernel, by decide +kernel,
        by decide +kernel⟩
    | .right => ⟨by decide, by decide +kernel, by decide +kernel, by decide +kernel,
        by decide +kernel⟩
  established
    | .left => by decide +kernel
    | .right => by decide +kernel
  inbox s packet hpacket := by
    have hquiet : establishedPair.Quiescent := by decide +kernel
    rw [hquiet s] at hpacket
    exact absurd hpacket List.not_mem_nil

/-- One machine closes, then the other one does. -/
def closeOneByOne : List (Event Unit) :=
  [.call .left (), .deliver .right, .deliver .left, .deliver .left, .deliver .right]

theorem not_halfClosed_of_run_closeOneByOne :
    ∃ n, run (closeStep fun _ => 1) establishedPair closeOneByOne = some n ∧ n.Quiescent ∧
      ¬ (n.node .left).HalfClosed 1 := by
  have hvalues : (run (closeStep fun _ => 1) establishedPair closeOneByOne).map
      (fun n => decide n.Quiescent) = some true := by
    decide +kernel
  obtain ⟨n, hn, hquiet⟩ := Option.map_eq_some_iff.mp hvalues
  have hquiet := of_decide_eq_true hquiet
  exact ⟨n, hn, hquiet, not_halfClosed_of_run connected_establishedPair (by decide +kernel) hn
    hquiet .left⟩

/-- **Two ends that close at the same time** stay in `FIN_WAIT_2`. -/
theorem stuck_of_both_close :
    Connected (clientEnds firstMachine secondMachine 80) (fun _ => 1) establishedPair ∧
    ∃ n, run (closeStep fun _ => 1) establishedPair
        [.call .left (), .call .right (), .deliver .left, .deliver .right] = some n ∧
      n.Quiescent ∧ ∀ s, (n.node s).endState 1 = some .finWait2 ∧ (n.node s).HalfClosed 1 := by
  have hvalues : (run (closeStep fun _ => 1) establishedPair
      [.call .left (), .call .right (), .deliver .left, .deliver .right]).map (fun n =>
        (decide n.Quiescent, (n.node .left).endState 1, (n.node .right).endState 1)) =
        some (true, some .finWait2, some .finWait2) := by
    decide +kernel
  obtain ⟨n, hn, hvalues⟩ := Option.map_eq_some_iff.mp hvalues
  simp only [Prod.mk.injEq] at hvalues
  obtain ⟨hquiet, hleft, hright⟩ := hvalues
  refine ⟨connected_establishedPair, n, hn, of_decide_eq_true hquiet, fun s => ?_⟩
  cases s with
  | left => exact ⟨hleft, .inr (.inl hleft)⟩
  | right => exact ⟨hright, .inr (.inl hright)⟩

end MesaOS.Net
