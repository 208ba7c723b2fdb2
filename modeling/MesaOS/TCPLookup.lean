/-
Which connection a segment reaches.

`handle_packet` looks for the connection between the addresses and ports of a segment,
and makes a new one for a `SYN` when there is none.

* `handlePacket_memory_of_not_reaches` — a segment leaves the connections that it does
  not reach as they are;
* `findConnection_handlePacket` — and they are found as before.
-/
import Mathlib.Data.List.Find
import MesaOS.TCP

open MachineWord

namespace MesaOS.Net

namespace TCP

/-! ### Lookup -/

theorem findConnection_setState (t : TCP) (p : ℕ) (state : TCPState) (localIp remoteIp : U32)
    (localPort remotePort : U16) :
    (t.setState p state).findConnection localIp remoteIp localPort remotePort =
      t.findConnection localIp remoteIp localPort remotePort :=
  findConnection_put (show (t.memory p).SameEnds { t.memory p with state := state } from
    ⟨rfl, rfl, rfl, rfl⟩) _ _ _ _

/-- The first element with a property is also found after another one is removed. -/
theorem find?_erase_of_ne {f : ℕ → Bool} {l : List ℕ} {p q : ℕ} (h : l.find? f = some p)
    (hne : q ≠ p) : (l.erase q).find? f = some p := by
  induction l with
  | nil => exact absurd h (by simp)
  | cons c cs ih =>
    by_cases hc : c = q
    · subst hc
      rw [List.erase_cons_head]
      rcases List.find?_cons_eq_some.mp h with ⟨-, hcp⟩ | ⟨-, hrest⟩
      · exact absurd hcp hne
      · exact hrest
    · rw [List.erase_cons_tail (by simpa using hc)]
      rcases List.find?_cons_eq_some.mp h with hfirst | ⟨hmatch, hrest⟩
      · exact List.find?_cons_eq_some.mpr (.inl hfirst)
      · exact List.find?_cons_eq_some.mpr (.inr ⟨hmatch, ih hrest⟩)

theorem findConnection_removeConnection {t : TCP} {p q : ℕ} {localIp remoteIp : U32}
    {localPort remotePort : U16}
    (h : t.findConnection localIp remoteIp localPort remotePort = some p) (hne : q ≠ p) :
    (t.removeConnection q).findConnection localIp remoteIp localPort remotePort = some p :=
  find?_erase_of_ne h hne

/-- Connections in the list have been allocated. -/
def Allocated (t : TCP) : Prop := ∀ p ∈ t.connections, p < t.nextPointer

/-- What is found matches. -/
theorem matches_of_findConnection {t : TCP} {p : ℕ} {localIp remoteIp : U32}
    {localPort remotePort : U16}
    (h : t.findConnection localIp remoteIp localPort remotePort = some p) :
    (t.memory p).Matches localIp remoteIp localPort remotePort := by
  simpa using List.find?_some h

theorem mem_of_findConnection {t : TCP} {p : ℕ} {localIp remoteIp : U32}
    {localPort remotePort : U16}
    (h : t.findConnection localIp remoteIp localPort remotePort = some p) : p ∈ t.connections :=
  List.mem_of_find?_eq_some h

theorem allocated_createConnection {t : TCP} (halloc : t.Allocated) (localIp remoteIp : U32)
    (localPort remotePort : U16) :
    (t.createConnection localIp remoteIp localPort remotePort).1.Allocated := by
  intro q hq
  rcases List.mem_cons.mp hq with rfl | hq
  · exact Nat.lt_succ_self _
  · exact Nat.lt_succ_of_lt (halloc q hq)

/-- A new connection is found before the old ones, which are found as before. -/
theorem findConnection_createConnection {t : TCP} (halloc : t.Allocated)
    (localIp remoteIp localIp' remoteIp' : U32) (localPort remotePort localPort' remotePort' : U16) :
    (t.createConnection localIp' remoteIp' localPort' remotePort').1.findConnection
      localIp remoteIp localPort remotePort =
      if localIp' = localIp ∧ remoteIp' = remoteIp ∧ localPort' = localPort ∧
        remotePort' = remotePort then some t.nextPointer
      else t.findConnection localIp remoteIp localPort remotePort := by
  have hold : ∀ conn, t.connections.find? (fun p => decide
      ((Function.update t.memory t.nextPointer conn p).Matches localIp remoteIp localPort remotePort)) =
      t.findConnection localIp remoteIp localPort remotePort := fun conn =>
    List.find?_congr fun p hp => by rw [Function.update_of_ne (Nat.ne_of_lt (halloc p hp))]
  rw [createConnection, findConnection]
  dsimp only
  by_cases h : localIp' = localIp ∧ remoteIp' = remoteIp ∧ localPort' = localPort ∧
    remotePort' = remotePort
  · rw [if_pos h]
    refine List.find?_cons_of_pos (decide_eq_true ?_)
    rw [Function.update_self]
    exact h
  · rw [if_neg h, List.find?_cons_of_neg, hold]
    rw [decide_eq_true_eq, Function.update_self]
    exact h

/-! ### Segments -/

/-- The segment is one that `handle_packet` finds the connection at `p` for. -/
def Reaches (t : TCP) (p : ℕ) (srcIp : U32) (data : ℕ → U8) (size : U32) : Prop :=
  20 ≤ size.toNat ∧ t.findConnection t.myIp srcIp (TCPHeader.destPort data)
    (TCPHeader.srcPort data) = some p

instance (t : TCP) (p : ℕ) (srcIp : U32) (data : ℕ → U8) (size : U32) :
    Decidable (t.Reaches p srcIp data size) :=
  inferInstanceAs (Decidable (_ ∧ _))

theorem Reaches.handlePacket_eq {t : TCP} {p : ℕ} {srcIp : U32} {data : ℕ → U8} {size : U32}
    (h : t.Reaches p srcIp data size) :
    t.handlePacket srcIp data size = t.deliver p data size := handlePacket_of_found h.1 h.2

/-- The connection at `p` with the acknowledgment number of a segment. -/
def acknowledged (t : TCP) (p : ℕ) (data : ℕ → U8) (size : U32) : TCPConnection :=
  (t.memory p).acknowledge (TCPHeader.flags data) (TCPHeader.seqNumber data)
    (size - TCPHeader.dataOffset data)

/-- What the state switch makes of it. -/
def switched (t : TCP) (p : ℕ) (data : ℕ → U8) (size : U32) : TCPConnection × List Packet × Bool :=
  (t.acknowledged p data size).switchState t.myIp (TCPHeader.flags data)
    (fun i => data ((TCPHeader.dataOffset data).toNat + i)) (size - TCPHeader.dataOffset data)

theorem sameEnds_switched (t : TCP) (p : ℕ) (data : ℕ → U8) (size : U32) :
    (t.memory p).SameEnds (t.switched p data size).1 := by
  have hself : (t.memory p).SameEnds (t.acknowledged p data size) := ⟨rfl, rfl, rfl, rfl⟩
  exact hself.trans (TCPConnection.sameEnds_switchState _ _ _ _ _)

/-- The connection after a segment that reaches it. -/
theorem deliver_memory_self (t : TCP) (p : ℕ) (data : ℕ → U8) (size : U32) :
    (t.deliver p data size).1.memory p = (t.switched p data size).1 := by
  rw [deliver]
  dsimp only
  split <;> exact put_memory_self _ _ _

/-- What a segment leaves as it was: everything but the connection at `p`. -/
theorem deliver_frame (t : TCP) (p : ℕ) (data : ℕ → U8) (size : U32) :
    (t.deliver p data size).1.nextPointer = t.nextPointer ∧
      (t.deliver p data size).1.myIp = t.myIp ∧
      ∀ q, q ≠ p → (t.deliver p data size).1.memory q = t.memory q := by
  rw [deliver]
  dsimp only
  split <;> exact ⟨rfl, rfl, fun q hq => put_memory_of_ne _ _ hq⟩

/-- **A segment for no connection**: it is dropped, or a new connection is made, in `LISTEN`. Only
the counters of the guard against floods change besides. -/
theorem connectOnDemand_cases (t : TCP) (srcIp : U32) (data : ℕ → U8) :
    ∃ count time,
      t.connectOnDemand srcIp data = ({ t with synCount := count, lastSynTime := time }, none) ∨
      t.connectOnDemand srcIp data =
        ((({ t with synCount := count, lastSynTime := time } : TCP).createConnection t.myIp srcIp
          (TCPHeader.destPort data) (TCPHeader.srcPort data)).1.setState t.nextPointer .listen,
          some t.nextPointer) := by
  rw [connectOnDemand]
  dsimp only
  split_ifs
  · exact ⟨t.synCount + 1, t.lastSynTime, .inl rfl⟩
  · exact ⟨t.synCount + 1, t.lastSynTime, .inr rfl⟩
  · exact ⟨1, 0, .inr rfl⟩
  · exact ⟨t.synCount, t.lastSynTime, .inl rfl⟩

/-- A connection made on demand is a new one. -/
theorem connectOnDemand_frame (t : TCP) (srcIp : U32) (data : ℕ → U8) :
    t.nextPointer ≤ (t.connectOnDemand srcIp data).1.nextPointer ∧
      (t.connectOnDemand srcIp data).1.myIp = t.myIp ∧
      (∀ q, (t.connectOnDemand srcIp data).2 = some q → q = t.nextPointer) ∧
      ∀ q, q < t.nextPointer → (t.connectOnDemand srcIp data).1.memory q = t.memory q := by
  obtain ⟨count, time, hdropped | hcreated⟩ := t.connectOnDemand_cases srcIp data
  · rw [hdropped]
    exact ⟨le_rfl, rfl, fun q h => absurd h (by simp), fun q _ => rfl⟩
  · rw [hcreated]
    refine ⟨Nat.le_succ _, rfl, fun q h => (Option.some_inj.mp h).symm, fun q hq => ?_⟩
    have hne : q ≠ t.nextPointer := Nat.ne_of_lt hq
    dsimp only
    rw [setState, put_memory_of_ne _ _ hne, createConnection]
    exact Function.update_of_ne hne ..

theorem handlePacket_frame (t : TCP) (srcIp : U32) (data : ℕ → U8) (size : U32) :
    t.nextPointer ≤ (t.handlePacket srcIp data size).1.nextPointer ∧
      (t.handlePacket srcIp data size).1.myIp = t.myIp := by
  rw [handlePacket]
  split_ifs
  · exact ⟨le_rfl, rfl⟩
  · obtain ⟨hnext, hip, -, -⟩ := t.connectOnDemand_frame srcIp data
    cases t.findConnection t.myIp srcIp (TCPHeader.destPort data) (TCPHeader.srcPort data) with
    | some p => exact ⟨(t.deliver_frame p data size).1.ge, (t.deliver_frame p data size).2.1⟩
    | none =>
      rcases hon : t.connectOnDemand srcIp data with ⟨u, _ | p⟩
      · rw [hon] at hnext hip
        exact ⟨hnext, hip⟩
      · rw [hon] at hnext hip
        obtain ⟨hnext', hip', -⟩ := u.deliver_frame p data size
        exact ⟨hnext.trans hnext'.ge, hip'.trans hip⟩

/-- **A segment that does not reach a connection leaves it as it was.** -/
theorem handlePacket_memory_of_not_reaches {t : TCP} {p : ℕ} (hp : p < t.nextPointer)
    {srcIp : U32} {data : ℕ → U8} {size : U32} (h : ¬ t.Reaches p srcIp data size) :
    (t.handlePacket srcIp data size).1.memory p = t.memory p := by
  rw [handlePacket]
  split_ifs with hsize
  · rfl
  · have h20 : 20 ≤ size.toNat := toNat_le_of_not_lt hsize
    obtain ⟨-, -, hnew, hmemory⟩ := t.connectOnDemand_frame srcIp data
    cases hfind : t.findConnection t.myIp srcIp (TCPHeader.destPort data)
      (TCPHeader.srcPort data) with
    | some q =>
      have hq : p ≠ q := fun heq => h ⟨h20, heq ▸ hfind⟩
      exact (t.deliver_frame q data size).2.2 p hq
    | none =>
      rcases hon : t.connectOnDemand srcIp data with ⟨u, _ | q⟩
      · rw [hon] at hmemory
        exact hmemory p hp
      · rw [hon] at hmemory hnew
        have hq : p ≠ q := by
          rw [hnew q rfl]
          omega
        exact ((u.deliver_frame q data size).2.2 p hq).trans (hmemory p hp)

/-- A segment that reaches a connection and does not remove it. -/
theorem deliver_eq_put {t : TCP} {p : ℕ} {data : ℕ → U8} {size : U32} {conn : TCPConnection}
    {out : List Packet}
    (h : t.switched p data size = (conn, out, false)) :
    t.deliver p data size = (t.put p conn, out) := by
  rw [switched, acknowledged] at h
  rw [deliver]
  dsimp only
  rw [h, if_neg Bool.false_ne_true]

theorem allocated_deliver {t : TCP} (halloc : t.Allocated) (p : ℕ) (data : ℕ → U8) (size : U32) :
    (t.deliver p data size).1.Allocated := by
  rw [deliver]
  dsimp only
  split
  · exact fun q hq => halloc q (List.mem_of_mem_erase hq)
  · exact halloc

/-- A segment for one connection does not hide another one. -/
theorem findConnection_deliver {t : TCP} {p q : ℕ} {localIp remoteIp : U32}
    {localPort remotePort : U16}
    (h : t.findConnection localIp remoteIp localPort remotePort = some p) (hne : q ≠ p)
    (data : ℕ → U8) (size : U32) :
    (t.deliver q data size).1.findConnection localIp remoteIp localPort remotePort = some p := by
  have hput : (t.put q (t.switched q data size).1).findConnection
      localIp remoteIp localPort remotePort = some p :=
    (findConnection_put (t.sameEnds_switched q data size) _ _ _ _).trans h
  rw [deliver]
  dsimp only
  split
  · exact findConnection_removeConnection hput hne
  · exact hput

/-- **A segment that does not reach a connection does not hide it either.** -/
theorem findConnection_handlePacket {t : TCP} (halloc : t.Allocated) {p : ℕ}
    {localIp remoteIp : U32} {localPort remotePort : U16}
    (h : t.findConnection localIp remoteIp localPort remotePort = some p) {srcIp : U32}
    {data : ℕ → U8} {size : U32} (hreaches : ¬ t.Reaches p srcIp data size) :
    (t.handlePacket srcIp data size).1.Allocated ∧
      (t.handlePacket srcIp data size).1.findConnection localIp remoteIp localPort remotePort =
        some p := by
  rw [handlePacket]
  split_ifs with hsize
  · exact ⟨halloc, h⟩
  · have h20 : 20 ≤ size.toNat := toNat_le_of_not_lt hsize
    cases hfind : t.findConnection t.myIp srcIp (TCPHeader.destPort data)
      (TCPHeader.srcPort data) with
    | some q =>
      have hne : q ≠ p := fun heq => hreaches ⟨h20, heq ▸ hfind⟩
      exact ⟨allocated_deliver halloc _ _ _, findConnection_deliver h hne _ _⟩
    | none =>
      obtain ⟨count, time, hdropped | hcreated⟩ := t.connectOnDemand_cases srcIp data
      · rw [hdropped]
        exact ⟨halloc, h⟩
      · rw [hcreated]
        have hu : ({ t with synCount := count, lastSynTime := time } : TCP).Allocated := halloc
        have hne : t.nextPointer ≠ p := (Nat.ne_of_lt (halloc p (mem_of_findConnection h))).symm
        refine ⟨allocated_deliver ?_ _ _ _, findConnection_deliver ?_ hne _ _⟩
        · exact allocated_createConnection hu t.myIp srcIp (TCPHeader.destPort data)
            (TCPHeader.srcPort data)
        · rw [findConnection_setState, findConnection_createConnection hu, if_neg]
          · exact h
          -- the new connection has the ends that no connection of the list has
          · rintro ⟨h1, h2, h3, h4⟩
            rw [h1, h2, h3, h4, h] at hfind
            exact absurd hfind (by simp)

end TCP

end MesaOS.Net
