/-
The addresses and ports of the listed connections.

`find_connection` returns the first match, so that two connections between the same
addresses and ports hide one another.  `handle_packet` makes a connection only when none
matches; `listen` and `connect` do not look, and the counter of the ephemeral ports wraps
around.

* `unambiguous_iff_of_run` — the runs in which each connection is found and `connect` uses
  ephemeral ports.
-/
import Mathlib.Data.List.Nodup
import MesaOS.TCPCalls

open MachineWord Runs

namespace MesaOS.Net

/-- Local and remote address, local and remote port. -/
def TCPConnection.ends (conn : TCPConnection) : U32 × U32 × U16 × U16 :=
  (conn.localIp, conn.remoteIp, conn.localPort, conn.remotePort)

theorem TCPConnection.matches_iff_ends {conn : TCPConnection} {localIp remoteIp : U32}
    {localPort remotePort : U16} : conn.Matches localIp remoteIp localPort remotePort ↔
      conn.ends = (localIp, remoteIp, localPort, remotePort) := by
  rw [Matches, ends, Prod.mk.injEq, Prod.mk.injEq, Prod.mk.injEq]

theorem TCPConnection.SameEnds.ends_eq {conn conn' : TCPConnection} (h : conn.SameEnds conn') :
    conn'.ends = conn.ends := matches_iff_ends.mp h

namespace TCP

/-- The ends of the listed connections. -/
def endsList (t : TCP) : List (U32 × U32 × U16 × U16) :=
  t.connections.map fun p => (t.memory p).ends

theorem findConnection_eq_none_iff {t : TCP} {localIp remoteIp : U32} {localPort remotePort : U16} :
    t.findConnection localIp remoteIp localPort remotePort = none ↔
      (localIp, remoteIp, localPort, remotePort) ∉ t.endsList := by
  rw [findConnection, List.find?_eq_none, endsList, List.mem_map]
  constructor
  · rintro h ⟨p, hp, hends⟩
    exact h p hp (decide_eq_true (TCPConnection.matches_iff_ends.mpr hends))
  · intro h p hp hmatch
    exact h ⟨p, hp, TCPConnection.matches_iff_ends.mp (of_decide_eq_true hmatch)⟩

/-- Of connections with different ends, no more than one matches. -/
theorem eq_of_matches {t : TCP} (hdistinct : t.endsList.Nodup) {p q : ℕ} (hp : p ∈ t.connections)
    (hq : q ∈ t.connections) {localIp remoteIp : U32} {localPort remotePort : U16}
    (hmp : (t.memory p).Matches localIp remoteIp localPort remotePort)
    (hmq : (t.memory q).Matches localIp remoteIp localPort remotePort) : q = p := by
  have hends : (t.memory q).ends = (t.memory p).ends :=
    (TCPConnection.matches_iff_ends.mp hmq).trans (TCPConnection.matches_iff_ends.mp hmp).symm
  exact List.inj_on_of_nodup_map hdistinct hq hp hends

theorem endsList_put {t : TCP} {p : ℕ} {conn : TCPConnection} (h : (t.memory p).SameEnds conn) :
    (t.put p conn).endsList = t.endsList := by
  rw [endsList, endsList, put_connections]
  refine List.map_congr_left fun q _ => ?_
  by_cases hq : q = p
  · rw [hq, put_memory_self, h.ends_eq]
  · rw [put_memory_of_ne _ _ hq]

theorem endsList_setState (t : TCP) (p : ℕ) (state : TCPState) :
    (t.setState p state).endsList = t.endsList :=
  endsList_put (show (t.memory p).SameEnds { t.memory p with state := state } from
    ⟨rfl, rfl, rfl, rfl⟩)

theorem endsList_removeConnection (t : TCP) (p : ℕ) :
    (t.removeConnection p).endsList.Sublist t.endsList :=
  List.erase_sublist.map _

/-- A new connection does not change the ends of the others. -/
theorem endsList_createConnection {t : TCP} (halloc : t.Allocated) (localIp remoteIp : U32)
    (localPort remotePort : U16) :
    (t.createConnection localIp remoteIp localPort remotePort).1.endsList =
      (localIp, remoteIp, localPort, remotePort) :: t.endsList := by
  rw [createConnection_eq, endsList, List.map_cons]
  dsimp only
  rw [Function.update_self]
  refine congrArg (_ :: ·) (List.map_congr_left fun q hq => ?_)
  rw [Function.update_of_ne (Nat.ne_of_lt (halloc q hq))]

theorem endsList_deliver (t : TCP) (p : ℕ) (data : ℕ → U8) (size : U32) :
    (t.deliver p data size).1.endsList.Sublist t.endsList := by
  have hput := endsList_put (t.sameEnds_switched p data size)
  rw [deliver]
  dsimp only
  split
  · exact (endsList_removeConnection _ p).trans (hput ▸ List.Sublist.refl _)
  · exact hput ▸ List.Sublist.refl _

/-- The ends that `listen` and `connect` give their connection. -/
def wanted (t : TCP) : TCPCall → Option (U32 × U32 × U16 × U16)
  | .listen port => some (t.myIp, 0, port, 0)
  | .connect destIp destPort => some (t.myIp, destIp, t.nextEphemeralPort, destPort)
  | _ => none

/-- **What a call does to the list**: `listen` and `connect` add their connection to it, and
`handle_packet` one that is not there. -/
theorem endsList_perform {t : TCP} (halloc : t.Allocated) (call : TCPCall) :
    (t.perform call).tcp.Allocated ∧
      (∀ ends, t.wanted call = some ends →
        (t.perform call).tcp.endsList = ends :: t.endsList) ∧
      (t.wanted call = none → t.endsList.Nodup → (t.perform call).tcp.endsList.Nodup) := by
  have hquiet : t.wanted call = none → ∀ u : TCP, u.Allocated →
      (t.endsList.Nodup → u.endsList.Nodup) → u.Allocated ∧
      (∀ ends, t.wanted call = some ends → u.endsList = ends :: t.endsList) ∧
      (t.wanted call = none → t.endsList.Nodup → u.endsList.Nodup) := by
    intro hnone u hu hnodup
    refine ⟨hu, fun ends hends => ?_, fun _ => hnodup⟩
    rw [hnone] at hends
    exact absurd hends nofun
  have hput := fun (hnone : t.wanted call = none) (p : ℕ) (conn : TCPConnection)
    (hsame : (t.memory p).SameEnds conn) =>
      hquiet hnone (t.put p conn) halloc fun h => (endsList_put hsame).symm ▸ h
  cases call with
  | listen port =>
    refine ⟨allocated_createConnection halloc t.myIp 0 port 0, fun ends hends => ?_, nofun⟩
    rw [← Option.some_inj.mp hends]
    exact (endsList_setState _ _ _).trans (endsList_createConnection halloc t.myIp 0 port 0)
  | connect destIp destPort =>
    set u : TCP := { t with nextEphemeralPort := t.nextEphemeralPort + 1 } with hu
    have halloc' : u.Allocated := halloc
    refine ⟨allocated_createConnection halloc' t.myIp destIp t.nextEphemeralPort destPort,
      fun ends hends => ?_, nofun⟩
    have hsame : ∀ conn : TCPConnection, conn.SameEnds
        { ({ conn with state := .synSent } : TCPConnection).sendFlags t.myIp tcpSyn |>.1 with
          state := .established } := by
      intro conn
      rw [TCPConnection.sendFlags_eq]
      exact ⟨rfl, rfl, rfl, rfl⟩
    rw [← Option.some_inj.mp hends]
    exact (endsList_put (hsame _)).trans
      (endsList_createConnection halloc' t.myIp destIp t.nextEphemeralPort destPort)
  | close fd =>
    rw [perform, close]
    by_cases hfd : fd = 0
    · rw [if_pos hfd]
      exact hquiet rfl t halloc id
    rw [if_neg hfd]
    by_cases hstate : (t.memory fd).state = .established
    · rw [if_pos hstate]
      refine hput rfl fd _ ?_
      rw [TCPConnection.sendFlags_eq]
      exact ⟨rfl, rfl, rfl, rfl⟩
    · rw [if_neg hstate]
      exact hquiet rfl _ (fun q hq => halloc q (List.mem_of_mem_erase hq))
        fun h => h.sublist (t.endsList_removeConnection fd)
  | send fd data size =>
    rw [perform, send]
    dsimp only
    by_cases hfail : fd = 0 ∨ (t.memory fd).state ≠ .established
    · rw [if_pos hfail]
      exact hquiet rfl t halloc id
    · rw [if_neg hfail]
      refine hput rfl fd _ ?_
      by_cases hfull : size > 0 ∧ (t.memory fd).state = .established ∧
          (t.memory fd).clampSize size = 0
      · rw [TCPConnection.sendPacket_of_full _ _ _ hfull]
        exact ⟨rfl, rfl, rfl, rfl⟩
      · rw [TCPConnection.sendPacket_of_space _ _ _ hfull]
        exact ⟨rfl, rfl, rfl, rfl⟩
  | recv fd size =>
    by_cases hfail : fd = 0 ∨ (t.memory fd).state ≠ .established
    · rw [perform, recv]
      dsimp only
      rw [if_pos hfail]
      exact hquiet rfl t halloc id
    · rw [not_or, not_not] at hfail
      rw [perform, t.recv_eq hfail.1 hfail.2]
      refine hput rfl fd _ ?_
      rw [TCPConnection.takeBytes]
      split <;> exact ⟨rfl, rfl, rfl, rfl⟩
  | segment srcIp data size =>
    have hdeliver := fun (u : TCP) (p : ℕ) (hu : u.Allocated)
      (hnodup : t.endsList.Nodup → u.endsList.Nodup) =>
        hquiet rfl (u.deliver p data size).1 (allocated_deliver hu p data size)
          fun h => (hnodup h).sublist (u.endsList_deliver p data size)
    rw [perform, handlePacket]
    by_cases hsize : size < 20
    · rw [if_pos hsize]
      exact hquiet rfl t halloc id
    rw [if_neg hsize]
    cases hfind : t.findConnection t.myIp srcIp (TCPHeader.destPort data)
      (TCPHeader.srcPort data) with
    | some p => exact hdeliver t p halloc id
    | none =>
      obtain ⟨count, time, hdropped | hcreated⟩ := t.connectOnDemand_cases srcIp data
      · rw [hdropped]
        exact hquiet rfl _ halloc id
      · rw [hcreated]
        set u : TCP := { t with synCount := count, lastSynTime := time } with hu
        have hu' : u.Allocated := halloc
        refine hdeliver _ _ (allocated_createConnection hu' t.myIp srcIp (TCPHeader.destPort data)
          (TCPHeader.srcPort data)) fun h => ?_
        rw [endsList_setState, endsList_createConnection hu']
        exact List.nodup_cons.mpr ⟨findConnection_eq_none_iff.mp hfind, h⟩

end TCP

/-! ### Runs -/

/-- The local port of `connect`. -/
def TCPEffect.usedPort (e : TCPEffect) : TCPCall → List U16
  | .connect _ _ => (e.conn.map fun p => (e.tcp.memory p).localPort).toList
  | _ => []

/-- The machine, and the local ports that `connect` has used. -/
structure TCPPorts where
  tcp : TCP
  ports : List U16

namespace TCPPorts

def start (myIp : U32) : TCPPorts := { tcp := .initializeTcp myIp, ports := [] }

def step (s : TCPPorts) (call : TCPCall) : Option TCPPorts :=
  let e := s.tcp.perform call
  some {
    tcp := e.tcp
    ports := s.ports ++ e.usedPort call }

/-- Each listed connection is the only one between its addresses and ports, so that
`find_connection` finds it, and the local ports of `connect` are ephemeral. -/
structure Unambiguous (s : TCPPorts) : Prop where
  distinct : s.tcp.connections.Pairwise fun p q => ¬ (s.tcp.memory p).SameEnds (s.tcp.memory q)
  onlyMatch : ∀ localIp remoteIp localPort remotePort p,
    s.tcp.findConnection localIp remoteIp localPort remotePort = some p →
    ∀ q ∈ s.tcp.connections,
      (s.tcp.memory q).Matches localIp remoteIp localPort remotePort → q = p
  ephemeral : ∀ port ∈ s.ports, 49152 ≤ port.toNat

/-- No listed connection has the ends that a new one gets, and `connect` gets an ephemeral port. -/
def Free (s : TCPPorts) : TCPCall → Prop
  | .listen port => s.tcp.findConnection s.tcp.myIp 0 port 0 = none
  | .connect destIp destPort => 49152 ≤ s.tcp.nextEphemeralPort.toNat ∧
    s.tcp.findConnection s.tcp.myIp destIp s.tcp.nextEphemeralPort destPort = none
  | _ => True

theorem unambiguous_iff (s : TCPPorts) :
    s.Unambiguous ↔ s.tcp.endsList.Nodup ∧ ∀ port ∈ s.ports, 49152 ≤ port.toNat := by
  have hpairwise : s.tcp.endsList.Nodup ↔
      s.tcp.connections.Pairwise fun p q => ¬ (s.tcp.memory p).SameEnds (s.tcp.memory q) := by
    rw [TCP.endsList, List.Nodup, List.pairwise_map]
    refine List.Pairwise.iff fun p q => not_congr ?_
    rw [TCPConnection.SameEnds, TCPConnection.matches_iff_ends]
    exact eq_comm
  constructor
  · intro h
    exact ⟨hpairwise.mpr h.distinct, h.ephemeral⟩
  · rintro ⟨hdistinct, hephemeral⟩
    refine ⟨hpairwise.mp hdistinct, fun a b c d p hfind q hq hmatches => ?_, hephemeral⟩
    exact TCP.eq_of_matches hdistinct (TCP.mem_of_findConnection hfind) hq
      (TCP.matches_of_findConnection hfind) hmatches

/-- The port of `connect` is the one the counter gives. -/
theorem usedPort_connect (t : TCP) (destIp : U32) (destPort : U16) :
    (t.perform (.connect destIp destPort)).usedPort (.connect destIp destPort) =
      [t.nextEphemeralPort] := by
  rw [TCPEffect.usedPort, TCP.perform, TCP.connect, TCP.createConnection_eq]
  dsimp only
  rw [Option.map_some, TCP.put_memory_self, TCPConnection.sendFlags_eq, Function.update_self]
  rfl

/-- **One call.** -/
theorem unambiguous_step (s : TCPPorts) (call : TCPCall) (s' : TCPPorts)
    (halloc : s.tcp.Allocated) (hs : s.Unambiguous) (hstep : s.step call = some s') :
    s'.Unambiguous ↔ s.Free call := by
  rw [step, Option.some_inj] at hstep
  obtain ⟨-, hwanted, hothers⟩ := TCP.endsList_perform halloc call
  obtain ⟨hdistinct, hephemeral⟩ := s.unambiguous_iff.mp hs
  rw [unambiguous_iff]
  subst hstep
  have hquiet : s.tcp.wanted call = none → (s.tcp.perform call).usedPort call = [] →
      ((s.tcp.perform call).tcp.endsList.Nodup ∧
        ∀ port ∈ s.ports ++ (s.tcp.perform call).usedPort call, 49152 ≤ port.toNat) := by
    intro hnone hport
    rw [hport, List.append_nil]
    exact ⟨hothers hnone hdistinct, hephemeral⟩
  cases call with
  | listen port =>
    have hport : (s.tcp.perform (.listen port)).usedPort (.listen port) = [] := rfl
    dsimp only
    rw [hwanted _ rfl, List.nodup_cons, Free, TCP.findConnection_eq_none_iff, hport,
      List.append_nil]
    exact ⟨fun h => h.1.1, fun h => ⟨⟨h, hdistinct⟩, hephemeral⟩⟩
  | connect destIp destPort =>
    dsimp only
    rw [hwanted _ rfl, List.nodup_cons, Free, TCP.findConnection_eq_none_iff,
      usedPort_connect s.tcp destIp destPort, List.forall_mem_append, List.forall_mem_singleton]
    exact ⟨fun h => ⟨h.2.2, h.1.1⟩, fun h => ⟨⟨h.2, hdistinct⟩, hephemeral, h.1⟩⟩
  | close fd => exact iff_of_true (hquiet rfl rfl) trivial
  | send fd data size => exact iff_of_true (hquiet rfl rfl) trivial
  | recv fd size => exact iff_of_true (hquiet rfl rfl) trivial
  | segment srcIp data size => exact iff_of_true (hquiet rfl rfl) trivial

end TCPPorts

/-- **The runs in which every connection can be found** are those in which `listen` and
`connect` find their ends free, and `connect` before the counter wraps around. -/
theorem unambiguous_iff_of_run (myIp : U32) (calls : List TCPCall) :
    (∀ before, before <+: calls → ∀ s, run TCPPorts.step (.start myIp) before = some s →
      s.Unambiguous) ↔
    Guarded TCPPorts.step (fun s call => s.Free call) (.start myIp) calls := by
  refine forall_prefix_iff_guarded (I := fun s => s.tcp.Allocated) (fun s call hs => ?_)
    TCPPorts.unambiguous_step (fun p hp => absurd hp (by simp [TCPPorts.start, TCP.initializeTcp])) ?_
  · exact ⟨_, rfl, (TCP.endsList_perform hs call).1⟩
  · refine (TCPPorts.unambiguous_iff _).mpr ⟨List.nodup_nil, fun port hport => ?_⟩
    exact absurd hport (by simp [TCPPorts.start])

/-- **Two connections with the same ends**, after `listen` on a port twice. -/
theorem listenTwice_not_unambiguous :
    ¬ ∀ (myIp : U32) (calls : List TCPCall) (s : TCPPorts),
      run TCPPorts.step (.start myIp) calls = some s → s.Unambiguous := by
  intro h
  obtain ⟨s, hs, hends⟩ : ∃ s, run TCPPorts.step (.start 0x0A000001) [.listen 80, .listen 80] =
      some s ∧ s.tcp.endsList = [(0x0A000001, 0, 80, 0), (0x0A000001, 0, 80, 0)] :=
    ⟨_, rfl, by decide⟩
  have hdistinct := ((s.unambiguous_iff).mp (h _ _ s hs)).1
  rw [hends] at hdistinct
  exact absurd hdistinct (by decide)

end MesaOS.Net
