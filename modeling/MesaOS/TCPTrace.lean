/-
What the calls of a run did to each connection.

* `queue_of_run` — the receive buffer is a queue: what `recv` has returned and what is
  still there make up the accepted parts of the segments;
* `tiles_of_run` — the segments that a connection emits follow one another in the sequence
  space.
-/
import MesaOS.TCPCalls

open MachineWord Runs

namespace MesaOS.Net

/-! ### Sequence numbers -/

/-- What a segment takes up in the sequence space: its payload, a SYN and a FIN. -/
def Packet.sequenceLength (packet : Packet) : ℕ :=
  packet.bytes.length - (TCPHeader.dataOffset (bufferOf packet.bytes)).toNat +
    (if hasFlag (TCPHeader.flags (bufferOf packet.bytes)) tcpSyn then 1 else 0) +
    (if hasFlag (TCPHeader.flags (bufferOf packet.bytes)) tcpFin then 1 else 0)

/-- What all these segments take up. -/
def sequenceTotal (out : List Packet) : U32 := BitVec.ofNat 32 (out.map Packet.sequenceLength).sum

/-- Each segment begins where the ones before it end. -/
def Tiles : U32 → List Packet → Prop
  | _, [] => True
  | first, packet :: out =>
    TCPHeader.seqNumber (bufferOf packet.bytes) = first ∧
      Tiles (first + BitVec.ofNat 32 packet.sequenceLength) out

@[simp] theorem sequenceTotal_nil : sequenceTotal [] = 0#32 := rfl

theorem sequenceTotal_append (out out' : List Packet) :
    sequenceTotal (out ++ out') = sequenceTotal out + sequenceTotal out' := by
  rw [sequenceTotal, List.map_append, List.sum_append, BitVec.ofNat_add]
  rfl

theorem sequenceTotal_cons (packet : Packet) (out : List Packet) :
    sequenceTotal (packet :: out) = BitVec.ofNat 32 packet.sequenceLength + sequenceTotal out := by
  rw [sequenceTotal, List.map_cons, List.sum_cons, BitVec.ofNat_add]
  rfl

theorem Tiles.append {first : U32} {out out' : List Packet} (h : Tiles first out)
    (h' : Tiles (first + sequenceTotal out) out') : Tiles first (out ++ out') := by
  induction out generalizing first with
  | nil => rwa [sequenceTotal_nil, BitVec.add_zero] at h'
  | cons packet out ih =>
    rw [sequenceTotal_cons, ← BitVec.add_assoc] at h'
    exact ⟨h.1, ih h.2 h'⟩

theorem Tiles.seqNumber {first : U32} {before after : List Packet} {packet : Packet}
    (h : Tiles first (before ++ packet :: after)) :
    TCPHeader.seqNumber (bufferOf packet.bytes) = first + sequenceTotal before := by
  induction before generalizing first with
  | nil => rw [sequenceTotal_nil, BitVec.add_zero, h.1]
  | cons packet' before ih => rw [sequenceTotal_cons, ← BitVec.add_assoc, ih h.2]

theorem emit_seqNumber (conn : TCPConnection) (flags : U8) (payload : List U8) :
    TCPHeader.seqNumber (bufferOf (emit conn flags payload)) = conn.seqNumber :=
  get32_le32 rfl rfl rfl rfl

theorem sequenceLength_emit (src dst : U32) (conn : TCPConnection) (flags : U8)
    (payload : List U8) :
    ({ src := src, dst := dst, bytes := emit conn flags payload } : Packet).sequenceLength =
      payload.length + (if hasFlag flags tcpSyn then 1 else 0) +
        (if hasFlag flags tcpFin then 1 else 0) := by
  rw [Packet.sequenceLength]
  dsimp only
  rw [emit_dataOffset, emit_flags, length_emit, show (20 : U32).toNat = 20 from rfl,
    Nat.add_sub_cancel_left]

namespace TCPConnection

/-- The connection has emitted `out`, and its sequence number has moved on by that. -/
structure Sends (conn conn' : TCPConnection) (out : List Packet) : Prop where
  seqNumber : conn'.seqNumber = conn.seqNumber + sequenceTotal out
  tiles : Tiles conn.seqNumber out

theorem Sends.nothing {conn conn' : TCPConnection} (h : conn'.seqNumber = conn.seqNumber) :
    conn.Sends conn' [] :=
  ⟨by rw [sequenceTotal_nil, BitVec.add_zero, h], trivial⟩

theorem Sends.trans {conn conn' conn'' : TCPConnection} {out out' : List Packet}
    (h : conn.Sends conn' out) (h' : conn'.Sends conn'' out') :
    conn.Sends conn'' (out ++ out') := by
  refine ⟨?_, h.tiles.append (h.seqNumber ▸ h'.tiles)⟩
  rw [sequenceTotal_append, ← BitVec.add_assoc, ← h.seqNumber]
  exact h'.seqNumber

/-- One segment. -/
theorem Sends.single {conn conn' : TCPConnection} {src dst : U32} {flags : U8} {payload : List U8}
    (h : conn'.seqNumber = conn.seqNumber + BitVec.ofNat 32 payload.length +
      (if hasFlag flags tcpSyn then 1 else 0) + (if hasFlag flags tcpFin then 1 else 0)) :
    conn.Sends conn' [{ src := src, dst := dst, bytes := emit conn flags payload }] := by
  have hbit : ∀ b : Bool, BitVec.ofNat 32 (if b then 1 else 0) = if b then 1 else 0 := by
    intro b
    cases b <;> rfl
  refine ⟨?_, emit_seqNumber conn flags payload, trivial⟩
  rw [h, sequenceTotal_cons, sequenceTotal_nil, BitVec.add_zero, sequenceLength_emit,
    BitVec.ofNat_add, BitVec.ofNat_add, hbit, hbit, BitVec.add_assoc, BitVec.add_assoc,
    BitVec.add_assoc]

/-- **`send_packet` numbers what it sends**, also when the window cuts the data off. -/
theorem sends_sendPacket (conn : TCPConnection) (myIp : U32) (flags : U8) (data : ℕ → U8)
    (dataSize : U32) :
    conn.Sends (conn.sendPacket myIp flags data dataSize).1
      (conn.sendPacket myIp flags data dataSize).2 := by
  by_cases hfull : dataSize > 0 ∧ conn.state = .established ∧ conn.clampSize dataSize = 0
  · rw [sendPacket_of_full myIp flags data hfull]
    exact .nothing rfl
  · rw [sendPacket_of_space myIp flags data hfull]
    refine .single ?_
    rw [List.length_map, List.length_range, BitVec.ofNat_toNat, BitVec.setWidth_eq]

theorem sends_sendFlags (conn : TCPConnection) (myIp : U32) (flags : U8) :
    conn.Sends (conn.sendFlags myIp flags).1 (conn.sendFlags myIp flags).2 :=
  conn.sends_sendPacket myIp flags _ 0

/-- The two connections have the same receive buffer. -/
structure SameRing (conn conn' : TCPConnection) : Prop where
  recvBuffer : conn'.recvBuffer = conn.recvBuffer
  recvStart : conn'.recvStart = conn.recvStart
  recvEnd : conn'.recvEnd = conn.recvEnd
  recvCount : conn'.recvCount = conn.recvCount

theorem SameRing.trans {conn conn' conn'' : TCPConnection} (h : conn.SameRing conn')
    (h' : conn'.SameRing conn'') : conn.SameRing conn'' :=
  ⟨h'.recvBuffer.trans h.recvBuffer, h'.recvStart.trans h.recvStart, h'.recvEnd.trans h.recvEnd,
    h'.recvCount.trans h.recvCount⟩

theorem SameRing.ringOk {conn conn' : TCPConnection} (h : conn.SameRing conn')
    (hring : conn.RingOk) : conn'.RingOk :=
  ⟨h.recvStart ▸ hring.start, h.recvCount ▸ hring.count,
    by rw [h.recvEnd, h.recvStart, h.recvCount]; exact hring.fin⟩

theorem SameRing.queued {conn conn' : TCPConnection} (h : conn.SameRing conn') :
    conn'.queued = conn.queued := by
  rw [TCPConnection.queued, h.recvBuffer, h.recvStart, h.recvCount]
  rfl

theorem sameRing_sendPacket (conn : TCPConnection) (myIp : U32) (flags : U8) (data : ℕ → U8)
    (dataSize : U32) : conn.SameRing (conn.sendPacket myIp flags data dataSize).1 := by
  by_cases hfull : dataSize > 0 ∧ conn.state = .established ∧ conn.clampSize dataSize = 0
  · rw [sendPacket_of_full myIp flags data hfull]
    exact ⟨rfl, rfl, rfl, rfl⟩
  · rw [sendPacket_of_space myIp flags data hfull]
    exact ⟨rfl, rfl, rfl, rfl⟩

theorem sameRing_sendFlags (conn : TCPConnection) (myIp : U32) (flags : U8) :
    conn.SameRing (conn.sendFlags myIp flags).1 :=
  conn.sameRing_sendPacket myIp flags _ 0

/-- A change of the state comes before the segment. -/
theorem sends_sendFlags_of_state (conn : TCPConnection) (state : TCPState) (myIp : U32)
    (flags : U8) : conn.Sends (({ conn with state := state } : TCPConnection).sendFlags myIp flags).1
      (({ conn with state := state } : TCPConnection).sendFlags myIp flags).2 := by
  have h := ({ conn with state := state } : TCPConnection).sends_sendFlags myIp flags
  exact ⟨h.seqNumber, h.tiles⟩

theorem sends_switchState (conn : TCPConnection) (myIp : U32) (flags : U8) (payload : ℕ → U8)
    (dataSize : U32) :
    conn.Sends (conn.switchState myIp flags payload dataSize).1
      (conn.switchState myIp flags payload dataSize).2.1 := by
  rw [switchState]
  cases conn.state with
  | listen =>
    dsimp only
    split
    · exact conn.sends_sendFlags_of_state .synReceived myIp _
    · exact .nothing rfl
  | synSent =>
    dsimp only
    split
    · exact conn.sends_sendFlags_of_state .established myIp _
    · exact .nothing rfl
  | synReceived =>
    dsimp only
    split
    · exact .nothing rfl
    · exact .nothing rfl
  | established =>
    dsimp only
    split
    · -- the ACK of the FIN, and the FIN of this side
      exact (conn.sends_sendFlags_of_state .closeWait myIp _).trans
        (sends_sendFlags_of_state _ .lastAck myIp _)
    · split
      · generalize (if dataSize < tcpBufferSize - conn.recvCount then dataSize
          else tcpBufferSize - conn.recvCount) = n
        have hstored : conn.Sends { conn.storeBytes payload n.toNat with
            recvCount := conn.recvCount + n } [] := .nothing rfl
        exact hstored.trans (sends_sendFlags _ myIp tcpAck)
      · exact .nothing rfl
  | finWait1 =>
    dsimp only
    split
    · exact .nothing rfl
    · exact .nothing rfl
  | finWait2 =>
    dsimp only
    split
    · exact conn.sends_sendFlags_of_state .timeWait myIp _
    · exact .nothing rfl
  | closed => exact .nothing rfl
  | closeWait => exact .nothing rfl
  | closing => exact .nothing rfl
  | lastAck => exact .nothing rfl
  | timeWait => exact .nothing rfl

/-- Only data on an established connection is stored. -/
theorem sameRing_switchState (conn : TCPConnection) (myIp : U32) {flags : U8} (payload : ℕ → U8)
    (dataSize : U32) (h : conn.state = .established → hasFlag flags tcpFin = true) :
    conn.SameRing (conn.switchState myIp flags payload dataSize).1 := by
  have hstate : ∀ (c : TCPConnection) state, c.SameRing { c with state := state } :=
    fun c _ => ⟨rfl, rfl, rfl, rfl⟩
  rw [switchState]
  cases hcase : conn.state with
  | listen =>
    dsimp only
    split
    · exact (hstate conn .synReceived).trans (sameRing_sendFlags _ _ _)
    · exact ⟨rfl, rfl, rfl, rfl⟩
  | synSent =>
    dsimp only
    split
    · exact (hstate conn .established).trans (sameRing_sendFlags _ _ _)
    · exact ⟨rfl, rfl, rfl, rfl⟩
  | synReceived =>
    dsimp only
    split
    · exact ⟨rfl, rfl, rfl, rfl⟩
    · exact ⟨rfl, rfl, rfl, rfl⟩
  | established =>
    dsimp only
    rw [if_pos (h hcase)]
    exact ((hstate conn .closeWait).trans (sameRing_sendFlags _ _ _)).trans
      ((hstate _ .lastAck).trans (sameRing_sendFlags _ _ _))
  | finWait1 =>
    dsimp only
    split
    · exact ⟨rfl, rfl, rfl, rfl⟩
    · exact ⟨rfl, rfl, rfl, rfl⟩
  | finWait2 =>
    dsimp only
    split
    · exact (hstate conn .timeWait).trans (sameRing_sendFlags _ _ _)
    · exact ⟨rfl, rfl, rfl, rfl⟩
  | closed => exact ⟨rfl, rfl, rfl, rfl⟩
  | closeWait => exact ⟨rfl, rfl, rfl, rfl⟩
  | closing => exact ⟨rfl, rfl, rfl, rfl⟩
  | lastAck => exact ⟨rfl, rfl, rfl, rfl⟩
  | timeWait => exact ⟨rfl, rfl, rfl, rfl⟩

/-! ### One call -/

/-- The part of a segment that the receive buffer takes: what there is space for, on an
established connection.  A FIN takes the connection out of this state, with whatever payload
comes with it. -/
def acceptedPart (conn : TCPConnection) : TCPCall → List U8
  | .segment _ data size =>
    if conn.state = .established ∧ hasFlag (TCPHeader.flags data) tcpFin = false then
      (payloadOf data size).take (4096 - conn.recvCount.toNat)
    else []
  | _ => []

/-- **One call and the queue.** -/
theorem Acts.queue {myIp : U32} {conn conn' : TCPConnection} {call : TCPCall} {out : List Packet}
    {bytes : List U8} (h : conn.Acts myIp call conn' out bytes) (hring : conn.RingOk) :
    conn'.RingOk ∧ bytes ++ conn'.queued = conn.queued ++ conn.acceptedPart call := by
  have hquiet : conn.SameRing conn' → bytes = [] → conn.acceptedPart call = [] →
      conn'.RingOk ∧ bytes ++ conn'.queued = conn.queued ++ conn.acceptedPart call := by
    intro hsame hbytes haccepted
    rw [hbytes, haccepted, hsame.queued, List.append_nil]
    exact ⟨hsame.ringOk hring, rfl⟩
  have hstate : ∀ (c : TCPConnection) state, c.SameRing { c with state := state } :=
    fun c _ => ⟨rfl, rfl, rfl, rfl⟩
  cases h with
  | listen port => exact hquiet (hstate _ _) rfl rfl
  | connect destIp destPort =>
    exact hquiet (((hstate _ .synSent).trans (sameRing_sendFlags _ _ _)).trans (hstate _ _)) rfl rfl
  | close fd hest => exact hquiet ((hstate _ .finWait1).trans (sameRing_sendFlags _ _ _)) rfl rfl
  | send fd data size hest => exact hquiet (sameRing_sendPacket _ _ _ _ _) rfl rfl
  | recv fd size hest =>
    obtain ⟨-, -, -, hring', hqueued, -⟩ := hring.takeBytes_spec size
    have haccepted : conn.acceptedPart (.recv fd size) = [] := rfl
    rw [hqueued, haccepted, List.append_nil]
    exact ⟨hring', rfl⟩
  | idle call hcall =>
    cases call with
    | segment srcIp data size => exact absurd rfl (hcall srcIp data size)
    | _ => exact hquiet ⟨rfl, rfl, rfl, rfl⟩ rfl rfl
  | segment srcIp data size =>
    by_cases haccepts : conn.state = .established ∧ hasFlag (TCPHeader.flags data) tcpFin = false
    · have hring' : (conn.acknowledge (TCPHeader.flags data) (TCPHeader.seqNumber data)
          (size - TCPHeader.dataOffset data)).RingOk := ⟨hring.start, hring.count, hring.fin⟩
      have hest : (conn.acknowledge (TCPHeader.flags data) (TCPHeader.seqNumber data)
          (size - TCPHeader.dataOffset data)).state = .established := haccepts.1
      obtain ⟨-, -, hok, hqueued⟩ := switchState_data hest hring' myIp haccepts.2
        (fun i => data ((TCPHeader.dataOffset data).toNat + i)) (size - TCPHeader.dataOffset data)
      rw [acceptedPart, if_pos haccepts]
      exact ⟨hok, hqueued⟩
    · refine hquiet ?_ rfl (if_neg haccepts)
      have hack : conn.SameRing (conn.acknowledge (TCPHeader.flags data) (TCPHeader.seqNumber data)
        (size - TCPHeader.dataOffset data)) := ⟨rfl, rfl, rfl, rfl⟩
      refine hack.trans (sameRing_switchState _ _ _ _ fun hest => ?_)
      rw [← Bool.not_eq_false]
      exact fun hfin => haccepts ⟨hest, hfin⟩

/-- **One call and the sequence numbers.** -/
theorem Acts.sends {myIp : U32} {conn conn' : TCPConnection} {call : TCPCall} {out : List Packet}
    {bytes : List U8} (h : conn.Acts myIp call conn' out bytes) : conn.Sends conn' out := by
  cases h with
  | listen port => exact .nothing rfl
  | connect destIp destPort =>
    have hsyn := conn.sends_sendFlags_of_state .synSent myIp tcpSyn
    exact ⟨hsyn.seqNumber, hsyn.tiles⟩
  | close fd hest => exact conn.sends_sendFlags_of_state .finWait1 myIp _
  | send fd data size hest => exact conn.sends_sendPacket myIp _ data size
  | recv fd size hest =>
    refine .nothing ?_
    rw [takeBytes]
    split <;> rfl
  | segment srcIp data size =>
    have hswitch := (conn.acknowledge (TCPHeader.flags data) (TCPHeader.seqNumber data)
      (size - TCPHeader.dataOffset data)).sends_switchState myIp (TCPHeader.flags data)
      (fun i => data ((TCPHeader.dataOffset data).toNat + i)) (size - TCPHeader.dataOffset data)
    exact ⟨hswitch.seqNumber, hswitch.tiles⟩
  | idle call hcall => exact .nothing rfl

/-- A connection that is closed stays so. -/
theorem Acts.of_closed {myIp : U32} {conn conn' : TCPConnection} {call : TCPCall}
    {out : List Packet} {bytes : List U8} (h : conn.Acts myIp call conn' out bytes)
    (hcall : ¬ call.Opens) (hclosed : conn.state = .closed) :
    conn'.state = .closed ∧ out = [] ∧ bytes = [] ∧ conn.acceptedPart call = [] := by
  have hest : conn.state ≠ .established := by
    rw [hclosed]
    nofun
  cases h with
  | listen port => exact absurd trivial hcall
  | connect destIp destPort => exact absurd trivial hcall
  | close fd hstate => exact absurd hstate hest
  | send fd data size hstate => exact absurd hstate hest
  | recv fd size hstate => exact absurd hstate hest
  | segment srcIp data size =>
    have hack : (conn.acknowledge (TCPHeader.flags data) (TCPHeader.seqNumber data)
      (size - TCPHeader.dataOffset data)).state = .closed := hclosed
    rw [switchState, hack]
    exact ⟨hclosed, rfl, rfl, if_neg fun h => hest h.1⟩
  | idle call hidle =>
    cases call with
    | segment srcIp data size => exact absurd rfl (hidle srcIp data size)
    | _ => exact ⟨hclosed, rfl, rfl, rfl⟩

end TCPConnection

/-! ### Runs -/

/-- The machine, and what each connection has emitted, returned and accepted so far. -/
structure TCPTrace where
  tcp : TCP
  emitted : ℕ → List Packet
  returned : ℕ → List U8
  accepted : ℕ → List U8

namespace TCPTrace

def start (myIp : U32) : TCPTrace :=
  { tcp := .initializeTcp myIp, emitted := fun _ => [], returned := fun _ => []
    accepted := fun _ => [] }

def step (s : TCPTrace) (call : TCPCall) : Option TCPTrace :=
  let e := s.tcp.perform call
  some {
    tcp := e.tcp
    emitted := fun p => s.emitted p ++ if e.conn = some p then e.out else []
    returned := fun p => s.returned p ++ if e.conn = some p then e.bytes else []
    accepted := fun p => s.accepted p ++
      if e.conn = some p then (s.tcp.memory p).acceptedPart call else [] }

/-- The receive buffer of a connection, and the numbers of its segments. -/
structure ConnOk (conn : TCPConnection) (emitted : List Packet) (returned accepted : List U8) :
    Prop where
  ring : conn.RingOk
  queue : returned ++ conn.queued = accepted
  sends : emitted = [] ∧ conn.state = .closed ∨
    conn.seqNumber = 0x12345678 + sequenceTotal emitted ∧ Tiles 0x12345678 emitted

/-- The invariant of every run. -/
structure Ok (s : TCPTrace) : Prop where
  conn : ∀ p, ConnOk (s.tcp.memory p) (s.emitted p) (s.returned p) (s.accepted p)
  fresh : ∀ p, s.tcp.nextPointer ≤ p → (s.tcp.memory p).state = .closed ∧ s.emitted p = [] ∧
    s.returned p = [] ∧ s.accepted p = []

theorem ok_start (myIp : U32) : (start myIp).Ok := by
  refine ⟨fun p => ⟨⟨?_, ?_, rfl⟩, rfl, .inl ⟨rfl, rfl⟩⟩, fun p _ => ⟨rfl, rfl, rfl, rfl⟩⟩
  · exact Nat.zero_lt_succ _
  · exact Nat.zero_le _

/-- One call on a connection. -/
theorem ConnOk.acts {myIp : U32} {conn conn' : TCPConnection} {call : TCPCall}
    {emitted out : List Packet} {returned accepted bytes : List U8}
    (h : ConnOk conn emitted returned accepted) (hcall : ¬ call.Opens)
    (hacts : conn.Acts myIp call conn' out bytes) :
    ConnOk conn' (emitted ++ out) (returned ++ bytes) (accepted ++ conn.acceptedPart call) := by
  obtain ⟨hring, hqueue⟩ := hacts.queue h.ring
  refine ⟨hring, ?_, ?_⟩
  · rw [List.append_assoc, hqueue, ← List.append_assoc, h.queue]
  · rcases h.sends with ⟨hemitted, hclosed⟩ | ⟨hseq, htiles⟩
    · obtain ⟨hclosed', hout, -, -⟩ := hacts.of_closed hcall hclosed
      exact .inl ⟨by rw [hemitted, hout]; rfl, hclosed'⟩
    · obtain ⟨hseq', htiles'⟩ := hacts.sends
      refine .inr ⟨?_, htiles.append (hseq ▸ htiles')⟩
      rw [hseq', hseq, sequenceTotal_append, BitVec.add_assoc]

/-- A connection that is made. -/
theorem ConnOk.created (localIp remoteIp : U32) (localPort remotePort : U16) {myIp : U32}
    {state : TCPState} (hstate : state ≠ .established) {conn' : TCPConnection} {call : TCPCall}
    {out : List Packet} {bytes : List U8}
    (hacts : ({ TCPConnection.created localIp remoteIp localPort remotePort with state := state } :
      TCPConnection).Acts myIp call conn' out bytes) : ConnOk conn' out bytes [] := by
  set conn : TCPConnection :=
    { TCPConnection.created localIp remoteIp localPort remotePort with state := state } with hconn
  have hring : conn.RingOk := ⟨Nat.zero_lt_succ _, Nat.zero_le _, rfl⟩
  have haccepted : conn.acceptedPart call = [] := by
    cases call with
    | segment srcIp data size => exact if_neg fun h => hstate h.1
    | _ => rfl
  obtain ⟨hring', hqueue⟩ := hacts.queue hring
  obtain ⟨hseq, htiles⟩ := hacts.sends
  refine ⟨hring', ?_, .inr ⟨hseq, htiles⟩⟩
  rw [hqueue, haccepted]
  rfl

theorem ok_step (s : TCPTrace) (call : TCPCall) (s' : TCPTrace) (hok : s.Ok)
    (hstep : s.step call = some s') : s'.Ok := by
  rw [step, Option.some_inj] at hstep
  have hacts := acts_perform s.tcp call
  generalize s.tcp.perform call = e at hacts hstep
  subst hstep
  -- only the connection that the call is about changes
  have hothers : ∀ p, e.conn ≠ some p → e.tcp.memory p = s.tcp.memory p →
      ConnOk (e.tcp.memory p) (s.emitted p ++ if e.conn = some p then e.out else [])
        (s.returned p ++ if e.conn = some p then e.bytes else [])
        (s.accepted p ++ if e.conn = some p then (s.tcp.memory p).acceptedPart call else []) := by
    intro p hp hmemory
    rw [if_neg hp, if_neg hp, if_neg hp, List.append_nil, List.append_nil, List.append_nil, hmemory]
    exact hok.conn p
  have hunused : ∀ p, s.tcp.nextPointer ≤ p → e.conn ≠ some p → e.tcp.memory p = s.tcp.memory p →
      (e.tcp.memory p).state = .closed ∧ (s.emitted p ++ if e.conn = some p then e.out else []) = [] ∧
        (s.returned p ++ if e.conn = some p then e.bytes else []) = [] ∧
        (s.accepted p ++ if e.conn = some p then (s.tcp.memory p).acceptedPart call else []) = [] := by
    intro p hle hp hmemory
    rw [if_neg hp, if_neg hp, if_neg hp, List.append_nil, List.append_nil, List.append_nil, hmemory]
    exact hok.fresh p hle
  cases hacts with
  | old p conn hcall hconn hmemory hnext hacts =>
    have hself : e.tcp.memory p = conn := by rw [hmemory, Function.update_self]
    have hne : ∀ q, q ≠ p → e.conn ≠ some q ∧ e.tcp.memory q = s.tcp.memory q := by
      intro q hq
      rw [hconn, hmemory, Function.update_of_ne hq]
      exact ⟨fun h => hq (Option.some_inj.mp h).symm, rfl⟩
    refine ⟨fun q => ?_, fun q hle => ?_⟩
    · by_cases hq : q = p
      · subst hq
        dsimp only
        rw [if_pos hconn, if_pos hconn, if_pos hconn, hself]
        exact (hok.conn q).acts hcall hacts
      · exact hothers q (hne q hq).1 (hne q hq).2
    · dsimp only at hle
      rw [hnext] at hle
      by_cases hq : q = p
      · -- a call on a pointer that was never handed out
        subst hq
        obtain ⟨hclosed, hemitted, hreturned, haccepted⟩ := hok.fresh q hle
        obtain ⟨hclosed', hout, hbytes, hpart⟩ := hacts.of_closed hcall hclosed
        dsimp only
        rw [if_pos hconn, if_pos hconn, if_pos hconn, hself, hemitted, hreturned, haccepted, hout,
          hbytes, hpart]
        exact ⟨hclosed', rfl, rfl, rfl⟩
      · exact hunused q hle (hne q hq).1 (hne q hq).2
  | new localIp remoteIp localPort remotePort state conn hstate hconn hmemory hnext hacts =>
    have hself : e.tcp.memory s.tcp.nextPointer = conn := by rw [hmemory, Function.update_self]
    have hne : ∀ q, q ≠ s.tcp.nextPointer → e.conn ≠ some q ∧ e.tcp.memory q = s.tcp.memory q := by
      intro q hq
      rw [hconn, hmemory, Function.update_of_ne hq]
      exact ⟨fun h => hq (Option.some_inj.mp h).symm, rfl⟩
    obtain ⟨hclosed, hemitted, hreturned, haccepted⟩ := hok.fresh _ (Nat.le_refl _)
    refine ⟨fun q => ?_, fun q hle => ?_⟩
    · by_cases hq : q = s.tcp.nextPointer
      · subst hq
        have hpart : (s.tcp.memory s.tcp.nextPointer).acceptedPart call = [] := by
          cases call with
          | segment srcIp data size =>
            refine if_neg fun h => ?_
            rw [hclosed] at h
            exact absurd h.1 nofun
          | _ => rfl
        dsimp only
        rw [if_pos hconn, if_pos hconn, if_pos hconn, hself, hemitted, hreturned, haccepted, hpart]
        exact ConnOk.created localIp remoteIp localPort remotePort hstate hacts
      · exact hothers q (hne q hq).1 (hne q hq).2
    · dsimp only at hle
      rw [hnext] at hle
      have hq : q ≠ s.tcp.nextPointer := by omega
      exact hunused q (by omega) (hne q hq).1 (hne q hq).2
  | none hconn hmemory hnext =>
    have hne : ∀ q, e.conn ≠ some q ∧ e.tcp.memory q = s.tcp.memory q := by
      intro q
      rw [hconn, hmemory]
      exact ⟨nofun, rfl⟩
    refine ⟨fun q => hothers q (hne q).1 (hne q).2, fun q hle => ?_⟩
    dsimp only at hle
    rw [hnext] at hle
    exact hunused q hle (hne q).1 (hne q).2

theorem ok_of_run {myIp : U32} {calls : List TCPCall} {s : TCPTrace}
    (hrun : run step (start myIp) calls = some s) : s.Ok :=
  run_keeps ok_step (ok_start myIp) hrun

end TCPTrace

/-- **The receive buffer is a queue.** -/
theorem queue_of_run (myIp : U32) (calls : List TCPCall) {s : TCPTrace}
    (hrun : run TCPTrace.step (.start myIp) calls = some s) (p : ℕ) :
    (s.tcp.memory p).recvCount.toNat ≤ 4096 ∧ (s.tcp.memory p).recvStart.toNat < 4096 ∧
      (s.tcp.memory p).recvEnd.toNat < 4096 ∧
      (s.tcp.memory p).recvEnd.toNat =
        ((s.tcp.memory p).recvStart.toNat + (s.tcp.memory p).recvCount.toNat) % 4096 ∧
      s.returned p ++ (s.tcp.memory p).queued = s.accepted p := by
  obtain ⟨⟨hstart, hcount, hfin⟩, hqueue, -⟩ := (TCPTrace.ok_of_run hrun).conn p
  refine ⟨hcount, hstart, ?_, hfin, hqueue⟩
  rw [hfin]
  exact Nat.mod_lt _ (by norm_num)

/-- A connection is made, a segment with two bytes comes in, and one byte is read. -/
def readOne : List TCPCall :=
  let peer : TCPConnection :=
    { TCPConnection.created 0x0A000002 0x0A000001 80 49152 with state := .established }
  [.connect 0x0A000002 80,
    .segment 0x0A000002 (bufferOf (emit peer (tcpAck ||| tcpPsh) [0x61, 0x62])) 22, .recv 1 1]

theorem queue_of_run_readOne :
    ∃ s, run TCPTrace.step (.start 0x0A000001) readOne = some s ∧ s.accepted 1 = [0x61, 0x62] ∧
      s.returned 1 = [0x61] ∧ s.returned 1 ++ (s.tcp.memory 1).queued = s.accepted 1 := by
  have hrun : (run TCPTrace.step (.start 0x0A000001) readOne).map
      (fun s => (s.accepted 1, s.returned 1)) = some ([0x61, 0x62], [0x61]) := by
    decide +kernel
  obtain ⟨s, hs, hbytes⟩ := Option.map_eq_some_iff.mp hrun
  obtain ⟨haccepted, hreturned⟩ := Prod.mk.inj hbytes
  exact ⟨s, hs, haccepted, hreturned, (queue_of_run 0x0A000001 readOne hs 1).2.2.2.2⟩

/-- **The segments of a connection tile the sequence space.** -/
theorem tiles_of_run (myIp : U32) (calls : List TCPCall) {s : TCPTrace}
    (hrun : run TCPTrace.step (.start myIp) calls = some s) (p : ℕ) {before after : List Packet}
    {packet : Packet} (hemitted : s.emitted p = before ++ packet :: after) :
    TCPHeader.seqNumber (bufferOf packet.bytes) =
      0x12345678 + BitVec.ofNat 32 (before.map Packet.sequenceLength).sum := by
  have hok := (TCPTrace.ok_of_run hrun).conn p
  rcases hok.sends with ⟨hnothing, -⟩ | ⟨-, htiles⟩
  · rw [hnothing] at hemitted
    exact absurd hemitted (by simp)
  · rw [hemitted] at htiles
    exact htiles.seqNumber

/-- A connection is made, sends 9000 bytes, of which the window lets 8192 through, and is closed. -/
def sendMuch : List TCPCall :=
  [.connect 0x0A000002 80, .send 1 (fun _ => 0x61) 9000, .send 1 (fun _ => 0x62) 1, .close 1]

theorem tiles_of_run_sendMuch :
    ∃ s before packet, run TCPTrace.step (.start 0x0A000001) sendMuch = some s ∧
      s.emitted 1 = before ++ [packet] ∧ before.length = 2 ∧
      TCPHeader.seqNumber (bufferOf packet.bytes) =
        0x12345678 + BitVec.ofNat 32 (before.map Packet.sequenceLength).sum := by
  have hrun : (run TCPTrace.step (.start 0x0A000001) sendMuch).map
      (fun s => (s.emitted 1).length) = some 3 := by
    decide +kernel
  obtain ⟨s, hs, hlength⟩ := Option.map_eq_some_iff.mp hrun
  obtain ⟨before, packet, hemitted⟩ :=
    (s.emitted 1).eq_nil_or_concat.resolve_left fun h => by rw [h] at hlength; cases hlength
  rw [List.concat_eq_append] at hemitted
  refine ⟨s, before, packet, hs, hemitted, ?_, tiles_of_run 0x0A000001 sendMuch hs 1 hemitted⟩
  rw [hemitted, List.length_append] at hlength
  exact Nat.succ_injective hlength

end MesaOS.Net
