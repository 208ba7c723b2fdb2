/-
The receiving side of an established connection.

`handle_packet` sets the acknowledgment number before it knows how many bytes fit into
the buffer, and `recv` refuses to read on a connection whose peer has sent a `FIN`.

* `deliver_data`, `deliver_fin` — one segment on an established connection;
* `honest_iff_of_run` — acknowledgments cover only stored bytes as long as every segment
  fits;
* `obtainable_iff_of_run` — accepted bytes can be read as long as every `FIN` finds the
  buffer empty.
-/
import MesaOS.TCPLookup
import MesaOS.TCPReceive

open MachineWord Runs

namespace MesaOS.Net

/-! ### One segment -/

namespace TCPConnection

/-- A `FIN` is answered with two segments, and the application can no longer read. -/
theorem switchState_fin {conn : TCPConnection} (hstate : conn.state = .established) (myIp : U32)
    {flags : U8} (hfin : hasFlag flags tcpFin = true) (payload : ℕ → U8) (dataSize : U32) :
    ∃ seq out, conn.switchState myIp flags payload dataSize =
      ({ conn with state := .lastAck, seqNumber := seq }, out, false) ∧ out ≠ [] ∧
      ∀ packet ∈ out, TCPHeader.ackNumber (bufferOf packet.bytes) = conn.ackNumber := by
  rw [switchState, hstate]
  dsimp only
  rw [if_pos hfin, sendFlags_eq]
  dsimp only
  rw [sendFlags_eq]
  refine ⟨_, _, rfl, List.cons_ne_nil _ _, fun packet hpacket => ?_⟩
  rcases List.mem_cons.mp hpacket with rfl | hpacket
  · exact emit_ackNumber _ _ _
  · rw [List.mem_singleton.mp hpacket]
    exact emit_ackNumber _ _ _

/-- A data segment is acknowledged as a whole, however much of it fits. -/
theorem switchState_acknowledges {conn : TCPConnection} (hstate : conn.state = .established)
    (myIp : U32) {flags : U8} (hfin : hasFlag flags tcpFin = false) (payload : ℕ → U8)
    (dataSize : U32) :
    ((conn.switchState myIp flags payload dataSize).2.1 = [] ↔ dataSize = 0) ∧
      ∀ packet ∈ (conn.switchState myIp flags payload dataSize).2.1,
        TCPHeader.ackNumber (bufferOf packet.bytes) = conn.ackNumber := by
  rw [switchState, hstate]
  dsimp only
  rw [hfin, if_neg Bool.false_ne_true]
  by_cases hdata : dataSize > 0
  · have hne : dataSize ≠ 0 := by
      rintro rfl
      exact absurd hdata (by decide)
    rw [if_pos hdata]
    generalize (if dataSize < tcpBufferSize - conn.recvCount then dataSize
      else tcpBufferSize - conn.recvCount) = n
    rw [sendFlags_eq]
    refine ⟨iff_of_false (List.cons_ne_nil _ _) hne, fun packet hpacket => ?_⟩
    rw [List.mem_singleton.mp hpacket]
    exact emit_ackNumber _ _ _
  · have hzero : dataSize = 0 := by
      have := toNat_le_of_not_lt hdata
      exact BitVec.eq_of_toNat_eq (by simpa using this)
    rw [if_neg hdata]
    exact ⟨iff_of_true rfl hzero, fun packet hpacket => absurd hpacket List.not_mem_nil⟩

theorem switchState_lastAck (conn : TCPConnection) (hstate : conn.state = .lastAck) (myIp : U32)
    (flags : U8) (payload : ℕ → U8) (dataSize : U32) :
    conn.switchState myIp flags payload dataSize = (conn, [], hasFlag flags tcpAck) := by
  rw [switchState, hstate]

end TCPConnection

/-- The sequence numbers that the flags take up. -/
def controlSize (flags : U8) : ℕ :=
  (if hasFlag flags tcpSyn then 1 else 0) + (if hasFlag flags tcpFin then 1 else 0)

/-- The sequence numbers that a segment takes up. -/
def segmentLength (data : ℕ → U8) (size : U32) : ℕ :=
  (size - TCPHeader.dataOffset data).toNat + controlSize (TCPHeader.flags data)

/-- The packets acknowledge the whole segment. -/
def AcknowledgeAll (data : ℕ → U8) (size : U32) (out : List Packet) : Prop :=
  ∀ packet ∈ out, TCPHeader.ackNumber (bufferOf packet.bytes) =
    TCPHeader.seqNumber data + BitVec.ofNat 32 (segmentLength data size)

/-- The connection expects the segment behind the one that it acknowledges. -/
theorem TCP.acknowledged_ackNumber (t : TCP) (fd : ℕ) (data : ℕ → U8) (size : U32) :
    (t.acknowledged fd data size).ackNumber =
      TCPHeader.seqNumber data + BitVec.ofNat 32 (segmentLength data size) := by
  rw [acknowledged, TCPConnection.acknowledge, segmentLength, controlSize]
  dsimp only
  apply BitVec.eq_of_toNat_eq
  cases hasFlag (TCPHeader.flags data) tcpSyn <;> cases hasFlag (TCPHeader.flags data) tcpFin <;>
    simp [Nat.add_assoc]

namespace TCP

/-- A segment with a `FIN` on an established connection: reading ends, and its data is not
stored. -/
theorem deliver_fin {t : TCP} {fd : ℕ} (hstate : (t.memory fd).state = .established)
    (hring : (t.memory fd).RingOk) {data : ℕ → U8} (size : U32)
    (hfin : hasFlag (TCPHeader.flags data) tcpFin = true) :
    ∃ conn out, t.deliver fd data size = (t.put fd conn, out) ∧ conn.state = .lastAck ∧
      conn.RingOk ∧ conn.queued = (t.memory fd).queued ∧ out ≠ [] ∧
      AcknowledgeAll data size out := by
  set conn := t.acknowledged fd data size with hconn
  obtain ⟨seq, out, hswitch, hout, hacks⟩ := conn.switchState_fin hstate t.myIp hfin
    (fun i => data ((TCPHeader.dataOffset data).toNat + i)) (size - TCPHeader.dataOffset data)
  refine ⟨{ conn with state := .lastAck, seqNumber := seq }, out, ?_, rfl,
    ⟨hring.start, hring.count, hring.fin⟩, rfl, hout, ?_⟩
  · exact deliver_eq_put hswitch
  · intro packet hpacket
    rw [hacks packet hpacket, hconn, acknowledged_ackNumber]

/-- Any other segment on an established connection: what fits is stored. -/
theorem deliver_data {t : TCP} {fd : ℕ} (hstate : (t.memory fd).state = .established)
    (hring : (t.memory fd).RingOk) {data : ℕ → U8} (size : U32)
    (hfin : hasFlag (TCPHeader.flags data) tcpFin = false) :
    ∃ conn out, t.deliver fd data size = (t.put fd conn, out) ∧ conn.state = .established ∧
      conn.RingOk ∧ conn.queued = (t.memory fd).queued ++
        (payloadOf data size).take (4096 - (t.memory fd).recvCount.toNat) ∧
      (out = [] ↔ size - TCPHeader.dataOffset data = 0) ∧ AcknowledgeAll data size out := by
  set conn := t.acknowledged fd data size with hconn
  obtain ⟨hkeep, hstate', hring', hqueued⟩ := conn.switchState_data hstate
    ⟨hring.start, hring.count, hring.fin⟩ t.myIp hfin
    (fun i => data ((TCPHeader.dataOffset data).toNat + i)) (size - TCPHeader.dataOffset data)
  obtain ⟨hout, hacks⟩ := conn.switchState_acknowledges hstate t.myIp hfin
    (fun i => data ((TCPHeader.dataOffset data).toNat + i)) (size - TCPHeader.dataOffset data)
  refine ⟨_, _, deliver_eq_put (Prod.ext rfl (Prod.ext rfl hkeep)), hstate', hring', hqueued,
    hout, ?_⟩
  · intro packet hpacket
    rw [hacks packet hpacket, hconn, acknowledged_ackNumber]

/-- Whatever arrives while the last acknowledgment is awaited, the buffer stays as it is. -/
theorem deliver_lastAck {t : TCP} {fd : ℕ} (hstate : (t.memory fd).state = .lastAck)
    (data : ℕ → U8) (size : U32) :
    (t.deliver fd data size).2 = [] ∧
      (t.deliver fd data size).1.memory fd = t.acknowledged fd data size := by
  have hswitch : t.switched fd data size =
      (t.acknowledged fd data size, [], hasFlag (TCPHeader.flags data) tcpAck) :=
    (t.acknowledged fd data size).switchState_lastAck hstate _ _ _ _
  constructor
  · exact congrArg (fun r => r.2.1) hswitch
  · rw [deliver_memory_self, hswitch]

end TCP

/-! ### Runs -/

/-- The machine, and for one connection: the payload bytes accepted into the buffer, those that
`recv` has returned, and how many `SYN`s and `FIN`s came with them; the number of sequence
numbers received; and for each segment sent in answer, how many of them it acknowledges and how
many were accepted by then. -/
structure Listener where
  tcp : TCP
  accepted : List U8
  returned : List U8
  controls : ℕ
  received : ℕ
  acks : List (ℕ × ℕ)

/-- A segment that arrives from any host, or a call of `recv`. -/
inductive Activity where
  | segment (srcIp : U32) (data : ℕ → U8) (size : U32)
  | recv (size : U32)

/-- How many of `received` sequence numbers, the first of which is `first`, an acknowledgment
covers: its distance from the last of them is counted modulo `2 ^ 32`. -/
def covered (first : U32) (received : ℕ) (packet : Packet) : ℕ :=
  received - (first + BitVec.ofNat 32 received -
    TCPHeader.ackNumber (bufferOf packet.bytes)).toNat

def Listener.step (fd : ℕ) (first : U32) (s : Listener) : Activity → Option Listener
  | .segment srcIp data size =>
    let (tcp, out) := s.tcp.handlePacket srcIp data size
    if s.tcp.Reaches fd srcIp data size then
      let received := s.received + segmentLength data size
      let accepted := s.accepted ++
        (tcp.memory fd).queued.drop (s.tcp.memory fd).queued.length
      let controls := s.controls + controlSize (TCPHeader.flags data)
      some { s with
        tcp := tcp, accepted := accepted, controls := controls, received := received
        acks := s.acks ++ out.map fun packet =>
          (covered first received packet, accepted.length + controls) }
    else some { s with tcp := tcp }
  | .recv size =>
    let (tcp, bytes) := s.tcp.recv fd size
    some { s with tcp := tcp, returned := s.returned ++ bytes.getD [] }

/-- The connection is established or, after a `FIN`, waits for the last acknowledgment; what was
returned and what is queued is what was accepted. -/
structure Listener.Accepting (fd : ℕ) (s : Listener) : Prop where
  notNull : fd ≠ 0
  allocated : fd < s.tcp.nextPointer
  state : (s.tcp.memory fd).state = .established ∨ (s.tcp.memory fd).state = .lastAck
  ring : (s.tcp.memory fd).RingOk
  stream : s.returned ++ (s.tcp.memory fd).queued = s.accepted

/-- A segment that does not reach the connection. -/
theorem Listener.Accepting.notReaches {fd : ℕ} {first : U32} {s s' : Listener}
    (h : s.Accepting fd) {srcIp : U32} {data : ℕ → U8} {size : U32}
    (hreaches : ¬ s.tcp.Reaches fd srcIp data size)
    (hstep : s.step fd first (.segment srcIp data size) = some s') :
    s'.Accepting fd ∧ s' = { s with tcp := s'.tcp } ∧ s'.tcp.memory fd = s.tcp.memory fd := by
  have hmemory := TCP.handlePacket_memory_of_not_reaches h.allocated hreaches
  have hnext := (s.tcp.handlePacket_frame srcIp data size).1
  rw [Listener.step] at hstep
  dsimp only at hstep
  rw [if_neg hreaches, Option.some_inj] at hstep
  subst hstep
  refine ⟨⟨h.notNull, lt_of_lt_of_le h.allocated hnext, ?_, ?_, ?_⟩, rfl, hmemory⟩
  · exact hmemory ▸ h.state
  · exact hmemory ▸ h.ring
  · exact hmemory ▸ h.stream

/-- A segment that reaches the connection, whose buffer takes `stored`. -/
theorem Listener.Accepting.reaches {fd : ℕ} {first : U32} {s s' : Listener}
    (h : s.Accepting fd) {srcIp : U32} {data : ℕ → U8} {size : U32}
    (hreaches : s.tcp.Reaches fd srcIp data size) {tcp : TCP} {out : List Packet}
    (hdeliver : s.tcp.deliver fd data size = (tcp, out)) (stored : List U8)
    (hstate : (tcp.memory fd).state = .established ∨ (tcp.memory fd).state = .lastAck)
    (hring : (tcp.memory fd).RingOk)
    (hqueued : (tcp.memory fd).queued = (s.tcp.memory fd).queued ++ stored)
    (hstep : s.step fd first (.segment srcIp data size) = some s') :
    s'.Accepting fd ∧ s' = { s with
      tcp := tcp
      accepted := s.accepted ++ stored
      controls := s.controls + controlSize (TCPHeader.flags data)
      received := s.received + segmentLength data size
      acks := s.acks ++ out.map fun packet =>
        (covered first (s.received + segmentLength data size) packet,
          (s.accepted ++ stored).length + (s.controls + controlSize (TCPHeader.flags data))) } := by
  have hframe := s.tcp.deliver_frame fd data size
  rw [hdeliver] at hframe
  rw [Listener.step, hreaches.handlePacket_eq, hdeliver] at hstep
  dsimp only at hstep
  rw [if_pos hreaches, hqueued, List.drop_left, Option.some_inj] at hstep
  subst hstep
  refine ⟨⟨h.notNull, lt_of_lt_of_le h.allocated hframe.1.ge, hstate, hring, ?_⟩, rfl⟩
  dsimp only
  rw [hqueued, ← List.append_assoc, h.stream]

/-- The state in which bytes can be read is left only through a `FIN`. -/
theorem Listener.Accepting.segment {fd : ℕ} {first : U32} {s s' : Listener} (h : s.Accepting fd)
    {srcIp : U32} {data : ℕ → U8} {size : U32}
    (hstep : s.step fd first (.segment srcIp data size) = some s') :
    s'.Accepting fd ∧
      ((s.tcp.memory fd).state = .lastAck → (s'.tcp.memory fd).state = .lastAck ∧
        (s'.tcp.memory fd).recvCount = (s.tcp.memory fd).recvCount) ∧
      ((s.tcp.memory fd).state = .established →
        if s.tcp.Reaches fd srcIp data size ∧ hasFlag (TCPHeader.flags data) tcpFin then
          (s'.tcp.memory fd).state = .lastAck ∧
            (s'.tcp.memory fd).recvCount = (s.tcp.memory fd).recvCount
        else (s'.tcp.memory fd).state = .established) := by
  by_cases hreaches : s.tcp.Reaches fd srcIp data size
  · rcases h.state with hstate | hstate
    · cases hfin : hasFlag (TCPHeader.flags data) tcpFin with
      | true =>
        obtain ⟨conn, out, hdeliver, hlast, hring, hqueued, -⟩ :=
          TCP.deliver_fin hstate h.ring size hfin
        obtain ⟨haccepting, rfl⟩ := h.reaches hreaches hdeliver []
          (by rw [TCP.put_memory_self]; exact .inr hlast) (by rw [TCP.put_memory_self]; exact hring)
          (by rw [TCP.put_memory_self, hqueued, List.append_nil]) hstep
        have hcount := congrArg List.length hqueued
        rw [length_queued, length_queued] at hcount
        refine ⟨haccepting, fun hlast' => absurd (hstate.symm.trans hlast') (by decide), fun _ => ?_⟩
        rw [if_pos ⟨hreaches, rfl⟩]
        dsimp only
        rw [TCP.put_memory_self]
        exact ⟨hlast, BitVec.eq_of_toNat_eq hcount⟩
      | false =>
        obtain ⟨conn, out, hdeliver, hestablished, hring, hqueued, -⟩ :=
          TCP.deliver_data hstate h.ring size hfin
        obtain ⟨haccepting, rfl⟩ := h.reaches hreaches hdeliver _
          (by rw [TCP.put_memory_self]; exact .inl hestablished)
          (by rw [TCP.put_memory_self]; exact hring)
          (by rw [TCP.put_memory_self, hqueued]) hstep
        refine ⟨haccepting, fun hlast => absurd (hstate.symm.trans hlast) (by decide), fun _ => ?_⟩
        rw [if_neg fun hf => Bool.false_ne_true hf.2]
        dsimp only
        rw [TCP.put_memory_self]
        exact hestablished
    · obtain ⟨-, hmemory⟩ := TCP.deliver_lastAck hstate data size
      rcases hdeliver : s.tcp.deliver fd data size with ⟨tcp, out⟩
      rw [hdeliver] at hmemory
      obtain ⟨haccepting, rfl⟩ := h.reaches hreaches hdeliver []
        (.inr (by rw [hmemory]; exact hstate))
        (by rw [hmemory]; exact ⟨h.ring.start, h.ring.count, h.ring.fin⟩)
        (by rw [hmemory, List.append_nil]; rfl) hstep
      refine ⟨haccepting, fun _ => ?_, fun hest => absurd (hstate.symm.trans hest) (by decide)⟩
      dsimp only
      rw [hmemory]
      exact ⟨hstate, rfl⟩
  · obtain ⟨haccepting, -, hmemory⟩ := h.notReaches hreaches hstep
    refine ⟨haccepting, fun hlast => by rw [hmemory]; exact ⟨hlast, rfl⟩, fun hest => ?_⟩
    rw [if_neg fun hf => hreaches hf.1, hmemory]
    exact hest

/-- `recv` on an established connection, and on one that has seen the `FIN`. -/
theorem Listener.Accepting.recv {fd : ℕ} {first : U32} {s s' : Listener} (h : s.Accepting fd)
    {size : U32} (hstep : s.step fd first (.recv size) = some s') :
    s'.Accepting fd ∧ s'.accepted = s.accepted ∧ s'.controls = s.controls ∧
      s'.received = s.received ∧ s'.acks = s.acks ∧
      ((s.tcp.memory fd).state = .lastAck → s' = s) ∧
      ((s.tcp.memory fd).state = .established → (s'.tcp.memory fd).state = .established ∧
        s'.returned.length = s.returned.length +
          min size.toNat (s.tcp.memory fd).recvCount.toNat) := by
  rcases h.state with hstate | hstate
  · obtain ⟨conn, bytes, hrecv, -, hestablished, hring, hqueued, hlength⟩ :=
      s.tcp.recv_spec h.notNull hstate h.ring size
    rw [Listener.step, hrecv] at hstep
    dsimp only at hstep
    rw [Option.getD_some, Option.some_inj] at hstep
    subst hstep
    refine ⟨⟨h.notNull, h.allocated, ?_, ?_, ?_⟩, rfl, rfl, rfl, rfl,
      fun hlast => absurd (hstate.symm.trans hlast) (by decide), fun _ => ⟨?_, ?_⟩⟩
    · exact .inl (by dsimp only; rw [TCP.put_memory_self]; exact hestablished)
    · dsimp only
      rw [TCP.put_memory_self]
      exact hring
    · dsimp only
      rw [TCP.put_memory_self, List.append_assoc, hqueued]
      exact h.stream
    · dsimp only
      rw [TCP.put_memory_self]
      exact hestablished
    · rw [List.length_append, hlength]
  · have hrecv : s.tcp.recv fd size = (s.tcp, none) := by
      rw [TCP.recv]
      dsimp only
      rw [if_pos (.inr (by rw [hstate]; decide))]
    rw [Listener.step, hrecv] at hstep
    dsimp only at hstep
    rw [Option.getD_none, List.append_nil, Option.some_inj] at hstep
    subst hstep
    exact ⟨h, rfl, rfl, rfl, rfl, fun _ => rfl,
      fun hest => absurd (hstate.symm.trans hest) (by decide)⟩

theorem Listener.Accepting.step {fd : ℕ} {first : U32} {s s' : Listener} {a : Activity}
    (h : s.Accepting fd) (hstep : s.step fd first a = some s') : s'.Accepting fd := by
  cases a with
  | segment srcIp data size => exact (h.segment hstep).1
  | recv size => exact (h.recv hstep).1

/-! ### Acknowledgments -/

/-- No acknowledgment covers more than what was accepted. -/
def Listener.Honest (s : Listener) : Prop := ∀ ack ∈ s.acks, ack.1 ≤ ack.2

/-- The connection is established, and a segment that reaches it begins behind the last one. -/
def Activity.InOrder (fd : ℕ) (first : U32) (s : Listener) : Activity → Prop
  | .segment srcIp data size => (s.tcp.memory fd).state = .established ∧
    (s.tcp.Reaches fd srcIp data size →
      TCPHeader.seqNumber data = first + BitVec.ofNat 32 s.received)
  | .recv _ => (s.tcp.memory fd).state = .established

instance Activity.decidableInOrder (fd : ℕ) (first : U32) (s : Listener) :
    (a : Activity) → Decidable (a.InOrder fd first s)
  | .segment _ _ _ => inferInstanceAs (Decidable (_ ∧ (_ → _)))
  | .recv _ => inferInstanceAs (Decidable (_ = _))

/-- The data of a segment fits into the buffer; with a `FIN` there is none. -/
def Activity.Fits (fd : ℕ) (s : Listener) : Activity → Prop
  | .segment srcIp data size => s.tcp.Reaches fd srcIp data size →
    (size - TCPHeader.dataOffset data).toNat ≤ if hasFlag (TCPHeader.flags data) tcpFin then 0
      else 4096 - (s.tcp.memory fd).recvCount.toNat
  | .recv _ => True

instance Activity.decidableFits (fd : ℕ) (s : Listener) :
    (a : Activity) → Decidable (a.Fits fd s)
  | .segment _ _ _ => inferInstanceAs (Decidable (_ → _))
  | .recv _ => inferInstanceAs (Decidable True)

/-- No more was accepted than received, and as much as long as the acknowledgments are right. -/
structure Listener.Counting (fd : ℕ) (s : Listener) : Prop where
  accepting : s.Accepting fd
  le : s.accepted.length + s.controls ≤ s.received
  eq : s.Honest → s.accepted.length + s.controls = s.received

/-- What is acknowledged after a segment in order is all that was received. -/
theorem covered_eq {first : U32} {received : ℕ} {data : ℕ → U8} {size : U32} {out : List Packet}
    (hseq : TCPHeader.seqNumber data = first + BitVec.ofNat 32 received)
    (hout : AcknowledgeAll data size out) {packet : Packet} (hpacket : packet ∈ out) :
    covered first (received + segmentLength data size) packet =
      received + segmentLength data size := by
  rw [covered, hout packet hpacket, hseq, BitVec.add_assoc, ← BitVec.ofNat_add, BitVec.sub_self]
  rfl

/-- The acknowledgments after a segment that reaches the connection. -/
theorem Listener.Counting.reaches {fd : ℕ} {first : U32} {s s' : Listener} (h : s.Counting fd)
    {data : ℕ → U8} {size : U32} {tcp : TCP} {out : List Packet} {stored : List U8}
    (hseq : TCPHeader.seqNumber data = first + BitVec.ofNat 32 s.received)
    (hacks : AcknowledgeAll data size out) (haccepting : s'.Accepting fd)
    (hs' : s' = { s with
      tcp := tcp
      accepted := s.accepted ++ stored
      controls := s.controls + controlSize (TCPHeader.flags data)
      received := s.received + segmentLength data size
      acks := s.acks ++ out.map fun packet =>
        (covered first (s.received + segmentLength data size) packet,
          (s.accepted ++ stored).length + (s.controls + controlSize (TCPHeader.flags data))) })
    (hstored : stored.length ≤ (size - TCPHeader.dataOffset data).toNat)
    (hanswer : out = [] → (size - TCPHeader.dataOffset data).toNat = 0) :
    s'.Counting fd ∧ (s'.Honest ↔
      s.Honest ∧ (size - TCPHeader.dataOffset data).toNat ≤ stored.length) := by
  have hhonest : s'.Honest ↔
      s.Honest ∧ (size - TCPHeader.dataOffset data).toNat ≤ stored.length := by
    rw [hs', Honest, List.forall_mem_append, Honest]
    refine and_congr_right fun hs => ?_
    have heq := h.eq hs
    have hcover : ∀ packet ∈ out, covered first (s.received + segmentLength data size) packet ≤
        (s.accepted ++ stored).length + (s.controls + controlSize (TCPHeader.flags data)) ↔
        (size - TCPHeader.dataOffset data).toNat ≤ stored.length := by
      intro packet hpacket
      rw [covered_eq hseq hacks hpacket, segmentLength, List.length_append]
      omega
    constructor
    · intro hall
      cases hout : out with
      | nil =>
        rw [hanswer hout]
        exact Nat.zero_le _
      | cons packet rest =>
        have hmem : packet ∈ out := hout ▸ List.mem_cons_self
        exact (hcover packet hmem).mp (hall _ (List.mem_map_of_mem hmem))
    · intro hle ack hack
      obtain ⟨packet, hpacket, rfl⟩ := List.mem_map.mp hack
      exact (hcover packet hpacket).mpr hle
  have hle := h.le
  refine ⟨⟨haccepting, ?_, fun hs' => ?_⟩, hhonest⟩
  · rw [hs']
    dsimp only
    rw [List.length_append, segmentLength]
    omega
  · obtain ⟨hs, hall⟩ := hhonest.mp hs'
    have heq := h.eq hs
    subst s'
    dsimp only
    rw [List.length_append, segmentLength]
    omega

theorem Listener.honest_step {fd : ℕ} {first : U32} {s s' : Listener} {a : Activity}
    (h : s.Counting fd) (hwf : a.InOrder fd first s) (hstep : s.step fd first a = some s') :
    s'.Counting fd ∧ (s'.Honest ↔ s.Honest ∧ a.Fits fd s) := by
  cases a with
  | segment srcIp data size =>
    obtain ⟨hstate, hseq⟩ := hwf
    by_cases hreaches : s.tcp.Reaches fd srcIp data size
    · cases hfin : hasFlag (TCPHeader.flags data) tcpFin with
      | true =>
        obtain ⟨conn, out, hdeliver, hlast, hring, hqueued, hout, hacks⟩ :=
          TCP.deliver_fin hstate h.accepting.ring size hfin
        obtain ⟨haccepting, hs'⟩ := h.accepting.reaches hreaches hdeliver []
          (by rw [TCP.put_memory_self]; exact .inr hlast) (by rw [TCP.put_memory_self]; exact hring)
          (by rw [TCP.put_memory_self, hqueued, List.append_nil]) hstep
        have hcount := h.reaches (hseq hreaches) hacks haccepting hs' (Nat.zero_le _)
          fun hnil => absurd hnil hout
        rw [Activity.Fits, hfin, if_pos rfl]
        exact ⟨hcount.1, hcount.2.trans (and_congr_right fun _ => ⟨fun hle _ => hle,
          fun hle => hle hreaches⟩)⟩
      | false =>
        obtain ⟨conn, out, hdeliver, hestablished, hring, hqueued, hout, hacks⟩ :=
          TCP.deliver_data hstate h.accepting.ring size hfin
        obtain ⟨haccepting, hs'⟩ := h.accepting.reaches hreaches hdeliver _
          (by rw [TCP.put_memory_self]; exact .inl hestablished)
          (by rw [TCP.put_memory_self]; exact hring)
          (by rw [TCP.put_memory_self, hqueued]) hstep
        have hlength : ((payloadOf data size).take
            (4096 - (s.tcp.memory fd).recvCount.toNat)).length =
            min (4096 - (s.tcp.memory fd).recvCount.toNat)
              (size - TCPHeader.dataOffset data).toNat := by
          rw [List.length_take, payloadOf, List.length_map, List.length_range]
        have hcount := h.reaches (hseq hreaches) hacks haccepting hs'
          (by rw [hlength]; exact Nat.min_le_right _ _)
          fun hnil => by rw [hout.mp hnil]; rfl
        rw [Activity.Fits, hfin, if_neg Bool.false_ne_true]
        refine ⟨hcount.1, hcount.2.trans (and_congr_right fun _ => ?_)⟩
        rw [hlength]
        exact ⟨fun hle _ => by omega, fun hle => by have := hle hreaches; omega⟩
    · obtain ⟨haccepting, hs', -⟩ := h.accepting.notReaches hreaches hstep
      rw [hs']
      refine ⟨⟨hs' ▸ haccepting, h.le, h.eq⟩, ?_⟩
      exact (and_iff_left fun hr => absurd hr hreaches).symm
  | recv size =>
    obtain ⟨haccepting, haccepted, hcontrols, hreceived, hacks, -⟩ := h.accepting.recv hstep
    have hhonest : s'.Honest ↔ s.Honest := by rw [Honest, Honest, hacks]
    refine ⟨⟨haccepting, ?_, fun hs' => ?_⟩, hhonest.trans (and_iff_left trivial).symm⟩
    · rw [haccepted, hcontrols, hreceived]
      exact h.le
    · rw [haccepted, hcontrols, hreceived]
      exact h.eq (hhonest.mp hs')

/-- **When acknowledgments are right**: as long as the data of every segment fits. -/
theorem honest_iff_of_run {fd : ℕ} {first : U32} {s s' : Listener} {acts : List Activity}
    (hstart : s.Accepting fd) (hreceived : s.accepted.length + s.controls = s.received)
    (hacks : s.acks = [])
    (hwf : Guarded (Listener.step fd first) (fun s a => a.InOrder fd first s) s acts)
    (hrun : run (Listener.step fd first) s acts = some s') :
    s'.Honest ↔ Guarded (Listener.step fd first) (fun s a => a.Fits fd s) s acts := by
  have hhonest : s.Honest := fun ack hack => absurd (hacks ▸ hack) List.not_mem_nil
  have hiff := run_iff_guarded (I := Listener.Counting fd)
    (fun _ _ _ h hwf hstep => (Listener.honest_step h hwf hstep).1)
    (fun _ _ _ h hwf hstep => (Listener.honest_step h hwf hstep).2)
    ⟨hstart, hreceived.le, fun _ => hreceived⟩ hwf hrun
  rw [hiff]
  exact and_iff_right hhonest

/-- A client that has called `connect`, with its connection at 1. -/
def listening : Listener where
  tcp := connected.tcp
  accepted := []
  returned := []
  controls := 0
  received := 0
  acks := []

theorem accepting_listening : listening.Accepting 1 :=
  ⟨by decide, by decide, by decide, ⟨by decide, by decide, by decide⟩, by decide⟩

/-- A segment of the server, with this many bytes of data in front of which `offset` sequence
numbers have been used. -/
def serverSegment (offset : ℕ) (flags : U8) (count : ℕ) : Activity :=
  let conn : TCPConnection :=
    { localIp := 0x0A000002, remoteIp := 0x0A000001, localPort := 80, remotePort := 49152
      state := .established, seqNumber := 5000 + BitVec.ofNat 32 offset, ackNumber := 0
      advertisedWindow := 8192, sendWindowStart := 0, sendWindowEnd := 8192
      recvBuffer := fun _ => 0, recvStart := 0, recvEnd := 0, recvCount := 0 }
  .segment 0x0A000002 (bufferOf (emit conn flags (List.replicate count 0x61)))
    (BitVec.ofNat 32 (20 + count))

/-- Two segments that fit, with a call of `recv` between them, and a `FIN`. -/
def readAsItComes : List Activity :=
  [serverSegment 0 (tcpAck ||| tcpPsh) 3, .recv 100, serverSegment 3 (tcpAck ||| tcpPsh) 2,
    .recv 100, serverSegment 5 (tcpFin ||| tcpAck) 0]

theorem honest_iff_of_run_readAsItComes :
    ∃ s, run (Listener.step 1 5000) listening readAsItComes = some s ∧ s.Honest := by
  obtain ⟨s, hs⟩ : ∃ s, run (Listener.step 1 5000) listening readAsItComes = some s :=
    Option.isSome_iff_exists.mp (by decide +kernel)
  exact ⟨s, hs, (honest_iff_of_run accepting_listening rfl rfl (by decide +kernel) hs).mpr
    (by decide +kernel)⟩

/-- **Bytes are acknowledged that were not stored**: 4380, where 4096 fit into the buffer. -/
theorem acknowledged_not_stored :
    Guarded (Listener.step 1 5000) (fun s a => a.InOrder 1 5000 s) listening
      [serverSegment 0 tcpAck 1460, serverSegment 1460 tcpAck 1460, serverSegment 2920 tcpAck 1460] ∧
    ∃ s, run (Listener.step 1 5000) listening
      [serverSegment 0 tcpAck 1460, serverSegment 1460 tcpAck 1460,
        serverSegment 2920 tcpAck 1460] = some s ∧
      s.acks = [(1460, 1460), (2920, 2920), (4380, 4096)] ∧ ¬ s.Honest := by
  have hrun : (run (Listener.step 1 5000) listening
      [serverSegment 0 tcpAck 1460, serverSegment 1460 tcpAck 1460,
        serverSegment 2920 tcpAck 1460]).map Listener.acks =
      some [(1460, 1460), (2920, 2920), (4380, 4096)] := by
    decide +kernel
  obtain ⟨s, hs, hacks⟩ := Option.map_eq_some_iff.mp hrun
  refine ⟨by decide +kernel, s, hs, hacks, ?_⟩
  rw [Listener.Honest, hacks]
  decide

/-! ### Reading after a `FIN` -/

/-- Calls of `recv` return the rest of what was accepted. -/
def Listener.Obtainable (fd : ℕ) (first : U32) (s : Listener) : Prop :=
  ∃ sizes : List U32, ∃ s', run (Listener.step fd first) s (sizes.map .recv) = some s' ∧
    s'.returned = s.accepted

/-- A `FIN` that reaches the established connection finds the buffer empty. -/
def Activity.FinFindsEmpty (fd : ℕ) (s : Listener) : Activity → Prop
  | .segment srcIp data size => s.tcp.Reaches fd srcIp data size →
    (s.tcp.memory fd).state = .established → hasFlag (TCPHeader.flags data) tcpFin →
      (s.tcp.memory fd).recvCount = 0
  | .recv _ => True

instance (fd : ℕ) (s : Listener) : (a : Activity) → Decidable (a.FinFindsEmpty fd s)
  | .segment _ _ _ => inferInstanceAs (Decidable (_ → _ → _ → _))
  | .recv _ => inferInstanceAs (Decidable True)

/-- Everything has been read when the buffer is empty. -/
theorem Listener.Accepting.returned_eq_iff {fd : ℕ} {s : Listener} (h : s.Accepting fd) :
    s.returned = s.accepted ↔ (s.tcp.memory fd).recvCount = 0 := by
  have hlength : s.accepted.length = s.returned.length + (s.tcp.memory fd).recvCount.toNat := by
    rw [← h.stream, List.length_append, length_queued]
  constructor
  · intro hall
    rw [hall] at hlength
    exact BitVec.eq_of_toNat_eq (by simp; omega)
  · intro hzero
    have hempty : (s.tcp.memory fd).queued = [] := by
      rw [← List.length_eq_zero_iff, length_queued, hzero]
      rfl
    rw [← h.stream, hempty, List.append_nil]

/-- After the `FIN` every call of `recv` fails. -/
theorem Listener.Accepting.run_recv {fd : ℕ} {first : U32} {s s' : Listener} (h : s.Accepting fd)
    (hlast : (s.tcp.memory fd).state = .lastAck) {sizes : List U32}
    (hrun : run (Listener.step fd first) s (sizes.map .recv) = some s') : s' = s := by
  induction sizes with
  | nil => exact (Option.some_inj.mp hrun).symm
  | cons size sizes ih =>
    rw [List.map_cons, run_cons] at hrun
    obtain ⟨t, ht, hrest⟩ := Option.bind_eq_some_iff.mp hrun
    rw [(h.recv ht).2.2.2.2.2.1 hlast] at hrest
    exact ih hrest

/-- What is in the buffer can be read while the connection is established. -/
theorem Listener.Accepting.obtainable_iff {fd : ℕ} (first : U32) {s : Listener}
    (h : s.Accepting fd) : s.Obtainable fd first ↔
      (s.tcp.memory fd).state = .established ∨ (s.tcp.memory fd).recvCount = 0 := by
  constructor
  · rintro ⟨sizes, s', hrun, hall⟩
    refine h.state.imp id fun hlast => h.returned_eq_iff.mp ?_
    rw [← hall, h.run_recv hlast hrun]
  · rintro (hstate | hzero)
    · -- one call with a buffer that is large enough
      obtain ⟨s', hs'⟩ : ∃ s', s.step fd first (.recv 4096) = some s' := ⟨_, rfl⟩
      obtain ⟨haccepting, haccepted, -, -, -, -, hread⟩ := h.recv hs'
      refine ⟨[4096], s', by rw [List.map_singleton, run_cons, hs']; rfl, ?_⟩
      have hlength := (hread hstate).2
      have hstream := congrArg List.length h.stream
      rw [show (4096 : U32).toNat = 4096 from rfl, Nat.min_eq_right h.ring.count] at hlength
      rw [List.length_append, length_queued] at hstream
      have hprefix : s'.returned <+: s'.accepted := ⟨_, haccepting.stream⟩
      rw [← haccepted]
      exact hprefix.eq_of_length (by rw [haccepted]; omega)
    · exact ⟨[], s, rfl, h.returned_eq_iff.mpr hzero⟩

theorem Listener.obtainable_step {fd : ℕ} {first : U32} {s s' : Listener} {a : Activity}
    (h : s.Accepting fd) (hstep : s.step fd first a = some s') :
    s'.Obtainable fd first ↔ s.Obtainable fd first ∧ a.FinFindsEmpty fd s := by
  rw [h.obtainable_iff first, (h.step hstep).obtainable_iff first]
  cases a with
  | segment srcIp data size =>
    obtain ⟨-, hlast, hestablished⟩ := h.segment hstep
    rw [Activity.FinFindsEmpty]
    rcases h.state with hstate | hstate
    · have hnext := hestablished hstate
      by_cases hfin : s.tcp.Reaches fd srcIp data size ∧ hasFlag (TCPHeader.flags data) tcpFin
      · rw [if_pos hfin] at hnext
        rw [hnext.1, hnext.2]
        simp [hstate, hfin.1, hfin.2]
      · rw [if_neg hfin] at hnext
        simp only [hnext, hstate, true_or, true_and, true_iff]
        exact fun hreaches _ hflag => absurd ⟨hreaches, hflag⟩ hfin
    · obtain ⟨hstate', hcount⟩ := hlast hstate
      rw [hstate', hcount, hstate]
      simp
  | recv size =>
    obtain ⟨-, -, -, -, -, hlast, hestablished⟩ := h.recv hstep
    rw [Activity.FinFindsEmpty, and_true]
    rcases h.state with hstate | hstate
    · simp only [(hestablished hstate).1, hstate, true_or]
    · rw [hlast hstate]

/-- **When accepted bytes can be read**: as long as every `FIN` finds the buffer empty. -/
theorem obtainable_iff_of_run {fd : ℕ} {first : U32} {s s' : Listener} {acts : List Activity}
    (hstart : s.Accepting fd) (hstate : (s.tcp.memory fd).state = .established)
    (hrun : run (Listener.step fd first) s acts = some s') :
    s'.Obtainable fd first ↔
      Guarded (Listener.step fd first) (fun s a => a.FinFindsEmpty fd s) s acts := by
  have hiff := run_iff_guarded (W := fun _ _ => True) (P := Listener.Obtainable fd first)
    (fun _ _ _ h _ hstep => h.step hstep)
    (fun _ _ _ h _ hstep => Listener.obtainable_step h hstep) hstart (guarded_true _ s acts) hrun
  rw [hiff]
  exact and_iff_right ((hstart.obtainable_iff first).mpr (.inl hstate))

theorem obtainable_iff_of_run_readAsItComes :
    ∃ s, run (Listener.step 1 5000) listening readAsItComes = some s ∧ s.Obtainable 1 5000 := by
  obtain ⟨s, hs⟩ : ∃ s, run (Listener.step 1 5000) listening readAsItComes = some s :=
    Option.isSome_iff_exists.mp (by decide +kernel)
  exact ⟨s, hs, (obtainable_iff_of_run accepting_listening (by decide) hs).mpr (by decide +kernel)⟩

/-- **A byte is lost**: the `FIN` arrives before `recv` is called. -/
theorem accepted_not_obtainable :
    ∃ s, run (Listener.step 1 5000) listening
      [serverSegment 0 tcpAck 1, serverSegment 1 (tcpFin ||| tcpAck) 0] = some s ∧
      s.accepted = [0x61] ∧ (s.tcp.recv 1 100).2 = none ∧ ¬ s.Obtainable 1 5000 := by
  have hrun : (run (Listener.step 1 5000) listening
      [serverSegment 0 tcpAck 1, serverSegment 1 (tcpFin ||| tcpAck) 0]).map (fun s =>
        (s.accepted, (s.tcp.recv 1 100).2, (s.tcp.memory 1).state, (s.tcp.memory 1).recvCount)) =
      some ([0x61], none, .lastAck, 1) := by
    decide +kernel
  obtain ⟨s, hs, hvalues⟩ := Option.map_eq_some_iff.mp hrun
  simp only [Prod.mk.injEq] at hvalues
  obtain ⟨haccepted, hrecv, hstate, hcount⟩ := hvalues
  refine ⟨s, hs, haccepted, hrecv, fun h => ?_⟩
  have haccepting : s.Accepting 1 :=
    run_keeps (fun _ _ _ h hstep => h.step hstep) accepting_listening hs
  rcases (haccepting.obtainable_iff 5000).mp h with hest | hzero
  · exact absurd (hstate.symm.trans hest) (by decide)
  · exact absurd (hcount.symm.trans hzero) (by decide)

end MesaOS.Net
