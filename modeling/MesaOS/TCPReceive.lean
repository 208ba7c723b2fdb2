/-
What `TCP::recv` returns.

`handle_packet` appends the payload of every segment that reaches an `ESTABLISHED`
connection; it does not look at the sequence number.  So a segment that arrives a
second time is returned a second time (`duplicate_returned`).

* `switchState_data` — one segment appends the part of its payload that fits;
* `recv_spec` — `recv` takes bytes from the front of the queue;
* `recv_prefix_of_run` — what `recv` returns is a prefix of the peer's stream when
  every segment that finds space is the next one.
-/
import MesaOS.Runs
import MesaOS.TCP

open MachineWord Runs

namespace MesaOS.Net

/-- The payload of a segment. -/
def payloadOf (data : ℕ → U8) (size : U32) : List U8 :=
  (List.range (size - TCPHeader.dataOffset data).toNat).map fun i =>
    data ((TCPHeader.dataOffset data).toNat + i)

/-- One data segment on an established connection. -/
theorem TCPConnection.switchState_data {conn : TCPConnection} (hstate : conn.state = .established)
    (hring : conn.RingOk) (myIp : U32) {flags : U8} (hfin : hasFlag flags tcpFin = false)
    (payload : ℕ → U8) (dataSize : U32) :
    (conn.switchState myIp flags payload dataSize).2.2 = false ∧
      (conn.switchState myIp flags payload dataSize).1.state = .established ∧
      (conn.switchState myIp flags payload dataSize).1.RingOk ∧
      (conn.switchState myIp flags payload dataSize).1.queued = conn.queued ++
        ((List.range dataSize.toNat).map payload).take (4096 - conn.recvCount.toNat) := by
  have hcount := hring.count
  rw [switchState, hstate]
  dsimp only
  rw [hfin]
  by_cases hdata : dataSize > 0
  · rw [if_neg (by simp), if_pos hdata]
    have hspace : (tcpBufferSize - conn.recvCount).toNat = 4096 - conn.recvCount.toNat := by
      rw [BitVec.toNat_sub, show tcpBufferSize.toNat = 4096 from rfl]
      omega
    have hn : (if dataSize < tcpBufferSize - conn.recvCount then dataSize
        else tcpBufferSize - conn.recvCount).toNat =
        min dataSize.toNat (4096 - conn.recvCount.toNat) := by
      rw [toNat_ite_lt, hspace]
    generalize (if dataSize < tcpBufferSize - conn.recvCount then dataSize
      else tcpBufferSize - conn.recvCount) = n at hn ⊢
    obtain ⟨hring', hqueued⟩ := store_spec hring payload (n := n) (by omega) rfl
    rw [sendFlags_eq]
    refine ⟨rfl, ?_, ⟨hring'.start, hring'.count, hring'.fin⟩, hqueued.trans ?_⟩
    · rw [storeBytes]
      exact hstate
    · rw [← List.map_take, List.take_range, hn, Nat.min_comm]
  · rw [if_neg (by simp), if_neg hdata]
    have hzero : dataSize.toNat = 0 := by
      have := toNat_le_of_not_lt hdata
      simpa using this
    rw [hzero]
    exact ⟨rfl, hstate, hring, by simp⟩

theorem TCP.put_self (t : TCP) (p : ℕ) : t.put p (t.memory p) = t := by
  rw [put, Function.update_eq_self]

/-- What `recv` does to an established connection, and the bytes. -/
def TCPConnection.takeBytes (conn : TCPConnection) (size : U32) : TCPConnection × List U8 :=
  if conn.recvCount = 0 then (conn, [])
  else
    let bytesToRead := if size < conn.recvCount then size else conn.recvCount
    let (conn', bytes) := conn.loadBytes bytesToRead.toNat
    ({ conn' with recvCount := conn.recvCount - bytesToRead }, bytes)

theorem TCP.recv_eq (t : TCP) {fd : ℕ} (hfd : fd ≠ 0)
    (hstate : (t.memory fd).state = .established) (size : U32) :
    t.recv fd size =
      (t.put fd ((t.memory fd).takeBytes size).1, some ((t.memory fd).takeBytes size).2) := by
  rw [recv, TCPConnection.takeBytes]
  dsimp only
  rw [if_neg (not_or.mpr ⟨hfd, not_not.mpr hstate⟩)]
  by_cases hzero : (t.memory fd).recvCount = 0
  · rw [if_pos hzero, if_pos hzero, put_self]
  · rw [if_neg hzero, if_neg hzero]
    rfl

/-- Bytes move from the front of the queue to the caller. -/
theorem TCPConnection.RingOk.takeBytes_spec {conn : TCPConnection} (hring : conn.RingOk) (size : U32) :
    conn.Keeps (conn.takeBytes size).1 ∧ (conn.takeBytes size).1.state = conn.state ∧
      (conn.takeBytes size).1.seqNumber = conn.seqNumber ∧ (conn.takeBytes size).1.RingOk ∧
      (conn.takeBytes size).2 ++ (conn.takeBytes size).1.queued = conn.queued ∧
      (conn.takeBytes size).2.length = min size.toNat conn.recvCount.toNat := by
  have hcount := hring.count
  have hstart := hring.start
  have hfin := hring.fin
  rw [TCPConnection.takeBytes]
  dsimp only
  by_cases hzero : conn.recvCount = 0
  · rw [if_pos hzero]
    refine ⟨⟨⟨rfl, rfl, rfl, rfl⟩, rfl, rfl, rfl⟩, rfl, rfl, hring, rfl, ?_⟩
    rw [hzero]
    simp
  rw [if_neg hzero]
  have hn := toNat_ite_lt size conn.recvCount
  generalize (if size < conn.recvCount then size else conn.recvCount) = n at hn
  rw [conn.loadBytes_spec n.toNat hstart]
  dsimp only
  have hleft : (conn.recvCount - n).toNat = conn.recvCount.toNat - n.toNat := by
    rw [BitVec.toNat_sub]
    omega
  have hpos : (BitVec.ofNat 32 ((conn.recvStart.toNat + n.toNat) % 4096)).toNat =
      (conn.recvStart.toNat + n.toNat) % 4096 := by
    rw [BitVec.toNat_ofNat]
    omega
  refine ⟨⟨⟨rfl, rfl, rfl, rfl⟩, rfl, rfl, rfl⟩, rfl, rfl, ⟨?_, ?_, ?_⟩, ?_, ?_⟩
  · dsimp only
    rw [hpos]
    omega
  · dsimp only
    rw [hleft]
    omega
  · dsimp only
    rw [hpos, hleft, hfin]
    omega
  · rw [TCPConnection.queued]
    dsimp only
    rw [hpos, hleft, RingBuffer.take_append_drop_contents _ _ _ (by omega)]
    rfl
  · rw [RingBuffer.length_contents, hn]

/-- `recv` on an established connection. -/
theorem TCP.recv_spec (t : TCP) {fd : ℕ} (hfd : fd ≠ 0)
    (hstate : (t.memory fd).state = .established) (hring : (t.memory fd).RingOk) (size : U32) :
    ∃ conn bytes, t.recv fd size = (t.put fd conn, some bytes) ∧ (t.memory fd).Keeps conn ∧
      conn.state = .established ∧ conn.RingOk ∧ bytes ++ conn.queued = (t.memory fd).queued ∧
      bytes.length = min size.toNat (t.memory fd).recvCount.toNat := by
  obtain ⟨hkeeps, hsame, -, hring', hqueued, hlength⟩ := hring.takeBytes_spec size
  exact ⟨_, _, t.recv_eq hfd hstate size, hkeeps, hsame.trans hstate, hring', hqueued, hlength⟩

/-! ### A connection and its peer's stream -/

/-- The machine, and what `recv` has returned so far. -/
structure Receiver where
  tcp : TCP
  returned : List U8

/-- A segment that arrives, with the place of its payload in the stream, or a call of `recv`. -/
inductive Arrival where
  | segment (offset : ℕ) (data : ℕ → U8) (size : U32)
  | recv (size : U32)

/-- Segments come from the peer of the connection at `fd`. -/
def Receiver.step (fd : ℕ) (r : Receiver) : Arrival → Option Receiver
  | .segment _ data size =>
    some { r with tcp := (r.tcp.handlePacket (r.tcp.memory fd).remoteIp data size).1 }
  | .recv size =>
    let (tcp, bytes) := r.tcp.recv fd size
    some { tcp := tcp, returned := r.returned ++ bytes.getD [] }

/-- The segment is one of the peer's, cut out of `stream` at `offset`; `first` is the sequence
number of the stream's first byte. -/
structure Carries (conn : TCPConnection) (first : U32) (stream : List U8) (offset : ℕ)
    (data : ℕ → U8) (size : U32) : Prop where
  header : 20 ≤ (TCPHeader.dataOffset data).toNat
  fits : (TCPHeader.dataOffset data).toNat ≤ size.toNat
  destPort : TCPHeader.destPort data = conn.localPort
  srcPort : TCPHeader.srcPort data = conn.remotePort
  noFin : hasFlag (TCPHeader.flags data) tcpFin = false
  seqNumber : TCPHeader.seqNumber data = first + BitVec.ofNat 32 offset
  payload : payloadOf data size <+: stream.drop offset

instance (conn : TCPConnection) (first : U32) (stream : List U8) (offset : ℕ) (data : ℕ → U8)
    (size : U32) : Decidable (Carries conn first stream offset data size) :=
  decidable_of_iff
    (20 ≤ (TCPHeader.dataOffset data).toNat ∧ (TCPHeader.dataOffset data).toNat ≤ size.toNat ∧
      TCPHeader.destPort data = conn.localPort ∧ TCPHeader.srcPort data = conn.remotePort ∧
      hasFlag (TCPHeader.flags data) tcpFin = false ∧
      TCPHeader.seqNumber data = first + BitVec.ofNat 32 offset ∧
      payloadOf data size <+: stream.drop offset)
    ⟨fun ⟨h1, h2, h3, h4, h5, h6, h7⟩ => ⟨h1, h2, h3, h4, h5, h6, h7⟩,
      fun ⟨h1, h2, h3, h4, h5, h6, h7⟩ => ⟨h1, h2, h3, h4, h5, h6, h7⟩⟩

/-- Segments are the peer's. -/
def Arrival.WellFormed (fd : ℕ) (first : U32) (stream : List U8) (r : Receiver) : Arrival → Prop
  | .segment offset data size => Carries (r.tcp.memory fd) first stream offset data size
  | .recv _ => True

instance (fd : ℕ) (first : U32) (stream : List U8) (r : Receiver) :
    (a : Arrival) → Decidable (a.WellFormed fd first stream r)
  | .segment offset data size =>
    inferInstanceAs (Decidable (Carries (r.tcp.memory fd) first stream offset data size))
  | .recv _ => inferInstanceAs (Decidable True)

/-- A segment with a payload finds no space, or it is the next one: its place in the stream is
behind the bytes that `recv` has returned and those in the buffer. -/
def Arrival.InOrder (fd : ℕ) (r : Receiver) : Arrival → Prop
  | .segment offset data size =>
    payloadOf data size = [] ∨ (r.tcp.memory fd).recvCount = 4096 ∨
      offset = r.returned.length + (r.tcp.memory fd).recvCount.toNat
  | .recv _ => True

instance (fd : ℕ) (r : Receiver) : (a : Arrival) → Decidable (a.InOrder fd r)
  | .segment _ _ _ => inferInstanceAs (Decidable (_ ∨ _))
  | .recv _ => inferInstanceAs (Decidable True)

/-- The connection at `fd` is established, it is the one that its peer's segments reach, and
what was returned and what is queued make up the beginning of the stream. -/
structure Receiving (fd : ℕ) (stream : List U8) (r : Receiver) : Prop where
  notNull : fd ≠ 0
  found : r.tcp.findConnection r.tcp.myIp (r.tcp.memory fd).remoteIp (r.tcp.memory fd).localPort
    (r.tcp.memory fd).remotePort = some fd
  established : (r.tcp.memory fd).state = .established
  ring : (r.tcp.memory fd).RingOk
  stream : r.returned ++ (r.tcp.memory fd).queued <+: stream

theorem length_queued (conn : TCPConnection) : conn.queued.length = conn.recvCount.toNat :=
  RingBuffer.length_contents ..

/-- Appending what follows keeps a prefix. -/
theorem append_prefix {α : Type*} {l l' stream : List α} (h : l <+: stream)
    (h' : l' <+: stream.drop l.length) : l ++ l' <+: stream := by
  obtain ⟨rest, rfl⟩ := h
  rw [List.drop_left] at h'
  exact (List.prefix_append_right_inj l).mpr h'

/-- The invariant after an assignment to the connection. -/
theorem Receiving.put {fd : ℕ} {stream returned : List U8} {r : Receiver}
    (h : Receiving fd stream r) {conn : TCPConnection}
    (hends : (r.tcp.memory fd).SameEnds conn) (hstate : conn.state = .established)
    (hring : conn.RingOk) (hstream : returned ++ conn.queued <+: stream) :
    Receiving fd stream { tcp := r.tcp.put fd conn, returned := returned } := by
  obtain ⟨-, hremote, hport, hrport⟩ := id hends
  refine ⟨h.notNull, ?_, ?_, ?_, ?_⟩
  · dsimp only
    rw [TCP.put_memory_self, TCP.findConnection_put hends, hremote, hport, hrport]
    exact h.found
  · dsimp only
    rw [TCP.put_memory_self]
    exact hstate
  · dsimp only
    rw [TCP.put_memory_self]
    exact hring
  · dsimp only
    rw [TCP.put_memory_self]
    exact hstream

theorem receiving_segment {fd : ℕ} {first : U32} {stream : List U8} {r r' : Receiver}
    (h : Receiving fd stream r) {offset : ℕ} {data : ℕ → U8} {size : U32}
    (hwf : Carries (r.tcp.memory fd) first stream offset data size)
    (hok : (Arrival.segment offset data size).InOrder fd r)
    (hstep : r.step fd (.segment offset data size) = some r') : Receiving fd stream r' := by
  rw [Receiver.step, Option.some_inj] at hstep
  have hfound := h.found
  rw [← hwf.destPort, ← hwf.srcPort] at hfound
  have h20 : 20 ≤ size.toNat := Nat.le_trans hwf.header hwf.fits
  rw [TCP.handlePacket_of_found h20 hfound, TCP.deliver] at hstep
  dsimp only at hstep
  set flags := TCPHeader.flags data
  set dataSize := size - TCPHeader.dataOffset data with hdataSize
  set conn := (r.tcp.memory fd).acknowledge flags (TCPHeader.seqNumber data) dataSize
  have hring : conn.RingOk := ⟨h.ring.start, h.ring.count, h.ring.fin⟩
  obtain ⟨hkeep, hstate, hring', hqueued⟩ := conn.switchState_data h.established hring r.tcp.myIp
    hwf.noFin (fun i => data ((TCPHeader.dataOffset data).toNat + i)) dataSize
  have hself : (r.tcp.memory fd).SameEnds conn := ⟨rfl, rfl, rfl, rfl⟩
  have hends : (r.tcp.memory fd).SameEnds _ :=
    hself.trans (conn.sameEnds_switchState r.tcp.myIp flags
        (fun i => data ((TCPHeader.dataOffset data).toNat + i)) dataSize)
  generalize conn.switchState r.tcp.myIp flags
    (fun i => data ((TCPHeader.dataOffset data).toNat + i)) dataSize = out at *
  obtain ⟨conn', packets, remove⟩ := out
  dsimp only at hkeep hstate hring' hqueued hends hstep
  rw [hkeep, if_neg Bool.false_ne_true] at hstep
  subst hstep
  refine h.put hends hstate hring' ?_
  rw [hqueued, ← List.append_assoc]
  refine append_prefix h.stream ?_
  have hlength : (r.returned ++ conn.queued).length =
      r.returned.length + (r.tcp.memory fd).recvCount.toNat := by
    rw [List.length_append, length_queued]
    rfl
  change (payloadOf data size).take (4096 - (r.tcp.memory fd).recvCount.toNat) <+: _
  rcases hok with hempty | hfull | hnext
  · rw [hempty, List.take_nil]
    exact List.nil_prefix
  · have hzero : 4096 - (r.tcp.memory fd).recvCount.toNat = 0 := by
      rw [hfull]
      rfl
    rw [hzero, List.take_zero]
    exact List.nil_prefix
  · rw [hlength, ← hnext]
    exact (List.take_prefix _ _).trans hwf.payload

theorem receiving_recv {fd : ℕ} {stream : List U8} {r r' : Receiver} (h : Receiving fd stream r)
    {size : U32} (hstep : r.step fd (.recv size) = some r') : Receiving fd stream r' := by
  obtain ⟨conn, bytes, hrecv, hkeeps, hstate, hring, hqueued, -⟩ :=
    r.tcp.recv_spec h.notNull h.established h.ring size
  rw [Receiver.step, hrecv, Option.some_inj] at hstep
  subst hstep
  refine h.put hkeeps.ends hstate hring ?_
  rw [Option.getD_some, List.append_assoc, hqueued]
  exact h.stream

theorem receiving_step {fd : ℕ} {first : U32} {stream : List U8} {r r' : Receiver} {a : Arrival}
    (h : Receiving fd stream r) (hwf : a.WellFormed fd first stream r) (hok : a.InOrder fd r)
    (hstep : r.step fd a = some r') : Receiving fd stream r' := by
  cases a with
  | segment offset data size => exact receiving_segment h hwf hok hstep
  | recv size => exact receiving_recv h hstep

/-- **What `recv` returns is a prefix of the stream**, in every run in which each segment with
a payload finds no space or is the next one. -/
theorem recv_prefix_of_run {fd : ℕ} {first : U32} {stream : List U8} {r r' : Receiver}
    {arrivals : List Arrival} (hstart : Receiving fd stream r)
    (hok : Guarded (Receiver.step fd)
      (fun r a => a.WellFormed fd first stream r ∧ a.InOrder fd r) r arrivals)
    (hrun : run (Receiver.step fd) r arrivals = some r') : r'.returned <+: stream :=
  (List.prefix_append _ _).trans
    (run_invariant (fun _ _ _ h hok hstep => receiving_step h hok.1 hok.2 hstep)
      hstart hok hrun).stream

/-- A machine that has called `connect`, with its connection at 1. -/
def connected : Receiver where
  tcp := ((TCP.initializeTcp 0x0A000001).connect 0x0A000002 80).1
  returned := []

/-- The segment that the other side sends from `offset` on, after sequence number 5000. -/
def peerSegment (offset : ℕ) (payload : List U8) : Arrival :=
  let conn : TCPConnection :=
    { localIp := 0x0A000002, remoteIp := 0x0A000001, localPort := 80, remotePort := 49152
      state := .established, seqNumber := 5000 + BitVec.ofNat 32 offset, ackNumber := 0
      advertisedWindow := 8192, sendWindowStart := 0, sendWindowEnd := 8192
      recvBuffer := fun _ => 0, recvStart := 0, recvEnd := 0, recvCount := 0 }
  .segment offset (bufferOf (emit conn (tcpAck ||| tcpPsh) payload))
    (BitVec.ofNat 32 (20 + payload.length))

theorem receiving_connected (stream : List U8) : Receiving 1 stream connected where
  notNull := by decide
  found := by decide
  established := by decide
  ring := ⟨by decide, by decide, by decide⟩
  stream := List.nil_prefix

/-- Two segments in order, and calls of `recv` between and after them. -/
def inOrder : List Arrival :=
  [peerSegment 0 [0x61, 0x62], .recv 1, peerSegment 2 [0x63], .recv 100]

theorem recv_prefix_of_run_inOrder :
    ∃ r, run (Receiver.step 1) connected inOrder = some r ∧
      r.returned <+: [0x61, 0x62, 0x63] := by
  obtain ⟨r, hr⟩ : ∃ r, run (Receiver.step 1) connected inOrder = some r :=
    Option.isSome_iff_exists.mp (by decide +kernel)
  have hok : Guarded (Receiver.step 1)
      (fun r a => a.WellFormed 1 5000 [0x61, 0x62, 0x63] r ∧ a.InOrder 1 r) connected inOrder := by
    decide +kernel
  exact ⟨r, hr, recv_prefix_of_run (receiving_connected [0x61, 0x62, 0x63]) hok hr⟩

/-- One segment arrives twice. -/
def twice : List Arrival := [peerSegment 0 [0x61], peerSegment 0 [0x61], .recv 100]

/-- **A byte is returned twice.**  All segments are the peer's, but what `recv` returns is not a
prefix of the peer's stream. -/
theorem duplicate_returned :
    Guarded (Receiver.step 1) (fun r a => a.WellFormed 1 5000 [0x61, 0x62] r) connected twice ∧
      ∃ r, run (Receiver.step 1) connected twice = some r ∧ r.returned = [0x61, 0x61] ∧
        ¬ r.returned <+: [0x61, 0x62] := by
  have hrun : (run (Receiver.step 1) connected twice).map Receiver.returned =
      some [0x61, 0x61] := by
    decide +kernel
  obtain ⟨r, hr, hreturned⟩ := Option.map_eq_some_iff.mp hrun
  refine ⟨by decide +kernel, r, hr, hreturned, ?_⟩
  rw [hreturned]
  decide

end MesaOS.Net
