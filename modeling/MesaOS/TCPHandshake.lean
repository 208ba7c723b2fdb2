/-
Opening a connection and sending on it.

`connect` takes the handshake for granted, so the client never acknowledges the
server's `SYN`; the server takes the first data segment for that acknowledgment and
drops what is in it.  `Opening` is what the two machines do, without addresses, ports
and sequence numbers; they refine it (`models_send`, `models_receive`).

* `reached_step` — what has been sent is on its way or was taken by the server;
* `delivered_iff_of_run` — everything arrives exactly when the first call of `send`
  passes no bytes.
-/
import MesaOS.TCPListen
import MesaOS.TCPNetwork
import MesaOS.TCPSend

open MachineWord Runs FifoNetwork

namespace MesaOS.Net

/-- A call of `send`. -/
structure SendCall where
  data : ℕ → U8
  size : U32

/-- The bytes that are passed. -/
def SendCall.bytes (c : SendCall) : List U8 := (List.range c.size.toNat).map c.data

/-! ### The abstract connection -/

namespace Opening

/-- The client with the space left in its window, the server before the `SYN`, and the server's
connection with the bytes in its buffer. -/
inductive Party where
  | client (window : ℕ)
  | waiting
  | opened (established : Bool) (queue : List U8)

inductive Message where
  | syn
  | data (payload : List U8)
  | reply

/-- What a segment does, and the segments that answer it. -/
def react : Message → Party → Party × List Message
  | .syn, .waiting => (.opened false [], [.reply])
  | .data _, .opened false queue => (.opened true queue, [])
  | .data payload, .opened true queue =>
    (.opened true (queue ++ payload.take (4096 - queue.length)),
      if payload = [] then [] else [.reply])
  | _, party => (party, [])

/-- A call of `send`: bytes that do not fit into the window are not sent. -/
def send (bytes : List U8) : Party → Party × List Message
  | .client window =>
    if bytes ≠ [] ∧ window = 0 then (.client window, [])
    else (.client (window - bytes.length), [.data (bytes.take window)])
  | party => (party, [])

def step (n : Net Party Message) (e : Event SendCall) : Option (Net Party Message) :=
  n.step (fun _ c => send c.bytes) react e

/-- What the parties have done when the calls of `send` have passed `sent`: the server has not
seen the `SYN`, or it has taken the segments `done`. -/
structure Reached (sent : List (List U8)) (n : Net Party Message) : Prop where
  client : n.node .left = .client (8192 - sent.flatten.length)
  server : (n.node .right = .waiting ∧ n.inbox .right = .syn :: sent.map .data) ∨
    ∃ done pending, sent = done ++ pending ∧ n.inbox .right = pending.map .data ∧
      n.node .right = .opened (decide (done ≠ [])) done.tail.flatten

theorem react_client (m : Message) (window : ℕ) :
    react m (.client window) = (.client window, []) := by
  cases m <;> rfl

theorem reached_send {sent : List (List U8)} {n n' : Net Party Message} (h : Reached sent n)
    {c : SendCall} (htotal : (sent ++ [c.bytes]).flatten.length ≤ 4096)
    (hstep : step n (.call .left c) = some n') : Reached (sent ++ [c.bytes]) n' := by
  rw [List.flatten_append, List.flatten_singleton, List.length_append] at htotal
  have hsend : send c.bytes (n.node .left) =
      (.client (8192 - sent.flatten.length - c.bytes.length), [.data c.bytes]) := by
    rw [h.client, send, if_neg fun hfull => by have := hfull.2; omega,
      List.take_of_length_le (by omega)]
  rw [Net.call_cases hstep, hsend]
  constructor
  · rw [Net.after_node_self, List.flatten_append, List.flatten_singleton, List.length_append,
      Nat.sub_sub]
  · have hinbox := n.after_inbox_other .left
      (.client (8192 - sent.flatten.length - c.bytes.length)) (n.inbox .left) [.data c.bytes]
    have hnode := n.after_node_other .left
      (.client (8192 - sent.flatten.length - c.bytes.length)) (n.inbox .left) [.data c.bytes]
    rw [Side.other] at hinbox hnode
    rw [hinbox, hnode]
    rcases h.server with ⟨hwait, hbox⟩ | ⟨done, pending, rfl, hbox, hopened⟩
    · refine .inl ⟨hwait, ?_⟩
      rw [hbox, List.map_append]
      rfl
    · refine .inr ⟨done, pending ++ [c.bytes], List.append_assoc .., ?_, hopened⟩
      rw [hbox, List.map_append]
      rfl

/-- The client does not react to the server. -/
theorem reached_left {sent : List (List U8)} {n n' : Net Party Message} (h : Reached sent n)
    (hstep : step n (.deliver .left) = some n') : Reached sent n' := by
  obtain ⟨m, rest, -, rfl⟩ := Net.deliver_cases hstep
  rw [h.client, react_client]
  have hinbox := n.after_inbox_other .left (.client (8192 - sent.flatten.length)) rest []
  have hnode := n.after_node_other .left (.client (8192 - sent.flatten.length)) rest []
  rw [Side.other] at hinbox hnode
  refine ⟨Net.after_node_self .., ?_⟩
  rw [hinbox, hnode, List.append_nil]
  exact h.server

/-- The server takes the next segment. -/
theorem reached_right {sent : List (List U8)} {n n' : Net Party Message} (h : Reached sent n)
    (htotal : sent.flatten.length ≤ 4096) (hstep : step n (.deliver .right) = some n') :
    Reached sent n' := by
  obtain ⟨m, rest, hrest, rfl⟩ := Net.deliver_cases hstep
  have hclient : ∀ x out, (n.after .right x rest out).node .left =
      .client (8192 - sent.flatten.length) := fun x out =>
    (n.after_node_other .right x rest out).trans h.client
  rcases h.server with ⟨hwait, hbox⟩ | ⟨done, pending, rfl, hbox, hopened⟩
  · obtain ⟨rfl, rfl⟩ := List.cons_eq_cons.mp (hrest.symm.trans hbox)
    refine ⟨hclient _ _, .inr ⟨[], sent, rfl, Net.after_inbox_self .., ?_⟩⟩
    rw [hwait, Net.after_node_self]
    rfl
  · cases pending with
    | nil => exact absurd (hrest.symm.trans hbox) (by simp)
    | cons payload pending =>
      obtain ⟨rfl, rfl⟩ := List.cons_eq_cons.mp (hrest.symm.trans hbox)
      refine ⟨hclient _ _, .inr ⟨done ++ [payload], pending, by simp, Net.after_inbox_self .., ?_⟩⟩
      rw [hopened, Net.after_node_self]
      cases done with
      | nil => rfl
      | cons first done =>
        -- there still is space for all of the payload
        simp only [List.flatten_append, List.flatten_cons, List.length_append] at htotal
        rw [decide_eq_true (List.cons_ne_nil _ _), react, List.tail_cons,
          List.take_of_length_le (by omega), List.cons_append, List.tail_cons,
          List.flatten_append, List.flatten_singleton, decide_eq_true (List.cons_ne_nil _ _)]

/-- When nothing is on its way, the server has taken everything but the first payload. -/
theorem Reached.quiescent {sent : List (List U8)} {n : Net Party Message} (h : Reached sent n)
    (hquiet : n.Quiescent) :
    n.node .right = .opened (decide (sent ≠ [])) sent.tail.flatten := by
  rcases h.server with ⟨-, hbox⟩ | ⟨done, pending, rfl, hbox, hopened⟩
  · exact absurd ((hquiet .right).symm.trans hbox) (by simp)
  · have hpending : pending = [] := List.map_eq_nil_iff.mp (hbox.symm.trans (hquiet .right))
    rw [hopened, hpending, List.append_nil]

end Opening

/-! ### The machines -/

/-- The client's machine: the connection at `fd` is established, and found. -/
structure ClientAt (e : Ends) (fd window : ℕ) (t : TCP) : Prop where
  notNull : fd ≠ 0
  myIp : t.myIp = e.localIp
  lookup : t.lookup e = some fd
  established : (t.memory fd).state = .established
  available : (t.memory fd).availableWindow.toNat = window
  small : window ≤ 8192

/-- The server's machine before the `SYN`: it has no such connection, and will make one. -/
structure WaitingAt (e : Ends) (t : TCP) : Prop where
  myIp : t.myIp = e.localIp
  lookup : t.lookup e = none
  allocated : t.Allocated
  admits : t.Admits

/-- The server's machine behind the `SYN`. -/
structure OpenedAt (e : Ends) (state : TCPState) (queue : List U8) (t : TCP) : Prop where
  myIp : t.myIp = e.localIp
  conn : ∃ p, t.lookup e = some p ∧ (t.memory p).state = state ∧ (t.memory p).RingOk ∧
    (t.memory p).queued = queue

/-- What is stored at the connection that a segment finds. -/
theorem OpenedAt.put {e : Ends} {t : TCP} {p : ℕ} {conn : TCPConnection} {state : TCPState}
    {queue : List U8} (hip : t.myIp = e.localIp) (hlookup : t.lookup e = some p)
    (hends : (t.memory p).SameEnds conn) (hstate : conn.state = state) (hring : conn.RingOk)
    (hqueued : conn.queued = queue) : OpenedAt e state queue (t.put p conn) := by
  refine ⟨hip, p, (TCP.lookup_put hends e).trans hlookup, ?_⟩
  rw [TCP.put_memory_self]
  exact ⟨hstate, hring, hqueued⟩

namespace Opening

/-- The machine on one side does what the party does. -/
def Models (e : Ends) (fd : ℕ) : Side → TCP → Party → Prop
  | .left, t, .client window => ClientAt e fd window t
  | .right, t, .waiting => WaitingAt e.mirror t
  | .right, t, .opened established queue =>
    OpenedAt e.mirror (if established then .established else .synReceived) queue t
  | _, _, _ => False

/-- The packet to one side carries the segment. -/
def Carries (e : Ends) : Side → Packet → Message → Prop
  | .right, packet, .syn => Conveys e.mirror tcpSyn [] packet
  | .right, packet, .data payload => Conveys e.mirror (tcpAck ||| tcpPsh) payload packet
  | .left, packet, .reply => ∃ flags, Conveys e flags [] packet ∧ hasFlag flags tcpFin = false
  | _, _, _ => False

variable {e : Ends} {fd : ℕ} {t : TCP}

/-- **`send` on the client's machine.** -/
theorem models_send {window : ℕ} (h : ClientAt e fd window t) (c : SendCall) :
    Models e fd .left (t.send fd c.data c.size).1 (send c.bytes (.client window)).1 ∧
      List.Forall₂ (Carries e .right) (t.send fd c.data c.size).2.2
        (send c.bytes (.client window)).2 := by
  have hclamp := TCPConnection.toNat_clampSize h.established c.size
  rw [h.available] at hclamp
  have hlength : c.bytes.length = c.size.toNat := by
    rw [SendCall.bytes, List.length_map, List.length_range]
  have hat : (t.memory fd).At e := TCP.matches_of_findConnection h.lookup
  have hsmall := h.small
  rw [TCP.send, send]
  dsimp only
  rw [if_neg (not_or.mpr ⟨h.notNull, not_not.mpr h.established⟩)]
  by_cases hfull : c.bytes ≠ [] ∧ window = 0
  · have hsize : c.size > 0 := by
      refine BitVec.lt_def.mpr ?_
      rw [← hlength]
      exact List.length_pos_iff.mpr hfull.1
    have hzero : (t.memory fd).clampSize c.size = 0 := by
      refine BitVec.eq_of_toNat_eq ?_
      rw [hclamp, hfull.2, Nat.min_zero]
      rfl
    rw [if_pos hfull, TCPConnection.sendPacket_of_full _ _ _ ⟨hsize, h.established, hzero⟩,
      TCP.put_self]
    exact ⟨h, .nil⟩
  · have hspace : ¬ (c.size > 0 ∧ (t.memory fd).state = .established ∧
        (t.memory fd).clampSize c.size = 0) := by
      rintro ⟨hsize, -, hzero⟩
      have hpos : 0 < c.size.toNat := BitVec.lt_def.mp hsize
      rw [hzero, show (0 : U32).toNat = 0 from rfl] at hclamp
      exact hfull ⟨List.length_pos_iff.mp (by omega), by omega⟩
    rw [if_neg hfull, TCPConnection.sendPacket_of_space _ _ _ hspace, if_pos h.established, h.myIp]
    have hpayload : (List.range ((t.memory fd).clampSize c.size).toNat).map c.data =
        c.bytes.take window := by
      rw [hclamp, SendCall.bytes, ← List.map_take, List.take_range, Nat.min_comm]
    refine ⟨⟨h.notNull, h.myIp, ?_, ?_, ?_, by omega⟩, .cons ?_ .nil⟩
    · refine (TCP.lookup_put ?_ e).trans h.lookup
      exact ⟨rfl, rfl, rfl, rfl⟩
    · rw [TCP.put_memory_self]
      exact h.established
    · have hwindow := h.available
      rw [TCP.put_memory_self, hlength]
      rw [TCPConnection.availableWindow] at hwindow ⊢
      dsimp only
      generalize (t.memory fd).clampSize c.size = n at hclamp ⊢
      rw [show (t.memory fd).sendWindowEnd - ((t.memory fd).sendWindowStart + n) =
        (t.memory fd).sendWindowEnd - (t.memory fd).sendWindowStart - n by bv_omega,
        BitVec.toNat_sub_of_le (BitVec.le_def.mpr (by omega))]
      omega
    · rw [hpayload]
      exact conveys_emit _ hat _ _ (by rw [List.length_take]; omega)

/-- **A segment of the server on the client's machine.** -/
theorem models_reply {window : ℕ} (h : ClientAt e fd window t) {packet : Packet}
    (hpacket : ∃ flags, Conveys e flags [] packet ∧ hasFlag flags tcpFin = false) :
    ClientAt e fd window (t.receive packet).1 ∧ (t.receive packet).2 = [] := by
  obtain ⟨flags, hconveys, hfin⟩ := hpacket
  obtain ⟨number, hreceive⟩ := hconveys.receive h.myIp h.lookup
  rw [hreceive]
  set conn : TCPConnection := { t.memory fd with ackNumber := number }
  have hkeeps := conn.keeps_switchState t.myIp flags (bufferOf [])
    (BitVec.ofNat 32 ([] : List U8).length)
  obtain ⟨conn', hswitch, hstate⟩ := conn.switchState_plain h.established t.myIp hfin (bufferOf [])
    (BitVec.ofNat 32 ([] : List U8).length)
  have hempty : BitVec.ofNat 32 ([] : List U8).length = 0 := rfl
  rw [hswitch] at hkeeps ⊢
  rw [TCP.finish_false, if_pos hempty]
  refine ⟨⟨h.notNull, h.myIp, ?_, ?_, ?_, h.small⟩, rfl⟩
  · refine (TCP.lookup_put ?_ e).trans h.lookup
    have hself : (t.memory fd).SameEnds conn := ⟨rfl, rfl, rfl, rfl⟩
    exact hself.trans hkeeps.ends
  · rw [TCP.put_memory_self]
    exact hstate
  · rw [TCP.put_memory_self, TCPConnection.availableWindow, hkeeps.sendWindowStart,
      hkeeps.sendWindowEnd]
    exact h.available

/-- **The `SYN` on the server's machine.** -/
theorem models_syn (h : WaitingAt e t) {packet : Packet} (hsyn : Conveys e tcpSyn [] packet) :
    OpenedAt e .synReceived [] (t.receive packet).1 ∧
      ∃ reply, (t.receive packet).2 = [reply] ∧
        Conveys e.mirror (tcpSyn ||| tcpAck) [] reply := by
  obtain ⟨u, hip, hlookup, hat, hlisten, hring, hqueued, number, hreceive⟩ :=
    hsyn.receive_syn h.myIp h.lookup (by decide) h.allocated h.admits
  have hflag : hasFlag tcpSyn tcpSyn = true := by decide
  rw [hreceive, TCPConnection.switchState]
  dsimp only
  rw [hlisten]
  dsimp only
  rw [if_pos hflag, TCPConnection.sendFlags_eq, TCP.finish_false, hip, h.myIp]
  refine ⟨.put (hip.trans h.myIp) hlookup ⟨rfl, rfl, rfl, rfl⟩ rfl ?_ hqueued, _, rfl, ?_⟩
  · exact ⟨hring.start, hring.count, hring.fin⟩
  · exact conveys_emit { u.memory t.nextPointer with
      ackNumber := number, state := .synReceived } hat _ _ (by decide)

/-- **The first data segment** on the server's machine. -/
theorem models_first {queue : List U8} (h : OpenedAt e .synReceived queue t) {packet : Packet}
    {payload : List U8} (hdata : Conveys e (tcpAck ||| tcpPsh) payload packet) :
    OpenedAt e .established queue (t.receive packet).1 ∧ (t.receive packet).2 = [] := by
  obtain ⟨p, hlookup, hstate, hring, hqueued⟩ := h.conn
  obtain ⟨number, hreceive⟩ := hdata.receive h.myIp hlookup
  rw [hreceive]
  set conn : TCPConnection := { t.memory p with ackNumber := number }
  rw [conn.switchState_synReceived hstate _ (by decide), TCP.finish_false]
  refine ⟨.put h.myIp hlookup ⟨rfl, rfl, rfl, rfl⟩ rfl ?_ hqueued, rfl⟩
  exact ⟨hring.start, hring.count, hring.fin⟩

/-- **A later segment** on the server's machine. -/
theorem models_next {queue : List U8} (h : OpenedAt e .established queue t) {packet : Packet}
    {flags : U8} (hfin : hasFlag flags tcpFin = false) {payload : List U8}
    (hdata : Conveys e flags payload packet) :
    OpenedAt e .established (queue ++ payload.take (4096 - queue.length)) (t.receive packet).1 ∧
      if payload = [] then (t.receive packet).2 = []
      else ∃ reply, (t.receive packet).2 = [reply] ∧ Conveys e.mirror tcpAck [] reply := by
  obtain ⟨p, hlookup, hstate, hring, hqueued⟩ := h.conn
  have hat : (t.memory p).At e := TCP.matches_of_findConnection hlookup
  have hshort := hdata.short
  obtain ⟨number, hreceive⟩ := hdata.receive h.myIp hlookup
  rw [hreceive]
  set conn : TCPConnection := { t.memory p with ackNumber := number }
  have hends := conn.sameEnds_switchState t.myIp flags (bufferOf payload)
    (BitVec.ofNat 32 payload.length)
  obtain ⟨-, -, hring', hqueued'⟩ := conn.switchState_data hstate
    ⟨hring.start, hring.count, hring.fin⟩ t.myIp hfin (bufferOf payload)
    (BitVec.ofNat 32 payload.length)
  obtain ⟨conn', hswitch, hstate'⟩ := conn.switchState_plain hstate t.myIp hfin
    (bufferOf payload) (BitVec.ofNat 32 payload.length)
  rw [hswitch] at hends hring' hqueued' ⊢
  rw [TCP.finish_false, h.myIp]
  have hself : (t.memory p).SameEnds conn := ⟨rfl, rfl, rfl, rfl⟩
  refine ⟨.put h.myIp hlookup (hself.trans hends) hstate' hring' ?_, ?_⟩
  · have hlength : (BitVec.ofNat 32 payload.length).toNat = payload.length := by
      rw [BitVec.toNat_ofNat, Nat.mod_eq_of_lt (by omega)]
    have hread := map_bufferOf_append payload []
    have hcount : queue.length = conn.recvCount.toNat := by
      rw [← hqueued]
      exact length_queued _
    rw [List.append_nil] at hread
    rw [hlength, hread] at hqueued'
    rw [hcount]
    exact hqueued'.trans (congrArg (· ++ _) hqueued)
  · by_cases hempty : payload = []
    · rw [if_pos hempty, hempty]
      rfl
    · have hsize : BitVec.ofNat 32 payload.length ≠ 0 := by
        have := List.length_pos_iff.mpr hempty
        intro hzero
        bv_omega
      rw [if_neg hempty, if_neg hsize]
      exact ⟨_, rfl, conveys_emit _ ((hends.at_iff e).mpr hat) _ _ (by decide)⟩

/-- A second `SYN` is ignored. -/
theorem models_syn_again {queue : List U8} (h : OpenedAt e .synReceived queue t) {packet : Packet}
    (hsyn : Conveys e tcpSyn [] packet) :
    OpenedAt e .synReceived queue (t.receive packet).1 ∧ (t.receive packet).2 = [] := by
  obtain ⟨p, hlookup, hstate, hring, hqueued⟩ := h.conn
  obtain ⟨number, hreceive⟩ := hsyn.receive h.myIp hlookup
  have hflag : hasFlag tcpSyn tcpAck = false := by decide
  rw [hreceive, TCPConnection.switchState]
  dsimp only
  rw [hstate]
  dsimp only
  rw [hflag, if_neg Bool.false_ne_true, TCP.finish_false]
  refine ⟨.put h.myIp hlookup ⟨rfl, rfl, rfl, rfl⟩ rfl ?_ hqueued, rfl⟩
  exact ⟨hring.start, hring.count, hring.fin⟩

/-- **A segment**: the machine answers as the party does. -/
theorem models_receive {s : Side} {x : Party} {packet : Packet} {m : Message}
    (hm : Carries e s packet m) (h : Models e fd s t x) :
    Models e fd s (t.receive packet).1 (react m x).1 ∧
      List.Forall₂ (Carries e s.other) (t.receive packet).2 (react m x).2 := by
  cases s with
  | left =>
    cases x with
    | client window =>
      cases m with
      | reply =>
        obtain ⟨hclient, hout⟩ := models_reply h hm
        rw [hout]
        exact ⟨hclient, .nil⟩
      | syn => exact hm.elim
      | data payload => exact hm.elim
    | waiting => exact h.elim
    | opened established queue => exact h.elim
  | right =>
    cases x with
    | client window => exact h.elim
    | waiting =>
      cases m with
      | syn =>
        obtain ⟨hopened, reply, hout, hreply⟩ := models_syn h hm
        rw [hout]
        exact ⟨hopened, .cons ⟨_, hreply, by decide⟩ .nil⟩
      | data payload =>
        rw [Conveys.receive_unknown hm h.myIp h.lookup (by decide)]
        exact ⟨h, .nil⟩
      | reply => exact hm.elim
    | opened established queue =>
      cases m with
      | syn =>
        cases established with
        | false =>
          obtain ⟨hopened, hout⟩ := models_syn_again h hm
          rw [hout]
          exact ⟨hopened, .nil⟩
        | true =>
          obtain ⟨hopened, hout⟩ := models_next h (by decide) hm
          rw [if_pos rfl] at hout
          rw [hout]
          rw [List.take_nil, List.append_nil] at hopened
          exact ⟨hopened, .nil⟩
      | data payload =>
        cases established with
        | false =>
          obtain ⟨hopened, hout⟩ := models_first h hm
          rw [hout]
          exact ⟨hopened, .nil⟩
        | true =>
          obtain ⟨hopened, hout⟩ := models_next h (by decide) hm
          refine ⟨hopened, ?_⟩
          rw [react]
          by_cases hempty : payload = []
          · rw [if_pos hempty] at hout ⊢
            rw [hout]
            exact .nil
          · rw [if_neg hempty] at hout ⊢
            obtain ⟨reply, hout, hreply⟩ := hout
            rw [hout]
            exact .cons ⟨_, hreply, by decide⟩ .nil
      | reply => exact hm.elim

end Opening

/-! ### Runs of the machines -/

/-- The client calls `send` with the socket `fd`, or a segment arrives. -/
def sendStep (fd : ℕ) (n : Net TCP Packet) (e : Event SendCall) : Option (Net TCP Packet) :=
  n.step (fun _ c t => let (t, _, out) := t.send fd c.data c.size; (t, out))
    (fun packet t => t.receive packet) e

/-- The network, and what the calls of `send` have passed. -/
structure Session where
  net : Net TCP Packet
  sent : List (List U8)

/-- The client's program calls `send`, or a segment arrives at a machine. -/
inductive Exchange where
  | send (data : ℕ → U8) (size : U32)
  | deliver (s : Side)

def Session.step (fd : ℕ) (s : Session) : Exchange → Option Session
  | .send data size =>
    (sendStep fd s.net (.call .left ⟨data, size⟩)).map fun net =>
      { net := net, sent := s.sent ++ [(⟨data, size⟩ : SendCall).bytes] }
  | .deliver side => (sendStep fd s.net (.deliver side)).map fun net => { s with net := net }

/-- The client, on the left, has called `connect`. -/
def Session.start (client server : TCP) (port : U16) : Session where
  net :=
    { node := fun
        | .left => (client.connect server.myIp port).1
        | .right => server
      inbox := fun
        | .left => []
        | .right => (client.connect server.myIp port).2.2 }
  sent := []

/-- The ends of the connection, as the client sees them. -/
def clientEnds (client server : TCP) (port : U16) : Ends where
  localIp := client.myIp
  remoteIp := server.myIp
  localPort := client.nextEphemeralPort
  remotePort := port

/-- The client can connect to the server, which does not have this connection yet and does not
take its `SYN` for a part of a flood. -/
structure Ready (client server : TCP) (port : U16) : Prop where
  notNull : client.nextPointer ≠ 0
  allocated : client.Allocated
  waiting : WaitingAt (clientEnds client server port).mirror server

/-- The server's connection is established if something was sent, and its buffer holds exactly
what was passed to `send`. -/
def Session.Delivered (e : Ends) (s : Session) : Prop :=
  ∃ p, (s.net.node .right).lookup e.mirror = some p ∧
    (s.sent ≠ [] → ((s.net.node .right).memory p).state = .established) ∧
    ((s.net.node .right).memory p).queued = s.sent.flatten

namespace Opening

/-- The machines do what the parties do. -/
def NetModels (e : Ends) (fd : ℕ) : Net TCP Packet → Net Party Message → Prop :=
  Net.Refines (Models e fd) (Carries e)

/-- **One step of the machines is a step of the parties.** -/
theorem NetModels.step {e : Ends} {fd : ℕ} {n n' : Net TCP Packet} {m : Net Party Message}
    (h : NetModels e fd n m) {ev : Event SendCall} (hclient : ∀ s c, ev = .call s c → s = .left)
    (hstep : sendStep fd n ev = some n') :
    ∃ m', Opening.step m ev = some m' ∧ NetModels e fd n' m' := by
  refine Net.Refines.step (fun s _ => s = .left) ?_ ?_ h hclient hstep
  · rintro s c t x rfl ht
    cases x with
    | client window => exact models_send ht c
    | waiting => exact ht.elim
    | opened established queue => exact ht.elim
  · exact fun s packet a t x ha ht => models_receive ha ht

/-- **`connect`** makes an established connection and sends a `SYN`. -/
theorem connect_spec {client : TCP} (server : TCP) (port : U16) (hnull : client.nextPointer ≠ 0)
    (halloc : client.Allocated) :
    ClientAt (clientEnds client server port) client.nextPointer 8192
        (client.connect server.myIp port).1 ∧
      ∃ packet, (client.connect server.myIp port).2.2 = [packet] ∧
        Conveys (clientEnds client server port).mirror tcpSyn [] packet := by
  have ht : ({ client with nextEphemeralPort := client.nextEphemeralPort + 1 } : TCP).Allocated :=
    halloc
  rw [TCP.connect, TCP.createConnection]
  dsimp only
  rw [Function.update_self, TCPConnection.sendFlags_eq]
  refine ⟨⟨hnull, rfl, ?_, ?_, ?_, Nat.le_refl _⟩, _, rfl, conveys_emit _ ⟨rfl, rfl, rfl, rfl⟩ _ _
    (by decide)⟩
  · refine (TCP.lookup_put ?_ _).trans ?_
    · dsimp only
      rw [Function.update_self]
      exact ⟨rfl, rfl, rfl, rfl⟩
    · exact (TCP.findConnection_createConnection ht ..).trans (if_pos ⟨rfl, rfl, rfl, rfl⟩)
  · rw [TCP.put_memory_self]
  · have hwindow : ((0x12345678 + tcpDefaultWindowSize : U32) - 0x12345678).toNat = 8192 := by decide
    rw [TCP.put_memory_self]
    exact hwindow

/-- The beginning. -/
theorem exists_start {client server : TCP} {port : U16} (h : Ready client server port) :
    ∃ m, NetModels (clientEnds client server port) client.nextPointer
      (Session.start client server port).net m ∧ Reached [] m := by
  obtain ⟨hclient, packet, hout, hsyn⟩ := connect_spec server port h.notNull h.allocated
  refine ⟨⟨fun | .left => .client 8192 | .right => .waiting,
    fun | .left => [] | .right => [.syn]⟩, ⟨?_, ?_⟩, ⟨rfl, .inl ⟨rfl, rfl⟩⟩⟩
  · rintro (_ | _)
    · exact hclient
    · exact h.waiting
  · rintro (_ | _)
    · exact .nil
    · rw [Session.start]
      dsimp only
      rw [hout]
      exact .cons hsyn .nil

/-- A step of the session, on both levels. -/
theorem session_step {e : Ends} {fd : ℕ} {s s' : Session} {a : Exchange}
    (hstep : s.step fd a = some s')
    (h : s.sent.flatten.length ≤ 4096 → ∃ m, NetModels e fd s.net m ∧ Reached s.sent m)
    (htotal : s'.sent.flatten.length ≤ 4096) :
    ∃ m, NetModels e fd s'.net m ∧ Reached s'.sent m := by
  cases a with
  | send data size =>
    rw [Session.step] at hstep
    obtain ⟨net, hnet, rfl⟩ := Option.map_eq_some_iff.mp hstep
    have hbefore : s.sent.flatten.length ≤ 4096 := by
      rw [List.flatten_append, List.length_append] at htotal
      omega
    obtain ⟨m, hm, hreached⟩ := h hbefore
    obtain ⟨m', hm', hmodels⟩ := hm.step (fun _ _ hcall => by cases hcall; rfl) hnet
    exact ⟨m', hmodels, reached_send hreached htotal hm'⟩
  | deliver side =>
    rw [Session.step] at hstep
    obtain ⟨net, hnet, rfl⟩ := Option.map_eq_some_iff.mp hstep
    obtain ⟨m, hm, hreached⟩ := h htotal
    obtain ⟨m', hm', hmodels⟩ := hm.step (fun _ _ hcall => by cases hcall) hnet
    cases side with
    | left => exact ⟨m', hmodels, reached_left hreached hm'⟩
    | right => exact ⟨m', hmodels, reached_right hreached htotal hm'⟩

/-- The server's connection when nothing is on its way. -/
theorem session_quiescent {client server : TCP} {port : U16} (h : Ready client server port)
    {acts : List Exchange} {s : Session}
    (hrun : run (Session.step client.nextPointer) (Session.start client server port) acts = some s)
    (htotal : s.sent.flatten.length ≤ 4096) (hquiet : s.net.Quiescent) :
    OpenedAt (clientEnds client server port).mirror
      (if s.sent ≠ [] then .established else .synReceived) s.sent.tail.flatten
      (s.net.node .right) := by
  obtain ⟨m, hm, hreached⟩ := run_keeps (P := fun s => s.sent.flatten.length ≤ 4096 →
      ∃ m, NetModels (clientEnds client server port) client.nextPointer s.net m ∧ Reached s.sent m)
    (fun _ _ _ h hstep => session_step hstep h) (fun _ => exists_start h) hrun htotal
  have hserver := hm.node .right
  rw [hreached.quiescent (Net.Refines.quiescent hm hquiet)] at hserver
  by_cases hsent : s.sent ≠ []
  · rw [if_pos hsent]
    rw [decide_eq_true hsent] at hserver
    exact hserver
  · rw [if_neg hsent]
    rw [decide_eq_false hsent] at hserver
    exact hserver

end Opening

/-- **When everything arrives**: when the first call of `send` passes no bytes. -/
theorem delivered_iff_of_run {client server : TCP} {port : U16} (h : Ready client server port)
    {acts : List Exchange} {s : Session}
    (hrun : run (Session.step client.nextPointer) (Session.start client server port) acts = some s)
    (htotal : s.sent.flatten.length ≤ 4096) (hquiet : s.net.Quiescent) :
    s.Delivered (clientEnds client server port) ↔ ∀ first ∈ s.sent.head?, first = [] := by
  obtain ⟨-, p, hlookup, hstate, -, hqueued⟩ := Opening.session_quiescent h hrun htotal hquiet
  have hall : s.sent.tail.flatten = s.sent.flatten ↔ ∀ first ∈ s.sent.head?, first = [] := by
    cases s.sent with
    | nil => simp
    | cons first rest =>
      rw [List.tail_cons, List.flatten_cons, List.self_eq_append_left]
      simp
  rw [← hall]
  constructor
  · rintro ⟨q, hq, -, hbuffer⟩
    obtain rfl : p = q := Option.some_inj.mp (hlookup.symm.trans hq)
    exact hqueued.symm.trans hbuffer
  · intro heq
    refine ⟨p, hlookup, fun hsent => ?_, hqueued.trans heq⟩
    rw [hstate, if_pos hsent]

def firstMachine : TCP := TCP.initializeTcp 0x0A000001

def secondMachine : TCP := TCP.initializeTcp 0x0A000002

theorem ready_machines : Ready firstMachine secondMachine 80 where
  notNull := by decide
  allocated := List.forall_mem_nil _
  waiting := ⟨rfl, rfl, List.forall_mem_nil _, by decide⟩

/-- A segment without data, and one with three bytes, between the segments of the handshake. -/
def emptySegmentFirst : List Exchange :=
  [.send (fun _ => 0) 0, .deliver .right, .send (fun _ => 0x61) 3, .deliver .right, .deliver .left,
    .deliver .right, .deliver .left]

theorem delivered_iff_of_run_emptySegmentFirst :
    ∃ s, run (Session.step 1) (Session.start firstMachine secondMachine 80) emptySegmentFirst =
        some s ∧
      s.net.Quiescent ∧ s.Delivered (clientEnds firstMachine secondMachine 80) := by
  have hvalues : (run (Session.step 1) (Session.start firstMachine secondMachine 80)
      emptySegmentFirst).map (fun s => (s.sent, decide s.net.Quiescent)) =
        some ([[], [0x61, 0x61, 0x61]], true) := by
    decide +kernel
  obtain ⟨s, hs, hvalues⟩ := Option.map_eq_some_iff.mp hvalues
  obtain ⟨hsent, hquiet⟩ := Prod.mk.inj hvalues
  have hquiet := of_decide_eq_true hquiet
  refine ⟨s, hs, hquiet, (delivered_iff_of_run ready_machines hs ?_ hquiet).mpr ?_⟩
  · rw [hsent]
    decide
  · rw [hsent]
    decide

/-- **A byte that is passed to the first call of `send` is lost.** -/
theorem first_byte_lost :
    Ready firstMachine secondMachine 80 ∧
    ∃ s, run (Session.step 1) (Session.start firstMachine secondMachine 80)
        [.send (fun _ => 0x61) 1, .deliver .right, .deliver .right, .deliver .left] = some s ∧
      s.sent = [[0x61]] ∧ s.net.Quiescent ∧
      ¬ s.Delivered (clientEnds firstMachine secondMachine 80) := by
  have hvalues : (run (Session.step 1) (Session.start firstMachine secondMachine 80)
      [.send (fun _ => 0x61) 1, .deliver .right, .deliver .right, .deliver .left]).map (fun s =>
        ((s.sent, decide s.net.Quiescent),
          ((s.net.node .right).lookup (clientEnds firstMachine secondMachine 80).mirror,
            ((s.net.node .right).memory 1).recvCount))) =
        some (([[0x61]], true), (some 1, 0)) := by
    decide +kernel
  obtain ⟨s, hs, hvalues⟩ := Option.map_eq_some_iff.mp hvalues
  simp only [Prod.mk.injEq] at hvalues
  obtain ⟨⟨hsent, hquiet⟩, hlookup, hcount⟩ := hvalues
  refine ⟨ready_machines, s, hs, hsent, of_decide_eq_true hquiet, ?_⟩
  rintro ⟨p, hp, -, hqueued⟩
  obtain rfl : 1 = p := Option.some_inj.mp (hlookup.symm.trans hp)
  have hlength := congrArg List.length hqueued
  rw [length_queued, hcount, hsent] at hlength
  exact absurd hlength (by decide)

end MesaOS.Net
