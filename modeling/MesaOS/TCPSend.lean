/-
What `TCP::send` returns, and the send window.

`send` returns the size it was given, `send_packet` cuts the payload off at the end
of the window, and the window never moves on: `handle_packet` does not look at the
acknowledgment number.  So a connection can send 8192 bytes in all.

* `send_spec` — one call of `send`;
* `truthful_iff_of_run` — the results of `send` are right as long as the sizes fit
  into the window;
* `freeWindow_iff_of_run` — the window is as large as it should be until the peer
  acknowledges the first byte.
-/
import MesaOS.Runs
import MesaOS.TCPLookup
import MesaOS.TCPSegment

open MachineWord Runs

namespace MesaOS.Net

/-! ### One call -/

/-- The number of payload bytes in packets of `send_packet`. -/
def payloadSize (out : List Packet) : ℕ := (out.map fun packet => packet.bytes.length - 20).sum

/-- `send_window_end - send_window_start` -/
def TCPConnection.availableWindow (conn : TCPConnection) : U32 :=
  conn.sendWindowEnd - conn.sendWindowStart

theorem TCPConnection.toNat_clampSize {conn : TCPConnection} (hstate : conn.state = .established)
    (dataSize : U32) :
    (conn.clampSize dataSize).toNat = min dataSize.toNat conn.availableWindow.toNat := by
  have hlength := congrArg List.length (conn.map_range_clampSize (fun _ => 0) dataSize)
  rw [truncated, if_pos hstate, List.length_map, List.length_range, List.length_take,
    List.length_map, List.length_range, Nat.min_comm] at hlength
  exact hlength

/-- `send` on an established connection: what is emitted is taken from the window, but the
result is the size. -/
theorem TCP.send_spec (t : TCP) {fd : ℕ} (hfd : fd ≠ 0)
    (hstate : (t.memory fd).state = .established) (data : ℕ → U8) (size : U32) :
    ∃ conn out, t.send fd data size = (t.put fd conn, some size, out) ∧
      payloadSize out = ((t.memory fd).clampSize size).toNat ∧
      conn.state = .established ∧
      conn.sendWindowStart = (t.memory fd).sendWindowStart + (t.memory fd).clampSize size ∧
      conn.sendWindowEnd = (t.memory fd).sendWindowEnd := by
  rw [send]
  dsimp only
  rw [if_neg (not_or.mpr ⟨hfd, not_not.mpr hstate⟩)]
  by_cases hfull : size > 0 ∧ (t.memory fd).state = .established ∧ (t.memory fd).clampSize size = 0
  · rw [TCPConnection.sendPacket_of_full _ _ _ hfull, hfull.2.2]
    exact ⟨_, _, rfl, rfl, hstate, (BitVec.add_zero _).symm, rfl⟩
  · rw [TCPConnection.sendPacket_of_space _ _ _ hfull, if_pos hstate]
    refine ⟨_, _, rfl, ?_, hstate, rfl, rfl⟩
    rw [payloadSize, List.map_singleton, List.sum_singleton, length_emit, List.length_map,
      List.length_range, Nat.add_sub_cancel_left]

/-! ### Runs -/

/-- The machine, and for each call of `send` its result and the number of payload bytes that it
emitted.  Of these bytes, the first of which has sequence number `first`, the peer has
acknowledged `acked`. -/
structure Sender where
  tcp : TCP
  calls : List (ℤ × ℕ)
  first : U32
  acked : ℕ

/-- A call of `send`, or a segment that arrives from any host. -/
inductive Traffic where
  | send (data : ℕ → U8) (size : U32)
  | segment (srcIp : U32) (data : ℕ → U8) (size : U32)

/-- The payload bytes emitted so far. -/
def Sender.sent (s : Sender) : ℕ := (s.calls.map Prod.snd).sum

/-- The bytes that a segment acknowledges for the first time: those from the first byte not yet
acknowledged up to the acknowledgment number, if they have been sent. -/
def Sender.acknowledges (fd : ℕ) (s : Sender) (srcIp : U32) (data : ℕ → U8) (size : U32) : ℕ :=
  let n := (TCPHeader.ackNumber data - (s.first + BitVec.ofNat 32 s.acked)).toNat
  if s.tcp.Reaches fd srcIp data size ∧ hasFlag (TCPHeader.flags data) tcpAck ∧
    n ≤ s.sent - s.acked then n else 0

def Sender.step (fd : ℕ) (s : Sender) : Traffic → Option Sender
  | .send data size =>
    let (tcp, result, out) := s.tcp.send fd data size
    some { s with
      tcp := tcp
      calls := s.calls ++ [((result.map BitVec.toInt).getD (-1), payloadSize out)] }
  | .segment srcIp data size =>
    some { s with
      tcp := (s.tcp.handlePacket srcIp data size).1
      acked := s.acked + s.acknowledges fd srcIp data size }

/-- The connection is `ESTABLISHED`. -/
def Sender.Established (fd : ℕ) (s : Sender) (_ : Traffic) : Prop :=
  (s.tcp.memory fd).state = .established

instance (fd : ℕ) (s : Sender) (a : Traffic) : Decidable (s.Established fd a) :=
  inferInstanceAs (Decidable (_ = _))

/-! ### The results of `send` -/

/-- Each call returned the number of payload bytes that it emitted; so do all calls together. -/
def Sender.Truthful (s : Sender) : Prop :=
  (∀ call ∈ s.calls, call.1 = call.2) ∧ (s.calls.map Prod.fst).sum = s.sent

/-- What `send` is given fits into the window, and into an `int`. -/
def Traffic.Fits (fd : ℕ) (s : Sender) : Traffic → Prop
  | .send _ size => size.toNat ≤ (s.tcp.memory fd).availableWindow.toNat ∧ size.toNat < 2 ^ 31
  | .segment _ _ _ => True

instance Traffic.decidableFits (fd : ℕ) (s : Sender) :
    (a : Traffic) → Decidable (a.Fits fd s)
  | .send _ _ => inferInstanceAs (Decidable (_ ∧ _))
  | .segment _ _ _ => inferInstanceAs (Decidable True)

theorem Sender.truthful_iff (s : Sender) :
    s.Truthful ↔ ∀ call ∈ s.calls, call.1 = call.2 := by
  refine ⟨And.left, fun h => ⟨h, ?_⟩⟩
  have hmap : s.calls.map Prod.fst = (s.calls.map Prod.snd).map ((↑) : ℕ → ℤ) := by
    rw [List.map_map]
    exact List.map_congr_left fun call hcall => h call hcall
  rw [hmap, sent]
  generalize s.calls.map Prod.snd = sizes
  induction sizes with
  | nil => rfl
  | cons size sizes ih => rw [List.map_cons, List.sum_cons, List.sum_cons, ih, Nat.cast_add]

/-- A size is what is emitted of it when it fits. -/
theorem toInt_eq_min_iff (size : U32) (window : ℕ) :
    size.toInt = (min size.toNat window : ℕ) ↔ size.toNat ≤ window ∧ size.toNat < 2 ^ 31 := by
  have hlt := size.isLt
  rw [BitVec.toInt_eq_toNat_cond]
  split <;> omega

theorem Sender.truthful_step {fd : ℕ} (hfd : fd ≠ 0) {s s' : Sender} {a : Traffic}
    (hwf : s.Established fd a) (hstep : s.step fd a = some s') :
    s'.Truthful ↔ s.Truthful ∧ a.Fits fd s := by
  rw [truthful_iff, truthful_iff]
  cases a with
  | send data size =>
    obtain ⟨conn, out, hsend, hout, -⟩ := s.tcp.send_spec hfd hwf data size
    rw [step, hsend, Option.some_inj] at hstep
    subst hstep
    rw [List.forall_mem_append, List.forall_mem_singleton, hout,
      TCPConnection.toNat_clampSize hwf, Option.map_some, Option.getD_some, toInt_eq_min_iff]
    rfl
  | segment srcIp data size =>
    rw [step, Option.some_inj] at hstep
    subst hstep
    exact (and_iff_left trivial).symm

/-- **When the results of `send` are right**: when each size fits into what is left of the window
at the call. -/
theorem truthful_iff_of_run {fd : ℕ} (hfd : fd ≠ 0) {s s' : Sender} {acts : List Traffic}
    (hcalls : s.calls = []) (hwf : Guarded (Sender.step fd) (Sender.Established fd) s acts)
    (hrun : run (Sender.step fd) s acts = some s') :
    s'.Truthful ↔ Guarded (Sender.step fd) (fun s a => a.Fits fd s) s acts := by
  have hstart : s.Truthful := by
    rw [Sender.truthful_iff, hcalls]
    exact fun call hcall => absurd hcall List.not_mem_nil
  have hiff := run_iff_guarded (I := fun _ => True) (fun _ _ _ _ _ _ => trivial)
    (fun _ _ _ _ hwf hstep => Sender.truthful_step hfd hwf hstep) trivial hwf hrun
  rw [hiff]
  exact and_iff_right hstart

/-- A client that has called `connect`, with its connection at 1. -/
def client : Sender where
  tcp := ((TCP.initializeTcp 0x0A000001).connect 0x0A000002 80).1
  calls := []
  first := 0x12345679
  acked := 0

/-- An acknowledgment that the server sends. -/
def acknowledgment (ackNumber : U32) : Traffic :=
  let conn : TCPConnection :=
    { localIp := 0x0A000002, remoteIp := 0x0A000001, localPort := 80, remotePort := 49152
      state := .established, seqNumber := 5000, ackNumber := ackNumber
      advertisedWindow := 8192, sendWindowStart := 0, sendWindowEnd := 8192
      recvBuffer := fun _ => 0, recvStart := 0, recvEnd := 0, recvCount := 0 }
  .segment 0x0A000002 (bufferOf (emit conn tcpAck [])) 20

/-- Two calls of `send`, and the acknowledgment of the first between them. -/
def sendTwice : List Traffic :=
  [.send (fun _ => 0x61) 3, acknowledgment 0x1234567C, .send (fun _ => 0x62) 2]

theorem truthful_iff_of_run_sendTwice :
    ∃ s, run (Sender.step 1) client sendTwice = some s ∧ s.Truthful := by
  obtain ⟨s, hs⟩ : ∃ s, run (Sender.step 1) client sendTwice = some s :=
    Option.isSome_iff_exists.mp (by decide +kernel)
  exact ⟨s, hs, (truthful_iff_of_run (by decide) rfl (by decide +kernel) hs).mpr
    (by decide +kernel)⟩

/-- **A result that is wrong**: `send` returns 10000 and emits 8192 bytes. -/
theorem send_returns_too_much :
    ∃ s, run (Sender.step 1) client [.send (fun _ => 0x61) 10000] = some s ∧
      s.calls = [(10000, 8192)] ∧ ¬ s.Truthful := by
  obtain ⟨conn, out, hsend, hout, -⟩ :=
    client.tcp.send_spec (show (1 : ℕ) ≠ 0 by decide) (by decide) (fun _ => 0x61) 10000
  have hclamp : ((client.tcp.memory 1).clampSize 10000).toNat = 8192 := by decide
  have hstep : client.step 1 (.send (fun _ => 0x61) 10000) =
      some { client with tcp := client.tcp.put 1 conn, calls := [(10000, 8192)] } := by
    rw [Sender.step, hsend]
    dsimp only
    rw [hout, hclamp]
    rfl
  refine ⟨_, (run_cons ..).trans (congrArg (Option.bind · _) hstep), rfl, fun h => ?_⟩
  exact absurd (h.1 _ (List.mem_singleton.mpr rfl)) (by decide)

/-! ### The window -/

/-- The free window is the whole window without the bytes that are not acknowledged. -/
def Sender.FreeWindow (fd : ℕ) (s : Sender) : Prop :=
  (s.tcp.memory fd).availableWindow =
    tcpDefaultWindowSize - BitVec.ofNat 32 (s.sent - s.acked)

/-- A segment acknowledges no byte that was not acknowledged before. -/
def Traffic.AcknowledgesNothing (fd : ℕ) (s : Sender) : Traffic → Prop
  | .send _ _ => True
  | .segment srcIp data size => s.acknowledges fd srcIp data size = 0

instance (fd : ℕ) (s : Sender) : (a : Traffic) → Decidable (a.AcknowledgesNothing fd s)
  | .send _ _ => inferInstanceAs (Decidable True)
  | .segment _ _ _ => inferInstanceAs (Decidable (_ = _))

/-- A connection that has sent nothing yet. -/
structure Sender.Fresh (fd : ℕ) (s : Sender) : Prop where
  notNull : fd ≠ 0
  allocated : fd < s.tcp.nextPointer
  window : (s.tcp.memory fd).availableWindow = tcpDefaultWindowSize
  first : s.first = (s.tcp.memory fd).seqNumber
  calls : s.calls = []
  acked : s.acked = 0

/-- The window has shrunk by what was sent, whatever was acknowledged. -/
structure Sender.Shrinking (fd : ℕ) (s : Sender) : Prop where
  allocated : fd < s.tcp.nextPointer
  window : (s.tcp.memory fd).availableWindow.toNat + s.sent = 8192
  acked : s.acked ≤ s.sent

theorem Sender.acknowledges_le (fd : ℕ) (s : Sender) (srcIp : U32) (data : ℕ → U8) (size : U32) :
    s.acknowledges fd srcIp data size ≤ s.sent - s.acked := by
  rw [acknowledges]
  split_ifs with h
  · exact h.2.2
  · exact Nat.zero_le _

/-- No segment changes the window. -/
theorem TCP.availableWindow_handlePacket {t : TCP} {fd : ℕ} (hfd : fd < t.nextPointer)
    (srcIp : U32) (data : ℕ → U8) (size : U32) :
    ((t.handlePacket srcIp data size).1.memory fd).availableWindow =
      (t.memory fd).availableWindow := by
  by_cases h : t.Reaches fd srcIp data size
  · have hkeeps : (t.acknowledged fd data size).Keeps (t.switched fd data size).1 :=
      TCPConnection.keeps_switchState _ _ _ _ _
    rw [h.handlePacket_eq, deliver_memory_self, TCPConnection.availableWindow,
      hkeeps.sendWindowStart, hkeeps.sendWindowEnd]
    rfl
  · rw [handlePacket_memory_of_not_reaches hfd h]

theorem Sender.shrinking_step {fd : ℕ} (hfd : fd ≠ 0) {s s' : Sender} {a : Traffic}
    (h : s.Shrinking fd) (hwf : s.Established fd a) (hstep : s.step fd a = some s') :
    s'.Shrinking fd := by
  obtain ⟨hallocated, hwindow, hacked⟩ := h
  cases a with
  | send data size =>
    obtain ⟨conn, out, hsend, hout, -, hstart, hend⟩ := s.tcp.send_spec hfd hwf data size
    have hclamp := TCPConnection.toNat_clampSize hwf size
    rw [step, hsend, Option.some_inj] at hstep
    subst hstep
    have hsent : s.sent + payloadSize out = Sender.sent { s with
        tcp := s.tcp.put fd conn
        calls := s.calls ++ [(((some size).map BitVec.toInt).getD (-1), payloadSize out)] } := by
      rw [sent, sent, List.map_append, List.sum_append, List.map_singleton, List.sum_singleton]
    refine ⟨hallocated, ?_, by rw [← hsent]; exact Nat.le_add_right_of_le hacked⟩
    have hleft : conn.availableWindow = (s.tcp.memory fd).availableWindow -
        (s.tcp.memory fd).clampSize size := by
      rw [TCPConnection.availableWindow, hstart, hend, TCPConnection.availableWindow]
      generalize (s.tcp.memory fd).clampSize size = n
      bv_omega
    dsimp only
    rw [← hsent, hout, TCP.put_memory_self, hleft, BitVec.toNat_sub, hclamp]
    omega
  | segment srcIp data size =>
    rw [step, Option.some_inj] at hstep
    subst hstep
    have hle := s.acknowledges_le fd srcIp data size
    refine ⟨lt_of_lt_of_le hallocated (s.tcp.handlePacket_frame srcIp data size).1, ?_, ?_⟩
    · dsimp only
      rw [TCP.availableWindow_handlePacket hallocated]
      exact hwindow
    · change s.acked + _ ≤ s.sent
      omega

/-- The window is right as long as nothing is acknowledged. -/
theorem Sender.Shrinking.freeWindow_iff {fd : ℕ} {s : Sender} (h : s.Shrinking fd) :
    s.FreeWindow fd ↔ s.acked = 0 := by
  obtain ⟨-, hwindow, hacked⟩ := h
  have hright : (tcpDefaultWindowSize - BitVec.ofNat 32 (s.sent - s.acked)).toNat =
      8192 - (s.sent - s.acked) := by
    rw [BitVec.toNat_sub, BitVec.toNat_ofNat, Nat.mod_eq_of_lt (a := s.sent - s.acked) (by omega),
      show tcpDefaultWindowSize.toNat = 8192 from rfl]
    omega
  rw [FreeWindow, ← BitVec.toNat_inj, hright]
  omega

theorem Sender.freeWindow_step {fd : ℕ} (hfd : fd ≠ 0) {s s' : Sender} {a : Traffic}
    (h : s.Shrinking fd) (hwf : s.Established fd a) (hstep : s.step fd a = some s') :
    s'.FreeWindow fd ↔ s.FreeWindow fd ∧ a.AcknowledgesNothing fd s := by
  rw [h.freeWindow_iff, (shrinking_step hfd h hwf hstep).freeWindow_iff]
  cases a with
  | send data size =>
    rw [step, Option.some_inj] at hstep
    subst hstep
    exact (and_iff_left trivial).symm
  | segment srcIp data size =>
    rw [step, Option.some_inj] at hstep
    subst hstep
    exact Nat.add_eq_zero_iff

/-- **When the window is right**: until the peer acknowledges a payload byte. -/
theorem freeWindow_iff_of_run {fd : ℕ} {s s' : Sender} {acts : List Traffic}
    (hfresh : s.Fresh fd) (hwf : Guarded (Sender.step fd) (Sender.Established fd) s acts)
    (hrun : run (Sender.step fd) s acts = some s') :
    s'.FreeWindow fd ↔
      Guarded (Sender.step fd) (fun s a => a.AcknowledgesNothing fd s) s acts := by
  have hsent : s.sent = 0 := by rw [Sender.sent, hfresh.calls]; rfl
  have hshrinking : s.Shrinking fd :=
    ⟨hfresh.allocated, by rw [hfresh.window, hsent]; rfl, by rw [hfresh.acked]; exact Nat.zero_le _⟩
  have hiff := run_iff_guarded
    (fun _ _ _ h hwf hstep => Sender.shrinking_step hfresh.notNull h hwf hstep)
    (fun _ _ _ h hwf hstep => Sender.freeWindow_step hfresh.notNull h hwf hstep)
    hshrinking hwf hrun
  rw [hiff]
  exact and_iff_right (hshrinking.freeWindow_iff.mpr hfresh.acked)

theorem fresh_client : client.Fresh 1 :=
  ⟨by decide, by decide, by decide, by decide, rfl, rfl⟩

/-- Two calls of `send`, and between them an acknowledgment of the SYN only. -/
def sendUnacknowledged : List Traffic :=
  [.send (fun _ => 0x61) 3, acknowledgment 0x12345679, .send (fun _ => 0x62) 2]

theorem freeWindow_iff_of_run_sendUnacknowledged :
    ∃ s, run (Sender.step 1) client sendUnacknowledged = some s ∧ s.FreeWindow 1 := by
  obtain ⟨s, hs⟩ : ∃ s, run (Sender.step 1) client sendUnacknowledged = some s :=
    Option.isSome_iff_exists.mp (by decide +kernel)
  exact ⟨s, hs, (freeWindow_iff_of_run fresh_client (by decide +kernel) hs).mpr
    (by decide +kernel)⟩

/-- **The window stays shut**: the only byte sent is acknowledged, but the window is 8191 bytes. -/
theorem window_does_not_slide :
    ∃ s, run (Sender.step 1) client [.send (fun _ => 0x61) 1, acknowledgment 0x1234567A] = some s ∧
      (s.sent, s.acked, (s.tcp.memory 1).availableWindow) = (1, 1, 8191) ∧ ¬ s.FreeWindow 1 := by
  have hrun : (run (Sender.step 1) client
      [.send (fun _ => 0x61) 1, acknowledgment 0x1234567A]).map (fun s =>
        (s.sent, s.acked, (s.tcp.memory 1).availableWindow)) = some (1, 1, 8191) := by
    decide +kernel
  obtain ⟨s, hs, hvalues⟩ := Option.map_eq_some_iff.mp hrun
  refine ⟨s, hs, hvalues, fun h => ?_⟩
  simp only [Prod.mk.injEq] at hvalues
  rw [Sender.FreeWindow, hvalues.1, hvalues.2.1, hvalues.2.2] at h
  exact absurd h (by decide)

end MesaOS.Net
