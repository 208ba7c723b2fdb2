/-
What datagrams cost the kernel heap (`memory/kheap.cpp`, and the calls of `kmalloc` in
`net/udp.cpp`, `net/ipv4.cpp` and `net/ethernet.cpp`).

`kfree` gives nothing back, and each datagram takes three buffers or more.

* `run_isSome_iff` — how many requests the heap answers;
* `upTo_run` — what has been taken is the sum of all the requests, each rounded up;
* `datagrams_le` — so the number of datagrams that can be sent is bounded once and for all, whatever
  else is done and freed in between.
-/
import Mathlib.Algebra.Order.BigOperators.Group.List
import MesaOS.KHeap
import MesaOS.UDPLink

open MachineWord Runs

namespace MesaOS.Memory

/-- A call of `kmalloc` or of `kfree`. -/
inductive HeapEvent where
  | kmalloc (size : U32)
  | kfree (ptr : U32)

/-- The size that is asked for. -/
def HeapEvent.size : HeapEvent → ℕ
  | .kmalloc size => size.toNat
  | .kfree _ => 0

namespace KHeap

/-- The kernel's own process is not killed for its memory: a `kmalloc` without room is a panic. -/
def step (h : KHeap) : HeapEvent → Option KHeap
  | .kmalloc size => (h.kmalloc size none).map Prod.fst
  | .kfree _ => some h

/-- Up to the next multiple of 8. -/
def roundUp (a : ℕ) : ℕ := (a + 7) / 8 * 8

/-- Where the objects end that are laid out from address `a` on. -/
def layout : ℕ → List HeapEvent → ℕ
  | a, [] => a
  | a, .kmalloc size :: events => layout (roundUp a + size.toNat) events
  | a, .kfree _ :: events => layout a events

/-- What an event takes from the heap. -/
def cost (e : HeapEvent) : ℕ := roundUp e.size

/-- The heap is there, and sums of addresses and sizes up to `n` do not wrap around. -/
structure Ready (h : KHeap) (n : ℕ) : Prop where
  positive : 0 < h.currentAddr.toNat
  ordered : h.currentAddr.toNat ≤ h.endAddr.toNat
  limit : h.endAddr.toNat + 8 + n ≤ 2 ^ 32

variable {h h' : KHeap} {size : U32} {events : List HeapEvent} {n : ℕ}

theorem roundUp_bounds (a : ℕ) : a ≤ roundUp a ∧ roundUp a < a + 8 := by
  rw [roundUp]
  omega

theorem roundUp_add (a n : ℕ) : roundUp (roundUp a + n) = roundUp a + roundUp n := by
  simp only [roundUp]
  omega

theorem le_layout (a : ℕ) (events : List HeapEvent) : a ≤ layout a events := by
  induction events generalizing a with
  | nil => exact Nat.le_refl a
  | cons e events ih =>
    cases e with
    | kmalloc size =>
      have hround := (roundUp_bounds a).1
      have hrest := ih (roundUp a + size.toNat)
      rw [layout]
      omega
    | kfree ptr => exact ih a

/-- One request is answered if and only if there is room behind the aligned pointer. -/
theorem kmalloc_cases (hready : h.Ready n) (hsize : size.toNat ≤ n) :
    (roundUp h.currentAddr.toNat + size.toNat ≤ h.endAddr.toNat ∧ ∃ h',
      h.step (.kmalloc size) = some h' ∧ h'.endAddr = h.endAddr ∧
        h'.currentAddr.toNat = roundUp h.currentAddr.toNat + size.toNat) ∨
      h.endAddr.toNat < roundUp h.currentAddr.toNat + size.toNat ∧
        h.step (.kmalloc size) = none := by
  obtain ⟨hpositive, hordered, hlimit⟩ := hready
  have halign : h.align.currentAddr.toNat = roundUp h.currentAddr.toNat := toNat_align (by omega)
  have hround := roundUp_bounds h.currentAddr.toNat
  have hbounded : h.Bounded size := .inl (by omega)
  rcases malloc_cases h size with ⟨-, hno, -⟩ | ⟨hm, -, hfits⟩ | ⟨hm, -, hfits, hsum⟩
  · exact absurd hbounded hno
  · right
    rw [Fits, halign] at hfits
    refine ⟨by omega, ?_⟩
    rw [step, kmalloc, hm]
    rfl
  · left
    rw [Fits, halign] at hfits
    -- the null pointer is not in the heap
    have hne : h.align.currentAddr ≠ 0#32 := by
      intro hzero
      rw [hzero] at halign
      have : (0#32).toNat = 0 := rfl
      omega
    refine ⟨hfits, { h.align with currentAddr := h.align.currentAddr + size }, ?_,
      align_endAddr h, ?_⟩
    · rw [step, kmalloc, hm]
      simp [hne]
    · rw [← halign]
      exact hsum

theorem Ready.step (hready : h.Ready n) {e : HeapEvent} (he : e.size ≤ n)
    (hstep : h.step e = some h') : h'.Ready n ∧ h'.endAddr = h.endAddr ∧
      roundUp h'.currentAddr.toNat = roundUp h.currentAddr.toNat + cost e := by
  cases e with
  | kfree ptr =>
    obtain rfl := Option.some.inj hstep
    have hnothing : cost (.kfree ptr) = 0 := by simp [cost, HeapEvent.size, roundUp]
    refine ⟨hready, rfl, ?_⟩
    rw [hnothing, Nat.add_zero]
  | kmalloc size =>
    rcases kmalloc_cases hready he with ⟨hroom, t, ht, hend, hcurrent⟩ | ⟨-, hnone⟩
    · rw [ht, Option.some_inj] at hstep
      subst hstep
      obtain ⟨hpositive, hordered, hlimit⟩ := hready
      have := (roundUp_bounds h.currentAddr.toNat).1
      refine ⟨⟨by omega, by rw [hend]; omega, by rw [hend]; exact hlimit⟩, hend, ?_⟩
      rw [hcurrent, roundUp_add]
      rfl
    · rw [hnone] at hstep
      exact absurd hstep.symm (Option.some_ne_none h')

/-- **How many requests are answered**: those whose objects, laid out one behind the other, end
inside the heap. -/
theorem run_isSome_iff (hready : h.Ready n) (hsize : ∀ e ∈ events, e.size ≤ n) :
    (run step h events).isSome ↔ layout h.currentAddr.toNat events ≤ h.endAddr.toNat := by
  induction events generalizing h with
  | nil => exact iff_of_true rfl hready.ordered
  | cons e events ih =>
    have hrest : ∀ e ∈ events, e.size ≤ n := fun e he => hsize e (List.mem_cons_of_mem _ he)
    rw [run_cons]
    cases e with
    | kfree ptr => exact ih hready hrest
    | kmalloc size =>
      have hfirst := hsize _ List.mem_cons_self
      rw [layout]
      rcases kmalloc_cases hready hfirst with ⟨-, t, ht, hend, hcurrent⟩ | ⟨hfull, hnone⟩
      · have hready' := (hready.step hfirst ht).1
        rw [ht, Option.bind_some, ih hready' hrest, hend, hcurrent]
      · have hle := le_layout (roundUp h.currentAddr.toNat + size.toNat) events
        rw [hnone, Option.bind_none]
        exact iff_of_false Bool.false_ne_true (by omega)

/-- All that has been taken is still taken. -/
theorem upTo_run (hready : h.Ready n) (hsize : ∀ e ∈ events, e.size ≤ n)
    (hrun : run step h events = some h') : h'.Ready n ∧ h'.endAddr = h.endAddr ∧
      roundUp h'.currentAddr.toNat =
        roundUp h.currentAddr.toNat + (events.map cost).sum := by
  induction events generalizing h with
  | nil =>
    obtain rfl := Option.some.inj hrun
    exact ⟨hready, rfl, rfl⟩
  | cons e events ih =>
    rw [run_cons] at hrun
    obtain ⟨t, ht, hrest⟩ := Option.bind_eq_some_iff.mp hrun
    obtain ⟨hready', hend, hstep⟩ := hready.step (hsize e List.mem_cons_self) ht
    obtain ⟨hlast, hend', hsum⟩ :=
      ih hready' (fun e he => hsize e (List.mem_cons_of_mem _ he)) hrest
    refine ⟨hlast, hend'.trans hend, ?_⟩
    rw [hsum, hstep, List.map_cons, List.sum_cons, Nat.add_assoc]

theorem sum_cost_le (hready : h.Ready n) (hsize : ∀ e ∈ events, e.size ≤ n)
    (hrun : run step h events = some h') :
    (events.map cost).sum ≤ h.endAddr.toNat + 7 - h.currentAddr.toNat := by
  obtain ⟨hlast, hend, hsum⟩ := upTo_run hready hsize hrun
  have hordered := hlast.ordered
  have hfirst := roundUp_bounds h.currentAddr.toNat
  have hround := roundUp_bounds h'.currentAddr.toNat
  rw [hend] at hordered
  omega

end KHeap

end MesaOS.Memory

namespace MesaOS.Net

open Memory Memory.KHeap

/-- A call of `UDP::send_packet`, whatever the host and its ARP cache are then. -/
structure UdpSend where
  station : Station
  nextId : U16
  destIp : U32
  srcPort : U16
  destPort : U16
  payload : List U8

namespace UdpSend

def frames (c : UdpSend) : List (List U8) :=
  (UDP.sendPacket c.station c.nextId c.destIp c.srcPort c.destPort c.payload).2

/-- The buffers of `UDP::send_packet` and of `IPv4::send_packet`, one for each frame in
`Ethernet::send_packet`, and the one call of `kfree`; `packet` is the second buffer. -/
def heapEvents (c : UdpSend) (packet : U32) : List HeapEvent :=
  [.kmalloc (BitVec.ofNat 32 (c.payload.length + 8)),
    .kmalloc (BitVec.ofNat 32 (20 + (c.payload.length + 8)))] ++
    c.frames.map (fun frame => .kmalloc (BitVec.ofNat 32 frame.length)) ++ [.kfree packet]

end UdpSend

variable {c : UdpSend} {packet : U32}

/-- The frame of the datagram is the last one. -/
theorem frames_eq_append (c : UdpSend) : ∃ requests frame, c.frames = requests ++ [frame] ∧
    frame.length = c.payload.length + 42 := by
  rw [UdpSend.frames, UDP.sendPacket, IPv4.sendPacket]
  rcases ARP.resolve c.station.toHost (IPv4.nextHop c.station c.destIp) with ⟨destMac, requests⟩
  refine ⟨requests, _, rfl, ?_⟩
  rw [length_sendPacket, List.length_append, IPv4.length_header, UDP.datagram, List.length_append]
  change 14 + (20 + (8 + c.payload.length)) = _
  omega

/-- Each datagram takes 88 bytes at least. -/
theorem cost_heapEvents (hpayload : c.payload.length ≤ 65507) :
    88 ≤ ((c.heapEvents packet).map cost).sum := by
  obtain ⟨requests, frame, hframes, hlength⟩ := frames_eq_append c
  have hsize : ∀ k < 2 ^ 32, cost (.kmalloc (BitVec.ofNat 32 k)) = roundUp k := by
    intro k hk
    rw [cost, HeapEvent.size, BitVec.toNat_ofNat, Nat.mod_eq_of_lt hk]
  rw [UdpSend.heapEvents, hframes]
  simp only [List.map_append, List.map_cons, List.map_nil, List.sum_append, List.sum_cons,
    List.sum_nil]
  rw [hsize _ (by omega), hsize _ (by omega), hsize _ (by omega)]
  simp only [roundUp]
  omega

/-- **The number of datagrams is bounded by the size of the heap**: in every run, whatever else is
asked for and freed before, between and behind their buffers. -/
theorem datagrams_le {h h' : KHeap} {n : ℕ} {events : List HeapEvent}
    {calls : List (UdpSend × U32)} (hready : h.Ready n) (hsize : ∀ e ∈ events, e.size ≤ n)
    (hpayload : ∀ c ∈ calls, c.1.payload.length ≤ 65507)
    (hcalls : List.Sublist (calls.flatMap fun c => c.1.heapEvents c.2) events)
    (hrun : run KHeap.step h events = some h') :
    88 * calls.length ≤ h.endAddr.toNat + 7 - h.currentAddr.toNat := by
  have htotal := sum_cost_le hready hsize hrun
  have hpart := (hcalls.map cost).sum_le_sum fun a _ => Nat.zero_le a
  have hmany : 88 * calls.length ≤
      ((calls.flatMap fun c => c.1.heapEvents c.2).map cost).sum := by
    clear hcalls hpart
    induction calls with
    | nil => exact Nat.le_refl 0
    | cons c calls ih =>
      have hone : 88 ≤ ((c.1.heapEvents c.2).map cost).sum :=
        cost_heapEvents (hpayload c List.mem_cons_self)
      have hrest := ih fun c hc => hpayload c (List.mem_cons_of_mem _ hc)
      rw [List.flatMap_cons, List.map_append, List.sum_append, List.length_cons]
      omega
  omega

/-- Two datagrams without data, and a process made between them, in a heap of 4 MiB. -/
theorem datagrams_le_twice :
    let h : KHeap := KHeap.initializeHeap 0x200000 0x400000
    let c : UdpSend := ⟨freshStation 0x0A000001 0x56, 0, 0x0A000002, 68, 67, []⟩
    let calls : List (UdpSend × U32) := [(c, 0x200008), (c, 0x200068)]
    let events := c.heapEvents 0x200008 ++ .kmalloc 4096 :: c.heapEvents 0x200068
    ∃ h', run KHeap.step h events = some h' ∧
      88 * calls.length ≤ h.endAddr.toNat + 7 - h.currentAddr.toNat := by
  intro h c calls events
  have hready : h.Ready 4096 := ⟨by decide, by decide, by decide⟩
  have hsome : (run KHeap.step h events).isSome = true := by decide +kernel
  obtain ⟨h', hrun⟩ := Option.isSome_iff_exists.mp hsome
  have hcalls : List.Sublist (calls.flatMap fun c => c.1.heapEvents c.2) events :=
    List.Sublist.append (List.Sublist.refl _) (List.sublist_cons_self _ _)
  exact ⟨h', hrun, datagrams_le hready (by decide +kernel) (by decide) hcalls hrun⟩

end MesaOS.Net
