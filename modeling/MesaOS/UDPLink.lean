/-
Datagrams on their way from one station to another: `UDP::send_packet`, `IPv4::send_packet`,
`ARP::resolve` and `PCNet::send_packet` on the one side, `PCNet::receive_packet`,
`Ethernet::handle_packet`, `IPv4::handle_packet` and `UDP::handle_packet` on the other.

The wire is a queue that may lose frames and that pads them.

* `receive_frame`, `receive_request` — what the receiver makes of a frame, whatever follows it;
* `inv_step` — where the frames are that have been produced;
* `received_sublist_sent` — no run, unless it fills the ring of the sender, makes up a datagram,
  changes one, doubles one or swaps two.
-/
import Mathlib.Data.List.Forall2
import MesaOS.IPv4
import MesaOS.PCNetReceive

open MachineWord Runs

namespace MesaOS.Net

/-! ### The receiver -/

/-- `Ethernet::handle_packet` on a frame, down to `UDP::handle_packet`. -/
def datagramOf (frame : List U8) : Option Datagram :=
  UDP.receive (bufferOf frame) (BitVec.ofNat 32 frame.length)

/-- Padding makes no difference to the receiver. -/
def Padded (frame : List U8) (d : Option Datagram) : Prop :=
  ∀ padding : List U8, (frame ++ padding).length < 2 ^ 32 → datagramOf (frame ++ padding) = d

theorem Padded.datagramOf {frame : List U8} {d : Option Datagram} (h : Padded frame d)
    (hlength : frame.length < 2 ^ 32) : datagramOf frame = d := by
  have := h []
  rw [List.append_nil] at this
  exact this hlength

theorem length_sendPacket (host : Host) (destMac : Mac) (type : U16) (data : List U8) :
    (Ethernet.sendPacket host destMac type data).length = 14 + data.length := by
  rw [Ethernet.sendPacket, List.length_append, List.length_append, List.length_append,
    destMac.size, (Ethernet.getMacAddress host).size]
  rfl

/-- The frame of a datagram. -/
theorem receive_frame (st : Station) (id : U16) (destIp : U32) (checksum : U16) (destMac : Mac)
    (srcPort destPort : U16) {payload : List U8} (hpayload : payload.length ≤ 65507) :
    Padded (Ethernet.sendPacket st.toHost destMac 0x0800
      (IPv4.header st id destIp 0x11 (UDP.datagram srcPort destPort payload).length checksum ++
        UDP.datagram srcPort destPort payload))
      (some { srcIp := st.myIp, destPort := destPort, payload := payload }) := by
  intro padding hframe
  set data := UDP.datagram srcPort destPort payload with hdata
  have hdata8 : data.length = 8 + payload.length := by
    rw [hdata, UDP.datagram, List.length_append]
    rfl
  have hrest : (IPv4.header st id destIp 0x11 data.length checksum ++ data ++ padding).length <
      2 ^ 32 := by
    rw [List.length_append, length_sendPacket] at hframe
    rw [List.length_append]
    omega
  obtain ⟨s, hs, hether, hof⟩ := Ethernet.handlePacket_sendPacket st.toHost destMac _ padding hframe
  obtain ⟨t, ht, hip, hof'⟩ :=
    IPv4.handlePacket_header st id destIp checksum data padding (by omega) hrest
  rw [datagramOf, UDP.receive, hether]
  dsimp only [Option.bind_eq_bind, Option.bind_some]
  rw [hof, hs, hip]
  dsimp only [Option.bind_some]
  rw [hof', ht]
  exact UDP.handlePacket_datagram st.myIp srcPort destPort payload padding (by omega)

/-- The frame of a request of `ARP::resolve` is no datagram. -/
theorem receive_request (host : Host) (targetIp : U32) :
    Padded (ARP.sendRequest host targetIp) none := by
  intro padding hlength
  set macs := broadcastMac.bytes ++ (Ethernet.getMacAddress host).bytes with hmacs
  have hmacs12 : macs.length = 12 := by
    rw [hmacs, List.length_append, broadcastMac.size, (Ethernet.getMacAddress host).size]
  have hbytes : ARP.sendRequest host targetIp ++ padding = macs ++ (le16 (swapUint16 0x0806) ++
      ((ARP.request host targetIp).bytes ++ List.replicate 18 0 ++ padding)) := by
    rw [ARP.sendRequest, Ethernet.sendPacket, ← hmacs]
    simp only [List.append_assoc]
  have htype : get16 (bufferOf (ARP.sendRequest host targetIp ++ padding)) 12 =
      swapUint16 0x0806 := get16_eq macs hbytes hmacs12
  have hlong : ¬ BitVec.ofNat 32 (ARP.sendRequest host targetIp ++ padding).length < (14 : U32) := by
    refine not_ofNat_lt (n := (ARP.sendRequest host targetIp ++ padding).length) ?_ hlength
    rw [List.length_append, ARP.sendRequest, length_sendPacket, Nat.add_assoc]
    exact Nat.le_add_right 14 _
  rw [datagramOf, UDP.receive, Ethernet.handlePacket, if_neg hlong, htype]
  dsimp only
  rw [if_pos (Or.inr (Or.inr rfl))]
  rfl

/-! ### The sender -/

theorem length_sendRequest (host : Host) (targetIp : U32) :
    (ARP.sendRequest host targetIp).length = 60 := by
  rw [ARP.sendRequest, length_sendPacket, List.length_append, ARPMessage.length_bytes,
    List.length_replicate]

theorem mem_resolve {host : Host} {targetIp : U32} {frame : List U8}
    (h : frame ∈ (ARP.resolve host targetIp).2) : ∃ ip, frame = ARP.sendRequest host ip := by
  rw [ARP.resolve] at h
  split at h
  · exact absurd h List.not_mem_nil
  · split at h
    · split at h
      · exact ⟨_, List.mem_singleton.mp h⟩
      · rcases List.mem_cons.mp h with rfl | h
        · exact ⟨_, rfl⟩
        · exact ⟨_, List.mem_singleton.mp h⟩
    · exact ⟨_, List.mem_singleton.mp h⟩

/-- A frame that the receiver sees as one or no datagram, padded or not. -/
structure Clear (frame : List U8) : Prop where
  length : frame.length < 2 ^ 32
  padded : Padded frame (datagramOf frame)

theorem Padded.clear {frame : List U8} {d : Option Datagram} (h : Padded frame d)
    (hlength : frame.length < 2 ^ 32) : Clear frame :=
  ⟨hlength, (h.datagramOf hlength).symm ▸ h⟩

/-- The frames of a call of `UDP::send_packet` carry its datagram and nothing else. -/
theorem frames_sendPacket (st : Station) (nextId : U16) (destIp : U32) (srcPort destPort : U16)
    {payload : List U8} (hpayload : payload.length ≤ 65507) :
    (∀ frame ∈ (UDP.sendPacket st nextId destIp srcPort destPort payload).2, Clear frame) ∧
      (UDP.sendPacket st nextId destIp srcPort destPort payload).2.filterMap datagramOf =
        [{ srcIp := st.myIp, destPort := destPort, payload := payload }] := by
  rw [UDP.sendPacket, IPv4.sendPacket]
  rcases hresolve : ARP.resolve st.toHost (IPv4.nextHop st destIp) with ⟨destMac, requests⟩
  dsimp only
  set checksum := IPv4.calculateChecksum (bufferOf (IPv4.header st nextId destIp 0x11
    (UDP.datagram srcPort destPort payload).length 0)) 20
  have hframe := receive_frame st nextId destIp checksum destMac srcPort destPort hpayload
  set frame := Ethernet.sendPacket st.toHost destMac 0x0800
    (IPv4.header st nextId destIp 0x11 (UDP.datagram srcPort destPort payload).length checksum ++
      UDP.datagram srcPort destPort payload) with hframedef
  have hlength : frame.length < 2 ^ 32 := by
    rw [hframedef, length_sendPacket, List.length_append, IPv4.length_header, UDP.datagram,
      List.length_append]
    exact (by omega : 14 + (20 + (8 + payload.length)) < 2 ^ 32)
  have hrequest : ∀ f ∈ requests, Padded f none ∧ f.length < 2 ^ 32 := by
    intro f hf
    obtain ⟨ip, rfl⟩ := mem_resolve (by rw [hresolve]; exact hf)
    rw [length_sendRequest]
    exact ⟨receive_request st.toHost ip, by omega⟩
  constructor
  · intro f hf
    rcases List.mem_append.mp hf with hf | hf
    · exact (hrequest f hf).1.clear (hrequest f hf).2
    · rw [List.mem_singleton.mp hf]
      exact hframe.clear hlength
  · have hnone : requests.filterMap datagramOf = [] :=
      List.filterMap_eq_nil_iff.mpr fun f hf => (hrequest f hf).1.datagramOf (hrequest f hf).2
    rw [List.filterMap_append, hnone, List.nil_append, List.filterMap_cons_some
      (hframe.datagramOf hlength), List.filterMap_nil]

/-! ### The link -/

/-- The sender with the frames that are yet to be given to its card, the wire, and the receiver's
card; `datagrams` are those that `UDP::send_packet` has been called with. -/
structure UdpLink where
  station : Station
  nextId : U16
  unsent : List (List U8)
  tx : PCNet.TxRing
  wire : List (List U8)
  rx : PCNet.RxRing
  datagrams : List Datagram

inductive UdpEvent where
  /-- `UDP::send_packet` is called. -/
  | sendUdp (destIp : U32) (srcPort destPort : U16) (payload : List U8)
  /-- `ARP::handle_packet` puts an address into the cache. -/
  | learn (ip : U32) (mac : Mac)
  /-- `PCNet::send_packet` is called for the next frame. -/
  | transmit
  | handOver
  | take
  /-- The card puts a frame on the wire. -/
  | done
  | lose
  /-- A frame gets to the other card. -/
  | deliver (padding : List U8) (status status2 : U32)
  /-- `receive_packet` is called by the receiver. -/
  | begin
  | driver

namespace UdpLink

/-- The call of the driver for a frame. -/
def call (frame : List U8) : PCNet.SendCall where
  data := bufferOf frame
  size := BitVec.ofNat 32 frame.length

def step (s : UdpLink) : UdpEvent → Option UdpLink
  | .sendUdp destIp srcPort destPort payload =>
    if payload.length ≤ 65507 then
      let (nextId, frames) :=
        UDP.sendPacket s.station s.nextId destIp srcPort destPort payload
      some
        { s with
          nextId := nextId
          unsent := s.unsent ++ frames
          datagrams := s.datagrams ++
            [{ srcIp := s.station.myIp, destPort := destPort, payload := payload }] }
    else none
  | .learn ip mac => some { s with station := { s.station with cacheIp := ip, cacheMac := mac } }
  | .transmit =>
    match s.unsent with
    | [] => none
    | frame :: rest => (s.tx.step (.send (call frame))).map fun tx =>
        { s with unsent := rest, tx := tx }
  | .handOver => (s.tx.step .handOver).map fun tx => { s with tx := tx }
  | .take => (s.tx.step .take).map fun tx => { s with tx := tx }
  | .done => (s.tx.step .done).map fun tx =>
      { s with tx := tx, wire := s.wire ++ s.tx.sending.toList }
  | .lose => some { s with wire := s.wire.tail }
  | .deliver padding status status2 =>
    match s.wire with
    | [] => none
    | frame :: rest => (s.rx.step (.arrive (frame ++ padding) status status2)).map fun rx =>
        { s with wire := rest, rx := rx }
  | .begin => (s.rx.step .begin).map fun rx => { s with rx := rx }
  | .driver => (s.rx.step .driver).map fun rx => { s with rx := rx }

def start (station : Station) (buffers buffers' : ℕ → ℕ → U8) : UdpLink where
  station := station
  nextId := 0x1234
  unsent := []
  tx := .start buffers
  wire := []
  rx := .start buffers'
  datagrams := []

/-- The datagrams that the receiver has got. -/
def received (s : UdpLink) : List Datagram := s.rx.handled.filterMap datagramOf

/-- There is room in the ring of the sender. -/
def Room (s : UdpLink) : UdpEvent → Prop
  | .transmit => ∀ frame ∈ s.unsent.head?, s.tx.Room (.send (call frame))
  | _ => True

instance (s : UdpLink) (e : UdpEvent) : Decidable (s.Room e) :=
  match e with
  | .transmit =>
    inferInstanceAs (Decidable (∀ frame ∈ s.unsent.head?, ¬ (call frame).size > 2000 →
      s.tx.accepted.length < s.tx.transmitted.length + 8))
  | .sendUdp .. | .learn .. | .handOver | .take | .done | .lose | .deliver .. | .begin | .driver =>
    isTrue trivial

/-! ### Where the frames are -/

/-- The frames that have been produced are accepted, in a call, or yet unsent; the accepted ones are
out, and those are stored by the receiver's card, on the wire or lost. -/
structure Inv (s : UdpLink) (produced arrived : List (List U8)) : Prop where
  tx : s.tx.Inv
  rx : s.rx.Inv
  clear : ∀ frame ∈ produced, Clear frame
  datagrams : produced.filterMap datagramOf = s.datagrams
  order : (s.tx.accepted ++ (s.tx.calling.map PCNet.SendCall.frame).toList ++ s.unsent).Sublist
    produced
  wire : (arrived ++ s.wire).Sublist s.tx.transmitted
  stored : List.Forall₂ (fun frame bytes => ∃ padding : List U8, bytes = frame ++ padding ∧
    bytes.length < 2 ^ 32) arrived s.rx.stored

variable {s s' : UdpLink} {produced arrived : List (List U8)}

theorem inv_start (station : Station) (buffers buffers' : ℕ → ℕ → U8) :
    (start station buffers buffers').Inv [] [] where
  tx := PCNet.TxRing.inv_start buffers
  rx := PCNet.RxRing.inv_start buffers'
  clear := fun _ h => absurd h List.not_mem_nil
  datagrams := rfl
  order := List.Sublist.refl []
  wire := List.Sublist.refl []
  stored := List.Forall₂.nil

theorem frame_call {frame : List U8} (h : frame.length < 2 ^ 32) : (call frame).frame = frame := by
  have hsize : (call frame).size.toNat = frame.length := by
    rw [call, BitVec.toNat_ofNat, Nat.mod_eq_of_lt h]
  rw [PCNet.SendCall.frame, hsize]
  have := map_bufferOf_append frame []
  rwa [List.append_nil] at this

theorem Inv.sendUdp (h : s.Inv produced arrived) {destIp : U32} {srcPort destPort : U16}
    {payload : List U8} (hstep : s.step (.sendUdp destIp srcPort destPort payload) = some s') :
    s'.Inv (produced ++
      (UDP.sendPacket s.station s.nextId destIp srcPort destPort payload).2) arrived := by
  rw [step] at hstep
  split at hstep
  case isTrue hpayload =>
    obtain ⟨hclear, hdatagram⟩ :=
      frames_sendPacket s.station s.nextId destIp srcPort destPort hpayload
    obtain rfl := Option.some_inj.mp hstep
    refine ⟨h.tx, h.rx, fun frame hframe => ?_, ?_, ?_, h.wire, h.stored⟩
    · rcases List.mem_append.mp hframe with hframe | hframe
      · exact h.clear frame hframe
      · exact hclear frame hframe
    · rw [List.filterMap_append, h.datagrams, hdatagram]
    · dsimp only
      rw [← List.append_assoc]
      exact h.order.append (List.Sublist.refl _)
  case isFalse => exact absurd hstep (Option.some_ne_none s').symm

/-- A frame that is too long for the driver is dropped. -/
theorem Inv.transmit (h : s.Inv produced arrived) (hroom : s.Room .transmit)
    (hstep : s.step .transmit = some s') : s'.Inv produced arrived := by
  rw [step] at hstep
  cases hunsent : s.unsent with
  | nil =>
    rw [hunsent] at hstep
    exact absurd hstep (Option.some_ne_none s').symm
  | cons frame rest =>
    rw [hunsent] at hstep
    obtain ⟨tx, htx, rfl⟩ := Option.map_eq_some_iff.mp hstep
    have htxinv : tx.Inv := PCNet.TxRing.inv_send h.tx (hroom frame (by rw [hunsent]; rfl)) htx
    have horder := h.order
    rw [hunsent] at horder
    rw [PCNet.TxRing.step] at htx
    split at htx
    case isTrue => exact absurd htx (Option.some_ne_none tx).symm
    case isFalse hidle =>
      rw [Option.not_isSome_iff_eq_none.mp hidle, Option.map_none, Option.toList_none,
        List.append_nil] at horder
      have hmem : frame ∈ produced := horder.subset (List.mem_append_right _ List.mem_cons_self)
      split at htx
      case isTrue =>
        obtain rfl := Option.some_inj.mp htx
        refine ⟨h.tx, h.rx, h.clear, h.datagrams, ?_, h.wire, h.stored⟩
        dsimp only
        rw [Option.not_isSome_iff_eq_none.mp hidle, Option.map_none, Option.toList_none,
          List.append_nil]
        exact ((List.sublist_cons_self frame rest).append_left _).trans horder
      case isFalse =>
        obtain rfl := Option.some_inj.mp htx
        refine ⟨htxinv, h.rx, h.clear, h.datagrams, ?_, h.wire, h.stored⟩
        dsimp only
        rw [Option.map_some, frame_call (h.clear frame hmem).length, Option.toList_some,
          List.append_assoc]
        exact horder

theorem Inv.handOver (h : s.Inv produced arrived) (hstep : s.step .handOver = some s') :
    s'.Inv produced arrived := by
  obtain ⟨tx, htx, rfl⟩ := Option.map_eq_some_iff.mp hstep
  have htxinv := PCNet.TxRing.inv_handOver h.tx htx
  obtain ⟨call, hcall, rfl⟩ := Option.map_eq_some_iff.mp htx
  refine ⟨htxinv, h.rx, h.clear, h.datagrams, ?_, h.wire, h.stored⟩
  have horder := h.order
  rw [hcall, Option.map_some, Option.toList_some] at horder
  dsimp only
  rw [Option.map_none, Option.toList_none, List.append_nil]
  exact horder

theorem Inv.take (h : s.Inv produced arrived) (hstep : s.step .take = some s') :
    s'.Inv produced arrived := by
  obtain ⟨tx, htx, rfl⟩ := Option.map_eq_some_iff.mp hstep
  have htxinv := PCNet.TxRing.inv_take h.tx htx
  rw [PCNet.TxRing.step] at htx
  split at htx
  · obtain rfl := Option.some_inj.mp htx
    exact ⟨htxinv, h.rx, h.clear, h.datagrams, h.order, h.wire, h.stored⟩
  · exact absurd htx (Option.some_ne_none tx).symm

theorem Inv.done (h : s.Inv produced arrived) (hstep : s.step .done = some s') :
    s'.Inv produced arrived := by
  obtain ⟨tx, htx, rfl⟩ := Option.map_eq_some_iff.mp hstep
  have htxinv := PCNet.TxRing.inv_done h.tx htx
  obtain ⟨frame, hframe, rfl⟩ := Option.map_eq_some_iff.mp htx
  refine ⟨htxinv, h.rx, h.clear, h.datagrams, h.order, ?_, h.stored⟩
  dsimp only
  rw [hframe, Option.toList_some, ← List.append_assoc]
  exact h.wire.append (List.Sublist.refl _)

theorem Inv.lose (h : s.Inv produced arrived) (hstep : s.step .lose = some s') :
    s'.Inv produced arrived := by
  obtain rfl := Option.some_inj.mp hstep
  exact ⟨h.tx, h.rx, h.clear, h.datagrams, h.order,
    ((List.tail_sublist s.wire).append_left arrived).trans h.wire, h.stored⟩

theorem Inv.deliver (h : s.Inv produced arrived) {padding : List U8} {status status2 : U32}
    (hstep : s.step (.deliver padding status status2) = some s') :
    ∃ frame, s'.Inv produced (arrived ++ [frame]) := by
  rw [step] at hstep
  cases hwire : s.wire with
  | nil =>
    rw [hwire] at hstep
    exact absurd hstep (Option.some_ne_none s').symm
  | cons frame rest =>
    rw [hwire] at hstep
    obtain ⟨rx, hrx, rfl⟩ := Option.map_eq_some_iff.mp hstep
    have hrxinv := PCNet.RxRing.inv_arrive h.rx hrx
    obtain ⟨-, -, hstored, hshort⟩ := PCNet.RxRing.step_arrive hrx
    refine ⟨frame, h.tx, hrxinv, h.clear, h.datagrams, h.order, ?_, ?_⟩
    · have := h.wire
      rw [hwire] at this
      rwa [List.append_assoc]
    · dsimp only
      rw [hstored]
      refine List.rel_append h.stored (List.Forall₂.cons ⟨padding, rfl, ?_⟩ List.Forall₂.nil)
      exact hshort.trans (by decide)

theorem inv_step {e : UdpEvent} (h : s.Inv produced arrived) (hroom : s.Room e)
    (hstep : s.step e = some s') : ∃ produced' arrived', s'.Inv produced' arrived' := by
  cases e with
  | sendUdp => exact ⟨_, _, h.sendUdp hstep⟩
  | learn ip mac =>
    obtain rfl := Option.some_inj.mp hstep
    exact ⟨_, _, h.tx, h.rx, h.clear, h.datagrams, h.order, h.wire, h.stored⟩
  | transmit => exact ⟨_, _, h.transmit hroom hstep⟩
  | handOver => exact ⟨_, _, h.handOver hstep⟩
  | take => exact ⟨_, _, h.take hstep⟩
  | done => exact ⟨_, _, h.done hstep⟩
  | lose => exact ⟨_, _, h.lose hstep⟩
  | deliver =>
    obtain ⟨frame, hinv⟩ := h.deliver hstep
    exact ⟨_, _, hinv⟩
  | begin =>
    obtain ⟨rx, hrx, rfl⟩ := Option.map_eq_some_iff.mp hstep
    refine ⟨_, _, h.tx, PCNet.RxRing.inv_begin h.rx hrx, h.clear, h.datagrams, h.order, h.wire, ?_⟩
    exact (PCNet.RxRing.step_begin hrx).2.symm ▸ h.stored
  | driver =>
    obtain ⟨rx, hrx, rfl⟩ := Option.map_eq_some_iff.mp hstep
    refine ⟨_, _, h.tx, PCNet.RxRing.inv_step h.rx hrx, h.clear, h.datagrams, h.order, h.wire, ?_⟩
    exact (PCNet.RxRing.step_driver hrx).2.symm ▸ h.stored

/-- Padding apart, the frames that have arrived are frames that were produced. -/
theorem filterMap_stored {frames stored : List (List U8)}
    (h : List.Forall₂ (fun frame bytes => ∃ padding : List U8, bytes = frame ++ padding ∧
      bytes.length < 2 ^ 32) frames stored) (hclear : ∀ frame ∈ frames, Clear frame) :
    stored.filterMap datagramOf = frames.filterMap datagramOf := by
  induction h with
  | nil => rfl
  | cons hbytes _ ih =>
    obtain ⟨padding, rfl, hlength⟩ := hbytes
    have hsame := (hclear _ List.mem_cons_self).padded padding hlength
    rw [List.filterMap_cons, List.filterMap_cons, hsame,
      ih fun frame hframe => hclear frame (List.mem_cons_of_mem _ hframe)]

theorem Inv.received (h : s.Inv produced arrived) : s.received.Sublist s.datagrams := by
  have hsub : arrived.Sublist produced :=
    (((List.sublist_append_left arrived s.wire).trans h.wire).trans h.tx.out.sublist).trans
      (((List.sublist_append_left ..).trans (List.sublist_append_left ..)).trans h.order)
  have hstored := filterMap_stored h.stored fun frame hframe => h.clear frame (hsub.subset hframe)
  rw [UdpLink.received, ← h.datagrams]
  refine (h.rx.received.handled.sublist.filterMap datagramOf).trans ?_
  rw [hstored]
  exact hsub.filterMap datagramOf

/-- **Datagrams on a link.**  Frames may be lost, padded, and dropped by either driver; as long as
the sender's ring has room for every frame that it is given, what the receiver has got are
datagrams that were sent, with their address, port and payload, each at most once and in order. -/
theorem received_sublist_sent (station : Station) (buffers buffers' : ℕ → ℕ → U8)
    {events : List UdpEvent} (hroom : Guarded step Room (start station buffers buffers') events)
    (hrun : run step (start station buffers buffers') events = some s) :
    s.received.Sublist s.datagrams := by
  obtain ⟨produced, arrived, hinv⟩ := run_invariant
    (P := fun s : UdpLink => ∃ produced arrived, s.Inv produced arrived)
    (fun s e s' ⟨_, _, h⟩ (he : s.Room e) hstep => inv_step h he hstep)
    ⟨[], [], inv_start station buffers buffers'⟩ hroom hrun
  exact hinv.received

/-- Two datagrams: the requests for the address and the first datagram are lost. -/
def secondArrives : List UdpEvent :=
  [.sendUdp 0x0A000002 68 67 [0x68], .sendUdp 0x0A000002 68 69 [0x69]] ++
    (List.replicate 3 [.transmit, .handOver, .take, .done, .lose]).flatten ++
    [.transmit, .handOver, .take, .done, .deliver (List.replicate 17 0) 0x03000000 60, .begin,
      .driver, .driver]

theorem received_sublist_sent_secondArrives :
    ∃ s, run step (start (freshStation 0x0A000001 0x56) (fun _ _ => 0) fun _ _ => 0)
        secondArrives = some s ∧
      s.received = [{ srcIp := 0x0A000001, destPort := 69, payload := [0x69] }] ∧
      s.received.Sublist s.datagrams := by
  have hroom : Guarded step Room
      (start (freshStation 0x0A000001 0x56) (fun _ _ => 0) fun _ _ => 0) secondArrives := by
    decide +kernel
  have hval : (run step (start (freshStation 0x0A000001 0x56) (fun _ _ => 0) fun _ _ => 0)
      secondArrives).map received =
      some [{ srcIp := 0x0A000001, destPort := 69, payload := [0x69] }] := by
    decide +kernel
  obtain ⟨s, hrun, hreceived⟩ := Option.map_eq_some_iff.mp hval
  exact ⟨s, hrun, hreceived, received_sublist_sent _ _ _ hroom hrun⟩

end UdpLink

end MesaOS.Net
