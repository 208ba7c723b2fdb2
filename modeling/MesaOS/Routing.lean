/-
Where packets go on the link (`IPv4::send_packet`, `ARP::resolve`).

`IPv4::send_packet` decides whether a packet goes to its destination or to the gateway, and
`ARP::resolve` finds the hardware address in a cache of one entry.  When the address is not
there, `resolve` takes the gateway's, also for a destination on the link.

* `learnt_of_run` — the cache holds what was learnt last for its address;
* `addressed_iff_of_run` — the runs in which every packet goes to the host that was meant,
  or to all.
-/
import MesaOS.IPv4
import MesaOS.Runs

open MachineWord Runs

namespace MesaOS.Net

/-- The destination is on the link. -/
def Station.OnLink (st : Station) (destIp : U32) : Prop :=
  destIp &&& st.subnetMask = st.myIp &&& st.subnetMask

instance (st : Station) (destIp : U32) : Decidable (st.OnLink destIp) :=
  inferInstanceAs (Decidable (_ = _))

/-- The host on the link that a packet is meant for. -/
def Station.meant (st : Station) (destIp : U32) : U32 :=
  if st.OnLink destIp then destIp else st.gatewayIp

/-- What reaches a station, and what it is asked to send. -/
inductive LinkEvent where
  | arp (data : ℕ → U8) (size : U32)
  | send (destIp : U32) (protocol : U8) (data : List U8)

/-- A station, and the hardware address learnt last for each address. -/
structure Linked where
  st : Station
  nextId : U16
  learnt : U32 → Option Mac

namespace Linked

/-- A message from which `ARP::handle_packet` learns. -/
def Teaches (st : Station) (data : ℕ → U8) (size : U32) : Prop :=
  ¬ size < 28 ∧ get32 data 24 = st.myIp

instance (st : Station) (data : ℕ → U8) (size : U32) : Decidable (Teaches st data size) :=
  inferInstanceAs (Decidable (_ ∧ _))

def step (l : Linked) : LinkEvent → Option Linked
  | .arp data size =>
    some
      { l with
        st := { l.st with toHost := (ARP.handlePacket l.st.toHost data size).1 }
        learnt := if Teaches l.st data size then
            Function.update l.learnt (get32 data 14) (some (macAt data 8))
          else l.learnt }
  | .send destIp protocol data =>
    some { l with nextId := (IPv4.sendPacket l.st l.nextId destIp protocol data).1 }

/-- A station at boot, with its address, netmask and gateway. -/
def start (st : Station) : Linked where
  st := { st with cacheIp := 0, cacheMac := broadcastMac }
  nextId := 0x1234
  learnt := fun _ => none

/-- A packet is sent to the host that is meant, under the address that was learnt last, or to
all. -/
def Addressed (l : Linked) : LinkEvent → Prop
  | .arp .. => True
  | .send destIp protocol data =>
    ∃ frame ∈ (IPv4.sendPacket l.st l.nextId destIp protocol data).2.getLast?,
      macAt (bufferOf frame) 0 = broadcastMac ∨
        l.learnt (l.st.meant destIp) = some (macAt (bufferOf frame) 0)

/-- `resolve` takes the cached address for a host that it does not belong to: the gateway's for
another host on the link, or, without a gateway, that of a host that is not on the link. -/
def Mistaken (l : Linked) (destIp : U32) : Prop :=
  if l.st.OnLink destIp then
    l.st.gatewayIp ≠ 0 ∧ destIp ≠ l.st.gatewayIp ∧ l.st.gatewayIp = l.st.cacheIp
  else l.st.gatewayIp = 0 ∧ destIp = l.st.cacheIp ∧ l.st.cacheIp ≠ 0

/-- The cached address is not mistaken, or stands for all, or for the host that is meant. -/
def Harmless (l : Linked) : LinkEvent → Prop
  | .arp .. => True
  | .send destIp _ _ => ¬ l.Mistaken destIp ∨ l.st.cacheMac = broadcastMac ∨
    l.learnt (l.st.meant destIp) = some l.st.cacheMac

/-! ### The cache -/

/-- The cache holds the address that was learnt last for its host. -/
def Learnt (l : Linked) : Prop :=
  l.st.cacheIp ≠ 0 → l.learnt l.st.cacheIp = some l.st.cacheMac

theorem learnt_start (st : Station) : (start st).Learnt := fun h => absurd rfl h

theorem handlePacket_cache (st : Station) (data : ℕ → U8) (size : U32) :
    ((ARP.handlePacket st.toHost data size).1.cacheIp,
      (ARP.handlePacket st.toHost data size).1.cacheMac) =
      if Teaches st data size then (get32 data 14, macAt data 8)
      else (st.cacheIp, st.cacheMac) := by
  rw [ARP.handlePacket]
  by_cases hsize : size < 28
  · rw [if_pos hsize, if_neg fun h => h.1 hsize]
  · rw [if_neg hsize]
    dsimp only
    by_cases hdest : get32 data 24 = st.myIp
    · rw [if_pos (show Teaches st data size from ⟨hsize, hdest⟩), if_pos hdest]
      split <;> rfl
    · rw [if_neg fun h : Teaches st data size => hdest h.2, if_neg hdest]
      split <;> rfl

theorem learnt_step {l l' : Linked} {e : LinkEvent} (h : l.Learnt) (hstep : l.step e = some l') :
    l'.Learnt := by
  cases e with
  | arp data size =>
    obtain rfl := Option.some_inj.mp hstep
    have hcache := handlePacket_cache l.st data size
    intro hne
    dsimp only at hne ⊢
    by_cases hteach : Teaches l.st data size
    · rw [if_pos hteach] at hcache ⊢
      obtain ⟨hip, hmac⟩ := Prod.mk.inj hcache
      rw [hip, hmac, Function.update_self]
    · rw [if_neg hteach] at hcache ⊢
      obtain ⟨hip, hmac⟩ := Prod.mk.inj hcache
      rw [hip] at hne ⊢
      rw [hmac]
      exact h hne
  | send destIp protocol data =>
    obtain rfl := Option.some_inj.mp hstep
    exact h

/-- **The cache holds what was learnt last**, in every run. -/
theorem learnt_of_run {st : Station} {events : List LinkEvent} {l : Linked}
    (hrun : run step (start st) events = some l) : l.Learnt :=
  run_keeps (fun _ _ _ => learnt_step) (learnt_start st) hrun

/-! ### Where a packet goes -/

/-- The destination in the header of a frame. -/
theorem macAt_sendPacket (host : Host) (destMac : Mac) (type : U16) (data : List U8) :
    macAt (bufferOf (Ethernet.sendPacket host destMac type data)) 0 = destMac := by
  have hbytes : Ethernet.sendPacket host destMac type data =
      [] ++ (destMac.bytes ++ ((Ethernet.getMacAddress host).bytes ++
        (le16 (swapUint16 type) ++ data))) := by
    rw [Ethernet.sendPacket, List.nil_append, List.append_assoc, List.append_assoc]
  exact macAt_eq hbytes rfl

/-- The address that `resolve` returns. -/
theorem resolve_mac (host : Host) (targetIp : U32) :
    (ARP.resolve host targetIp).1 =
      if targetIp = host.cacheIp ∧ host.cacheIp ≠ 0 then host.cacheMac
      else if host.gatewayIp ≠ 0 ∧ targetIp ≠ host.gatewayIp ∧ host.gatewayIp = host.cacheIp then
        host.cacheMac
      else broadcastMac := by
  rw [ARP.resolve]
  by_cases hcached : targetIp = host.cacheIp ∧ host.cacheIp ≠ 0
  · rw [if_pos hcached, if_pos hcached]
  rw [if_neg hcached, if_neg hcached]
  by_cases hother : host.gatewayIp ≠ 0 ∧ targetIp ≠ host.gatewayIp
  · rw [if_pos hother]
    by_cases hgateway : host.gatewayIp = host.cacheIp
    · rw [if_pos hgateway, if_pos ⟨hother.1, hother.2, hgateway⟩]
    · rw [if_neg hgateway, if_neg fun h => hgateway h.2.2]
  · rw [if_neg hother, if_neg fun h => hother ⟨h.1, h.2.1⟩]

theorem addressed_send_iff (l : Linked) (destIp : U32) (protocol : U8) (data : List U8) :
    l.Addressed (.send destIp protocol data) ↔
      (ARP.resolve l.st.toHost (IPv4.nextHop l.st destIp)).1 = broadcastMac ∨
        l.learnt (l.st.meant destIp) =
          some (ARP.resolve l.st.toHost (IPv4.nextHop l.st destIp)).1 := by
  rw [Addressed, IPv4.sendPacket]
  dsimp only
  rw [List.getLast?_concat]
  constructor
  · rintro ⟨frame, hframe, hmac⟩
    obtain rfl := Option.some_inj.mp hframe
    rwa [macAt_sendPacket] at hmac
  · intro hmac
    refine ⟨_, rfl, ?_⟩
    rwa [macAt_sendPacket]

theorem nextHop_onLink {st : Station} {destIp : U32} (h : st.OnLink destIp) :
    IPv4.nextHop st destIp = destIp := by
  have hlocal : ¬ destIp &&& st.subnetMask ≠ st.myIp &&& st.subnetMask := not_not.mpr h
  rw [IPv4.nextHop, if_neg hlocal, ite_self]

/-- Off the link there is a netmask. -/
theorem nextHop_offLink {st : Station} {destIp : U32} (h : ¬ st.OnLink destIp) :
    IPv4.nextHop st destIp = if st.gatewayIp ≠ 0 then st.gatewayIp else destIp := by
  have hmask : st.subnetMask ≠ 0 := by
    intro hzero
    apply h
    rw [Station.OnLink, hzero]
    exact BitVec.and_zero.trans BitVec.and_zero.symm
  have hremote : destIp &&& st.subnetMask ≠ st.myIp &&& st.subnetMask := h
  rw [IPv4.nextHop, if_pos hremote]
  by_cases hgateway : st.gatewayIp ≠ 0
  · rw [if_pos hgateway, if_pos ⟨hgateway, hmask⟩]
  · rw [if_neg hgateway, if_neg fun hw => hgateway hw.1]

theorem addressed_iff {l : Linked} (h : l.Learnt) (e : LinkEvent) :
    l.Addressed e ↔ l.Harmless e := by
  cases e with
  | arp data size => exact Iff.rfl
  | send destIp protocol data =>
    rw [addressed_send_iff, Harmless, Mistaken, resolve_mac]
    by_cases hon : l.st.OnLink destIp
    · have hmeant : l.st.meant destIp = destIp := if_pos hon
      rw [nextHop_onLink hon, if_pos hon, hmeant]
      by_cases hcached : destIp = l.st.cacheIp ∧ l.st.cacheIp ≠ 0
      · -- the destination itself is in the cache
        rw [if_pos hcached]
        refine iff_of_true (.inr ?_) (.inl fun hw => hw.2.1 (hcached.1.trans hw.2.2.symm))
        rw [hcached.1]
        exact h hcached.2
      · rw [if_neg hcached]
        -- `resolve` takes the gateway's entry for any other host, also for one on the link
        by_cases hgateway : l.st.gatewayIp ≠ 0 ∧ destIp ≠ l.st.gatewayIp ∧
            l.st.gatewayIp = l.st.cacheIp
        · rw [if_pos hgateway]
          exact (or_iff_right fun hw => hw hgateway).symm
        · rw [if_neg hgateway]
          exact iff_of_true (.inl rfl) (.inl hgateway)
    · have hmeant : l.st.meant destIp = l.st.gatewayIp := if_neg hon
      rw [nextHop_offLink hon, if_neg hon, hmeant]
      by_cases hgateway : l.st.gatewayIp ≠ 0
      · rw [if_pos hgateway]
        -- the next hop is the gateway, and only its own entry is taken
        refine iff_of_true ?_ (.inl fun hw => hgateway hw.1)
        by_cases hcached : l.st.gatewayIp = l.st.cacheIp ∧ l.st.cacheIp ≠ 0
        · rw [if_pos hcached]
          refine .inr ?_
          rw [hcached.1]
          exact h hcached.2
        · rw [if_neg hcached, if_neg fun hw => hw.2.1 rfl]
          exact .inl rfl
      · rw [if_neg hgateway]
        -- without a gateway the destination itself is looked up
        rw [not_not] at hgateway
        by_cases hcached : destIp = l.st.cacheIp ∧ l.st.cacheIp ≠ 0
        · rw [if_pos hcached]
          exact (or_iff_right fun hw => hw ⟨hgateway, hcached⟩).symm
        · rw [if_neg hcached, if_neg fun hw => hw.1 hgateway]
          exact iff_of_true (.inl rfl) (.inl fun hw => hcached hw.2)

/-- **The runs in which no packet goes to a third host**: those in which the cached address is
never taken for a host that it does not belong to. -/
theorem addressed_iff_of_run (st : Station) (events : List LinkEvent) :
    Guarded step Addressed (start st) events ↔ Guarded step Harmless (start st) events :=
  guarded_congr (fun _ _ _ h _ => learnt_step h) (fun _ e h => addressed_iff h e) (learnt_start st)

/-- A station with the address 10.0.0.2, and a gateway at 10.0.0.1. -/
def behindGateway : Station :=
  { freshStation 0x0200000A 0x56 with subnetMask := 0x00FFFFFF, gatewayIp := 0x0100000A }

/-- The gateway asks for the station's address, and the station sends to 10.0.0.3. -/
def localSend : List LinkEvent :=
  [.arp (bufferOf (ARP.request (freshHost 0x0100000A 0x57) 0x0200000A).bytes) 28,
    .send 0x0300000A 17 []]

/-- **A packet to the wrong host**: one for a host on the link is sent to the gateway. -/
theorem localSend_not_addressed : ¬ ∀ st events, Guarded step Addressed (start st) events := by
  intro h
  have hsend := ((h behindGateway localSend).2 _ rfl).1
  rw [addressed_send_iff] at hsend
  exact absurd hsend (by decide)

end Linked

end MesaOS.Net
