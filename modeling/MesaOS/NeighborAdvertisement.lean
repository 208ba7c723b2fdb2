/-
Neighbor advertisements (`IPv6::send_neighbor_advertisement`).

The payload is allocated and sent with 24 bytes, which end with the target address.  The option
with the hardware address is written behind them, and the checksum is the plain 16-bit sum of
the 24 bytes, without pseudo-header, without carries and not complemented.

* `advertisement_eq` — the bytes that are sent;
* `verifies_advertisement_iff` — when the receiver accepts their checksum nevertheless;
* `wellSent_iff` — an advertisement is as it should be just when none is sent.
-/
import MesaOS.IPv6
import MesaOS.OnesComplement
import MesaOS.StoreLog

open MachineWord NetworkOrder OnesComplement StoreLog

namespace RFC4861

/-- The pseudo-header of IPv6 for ICMPv6: the addresses, the length and the protocol. -/
def pseudoHeader (source destination : List U8) (length : ℕ) : List U8 :=
  source ++ (destination ++ [BitVec.ofNat 8 (length / 2 ^ 24), BitVec.ofNat 8 (length / 2 ^ 16),
    BitVec.ofNat 8 (length / 2 ^ 8), BitVec.ofNat 8 length, 0, 0, 0, 58])

/-- The receiver's test: the sum has all its bits set. -/
def Verifies (source destination payload : List U8) : Prop :=
  fold (sumBE (pseudoHeader source destination payload.length ++ payload)) = 0xFFFF

instance (source destination payload : List U8) : Decidable (Verifies source destination payload) :=
  inferInstanceAs (Decidable (_ = _))

/-- A neighbor advertisement for `target` with the hardware address `mac`.  The options follow
the target address, and each takes a multiple of eight bytes. -/
structure Advertisement (source destination target mac payload : List U8) : Prop where
  header : payload.take 2 = [136, 0]
  target : (payload.drop 8).take 16 = target
  option : ∃ k, (payload.drop (24 + 8 * k)).take 8 = [2, 1] ++ mac
  checksum : Verifies source destination payload

end RFC4861

namespace MesaOS.Net.IPv6

/-- The source address that `send_packet` puts into the header. -/
def sourceAddr (v6 : IPv6) : IPv6Addr := if v6.hasGlobalAddr then v6.globalAddr else v6.linkLocalAddr

/-- `payload_size` -/
def advertisementSize : U32 := 24

/-- What is written before the checksum: the header, the target address and the option. -/
def advertisementStores (host : Host) (target : IPv6Addr) : List (ℕ × U8) :=
  copy 0 [136, 0, 0, 0, 0x60, 0, 0, 0] ++ copy 8 target.bytes ++
    (copy 24 [2, 1] ++ copy 26 (Ethernet.getMacAddress host).bytes)

/-- The loop over the payload. -/
def advertisementSum (payload : ℕ → U8) : U16 :=
  (List.range (advertisementSize.toNat / 2)).foldl (fun checksum k =>
    checksum + ((payload (2 * k)).setWidth 16 <<< 8 ||| (payload (2 * k + 1)).setWidth 16)) 0

/-- A call of `send_packet`, and the places of the payload that were written before it. -/
structure SendCall where
  written : List ℕ
  dest : IPv6Addr
  nextHeader : U8
  payload : ℕ → U8
  payloadSize : U32

/-- `IPv6::send_neighbor_advertisement`; `block` is what `kmalloc` returns, with the bytes in it
and behind it. -/
def sendNeighborAdvertisement (host : Host) (dest target : IPv6Addr) (block : Option (ℕ → U8)) :
    Option SendCall :=
  block.map fun payload =>
    let stores := advertisementStores host target
    let payload := apply payload stores
    let checksum := advertisementSum payload
    let field := copy 2 [((checksum >>> 8) &&& 0xFF).setWidth 8, (checksum &&& 0xFF).setWidth 8]
    { written := places (stores ++ field), dest := dest, nextHeader := 58
      payload := apply payload field, payloadSize := advertisementSize }

/-- The payload that is handed over. -/
def SendCall.bytes (call : SendCall) : List U8 :=
  (List.range call.payloadSize.toNat).map call.payload

/-- Nothing is written outside the allocated payload, and what is handed over is an
advertisement. -/
def WellSent (v6 : IPv6) (host : Host) (dest target : IPv6Addr) (block : Option (ℕ → U8)) : Prop :=
  ∀ call, sendNeighborAdvertisement host dest target block = some call →
    (∀ i ∈ call.written, i < advertisementSize.toNat) ∧
      RFC4861.Advertisement v6.sourceAddr.bytes call.dest.bytes target.bytes
        (Ethernet.getMacAddress host).bytes call.bytes

/-! ### What is sent -/

section

variable (host : Host) (dest target : IPv6Addr) (payload : ℕ → U8)

/-- The 24 bytes before the checksum is stored. -/
def unchecked (target : IPv6Addr) : List U8 := [136, 0, 0, 0, 0x60, 0, 0, 0] ++ target.bytes

theorem length_unchecked : (unchecked target).length = 24 := by
  rw [unchecked, List.length_append, target.size]
  rfl

theorem apply_advertisementStores {i : ℕ} (h : i < 24) :
    apply payload (advertisementStores host target) i = bufferOf (unchecked target) i := by
  have hlength := length_unchecked target
  have hfront : copy 0 [136, 0, 0, 0, 0x60, 0, 0, 0] ++ copy 8 target.bytes =
      copy 0 (unchecked target) := (copy_append 0 _ _).symm
  have hcopy := apply_copy (m := payload) (a := 0) (l := unchecked target) (k := i) (by omega)
  rw [Nat.zero_add] at hcopy
  -- the option lies behind the 24 bytes
  rw [advertisementStores, hfront, apply_append, apply_append, apply_copy_outside (.inl (by omega)),
    apply_copy_outside (.inl h), hcopy, bufferOf, List.getD_eq_getElem]

/-- The checksum is the sum without the carries. -/
theorem toNat_advertisementSum :
    (advertisementSum (apply payload (advertisementStores host target))).toNat =
      sumBE (unchecked target) % 2 ^ 16 := by
  have hlength := length_unchecked target
  have hsum := toNat_foldl_wordsBE (l := unchecked target) (k := 12)
    (p := apply payload (advertisementStores host target))
    (fun i hi => apply_advertisementStores host target payload (by omega)) (by omega)
  rw [List.take_of_length_le (by omega)] at hsum
  exact hsum

/-- The checksum that is stored. -/
def advertisementChecksum (target : IPv6Addr) : U16 :=
  BitVec.ofNat 16 (sumBE (unchecked target))

variable {host dest target payload}

/-- **The bytes that are sent.** -/
theorem advertisement_eq {call : SendCall}
    (h : sendNeighborAdvertisement host dest target (some payload) = some call) :
    call.bytes = [136, 0] ++ ([(advertisementChecksum target).extractLsb' 8 8,
      (advertisementChecksum target).extractLsb' 0 8] ++ ([0x60, 0, 0, 0] ++ target.bytes)) := by
  obtain rfl := Option.some.inj h
  have hchecksum : advertisementSum (apply payload (advertisementStores host target)) =
      advertisementChecksum target := by
    refine BitVec.eq_of_toNat_eq ?_
    rw [toNat_advertisementSum, advertisementChecksum, BitVec.toNat_ofNat]
  have hbyte : ∀ k, ((advertisementChecksum target >>> k) &&& 0xFF).setWidth 8 =
      (advertisementChecksum target).extractLsb' k 8 := fun k =>
    shiftRight_and_setWidth _ k (by decide)
  have hlow := hbyte 0
  rw [BitVec.ushiftRight_zero] at hlow
  have hfilled : (List.range 24).map (apply payload (advertisementStores host target)) =
      unchecked target := by
    have hlength := length_unchecked target
    refine List.ext_getElem (by simp [hlength]) fun i hi hi' => ?_
    rw [List.getElem_map, List.getElem_range,
      apply_advertisementStores host target payload (by omega), bufferOf, List.getD_eq_getElem]
  rw [SendCall.bytes]
  dsimp only
  rw [hchecksum, hbyte, hlow, show advertisementSize.toNat = 24 from rfl,
    map_range_apply_copy _ (by simp), hfilled]
  rfl

/-- **When the checksum is accepted**: what the code adds up and what it stores come to a
multiple of `65535` with the addresses, the length and the protocol. -/
theorem verifies_advertisement_iff {v6 : IPv6} {call : SendCall}
    (h : sendNeighborAdvertisement host dest target (some payload) = some call) :
    RFC4861.Verifies v6.sourceAddr.bytes dest.bytes call.bytes ↔
      (sumBE v6.sourceAddr.bytes + sumBE dest.bytes + 82 + sumBE (unchecked target) +
        sumBE (unchecked target) % 2 ^ 16) % 65535 = 0 := by
  have hsource : v6.sourceAddr.bytes.length % 2 = 0 := by rw [v6.sourceAddr.size]
  have hdest : dest.bytes.length % 2 = 0 := by rw [dest.size]
  have hlength : call.bytes.length = 24 := by
    rw [advertisement_eq h]
    simp [target.size]
  -- the stored bytes add the checksum to the sum
  have hbytes : sumBE call.bytes = sumBE (unchecked target) + sumBE (unchecked target) % 2 ^ 16 := by
    have hchecksum : (advertisementChecksum target).toNat = sumBE (unchecked target) % 2 ^ 16 :=
      BitVec.toNat_ofNat ..
    have hlt := (advertisementChecksum target).isLt
    have hword : ((advertisementChecksum target).extractLsb' 8 8).toNat * 256 +
        ((advertisementChecksum target).extractLsb' 0 8).toNat =
          (advertisementChecksum target).toNat := by
      rw [BitVec.extractLsb'_toNat, BitVec.extractLsb'_toNat, Nat.shiftRight_eq_div_pow,
        Nat.shiftRight_eq_div_pow]
      generalize (advertisementChecksum target).toNat = x at hlt
      omega
    rw [advertisement_eq h, sumBE_second_word, hword, hchecksum]
    rfl
  rw [RFC4861.Verifies, fold_eq_max_iff, RFC4861.pseudoHeader, hlength, List.append_assoc,
    List.append_assoc, sumBE_append hsource, sumBE_append hdest, sumBE_append (by rfl), hbytes]
  have hpseudo : sumBE [BitVec.ofNat 8 (24 / 2 ^ 24), BitVec.ofNat 8 (24 / 2 ^ 16),
      BitVec.ofNat 8 (24 / 2 ^ 8), BitVec.ofNat 8 24, 0, 0, 0, 58] = 82 := by decide
  rw [hpseudo]
  omega

/-- There is no room for the option. -/
theorem option_notMem {call : SendCall} {mac : List U8}
    (h : sendNeighborAdvertisement host dest target (some payload) = some call) :
    ¬ ∃ k, (call.bytes.drop (24 + 8 * k)).take 8 = [2, 1] ++ mac := by
  rintro ⟨k, hoption⟩
  have hlength : call.bytes.length = 24 := by
    rw [advertisement_eq h]
    simp [target.size]
  rw [List.drop_eq_nil_of_le (by omega), List.take_nil] at hoption
  exact absurd hoption.symm (List.cons_ne_nil _ _)

/-- **An advertisement is as it should be** just when none is sent. -/
theorem wellSent_iff (v6 : IPv6) (block : Option (ℕ → U8)) :
    WellSent v6 host dest target block ↔ block = none := by
  constructor
  · intro h
    cases block with
    | none => rfl
    | some payload =>
      obtain ⟨-, hadvertisement⟩ := h _ rfl
      exact absurd hadvertisement.option (option_notMem rfl)
  · rintro rfl call hcall
    exact absurd hcall.symm (Option.some_ne_none call)

end

/-- The advertisement for the own link-local address. -/
theorem advertisement_not_wellSent :
    ¬ ∀ (v6 : IPv6) (host : Host) (dest target : IPv6Addr) (block : Option (ℕ → U8)),
      WellSent v6 host dest target block := by
  intro h
  obtain ⟨hwritten, -⟩ := h freshIPv6 (freshHost 0 0x56) freshIPv6.linkLocalAddr
    freshIPv6.linkLocalAddr (some fun _ => 0) _ rfl
  exact absurd (hwritten 31 (by decide)) (by decide)

end MesaOS.Net.IPv6
