/-
The checksum of a segment (`TCP::calculate_checksum`).

The code adds the words of the addresses and of the segment as the machine reads them, low
byte first, which gives the right checksum in the machine's byte order.  But it adds the
protocol and the length as plain numbers, where the other words are swapped.  The two come
to the same only modulo 257.

* `toNat_calculateChecksum` — the value of the checksum;
* `verifies_iff` — when the receiver of a segment accepts it;
* `not_verifies_emit` — no segment without payload that `send_packet` builds is accepted.
-/
import MesaOS.TCPSegment

open MachineWord OnesComplement RFC793

namespace MesaOS.Net

theorem toNat_addHalves (x : U32) :
    (addHalves x).toNat = x.toNat % 2 ^ 16 + x.toNat / 2 ^ 16 := by
  have hx := x.isLt
  have hlow : (x &&& (0xFFFF : U32)).toNat = x.toNat % 2 ^ 16 :=
    toNat_and_lowMask x (k := 16) (by decide)
  rw [addHalves, BitVec.toNat_add, hlow, BitVec.toNat_ushiftRight, Nat.shiftRight_eq_div_pow,
    Nat.mod_eq_of_lt (by omega)]

/-- The loop of the code folds. -/
theorem toNat_foldSum (sum : U32) : (foldSum sum).toNat = fold sum.toNat := by
  induction sum using foldSum.induct with
  | case1 sum h ih =>
    have hhigh : ¬sum.toNat < 2 ^ 16 := by
      intro hlt
      refine h (BitVec.eq_of_toNat_eq ?_)
      rw [BitVec.toNat_ushiftRight, Nat.shiftRight_eq_div_pow, Nat.div_eq_of_lt hlt]
      rfl
    rw [foldSum, dif_pos h, ih, toNat_addHalves, fold.eq_def sum.toNat, if_neg hhigh]
  | case2 sum h =>
    have hlow : sum.toNat < 2 ^ 16 := by
      have hzero := congrArg BitVec.toNat (not_not.mp h)
      rw [BitVec.toNat_ushiftRight, Nat.shiftRight_eq_div_pow] at hzero
      exact (Nat.div_eq_zero_iff_lt (by decide)).mp hzero
    rw [foldSum, dif_neg h, fold, if_pos hlow]

/-- What the code adds up: the length and the protocol as they are, the rest low byte first. -/
def checksumSum (segment : List U8) (srcIp destIp : U32) : ℕ :=
  sumLE (le32 srcIp ++ le32 destIp) + 6 + segment.length + sumLE segment

theorem checksumSum_lt {segment : List U8} (h : segment.length < 2 ^ 16) (srcIp destIp : U32) :
    checksumSum segment srcIp destIp < 2 ^ 32 := by
  have hsegment := sumLE_le segment
  have hips := sumLE_le (le32 srcIp ++ le32 destIp)
  rw [List.length_append, show (le32 srcIp).length = 4 from rfl,
    show (le32 destIp).length = 4 from rfl] at hips
  rw [checksumSum]
  omega

/-- **The value of the checksum.** -/
theorem toNat_calculateChecksum {segment : List U8} (h : segment.length < 2 ^ 16)
    (srcIp destIp : U32) :
    (calculateChecksum (bufferOf segment) srcIp destIp (BitVec.ofNat 32 segment.length)).toNat =
      65535 - fold (checksumSum segment srcIp destIp) := by
  have hlt := checksumSum_lt h srcIp destIp
  have hlength : (BitVec.ofNat 32 segment.length).toNat = segment.length := by
    rw [BitVec.toNat_ofNat, Nat.mod_eq_of_lt (by omega)]
  have hsplit := sumLE_eq_take segment
  have htake := sumLE_le (segment.take (2 * (segment.length / 2)))
  have htakeLength : (segment.take (2 * (segment.length / 2))).length ≤ 2 * (segment.length / 2) :=
    List.length_take_le ..
  have hips : sumLE (le32 srcIp ++ le32 destIp) =
      (addHalves srcIp).toNat + (addHalves destIp).toNat := by
    rw [sumLE_append (even_le32 srcIp), sumLE_le32, sumLE_le32, toNat_addHalves, toNat_addHalves]
  rw [checksumSum, hips] at hlt ⊢
  -- the sum of the pseudo header
  have hstart : (addHalves srcIp + addHalves destIp + 6 + BitVec.ofNat 32 segment.length).toNat =
      (addHalves srcIp).toNat + (addHalves destIp).toNat + 6 + segment.length := by
    rw [BitVec.toNat_add, BitVec.toNat_add, BitVec.toNat_add, hlength,
      show (6 : U32).toNat = 6 from rfl]
    omega
  -- 32 bits are enough for all words
  have hroom : (addHalves srcIp).toNat + (addHalves destIp).toNat + 6 + segment.length +
      65535 * (segment.length / 2) < 2 ^ 32 := by
    have hsrc := srcIp.isLt
    have hdest := destIp.isLt
    rw [toNat_addHalves, toNat_addHalves]
    omega
  have hloop := toNat_foldl_words segment
    (addHalves srcIp + addHalves destIp + 6 + BitVec.ofNat 32 segment.length)
    (k := segment.length / 2) (by omega) (by rw [hstart]; exact hroom)
  rw [hstart] at hloop
  have hodd : BitVec.ofNat 32 segment.length % 2 ≠ 0 ↔ segment.length % 2 ≠ 0 := by
    rw [ne_eq, ne_eq, ← BitVec.toNat_inj, BitVec.toNat_umod, hlength]
    rfl
  rw [calculateChecksum, hlength, if_congr hodd rfl rfl]
  set sum := (List.range (segment.length / 2)).foldl
    (fun sum i => sum + (get16 (bufferOf segment) (2 * i)).setWidth 32)
    (addHalves srcIp + addHalves destIp + 6 + BitVec.ofNat 32 segment.length) with hsum
  -- the odd byte
  have htotal : (if segment.length % 2 ≠ 0 then
      sum + (bufferOf segment (segment.length - 1)).setWidth 32 else sum : U32).toNat =
      (addHalves srcIp).toNat + (addHalves destIp).toNat + 6 + segment.length + sumLE segment := by
    by_cases h2 : segment.length % 2 ≠ 0
    · rw [if_pos h2] at hsplit ⊢
      have hbyte := (bufferOf segment (segment.length - 1)).isLt
      rw [BitVec.toNat_add, BitVec.toNat_setWidth, hloop]
      omega
    · rw [if_neg h2] at hsplit ⊢
      rw [hloop]
      omega
  have hfold := fold_lt
    ((addHalves srcIp).toNat + (addHalves destIp).toNat + 6 + segment.length + sumLE segment)
  rw [BitVec.toNat_setWidth, BitVec.toNat_not, toNat_foldSum, htotal]
  omega

/-- The segment with a word at the place of the checksum. -/
def withChecksum (segment : List U8) (checksum : U16) : List U8 :=
  segment.take 16 ++ (le16 checksum ++ segment.drop 18)

theorem length_withChecksum {segment : List U8} (h : 18 ≤ segment.length) (checksum : U16) :
    (withChecksum segment checksum).length = segment.length :=
  length_storeWord h checksum

section

variable {segment : List U8} (srcIp destIp : U32)

/-- The segment as `send_packet` hands it to IPv4. -/
def checksummed (segment : List U8) (srcIp destIp : U32) : List U8 :=
  withChecksum segment
    (calculateChecksum (bufferOf segment) srcIp destIp (BitVec.ofNat 32 segment.length))

/-- The receiver adds the length and the protocol high byte first, like the other words. -/
theorem sumBE_received (h : segment.length < 2 ^ 16) (received : List U8) :
    sumBE (pseudoHeader (le32 srcIp) (le32 destIp) segment.length ++ received) =
      sumBE (le32 srcIp ++ le32 destIp) + 6 + segment.length + sumBE received := by
  have hips : (le32 srcIp ++ le32 destIp).length % 2 = 0 := by
    rw [List.length_append, Nat.add_mod, even_le32, even_le32]
  rw [pseudoHeader, List.append_assoc, sumBE_append hips, List.cons_append, List.cons_append,
    List.cons_append, List.cons_append, List.nil_append, sumBE, sumBE, BitVec.toNat_ofNat,
    BitVec.toNat_ofNat, show (0 : U8).toNat = 0 from rfl, show (6 : U8).toNat = 6 from rfl]
  omega

/-- The checksum makes the sum of all words read low byte first a multiple of `65535`.  The
receiver's sum is that one times 256, but for the length and the protocol. -/
theorem received_mod_iff (hmin : 20 ≤ segment.length) (hmax : segment.length < 2 ^ 16)
    (hzero : get16 (bufferOf segment) 16 = 0) :
    sumBE (pseudoHeader (le32 srcIp) (le32 destIp) segment.length ++
      checksummed segment srcIp destIp) % 65535 = 0 ↔ 257 ∣ segment.length + 6 := by
  rw [sumBE_received _ _ hmax, checksummed]
  have hvalue := toNat_calculateChecksum hmax srcIp destIp
  generalize calculateChecksum (bufferOf segment) srcIp destIp
    (BitVec.ofNat 32 segment.length) = checksum at hvalue ⊢
  have hstored : sumLE (withChecksum segment checksum) = sumLE segment + checksum.toNat :=
    sumLE_storeWord (by omega) rfl hzero checksum
  have hsegment := sumBE_mod (withChecksum segment checksum)
  have haddresses := sumBE_mod (le32 srcIp ++ le32 destIp)
  have hfold := fold_mod (checksumSum segment srcIp destIp)
  have hlt := fold_lt (checksumSum segment srcIp destIp)
  rw [checksumSum] at hvalue hfold hlt
  rw [hstored] at hsegment
  -- what is left is `-255 * (length + 6)`, and `65535` is `255 * 257`
  generalize fold (sumLE (le32 srcIp ++ le32 destIp) + 6 + segment.length + sumLE segment) = f
    at hvalue hfold hlt
  omega

/-- **When the receiver accepts the segment**: the protocol and the length, added as they are,
come to what they should modulo 257 only. -/
theorem verifies_iff (hmin : 20 ≤ segment.length) (hmax : segment.length < 2 ^ 16)
    (hzero : get16 (bufferOf segment) 16 = 0) :
    Verifies (le32 srcIp) (le32 destIp) (checksummed segment srcIp destIp) ↔
      257 ∣ segment.length + 6 := by
  have hpositive : 0 < sumBE (pseudoHeader (le32 srcIp) (le32 destIp) segment.length ++
      checksummed segment srcIp destIp) := by
    rw [sumBE_received _ _ hmax]
    omega
  rw [Verifies, checksummed, length_withChecksum (by omega), ← checksummed, fold_eq_max_iff,
    and_iff_right hpositive, received_mod_iff srcIp destIp hmin hmax hzero]

end

/-- A segment of zeros. -/
def blank (n : ℕ) : List U8 := List.replicate n 0

theorem get16_blank (n i : ℕ) : get16 (bufferOf (blank n)) i = 0 := by
  have hbyte : ∀ k, bufferOf (blank n) k = 0 := fun k => by
    rw [bufferOf, List.getD_eq_getElem?_getD, blank, List.getElem?_replicate]
    split <;> rfl
  rw [get16, hbyte, hbyte]
  rfl

/-- One of 251 bytes is accepted. -/
theorem verifies_iff_251 : Verifies (le32 0x0A000001) (le32 0x0A000002)
    (checksummed (blank 251) 0x0A000001 0x0A000002) := by
  have hlength : (blank 251).length = 251 := List.length_replicate
  exact (verifies_iff 0x0A000001 0x0A000002 (by rw [hlength]; decide) (by rw [hlength]; decide)
    (get16_blank 251 16)).mpr (by rw [hlength])

/-! ### What `send_packet` builds -/

/-- The checksum of a segment lies between its first sixteen bytes and the urgent pointer. -/
theorem segmentBytes_eq (conn : TCPConnection) (flags : U8) (checksum : U16)
    (payload : List U8) :
    segmentBytes conn flags checksum payload =
      (le16 conn.localPort ++ le16 conn.remotePort ++ le32 conn.seqNumber ++
        le32 conn.ackNumber ++ [(20 / 4 : U8) <<< 4, flags] ++
          le16 (conn.advertisedWindow.setWidth 16)) ++ (le16 checksum ++ (le16 0 ++ payload)) := by
  simp only [segmentBytes, List.append_assoc]

theorem emit_eq_checksummed (conn : TCPConnection) (flags : U8) (payload : List U8) :
    emit conn flags payload =
      checksummed (segmentBytes conn flags 0 payload) conn.localIp conn.remoteIp := by
  rw [emit, checksummed, withChecksum, segmentBytes_eq, segmentBytes_eq]
  rfl

/-- **A segment without payload is rejected**: 257 does not divide 26. -/
theorem not_verifies_emit (conn : TCPConnection) (flags : U8) :
    ¬Verifies (le32 conn.localIp) (le32 conn.remoteIp) (emit conn flags []) := by
  have hlength : (segmentBytes conn flags 0 []).length = 20 := length_segmentBytes conn flags 0 []
  have hzero : get16 (bufferOf (segmentBytes conn flags 0 [])) 16 = 0 :=
    get16_eq _ (segmentBytes_eq conn flags 0 []) rfl
  intro h
  rw [emit_eq_checksummed, Verifies, checksummed, length_withChecksum (by rw [hlength]; decide),
    ← checksummed, fold_eq_max_iff, received_mod_iff _ _ (by rw [hlength])
      (by rw [hlength]; decide) hzero, hlength] at h
  exact absurd h.2 (by decide)

/-- The first SYN of a client. -/
theorem syn_not_verifies :
    ¬Verifies (le32 firstConnection.localIp) (le32 firstConnection.remoteIp)
      (checksummed (segmentBytes firstConnection tcpSyn 0 []) firstConnection.localIp
        firstConnection.remoteIp) :=
  emit_eq_checksummed firstConnection tcpSyn [] ▸ not_verifies_emit firstConnection tcpSyn

end MesaOS.Net
