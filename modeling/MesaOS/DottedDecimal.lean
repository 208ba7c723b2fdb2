/-
Addresses of IPv4 as text (`string_to_ip` and `ifconfig` in `shell.cpp`, `net/icmp.cpp`).

The first octet is in the low byte.  `string_to_ip` adds up the digits of an octet and shifts
it to its place at a point or at the end; other characters are skipped.

* `run_octet` — the loop over the digits of one octet;
* `stringToIp_eq` — four octets with points between them;
* `octetsText_eq`, `reply_eq` — the texts that are printed;
* `stringToIp_texts` — they are read back as the address.
-/
import MesaOS.Itoa
import MesaOS.Mediation

open MachineWord Runs StoreLog MesaOS.Libc

namespace MesaOS.System

open MesaOS.FS

/-! ### `string_to_ip` -/

/-- The character `'.'`. -/
def period : U8 := 0x2E

/-- The local variables of the loop. -/
structure OctetLoop where
  ip : U32
  octet : ℕ
  shift : ℕ

/-- `ip |= (octet << shift); shift += 8; octet = 0;`, where the shift is below the width. -/
def endOctet (v : OctetLoop) : Option OctetLoop :=
  if v.shift < 32 then
    some { ip := v.ip ||| BitVec.ofNat 32 v.octet <<< v.shift, octet := 0, shift := v.shift + 8 }
  else none

/-- `octet = octet * 10 + (str[i] - '0');`, where the sum is an `int`. -/
def addDigit (v : OctetLoop) (c : U8) : Option OctetLoop :=
  let octet := v.octet * 10 + (c.toNat - 0x30)
  if octet < 2 ^ 31 then some { v with octet := octet } else none

/-- The loop for one character before the end. -/
def octetStep (v : OctetLoop) (c : U8) : Option OctetLoop :=
  if c = period then endOctet v
  else if 0x30 ≤ c ∧ c ≤ 0x39 then addDigit v c
  else some v

/-- `string_to_ip` -/
def stringToIp (str : CString) : Option U32 :=
  (run octetStep { ip := 0, octet := 0, shift := 0 } str.bytes).bind fun v =>
    (endOctet v).map (·.ip)

/-! ### The texts -/

/-- `itoa(value, b, 10)` with `char b[16]`: the string in the buffer, and the buffer. -/
def printed (b : ℕ → U8) (value : U32) : Option (List U8 × (ℕ → U8)) :=
  (itoa b value 0 10).map fun r => (((List.range 16).map r.1).takeWhile (· ≠ 0), r.1)

/-- The octets that are printed, with points between them. -/
def octetsText (b : ℕ → U8) (ip : U32) : Option (List U8) :=
  (printed b (ip &&& 0xFF)).bind fun (first, b) =>
  (printed b (ip >>> 8 &&& 0xFF)).bind fun (second, b) =>
  (printed b (ip >>> 16 &&& 0xFF)).bind fun (third, b) =>
  (printed b (ip >>> 24 &&& 0xFF)).map fun (fourth, _) =>
    first ++ period :: (second ++ period :: (third ++ period :: fourth))

/-- What `ifconfig` prints behind `inet addr:`. -/
def inetAddr (b : ℕ → U8) (ip : U32) : Option (List U8) :=
  if ip = 0 then some (chars "0.0.0.0 (No IP assigned)") else octetsText b ip

/-! ### Reading octets -/

theorem le_of_parseDigits {b acc n : ℕ} {l : List U8} (hb : 0 < b)
    (h : parseDigits b acc l = some n) : acc ≤ n := by
  induction l generalizing acc with
  | nil => exact Nat.le_of_eq (Option.some_inj.mp h)
  | cons c l ih =>
    obtain ⟨d, -, hd⟩ := Option.bind_eq_some_iff.mp h
    split at hd
    · have hle := ih hd
      have hmul := Nat.le_mul_of_pos_right acc hb
      omega
    · exact absurd hd (Option.some_ne_none n).symm

theorem digitValue_lt_ten {c : U8} {d : ℕ} (h : digitValue c = some d) (hd : d < 10) :
    c ≠ period ∧ (0x30 ≤ c ∧ c ≤ 0x39) ∧ d = c.toNat - 0x30 := by
  rw [digitValue] at h
  split at h
  next hdigit =>
    refine ⟨?_, hdigit, (Option.some_inj.mp h).symm⟩
    rintro rfl
    exact absurd hdigit (by decide)
  next =>
    split at h
    next hletter =>
      have hle : 0x61 ≤ c.toNat := BitVec.le_def.mp hletter.1
      have heq := Option.some_inj.mp h
      omega
    next => exact absurd h (Option.some_ne_none d).symm

/-- The digits of one octet. -/
theorem run_octet {l : List U8} {v : OctetLoop} {n : ℕ}
    (h : parseDigits 10 v.octet l = some n) (hn : n < 2 ^ 31) :
    run octetStep v l = some { v with octet := n } := by
  induction l generalizing v with
  | nil =>
    rw [run_nil, ← Option.some_inj.mp h]
  | cons c l ih =>
    obtain ⟨d, hvalue, hd⟩ := Option.bind_eq_some_iff.mp h
    split at hd
    next hlt =>
      obtain ⟨hperiod, hdigit, rfl⟩ := digitValue_lt_ten hvalue hlt
      have hle := le_of_parseDigits (by decide) hd
      rw [run_cons, octetStep, if_neg hperiod, if_pos hdigit, addDigit, if_pos (by omega),
        Option.bind_some]
      exact ih hd
    next => exact absurd hd (Option.some_ne_none n).symm

/-- The address with the octets in its four bytes. -/
theorem or_shifts (a b c d : U8) :
    ((((0 : U32) ||| BitVec.ofNat 32 a.toNat <<< 0) ||| BitVec.ofNat 32 b.toNat <<< 8) |||
      BitVec.ofNat 32 c.toNat <<< 16) ||| BitVec.ofNat 32 d.toNat <<< 24 = d ++ c ++ b ++ a := by
  apply BitVec.eq_of_getLsbD_eq
  intro i hi
  simp only [BitVec.ofNat_toNat, BitVec.getLsbD_or, BitVec.getLsbD_shiftLeft,
    BitVec.getLsbD_setWidth, BitVec.getLsbD_append]
  -- the octet that the bit lies in
  rcases (by omega : i < 8 ∨ (8 ≤ i ∧ i < 16) ∨ (16 ≤ i ∧ i < 24) ∨ 24 ≤ i) with h | h | h | h
  · simp [hi, h, show i < 16 by omega, show i < 24 by omega]
  · simp [hi, h, show ¬ i < 8 by omega, show i < 24 by omega, show i - 8 < 8 by omega,
      show i - 8 < 32 by omega]
  · simp [hi, h, show ¬ i < 8 by omega, show ¬ i < 16 by omega, show ¬ i - 8 < 8 by omega,
      show i - 8 - 8 = i - 16 by omega, show i - 16 < 8 by omega, show i - 16 < 32 by omega,
      BitVec.getLsbD_of_ge a i (by omega), BitVec.getLsbD_of_ge b (i - 8) (by omega)]
  · simp [hi, show ¬ i < 8 by omega, show ¬ i < 16 by omega, show ¬ i < 24 by omega,
      show ¬ i - 8 < 8 by omega, show i - 8 - 8 = i - 16 by omega, show ¬ i - 16 < 8 by omega,
      show i - 16 - 8 = i - 24 by omega, show i - 24 < 32 by omega,
      BitVec.getLsbD_of_ge a i (by omega),
      BitVec.getLsbD_of_ge b (i - 8) (by omega), BitVec.getLsbD_of_ge c (i - 16) (by omega)]

/-- One octet, and what is done behind it. -/
theorem run_octet_end {l rest : List U8} {ip : U32} {shift : ℕ} {a : U8}
    (hl : parseUnsigned 10 l = some a.toNat) (hshift : shift < 32) :
    run octetStep { ip := ip, octet := 0, shift := shift } (l ++ period :: rest) =
      run octetStep
        { ip := ip ||| BitVec.ofNat 32 a.toNat <<< shift, octet := 0, shift := shift + 8 }
        rest := by
  have hlt := a.isLt
  rw [parseUnsigned] at hl
  split at hl
  · exact absurd hl (Option.some_ne_none _).symm
  · have hrun := run_octet (v := { ip := ip, octet := 0, shift := shift }) hl (by omega)
    rw [run_append, hrun, Option.bind_some, run_cons, octetStep, if_pos rfl, endOctet,
      if_pos hshift, Option.bind_some]

/-- **Four octets** in decimal, leading zeros or not, with points between them. -/
theorem stringToIp_eq {first second third fourth : List U8} {a b c d : U8} {str : CString}
    (hfirst : parseUnsigned 10 first = some a.toNat)
    (hsecond : parseUnsigned 10 second = some b.toNat)
    (hthird : parseUnsigned 10 third = some c.toNat)
    (hfourth : parseUnsigned 10 fourth = some d.toNat)
    (hstr : str.bytes = first ++ period :: (second ++ period :: (third ++ period :: fourth))) :
    stringToIp str = some (d ++ c ++ b ++ a) := by
  have hlt := d.isLt
  rw [stringToIp, hstr, run_octet_end hfirst (by decide), run_octet_end hsecond (by decide),
    run_octet_end hthird (by decide)]
  rw [parseUnsigned] at hfourth
  split at hfourth
  · exact absurd hfourth (Option.some_ne_none _).symm
  · -- the last octet ends with the string
    rw [run_octet hfourth (by omega), Option.bind_some]
    exact congrArg some (or_shifts a b c d)

/-! ### The printed texts -/

/-- A byte of the address, as it is printed. -/
theorem toInt_byte (ip : U32) (k : ℕ) :
    (ip >>> (8 * k) &&& 0xFF).toInt = (getByte ip k).toNat := by
  have hmask : (0xFF : U32) = lowMask 32 8 := rfl
  have hbyte : (getByte ip k).toNat = ip.toNat >>> (8 * k) % 2 ^ 8 := by
    rw [getByte, BitVec.extractLsb'_toNat]
  have htoNat : (ip >>> (8 * k) &&& 0xFF).toNat = (getByte ip k).toNat := by
    rw [hmask, toNat_and_lowMask _ (by decide), BitVec.toNat_ushiftRight, hbyte]
  have hlt := (getByte ip k).isLt
  rw [BitVec.toInt_eq_toNat_of_lt (by omega), htoNat]

theorem toInt_octets (ip : U32) :
    (ip &&& 0xFF).toInt = (getByte ip 0).toNat ∧ (ip >>> 8 &&& 0xFF).toInt = (getByte ip 1).toNat ∧
      (ip >>> 16 &&& 0xFF).toInt = (getByte ip 2).toNat ∧
      (ip >>> 24 &&& 0xFF).toInt = (getByte ip 3).toNat := by
  refine ⟨?_, toInt_byte ip 1, toInt_byte ip 2, toInt_byte ip 3⟩
  have hbyte := toInt_byte ip 0
  rwa [Nat.mul_zero, BitVec.ushiftRight_zero] at hbyte

theorem printed_eq (b : ℕ → U8) (value : U32) {octet : U8} (hvalue : value.toInt = octet.toNat) :
    ∃ b', printed b value = some (numeral 10 octet.toNat, b') := by
  have hlt := octet.isLt
  have htext : itoaText value.toInt 10 = numeral 10 octet.toNat := by
    rw [itoaText, hvalue, if_neg (by omega), List.nil_append, Int.natAbs_natCast]
  have hitoa := itoa_eq (b := 10) (by decide) (by decide) b value 0
  rw [htext] at hitoa
  have hlength : (numeral 10 octet.toNat).length ≤ 3 := by
    rw [numeral, List.length_map, List.length_reverse]
    exact length_lowDigits_le (by decide) (by decide) (by omega)
  have hnonzero : ∀ c ∈ numeral 10 octet.toNat, decide (c ≠ 0) = true := fun c hc =>
    decide_eq_true (mem_numeral (by decide) (by decide) hc).2
  have hroom : 0 + (numeral 10 octet.toNat ++ [0]).length ≤ 16 := by
    rw [List.length_append, List.length_singleton]
    omega
  refine ⟨apply b (StoreLog.copy 0 (numeral 10 octet.toNat ++ [0])), ?_⟩
  rw [printed, show (10 : ℤ) = (10 : ℕ) from rfl, hitoa, Option.map_some]
  dsimp only
  -- the buffer has room for the digits and their zero
  rw [map_range_apply_copy b hroom, List.take_zero, List.nil_append, List.append_assoc,
    List.takeWhile_append_of_pos hnonzero, List.singleton_append,
    List.takeWhile_cons_of_neg (by decide), List.append_nil]

/-- The address between points. -/
def dotted (ip : U32) : List U8 :=
  numeral 10 (getByte ip 0).toNat ++ period :: (numeral 10 (getByte ip 1).toNat ++
    period :: (numeral 10 (getByte ip 2).toNat ++ period :: numeral 10 (getByte ip 3).toNat))

theorem octetsText_eq (b : ℕ → U8) (ip : U32) : octetsText b ip = some (dotted ip) := by
  obtain ⟨hfirst, hsecond, hthird, hfourth⟩ := toInt_octets ip
  obtain ⟨b₁, h₁⟩ := printed_eq b _ hfirst
  obtain ⟨b₂, h₂⟩ := printed_eq b₁ _ hsecond
  obtain ⟨b₃, h₃⟩ := printed_eq b₂ _ hthird
  obtain ⟨b₄, h₄⟩ := printed_eq b₃ _ hfourth
  rw [octetsText, h₁, Option.bind_some]
  dsimp only
  rw [h₂, Option.bind_some]
  dsimp only
  rw [h₃, Option.bind_some]
  dsimp only
  rw [h₄, Option.map_some, dotted]

theorem noNul_dotted (ip : U32) : 0#8 ∉ dotted ip := by
  have hnumeral : ∀ n, 0#8 ∉ numeral 10 n := fun n h =>
    (mem_numeral (by decide) (by decide) h).2 rfl
  have hperiod : 0#8 ≠ period := by decide
  simp only [dotted, List.mem_append, List.mem_cons, not_or]
  exact ⟨hnumeral _, hperiod, hnumeral _, hperiod, hnumeral _, hperiod, hnumeral _⟩

/-- The four bytes of an address. -/
theorem getByte_append (ip : U32) :
    getByte ip 3 ++ getByte ip 2 ++ getByte ip 1 ++ getByte ip 0 = ip :=
  get32_le32 (d := getByte ip) (i := 0) rfl rfl rfl rfl

theorem stringToIp_dotted (ip : U32) : stringToIp ⟨dotted ip, noNul_dotted ip⟩ = some ip := by
  have hparse : ∀ k, parseUnsigned 10 (numeral 10 (getByte ip k).toNat) =
      some (getByte ip k).toNat := fun k => parseUnsigned_numeral (by decide) (by decide) _
  rw [stringToIp_eq (hparse 0) (hparse 1) (hparse 2) (hparse 3) rfl]
  exact congrArg some (getByte_append ip)

/-! ### The text of `ICMP::handle_packet` -/

theorem chars_append (s t : String) : chars (s ++ t) = chars s ++ chars t := by
  rw [chars, String.toList_append, List.map_append]
  rfl

theorem numeral_eq (n : ℕ) :
    numeral 10 n =
      if n < 10 then [digitChar n] else numeral 10 (n / 10) ++ [digitChar (n % 10)] := by
  rw [numeral, lowDigits_eq (by decide)]
  by_cases hn : n < 10
  · rw [if_pos hn, if_pos (Nat.div_eq_of_lt hn), Nat.mod_eq_of_lt hn]
    rfl
  · have hdiv : n / 10 ≠ 0 := by omega
    rw [if_neg hn, if_neg hdiv, List.reverse_cons, List.map_append, numeral]
    rfl

/-- The decimal digits of the library are those of the table. -/
theorem map_toDigits (n : ℕ) :
    (Nat.toDigits 10 n).map (fun c => BitVec.ofNat 8 c.toNat) = numeral 10 n := by
  have hdigit : ∀ d < 10, BitVec.ofNat 8 (Nat.digitChar d).toNat = digitChar d := by decide
  induction n using Nat.strongRecOn with
  | ind n ih =>
    rw [Nat.toDigits_eq_if (by decide), numeral_eq]
    by_cases hn : n < 10
    · rw [if_pos hn, if_pos hn, List.map_singleton, hdigit n hn]
    · rw [if_neg hn, if_neg hn, List.map_append, ih (n / 10) (by omega), List.map_singleton,
        hdigit (n % 10) (by omega)]

/-- The octets in the reply are written as `itoa` does. -/
theorem chars_itoa {value : U32} {octet : U8} (hvalue : value.toInt = octet.toNat) :
    chars (Net.itoa value) = numeral 10 octet.toNat := by
  rw [Net.itoa, hvalue, chars, ← map_toDigits, ← Nat.toList_repr]
  rfl

/-- The reply of `ICMP::handle_packet` has the address in it. -/
theorem reply_eq {data : ℕ → U8} {size : U32} (hsize : ¬ size < 8) (htype : data 0 = 0)
    (ip : U32) :
    ∃ rest, chars (Net.ICMP.handlePacket data size ip) =
      chars "Reply from " ++ (dotted ip ++ (chars ": bytes=" ++ rest)) := by
  obtain ⟨hfirst, hsecond, hthird, hfourth⟩ := toInt_octets ip
  have hperiod : chars "." = [period] := by decide
  rw [Net.ICMP.handlePacket, if_neg hsize, if_pos htype]
  simp only [chars_append, chars_itoa hfirst, chars_itoa hsecond, chars_itoa hthird,
    chars_itoa hfourth, hperiod, List.append_assoc, dotted, List.cons_append]
  exact ⟨_, rfl⟩

/-! ### Reading them back -/

/-- What `ifconfig` prints without an address. -/
def unassigned : CString := ⟨chars "0.0.0.0 (No IP assigned)", by decide⟩

theorem stringToIp_inetAddr (b : ℕ → U8) (ip : U32) :
    ∃ text : CString, inetAddr b ip = some text.bytes ∧ stringToIp text = some ip := by
  rw [inetAddr]
  by_cases hzero : ip = 0
  · rw [if_pos hzero, hzero]
    exact ⟨unassigned, rfl, by decide⟩
  · rw [if_neg hzero, octetsText_eq]
    exact ⟨⟨dotted ip, noNul_dotted ip⟩, rfl, stringToIp_dotted ip⟩

/-- **The printed addresses are read back**, those of `ifconfig` and of the reply, and so is every
address written with four octets in decimal. -/
theorem stringToIp_texts :
    (∀ (b : ℕ → U8) (ip : U32), ∃ text : CString,
      inetAddr b ip = some text.bytes ∧ stringToIp text = some ip) ∧
    (∀ (b data : ℕ → U8) (size ip : U32), ¬ size < 8 → data 0 = 0 →
      ∃ (text : CString) (rest : List U8), octetsText b ip = some text.bytes ∧
        chars (Net.ICMP.handlePacket data size ip) =
          chars "Reply from " ++ (text.bytes ++ (chars ": bytes=" ++ rest)) ∧
        stringToIp text = some ip) ∧
    ∀ (first second third fourth : List U8) (a b c d : U8) (str : CString),
      parseUnsigned 10 first = some a.toNat → parseUnsigned 10 second = some b.toNat →
      parseUnsigned 10 third = some c.toNat → parseUnsigned 10 fourth = some d.toNat →
      str.bytes = first ++ period :: (second ++ period :: (third ++ period :: fourth)) →
      stringToIp str = some (d ++ c ++ b ++ a) := by
  refine ⟨stringToIp_inetAddr, fun b data size ip hsize htype => ?_, ?_⟩
  · obtain ⟨rest, hrest⟩ := reply_eq hsize htype ip
    exact ⟨⟨dotted ip, noNul_dotted ip⟩, rest, octetsText_eq b ip, hrest, stringToIp_dotted ip⟩
  · intro first second third fourth a b c d str hfirst hsecond hthird hfourth hstr
    exact stringToIp_eq hfirst hsecond hthird hfourth hstr

/-- The text `10.000.02.015`. -/
example : stringToIp ⟨chars "10.000.02.015", by decide⟩ = some 0x0F02000A := by decide

end MesaOS.System
