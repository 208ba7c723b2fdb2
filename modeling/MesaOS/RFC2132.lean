/-
The options of a DHCP message as RFC 2132 lays them out.

An option is a code, a length and so many bytes of data.  Pad bytes may stand in
front of it, and the code 255 ends the options.
-/
import MesaOS.MachineWord

open MachineWord

namespace RFC2132

/-- An option with data, and the number of pad bytes in front of it. -/
structure Field where
  pads : ℕ
  code : U8
  value : List U8
  code_ne_pad : code ≠ 0
  code_ne_end : code ≠ 255
  length_le : value.length ≤ 255

namespace Field

def bytes (f : Field) : List U8 :=
  List.replicate f.pads 0 ++ (f.code :: BitVec.ofNat 8 f.value.length :: f.value)

/-- The mask in an option 1 of length 4. -/
def netmask (f : Field) : Option U32 :=
  if f.code = 1 ∧ f.value.length = 4 then some (get32 (bufferOf f.value) 0) else none

/-- The first address in an option 3. -/
def router (f : Field) : Option U32 :=
  if f.code = 3 ∧ 4 ≤ f.value.length then some (get32 (bufferOf f.value) 0) else none

end Field

/-- The options with the terminator, and the pad bytes in front of it. -/
def encode (fields : List Field) (pads : ℕ) : List U8 :=
  fields.flatMap Field.bytes ++ (List.replicate pads 0 ++ [255])

theorem encode_cons (f : Field) (fields : List Field) (pads : ℕ) :
    encode (f :: fields) pads = f.bytes ++ encode fields pads := by
  rw [encode, List.flatMap_cons, List.append_assoc, encode]

/-- An option whose first four bytes of data are an address: a mask or a router. -/
def HasAddress (code len : U8) : Prop := code = 1 ∧ len = 4 ∨ code = 3 ∧ 4 ≤ len

instance (code len : U8) : Decidable (HasAddress code len) :=
  inferInstanceAs (Decidable (_ ∨ _))

/-- Bytes in which every option has its length, and every mask and every router the four bytes
of its address.  An option of another kind may end beyond the last byte. -/
inductive Contained : List U8 → Prop
  | nil : Contained []
  | end (l : List U8) : Contained (255 :: l)
  | pad {l : List U8} : Contained l → Contained (0 :: l)
  | option {code len : U8} {l : List U8} : code ≠ 0 → code ≠ 255 →
      (HasAddress code len → 4 ≤ l.length) → Contained (l.drop len.toNat) →
      Contained (code :: len :: l)

theorem contained_pad_iff {l : List U8} : Contained (0 :: l) ↔ Contained l := by
  constructor
  · intro h
    cases h with
    | pad h => exact h
    | option hpad _ _ _ => exact absurd rfl hpad
  · exact Contained.pad

theorem contained_option_iff {code : U8} (hpad : code ≠ 0) (hend : code ≠ 255) (l : List U8) :
    Contained (code :: l) ↔ ∃ len tail, l = len :: tail ∧
      (HasAddress code len → 4 ≤ tail.length) ∧ Contained (tail.drop len.toNat) := by
  constructor
  · intro h
    cases h with
    | «end» => exact absurd rfl hend
    | pad h => exact absurd rfl hpad
    | option _ _ haddress hrest => exact ⟨_, _, rfl, haddress, hrest⟩
  · rintro ⟨len, tail, rfl, haddress, hrest⟩
    exact Contained.option hpad hend haddress hrest

end RFC2132
