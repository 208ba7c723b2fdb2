/-
The field with 256 elements, as bytes: polynomials over the field with two
elements modulo `x ^ 8 + x ^ 4 + x ^ 3 + x + 1`, the coefficient of `x ^ i`
being bit `i`.

Addition is `^^^`; `mul` is the product and `inv` the inverse (`mul_inv`).  The values of
`inv` are computed once (`inv_eq`).
-/
import MesaOS.MachineWord

open MachineWord

namespace ByteField

/-- The product of two polynomials of degree below 8. -/
def carrylessMul (x y : ℕ) : ℕ :=
  x * (y &&& 1) ^^^ x * (y &&& 2) ^^^ x * (y &&& 4) ^^^ x * (y &&& 8) ^^^
    x * (y &&& 16) ^^^ x * (y &&& 32) ^^^ x * (y &&& 64) ^^^ x * (y &&& 128)

/-- The multiple of the modulus that removes the coefficient of `x ^ (k + 8)`. -/
def cancel (k p : ℕ) : ℕ := p ^^^ 0x11B * (p >>> (k + 8) % 2) <<< k

/-- The remainder of a polynomial of degree below 15. -/
def reduce (p : ℕ) : ℕ :=
  cancel 0 (cancel 1 (cancel 2 (cancel 3 (cancel 4 (cancel 5 (cancel 6 p))))))

def mul (x y : U8) : U8 := BitVec.ofNat 8 (reduce (carrylessMul x.toNat y.toNat))

def square (x : U8) : U8 := mul x x

/-- `x ^ 254`, the product of `x ^ 2`, `x ^ 4`, …, `x ^ 128`; zero for zero. -/
def inv (x : U8) : U8 :=
  let x2 := square x
  let x4 := square x2
  let x8 := square x4
  let x16 := square x8
  let x32 := square x16
  let x64 := square x32
  mul x2 (mul x4 (mul x8 (mul x16 (mul x32 (mul x64 (square x64))))))

/-- The values of `inv`, 16 to a number with the first in its low byte. -/
def invTable : List ℕ :=
  [
    0xc7e5e1b0c0294fe8d17b52cbf68d0100, 0xb2ee40ffccfd3f585f602b994baab474,
    0xc2a2443015980ac1c9a84d55f15a6e3a, 0x1959bb776f2035f2426639f36c92452c,
    0x09e9255413ab64a769f5312d6737fe1d, 0x1761ec51f0223e18bf87244cca055ced,
    0x3b219333df9147f44336a649d3af5e16, 0x8281faa106d070b63cbab5108597b779,
    0xa4b902f7d9959e9b56be7396807f7e83, 0x9a89dcf9889f142a72848ad86d326ade,
    0x62d2e7ce4a12c8264865b88fc32e7cfb, 0x5786bcbd3d768ea571787511ef1fe00c,
    0xe6acfc1b045327a90fe4d4daa32f280b, 0x6b90f89dd5c48b94eae2dbc563ae077a,
    0xb31e505de3d74e08adcf0ec6ebd60db1, 0x1c411acda07d9cdd8c0346683438235b
  ]

def lookup (x : U8) : U8 :=
  BitVec.ofNat 8 (invTable.getD (x.toNat / 16) 0 >>> (8 * (x.toNat % 16)))

set_option maxRecDepth 10000 in
theorem inv_eq : ∀ x : U8, inv x = lookup x := by decide +kernel

set_option maxRecDepth 10000 in
theorem mul_lookup : ∀ x : U8, x ≠ 0 → mul x (lookup x) = 1 := by decide

theorem mul_inv {x : U8} (h : x ≠ 0) : mul x (inv x) = 1 := by
  rw [inv_eq]
  exact mul_lookup x h

set_option maxRecDepth 10000 in
theorem lookup_lookup : ∀ x : U8, lookup (lookup x) = x := by decide

theorem inv_inv (x : U8) : inv (inv x) = x := by
  rw [inv_eq, inv_eq, lookup_lookup]

/-- A table that lists a function. -/
theorem getD_table {table : List U8} (f : U8 → U8)
    (h : table = (List.range 256).map fun n => f (BitVec.ofNat 8 n)) (x : U8) :
    table.getD x.toNat 0 = f x := by
  have hlt := x.isLt
  have hx : BitVec.ofNat 8 x.toNat = x := by simp
  rw [h, List.getD_eq_getElem _ _ (by simpa using hlt), List.getElem_map, List.getElem_range, hx]

/-- `x ^ n` for the polynomial `x` itself. -/
def powX : ℕ → U8
  | 0 => 1
  | n + 1 => mul (powX n) 2

end ByteField
