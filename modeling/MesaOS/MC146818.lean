/-
A clock chip that is read register by register.

Each field of the date and the time has a register of its own, and the clock may go on between two
reads.  When it does, the fields that change are the low ones up to where the carry ends.

* `field_next_eq_iff` — a second later a field is the same just where the carry does not get to;
* `mix_eq_left_iff`, `mix_eq_next_iff` — so a reading from the lowest field to the highest one, with
  one second that ends meanwhile, is the old or the new time just when the clock goes on before the
  first read or behind the last field that changes;
* `next_valid` — the clock shows dates only.
-/
import MesaOS.MachineWord

open MachineWord

namespace MC146818

/-- What the clock shows; the year is that of the century. -/
structure Reading where
  second : ℕ
  minute : ℕ
  hour : ℕ
  day : ℕ
  month : ℕ
  year : ℕ
  deriving DecidableEq

namespace Reading

def daysIn (month year : ℕ) : ℕ :=
  if month = 2 then if year % 4 = 0 then 29 else 28
  else if month = 4 ∨ month = 6 ∨ month = 9 ∨ month = 11 then 30
  else 31

structure Valid (t : Reading) : Prop where
  second : t.second < 60
  minute : t.minute < 60
  hour : t.hour < 24
  day : 1 ≤ t.day ∧ t.day ≤ daysIn t.month t.year
  month : 1 ≤ t.month ∧ t.month ≤ 12
  year : t.year < 100

/-- A second later. -/
def next (t : Reading) : Reading :=
  if t.second < 59 then { t with second := t.second + 1 }
  else if t.minute < 59 then { t with second := 0, minute := t.minute + 1 }
  else if t.hour < 23 then { t with second := 0, minute := 0, hour := t.hour + 1 }
  else if t.day < daysIn t.month t.year then
    { t with second := 0, minute := 0, hour := 0, day := t.day + 1 }
  else if t.month < 12 then
    { t with second := 0, minute := 0, hour := 0, day := 1, month := t.month + 1 }
  else
    { second := 0, minute := 0, hour := 0, day := 1, month := 1
      year := if t.year < 99 then t.year + 1 else 0 }

/-- How many fields change with the next second. -/
def carry (t : Reading) : ℕ :=
  if t.second < 59 then 1
  else if t.minute < 59 then 2
  else if t.hour < 23 then 3
  else if t.day < daysIn t.month t.year then 4
  else if t.month < 12 then 5
  else 6

/-- The fields from the lowest one. -/
def field (t : Reading) : ℕ → ℕ
  | 0 => t.second
  | 1 => t.minute
  | 2 => t.hour
  | 3 => t.day
  | 4 => t.month
  | _ => t.year

/-- The lowest `k` fields of one reading and the others of another one. -/
def mix (k : ℕ) (t u : Reading) : Reading where
  second := if 0 < k then t.second else u.second
  minute := if 1 < k then t.minute else u.minute
  hour := if 2 < k then t.hour else u.hour
  day := if 3 < k then t.day else u.day
  month := if 4 < k then t.month else u.month
  year := if 5 < k then t.year else u.year

variable {t u : Reading} {i k : ℕ}

theorem ext_field : t = u ↔ ∀ i < 6, t.field i = u.field i := by
  constructor
  · rintro rfl i _
    rfl
  · intro h
    have h0 := h 0 (by omega)
    have h1 := h 1 (by omega)
    have h2 := h 2 (by omega)
    have h3 := h 3 (by omega)
    have h4 := h 4 (by omega)
    have h5 := h 5 (by omega)
    cases t
    cases u
    simp only [field] at h0 h1 h2 h3 h4 h5
    simp only [mk.injEq]
    exact ⟨h0, h1, h2, h3, h4, h5⟩

theorem field_mix (hi : i < 6) : (mix k t u).field i = if i < k then t.field i else u.field i := by
  rcases (by omega : i = 0 ∨ i = 1 ∨ i = 2 ∨ i = 3 ∨ i = 4 ∨ i = 5) with
    rfl | rfl | rfl | rfl | rfl | rfl <;> rfl

theorem daysIn_ge (month year : ℕ) : 28 ≤ daysIn month year := by
  rw [daysIn]
  split_ifs <;> omega

theorem daysIn_le (month year : ℕ) : daysIn month year ≤ 31 := by
  rw [daysIn]
  split_ifs <;> omega

theorem carry_pos (t : Reading) : 1 ≤ t.carry := by
  rw [carry]
  split_ifs <;> omega

theorem carry_le (t : Reading) : t.carry ≤ 6 := by
  rw [carry]
  split_ifs <;> omega

theorem next_valid (h : t.Valid) : t.next.Valid := by
  obtain ⟨hsecond, hminute, hhour, hday, hmonth, hyear⟩ := h
  rw [next]
  have hfirst : ∀ month year, 1 ≤ 1 ∧ 1 ≤ daysIn month year := fun month year =>
    ⟨Nat.le_refl 1, Nat.le_trans (by omega) (daysIn_ge month year)⟩
  split_ifs with h0 h1 h2 h3 h4 h5
  · exact ⟨by dsimp only; omega, hminute, hhour, hday, hmonth, hyear⟩
  · exact ⟨by dsimp only; omega, by dsimp only; omega, hhour, hday, hmonth, hyear⟩
  · exact ⟨by dsimp only; omega, by dsimp only; omega, by dsimp only; omega, hday, hmonth, hyear⟩
  · exact ⟨by dsimp only; omega, by dsimp only; omega, by dsimp only; omega,
      ⟨by dsimp only; omega, h3⟩, hmonth, hyear⟩
  · exact ⟨by dsimp only; omega, by dsimp only; omega, by dsimp only; omega, hfirst _ _,
      ⟨by dsimp only; omega, h4⟩, hyear⟩
  · exact ⟨by dsimp only; omega, by dsimp only; omega, by dsimp only; omega, hfirst _ _,
      ⟨Nat.le_refl 1, by dsimp only; omega⟩, by dsimp only; omega⟩
  · exact ⟨by dsimp only; omega, by dsimp only; omega, by dsimp only; omega, hfirst _ _,
      ⟨Nat.le_refl 1, by dsimp only; omega⟩, by dsimp only; omega⟩

/-- A field changes just where the carry gets to: the ones below the last that changes go from their
greatest value to their least one. -/
theorem field_next_eq_iff (h : t.Valid) (hi : i < 6) :
    t.next.field i = t.field i ↔ t.carry ≤ i := by
  obtain ⟨hsecond, hminute, hhour, hday, hmonth, hyear⟩ := h
  have hdays := daysIn_ge t.month t.year
  rw [next, carry]
  split_ifs with h0 h1 h2 h3 h4 h5 <;>
    rcases (by omega : i = 0 ∨ i = 1 ∨ i = 2 ∨ i = 3 ∨ i = 4 ∨ i = 5) with
      rfl | rfl | rfl | rfl | rfl | rfl <;>
    simp only [field, true_iff] <;> omega

/-- The old time, once all the fields that change have been read. -/
theorem mix_eq_left_iff (h : t.Valid) (hk : k ≤ 6) : mix k t t.next = t ↔ t.carry ≤ k := by
  rw [ext_field]
  constructor
  · intro hsame
    by_contra hlt
    have hcarry := carry_le t
    have hfield := hsame k (by omega)
    rw [field_mix (by omega), if_neg (Nat.lt_irrefl k), field_next_eq_iff h (by omega)] at hfield
    exact hlt hfield
  · intro hle i hi
    rw [field_mix hi]
    by_cases hik : i < k
    · rw [if_pos hik]
    · rw [if_neg hik, field_next_eq_iff h hi]
      omega

/-- The new time, as long as nothing has been read. -/
theorem mix_eq_next_iff (h : t.Valid) : mix k t t.next = t.next ↔ k = 0 := by
  rw [ext_field]
  constructor
  · intro hsame
    by_contra hne
    have hfield := hsame 0 (by omega)
    -- the seconds always change
    rw [field_mix (by omega), if_pos (Nat.pos_of_ne_zero hne), eq_comm,
      field_next_eq_iff h (by omega)] at hfield
    have hcarry := carry_pos t
    omega
  · rintro rfl i hi
    rw [field_mix hi, if_neg (Nat.not_lt_zero i)]

end Reading

/-! ### The registers -/

/-- How the registers are to be read: in binary or digit by digit, and with hours up to 24 or
with a bit for the afternoon. -/
structure Mode where
  binary : Bool
  hour24 : Bool

/-- A digit in each half of the byte. -/
def bcd (n : ℕ) : U8 := BitVec.ofNat 8 (16 * (n / 10) + n % 10)

def Mode.number (m : Mode) (n : ℕ) : U8 := if m.binary then BitVec.ofNat 8 n else bcd n

/-- Midnight and noon are 12 o'clock. -/
def Mode.hour (m : Mode) (h : ℕ) : U8 :=
  if m.hour24 then m.number h
  else m.number (if h % 12 = 0 then 12 else h % 12) ||| (if h < 12 then 0 else 0x80)

/-- What is in the registers. -/
structure Shows (registers : U8 → U8) (m : Mode) (t : Reading) : Prop where
  second : registers 0x00 = m.number t.second
  minute : registers 0x02 = m.number t.minute
  hour : registers 0x04 = m.hour t.hour
  day : registers 0x07 = m.number t.day
  month : registers 0x08 = m.number t.month
  year : registers 0x09 = m.number t.year
  binary : registers 0x0B &&& 0x04 = 0 ↔ m.binary = false
  hour24 : registers 0x0B &&& 0x02 = 0 ↔ m.hour24 = false

end MC146818
