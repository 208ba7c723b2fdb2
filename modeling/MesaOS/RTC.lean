/-
The clock (`drivers/rtc.cpp`, and the command `clock` of the shell).

`get_time` waits until no update is under way and then reads one register after the other.  Nothing
keeps the clock from going on meanwhile.

* `convert_eq` — what is made of the registers: midnight and noon are taken for each other in
  12-hour mode;
* `getTime_eq` — the fields that are read before the clock goes on, with the later ones;
* `getTime_right_iff` — when this is the old or the new time;
* `clock_eq` — what the shell prints.
-/
import MesaOS.Itoa
import MesaOS.MC146818
import MesaOS.Shell

open MachineWord MC146818

namespace MesaOS.Drivers

structure Time where
  second : U8
  minute : U8
  hour : U8
  day : U8
  month : U8
  year : U32
  deriving DecidableEq

namespace RTC

/-- `while (get_update_in_progress_flag());` from access `n` to the ports on, where `chip n` is what
is in the registers then: the number of the access behind it. -/
def waitUpdate (chip : ℕ → U8 → U8) : ℕ → ℕ → Option ℕ
  | 0, _ => none
  | fuel + 1, n => if chip n 0x0A &&& 0x80 ≠ 0 then waitUpdate chip fuel (n + 1) else some (n + 1)

/-- `(x & 0x0F) + ((x / 16) * 10)` -/
def fromBcd (x : U8) : U8 := (x &&& 0x0F) + (x / 16) * 10

/-- The hour, in digits or not, and in 12-hour mode with the bit for the afternoon. -/
def convertHour (hour registerB : U8) : U8 :=
  let hour :=
    if registerB &&& 0x04 = 0 then
      ((hour &&& 0x0F) + ((hour &&& 0x70) / 16) * 10) ||| (hour &&& 0x80)
    else hour
  if registerB &&& 0x02 = 0 ∧ hour &&& 0x80 ≠ 0 then ((hour &&& 0x7F) + 12) % 24 else hour

/-- What `get_time` makes of the values it has read. -/
def convert (second minute hour day month year registerB : U8) : Time :=
  let digits := registerB &&& 0x04 = 0
  let second := if digits then fromBcd second else second
  let minute := if digits then fromBcd minute else minute
  let hour := convertHour hour registerB
  let day := if digits then fromBcd day else day
  let month := if digits then fromBcd month else month
  let year := if digits then fromBcd year else year
  { second, minute, hour, day, month, year := year.setWidth 32 + 2000 }

/-- `RTC::get_time` -/
def getTime (chip : ℕ → U8 → U8) (fuel : ℕ) : Option Time :=
  (waitUpdate chip fuel 0).map fun n =>
    let second := chip n 0x00
    let minute := chip (n + 1) 0x02
    let hour := chip (n + 2) 0x04
    let day := chip (n + 3) 0x07
    let month := chip (n + 4) 0x08
    let year := chip (n + 5) 0x09
    let registerB := chip (n + 6) 0x0B
    convert second minute hour day month year registerB

/-- The time in the 21st century. -/
def timeOf (t : Reading) : Time where
  second := BitVec.ofNat 8 t.second
  minute := BitVec.ofNat 8 t.minute
  hour := BitVec.ofNat 8 t.hour
  day := BitVec.ofNat 8 t.day
  month := BitVec.ofNat 8 t.month
  year := BitVec.ofNat 32 (2000 + t.year)

/-- The hour that `get_time` takes it for. -/
def takenHour (m : Mode) (h : ℕ) : ℕ := if m.hour24 = true ∨ h % 12 ≠ 0 then h else 12 - h

def taken (m : Mode) (t : Reading) : Reading := { t with hour := takenHour m t.hour }

/-- The fields are numbers of two digits. -/
structure Bounded (t : Reading) : Prop where
  second : t.second < 100
  minute : t.minute < 100
  hour : t.hour < 24
  day : t.day < 100
  month : t.month < 100
  year : t.year < 100

variable {chip : ℕ → U8 → U8} {m : Mode} {t u : Reading} {fuel n k : ℕ}

theorem bounded_of_valid (h : t.Valid) : Bounded t := by
  have hdays := Reading.daysIn_le t.month t.year
  obtain ⟨hsecond, hminute, hhour, hday, hmonth, hyear⟩ := h
  exact ⟨by omega, by omega, hhour, by omega, by omega, hyear⟩

theorem bounded_mix (k : ℕ) (ht : Bounded t) (hu : Bounded u) : Bounded (Reading.mix k t u) := by
  constructor <;> simp only [Reading.mix] <;> split
  · exact ht.second
  · exact hu.second
  · exact ht.minute
  · exact hu.minute
  · exact ht.hour
  · exact hu.hour
  · exact ht.day
  · exact hu.day
  · exact ht.month
  · exact hu.month
  · exact ht.year
  · exact hu.year

theorem takenHour_lt (m : Mode) {h : ℕ} (hh : h < 24) : takenHour m h < 24 := by
  rw [takenHour]
  split_ifs <;> omega

theorem bounded_taken (m : Mode) (h : Bounded t) : Bounded (taken m t) :=
  ⟨h.second, h.minute, takenHour_lt m h.hour, h.day, h.month, h.year⟩

/-! ### The conversion -/

theorem fromBcd_bcd : ∀ n < 100, fromBcd (bcd n) = BitVec.ofNat 8 n := by decide

theorem number_eq {digits : Prop} [Decidable digits] (hdigits : digits ↔ m.binary = false)
    (hn : n < 100) : (if digits then fromBcd (m.number n) else m.number n) = BitVec.ofNat 8 n := by
  rw [Mode.number]
  cases hbinary : m.binary with
  | false =>
    rw [if_pos (hdigits.mpr hbinary), if_neg Bool.false_ne_true]
    exact fromBcd_bcd n hn
  | true =>
    rw [if_neg fun h => by rw [hdigits.mp h] at hbinary; exact Bool.false_ne_true hbinary,
      if_pos rfl]

theorem convertHour_eq {registerB : U8} (hbinary : registerB &&& 0x04 = 0 ↔ m.binary = false)
    (hhour24 : registerB &&& 0x02 = 0 ↔ m.hour24 = false) {h : ℕ} (hh : h < 24) :
    convertHour (m.hour h) registerB = BitVec.ofNat 8 (takenHour m h) := by
  -- each hour in each of the four modes
  have hall : ∀ binary hour24 : Bool, ∀ h < 24,
      (let hour := (Mode.mk binary hour24).hour h
       let hour := if binary = false then
         ((hour &&& 0x0F) + ((hour &&& 0x70) / 16) * 10) ||| (hour &&& 0x80) else hour
       if hour24 = false ∧ hour &&& 0x80 ≠ 0 then ((hour &&& 0x7F) + 12) % 24 else hour) =
        BitVec.ofNat 8 (takenHour (Mode.mk binary hour24) h) := by
    decide
  obtain ⟨binary, hour24⟩ := m
  rw [← hall binary hour24 h hh, convertHour]
  simp only [hbinary, hhour24]

theorem year_eq : ∀ year < 100,
    (BitVec.ofNat 8 year).setWidth 32 + 2000 = BitVec.ofNat 32 (2000 + year) := by decide

/-- **The conversion** is right but for midnight and noon in 12-hour mode. -/
theorem convert_eq {registers : U8 → U8} (h : Bounded t)
    (hbinary : registers 0x0B &&& 0x04 = 0 ↔ m.binary = false)
    (hhour24 : registers 0x0B &&& 0x02 = 0 ↔ m.hour24 = false) :
    convert (m.number t.second) (m.number t.minute) (m.hour t.hour) (m.number t.day)
      (m.number t.month) (m.number t.year) (registers 0x0B) = timeOf (taken m t) := by
  rw [convert, timeOf, taken]
  dsimp only
  rw [number_eq hbinary h.second, number_eq hbinary h.minute, number_eq hbinary h.day,
    number_eq hbinary h.month, number_eq hbinary h.year, convertHour_eq hbinary hhour24 h.hour,
    year_eq t.year h.year]

/-! ### Reading while the clock goes on -/

/-- The loop ends behind the first access that shows no update. -/
theorem waitUpdate_eq_some (chip : ℕ → U8 → U8) (fuel n : ℕ) {k : ℕ} :
    waitUpdate chip fuel n = some k ↔ ∃ j < fuel, k = n + j + 1 ∧ chip (n + j) 0x0A &&& 0x80 = 0 ∧
      ∀ i < j, chip (n + i) 0x0A &&& 0x80 ≠ 0 := by
  induction fuel generalizing n with
  | zero => simp [waitUpdate]
  | succ fuel ih =>
    rw [waitUpdate]
    by_cases hbusy : chip n 0x0A &&& 0x80 ≠ 0
    · rw [if_pos hbusy, ih]
      constructor
      · rintro ⟨j, hj, rfl, hready, hbefore⟩
        refine ⟨j + 1, by omega, by omega, by rwa [← Nat.add_assoc, Nat.add_right_comm], ?_⟩
        intro i hi
        cases i with
        | zero => exact hbusy
        | succ i =>
          have := hbefore i (by omega)
          rwa [Nat.add_right_comm, Nat.add_assoc] at this
      · rintro ⟨j, hj, rfl, hready, hbefore⟩
        cases j with
        | zero => exact absurd hready hbusy
        | succ j =>
          refine ⟨j, by omega, by omega, by rwa [Nat.add_right_comm, Nat.add_assoc], fun i hi => ?_⟩
          have := hbefore (i + 1) (by omega)
          rwa [← Nat.add_assoc, Nat.add_right_comm] at this
    · rw [if_neg hbusy, Option.some_inj]
      constructor
      · rintro rfl
        exact ⟨0, by omega, rfl, not_not.mp hbusy, fun i hi => absurd hi (Nat.not_lt_zero i)⟩
      · rintro ⟨j, hj, rfl, hready, hbefore⟩
        cases j with
        | zero => rfl
        | succ j => exact absurd (not_not.mp hbusy) (hbefore 0 (by omega))

section

variable {now : ℕ → Reading} (hshows : ∀ i, Shows (chip i) m (now i))
  (hwait : waitUpdate chip fuel 0 = some n) (ht : t.Valid)
  (hnow : ∀ i < 6, now (n + i) = if i < k then t else t.next)

include hshows hwait ht hnow

/-- The first `k` fields are those of the old time, the others those of the new one. -/
theorem getTime_eq : getTime chip fuel = some (timeOf (taken m (Reading.mix k t t.next))) := by
  have hmix : Bounded (Reading.mix k t t.next) :=
    bounded_mix k (bounded_of_valid ht) (bounded_of_valid (Reading.next_valid ht))
  have hlast := hshows (n + 6)
  have hfield : ∀ {i}, i < 6 → (now (n + i)).field i = (Reading.mix k t t.next).field i := by
    intro i hi
    rw [hnow i hi, Reading.field_mix hi]
    split <;> rfl
  have h0 : (now n).second = (Reading.mix k t t.next).second := hfield (i := 0) (by omega)
  have h1 : (now (n + 1)).minute = _ := hfield (i := 1) (by omega)
  have h2 : (now (n + 2)).hour = _ := hfield (i := 2) (by omega)
  have h3 : (now (n + 3)).day = _ := hfield (i := 3) (by omega)
  have h4 : (now (n + 4)).month = _ := hfield (i := 4) (by omega)
  have h5 : (now (n + 5)).year = _ := hfield (i := 5) (by omega)
  rw [getTime, hwait, Option.map_some, ← convert_eq hmix hlast.binary hlast.hour24]
  dsimp only
  rw [(hshows n).second, (hshows (n + 1)).minute, (hshows (n + 2)).hour, (hshows (n + 3)).day,
    (hshows (n + 4)).month, (hshows (n + 5)).year, h0, h1, h2, h3, h4, h5]
  rfl

end

theorem timeOf_inj (ht : Bounded t) (hu : Bounded u) : timeOf t = timeOf u ↔ t = u := by
  have hbyte : ∀ {a b : ℕ}, a < 100 → b < 100 → BitVec.ofNat 8 a = BitVec.ofNat 8 b → a = b := by
    intro a b ha hb h
    have := congrArg BitVec.toNat h
    simp only [BitVec.toNat_ofNat] at this
    omega
  constructor
  · intro h
    obtain ⟨hsecond, hminute, hhour, hday, hmonth, hyear⟩ := ht
    obtain ⟨hsecond', hminute', hhour', hday', hmonth', hyear'⟩ := hu
    rw [timeOf, timeOf, Time.mk.injEq] at h
    obtain ⟨h0, h1, h2, h3, h4, h5⟩ := h
    have h5 := congrArg BitVec.toNat h5
    simp only [BitVec.toNat_ofNat] at h5
    cases t
    cases u
    simp only [Reading.mk.injEq]
    refine ⟨hbyte hsecond hsecond' h0, hbyte hminute hminute' h1,
      hbyte (Nat.lt_trans hhour (by decide)) (Nat.lt_trans hhour' (by decide)) h2,
      hbyte hday hday' h3, hbyte hmonth hmonth' h4, ?_⟩
    dsimp only at hyear hyear' h5
    omega
  · rintro rfl
    rfl

/-- The hour of the next second. -/
theorem hour_next (h : t.Valid) : t.next.hour = t.hour ∨ t.next.hour = t.hour + 1 ∨
    t.next.hour = 0 ∧ t.hour = 23 := by
  have := h.hour
  rw [Reading.next]
  split_ifs <;> dsimp only <;> omega

/-- A wrong hour is wrong by twelve, and neither the old hour nor the new one. -/
theorem right_hour (ht : t.Valid) (h : taken m (Reading.mix k t t.next) = t ∨
    taken m (Reading.mix k t t.next) = t.next) :
    m.hour24 = true ∨ (Reading.mix k t t.next).hour % 12 ≠ 0 := by
  by_contra hwrong
  have hnext := hour_next ht
  have hlt := ht.hour
  have htaken : (taken m (Reading.mix k t t.next)).hour = 12 - (Reading.mix k t t.next).hour := by
    rw [taken, takenHour, if_neg hwrong]
  have hmix : (Reading.mix k t t.next).hour = t.hour ∨
      (Reading.mix k t t.next).hour = t.next.hour := by
    rw [Reading.mix]
    dsimp only
    split
    · exact .inl rfl
    · exact .inr rfl
  rw [not_or, not_not] at hwrong
  have hzero := hwrong.2
  rcases h with h | h
  · rw [h] at htaken
    omega
  · rw [h] at htaken
    omega

/-- **When the time is right**, with at most one second that ends between the reads: the clock goes on
before the first of them, or behind the last field that changes, and the hour is not midnight or noon
in 12-hour mode. -/
theorem getTime_right_iff {now : ℕ → Reading} (hshows : ∀ i, Shows (chip i) m (now i))
    (hwait : waitUpdate chip fuel 0 = some n) (ht : t.Valid) (hk : k ≤ 6)
    (hnow : ∀ i < 6, now (n + i) = if i < k then t else t.next) :
    getTime chip fuel = some (timeOf t) ∨ getTime chip fuel = some (timeOf t.next) ↔
      (k = 0 ∨ t.carry ≤ k) ∧
        (m.hour24 = true ∨ (if 2 < k then t.hour else t.next.hour) % 12 ≠ 0) := by
  have hold := bounded_of_valid ht
  have hnew := bounded_of_valid (Reading.next_valid ht)
  have htaken := bounded_taken m (bounded_mix k hold hnew)
  rw [getTime_eq hshows hwait ht hnow, Option.some_inj, Option.some_inj, timeOf_inj htaken hold,
    timeOf_inj htaken hnew]
  change _ ↔ _ ∧ (m.hour24 = true ∨ (Reading.mix k t t.next).hour % 12 ≠ 0)
  by_cases hhour : m.hour24 = true ∨ (Reading.mix k t t.next).hour % 12 ≠ 0
  · have hsame : taken m (Reading.mix k t t.next) = Reading.mix k t t.next := by
      rw [taken, takenHour, if_pos hhour]
    rw [hsame, Reading.mix_eq_left_iff ht hk, Reading.mix_eq_next_iff ht, or_comm,
      and_iff_left hhour]
  · exact iff_of_false (mt (right_hour ht) hhour) fun h => hhour h.2

/-- A minute that ends behind the first read. -/
theorem getTime_right_iff_minute :
    let t : Reading := ⟨59, 30, 10, 1, 1, 24⟩
    let now : ℕ → Reading := fun i => if i < 2 then t else t.next
    let m : Mode := ⟨true, true⟩
    let chip : ℕ → U8 → U8 := fun i reg =>
      if reg = 0x00 then m.number (now i).second else if reg = 0x02 then m.number (now i).minute
      else if reg = 0x04 then m.hour (now i).hour else if reg = 0x07 then m.number (now i).day
      else if reg = 0x08 then m.number (now i).month
      else if reg = 0x09 then m.number (now i).year else if reg = 0x0B then 0x06 else 0
    getTime chip 1 = some (timeOf t) ∨ getTime chip 1 = some (timeOf t.next) ↔
      (1 = 0 ∨ t.carry ≤ 1) ∧
        ((true : Bool) = true ∨ (if 2 < 1 then t.hour else t.next.hour) % 12 ≠ 0) := by
  intro t now m chip
  have hshows : ∀ i, Shows (chip i) m (now i) := by
    intro i
    have hmode : chip i 0x0B = 0x06 := rfl
    refine ⟨rfl, rfl, rfl, rfl, rfl, rfl, ?_, ?_⟩ <;> rw [hmode]
    · exact iff_of_false (by decide) Bool.noConfusion
    · exact iff_of_false (by decide) Bool.noConfusion
  have hwait : waitUpdate chip 1 0 = some 1 := by decide
  refine getTime_right_iff hshows hwait
    ⟨by decide, by decide, by decide, by decide, by decide, by decide⟩ (by decide) ?_
  intro i hi
  have : 1 + i < 2 ↔ i < 1 := by omega
  exact if_congr this rfl rfl

/-! ### What the shell prints -/

/-- A number with a zero in front of it when it has one digit. -/
def printTwo (n : U8) : List U8 :=
  (if n < 10 then System.chars "0" else []) ++ Libc.itoaText n.toNat 10

/-- The command `clock`. -/
def clock (t : Time) : List U8 :=
  printTwo t.hour ++ System.chars ":" ++ printTwo t.minute ++ System.chars ":" ++
    printTwo t.second ++ System.chars "\n"

def digit (n : ℕ) : U8 := BitVec.ofNat 8 (0x30 + n)

theorem printTwo_eq : ∀ n < 100,
    printTwo (BitVec.ofNat 8 n) = [digit (n / 10), digit (n % 10)] := by
  decide +kernel

/-- Two digits for each of the three numbers. -/
theorem clock_eq (h : Bounded t) : clock (timeOf t) =
    [digit (t.hour / 10), digit (t.hour % 10), 0x3A, digit (t.minute / 10), digit (t.minute % 10),
      0x3A, digit (t.second / 10), digit (t.second % 10), 0x0A] := by
  have hhour := h.hour
  rw [clock, timeOf, printTwo_eq _ (by omega), printTwo_eq _ h.minute, printTwo_eq _ h.second]
  rfl

end RTC

end MesaOS.Drivers
