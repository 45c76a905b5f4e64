import Mathlib.Data.Int.Order.Basic
import Mathlib.Data.List.Basic
import Mathlib.Tactic.Common

/-!
# The Gregorian calendar

Days counted from the first day of the year 1, to both sides, and their dates. A number of days is
cut into cycles of 400, 100 and 4 years and single years, and the rest into months.
-/
namespace ToolkitCpp.Calendar

def cycle400 (z : ℤ) : ℤ := z / 146097

/-- The last cycle of 100 years of a cycle of 400 has a day more. -/
def cycle100 (z : ℤ) : ℤ := min 3 (z % 146097 / 36524)

def cycle4 (z : ℤ) : ℤ := (z % 146097 - 36524 * cycle100 z) / 1461

def cycleRest (z : ℤ) : ℤ := (z % 146097 - 36524 * cycle100 z) % 1461

/-- The last year of a cycle of 4 may have a day more. -/
def cycle1 (z : ℤ) : ℤ := min 3 (cycleRest z / 365)

def year (z : ℤ) : ℤ := 400 * cycle400 z + 100 * cycle100 z + 4 * cycle4 z + cycle1 z + 1

/-- Counted from zero. -/
def dayOfYear (z : ℤ) : ℤ := cycleRest z - 365 * cycle1 z

def isLeap (year : ℤ) : Bool := year % 4 == 0 && (year % 100 != 0 || year % 400 == 0)

/-- The number of a day of a year. -/
def dayNumber (year day : ℤ) : ℤ :=
  365 * (year - 1) + (year - 1) / 4 - (year - 1) / 100 + (year - 1) / 400 + day

/-- The cycles are within their bounds and make up the number of days. -/
lemma cycles_spec (z : ℤ) :
    (0 ≤ cycle100 z ∧ cycle100 z ≤ 3) ∧ (0 ≤ cycle4 z ∧ cycle4 z ≤ 24) ∧
    (0 ≤ cycle1 z ∧ cycle1 z ≤ 3) ∧ (0 ≤ dayOfYear z ∧ dayOfYear z ≤ 365) ∧
    z = 146097 * cycle400 z + 36524 * cycle100 z + 1461 * cycle4 z + 365 * cycle1 z +
      dayOfYear z := by
  unfold dayOfYear cycle1 cycleRest cycle4 cycle400 cycle100
  omega

lemma dayNumber_cycles {a b c e : ℤ} (hb : 0 ≤ b ∧ b ≤ 3) (hc : 0 ≤ c ∧ c ≤ 24)
    (he : 0 ≤ e ∧ e ≤ 3) (day : ℤ) :
    dayNumber (400 * a + 100 * b + 4 * c + e + 1) day =
      146097 * a + 36524 * b + 1461 * c + 365 * e + day := by
  have h4 : (400 * a + 100 * b + 4 * c + e + 1 - 1) / 4 = 100 * a + 25 * b + c := by omega
  have h100 : (400 * a + 100 * b + 4 * c + e + 1 - 1) / 100 = 4 * a + b := by omega
  have h400 : (400 * a + 100 * b + 4 * c + e + 1 - 1) / 400 = a := by omega
  rw [dayNumber, h4, h100, h400]
  omega

theorem dayNumber_year (z : ℤ) : dayNumber (year z) (dayOfYear z) = z := by
  obtain ⟨h100, h4, h1, -, hz⟩ := cycles_spec z
  rw [year, dayNumber_cycles h100 h4 h1, ← hz]

/-- Only a leap year has 366 days. -/
lemma isLeap_of_dayOfYear {z : ℤ} (h : dayOfYear z = 365) : isLeap (year z) = true := by
  obtain ⟨-, h4, -, -, -⟩ := cycles_spec z
  -- the day is the last one of a cycle of 4 years, and if that is the last one of 100 years, of 400
  have hone : cycle1 z = 3 := by
    revert h
    unfold dayOfYear cycle1 cycleRest
    omega
  have hlast : cycle4 z = 24 → cycle100 z = 3 := by
    revert h hone
    unfold dayOfYear cycleRest cycle4 cycle100
    omega
  have hleap : year z % 4 = 0 ∧ (year z % 100 ≠ 0 ∨ year z % 400 = 0) := by
    unfold year
    omega
  simpa [isLeap] using hleap

/-- A year lies between bounds when the days do. -/
lemma year_bounds {z : ℤ} (hlo : 600000 ≤ z) (hhi : z ≤ 900000) :
    1000 ≤ year z ∧ year z ≤ 9999 := by
  obtain ⟨h100, h4, h1, hday, hz⟩ := cycles_spec z
  unfold year
  omega

/-- The index of the part in which a number lies, and its place there. -/
def locate : List ℕ → ℕ → ℕ × ℕ
  | [], n => (0, n)
  | l :: ls, n => if n < l then (0, n) else ((locate ls (n - l)).1 + 1, (locate ls (n - l)).2)

/-- The sum of the parts before an index. -/
def before : List ℕ → ℕ → ℕ
  | [], _ => 0
  | _ :: _, 0 => 0
  | l :: ls, i + 1 => l + before ls i

lemma before_locate (ls : List ℕ) (n : ℕ) : before ls (locate ls n).1 + (locate ls n).2 = n := by
  induction ls generalizing n with
  | nil => simp [locate, before]
  | cons l ls ih =>
    rw [locate]
    split_ifs with h
    · simp [before]
    · have hrest := ih (n - l)
      rw [before]
      omega

lemma locate_lt {ls : List ℕ} {n k : ℕ} (hn : n < before ls ls.length) (hk : ∀ l ∈ ls, l ≤ k) :
    (locate ls n).1 < ls.length ∧ (locate ls n).2 < k := by
  induction ls generalizing n with
  | nil => exact absurd hn (Nat.not_lt_zero n)
  | cons l ls ih =>
    rw [List.length_cons, before] at hn
    have hl := hk l List.mem_cons_self
    rw [locate, List.length_cons]
    split_ifs with h
    · exact ⟨Nat.succ_pos _, by omega⟩
    · have hrest : n - l < before ls ls.length := by omega
      obtain ⟨hindex, hplace⟩ := ih hrest fun m hm => hk m (List.mem_cons_of_mem l hm)
      exact ⟨Nat.succ_lt_succ hindex, hplace⟩

def monthLengths (leap : Bool) : List ℕ :=
  [31, if leap then 29 else 28, 31, 30, 31, 30, 31, 31, 30, 31, 30, 31]

structure Date where
  year : ℤ
  month : ℕ
  day : ℕ
  deriving DecidableEq, Repr

def Date.ofDays (z : ℤ) : Date :=
  let place := locate (monthLengths (isLeap (Calendar.year z))) (dayOfYear z).toNat
  ⟨Calendar.year z, place.1 + 1, place.2 + 1⟩

def Date.days (d : Date) : ℤ :=
  dayNumber d.year (before (monthLengths (isLeap d.year)) (d.month - 1) + (d.day - 1) : ℕ)

theorem Date.days_ofDays (z : ℤ) : (Date.ofDays z).days = z := by
  obtain ⟨-, -, -, hday, -⟩ := cycles_spec z
  rw [Date.days, Date.ofDays]
  simp only [Nat.add_sub_cancel, before_locate, Int.toNat_of_nonneg hday.1]
  exact dayNumber_year z

/-- The months of the year make up its days. -/
lemma dayOfYear_lt (z : ℤ) :
    (dayOfYear z).toNat < before (monthLengths (isLeap (Calendar.year z))) 12 := by
  obtain ⟨-, -, -, hday, -⟩ := cycles_spec z
  cases hleap : isLeap (Calendar.year z) with
  | true =>
    have hsum : before (monthLengths true) 12 = 366 := by decide
    omega
  | false =>
    have hsum : before (monthLengths false) 12 = 365 := by decide
    have hne : dayOfYear z ≠ 365 := by
      intro h
      rw [isLeap_of_dayOfYear h] at hleap
      exact Bool.noConfusion hleap
    omega

/-- The fields of a date are those of a calendar. -/
theorem Date.ofDays_bounds (z : ℤ) :
    (1 ≤ (Date.ofDays z).month ∧ (Date.ofDays z).month ≤ 12) ∧
      (1 ≤ (Date.ofDays z).day ∧ (Date.ofDays z).day ≤ 31) := by
  have hlengths : ∀ leap, ∀ l ∈ monthLengths leap, l ≤ 31 := by decide
  have hlength : ∀ leap, (monthLengths leap).length = 12 := fun _ => rfl
  obtain ⟨hmonth, hday⟩ := locate_lt (dayOfYear_lt z) (hlengths _)
  rw [hlength] at hmonth
  simp only [Date.ofDays]
  omega

end ToolkitCpp.Calendar
