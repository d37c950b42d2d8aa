import Mathlib.Algebra.BigOperators.Group.List.Basic
import Mathlib.Data.BitVec
import Mathlib.Data.Int.Notation
import Mathlib.Tactic.SplitIfs

/-! Dates of the Gregorian calendar, carried on in both directions, and the days between them. -/
namespace Calendar

def IsLeap (year : ℤ) : Prop := 4 ∣ year ∧ (100 ∣ year → 400 ∣ year)

instance : DecidablePred IsLeap := fun _ => inferInstanceAs (Decidable (_ ∧ _))

def monthLengths (year : ℤ) : List ℕ :=
  [31, if IsLeap year then 29 else 28, 31, 30, 31, 30, 31, 31, 30, 31, 30, 31]

/-- The days before a year, from the first day of the year 1 on. -/
def yearStart (year : ℤ) : ℤ :=
  365 * (year - 1) + (year - 1) / 4 - (year - 1) / 100 + (year - 1) / 400

/-- The year of a day. The first estimate is one off at most. -/
def yearAt (days : ℤ) : ℤ :=
  let year := 400 * days / 146097 + 1
  if days < yearStart year then year - 1
  else if yearStart (year + 1) ≤ days then year + 1
  else year

/-- The part a position falls into, and how far into it. -/
def locate : List ℕ → ℕ → ℕ × ℕ
  | [], n => (0, n)
  | length :: lengths, n =>
    if n < length then (0, n)
    else ((locate lengths (n - length)).1 + 1, (locate lengths (n - length)).2)

/-- Months count from 0, days from 1. -/
def IsDate (year : ℤ) (month day : ℕ) : Prop :=
  0 < day ∧ day ≤ (monthLengths year).getD month 0

instance (year : ℤ) (month day : ℕ) : Decidable (IsDate year month day) :=
  inferInstanceAs (Decidable (_ ∧ _))

def dayNumber (year : ℤ) (month day : ℕ) : ℤ :=
  yearStart year + ((monthLengths year).take month).sum + (day - 1)

structure Date where
  year : ℤ
  month : ℕ
  day : ℕ
  isDate : IsDate year month day

def Date.number (date : Date) : ℤ := dayNumber date.year date.month date.day

theorem sum_monthLengths (year : ℤ) :
    (monthLengths year).sum = if IsLeap year then 366 else 365 := by
  unfold monthLengths
  split_ifs <;> rfl

/-- A year starts where the one before it ends. -/
theorem yearStart_succ (year : ℤ) :
    yearStart (year + 1) = yearStart year + (monthLengths year).sum := by
  rw [sum_monthLengths]
  unfold yearStart
  split_ifs with hleap
  · obtain ⟨hfour, hhundred⟩ := hleap
    by_cases h : 100 ∣ year
    · have := hhundred h
      omega
    · omega
  · have hcommon : ¬ 4 ∣ year ∨ (100 ∣ year ∧ ¬ 400 ∣ year) := by
      by_contra! hnot
      exact hleap hnot
    omega

theorem yearAt_bounds (days : ℤ) :
    yearStart (yearAt days) ≤ days ∧ days < yearStart (yearAt days + 1) := by
  unfold yearAt yearStart
  dsimp only
  split_ifs <;> omega

theorem locate_spec {lengths : List ℕ} {n : ℕ} (h : n < lengths.sum) :
    (lengths.take (locate lengths n).1).sum + (locate lengths n).2 = n ∧
      (locate lengths n).2 < lengths.getD (locate lengths n).1 0 := by
  induction lengths generalizing n with
  | nil => simp at h
  | cons length lengths ih =>
    rw [List.sum_cons] at h
    unfold locate
    split_ifs with hn
    · simpa using hn
    · obtain ⟨hsum, hlt⟩ := ih (n := n - length) (by omega)
      refine ⟨?_, by simpa using hlt⟩
      rw [List.take_succ_cons, List.sum_cons]
      omega

theorem dayOfYear_lt (days : ℤ) :
    (days - yearStart (yearAt days)).toNat < (monthLengths (yearAt days)).sum := by
  have hbounds := yearAt_bounds days
  rw [yearStart_succ] at hbounds
  omega

/-- The date of a day. -/
def dateAt (days : ℤ) : Date where
  year := yearAt days
  month := (locate (monthLengths (yearAt days)) (days - yearStart (yearAt days)).toNat).1
  day := (locate (monthLengths (yearAt days)) (days - yearStart (yearAt days)).toNat).2 + 1
  isDate := ⟨Nat.succ_pos _, (locate_spec (dayOfYear_lt days)).2⟩

theorem number_dateAt (days : ℤ) : (dateAt days).number = days := by
  have hbounds := yearAt_bounds days
  have hsum := (locate_spec (dayOfYear_lt days)).1
  unfold Date.number dayNumber dateAt
  dsimp only
  omega

theorem IsDate.month_lt {year : ℤ} {month day : ℕ} (h : IsDate year month day) : month < 12 := by
  cases Nat.lt_or_ge month 12 with
  | inl hlt => exact hlt
  | inr hle =>
    have hnone : (monthLengths year)[month]? = none := List.getElem?_eq_none hle
    obtain ⟨hpos, hday⟩ := h
    rw [List.getD_eq_getElem?_getD, hnone, Option.getD_none] at hday
    omega

theorem dayNumber_succ (year : ℤ) (month day : ℕ) :
    dayNumber year (month + 1) day =
      dayNumber year month day + (monthLengths year).getD month 0 := by
  have hsum : ((monthLengths year).take (month + 1)).sum =
      ((monthLengths year).take month).sum + (monthLengths year).getD month 0 := by
    rw [List.take_add_one, List.sum_append, List.getD_eq_getElem?_getD]
    cases (monthLengths year)[month]? <;> simp
  unfold dayNumber
  omega

theorem IsDate.day_le {year : ℤ} {month day : ℕ} (h : IsDate year month day) : day ≤ 31 := by
  apply Nat.le_trans h.2
  rw [List.getD_eq_getElem?_getD]
  cases hlength : (monthLengths year)[month]? with
  | none => exact Nat.zero_le 31
  | some length =>
    have hmem := List.mem_of_getElem? hlength
    unfold monthLengths at hmem
    simp only [List.mem_cons, List.not_mem_nil, or_false] at hmem
    rw [Option.getD_some]
    split_ifs at hmem <;> omega

end Calendar
