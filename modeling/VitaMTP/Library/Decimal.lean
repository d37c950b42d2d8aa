import Mathlib.Data.BitVec
import Mathlib.Data.Int.Notation
import Mathlib.Data.List.Basic

/-! Decimal numbers of a fixed number of digits, as they are printed and read. -/
namespace Decimal

variable {w n : ℕ} {text : List Char}

/-- `%0wd` of a number that is not negative. -/
def pad (w n : ℕ) : List Char :=
  List.leftpad w '0' (Nat.toDigits 10 n)

/-- `%0wd`. The sign counts. -/
def format (w : ℕ) : ℤ → List Char
  | .ofNat n => pad w n
  | .negSucc n => '-' :: pad (w - 1) (n + 1)

/-- A number of exactly `w` digits at the start, and what follows it. -/
def number (w : ℕ) (text : List Char) : Option (ℕ × List Char) :=
  if w ≤ text.length ∧ (text.take w).all Char.isDigit then
    some (Nat.ofDigitChars 10 (text.take w) 0, text.drop w)
  else none

/-- A number of any number of digits. -/
def natural (text : List Char) : Option ℕ :=
  if text ≠ [] ∧ text.all Char.isDigit then some (Nat.ofDigitChars 10 text 0) else none

def integer : List Char → Option ℤ
  | '-' :: text => (natural text).map fun n => -n
  | text => (natural text).map fun n => n

def literal (ch : Char) : List Char → Option (List Char)
  | [] => none
  | ch' :: text => if ch' = ch then some text else none

@[simp] theorem literal_cons (ch : Char) : literal ch (ch :: text) = some text := if_pos rfl

theorem format_natCast (w n : ℕ) : format w n = pad w n := rfl

theorem isDigit_of_mem_pad {ch : Char} (h : ch ∈ pad w n) : ch.isDigit := by
  rw [pad, List.leftpad, List.mem_append] at h
  cases h with
  | inl hzero => rw [List.eq_of_mem_replicate hzero]; rfl
  | inr hdigit => exact Nat.isDigit_of_mem_toDigits (by omega) (Nat.le_refl 10) hdigit

theorem mem_format {i : ℤ} {ch : Char} (h : ch ∈ format w i) : ch = '-' ∨ ch.isDigit := by
  cases i with
  | ofNat n => exact .inr (isDigit_of_mem_pad h)
  | negSucc n =>
    cases List.mem_cons.mp h with
    | inl hsign => exact .inl hsign
    | inr hdigit => exact .inr (isDigit_of_mem_pad hdigit)

theorem ofDigitChars_pad : Nat.ofDigitChars 10 (pad w n) 0 = n := by
  rw [pad, List.leftpad, Nat.ofDigitChars_append, Nat.ofDigitChars_replicate_zero, Nat.mul_zero,
    Nat.ofDigitChars_ten_toDigits]

theorem length_pad (hw : 0 < w) (hn : n < 10 ^ w) : (pad w n).length = w := by
  have hdigits := (Nat.length_toDigits_le_iff (by omega : 1 < 10) hw).mpr hn
  rw [pad, List.length_leftpad]
  omega

theorem number_pad (hw : 0 < w) (hn : n < 10 ^ w) :
    number w (pad w n ++ text) = some (n, text) := by
  have hlength := length_pad hw hn
  have htake : (pad w n ++ text).take w = pad w n := List.take_left' hlength
  have hdrop : (pad w n ++ text).drop w = text := List.drop_left' hlength
  have hall : (pad w n).all Char.isDigit := List.all_eq_true.mpr fun _ => isDigit_of_mem_pad
  rw [number, htake, hdrop, ofDigitChars_pad, if_pos]
  refine ⟨?_, hall⟩
  rw [List.length_append]
  omega

/-- A number of `w` digits and what follows it can be told apart. -/
theorem pad_append_inj {m : ℕ} {text' : List Char} (hw : 0 < w) (hn : n < 10 ^ w) (hm : m < 10 ^ w)
    (h : pad w n ++ text = pad w m ++ text') : n = m ∧ text = text' := by
  have hread := congrArg (number w) h
  rw [number_pad hw hn, number_pad hw hm] at hread
  exact Prod.mk.inj (Option.some.inj hread)

theorem pad_ne_nil (w n : ℕ) : pad w n ≠ [] := by
  rw [pad, List.leftpad]
  simp

theorem natural_pad (w n : ℕ) : natural (pad w n) = some n := by
  have hall : (pad w n).all Char.isDigit := List.all_eq_true.mpr fun _ => isDigit_of_mem_pad
  rw [natural, if_pos ⟨pad_ne_nil w n, hall⟩, ofDigitChars_pad]

theorem integer_format (w : ℕ) (i : ℤ) : integer (format w i) = some i := by
  cases i with
  | ofNat n =>
    have hread := natural_pad w n
    show integer (pad w n) = _
    cases hpad : pad w n with
    | nil => exact absurd hpad (pad_ne_nil w n)
    | cons ch text =>
      have hdigit : ch.isDigit := isDigit_of_mem_pad (hpad ▸ List.mem_cons_self)
      rw [hpad] at hread
      rw [integer]
      · rw [hread]
        rfl
      · intro text' heq
        rw [(List.cons.inj heq).1] at hdigit
        simp at hdigit
  | negSucc n =>
    rw [format, integer, natural_pad]
    rfl

theorem format_injective (w : ℕ) : Function.Injective (format w) := by
  intro i j h
  have hread := congrArg integer h
  rw [integer_format, integer_format] at hread
  exact Option.some.inj hread

end Decimal
