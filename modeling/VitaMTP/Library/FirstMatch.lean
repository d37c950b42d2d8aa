import Mathlib.Data.List.Basic
import Mathlib.Data.List.Infix

/-! First occurrence of a pattern in a list, and replacing it. -/
namespace FirstMatch

variable {α : Type*} [DecidableEq α]

/-- Offset of the first occurrence of `find`. -/
def offset? (find : List α) : List α → Option ℕ
  | [] => if find.isPrefixOf [] then some 0 else none
  | c :: s => if find.isPrefixOf (c :: s) then some 0 else (offset? find s).map (· + 1)

/-- The first occurrence of `find` replaced; the text itself where there is none. -/
def replaceFirst (s find replace : List α) : List α :=
  match offset? find s with
  | none => s
  | some i => s.take i ++ replace ++ s.drop (i + find.length)

theorem offset?_eq_some {find s : List α} {i : ℕ} (h : offset? find s = some i) :
    i ≤ s.length ∧ find <+: s.drop i ∧ ∀ j < i, ¬ find <+: s.drop j := by
  induction s generalizing i with
  | nil =>
    simp only [offset?] at h
    split_ifs at h with hp
    obtain rfl : 0 = i := Option.some.inj h
    exact ⟨le_rfl, List.isPrefixOf_iff_prefix.mp hp, by simp⟩
  | cons c s ih =>
    simp only [offset?] at h
    split_ifs at h with hp
    · obtain rfl : 0 = i := Option.some.inj h
      exact ⟨by simp, List.isPrefixOf_iff_prefix.mp hp, by simp⟩
    · obtain ⟨k, hk, rfl⟩ := Option.map_eq_some_iff.mp h
      obtain ⟨hle, hpre, hmin⟩ := ih hk
      refine ⟨by simpa using hle, by simpa using hpre, fun j hj => ?_⟩
      cases j with
      | zero => simpa [List.isPrefixOf_iff_prefix] using hp
      | succ j => simpa using hmin j (by omega)

theorem offset?_isSome {find s : List α} {i : ℕ} (h : find <+: s.drop i) :
    ∃ k ≤ i, offset? find s = some k := by
  induction s generalizing i with
  | nil =>
    have : find = [] := by simpa using h
    exact ⟨0, by omega, by simp [offset?, this]⟩
  | cons c s ih =>
    simp only [offset?]
    split_ifs with hp
    · exact ⟨0, by omega, rfl⟩
    · cases i with
      | zero => exact absurd (List.isPrefixOf_iff_prefix.mpr h) (by simpa using hp)
      | succ i =>
        obtain ⟨k, hk, he⟩ := ih (i := i) (by simpa using h)
        exact ⟨k + 1, by omega, by simp [he]⟩

theorem offset?_eq_none_iff {find s : List α} : offset? find s = none ↔ ¬ find <:+: s := by
  constructor
  · rintro h ⟨u, v, rfl⟩
    have hp : find <+: (u ++ find ++ v).drop u.length := by simp
    obtain ⟨k, -, hk⟩ := offset?_isSome hp
    exact Option.some_ne_none k (hk.symm.trans h)
  · intro h
    by_contra hne
    obtain ⟨i, hi⟩ := Option.ne_none_iff_exists'.mp hne
    have hp := (offset?_eq_some hi).2.1
    exact h (hp.isInfix.trans (List.drop_suffix i s).isInfix)

theorem offset?_of_min {find s : List α} {i : ℕ} (hp : find <+: s.drop i)
    (hmin : ∀ j < i, ¬ find <+: s.drop j) : offset? find s = some i := by
  obtain ⟨k, hk, he⟩ := offset?_isSome hp
  rcases hk.lt_or_eq with hlt | rfl
  · exact absurd (offset?_eq_some he).2.1 (hmin k hlt)
  · exact he

@[simp] theorem offset?_self (s : List α) : offset? s s = some 0 :=
  offset?_of_min (by simp) (by simp)

theorem replaceFirst_of_offset {u f v : List α} (r : List α)
    (h : offset? f (u ++ f ++ v) = some u.length) :
    replaceFirst (u ++ f ++ v) f r = u ++ r ++ v := by
  simp only [replaceFirst, h]
  simp [List.append_assoc]

@[simp] theorem replaceFirst_whole (s r : List α) : replaceFirst s s r = r := by
  simp [replaceFirst]

theorem replaceFirst_of_not_infix {s f : List α} (r : List α) (h : ¬ f <:+: s) :
    replaceFirst s f r = s := by
  simp [replaceFirst, offset?_eq_none_iff.mpr h]

@[simp] theorem replaceFirst_same (s f : List α) : replaceFirst s f f = s := by
  unfold replaceFirst
  cases h : offset? f s with
  | none => rfl
  | some i =>
    obtain ⟨v, hv⟩ := (offset?_eq_some h).2.1
    have hd : s.drop (i + f.length) = v := by
      rw [← List.drop_drop, ← hv, List.drop_left]
    simp only [hd]
    rw [List.append_assoc, hv, List.take_append_drop]

/-- The pattern stands at the end of the text. Replacing its first occurrence replaces the
trailing one, unless the text from the first occurrence on does not shift onto itself. -/
theorem replaceFirst_tail (pre f r : List α) :
    replaceFirst (pre ++ f) f r = pre ++ r ↔
      ∃ i ≤ pre.length, offset? f (pre ++ f) = some i ∧
        pre.drop i ++ r = r ++ (pre ++ f).drop (i + f.length) := by
  have hp : f <+: (pre ++ f).drop pre.length := by simp
  obtain ⟨i, hi, he⟩ := offset?_isSome hp
  have hreplace : replaceFirst (pre ++ f) f r =
      pre.take i ++ (r ++ (pre ++ f).drop (i + f.length)) := by
    simp only [replaceFirst, he]
    rw [List.take_append_of_le_length hi, List.append_assoc]
  have hiff : replaceFirst (pre ++ f) f r = pre ++ r ↔
      pre.drop i ++ r = r ++ (pre ++ f).drop (i + f.length) := by
    have hpre : pre ++ r = pre.take i ++ (pre.drop i ++ r) := by
      rw [← List.append_assoc, List.take_append_drop]
    rw [hreplace, hpre, List.append_cancel_left_eq, eq_comm]
  rw [hiff]
  constructor
  · exact fun h => ⟨i, hi, he, h⟩
  · rintro ⟨j, -, hj, h⟩
    obtain rfl := Option.some.inj (hj.symm.trans he)
    exact h

/-! Texts made of segments that a separator closes. -/

variable {sep : α}

def Closed (sep : α) (s : List α) : Prop := s = [] ∨ [sep] <:+ s

omit [DecidableEq α] in
theorem Closed.append {s t : List α} (hs : Closed sep s) (ht : Closed sep t) :
    Closed sep (s ++ t) := by
  rcases ht with rfl | ht
  · simpa using hs
  · exact Or.inr (ht.trans (List.suffix_append s t))

omit [DecidableEq α] in
omit [DecidableEq α] in
private theorem suffix_of_append {s t : List α} (h : [sep] <:+ s ++ t) (ht : t ≠ []) :
    [sep] <:+ t := by
  refine List.suffix_of_suffix_length_le h (List.suffix_append s t) ?_
  have := List.length_pos_iff.mpr ht
  simp only [List.length_singleton]
  omega

omit [DecidableEq α] in
theorem last_segment {s t n m : List α} (hs : [sep] <:+ s) (ht : [sep] <:+ t)
    (hn : sep ∉ n) (hm : sep ∉ m) (h : s ++ n = t ++ m) : n = m := by
  rcases List.append_eq_append_iff.mp h with ⟨w, rfl, rfl⟩ | ⟨w, rfl, rfl⟩
  · rcases List.eq_nil_or_concat w with rfl | ⟨x, y, rfl⟩
    · simp
    · have : [sep] <:+ x.concat y := suffix_of_append ht (by simp)
      exact absurd (List.mem_append_left m (this.mem (by simp))) hn
  · rcases List.eq_nil_or_concat w with rfl | ⟨x, y, rfl⟩
    · simp
    · have : [sep] <:+ x.concat y := suffix_of_append hs (by simp)
      exact absurd (List.mem_append_left n (this.mem (by simp))) hm

omit [DecidableEq α] in
/-- A segment in front of which the text repeats itself is a proper prefix of the overlap. -/
private theorem segment_overlap {w n b b' : List α} (hw : [sep] <:+ w) (hn : sep ∉ n)
    (h : w ++ (n ++ b) = n ++ b') : ∃ w', w = n ++ w' ∧ [sep] <:+ w' ∧ b' = w' ++ (n ++ b) := by
  rcases List.append_eq_append_iff.mp h with ⟨t, rfl, -⟩ | ⟨t, rfl, ht⟩
  · exact absurd (List.mem_append_left t (hw.mem (by simp))) hn
  · refine ⟨t, rfl, ?_, ht⟩
    rcases List.eq_nil_or_concat t with rfl | ⟨x, y, rfl⟩
    · exact absurd (hw.mem (List.mem_singleton_self sep)) (by simpa using hn)
    · exact suffix_of_append hw (by simp)

omit [DecidableEq α] in
/-- Changing one segment at two different places never gives the same text, unless the
segment stays what it is. -/
theorem segment_eq_of_shifted {a a' b b' n m : List α} (ha : [sep] <:+ a)
    (hn : sep ∉ n) (hm : sep ∉ m) (hlt : a'.length < a.length)
    (h₁ : a ++ (n ++ b) = a' ++ (n ++ b')) (h₂ : a ++ (m ++ b) = a' ++ (m ++ b')) : n = m := by
  have hpre : a' <+: a := List.prefix_of_prefix_length_le
    (h₁ ▸ List.prefix_append a' _) (List.prefix_append a _) hlt.le
  obtain ⟨w, rfl⟩ := hpre
  have hw : [sep] <:+ w := by
    refine suffix_of_append ha fun he => ?_
    simp [he] at hlt
  simp only [List.append_assoc, List.append_cancel_left_eq] at h₁ h₂
  obtain ⟨w₁, e₁, s₁, r₁⟩ := segment_overlap hw hn h₁
  obtain ⟨w₂, -, s₂, r₂⟩ := segment_overlap hw hm h₂
  have he : w₁ ++ n = w₂ ++ m := by
    have := r₁.symm.trans r₂
    simpa only [← List.append_assoc, List.append_cancel_right_eq] using this
  exact last_segment s₁ s₂ hn hm he

/-- The pattern stands at the end of the text. Replacing its first occurrence changes the
segment there exactly when no earlier occurrence hides it, or nothing changes at all. -/
theorem replaceFirst_tail_iff {c A B n m : List α} (hc : Closed sep c) (hA : Closed sep A)
    (hn : sep ∉ n) (hm : sep ∉ m) :
    replaceFirst (c ++ (A ++ n ++ B)) (A ++ n ++ B) (A ++ m ++ B) = c ++ (A ++ m ++ B) ↔
      n = m ∨ offset? (A ++ n ++ B) (c ++ (A ++ n ++ B)) = some c.length := by
  constructor
  · intro h
    by_cases hnm : n = m
    · exact Or.inl hnm
    have hp : A ++ n ++ B <+: (c ++ (A ++ n ++ B)).drop c.length := by simp
    obtain ⟨i, hi, he⟩ := offset?_isSome hp
    refine Or.inr ?_
    rcases hi.lt_or_eq with hlt | rfl
    · exfalso
      have hlen := (offset?_eq_some he).1
      obtain ⟨v, hv⟩ := (offset?_eq_some he).2.1
      generalize hs : c ++ (A ++ n ++ B) = s at *
      obtain ⟨u, hu⟩ : ∃ u, u = s.take i := ⟨_, rfl⟩
      have hul : u.length = i := by rw [hu, List.length_take]; omega
      have hsu : s = u ++ ((A ++ n ++ B) ++ v) := by rw [hv, hu, List.take_append_drop]
      have hd : s.drop (i + (A ++ n ++ B).length) = v := by
        rw [← List.drop_drop, ← hv, List.drop_left]
      simp only [replaceFirst, he, hd, ← hu] at h
      have hcA : [sep] <:+ c ++ A := by
        rcases hc.append hA with h0 | h1
        · simp only [List.append_eq_nil_iff] at h0
          simp [h0.1] at hlt
        · exact h1
      have h₁ : (c ++ A) ++ (n ++ B) = (u ++ A) ++ (n ++ (B ++ v)) := by
        simpa only [List.append_assoc] using hs.trans hsu
      have h₂ : (c ++ A) ++ (m ++ B) = (u ++ A) ++ (m ++ (B ++ v)) := by
        simpa only [List.append_assoc] using h.symm
      have hl : (u ++ A).length < (c ++ A).length := by
        simp only [List.length_append]
        omega
      exact hnm (segment_eq_of_shifted hcA hn hm hl h₁ h₂)
    · exact he
  · rintro (rfl | h)
    · exact replaceFirst_same _ _
    · have := replaceFirst_of_offset (u := c) (v := []) (A ++ m ++ B) (by simpa using h)
      simpa using this

end FirstMatch
