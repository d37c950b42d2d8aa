import Mathlib.Data.List.Basic
import Mathlib.Data.List.TakeWhile

/-! Texts that lead on from a root by components, each of them behind a separator. -/
namespace Components

variable {α : Type*} {sep : α} {P : List α → Prop} {root path mid name : List α} {i : ℕ}

/-- `path` is `root` and one or more components that have the property `P`. -/
def Inside (sep : α) (P : List α → Prop) (root path : List α) : Prop :=
  ∃ comps : List (List α), comps ≠ [] ∧ (∀ c ∈ comps, c ≠ [] ∧ sep ∉ c ∧ P c) ∧
    path = root ++ comps.flatMap (sep :: ·)

theorem inside_component (root : List α) (hne : name ≠ []) (hsep : sep ∉ name) (hP : P name) :
    Inside sep P root (root ++ sep :: name) :=
  ⟨[name], by simp, by simpa using ⟨hne, hsep, hP⟩, by simp⟩

namespace Inside

theorem trans (h : Inside sep P root mid) (h' : Inside sep P mid path) :
    Inside sep P root path := by
  obtain ⟨comps, hne, hall, rfl⟩ := h
  obtain ⟨comps', hne', hall', rfl⟩ := h'
  refine ⟨comps ++ comps', by simp [hne], fun c hc => ?_, by simp⟩
  exact (List.mem_append.mp hc).elim (hall c) (hall' c)

/-- What leads on from the empty text leads on from every root. -/
theorem join (h : Inside sep P [] path) (root : List α) : Inside sep P root (root ++ path) := by
  obtain ⟨comps, hne, hall, rfl⟩ := h
  exact ⟨comps, hne, hall, by simp⟩

theorem isPrefix (h : Inside sep P root path) : root <+: path := by
  obtain ⟨comps, -, -, rfl⟩ := h
  exact List.prefix_append root _

theorem getLast?_ne (h : Inside sep P root path) : path.getLast? ≠ some sep := by
  obtain ⟨comps, hne, hall, rfl⟩ := h
  obtain ⟨comps, c, rfl⟩ := List.eq_nil_or_concat comps |>.resolve_left hne
  obtain ⟨hc, hsep, -⟩ := hall c (by simp)
  intro hlast
  simp only [List.concat_eq_append, List.flatMap_append, List.flatMap_singleton,
    List.getLast?_append, List.getLast?_cons] at hlast
  have hmem : sep ∈ c := by
    cases hl : c.getLast? with
    | none => exact absurd (List.getLast?_eq_none_iff.mp hl) hc
    | some a =>
      obtain rfl : a = sep := by simpa [hl] using hlast
      exact List.mem_of_getLast? hl
  exact hsep hmem

end Inside

/-- What is in front of a separator is a part of the root, or inside it. -/
theorem take_cases {comps : List (List α)} (hall : ∀ c ∈ comps, c ≠ [] ∧ sep ∉ c ∧ P c)
    (root : List α) (hi : (root ++ comps.flatMap (sep :: ·))[i]? = some sep) :
    (root ++ comps.flatMap (sep :: ·)).take i <+: root ∨
      Inside sep P root ((root ++ comps.flatMap (sep :: ·)).take i) := by
  induction comps generalizing root with
  | nil => exact Or.inl (by simpa using List.take_prefix i root)
  | cons c comps ih =>
    obtain ⟨hne, hsep, hP⟩ := hall c (by simp)
    have hpath : root ++ (c :: comps).flatMap (sep :: ·) =
        (root ++ sep :: c) ++ comps.flatMap (sep :: ·) := by
      simp
    by_cases hle : i ≤ root.length
    · left
      rw [List.take_append_of_le_length hle]
      exact List.take_prefix i root
    · rw [hpath] at hi ⊢
      have hlong : (root ++ sep :: c).length ≤ i := by
        by_contra hlt
        rw [List.getElem?_append_left (by omega), List.getElem?_append_right (by omega),
          List.getElem?_cons, if_neg (by omega)] at hi
        exact hsep (List.mem_of_getElem? hi)
      have hmid : Inside sep P root (root ++ sep :: c) := inside_component root hne hsep hP
      right
      rcases ih (fun d hd => hall d (List.mem_cons_of_mem _ hd)) (root ++ sep :: c) hi with hp | hin
      · have hlen := (List.getElem?_eq_some_iff.mp hi).1
        rw [hp.eq_of_length_le (by rw [List.length_take]; omega)]
        exact hmid
      · exact hmid.trans hin

theorem Inside.take (h : Inside sep P root path) (hi : path[i]? = some sep) :
    path.take i <+: root ∨ Inside sep P root (path.take i) := by
  obtain ⟨comps, -, hall, rfl⟩ := h
  exact take_cases hall root hi

theorem not_inside (hsep : sep ∉ name) (hP : ¬ P name) :
    ¬ Inside sep P root (root ++ sep :: name) := by
  rintro ⟨comps, hne, hall, heq⟩
  obtain ⟨c, comps, rfl⟩ := List.exists_cons_of_ne_nil hne
  have hname : name = c ++ comps.flatMap (sep :: ·) := by
    simpa using List.append_cancel_left heq
  cases comps with
  | nil =>
    obtain rfl : name = c := by simpa using hname
    exact hP (hall name (by simp)).2.2
  | cons d comps => exact hsep (hname ▸ by simp)

theorem not_inside_append (hsep : sep ∉ name) (hP : ¬ P name) (rest : List α) :
    ¬ Inside sep P root ((root ++ sep :: name) ++ sep :: rest) := by
  intro h
  have hbehind : ((root ++ sep :: name) ++ sep :: rest)[(root ++ sep :: name).length]? =
      some sep := by
    simp
  rcases h.take hbehind with hroot | hin
  · have hlength := hroot.length_le
    rw [List.take_left, List.length_append, List.length_cons] at hlength
    omega
  · rw [List.take_left] at hin
    exact not_inside hsep hP hin

section lastPart

variable [BEq α] {s t : List α}

/-- What is behind the last separator, or everything if there is none. -/
def lastPart (sep : α) (s : List α) : List α := (s.reverse.takeWhile (· != sep)).reverse

theorem lastPart_subset (sep : α) (s : List α) : lastPart sep s ⊆ s := by
  intro x hx
  have hx := List.mem_reverse.mp hx
  exact List.mem_reverse.mp ((List.takeWhile_prefix _).subset hx)

variable [LawfulBEq α]

theorem not_mem_lastPart (sep : α) (s : List α) : sep ∉ lastPart sep s := by
  intro hmem
  have hne := List.mem_takeWhile_imp (List.mem_reverse.mp hmem)
  simp at hne

theorem lastPart_append_of_not_mem (h : sep ∉ t) :
    lastPart sep (s ++ t) = lastPart sep s ++ t := by
  have hall : ∀ x ∈ t.reverse, (x != sep) = true := by
    intro x hx
    rw [bne_iff_ne]
    exact fun he => h (he ▸ List.mem_reverse.mp hx)
  rw [lastPart, List.reverse_append, List.takeWhile_append_of_pos hall, List.reverse_append,
    List.reverse_reverse, lastPart]

theorem lastPart_append_of_mem (h : sep ∈ t) : lastPart sep (s ++ t) = lastPart sep t := by
  have hstop : (t.reverse.takeWhile (· != sep)).length ≠ t.reverse.length := by
    intro hlength
    have hself := (List.takeWhile_prefix (· != sep)).eq_of_length hlength
    exact not_mem_lastPart sep t (by rw [lastPart, hself, List.reverse_reverse]; exact h)
  rw [lastPart, List.reverse_append, List.takeWhile_append, if_neg hstop, lastPart]

end lastPart

end Components
