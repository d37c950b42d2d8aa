import Mathlib.Data.List.Basic
import Mathlib.Data.List.Induction
import Mathlib.Logic.Function.Basic

/-! File systems without links. A place is the list of the names that lead to it. -/

inductive FileKind
  | file
  | folder
  deriving DecidableEq, Repr

/-- What is at each place. Only a folder has anything in it. -/
structure FileTree (α : Type*) where
  kind : List α → Option FileKind
  closed : ∀ p a, (kind (p ++ [a])).isSome → kind p = some .folder

namespace FileTree

variable {α : Type*} {t t' : FileTree α} {p q r : List α} {k : FileKind}

theorem kind_of_append (t : FileTree α) (h : (t.kind (p ++ r)).isSome) (hr : r ≠ []) :
    t.kind p = some .folder := by
  induction r using List.reverseRecOn with
  | nil => exact absurd rfl hr
  | append_singleton r a ih =>
    rw [← List.append_assoc] at h
    have hfolder := t.closed (p ++ r) a h
    by_cases hnil : r = []
    · simpa [hnil] using hfolder
    · exact ih (by simp [hfolder]) hnil

theorem kind_append_none (t : FileTree α) (h : t.kind p = none) (r : List α) :
    t.kind (p ++ r) = none := by
  by_cases hr : r = []
  · simpa [hr] using h
  · rw [← Option.not_isSome_iff_eq_none]
    intro hsome
    simp [t.kind_of_append hsome hr] at h

theorem isSome_of_append (t : FileTree α) (h : (t.kind (p ++ r)).isSome) : (t.kind p).isSome := by
  rw [Option.isSome_iff_ne_none]
  intro hnone
  rw [t.kind_append_none hnone r] at h
  simp at h

variable [DecidableEq α]

def add (t : FileTree α) (p : List α) (k : FileKind) : Option (FileTree α) :=
  if h : t.kind p = none ∧ t.kind p.dropLast = some .folder then
    some
      { kind := Function.update t.kind p (some k)
        closed := by
          intro q a hq
          by_cases hpa : q ++ [a] = p
          · have hqp : q = p.dropLast := by simp [← hpa]
            have hne : q ≠ p := fun he => by
              have := congrArg List.length (he.trans hpa.symm)
              simp at this
            rw [Function.update_of_ne hne, hqp]
            exact h.2
          · rw [Function.update_of_ne hpa] at hq
            have hfolder := t.closed q a hq
            have hne : q ≠ p := fun he => by simp [he, h.1] at hfolder
            rwa [Function.update_of_ne hne] }
  else none

theorem add_eq_some (h : t.add p k = some t') : t.kind p = none ∧
    t.kind p.dropLast = some .folder ∧ t'.kind = Function.update t.kind p (some k) := by
  unfold add at h
  split at h
  · rename_i hp
    obtain rfl := Option.some.inj h
    exact ⟨hp.1, hp.2, rfl⟩
  · simp at h

/-- A place with everything in it leaves. -/
def remove (t : FileTree α) (p : List α) : FileTree α where
  kind q := if p <+: q then none else t.kind q
  closed := by
    intro q a hq
    split at hq
    · simp at hq
    · rename_i hpa
      rw [if_neg fun hp => hpa (hp.trans (List.prefix_append q [a]))]
      exact t.closed q a hq

/-- What is at `p` goes to `q`, where nothing is. -/
def move (t : FileTree α) (p q : List α) : Option (FileTree α) :=
  if h : (t.kind p).isSome ∧ t.kind q = none ∧ t.kind q.dropLast = some .folder ∧ ¬ p <+: q then
    some
      { kind := fun r =>
          if q <+: r then t.kind (p ++ r.drop q.length) else if p <+: r then none else t.kind r
        closed := by
          obtain ⟨-, hq, hparent, hpq⟩ := h
          intro r a hr
          by_cases hqr : q <+: r
          · have hqa := hqr.trans (List.prefix_append r [a])
            rw [if_pos hqa, List.drop_append_of_le_length hqr.length_le, ← List.append_assoc] at hr
            rw [if_pos hqr]
            exact t.closed _ a hr
          · rw [if_neg hqr]
            by_cases hqa : q <+: r ++ [a]
            · obtain rfl : q = r ++ [a] := (List.prefix_concat_iff.mp hqa).resolve_right hqr
              have hpr : ¬ p <+: r := fun hp => hpq (hp.trans (List.prefix_append r [a]))
              rw [if_neg hpr]
              simpa using hparent
            · rw [if_neg hqa] at hr
              split at hr
              · simp at hr
              · rename_i hpa
                rw [if_neg fun hp => hpa (hp.trans (List.prefix_append r [a]))]
                exact t.closed r a hr }
  else none

theorem move_eq_some (h : t.move p q = some t') : t.kind q = none ∧ ¬ p <+: q ∧
    ∀ r, t'.kind r =
      if q <+: r then t.kind (p ++ r.drop q.length) else if p <+: r then none else t.kind r := by
  unfold move at h
  split at h
  · rename_i hp
    obtain rfl := Option.some.inj h
    exact ⟨hp.2.1, hp.2.2.2, fun _ => rfl⟩
  · simp at h

end FileTree
