import Mathlib.Data.List.Chain
import Mathlib.Data.List.Nodup
import Mathlib.Logic.Function.Basic

/-! Singly linked chains threaded through a successor map, and building one from the left. -/
namespace Chain

variable {ι : Type*}

/-- Following `next` from `head` visits exactly `l` and ends. -/
def Follows (next : ι → Option ι) : Option ι → List ι → Prop
  | head, [] => head = none
  | head, a :: l => head = some a ∧ Follows next (next a) l

/-- Each element of `l` but the last points to the one behind it. -/
def Links (next : ι → Option ι) (l : List ι) : Prop := l.IsChain (fun a b => next a = some b)

variable {next next' : ι → Option ι}

theorem Follows.congr {head : Option ι} {l : List ι} (h : Follows next head l)
    (hn : ∀ a ∈ l, next' a = next a) : Follows next' head l := by
  induction l generalizing head with
  | nil => exact h
  | cons a l ih =>
    refine ⟨h.1, ?_⟩
    rw [hn a (by simp)]
    exact ih h.2 fun b hb => hn b (List.mem_cons_of_mem _ hb)

theorem Links.congr {l : List ι} (h : Links next l) (hn : ∀ a ∈ l.dropLast, next' a = next a) :
    Links next' l := by
  unfold Links at h ⊢
  induction l with
  | nil => exact .nil
  | cons a l ih =>
    cases l with
    | nil => exact .singleton a
    | cons b l =>
      rw [List.isChain_cons_cons] at h ⊢
      refine ⟨(hn a (by simp)).trans h.1, ih h.2 fun c hc => hn c ?_⟩
      rw [List.dropLast_cons_cons]
      exact List.mem_cons_of_mem _ hc

theorem Links.follows {l : List ι} (h : Links next l) (hlast : ∀ a ∈ l.getLast?, next a = none) :
    Follows next l.head? l := by
  induction l with
  | nil => rfl
  | cons a l ih =>
    refine ⟨rfl, ?_⟩
    cases l with
    | nil => exact hlast a (by simp)
    | cons b l =>
      unfold Links at h
      rw [List.isChain_cons_cons] at h
      rw [h.1]
      exact ih h.2 fun c hc => hlast c (by simpa using hc)

theorem Links.concat {l : List ι} {b : ι} (h : Links next l)
    (hb : ∀ a ∈ l.getLast?, next a = some b) : Links next (l ++ [b]) := by
  unfold Links at h ⊢
  rw [List.isChain_append]
  refine ⟨h, .singleton b, fun a ha c hc => ?_⟩
  simp only [List.head?_cons, Option.mem_def, Option.some.injEq] at hc
  exact hc ▸ hb a ha

section write

variable [DecidableEq ι]

/-- Writing the link of the last element leaves the links in front of it alone. -/
theorem Links.update_last {l : List ι} {a : ι} {v : Option ι} (h : Links next (l ++ [a]))
    (hn : (l ++ [a]).Nodup) : Links (Function.update next a v) (l ++ [a]) := by
  refine h.congr fun c hc => Function.update_of_ne ?_ _ _
  rintro rfl
  rw [List.dropLast_concat] at hc
  exact List.disjoint_of_nodup_append hn hc (by simp)

end write

end Chain
