import Mathlib.Algebra.BigOperators.Group.List.Basic
import VitaMTP.Library.ParentFirst

/-! Values added up over the children of an element: what happens to the sums when values grow
along a path to the top and when a subtree leaves. -/
namespace ParentFirst

variable {α ι M : Type*} [DecidableEq ι] [AddCommMonoid M] {key par : α → ι} {f f' : α → M}

/-- The values of the elements that name `a` as their parent, added up. -/
def childSum (par : α → ι) (f : α → M) (l : List α) (a : ι) : M :=
  ((l.filter fun x => par x = a).map f).sum

theorem childSum_cons (x : α) (l : List α) (a : ι) :
    childSum par f (x :: l) a = (if par x = a then f x else 0) + childSum par f l a := by
  unfold childSum
  by_cases h : par x = a <;> simp [h]

theorem childSum_append (l l' : List α) (a : ι) :
    childSum par f (l ++ l') a = childSum par f l a + childSum par f l' a := by
  simp [childSum]

theorem childSum_eq_zero {l : List α} {a : ι} (h : ∀ x ∈ l, par x ≠ a) :
    childSum par f l a = 0 := by
  have hnone : l.filter (fun x => par x = a) = [] := by
    simpa [List.filter_eq_nil_iff] using h
  simp [childSum, hnone]

theorem childSum_congr {l : List α} {a : ι} (h : ∀ x ∈ l, par x = a → f' x = f x) :
    childSum par f' l a = childSum par f l a := by
  unfold childSum
  congr 1
  refine List.map_congr_left fun x hx => ?_
  obtain ⟨hx, hp⟩ := List.mem_filter.mp hx
  exact h x hx (by simpa using hp)

theorem childSum_map {g : α → α} {l : List α} (a : ι) (hpar : ∀ x ∈ l, par (g x) = par x) :
    childSum par f (l.map g) a = childSum par (fun x => f (g x)) l a := by
  induction l with
  | nil => rfl
  | cons x xs ih =>
    rw [List.map_cons, childSum_cons, childSum_cons, hpar x (by simp),
      ih fun y hy => hpar y (List.mem_cons_of_mem _ hy)]

theorem childSum_filter {p : α → Bool} {l : List α} {a : ι}
    (h : ∀ x ∈ l, par x = a → p x = true) :
    childSum par f (l.filter p) a = childSum par f l a := by
  unfold childSum
  rw [List.filter_filter]
  congr 2
  refine List.filter_congr fun x hx => ?_
  by_cases hp : par x = a
  · simp [hp, h x hx hp]
  · simp [hp]

theorem childSum_add {l l' : List α} {x : α} (b : M) (hx : f' x = f x + b)
    (h : ∀ y ∈ l ++ l', par y = par x → f' y = f y) :
    childSum par f' (l ++ x :: l') (par x) = childSum par f (l ++ x :: l') (par x) + b := by
  rw [childSum_append, childSum_append, childSum_cons, childSum_cons, if_pos rfl, if_pos rfl, hx,
    childSum_congr fun y hy => h y (List.mem_append_left _ hy),
    childSum_congr fun y hy => h y (List.mem_append_right _ hy)]
  ac_rfl

open Classical in
/-- `b` goes into `k` and everything above it: a sum grows by `b` if it belongs to something
above `k`, since exactly one child of it leads to `k`. -/
theorem Ordered.childSum_grow {l : List α} (ho : Ordered key par l) (a k : ι) (b : M)
    (hf : ∀ x ∈ l, f' x = if Below key par l (key x) k then f x + b else f x) :
    childSum par f' l a = childSum par f l a + if a ≠ k ∧ Below key par l a k then b else 0 := by
  by_cases hchild : ∃ x ∈ l, par x = a ∧ Below key par l (key x) k
  · obtain ⟨x, hx, rfl, hb⟩ := hchild
    have hne : par x ≠ k := fun he => ho.not_below_par hx (he ▸ hb)
    have habove : Below key par l (par x) k := hb.head ⟨x, hx, rfl, rfl⟩
    rw [if_pos ⟨hne, habove⟩]
    have hvalue := hf x hx
    rw [if_pos hb] at hvalue
    obtain ⟨p, q, rfl⟩ := List.append_of_mem hx
    refine childSum_add b hvalue fun y hy hp => ?_
    have hyl : y ∈ p ++ x :: q := by
      rcases List.mem_append.mp hy with hy | hy
      · exact List.mem_append_left _ hy
      · exact List.mem_append_right _ (List.mem_cons_of_mem _ hy)
    have hyx : y ≠ x := by
      rintro rfl
      have hn := ho.nodup.of_map
      rw [List.nodup_middle, List.nodup_cons] at hn
      exact hn.1 hy
    rw [hf y hyl, if_neg fun hby => hyx (ho.child_unique hyl hx hp hby hb)]
  · have hnot : ¬ (a ≠ k ∧ Below key par l a k) := by
      rintro ⟨hne, hb⟩
      rcases hb.cases_head with he | ⟨_, ⟨x, hx, hp, rfl⟩, hb⟩
      · exact hne he
      · exact hchild ⟨x, hx, hp, hb⟩
    rw [if_neg hnot, add_zero]
    refine childSum_congr fun x hx hp => ?_
    rw [hf x hx, if_neg fun hb => hchild ⟨x, hx, hp, hb⟩]

/-- A subtree leaves: only its parent loses anything. -/
theorem Ordered.childSum_without {l : List α} (ho : Ordered key par l) {x : α} (hx : x ∈ l)
    {a : ι} (ha : ¬ Below key par l (key x) a) :
    childSum par f l a =
      childSum par f (without key par (key x) l) a + if par x = a then f x else 0 := by
  have hkept (y : α) (hy : y ∈ l) (hyx : y ≠ x) (hp : par y = a) :
      ¬ Below key par l (key x) (key y) := by
    rw [ho.below_iff hy, hp]
    rintro (he | hb)
    · exact hyx (ho.inj hy hx he.symm)
    · exact ha hb
  unfold without
  obtain ⟨p, q, rfl⟩ := List.append_of_mem hx
  have hn := ho.nodup.of_map
  rw [List.nodup_middle, List.nodup_cons] at hn
  have hside {r : List α} (hr : r ⊆ p ++ q) : ∀ y ∈ r, y ∈ p ++ x :: q ∧ y ≠ x := by
    intro y hy
    have hpq := hr hy
    refine ⟨?_, fun he => hn.1 (he ▸ hpq)⟩
    rcases List.mem_append.mp hpq with hy | hy
    · exact List.mem_append_left _ hy
    · exact List.mem_append_right _ (List.mem_cons_of_mem _ hy)
  rw [List.filter_append, List.filter_cons_of_neg (by simpa using .refl), childSum_append,
    childSum_append, childSum_cons, childSum_filter, childSum_filter]
  · rw [add_assoc, add_comm (childSum par f q a)]
  · intro y hy hp
    obtain ⟨hyl, hyx⟩ := hside (List.subset_append_right p q) y hy
    simpa using hkept y hyl hyx hp
  · intro y hy hp
    obtain ⟨hyl, hyx⟩ := hside (List.subset_append_left p q) y hy
    simpa using hkept y hyl hyx hp

end ParentFirst
