import Mathlib.Data.List.Nodup
import Mathlib.Data.List.Perm.Basic

/-! Lists that hold the graph of a partial function. -/

variable {α β : Type*} {f g u : α → Option β} {l l' : List (α × β)}

/-- `l` has each argument at which `f` is defined exactly once, with its value. -/
structure Enumerates (f : α → Option β) (l : List (α × β)) : Prop where
  nodup : (l.map Prod.fst).Nodup
  mem : ∀ a b, (a, b) ∈ l ↔ f a = some b

namespace Enumerates

theorem isSome (h : Enumerates f l) {a : α} : (f a).isSome ↔ a ∈ l.map Prod.fst := by
  rw [Option.isSome_iff_exists, List.mem_map]
  constructor
  · rintro ⟨b, hb⟩
    exact ⟨(a, b), (h.mem a b).mpr hb, rfl⟩
  · rintro ⟨⟨a', b⟩, hmem, rfl⟩
    exact ⟨b, (h.mem a' b).mp hmem⟩

theorem eq_none (h : Enumerates f l) {a : α} : f a = none ↔ a ∉ l.map Prod.fst := by
  rw [← h.isSome, Option.not_isSome_iff_eq_none]

theorem perm (h : Enumerates f l) (h' : Enumerates f l') : l.Perm l' := by
  apply (List.perm_ext_iff_of_nodup h.nodup.of_map h'.nodup.of_map).mpr
  intro e
  rw [h.mem e.1 e.2, h'.mem e.1 e.2]

theorem congr (h : Enumerates f l) (hg : ∀ a, g a = f a) : Enumerates g l :=
  ⟨h.nodup, fun a b => by rw [hg, h.mem]⟩

theorem nil (hf : ∀ a, f a = none) : Enumerates f [] := ⟨List.nodup_nil, by simp [hf]⟩

theorem singleton {a : α} {b : β} (ha : f a = some b) (hf : ∀ x, x ≠ a → f x = none) :
    Enumerates f [(a, b)] := by
  constructor
  · simp
  · intro x y
    by_cases hx : x = a
    · subst hx
      simp [ha, eq_comm]
    · simp [hx, hf x hx]

/-- Functions that are nowhere both defined are enumerated together. -/
theorem union (h : Enumerates f l) (h' : Enumerates g l') (hfg : ∀ a, f a = none ∨ g a = none)
    (hu : ∀ a, u a = (f a).or (g a)) : Enumerates u (l ++ l') := by
  constructor
  · rw [List.map_append, List.nodup_append']
    refine ⟨h.nodup, h'.nodup, fun a ha ha' => ?_⟩
    rcases hfg a with hnone | hnone
    · exact h.eq_none.mp hnone ha
    · exact h'.eq_none.mp hnone ha'
  · intro a b
    rw [List.mem_append, h.mem, h'.mem, hu, Option.or_eq_some_iff]
    rcases hfg a with hnone | hnone
    · simp [hnone]
    · simp [hnone]

theorem filter (h : Enumerates f l) {P : α → Prop} [DecidablePred P]
    (hP : ∀ a, P a → g a = none) (hg : ∀ a, ¬ P a → g a = f a) :
    Enumerates g (l.filter fun e => ¬ P e.1) := by
  constructor
  · exact h.nodup.sublist (List.filter_sublist.map _)
  · intro a b
    rw [List.mem_filter, h.mem, decide_eq_true_eq]
    by_cases ha : P a
    · simp [ha, hP a ha]
    · simp [ha, hg a ha]

/-- The arguments are renamed by `r`, and `g` is `f` under the new names. -/
theorem rename (h : Enumerates f l) {r : α → α}
    (hinj : ∀ a a', (f a).isSome → (f a').isSome → r a = r a' → a = a')
    (hg : ∀ a b, g a = some b ↔ ∃ a', f a' = some b ∧ r a' = a) :
    Enumerates g (l.map fun e => (r e.1, e.2)) := by
  constructor
  · rw [List.map_map]
    have hcomp : (Prod.fst ∘ fun e : α × β => (r e.1, e.2)) = r ∘ Prod.fst := rfl
    rw [hcomp, ← List.map_map]
    refine h.nodup.map_on fun a ha a' ha' he => ?_
    exact hinj a a' (h.isSome.mpr ha) (h.isSome.mpr ha') he
  · intro a b
    rw [hg, List.mem_map]
    constructor
    · rintro ⟨⟨a', b'⟩, hmem, he⟩
      obtain ⟨rfl, rfl⟩ := Prod.mk.inj he
      exact ⟨a', (h.mem a' b').mp hmem, rfl⟩
    · rintro ⟨a', hf, rfl⟩
      exact ⟨(a', b), (h.mem a' b).mpr hf, rfl⟩

end Enumerates

section move

variable {α β : Type*} {old new p : List α}

open Classical in
/-- Where what is at `p` goes when `old` becomes `new`. -/
noncomputable def moved (old new p : List α) : List α :=
  if old <+: p then new ++ p.drop old.length else p

@[simp] theorem moved_append (old new p : List α) : moved old new (old ++ p) = new ++ p := by
  simp [moved]

theorem moved_of_not (h : ¬ old <+: p) : moved old new p = p := if_neg h

theorem moved_concat (h : old <+: p) (a : α) :
    moved old new (p ++ [a]) = moved old new p ++ [a] := by
  obtain ⟨r, rfl⟩ := h
  rw [List.append_assoc, moved_append, moved_append, List.append_assoc]

@[simp] theorem moved_self (old p : List α) : moved old old p = p := by
  by_cases h : old <+: p
  · obtain ⟨r, rfl⟩ := h
    rw [moved_append]
  · exact moved_of_not h

/-- Everything at `old` and behind it goes to `new`, where nothing was. -/
theorem Enumerates.move {f g : List α → Option β} {l : List (List α × β)} (h : Enumerates f l)
    (hfree : ∀ r, f (new ++ r) = none) (hnew : ∀ r, g (new ++ r) = f (old ++ r))
    (hold : ∀ p, ¬ new <+: p → old <+: p → g p = none)
    (helse : ∀ p, ¬ new <+: p → ¬ old <+: p → g p = f p) :
    Enumerates g (l.map fun e => (moved old new e.1, e.2)) := by
  have hnot {p : List α} (hp : (f p).isSome) : ¬ new <+: p := by
    rintro ⟨r, rfl⟩
    simp [hfree r] at hp
  refine h.rename (fun p p' hp hp' he => ?_) fun p b => ⟨fun hb => ?_, ?_⟩
  · by_cases ho : old <+: p
    · obtain ⟨r, rfl⟩ := ho
      by_cases ho' : old <+: p'
      · obtain ⟨r', rfl⟩ := ho'
        rw [moved_append, moved_append] at he
        rw [List.append_cancel_left he]
      · rw [moved_append, moved_of_not ho'] at he
        exact absurd ⟨r, he⟩ (hnot hp')
    · by_cases ho' : old <+: p'
      · obtain ⟨r', rfl⟩ := ho'
        rw [moved_append, moved_of_not ho] at he
        exact absurd ⟨r', he.symm⟩ (hnot hp)
      · rwa [moved_of_not ho, moved_of_not ho'] at he
  · by_cases hn : new <+: p
    · obtain ⟨r, rfl⟩ := hn
      exact ⟨old ++ r, (hnew r).symm.trans hb, moved_append old new r⟩
    · by_cases ho : old <+: p
      · simp [hold p hn ho] at hb
      · exact ⟨p, (helse p hn ho).symm.trans hb, moved_of_not ho⟩
  · rintro ⟨p', hp', rfl⟩
    by_cases ho : old <+: p'
    · obtain ⟨r, rfl⟩ := ho
      rw [moved_append, hnew r, hp']
    · rw [moved_of_not ho, helse p' (hnot (by simp [hp'])) ho, hp']

end move
