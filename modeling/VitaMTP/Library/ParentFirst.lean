import Mathlib.Data.List.Basic
import Mathlib.Data.List.Induction
import Mathlib.Data.List.Nodup
import Mathlib.Logic.Relation
import Mathlib.Logic.Function.Basic

/-! Lists whose elements name their parent by a key, every parent standing before
its children. A depth-first walk of such a list is one pass over it. -/
namespace ParentFirst

variable {α ι σ : Type*}

/-- Keys are distinct and no element names itself or a later element as its parent. -/
structure Ordered (key par : α → ι) (l : List α) : Prop where
  nodup : (l.map key).Nodup
  before : l.Pairwise (fun x y => par x ≠ key y)
  irrefl : ∀ x ∈ l, par x ≠ key x

/-- Every element's parent is among the keys already seen when the list is read from the left. -/
def Rooted (key par : α → ι) : List ι → List α → Prop
  | _, [] => True
  | seen, x :: xs => par x ∈ seen ∧ Rooted key par (key x :: seen) xs

/-- `b` is the key of an element whose parent has key `a`. -/
def Child (key par : α → ι) (l : List α) (a b : ι) : Prop :=
  ∃ x ∈ l, par x = a ∧ key x = b

/-- `b` is `a` or the key of a transitive descendant of `a`. -/
abbrev Below (key par : α → ι) (l : List α) : ι → ι → Prop :=
  Relation.ReflTransGen (Child key par l)

variable {key par : α → ι}

namespace Ordered

theorem nil : Ordered key par [] := ⟨List.nodup_nil, .nil, by simp⟩

theorem sublist {l l' : List α} (h : Ordered key par l') (hs : l.Sublist l') :
    Ordered key par l :=
  ⟨h.nodup.sublist (hs.map key), h.before.sublist hs, fun x hx => h.irrefl x (hs.subset hx)⟩

theorem tail {x : α} {xs : List α} (h : Ordered key par (x :: xs)) : Ordered key par xs :=
  h.sublist (List.sublist_cons_self x xs)

theorem key_ne {x : α} {xs : List α} (h : Ordered key par (x :: xs)) {y : α} (hy : y ∈ xs) :
    key y ≠ key x := by
  have hn := (List.nodup_cons.mp h.nodup).1
  exact fun he => hn (he ▸ List.mem_map_of_mem hy)

theorem par_ne {x : α} {xs : List α} (h : Ordered key par (x :: xs)) {y : α} (hy : y ∈ xs) :
    par x ≠ key y :=
  List.rel_of_pairwise_cons h.before hy

theorem inj {l : List α} (h : Ordered key par l) {x y : α} (hx : x ∈ l) (hy : y ∈ l)
    (hk : key x = key y) : x = y :=
  List.inj_on_of_nodup_map h.nodup hx hy hk

theorem congr {l l' : List α} (h : Ordered key par l)
    (hm : l'.map (fun x => (key x, par x)) = l.map (fun x => (key x, par x))) :
    Ordered key par l' := by
  have hk : l'.map key = l.map key := by
    simpa [Function.comp_def] using congrArg (List.map Prod.fst) hm
  have hpair (l : List α) : l.Pairwise (fun x y => par x ≠ key y) ↔
      (l.map (fun x => (key x, par x))).Pairwise (fun p q => p.2 ≠ q.1) := by
    rw [List.pairwise_map]
  have hself (l : List α) : (∀ x ∈ l, par x ≠ key x) ↔
      ∀ p ∈ l.map (fun x => (key x, par x)), p.2 ≠ p.1 := by
    simp
  refine ⟨hk ▸ h.nodup, ?_, ?_⟩
  · rw [hpair, hm, ← hpair]; exact h.before
  · rw [hself, hm, ← hself]; exact h.irrefl

end Ordered

namespace Rooted

theorem mono {seen seen' : List ι} (hs : seen ⊆ seen') {l : List α}
    (h : Rooted key par seen l) : Rooted key par seen' l := by
  induction l generalizing seen seen' with
  | nil => trivial
  | cons x xs ih =>
    exact ⟨hs h.1, ih (List.cons_subset_cons _ hs) h.2⟩

theorem append {seen : List ι} {l l' : List α} :
    Rooted key par seen (l ++ l') ↔
      Rooted key par seen l ∧ Rooted key par ((l.map key).reverse ++ seen) l' := by
  induction l generalizing seen with
  | nil => simp [Rooted]
  | cons x xs ih => simp [Rooted, ih, and_assoc]

theorem par_mem {seen : List ι} {l l' : List α} {x : α}
    (h : Rooted key par seen (l ++ x :: l')) : par x ∈ seen ∨ par x ∈ l.map key := by
  have hx := (append.mp h).2.1
  simpa [or_comm] using hx

/-- What holds of an element whenever it holds of its parent holds of all of them. -/
theorem induction {seen : List ι} {l : List α} (h : Rooted key par seen l) {P : α → Prop}
    (hstep : ∀ x ∈ l, (par x ∈ seen ∨ ∃ z ∈ l, key z = par x ∧ P z) → P x) : ∀ x ∈ l, P x := by
  have hpre (p q : List α) (hl : l = p ++ q) : ∀ x ∈ p, P x := by
    induction p using List.reverseRecOn generalizing q with
    | nil => simp
    | append_singleton p y ih =>
      have hp := ih (y :: q) (by simpa using hl)
      intro x hx
      rcases List.mem_append.mp hx with hx | hx
      · exact hp x hx
      · obtain rfl := List.mem_singleton.mp hx
        rw [List.append_assoc, List.singleton_append] at hl
        refine hstep x (by rw [hl]; simp) ?_
        rw [hl] at h
        refine h.par_mem.imp_right fun hm => ?_
        obtain ⟨z, hz, he⟩ := List.mem_map.mp hm
        exact ⟨z, by rw [hl]; simp [hz], he, hp z hz⟩
  exact hpre l [] (by simp)

theorem ordered {seen : List ι} {l : List α} (h : Rooted key par seen l)
    (hn : (l.map key).Nodup) (hf : ∀ x ∈ l, key x ∉ seen) : Ordered key par l := by
  induction l generalizing seen with
  | nil => exact Ordered.nil
  | cons x xs ih =>
    obtain ⟨hx, hxs⟩ := List.nodup_cons.mp hn
    have hne : ∀ y ∈ xs, key y ≠ key x := fun y hy he => hx (he ▸ List.mem_map_of_mem hy)
    have ho := ih h.2 hxs (fun y hy => by
      simpa using ⟨hne y hy, hf y (List.mem_cons_of_mem _ hy)⟩)
    refine ⟨hn, List.pairwise_cons.mpr ⟨fun y hy he => ?_, ho.before⟩, fun y hy => ?_⟩
    · exact hf y (List.mem_cons_of_mem _ hy) (he ▸ h.1)
    · rcases List.mem_cons.mp hy with rfl | hy
      · exact fun he => hf y (by simp) (he ▸ h.1)
      · exact ho.irrefl y hy

/-- Dropping elements keeps the parents in front as long as no parent of a kept element goes. -/
theorem filter {p : α → Bool} {seen seen' : List ι} {l : List α} (h : Rooted key par seen l)
    (hs : ∀ x ∈ l, p x → par x ∈ seen → par x ∈ seen')
    (hp : ∀ x ∈ l, p x → ∀ z ∈ l, key z = par x → p z) : Rooted key par seen' (l.filter p) := by
  induction l generalizing seen seen' with
  | nil => trivial
  | cons x xs ih =>
    have hp' : ∀ y ∈ xs, p y → ∀ z ∈ xs, key z = par y → p z := fun y hy hpy z hz =>
      hp y (List.mem_cons_of_mem _ hy) hpy z (List.mem_cons_of_mem _ hz)
    by_cases hx : p x
    · rw [List.filter_cons_of_pos hx]
      refine ⟨hs x (by simp) hx h.1, ih h.2 (fun y hy hpy hm => ?_) hp'⟩
      rcases List.mem_cons.mp hm with he | hm
      · simp [he]
      · exact List.mem_cons_of_mem _ (hs y (List.mem_cons_of_mem _ hy) hpy hm)
    · rw [List.filter_cons_of_neg hx]
      refine ih h.2 (fun y hy hpy hm => ?_) hp'
      rcases List.mem_cons.mp hm with he | hm
      · exact absurd (hp y (List.mem_cons_of_mem _ hy) hpy x (by simp) he.symm) hx
      · exact hs y (List.mem_cons_of_mem _ hy) hpy hm

theorem congr {seen : List ι} {l l' : List α} (h : Rooted key par seen l)
    (hm : l'.map (fun x => (key x, par x)) = l.map (fun x => (key x, par x))) :
    Rooted key par seen l' := by
  induction l generalizing seen l' with
  | nil => simp_all [Rooted]
  | cons x xs ih =>
    cases l' with
    | nil => trivial
    | cons y ys =>
      simp only [List.map_cons, List.cons.injEq, Prod.mk.injEq] at hm
      obtain ⟨⟨hk, hp⟩, ht⟩ := hm
      exact ⟨hp ▸ h.1, hk ▸ ih h.2 ht⟩

end Rooted

section sweep

variable [DecidableEq ι]

/-- One pass: an element whose parent is marked with `s` is replaced by `f s x`
(or dropped) and marks its own key for the elements behind it. -/
def sweep (key par : α → ι) (f : σ → α → Option α × σ) : (ι → Option σ) → List α → List α
  | _, [] => []
  | S, x :: xs =>
    match S (par x) with
    | none => x :: sweep key par f S xs
    | some s => (f s x).1.toList ++
        sweep key par f (Function.update S (key x) (some (f s x).2)) xs

/-- The marking that marks one key only. -/
def mark (a : ι) (s : σ) : ι → Option σ := Function.update (fun _ => none) a (some s)

@[simp] theorem mark_self (a : ι) (s : σ) : mark a s a = some s := by simp [mark]

theorem mark_ne {a b : ι} (s : σ) (h : b ≠ a) : mark a s b = none := by simp [mark, h]

variable {f : σ → α → Option α × σ}

/-- The replacement of an element keeps its key and its parent. -/
def Keeps (key par : α → ι) (f : σ → α → Option α × σ) : Prop :=
  ∀ s x y, (f s x).1 = some y → key y = key x ∧ par y = par x

theorem sweep_append_of_unmarked {S : ι → Option σ} {l l' : List α}
    (h : ∀ x ∈ l, S (par x) = none) :
    sweep key par f S (l ++ l') = l ++ sweep key par f S l' := by
  induction l with
  | nil => rfl
  | cons x xs ih =>
    simp only [List.cons_append, sweep, h x (by simp)]
    rw [ih fun y hy => h y (List.mem_cons_of_mem _ hy)]

/-- Two passes with disjoint markings are one pass with both markings: the rule that turns
a depth-first walk, one pass for each child, into a single pass. -/
theorem sweep_sweep (hf : Keeps key par f) {S T : ι → Option σ} {l : List α}
    (hd : ∀ i, T i ≠ none → S i = none)
    (hS : ∀ x ∈ l, S (key x) = none) (hT : ∀ x ∈ l, T (key x) = none)
    (hn : (l.map key).Nodup) :
    sweep key par f S (sweep key par f T l) =
      sweep key par f (fun i => (T i).or (S i)) l := by
  induction l generalizing S T with
  | nil => rfl
  | cons x xs ih =>
    obtain ⟨hx, hxs⟩ := List.nodup_cons.mp hn
    have hne : ∀ y ∈ xs, key y ≠ key x := fun y hy he => hx (he ▸ List.mem_map_of_mem hy)
    have hSx := fun y (hy : y ∈ xs) => hS y (List.mem_cons_of_mem _ hy)
    have hTx := fun y (hy : y ∈ xs) => hT y (List.mem_cons_of_mem _ hy)
    cases ht : T (par x) with
    | some t =>
      have hsp : S (par x) = none := hd _ (by simp [ht])
      have hup : ∀ y ∈ xs, Function.update T (key x) (some (f t x).2) (key y) = none :=
        fun y hy => by rw [Function.update_of_ne (hne y hy), hTx y hy]
      have hd' : ∀ i, Function.update T (key x) (some (f t x).2) i ≠ none → S i = none := by
        intro i hi
        by_cases he : i = key x
        · exact he ▸ hS x (by simp)
        · exact hd i (by rwa [Function.update_of_ne he] at hi)
      have hmerge : (fun i => (Function.update T (key x) (some (f t x).2) i).or (S i)) =
          Function.update (fun i => (T i).or (S i)) (key x) (some (f t x).2) := by
        funext i
        by_cases he : i = key x
        · subst he; simp
        · simp [Function.update_of_ne he]
      have hrest : ∀ y ∈ (f t x).1.toList, S (par y) = none := by
        intro y hy
        rw [(hf t x y (by simpa using hy)).2, hsp]
      simp only [sweep, ht, Option.some_or]
      rw [sweep_append_of_unmarked hrest, ih hd' hSx hup hxs, hmerge]
    | none =>
      cases hs : S (par x) with
      | none =>
        simp only [sweep, ht, hs, Option.or_none]
        rw [ih hd hSx hTx hxs]
      | some s =>
        have hup : ∀ y ∈ xs, Function.update S (key x) (some (f s x).2) (key y) = none :=
          fun y hy => by rw [Function.update_of_ne (hne y hy), hSx y hy]
        have hd' : ∀ i, T i ≠ none → Function.update S (key x) (some (f s x).2) i = none := by
          intro i hi
          have he : i ≠ key x := fun he => hi (he ▸ hT x (by simp))
          rw [Function.update_of_ne he, hd i hi]
        have hmerge : (fun i => (T i).or (Function.update S (key x) (some (f s x).2) i)) =
            Function.update (fun i => (T i).or (S i)) (key x) (some (f s x).2) := by
          funext i
          by_cases he : i = key x
          · subst he; simp [hT x (by simp)]
          · simp [Function.update_of_ne he]
        simp only [sweep, ht, hs, Option.none_or]
        rw [ih hd' hup hTx hxs, hmerge]

/-- The pass of an element is the pass of its children's marks: `sweep_sweep` for one mark. -/
theorem sweep_mark_sweep_mark (hf : Keeps key par f) {a b : ι} {s t : σ} {l : List α}
    (hab : b ≠ a) (ha : ∀ x ∈ l, key x ≠ a) (hb : ∀ x ∈ l, key x ≠ b)
    (hn : (l.map key).Nodup) :
    sweep key par f (mark a s) (sweep key par f (mark b t) l) =
      sweep key par f (Function.update (mark a s) b (some t)) l := by
  rw [sweep_sweep hf (fun i hi => ?_) (fun x hx => mark_ne s (ha x hx))
    (fun x hx => mark_ne t (hb x hx)) hn]
  · congr 1
    funext i
    by_cases hi : i = b
    · subst hi; simp
    · simp [Function.update_of_ne hi, mark_ne t hi]
  · have : i = b := by
      by_contra hne
      exact hi (mark_ne t hne)
    exact this ▸ mark_ne s hab

/-- The marking a pass ends with. -/
def marks (key par : α → ι) (f : σ → α → Option α × σ) : (ι → Option σ) → List α → ι → Option σ
  | S, [] => S
  | S, x :: xs =>
    match S (par x) with
    | none => marks key par f S xs
    | some s => marks key par f (Function.update S (key x) (some (f s x).2)) xs

theorem marks_of_not_key {S : ι → Option σ} {l : List α} {k : ι} (h : k ∉ l.map key) :
    marks key par f S l k = S k := by
  induction l generalizing S with
  | nil => rfl
  | cons x xs ih =>
    simp only [List.map_cons, List.mem_cons, not_or] at h
    cases hs : S (par x) with
    | none => simpa only [marks, hs] using ih h.2
    | some s => simp only [marks, hs, ih h.2, Function.update_of_ne h.1]

omit [DecidableEq ι] in
private theorem par_not_key {x : α} {xs : List α} (ho : Ordered key par (x :: xs)) :
    par x ∉ (x :: xs).map key := by
  simp only [List.map_cons, List.mem_cons, List.mem_map, not_or, not_exists, not_and]
  exact ⟨ho.irrefl x (by simp), fun y hy he => ho.par_ne hy he.symm⟩

/-- An element is marked exactly when its parent is, with the state its parent hands on. -/
theorem marks_key {S : ι → Option σ} {l : List α} (ho : Ordered key par l)
    (hS : ∀ x ∈ l, S (key x) = none) {x : α} (hx : x ∈ l) :
    marks key par f S l (key x) =
      (marks key par f S l (par x)).map (fun s => (f s x).2) := by
  induction l generalizing S with
  | nil => simp at hx
  | cons y ys ih =>
    have hnk : key y ∉ ys.map key := (List.nodup_cons.mp ho.nodup).1
    have hSy := fun z (hz : z ∈ ys) => hS z (List.mem_cons_of_mem _ hz)
    rcases List.mem_cons.mp hx with rfl | hx
    · rw [marks_of_not_key (par_not_key ho)]
      cases hs : S (par x) with
      | none => simp only [marks, hs, Option.map_none, marks_of_not_key hnk, hS x (by simp)]
      | some s => simp [marks, hs, marks_of_not_key hnk]
    · cases hs : S (par y) with
      | none =>
        simp only [marks, hs]
        exact ih ho.tail hSy hx
      | some s =>
        simp only [marks, hs]
        refine ih ho.tail (fun z hz => ?_) hx
        rw [Function.update_of_ne (ho.key_ne hz), hSy z hz]

theorem sweep_eq_flatMap {S : ι → Option σ} {l : List α} (ho : Ordered key par l)
    (hS : ∀ x ∈ l, S (key x) = none) :
    sweep key par f S l =
      l.flatMap (fun x => (marks key par f S l (par x)).elim [x] (fun s => (f s x).1.toList)) := by
  induction l generalizing S with
  | nil => rfl
  | cons x xs ih =>
    have hSx := fun z (hz : z ∈ xs) => hS z (List.mem_cons_of_mem _ hz)
    rw [List.flatMap_cons, marks_of_not_key (par_not_key ho)]
    cases hs : S (par x) with
    | none =>
      simp only [sweep, marks, hs, Option.elim_none, List.singleton_append]
      rw [ih ho.tail hSx]
    | some s =>
      simp only [sweep, marks, hs, Option.elim_some]
      rw [ih ho.tail fun z hz => by rw [Function.update_of_ne (ho.key_ne hz), hSx z hz]]

omit [DecidableEq ι] in
theorem Below.mono {l l' : List α} (hs : l ⊆ l') {a b : ι} (h : Below key par l a b) :
    Below key par l' a b :=
  h.lift id fun _ _ ⟨x, hx, hp, hk⟩ => ⟨x, hs hx, hp, hk⟩

theorem marks_isSome_iff {S : ι → Option σ} {l : List α} (ho : Ordered key par l)
    (hS : ∀ x ∈ l, S (key x) = none) {k : ι} :
    (marks key par f S l k).isSome ↔ ∃ a, (S a).isSome ∧ Below key par l a k := by
  constructor
  · intro h
    clear ho hS
    induction l generalizing S with
    | nil => exact ⟨k, h, .refl⟩
    | cons x xs ih =>
      have hsub : xs ⊆ x :: xs := List.subset_cons_self x xs
      cases hs : S (par x) with
      | none =>
        simp only [marks, hs] at h
        obtain ⟨a, ha, hb⟩ := ih h
        exact ⟨a, ha, Below.mono hsub hb⟩
      | some s =>
        simp only [marks, hs] at h
        obtain ⟨a, ha, hb⟩ := ih h
        by_cases he : a = key x
        · have hc : Child key par (x :: xs) (par x) (key x) := ⟨x, by simp, rfl, rfl⟩
          exact ⟨par x, by simp [hs], .head hc (he ▸ Below.mono hsub hb)⟩
        · exact ⟨a, by rwa [Function.update_of_ne he] at ha, Below.mono hsub hb⟩
  · rintro ⟨a, ha, hb⟩
    induction hb with
    | refl =>
      rw [marks_of_not_key]
      · exact ha
      · intro hk
        obtain ⟨x, hx, rfl⟩ := List.mem_map.mp hk
        simp [hS x hx] at ha
    | tail _ hc ih =>
      obtain ⟨x, hx, rfl, rfl⟩ := hc
      rw [marks_key ho hS hx, Option.isSome_map]
      exact ih

/-- One pass that drops everything below `a`. -/
def prune (key par : α → ι) (a : ι) : List α → List α :=
  sweep key par (fun (_ : Unit) _ => (none, ())) (mark a ())

theorem prune_sublist (a : ι) (l : List α) : (prune key par a l).Sublist l := by
  unfold prune
  generalize mark a () = S
  induction l generalizing S with
  | nil => exact .slnil
  | cons x xs ih =>
    simp only [sweep]
    split
    · exact (ih S).cons_cons x
    · exact (ih _).cons x

theorem prune_cons_of_ne {a : ι} {x : α} {xs : List α} (h : par x ≠ a) :
    prune key par a (x :: xs) = x :: prune key par a xs := by
  simp [prune, sweep, mark_ne () h]

/-- A child is dropped by dropping what is below it first: the rule of the recursive walk. -/
theorem prune_cons_child {a : ι} {x : α} {xs : List α} (hp : par x = a)
    (ho : Ordered key par (x :: xs)) (ha : ∀ y ∈ x :: xs, key y ≠ a) :
    prune key par a (x :: xs) = prune key par a (prune key par (key x) xs) := by
  have hk : Keeps key par (fun (_ : Unit) (_ : α) => ((none : Option α), ())) := by
    intro s x y h
    simp at h
  unfold prune
  rw [sweep_mark_sweep_mark hk (ha x (by simp)) (fun y hy => ha y (List.mem_cons_of_mem _ hy))
    (fun y hy => ho.key_ne hy) ho.tail.nodup]
  simp [sweep, hp]

theorem mem_prune_iff {a : ι} {l : List α} (ho : Ordered key par l) (ha : ∀ x ∈ l, key x ≠ a)
    {x : α} : x ∈ prune key par a l ↔ x ∈ l ∧ ¬ Below key par l a (key x) := by
  have hS : ∀ y ∈ l, mark a () (key y) = none := fun y hy => mark_ne () (ha y hy)
  have hone : (∃ b, (mark a () b).isSome ∧ Below key par l b (key x)) ↔
      Below key par l a (key x) := by
    constructor
    · rintro ⟨b, hb, h⟩
      obtain rfl : b = a := by
        by_contra hne
        simp [mark_ne () hne] at hb
      exact h
    · exact fun h => ⟨a, by simp, h⟩
  rw [prune, sweep_eq_flatMap ho hS, List.mem_flatMap]
  constructor
  · rintro ⟨y, hy, hx⟩
    cases hm : marks key par (fun (_ : Unit) (_ : α) => ((none : Option α), ())) (mark a ()) l
        (par y) with
    | some s => simp [hm] at hx
    | none =>
      obtain rfl : x = y := by simpa [hm] using hx
      refine ⟨hy, fun hb => ?_⟩
      have := (marks_isSome_iff (f := fun _ _ => (none, ())) ho hS).mpr (hone.mpr hb)
      rw [marks_key ho hS hy, hm] at this
      simp at this
  · rintro ⟨hx, hb⟩
    refine ⟨x, hx, ?_⟩
    have hn : marks key par (fun (_ : Unit) (_ : α) => ((none : Option α), ())) (mark a ()) l
        (key x) = none := by
      rw [← Option.not_isSome_iff_eq_none, marks_isSome_iff ho hS, hone]
      exact hb
    rw [marks_key ho hS hx, Option.map_eq_none_iff] at hn
    simp [hn]

end sweep

theorem Below.split {l l' : List α} {x : α} (ho : Ordered key par (l ++ x :: l')) {k : ι}
    (h : Below key par (l ++ x :: l') (key x) k) :
    k = key x ∨ Below key par l' (key x) k ∧ k ∈ l'.map key := by
  have hbefore := List.pairwise_append.mp ho.before
  have hlater := List.pairwise_cons.mp hbefore.2.1
  induction h with
  | refl => exact Or.inl rfl
  | @tail b c _ hc ih =>
    obtain ⟨z, hz, rfl, rfl⟩ := hc
    have hpar : par z = key x ∨ par z ∈ l'.map key := ih.imp_right And.right
    have hzl : z ∉ l := by
      intro hz
      rcases hpar with hp | hp
      · exact hbefore.2.2 z hz x (by simp) hp
      · obtain ⟨y, hy, he⟩ := List.mem_map.mp hp
        exact hbefore.2.2 z hz y (List.mem_cons_of_mem _ hy) he.symm
    have hzx : z ≠ x := by
      rintro rfl
      rcases hpar with hp | hp
      · exact ho.irrefl z (by simp) hp
      · obtain ⟨y, hy, he⟩ := List.mem_map.mp hp
        exact hlater.1 y hy he.symm
    have hz' : z ∈ l' := by simpa [hzl, hzx] using hz
    refine Or.inr ⟨?_, List.mem_map_of_mem hz'⟩
    have hchild : Child key par l' (par z) (key z) := ⟨z, hz', rfl, rfl⟩
    rcases ih with he | ⟨hb, -⟩
    · exact .single (he ▸ hchild)
    · exact hb.tail hchild

theorem Ordered.not_below_par {l : List α} (ho : Ordered key par l) {x : α} (hx : x ∈ l) :
    ¬ Below key par l (key x) (par x) := by
  obtain ⟨p, q, rfl⟩ := List.append_of_mem hx
  have hxq := (List.pairwise_append.mp ho.before).2.1
  intro hb
  rcases hb.split ho with he | ⟨-, hm⟩
  · exact ho.irrefl x hx he
  · obtain ⟨y, hy, he⟩ := List.mem_map.mp hm
    exact List.rel_of_pairwise_cons hxq hy he.symm

theorem Ordered.parent_index {l : List α} (ho : Ordered key par l) {x z : α} {i : ℕ}
    (hx : l[i]? = some x) (hz : z ∈ l) (hp : key z = par x) : ∃ j < i, l[j]? = some z := by
  obtain ⟨j, hzj⟩ := List.mem_iff_getElem?.mp hz
  obtain ⟨hi, hxi⟩ := List.getElem?_eq_some_iff.mp hx
  obtain ⟨hj, hzj'⟩ := List.getElem?_eq_some_iff.mp hzj
  refine ⟨j, ?_, hzj⟩
  by_contra hle
  rcases Nat.lt_or_ge i j with hij | hij
  · have hbefore := List.pairwise_iff_getElem.mp ho.before i j hi hj hij
    rw [hxi, hzj'] at hbefore
    exact hbefore hp.symm
  · obtain rfl : i = j := by omega
    rw [hxi] at hzj'
    exact ho.irrefl z hz (by rw [hp, hzj'])

theorem Ordered.below_iff {l : List α} (ho : Ordered key par l) {x : α} (hx : x ∈ l) {a : ι} :
    Below key par l a (key x) ↔ a = key x ∨ Below key par l a (par x) := by
  constructor
  · intro hb
    rcases hb.cases_tail with he | ⟨b, hb, y, hy, hp, hk⟩
    · exact Or.inl he.symm
    · obtain rfl := ho.inj hy hx hk
      exact Or.inr (by rwa [hp])
  · rintro (rfl | hb)
    · exact .refl
    · exact hb.tail ⟨x, hx, rfl, rfl⟩

/-- What two elements have in common below them is below one of them from the other. -/
theorem Ordered.below_total {l : List α} (ho : Ordered key par l) {a b k : ι}
    (ha : Below key par l a k) (hb : Below key par l b k) :
    Below key par l a b ∨ Below key par l b a := by
  have hunique : Relator.RightUnique (Function.swap (Child key par l)) := by
    rintro i j j' ⟨x, hx, hp, hk⟩ ⟨x', hx', hp', hk'⟩
    obtain rfl := ho.inj hx hx' (hk.trans hk'.symm)
    exact hp.symm.trans hp'
  rcases Relation.ReflTransGen.total_of_right_unique hunique ha.swap hb.swap with h | h
  · exact Or.inr h.swap
  · exact Or.inl h.swap

theorem Ordered.below_head {l : List α} {x y : α} (ho : Ordered key par (x :: l))
    (hy : y ∈ x :: l) : Below key par (x :: l) (key y) (key x) ↔ y = x := by
  have hpar : ∀ z ∈ x :: l, key z ≠ par x := by
    intro z hz he
    rcases List.mem_cons.mp hz with rfl | hz
    · exact ho.irrefl z (by simp) he.symm
    · exact ho.par_ne hz he.symm
  rw [ho.below_iff (by simp)]
  constructor
  · rintro (he | hb)
    · exact ho.inj hy (by simp) he
    · rcases hb.cases_tail with he | ⟨_, -, z, hz, -, hk⟩
      · exact absurd he.symm (hpar y hy)
      · exact absurd hk (hpar z hz)
  · rintro rfl
    exact Or.inl rfl

theorem Ordered.child_unique {l : List α} (ho : Ordered key par l) {x y : α} (hx : x ∈ l)
    (hy : y ∈ l) (hp : par x = par y) {k : ι} (hxk : Below key par l (key x) k)
    (hyk : Below key par l (key y) k) : x = y := by
  rcases ho.below_total hxk hyk with h | h
  · rcases (ho.below_iff hy).mp h with he | h
    · exact ho.inj hx hy he
    · exact absurd (hp ▸ h) (ho.not_below_par hx)
  · rcases (ho.below_iff hx).mp h with he | h
    · exact (ho.inj hy hx he).symm
    · exact absurd (hp ▸ h) (ho.not_below_par hy)

theorem Below.congr {l l' : List α}
    (hm : l'.map (fun x => (key x, par x)) = l.map (fun x => (key x, par x))) {a b : ι} :
    Below key par l' a b ↔ Below key par l a b := by
  have hchild : Child key par l' = Child key par l := by
    funext a b
    have (l : List α) : Child key par l a b ↔ (b, a) ∈ l.map (fun x => (key x, par x)) := by
      simp [Child, and_comm]
    rw [eq_iff_iff, this, this, hm]
  rw [Below, hchild]

open Classical in
/-- The list without `a` and everything below it. -/
noncomputable def without (key par : α → ι) (a : ι) (l : List α) : List α :=
  l.filter (fun x => ¬ Below key par l a (key x))

theorem mem_without {a : ι} {l : List α} {x : α} :
    x ∈ without key par a l ↔ x ∈ l ∧ ¬ Below key par l a (key x) := by
  simp [without]

theorem without_sublist (a : ι) (l : List α) : (without key par a l).Sublist l :=
  List.filter_sublist

private theorem sublist_eq {l l₁ l₂ : List α} (hn : l.Nodup) (h₁ : l₁.Sublist l)
    (h₂ : l₂.Sublist l) (hm : ∀ x, x ∈ l₁ ↔ x ∈ l₂) : l₁ = l₂ := by
  induction l generalizing l₁ l₂ with
  | nil => rw [List.sublist_nil.mp h₁, List.sublist_nil.mp h₂]
  | cons x xs ih =>
    obtain ⟨hx, hxs⟩ := List.nodup_cons.mp hn
    have hself {t : List α} (h : t.Sublist xs) : x ∉ t := fun hm => hx (h.subset hm)
    cases h₁ with
    | cons _ h₁ =>
      cases h₂ with
      | cons _ h₂ => exact ih hxs h₁ h₂ hm
      | cons_cons _ h₂ => exact absurd ((hm x).mpr (by simp)) (hself h₁)
    | cons_cons _ h₁ =>
      cases h₂ with
      | cons _ h₂ => exact absurd ((hm x).mp (by simp)) (hself h₂)
      | cons_cons _ h₂ =>
        rw [ih hxs h₁ h₂ fun y => ?_]
        constructor
        · intro hy
          have hne : y ≠ x := fun he => hself h₁ (he ▸ hy)
          simpa [hne] using (hm y).mp (List.mem_cons_of_mem _ hy)
        · intro hy
          have hne : y ≠ x := fun he => hself h₂ (he ▸ hy)
          simpa [hne] using (hm y).mpr (List.mem_cons_of_mem _ hy)

/-- Unlinking an element and pruning what stands behind it removes exactly its subtree. -/
theorem without_eq [DecidableEq ι] {l l' : List α} {x : α} (ho : Ordered key par (l ++ x :: l')) :
    without key par (key x) (l ++ x :: l') = l ++ prune key par (key x) l' := by
  have hox : Ordered key par (x :: l') := ho.sublist (List.sublist_append_right l _)
  have hdisj : ∀ y ∈ l, key y ∉ (x :: l').map key := by
    intro y hy hm
    have hn := ho.nodup
    rw [List.map_append, List.nodup_append'] at hn
    exact hn.2.2 (List.mem_map_of_mem hy) hm
  have hsub : (l ++ prune key par (key x) l').Sublist (l ++ x :: l') :=
    (List.Sublist.refl l).append ((prune_sublist _ _).cons x)
  refine sublist_eq (ho.nodup.of_map key) (without_sublist _ _) hsub fun y => ?_
  have hprune := mem_prune_iff (x := y) hox.tail fun z hz => hox.key_ne hz
  rw [mem_without, List.mem_append (s := l) (t := prune key par (key x) l'), hprune]
  constructor
  · rintro ⟨hy, hb⟩
    rcases List.mem_append.mp hy with hy | hy
    · exact Or.inl hy
    · rcases List.mem_cons.mp hy with rfl | hy
      · exact absurd .refl hb
      · exact Or.inr ⟨hy, fun h => hb (h.mono fun z hz => by simp [hz])⟩
  · rintro (hy | ⟨hy, hb⟩)
    · refine ⟨by simp [hy], fun h => ?_⟩
      rcases h.split ho with he | ⟨-, hm⟩
      · exact hdisj y hy (by simp [he])
      · exact hdisj y hy (List.mem_cons_of_mem _ hm)
    · refine ⟨by simp [hy], fun h => ?_⟩
      rcases h.split ho with he | ⟨h, -⟩
      · exact hox.key_ne hy he
      · exact hb h

theorem Ordered.below_append {l l' : List α} (ho : Ordered key par (l ++ l')) {a b : ι}
    (hb : b ∈ l.map key) : Below key par (l ++ l') a b ↔ Below key par l a b := by
  refine ⟨fun h => ?_, fun h => h.mono (List.subset_append_left l l')⟩
  have hn := ho.nodup
  rw [List.map_append, List.nodup_append'] at hn
  have hbefore := (List.pairwise_append.mp ho.before).2.2
  induction h with
  | refl => exact .refl
  | @tail b c hab hc ih =>
    obtain ⟨x, hx, rfl, rfl⟩ := hc
    have hxl : x ∈ l := (List.mem_append.mp hx).resolve_right fun hx' =>
      hn.2.2 hb (List.mem_map_of_mem hx')
    have hchild : Child key par l (par x) (key x) := ⟨x, hxl, rfl, rfl⟩
    rcases hab.cases_tail with he | ⟨_, -, y, hy, -, hk⟩
    · exact .single (he ▸ hchild)
    · have hyl : y ∈ l := (List.mem_append.mp hy).resolve_right fun hy' =>
        hbefore x hxl y hy' hk.symm
      exact (ih (hk ▸ List.mem_map_of_mem hyl)).tail hchild

theorem Ordered.not_below_append {l l' : List α} (ho : Ordered key par (l ++ l')) {y : α}
    (hy : y ∈ l') {b : ι} (hb : b ∈ l.map key) : ¬ Below key par (l ++ l') (key y) b := by
  have hn := ho.nodup
  rw [List.map_append, List.nodup_append'] at hn
  rw [ho.below_append hb]
  intro h
  rcases h.cases_head with he | ⟨_, ⟨x, hx, hp, -⟩, -⟩
  · exact hn.2.2 hb (he ▸ List.mem_map_of_mem hy)
  · exact (List.pairwise_append.mp ho.before).2.2 x hx y hy hp

theorem without_concat {l : List α} {x : α} (ho : Ordered key par (l ++ [x])) {a : ι}
    (hp : par x ∈ l.map key) (ha : a ≠ key x) (hb : ¬ Below key par l a (par x)) :
    without key par a (l ++ [x]) = without key par a l ++ [x] := by
  have hx : ¬ Below key par (l ++ [x]) a (key x) := by
    rw [ho.below_iff (by simp), ho.below_append hp]
    simp [ha, hb]
  unfold without
  rw [List.filter_append, List.filter_cons_of_pos (by simpa using hx), List.filter_nil]
  congr 1
  refine List.filter_congr fun y hy => ?_
  rw [ho.below_append (List.mem_map_of_mem hy)]

theorem Rooted.below {a : ι} {l : List α} (h : Rooted key par [a] l) :
    ∀ x ∈ l, Below key par l a (key x) := by
  refine h.induction fun x hx hor => ?_
  have hchild : Child key par l (par x) (key x) := ⟨x, hx, rfl, rfl⟩
  rcases hor with hp | ⟨z, -, he, hz⟩
  · exact .single (List.mem_singleton.mp hp ▸ hchild)
  · exact hz.tail (he ▸ hchild)

/-- Taking an element out together with the block below it leaves what was in front. -/
theorem without_block [DecidableEq ι] {l l' : List α} {x : α}
    (ho : Ordered key par (l ++ x :: l')) (h : Rooted key par [key x] l') :
    without key par (key x) (l ++ x :: l') = l := by
  have hox : Ordered key par (x :: l') := ho.sublist (List.sublist_append_right l _)
  have hprune : prune key par (key x) l' = [] := by
    refine List.eq_nil_iff_forall_not_mem.mpr fun y hy => ?_
    have := (mem_prune_iff hox.tail fun z hz => hox.key_ne hz).mp hy
    exact this.2 (h.below y this.1)
  rw [without_eq ho, hprune, List.append_nil]

end ParentFirst
