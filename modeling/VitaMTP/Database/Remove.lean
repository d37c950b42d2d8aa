import VitaMTP.Library.ParentFirst
import VitaMTP.Database.Operations

/-! `removeFromDatabase` unlinks an object and everything below it. -/
namespace VitaMTP
open ParentFirst

/-- The order of a list of objects that the recursive walks rely on. -/
abbrev NodesOrdered (l : List CmaObject) : Prop :=
  Ordered CmaObject.ohfi CmaObject.ohfiParent l

/-- `b` is the id of the object `a` or of an object below it. -/
abbrev NodesBelow (l : List CmaObject) (a b : ℤ) : Prop :=
  Below CmaObject.ohfi CmaObject.ohfiParent l a b

/-- The list without the object `ohfi` and everything below it. -/
noncomputable abbrev withoutNodes (ohfi : ℤ) (l : List CmaObject) : List CmaObject :=
  without CmaObject.ohfi CmaObject.ohfiParent ohfi l

theorem nodesBelow_iff {l : List CmaObject} (ho : NodesOrdered l) {x : CmaObject} (hx : x ∈ l)
    {a : ℤ} : NodesBelow l a x.ohfi ↔ a = x.ohfi ∨ NodesBelow l a x.ohfiParent :=
  ho.below_iff hx

section steps

variable {n k lock lock' : ℕ} {ohfi : ℤ} {toFree : Option ℕ} {x prev prev' : CmaObject}
  {before seen rest rest' : List CmaObject}

private theorem removeLoop_pass (hx : x.ohfi ≠ ohfi) (hp : x.ohfiParent ≠ ohfi) :
    removeLoop (n + 1) ohfi seen toFree (x :: rest) lock =
      removeLoop n ohfi (x :: seen) toFree rest lock := by
  simp [removeLoop, hx, hp]

private theorem removeLoop_found (hx : x.ohfi = ohfi) (hp : x.ohfiParent ≠ ohfi) :
    removeLoop (n + 1) ohfi seen toFree (x :: rest) lock =
      removeLoop n ohfi (x :: seen) (some seen.length) rest lock := by
  simp [removeLoop, hx, hp]

private theorem removeLoop_child (hx : x.ohfi ≠ ohfi) (hp : x.ohfiParent = ohfi)
    (hcall : removeNodes n x.ohfi (prev :: x :: rest) lock = some (prev' :: rest', lock')) :
    removeLoop (n + 1) ohfi (prev :: before) toFree (x :: rest) lock =
      removeLoop n ohfi (prev' :: before) toFree rest' lock' := by
  simp [removeLoop, hx, hp, hcall]

private theorem removeLoop_skip {l : List CmaObject}
    (hl : ∀ x ∈ l, x.ohfi ≠ ohfi ∧ x.ohfiParent ≠ ohfi) :
    removeLoop (n + l.length) ohfi seen toFree (l ++ rest) lock =
      removeLoop n ohfi (l.reverse ++ seen) toFree rest lock := by
  induction l generalizing seen with
  | nil => rfl
  | cons x xs ih =>
    obtain ⟨hx, hp⟩ := hl x (by simp)
    calc removeLoop (n + xs.length + 1) ohfi seen toFree (x :: (xs ++ rest)) lock
        = removeLoop (n + xs.length) ohfi (x :: seen) toFree (xs ++ rest) lock :=
          removeLoop_pass hx hp
      _ = removeLoop n ohfi ((x :: xs).reverse ++ seen) toFree rest lock := by
          rw [ih fun y hy => hl y (List.mem_cons_of_mem _ hy)]
          simp

end steps

private theorem removeLoop_behind (n : ℕ) (ohfi : ℤ) (prev : CmaObject)
    (before rest : List CmaObject) (k lock : ℕ) (hk : 0 < k) (hkb : k ≤ before.length)
    (ho : NodesOrdered (prev :: rest)) (ha : ∀ x ∈ rest, x.ohfi ≠ ohfi)
    (hn : 4 * rest.length + 1 ≤ n) :
    removeLoop n ohfi (prev :: before) (some k) rest lock =
      some ((prev :: before).reverse.eraseIdx k ++
        prune CmaObject.ohfi CmaObject.ohfiParent ohfi rest, lock - 1) := by
  induction hlen : rest.length using Nat.strong_induction_on
    generalizing n ohfi prev before rest k lock with
  | h len ih =>
  subst hlen
  cases rest with
  | nil =>
    obtain ⟨n, rfl⟩ : ∃ m, n = m + 1 := ⟨n - 1, by omega⟩
    obtain ⟨k, rfl⟩ : ∃ j, k = j + 1 := ⟨k - 1, by omega⟩
    simp [removeLoop, prune, sweep]
  | cons x xs =>
    have hx : x.ohfi ≠ ohfi := ha x (by simp)
    have hxs : ∀ y ∈ xs, y.ohfi ≠ ohfi := fun y hy => ha y (List.mem_cons_of_mem _ hy)
    simp only [List.length_cons] at hn ih
    obtain ⟨n, rfl⟩ : ∃ m, n = m + 1 := ⟨n - 1, by omega⟩
    by_cases hp : x.ohfiParent = ohfi
    · have hsub : (prune CmaObject.ohfi CmaObject.ohfiParent x.ohfi xs).Sublist xs :=
        prune_sublist _ _
      have hlen := hsub.length_le
      -- the recursive call starts at `prev`, steps over it and finds the child next
      have hcall : removeNodes n x.ohfi (prev :: x :: xs) lock =
          some (prev :: prune CmaObject.ohfi CmaObject.ohfiParent x.ohfi xs, lock) := by
        obtain ⟨n, rfl⟩ : ∃ m, n = m + 3 := ⟨n - 3, by omega⟩
        have hne : prev.ohfi ≠ x.ohfi := fun he => ho.key_ne (y := x) (by simp) he.symm
        rw [removeNodes, removeLoop_pass hne (ho.par_ne (by simp)),
          removeLoop_found rfl (ho.irrefl x (by simp)),
          ih xs.length (by omega) n x.ohfi x [prev] xs [prev].length (lock + 1) (by simp) (by simp)
            ho.tail (fun y hy => ho.tail.key_ne hy) (by omega) rfl]
        simp
      rw [removeLoop_child hx hp hcall, prune_cons_child hp ho.tail ha]
      exact ih _ (by omega) n ohfi prev before _ k lock hk hkb
        (ho.sublist ((hsub.cons x).cons_cons prev)) (fun y hy => hxs y (hsub.subset hy))
        (by omega) rfl
    · rw [removeLoop_pass hx hp, prune_cons_of_ne hp,
        ih xs.length (by omega) n ohfi x (prev :: before) xs k lock hk
          (by simp only [List.length_cons]; omega) ho.tail hxs (by omega) rfl]
      have hk' : k < (prev :: before).reverse.length := by
        simp only [List.length_reverse, List.length_cons]
        omega
      rw [List.reverse_cons (a := x), List.eraseIdx_append_of_lt_length hk']
      simp

/-- `removeNodes` from any node in front of the object: the object and all that is below it
go, everything else stays, and the lock is back at its depth. -/
theorem removeNodes_eq {start x : CmaObject} {l l' : List CmaObject}
    (ho : NodesOrdered (start :: l ++ x :: l')) (lock : ℕ) :
    removeNodes (walkFuel (start :: l ++ x :: l')) x.ohfi (start :: l ++ x :: l') lock =
      some (withoutNodes x.ohfi (start :: l ++ x :: l'), lock) := by
  have hox : NodesOrdered (x :: l') := ho.sublist (List.sublist_append_right _ _)
  have hbefore := (List.pairwise_append.mp ho.before).2.2
  have hskip : ∀ y ∈ start :: l, y.ohfi ≠ x.ohfi ∧ y.ohfiParent ≠ x.ohfi := by
    intro y hy
    refine ⟨fun he => ?_, hbefore y hy x (by simp)⟩
    have hn := ho.nodup
    rw [List.map_append, List.nodup_append'] at hn
    exact hn.2.2 (List.mem_map_of_mem hy) (he ▸ by simp)
  obtain ⟨n, hn⟩ : ∃ n, walkFuel (start :: l ++ x :: l') = (n + 1 + (start :: l).length) + 1 :=
    ⟨walkFuel (start :: l ++ x :: l') - (start :: l).length - 2, by
      simp only [walkFuel, List.length_append, List.length_cons]; omega⟩
  have hfuel : 4 * l'.length + 1 ≤ n := by
    simp only [walkFuel, List.length_append, List.length_cons] at hn
    omega
  have hpos : 0 < (start :: l).reverse.length := by simp
  have herase : (x :: (start :: l).reverse).reverse.eraseIdx (start :: l).reverse.length =
      start :: l := by
    rw [List.reverse_cons, List.reverse_reverse, List.length_reverse,
      List.eraseIdx_append_of_length_le le_rfl]
    simp
  rw [hn, removeNodes, removeLoop_skip hskip, List.append_nil,
    removeLoop_found rfl (hox.irrefl x (by simp)),
    removeLoop_behind n x.ohfi x _ l' _ (lock + 1) hpos le_rfl hox
      (fun y hy => hox.key_ne hy) hfuel, herase, withoutNodes, without_eq ho]
  simp

theorem ohfi_ne_of_split {l p q : List CmaObject} {x : CmaObject} (hl : l = p ++ x :: q)
    (hn : (l.map CmaObject.ohfi).Nodup) :
    (∀ y ∈ p, y.ohfi ≠ x.ohfi) ∧ ∀ y ∈ q, y.ohfi ≠ x.ohfi := by
  rw [hl, List.map_append, List.map_cons] at hn
  obtain ⟨-, hq, hpq⟩ := List.nodup_append'.mp hn
  constructor
  · intro y hy he
    exact hpq (List.mem_map_of_mem hy) (he ▸ List.mem_cons_self ..)
  · intro y hy he
    exact (List.nodup_cons.mp hq).1 (he ▸ List.mem_map_of_mem hy)

theorem takeWhile_dropWhile_split {l r : List CmaObject} {x : CmaObject}
    (h : ∀ y ∈ l, y.ohfi ≠ x.ohfi) :
    (l ++ x :: r).takeWhile (fun o => o.ohfi ≠ x.ohfi) = l ∧
      (l ++ x :: r).dropWhile (fun o => o.ohfi ≠ x.ohfi) = x :: r := by
  induction l with
  | nil => simp
  | cons y ys ih =>
    have hy := h y (by simp)
    have := ih fun z hz => h z (List.mem_cons_of_mem _ hz)
    simpa [hy] using this

theorem withoutNodes_front {start x : CmaObject} {p l l' : List CmaObject}
    (ho : NodesOrdered (p ++ start :: l ++ x :: l')) :
    p ++ withoutNodes x.ohfi (start :: l ++ x :: l') =
      withoutNodes x.ohfi (p ++ start :: l ++ x :: l') := by
  have hs : NodesOrdered (start :: l ++ x :: l') := by
    rw [List.append_assoc] at ho
    exact ho.sublist (List.sublist_append_right p _)
  rw [withoutNodes, without_eq hs, withoutNodes, without_eq ho]
  simp

theorem removeFromDatabase_eq {db : Database} {c : Category} {start x : CmaObject}
    {p l l' : List CmaObject} (hl : db.lists c = p ++ start :: l ++ x :: l')
    (ho : NodesOrdered (db.lists c)) :
    removeFromDatabase db x.ohfi (some (c, start)) =
      some (db.setList c (withoutNodes x.ohfi (db.lists c))) := by
  have hl' : db.lists c = p ++ start :: (l ++ x :: l') := by rw [hl]; simp
  rw [hl'] at ho
  have hn := ho.nodup
  rw [List.map_append, List.nodup_append'] at hn
  have hp : ∀ y ∈ p, y.ohfi ≠ start.ohfi := fun y hy he =>
    hn.2.2 (List.mem_map_of_mem hy) (he ▸ by simp)
  obtain ⟨ht, hd⟩ := takeWhile_dropWhile_split (r := l ++ x :: l') hp
  have hs : NodesOrdered (start :: l ++ x :: l') :=
    ho.sublist (List.sublist_append_right p _)
  have hfront : NodesOrdered (p ++ start :: l ++ x :: l') := by simpa using ho
  have hwithout := withoutNodes_front hfront
  rw [← hl] at hwithout
  simp only [removeFromDatabase, Option.bind_eq_bind, Option.bind_some, hl', ht, hd]
  rw [show start :: (l ++ x :: l') = start :: l ++ x :: l' by simp, removeNodes_eq hs]
  simp only [Option.bind_some]
  rw [hwithout]
  simp [hl]

end VitaMTP
