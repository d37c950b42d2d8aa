import VitaMTP.Library.ParentFirst

/-! Lists in pre-order: behind every element stands the block of its descendants. -/
namespace ParentFirst

variable {α ι : Type*} {key par : α → ι}

/-- The elements whose parent has the key `a`, each followed by its own descendants. -/
inductive PreOrdered (key par : α → ι) : ι → List α → Prop
  | nil (a : ι) : PreOrdered key par a []
  | cons {a : ι} {x : α} {inside others : List α} (hpar : par x = a)
      (hinside : PreOrdered key par (key x) inside) (hothers : PreOrdered key par a others) :
      PreOrdered key par a (x :: (inside ++ others))

namespace PreOrdered

variable {a : ι} {l l' : List α}

theorem append (h : PreOrdered key par a l) (h' : PreOrdered key par a l') :
    PreOrdered key par a (l ++ l') := by
  induction h with
  | nil => exact h'
  | cons hpar hinside _ _ ih =>
    rw [List.cons_append, List.append_assoc]
    exact .cons hpar hinside (ih h')

theorem congr (h : PreOrdered key par a l)
    (hm : l'.map (fun x => (key x, par x)) = l.map (fun x => (key x, par x))) :
    PreOrdered key par a l' := by
  induction h generalizing l' with
  | nil =>
    rw [List.map_nil, List.map_eq_nil_iff] at hm
    exact hm ▸ .nil _
  | cons hpar _ _ ih₁ ih₂ =>
    rw [List.map_cons, List.map_append, List.map_eq_cons_iff] at hm
    obtain ⟨y, rest, rfl, hy, hrest⟩ := hm
    obtain ⟨inside, others, rfl, hin, hout⟩ := List.map_eq_append_iff.mp hrest
    obtain ⟨hkey, hpar'⟩ := Prod.mk.inj hy
    exact .cons (hpar'.trans hpar) (hkey ▸ ih₁ hin) (ih₂ hout)

theorem rooted (h : PreOrdered key par a l) : Rooted key par [a] l := by
  induction h with
  | nil => trivial
  | cons hpar _ _ ih₁ ih₂ =>
    exact ⟨by simp [hpar], Rooted.append.mpr ⟨ih₁.mono (by simp), ih₂.mono (by simp)⟩⟩

/-- What stands behind an element: its block, and elements whose parents stand outside of it. -/
theorem split (h : PreOrdered key par a l) {p r : List α} {x : α} (hl : l = p ++ x :: r) :
    ∃ block others, r = block ++ others ∧ PreOrdered key par (key x) block ∧
      Rooted key par (a :: p.map key) others := by
  induction h generalizing p r with
  | nil => simp at hl
  | @cons a y inside rest hpar hinside hothers ih₁ ih₂ =>
    cases p with
    | nil =>
      obtain ⟨rfl, rfl⟩ := List.cons.inj hl
      exact ⟨inside, rest, rfl, hinside, hothers.rooted⟩
    | cons z p =>
      rw [List.cons_append, List.cons.injEq] at hl
      obtain ⟨rfl, hl⟩ := hl
      rcases List.append_eq_append_iff.mp hl with ⟨q, rfl, hq⟩ | ⟨q, hq, hr⟩
      · obtain ⟨block, others, rfl, hblock, hroot⟩ := ih₂ hq
        refine ⟨block, others, rfl, hblock, hroot.mono fun k hk => ?_⟩
        rcases List.mem_cons.mp hk with rfl | hk
        · simp
        · simp [hk]
      · cases q with
        | nil =>
          obtain ⟨block, others, rfl, hblock, hroot⟩ := ih₂ (p := []) hr.symm
          exact ⟨block, others, rfl, hblock, hroot.mono (by simp)⟩
        | cons w q =>
          obtain ⟨rfl, rfl⟩ := List.cons.inj hr
          obtain ⟨block, others, rfl, hblock, hroot⟩ := ih₁ hq
          refine ⟨block, others ++ rest, by simp, hblock, Rooted.append.mpr ⟨?_, ?_⟩⟩
          · exact hroot.mono (by simp)
          · exact hothers.rooted.mono (by simp)

theorem contiguous (h : PreOrdered key par a l) (ho : Ordered key par l) (ha : a ∉ l.map key)
    {p r : List α} {x : α} (hl : l = p ++ x :: r) :
    ∃ block others, r = block ++ others ∧
      ∀ y ∈ l, y ∈ block ↔ y ≠ x ∧ Below key par l (key x) (key y) := by
  obtain ⟨block, others, rfl, hblock, hroot⟩ := h.split hl
  subst hl
  refine ⟨block, others, rfl, fun y hy => ?_⟩
  have hox : Ordered key par (x :: (block ++ others)) :=
    ho.sublist (List.sublist_append_right p _)
  have hfront : ∀ k ∈ p.map key, ¬ Below key par (p ++ x :: (block ++ others)) (key x) k :=
    fun k hk => ho.not_below_append (List.mem_cons_self ..) hk
  have htop : ¬ Below key par (p ++ x :: (block ++ others)) (key x) a := by
    intro hb
    rcases hb.cases_tail with he | ⟨_, -, z, hz, -, hk⟩
    · exact ha (he ▸ List.mem_map_of_mem (by simp))
    · exact ha (hk ▸ List.mem_map_of_mem hz)
  have hothers : ∀ z ∈ others, ¬ Below key par (p ++ x :: (block ++ others)) (key x) (key z) := by
    refine hroot.induction fun z hz hparent => ?_
    rw [ho.below_iff (by simp [hz]), not_or]
    constructor
    · exact (hox.key_ne (List.mem_append_right block hz)).symm
    · rcases hparent with hp | ⟨w, hw, he, hb⟩
      · rcases List.mem_cons.mp hp with hp | hp
        · exact hp ▸ htop
        · exact hfront _ hp
      · exact he ▸ hb
  constructor
  · intro hmem
    constructor
    · intro he
      exact hox.key_ne (List.mem_append_left others hmem) (he ▸ rfl)
    · exact (hblock.rooted.below y hmem).mono fun z hz => by simp [hz]
  · rintro ⟨hne, hb⟩
    simp only [List.mem_append, List.mem_cons] at hy
    rcases hy with hy | rfl | hy | hy
    · exact absurd hb (hfront _ (List.mem_map_of_mem hy))
    · exact absurd rfl hne
    · exact hy
    · exact absurd hb (hothers y hy)

end PreOrdered

end ParentFirst
