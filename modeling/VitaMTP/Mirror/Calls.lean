import VitaMTP.Events.Received
import VitaMTP.Mirror.Places

/-! What the file functions do to the places inside the directories of the categories. -/
namespace VitaMTP
open ParentFirst

/-- The system calls work on a file system without links. `tree` is what is there in a state, and
`locate` leads from paths to places. What `rename` does to something that is there already, and
how much `removeAll` takes away, is left open. -/
structure Posix.WorksOn {σ : Type} (posix : Posix σ) (tree : σ → FileTree CString)
    (locate : CString → List CString) : Prop where
  locate_join : ∀ dir name, VisibleName name → locate (joinPath dir name) = locate dir ++ [name]
  access : ∀ s path, posix.access s path = true → ((tree s).kind (locate path)).isSome
  mkdir : ∀ s s' path, posix.mkdir s path = some s' →
    (tree s).add (locate path) .folder = some (tree s')
  creat : ∀ s s' path, posix.creat s path = some s' →
    (tree s).add (locate path) .file = some (tree s')
  fopen : ∀ s s' path, posix.fopen s path = some s' →
    tree s' = tree s ∨ (tree s).add (locate path) .file = some (tree s')
  fwrite : ∀ s path data, tree (posix.fwrite s path data).2 = tree s
  rename_same : ∀ s s' src dest, posix.rename s src dest = some s' → locate src = locate dest →
    tree s' = tree s
  rename_free : ∀ s s' src dest, posix.rename s src dest = some s' →
    (tree s).kind (locate dest) = none → (tree s).move (locate src) (locate dest) = some (tree s')
  removeAll : ∀ s path place, ¬ locate path <+: place →
    (tree (posix.removeAll s path)).kind place = (tree s).kind place

/-- The place is strictly inside the directory of a category. -/
def Interior (base : Category → List CString) (place : List CString) : Prop :=
  ∃ c comps, comps ≠ [] ∧ place = base c ++ comps

/-- Inside the directories of the categories, exactly `es` was added to the one of `c`. -/
structure Adds (base : Category → List CString) (t t' : FileTree CString) (c : Category)
    (es : List (List CString × FileKind)) : Prop where
  nodup : (es.map Prod.fst).Nodup
  fresh : ∀ e ∈ es, t.kind (base c ++ e.1) = none
  present : ∀ e ∈ es, t'.kind (base c ++ e.1) = some e.2
  frame : ∀ place, Interior base place → (∀ e ∈ es, place ≠ base c ++ e.1) →
    t'.kind place = t.kind place

/-- What lies on the way along `dir` inside the directory of a category is there. -/
def Passable (base : Category → List CString) (locate : CString → List CString)
    (t : FileTree CString) (dir : CString) : Prop :=
  ∀ d, d = dir ∨ d ∈ slashPrefixes dir → Interior base (locate d) → (t.kind (locate d)).isSome

section adds

variable {base : Category → List CString} {t t₁ t' : FileTree CString} {c : Category}
  {es es' : List (List CString × FileKind)} {comps : List CString} {name : CString}
  {place : List CString} {k : FileKind}

theorem interior_join (base : Category → List CString) (c : Category) (comps : List CString)
    (name : CString) : Interior base (base c ++ (comps ++ [name])) :=
  ⟨c, comps ++ [name], by simp, rfl⟩

namespace Adds

theorem refl (base : Category → List CString) (t : FileTree CString) (c : Category) :
    Adds base t t c [] := ⟨List.nodup_nil, by simp, by simp, fun _ _ _ => rfl⟩

theorem same (h : Adds base t t' c []) (hplace : Interior base place) :
    t'.kind place = t.kind place := h.frame place hplace (by simp)

theorem isSome (h : Adds base t t' c es) (hplace : Interior base place)
    (hsome : (t.kind place).isSome) : (t'.kind place).isSome := by
  by_cases hmem : ∀ e ∈ es, place ≠ base c ++ e.1
  · rwa [h.frame place hplace hmem]
  · simp only [not_forall, not_not] at hmem
    obtain ⟨e, he, rfl⟩ := hmem
    simp [h.present e he]

theorem trans (h : Adds base t t₁ c es) (h' : Adds base t₁ t' c es')
    (hne : ∀ e ∈ es ++ es', e.1 ≠ []) : Adds base t t' c (es ++ es') := by
  have hinside : ∀ e ∈ es ++ es', Interior base (base c ++ e.1) := fun e he =>
    ⟨c, e.1, hne e he, rfl⟩
  have hapart : ∀ e ∈ es, ∀ e' ∈ es', base c ++ e.1 ≠ base c ++ e'.1 := by
    intro e he e' he' heq
    have hpresent := h.present e he
    rw [heq, h'.fresh e' he'] at hpresent
    simp at hpresent
  constructor
  · rw [List.map_append, List.nodup_append']
    refine ⟨h.nodup, h'.nodup, fun p hp hp' => ?_⟩
    obtain ⟨e, he, rfl⟩ := List.mem_map.mp hp
    obtain ⟨e', he', heq⟩ := List.mem_map.mp hp'
    exact hapart e he e' he' (by rw [heq])
  · intro e he
    rcases List.mem_append.mp he with hmem | hmem
    · exact h.fresh e hmem
    · rw [← h.frame _ (hinside e he) fun e' he' => (hapart e' he' e hmem).symm]
      exact h'.fresh e hmem
  · intro e he
    rcases List.mem_append.mp he with hmem | hmem
    · rw [h'.frame _ (hinside e he) (hapart e hmem)]
      exact h.present e hmem
    · exact h'.present e hmem
  · intro place hplace hnot
    rw [h'.frame place hplace fun e he => hnot e (List.mem_append_right _ he)]
    exact h.frame place hplace fun e he => hnot e (List.mem_append_left _ he)

/-- What is added to something that was there is added to a folder. -/
theorem parent (h : Adds base t t' c es) (hmem : (comps ++ [name], k) ∈ es) (hne : comps ≠ [])
    (hnot : ∀ e ∈ es, e.1 ≠ comps) : t.kind (base c ++ comps) = some .folder := by
  have hpresent := h.present _ hmem
  rw [← List.append_assoc] at hpresent
  rw [← h.frame (base c ++ comps) ⟨c, comps, hne, rfl⟩ fun e he heq =>
    hnot e he (List.append_cancel_left heq).symm]
  exact t'.closed _ name (Option.isSome_iff_exists.mpr ⟨k, hpresent⟩)

theorem of_add (hadd : t.add (base c ++ comps) k = some t') :
    Adds base t t' c [(comps, k)] := by
  obtain ⟨hnone, -, hkind⟩ := FileTree.add_eq_some hadd
  refine ⟨by simp, by simpa using hnone, by simp [hkind], fun place _ hnot => ?_⟩
  rw [hkind, Function.update_of_ne (hnot (comps, k) (by simp))]

theorem of_add_outside (hadd : t.add place k = some t') (hplace : ¬ Interior base place) :
    Adds base t t' c [] := by
  obtain ⟨-, -, hkind⟩ := FileTree.add_eq_some hadd
  refine ⟨List.nodup_nil, by simp, by simp, fun p hp _ => ?_⟩
  rw [hkind, Function.update_of_ne]
  rintro rfl
  exact hplace hp

end Adds

theorem Passable.adds {locate : CString → List CString} {dir : CString}
    (h : Passable base locate t dir) (hadds : Adds base t t' c es) :
    Passable base locate t' dir :=
  fun d hd hplace => hadds.isSome hplace (h d hd hplace)

end adds

theorem mem_slashPrefixes {dir path : CString} :
    dir ∈ slashPrefixes path ↔ ∃ rest, path = dir ++ '/' :: rest := by
  simp only [slashPrefixes, List.mem_map, List.mem_filter, List.mem_range, decide_eq_true_eq]
  constructor
  · rintro ⟨i, ⟨hlt, hslash⟩, rfl⟩
    refine ⟨path.drop (i + 1), ?_⟩
    have hget : path[i] = '/' := by simpa [hlt] using hslash
    rw [← hget, List.getElem_cons_drop, List.take_append_drop]
  · rintro ⟨rest, rfl⟩
    exact ⟨dir.length, by simp, by simp⟩

theorem mem_slashPrefixes_join {dir d name : CString} (hname : '/' ∉ name) :
    d ∈ slashPrefixes (joinPath dir name) ↔ d = dir ∨ d ∈ slashPrefixes dir := by
  simp only [mem_slashPrefixes, joinPath]
  constructor
  · rintro ⟨rest, heq⟩
    rcases List.append_eq_append_iff.mp heq with ⟨m, hd, hm⟩ | ⟨m, hdir, hm⟩
    · cases m with
      | nil => exact Or.inl (by simpa using hd)
      | cons a m =>
        have hin : '/' ∈ name := by
          obtain ⟨-, rfl⟩ := List.cons.inj hm
          simp
        exact absurd hin hname
    · cases m with
      | nil => exact Or.inl (by simpa using hdir.symm)
      | cons a m =>
        obtain ⟨rfl, -⟩ := List.cons.inj hm
        exact Or.inr ⟨m, hdir⟩
  · rintro (rfl | ⟨rest, rfl⟩)
    · exact ⟨name, rfl⟩
    · exact ⟨rest ++ '/' :: name, by simp⟩

theorem stripSlash_join (dir : CString) {name : CString} (hne : name ≠ []) (hslash : '/' ∉ name) :
    stripSlash (joinPath dir name) = joinPath dir name := by
  refine if_neg fun hlast => ?_
  rw [joinPath, List.getLast?_append_of_ne_nil _ (by simp), List.getLast?_cons_of_ne_nil hne]
    at hlast
  exact hslash (List.mem_of_getLast? hlast)

section files

variable {σ : Type} {posix : Posix σ} {tree : σ → FileTree CString}
  {locate : CString → List CString} {base : Category → List CString} {fs : Disk σ}
  {t : FileTree CString} {c : Category} {comps : List CString} {dir name : CString}

theorem mkdirIfMissing_adds_nil (hsys : posix.WorksOn tree locate) (c : Category)
    (hdir : Interior base (locate dir) → ((tree fs.state).kind (locate dir)).isSome) :
    Adds base (tree fs.state) (tree (mkdirIfMissing posix fs dir).2.state) c [] := by
  unfold mkdirIfMissing
  split
  · exact .refl base _ c
  · rw [Disk.call_state]
    cases hmkdir : posix.mkdir fs.state dir with
    | none => exact .refl base _ c
    | some s' =>
      have hadd := hsys.mkdir _ _ _ hmkdir
      refine .of_add_outside hadd fun hin => ?_
      have hsome := hdir hin
      rw [(FileTree.add_eq_some hadd).1] at hsome
      simp at hsome

theorem mkdirs_adds_nil (hsys : posix.WorksOn tree locate) (c : Category) (dirs : List CString)
    (hdirs : ∀ d ∈ dirs, Interior base (locate d) →
      ((tree fs.state).kind (locate d)).isSome) :
    Adds base (tree fs.state)
      (tree (dirs.foldl (fun fs dir => (mkdirIfMissing posix fs dir).2) fs).state) c [] := by
  induction dirs generalizing fs with
  | nil => exact .refl base _ c
  | cons d dirs ih =>
    have hfirst := mkdirIfMissing_adds_nil hsys c (hdirs d (by simp))
    refine hfirst.trans (ih fun d' hd' hplace => ?_) (by simp)
    exact hfirst.isSome hplace (hdirs d' (List.mem_cons_of_mem _ hd') hplace)

/-- A directory that is not there yet is added; the way to it is there. -/
theorem createNewDirectory_adds (hsys : posix.WorksOn tree locate)
    (hpass : Passable base locate (tree fs.state) dir) (hname : VisibleName name)
    (hdir : locate dir = base c ++ comps)
    (hfresh : (tree fs.state).kind (base c ++ (comps ++ [name])) = none)
    (hok : (createNewDirectory posix fs (joinPath dir name)).1 = true) :
    Adds base (tree fs.state) (tree (createNewDirectory posix fs (joinPath dir name)).2.state) c
      [(comps ++ [name], .folder)] := by
  have hplace : locate (joinPath dir name) = base c ++ (comps ++ [name]) := by
    rw [hsys.locate_join dir name hname, hdir, List.append_assoc]
  unfold createNewDirectory at hok ⊢
  simp only [stripSlash_join dir hname.1 hname.2.1] at hok ⊢
  have hway : Adds base (tree fs.state) _ c [] :=
    mkdirs_adds_nil hsys c (slashPrefixes (joinPath dir name))
      fun d hd => hpass d ((mem_slashPrefixes_join hname.2.1).mp hd)
  generalize (slashPrefixes (joinPath dir name)).foldl
    (fun fs dir => (mkdirIfMissing posix fs dir).2) fs = fs₁ at hok hway ⊢
  have hnone : (tree fs₁.state).kind (locate (joinPath dir name)) = none := by
    rw [hplace, hway.same (interior_join base c comps name), hfresh]
  unfold mkdirIfMissing at hok ⊢
  split_ifs at hok ⊢ with haccess
  · have hsome := hsys.access _ _ haccess
    rw [hnone] at hsome
    simp at hsome
  · rw [Disk.call_fst] at hok
    obtain ⟨s', hmkdir⟩ := Option.isSome_iff_exists.mp hok
    have hadd := hsys.mkdir _ _ _ hmkdir
    rw [hplace] at hadd
    rw [Disk.call_state, hmkdir, Option.getD_some]
    exact hway.trans (.of_add hadd) (by simp)

theorem createNewFile_adds (hsys : posix.WorksOn tree locate) (hname : VisibleName name)
    (hdir : locate dir = base c ++ comps)
    (hok : (createNewFile posix fs (joinPath dir name)).1 = true) :
    Adds base (tree fs.state) (tree (createNewFile posix fs (joinPath dir name)).2.state) c
      [(comps ++ [name], .file)] := by
  unfold createNewFile at hok ⊢
  rw [Disk.call_fst] at hok
  obtain ⟨s', hcreat⟩ := Option.isSome_iff_exists.mp hok
  have hadd := hsys.creat _ _ _ hcreat
  rw [hsys.locate_join dir name hname, hdir, List.append_assoc] at hadd
  rw [Disk.call_state, hcreat, Option.getD_some]
  exact .of_add hadd

/-- Writing to something that is there leaves everything in its place. -/
theorem writeFileFromBuffer_tree (hsys : posix.WorksOn tree locate) {path : CString}
    (hthere : ((tree fs.state).kind (locate path)).isSome) (seek : ULong) (data : List Byte) :
    tree (writeFileFromBuffer posix fs path seek data).2.state = tree fs.state := by
  have hopen : tree ((posix.fopen fs.state path).getD fs.state) = tree fs.state := by
    cases hfopen : posix.fopen fs.state path with
    | none => rfl
    | some s' =>
      rcases hsys.fopen _ _ _ hfopen with hsame | hadd
      · exact hsame
      · rw [(FileTree.add_eq_some hadd).1] at hthere
        simp at hthere
  unfold writeFileFromBuffer
  dsimp only
  split
  · exact hopen
  · rw [hsys.fwrite]
    exact hopen

theorem writeFile_adds (hsys : posix.WorksOn tree locate) (hname : VisibleName name)
    (hdir : locate dir = base c ++ comps) {size : ULong} {data : List Byte}
    (hok : (writeFile posix (joinPath dir name) size data fs).ok = true) :
    Adds base (tree fs.state) (tree (writeFile posix (joinPath dir name) size data fs).fs.state) c
      [(comps ++ [name], .file)] := by
  unfold writeFile at hok ⊢
  dsimp only at hok ⊢
  by_cases hcreated : (createNewFile posix fs (joinPath dir name)).1 = true
  · have hadds : Adds base (tree fs.state) _ c _ := createNewFile_adds hsys hname hdir hcreated
    have hthere := hadds.present (comps ++ [name], .file) (by simp)
    rw [if_pos hcreated]
    dsimp only
    rw [writeFileFromBuffer_tree hsys]
    · exact hadds
    · rw [hsys.locate_join dir name hname, hdir, List.append_assoc, hthere]
      rfl
  · simp [hcreated] at hok

end files

end VitaMTP
