import VitaMTP.Mirror.Calls

/-! The places of a tree that is received, in the database and on disk. -/
namespace VitaMTP
open ParentFirst

mutual

/-- What a tree becomes below `comps`. -/
def DeviceObject.places : List CString → DeviceObject → List (List CString × FileKind)
  | _, .unavailable => []
  | comps, .file name _ _ _ => [(comps ++ [name], .file)]
  | comps, .folder name _ children =>
    (comps ++ [name], .folder) :: childPlaces (comps ++ [name]) children

def childPlaces : List CString → List DeviceObject → List (List CString × FileKind)
  | _, [] => []
  | comps, t :: ts => t.places comps ++ childPlaces comps ts

end

mutual

/-- The places are at the name of the tree or below it. -/
theorem places_prefix (comps : List CString) : (t : DeviceObject) → ∀ e ∈ t.places comps,
    ∃ name, t.name? = some name ∧ comps ++ [name] <+: e.1
  | .unavailable => by
    unfold DeviceObject.places
    simp
  | .file name handle size data => by
    unfold DeviceObject.places
    intro e he
    obtain rfl := List.mem_singleton.mp he
    exact ⟨name, rfl, List.prefix_rfl⟩
  | .folder name handle children => by
    unfold DeviceObject.places
    intro e he
    refine ⟨name, rfl, ?_⟩
    rcases List.mem_cons.mp he with rfl | he
    · exact List.prefix_rfl
    · exact childPlaces_prefix (comps ++ [name]) children e he

theorem childPlaces_prefix (comps : List CString) : (ts : List DeviceObject) →
    ∀ e ∈ childPlaces comps ts, comps <+: e.1
  | [] => by
    unfold childPlaces
    simp
  | t :: ts => by
    unfold childPlaces
    intro e he
    rcases List.mem_append.mp he with he | he
    · obtain ⟨name, -, hpre⟩ := places_prefix comps t e he
      exact (List.prefix_append comps [name]).trans hpre
    · exact childPlaces_prefix comps ts e he

end

theorem places_ne_nil {comps : List CString} {t : DeviceObject} :
    ∀ e ∈ t.places comps, e.1 ≠ [] := by
  intro e he hnil
  obtain ⟨name, -, hpre⟩ := places_prefix comps t e he
  rw [hnil, List.prefix_nil] at hpre
  simp at hpre

theorem childPlaces_ne_nil {comps : List CString} {ts : List DeviceObject} :
    ∀ e ∈ childPlaces comps ts, e.1 ≠ [] := by
  induction ts with
  | nil =>
    unfold childPlaces
    simp
  | cons t ts ih =>
    unfold childPlaces
    intro e he
    exact (List.mem_append.mp he).elim (places_ne_nil e) (ih e)

mutual

theorem places_visible {comps : List CString} (hcomps : ∀ n ∈ comps, VisibleName n) :
    (t : DeviceObject) → t.WellNamed → ∀ e ∈ t.places comps, ∀ n ∈ e.1, VisibleName n
  | .unavailable, _ => by
    unfold DeviceObject.places
    simp
  | .file name handle size data, ht => by
    unfold DeviceObject.WellNamed at ht
    unfold DeviceObject.places
    intro e he
    obtain rfl := List.mem_singleton.mp he
    exact visible_concat hcomps ht
  | .folder name handle children, ht => by
    unfold DeviceObject.WellNamed at ht
    have hname := visible_concat hcomps ht.1
    unfold DeviceObject.places
    intro e he
    rcases List.mem_cons.mp he with rfl | he
    · exact hname
    · exact childPlaces_visible hname children ht.2.2 e he

theorem childPlaces_visible {comps : List CString} (hcomps : ∀ n ∈ comps, VisibleName n) :
    (ts : List DeviceObject) → ChildrenNamed ts →
    ∀ e ∈ childPlaces comps ts, ∀ n ∈ e.1, VisibleName n
  | [], _ => by
    unfold childPlaces
    simp
  | t :: ts, hts => by
    unfold ChildrenNamed at hts
    unfold childPlaces
    intro e he
    exact (List.mem_append.mp he).elim (places_visible hcomps t hts.1 e)
      (childPlaces_visible hcomps ts hts.2 e)

end

theorem newFile_kind (count : ℤ) (root : CmaObject) (name : CString) (size : ULong) :
    (newObject count root name size DataType.File).kind = .file := by
  rw [CmaObject.kind, newFile_isFolder]
  rfl

theorem newFolder_kind (count : ℤ) (root : CmaObject) (name : CString) (size : ULong) :
    (newObject count root name size DataType.Folder).kind = .folder := by
  rw [CmaObject.kind, newFolder_isFolder]
  rfl

mutual

theorem nodes_place (count : ℤ) (root : CmaObject) : (t : DeviceObject) → t.WellNamed →
    (t.nodes count root).map CmaObject.place = t.places root.comps
  | .unavailable, _ => by
    unfold DeviceObject.nodes DeviceObject.places
    simp
  | .file name handle size data, ht => by
    unfold DeviceObject.WellNamed at ht
    unfold DeviceObject.nodes DeviceObject.places
    have hcomps := newObject_comps count root 0 DataType.File ht.2.1
    exact congrArg (fun p => [p]) (Prod.ext hcomps (newFile_kind count root name 0))
  | .folder name handle children, ht => by
    unfold DeviceObject.WellNamed at ht
    unfold DeviceObject.nodes DeviceObject.places
    have hcomps := newObject_comps count root 0 DataType.Folder ht.1.2.1
    have hkind := newFolder_kind count root name 0
    have hchildren := childNodes_place (count + 1)
      ((newObject count root name 0 DataType.Folder).setHandle handle) children ht.2.2
    rw [← hcomps]
    exact congrArg₂ List.cons (Prod.ext rfl hkind) hchildren

theorem childNodes_place (count : ℤ) (root : CmaObject) : (ts : List DeviceObject) →
    ChildrenNamed ts → (childNodes count root ts).map CmaObject.place = childPlaces root.comps ts
  | [], _ => by
    unfold childNodes childPlaces
    simp
  | t :: ts, hts => by
    unfold ChildrenNamed at hts
    unfold childNodes childPlaces
    rw [List.map_append, nodes_place count root t hts.1, childNodes_place _ root ts hts.2]

end

theorem newFile_plain (c : Category) (count : ℤ) (root : CmaObject) {name : CString}
    (hname : VisibleName name) (size : ULong) :
    (newObject count root name size DataType.File).Plain c := by
  constructor
  · intro n hn
    exact Option.some.inj hn ▸ hname
  · intro _
    rw [newFile_isFile, newFile_isFolder]
    rfl

theorem newFolder_plain (c : Category) (count : ℤ) {root : CmaObject} {name : CString}
    (hname : VisibleName name) (hroot : root.isFile = false) (size : ULong) :
    (newObject count root name size DataType.Folder).Plain c := by
  constructor
  · intro n hn
    exact Option.some.inj hn ▸ hname
  · intro _
    rw [newObject_isFile, newFolder_isFolder, hroot]
    rfl

mutual

theorem nodes_plain (c : Category) (count : ℤ) {root : CmaObject} : (t : DeviceObject) →
    t.WellNamed → (t.isFolder = true → root.isFile = false) → ∀ o ∈ t.nodes count root, o.Plain c
  | .unavailable, _, _ => by
    unfold DeviceObject.nodes
    simp
  | .file name handle size data, ht, _ => by
    unfold DeviceObject.WellNamed at ht
    unfold DeviceObject.nodes
    intro o ho
    obtain rfl := List.mem_singleton.mp ho
    have hplain := newFile_plain c count root ht 0
    exact ⟨hplain.name, hplain.kind⟩
  | .folder name handle children, ht, hfile => by
    unfold DeviceObject.WellNamed at ht
    unfold DeviceObject.nodes
    have hroot := hfile rfl
    have hplain := newFolder_plain c count ht.1 hroot 0
    intro o ho
    rcases List.mem_cons.mp ho with rfl | ho
    · exact ⟨hplain.name, hplain.kind⟩
    · have hobject : ((newObject count root name 0 DataType.Folder).setHandle handle).isFile =
          false := (newObject_isFile count root name 0).trans hroot
      exact childNodes_plain c _ hobject children ht.2.2 o ho

theorem childNodes_plain (c : Category) (count : ℤ) {root : CmaObject}
    (hroot : root.isFile = false) : (ts : List DeviceObject) → ChildrenNamed ts →
    ∀ o ∈ childNodes count root ts, o.Plain c
  | [], _ => by
    unfold childNodes
    simp
  | t :: ts, hts => by
    unfold ChildrenNamed at hts
    unfold childNodes
    intro o ho
    exact (List.mem_append.mp ho).elim (nodes_plain c _ t hts.1 (fun _ => hroot) o)
      (childNodes_plain c _ hroot ts hts.2 o)

end

section disk

variable {σ : Type} {posix : Posix σ} {tree : σ → FileTree CString}
  {locate : CString → List CString} {base : Category → List CString} {c : Category}

/-- Below something that is not there is nothing. -/
theorem children_fresh {t t₁ : FileTree CString} {place : List CString}
    (h : Adds base t t₁ c [(place, .folder)]) (name : CString) :
    t₁.kind (base c ++ (place ++ [name])) = none := by
  have hnone := h.fresh (place, .folder) (by simp)
  rw [h.frame _ (interior_join base c place name) fun e he heq => ?_, ← List.append_assoc]
  · exact t.kind_append_none hnone [name]
  · obtain rfl := List.mem_singleton.mp he
    have := congrArg List.length (List.append_cancel_left heq)
    simp at this

/-- What is received under one name leaves the other names free. -/
theorem siblings_fresh {t t₁ : FileTree CString} {comps : List CString} {d : DeviceObject}
    (h : Adds base t t₁ c (d.places comps)) {name : CString} (hne : d.name? ≠ some name)
    (hnone : t.kind (base c ++ (comps ++ [name])) = none) :
    t₁.kind (base c ++ (comps ++ [name])) = none := by
  rw [h.frame _ (interior_join base c comps name) fun e he heq => ?_, hnone]
  obtain ⟨name', hname', hpre⟩ := places_prefix comps d e he
  rw [← List.append_cancel_left heq] at hpre
  have hlast := List.append_cancel_left (hpre.eq_of_length (by simp))
  exact hne (List.singleton_inj.mp hlast ▸ hname')

mutual

/-- Receiving a tree adds its places, if the place of a folder is free. -/
theorem writeTree_adds (hsys : posix.WorksOn tree locate) (inFile : Bool) {dir : CString}
    {comps : List CString} (hdir : locate dir = base c ++ comps) : (d : DeviceObject) →
    d.WellNamed → (fs : Disk σ) → Passable base locate (tree fs.state) dir →
    (d.isFolder = true → ∀ name, d.name? = some name →
      (tree fs.state).kind (base c ++ (comps ++ [name])) = none) →
    (writeTree posix inFile dir d fs).ok = true →
    Adds base (tree fs.state) (tree (writeTree posix inFile dir d fs).fs.state) c (d.places comps)
  | .unavailable, _, fs, _, _, hok => by
    unfold writeTree at hok
    simp at hok
  | .file name handle size data, hd, fs, _, _, hok => by
    unfold DeviceObject.WellNamed at hd
    unfold writeTree at hok ⊢
    unfold DeviceObject.places
    exact writeFile_adds hsys hd hdir hok
  | .folder name handle children, hd, fs, hpass, hfresh, hok => by
    unfold DeviceObject.WellNamed at hd
    cases inFile with
    | true =>
      unfold writeTree at hok
      simp at hok
    | false =>
      unfold writeTree at hok ⊢
      unfold DeviceObject.places
      dsimp only at hok ⊢
      split_ifs at hok ⊢ with hcreated
      have hfirst := createNewDirectory_adds hsys hpass hd.1 hdir (hfresh rfl name rfl) hcreated
      have hplace : locate (joinPath dir name) = base c ++ (comps ++ [name]) := by
        rw [hsys.locate_join dir name hd.1, hdir, List.append_assoc]
      have hpass₁ : Passable base locate
          (tree (createNewDirectory posix fs (joinPath dir name)).2.state) (joinPath dir name) := by
        rintro d (rfl | hd') hin
        · rw [hplace, hfirst.present _ (List.mem_singleton_self _)]
          rfl
        · exact hpass.adds hfirst d ((mem_slashPrefixes_join hd.1.2.1).mp hd') hin
      have hothers := writeTrees_adds hsys hplace children hd.2.2 hd.2.1 _ hpass₁
        (fun _ _ n _ => children_fresh hfirst n) hok
      refine hfirst.trans hothers fun e he => ?_
      rcases List.mem_append.mp he with he | he
      · obtain rfl := List.mem_singleton.mp he
        simp
      · exact childPlaces_ne_nil e he

theorem writeTrees_adds (hsys : posix.WorksOn tree locate) {dir : CString}
    {comps : List CString} (hdir : locate dir = base c ++ comps) : (ds : List DeviceObject) →
    ChildrenNamed ds → (ds.filterMap DeviceObject.name?).Nodup → (fs : Disk σ) →
    Passable base locate (tree fs.state) dir →
    (∀ d ∈ ds, ∀ name, d.name? = some name →
      (tree fs.state).kind (base c ++ (comps ++ [name])) = none) →
    (writeTrees posix dir ds fs).ok = true →
    Adds base (tree fs.state) (tree (writeTrees posix dir ds fs).fs.state) c (childPlaces comps ds)
  | [], _, _, fs, _, _, _ => by
    unfold writeTrees childPlaces
    exact .refl base _ c
  | d :: ds, hds, hnodup, fs, hpass, hfresh, hok => by
    unfold ChildrenNamed at hds
    unfold writeTrees at hok ⊢
    unfold childPlaces
    dsimp only at hok ⊢
    split_ifs at hok ⊢ with hfirst
    · have hadds := writeTree_adds hsys false hdir d hds.1 fs hpass
        (fun _ name hname => hfresh d (by simp) name hname) hfirst
      have hrest : (ds.filterMap DeviceObject.name?).Nodup :=
        hnodup.sublist ((List.sublist_cons_self d ds).filterMap _)
      refine hadds.trans (writeTrees_adds hsys hdir ds hds.2 hrest _ (hpass.adds hadds)
        (fun d' hd' name hname => ?_) hok) fun e he =>
          (List.mem_append.mp he).elim (places_ne_nil e) (childPlaces_ne_nil e)
      refine siblings_fresh hadds (fun hsame => ?_)
        (hfresh d' (List.mem_cons_of_mem _ hd') name hname)
      rw [List.filterMap_cons_some hsame, List.nodup_cons] at hnodup
      exact hnodup.1 (List.mem_filterMap.mpr ⟨d', hd', hname⟩)
    · exact absurd hok hfirst

end

end disk

end VitaMTP
