import VitaMTP.Events.Survival
import VitaMTP.Mirror.Scan

/-! A file system without links whose state is the tree itself. -/
namespace VitaMTP

def locatePath (path : CString) : List CString := (resolve path).2

/-- Files hold no data here; a directory is never replaced by `rename`, a file only by a file. -/
def treePosix : Posix (FileTree CString) where
  access t path := (t.kind (locatePath path)).isSome
  mkdir t path := t.add (locatePath path) .folder
  creat t path := t.add (locatePath path) .file
  fopen t path :=
    match t.kind (locatePath path) with
    | some .file => some t
    | some .folder => none
    | none => t.add (locatePath path) .file
  fwrite t _ _ := (true, t)
  rename t src dest :=
    if locatePath src = locatePath dest then
      if (t.kind (locatePath src)).isSome then some t else none
    else if t.kind (locatePath src) = some .file ∧ t.kind (locatePath dest) = some .file then
      (t.remove (locatePath dest)).move (locatePath src) (locatePath dest)
    else t.move (locatePath src) (locatePath dest)
  removeAll t path := t.remove (locatePath path)
  contents t path := if t.kind (locatePath path) = some .file then some [] else none

/-- The directories and files of `t`, whose names are among `names`. -/
def treeView (names : List CString) (t : FileTree CString) : DirView where
  opendir path :=
    if path.length < PATH_MAX ∧ t.kind (locatePath path) = some .folder then
      some (names.filter fun name => (t.kind (locatePath path ++ [name])).isSome)
    else none
  stat path :=
    if path.length < PATH_MAX then
      (t.kind (locatePath path)).map fun k => { size := 0, isDir := k == .folder }
    else none

theorem resolveStep_visible (absolute : Bool) (dir : List CString) {name : CString}
    (hname : VisibleName name) : resolveStep absolute dir name = dir ++ [name] := by
  obtain ⟨hne, -, hdot⟩ := hname
  have hthis : name ≠ ['.'] := by
    rintro rfl
    exact hdot rfl
  have hparent : name ≠ ['.', '.'] := by
    rintro rfl
    exact hdot rfl
  simp [resolveStep, hne, hthis, hparent]

theorem locatePath_append (path rest : CString) : ∃ absolute,
    locatePath (path ++ '/' :: rest) =
      (rest.splitOn '/').foldl (resolveStep absolute) (locatePath path) := by
  unfold locatePath resolve
  dsimp only
  rw [List.splitOn_append_cons_self, List.foldl_append]
  cases path with
  | nil => exact ⟨true, by simp [resolveStep]⟩
  | cons a path => exact ⟨decide ((a :: path).head? = some '/'), rfl⟩

theorem locatePath_join (dir : CString) {name : CString} (hname : VisibleName name) :
    locatePath (joinPath dir name) = locatePath dir ++ [name] := by
  obtain ⟨absolute, h⟩ := locatePath_append dir name
  rw [joinPath, h, List.splitOn_eq_singleton hname.2.1, List.foldl_cons, List.foldl_nil,
    resolveStep_visible absolute _ hname]

theorem locatePath_slash (path : CString) : locatePath (path ++ ['/']) = locatePath path := by
  obtain ⟨absolute, h⟩ := locatePath_append path []
  rw [h, List.splitOn_nil]
  simp [resolveStep]

theorem locatePath_diskPath (root : CString) {comps : List CString}
    (hcomps : ∀ n ∈ comps, VisibleName n) :
    locatePath (diskPath root comps) = locatePath root ++ comps := by
  induction comps using List.reverseRecOn with
  | nil => simp
  | append_singleton comps name ih =>
    rw [diskPath_concat, locatePath_join _ (hcomps name (by simp)),
      ih fun n hn => hcomps n (List.mem_append_left _ hn), List.append_assoc]

theorem treePosix_worksOn : treePosix.WorksOn id locatePath where
  locate_join dir _ hname := locatePath_join dir hname
  access _ _ h := h
  mkdir _ _ _ h := h
  creat _ _ _ h := h
  fopen t t' path h := by
    unfold treePosix at h
    dsimp only at h
    split at h
    · exact Or.inl (Option.some.inj h).symm
    · simp at h
    · exact Or.inr h
  fwrite _ _ _ := rfl
  rename_same t t' src dest h hsame := by
    unfold treePosix at h
    dsimp only at h
    rw [if_pos hsame] at h
    split at h
    · exact (Option.some.inj h).symm
    · simp at h
  rename_free t t' src dest h hfree := by
    have hfree : t.kind (locatePath dest) = none := hfree
    unfold treePosix at h
    dsimp only at h
    split_ifs at h with hsame hsome hfile
    · rw [hsame, hfree] at hsome
      simp at hsome
    · rw [hfree] at hfile
      simp at hfile
    · exact h
  removeAll t path place h := if_neg h

/-- A view of the tree shows every directory in it, if no path in it is too long. -/
theorem treeView_shows {names : List CString} {t : FileTree CString} (hnodup : names.Nodup)
    (hvisible : ∀ name ∈ names, VisibleName name)
    (hall : ∀ place name, (t.kind (place ++ [name])).isSome → name ∈ names) {root : CString}
    (hshort : ∀ comps, (t.kind (locatePath root ++ comps)).isSome →
      (diskPath root comps ++ ['/']).length < PATH_MAX) :
    Shows (treeView names t) t root (locatePath root) where
  stat comps name hcomps hname := by
    unfold treeView
    dsimp only
    rw [locatePath_join _ hname, locatePath_diskPath root hcomps, List.append_assoc]
    split_ifs with hlen
    · rw [Option.map_map]
      rfl
    · cases hkind : t.kind (locatePath root ++ (comps ++ [name])) with
      | none => rfl
      | some k =>
        have hpath := hshort (comps ++ [name]) (by rw [hkind]; rfl)
        rw [diskPath_concat, List.length_append] at hpath
        omega
  opendir comps hcomps hfolder := by
    unfold treeView
    dsimp only
    rw [locatePath_slash, locatePath_diskPath root hcomps,
      if_pos ⟨hshort comps (by rw [hfolder]; rfl), hfolder⟩]
    refine ⟨_, rfl, hnodup.filter _, fun name _ => ?_⟩
    rw [List.mem_filter, List.append_assoc]
    constructor
    · exact fun h => ⟨hvisible name h.1, h.2⟩
    · exact fun h =>
        ⟨hall (locatePath root ++ comps) name (by rw [List.append_assoc]; exact h.2), h.2⟩
  noDir comps hcomps hfolder := by
    unfold treeView
    dsimp only
    rw [locatePath_slash, locatePath_diskPath root hcomps, if_neg fun h => hfolder h.2]
  limit path hlong := by
    unfold treeView
    dsimp only
    exact ⟨if_neg fun h => not_lt.mpr hlong h.1, if_neg (not_lt.mpr hlong)⟩

end VitaMTP
