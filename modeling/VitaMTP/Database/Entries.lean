import VitaMTP.Database.Scan

/-! What the scan makes its objects from. -/
namespace VitaMTP

/-- Every visible entry of a directory can be examined. -/
def DirView.Complete (view : DirView) : Prop :=
  ∀ dir names, view.opendir dir = some names → ∀ name ∈ names, name.head? ≠ some '.' →
    (view.stat (dir ++ name)).isSome

/-- What `stat` makes of a path: nothing, a file or a directory. -/
def DirView.kindAt (view : DirView) (path : CString) : Option Bool :=
  (view.stat path).map Stat.isDir

/-- What stands behind the slash in `fullpath` after the round of `name`. -/
def DirView.uncutBy (view : DirView) (dir rest name : CString) : CString :=
  if name.head? = some '.' then rest
  else if (view.stat (joinPath dir (rest ++ name))).isSome then [] else rest ++ name

/-- What stands there after the rounds of `names`. -/
def DirView.uncut (view : DirView) (dir : CString) (names : List CString) : CString :=
  names.foldl (view.uncutBy dir) []

/-- The scan took `statbuf` for `o`, from the path in the buffer when it came to the entry. -/
def CmaObject.FoundWith (o : CmaObject) (view : DirView) (statbuf : Stat) : Prop :=
  ∃ dir p name r, view.opendir (dir ++ ['/']) = some (p ++ name :: r) ∧ name.head? ≠ some '.' ∧
    o.path = joinPath dir name ∧ view.stat (joinPath dir (view.uncut dir p ++ name)) = some statbuf

/-- The object was made from a visible entry of the directory of `last`. -/
def FromEntry (view : DirView) (o : CmaObject) : Prop :=
  ∃ last p name r statbuf count size,
    view.opendir (last.path ++ ['/']) = some (p ++ name :: r) ∧ name.head? ≠ some '.' ∧
    view.stat (joinPath last.path (view.uncut last.path p ++ name)) = some statbuf ∧
    o = (newObject count last name statbuf.size statbuf.dataType).addSize size

section entries

variable {view : DirView}

theorem DirView.uncut_concat (dir : CString) (p : List CString) (name : CString) :
    view.uncut dir (p ++ [name]) = view.uncutBy dir (view.uncut dir p) name := by
  simp [uncut]

theorem DirView.uncut_eq_nil {dir : CString} {p : List CString}
    (h : ∀ name ∈ p, name.head? ≠ some '.' → (view.stat (joinPath dir name)).isSome) :
    view.uncut dir p = [] := by
  induction p using List.reverseRecOn with
  | nil => rfl
  | append_singleton p name ih =>
    rw [uncut_concat, ih fun n hn => h n (List.mem_append_left _ hn), uncutBy, List.nil_append]
    by_cases hvisible : name.head? = some '.'
    · rw [if_pos hvisible]
    · rw [if_neg hvisible, if_pos (h name (by simp) hvisible)]

/-- Where nothing in front has failed, an object has the `stat` of its own path. -/
theorem CmaObject.FoundWith.own {o : CmaObject} {statbuf : Stat} (h : o.FoundWith view statbuf)
    (hcomplete : view.Complete) : view.stat o.path = some statbuf := by
  obtain ⟨dir, p, name, r, hopen, -, hpath, hstat⟩ := h
  have hnil : view.uncut dir p = [] := by
    refine DirView.uncut_eq_nil fun n hn hvisible => ?_
    have hsome := hcomplete _ _ hopen n (by simp [hn]) hvisible
    rwa [List.append_assoc, List.singleton_append] at hsome
  rw [hnil, List.nil_append, ← hpath] at hstat
  exact hstat

theorem FromEntry.foundWith {o : CmaObject} (h : FromEntry view o) :
    ∃ statbuf, o.FoundWith view statbuf ∧ o.insertedSize = statbuf.size := by
  obtain ⟨last, p, name, r, statbuf, count, size, hopen, hvisible, hstat, rfl⟩ := h
  exact ⟨statbuf, ⟨last.path, p, name, r, hopen, hvisible, rfl, hstat⟩, rfl⟩

theorem entriesIn_fromEntry {below : ℤ → CmaObject → Option Block}
    (hbelow : ∀ count last b, below count last = some b → ∀ o ∈ b.1, FromEntry view o)
    {last : CmaObject} {count : ℤ} {p names : List CString} {b : Block}
    (hall : view.opendir (last.path ++ ['/']) = some (p ++ names))
    (h : entriesIn view below last count (joinPath last.path (view.uncut last.path p)) names =
      some b) :
    ∀ o ∈ b.1, FromEntry view o := by
  induction names generalizing count p b with
  | nil =>
    obtain rfl : ([], 0) = b := by simpa [entriesIn] using h
    simp
  | cons name names ih =>
    have hrest : view.opendir (last.path ++ ['/']) = some ((p ++ [name]) ++ names) := by
      rw [hall, List.append_assoc, List.singleton_append]
    have hjoin : joinPath last.path (view.uncut last.path p) ++ name =
        joinPath last.path (view.uncut last.path p ++ name) := by
      simp [joinPath]
    simp only [entriesIn] at h
    split_ifs at h with hhidden
    · refine @ih count _ _ hrest ?_
      rwa [DirView.uncut_concat, DirView.uncutBy, if_pos hhidden]
    · rw [hjoin] at h
      cases hstat : view.stat (joinPath last.path (view.uncut last.path p ++ name)) with
      | none =>
        refine @ih count _ _ hrest ?_
        rw [DirView.uncut_concat, DirView.uncutBy, if_neg hhidden, hstat]
        simpa [hstat] using h
      | some statbuf =>
        simp only [hstat, Option.bind_eq_bind, Option.bind_eq_some_iff] at h
        obtain ⟨inside, hin, others, hout, hb⟩ := h
        obtain rfl := Option.some.inj hb
        have hcut : view.uncut last.path (p ++ [name]) = [] := by
          rw [DirView.uncut_concat, DirView.uncutBy, if_neg hhidden, hstat]
          rfl
        have hothers := ih hrest (hcut ▸ hout)
        intro o ho
        simp only [List.mem_cons, List.mem_append] at ho
        rcases ho with rfl | ho | ho
        · exact ⟨last, p, name, names, statbuf, count, inside.2, hall, hhidden, hstat, rfl⟩
        · cases hfolder : (newObject count last name statbuf.size statbuf.dataType).isFolder with
          | true =>
            rw [hfolder] at hin
            exact hbelow _ _ _ hin o ho
          | false =>
            rw [hfolder] at hin
            obtain rfl := Option.some.inj hin
            simp at ho
        · exact hothers o ho

theorem entriesBelow_fromEntry {n : ℕ} {last : CmaObject} {count : ℤ} {b : Block}
    (h : entriesBelow view n count last = some b) : ∀ o ∈ b.1, FromEntry view o := by
  induction n generalizing count last b with
  | zero => simp [entriesBelow] at h
  | succ n ih =>
    simp only [entriesBelow] at h
    split_ifs at h
    cases hdir : view.opendir (last.path ++ ['/']) with
    | none =>
      obtain rfl : ([], 0) = b := by simpa [hdir] using h
      simp
    | some names =>
      rw [hdir] at h
      exact entriesIn_fromEntry (fun _ _ _ => ih) (p := []) hdir h

end entries

end VitaMTP
