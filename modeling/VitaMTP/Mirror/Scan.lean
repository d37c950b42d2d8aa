import VitaMTP.Database.FiniteTree
import VitaMTP.Mirror.Disk

/-! A scan lists what the file system holds. -/
namespace VitaMTP
open ParentFirst Relation

/-- The view shows the directory at the path `root` as it is in `t`: its visible entries, each
once, and their kinds, and those of its folders. A path that is too long leads nowhere. -/
structure Shows (view : DirView) (t : FileTree CString) (root : CString) (base : List CString) :
    Prop where
  stat : ∀ comps name, (∀ n ∈ comps, VisibleName n) → VisibleName name →
    (view.stat (joinPath (diskPath root comps) name)).map Stat.isDir =
      (t.kind (base ++ (comps ++ [name]))).map (· == .folder)
  opendir : ∀ comps, (∀ n ∈ comps, VisibleName n) → t.kind (base ++ comps) = some .folder →
    ∃ names, view.opendir (diskPath root comps ++ ['/']) = some names ∧ names.Nodup ∧
      ∀ name, name.head? ≠ some '.' →
        (name ∈ names ↔ VisibleName name ∧ (t.kind (base ++ (comps ++ [name]))).isSome)
  noDir : ∀ comps, (∀ n ∈ comps, VisibleName n) → t.kind (base ++ comps) ≠ some .folder →
    view.opendir (diskPath root comps ++ ['/']) = none
  limit : ∀ path, PATH_MAX ≤ path.length → view.opendir path = none ∧ view.stat path = none

/-- What can be seen strictly below `comps`. -/
def seenBelow (t : FileTree CString) (base comps p : List CString) : Option FileKind :=
  if comps <+: p ∧ comps ≠ p then seen t base p else none

/-- What can be seen at the names below `comps`, and under them. -/
def seenUnder (t : FileTree CString) (base comps : List CString) (names : List CString)
    (p : List CString) : Option FileKind :=
  if ∃ name ∈ names, name.head? ≠ some '.' ∧ comps ++ [name] <+: p then seen t base p else none

/-- The object of a directory, at its place and no file. -/
structure CmaObject.DirectoryAt (o : CmaObject) (root : CString) : Prop where
  path : o.path = diskPath root o.comps
  visible : ∀ n ∈ o.comps, VisibleName n
  isFile : o.isFile = false

/-- The objects of a block are those that can be seen strictly below a directory. -/
structure Block.Lists (b : Block) (f : List CString → Option FileKind) (c : Category) : Prop where
  places : Enumerates f (b.1.map CmaObject.place)
  plain : ∀ o ∈ b.1, o.Plain c

section entries

variable {view : DirView} {t : FileTree CString} {root : CString} {base comps p : List CString}
  {c : Category}

theorem seenBelow_none (h : t.kind (base ++ comps) ≠ some .folder) :
    seenBelow t base comps p = none := by
  unfold seenBelow
  split
  · rename_i hp
    obtain ⟨⟨r, rfl⟩, hne⟩ := hp
    rw [Option.eq_none_iff_forall_ne_some]
    intro k hk
    obtain ⟨-, -, hkind⟩ := seen_eq_some.mp hk
    refine h (t.kind_of_append (r := r) ?_ fun hnil => hne (by simp [hnil]))
    rw [List.append_assoc, hkind]
    rfl
  · rfl

theorem Block.Lists.cons {o : CmaObject} {b : Block} (h : b.Lists (seenBelow t base o.comps) c)
    (hseen : seen t base o.comps = some o.kind) (ho : o.Plain c) (total : ULong) :
    Block.Lists (o :: b.1, total)
      (fun p => if o.comps <+: p then seen t base p else none) c := by
  constructor
  · have hself : Enumerates (fun p => if p = o.comps then some o.kind else none) [o.place] :=
      .singleton (if_pos rfl) fun p hp => if_neg hp
    refine hself.union h.places (fun p => ?_) fun p => ?_
    · by_cases hp : p = o.comps
      · right
        rw [hp, seenBelow, if_neg]
        simp
      · exact Or.inl (if_neg hp)
    · by_cases hp : p = o.comps
      · simp [hp, hseen]
      · rw [if_neg hp, Option.none_or]
        refine if_congr ?_ rfl rfl
        exact ⟨fun hpre => ⟨hpre, Ne.symm hp⟩, And.left⟩
  · intro x hx
    rcases List.mem_cons.mp hx with rfl | hx
    · exact ho
    · exact h.plain x hx

theorem Block.Lists.append {b b' : Block} {name : CString} {names : List CString}
    (h : b.Lists (fun p => if comps ++ [name] <+: p then seen t base p else none) c)
    (h' : b'.Lists (seenUnder t base comps names) c) (hname : name ∉ names)
    (hvisible : name.head? ≠ some '.') (total : ULong) :
    Block.Lists (b.1 ++ b'.1, total) (seenUnder t base comps (name :: names)) c := by
  constructor
  · rw [List.map_append]
    refine h.places.union h'.places (fun p => ?_) fun p => ?_
    · by_cases hp : comps ++ [name] <+: p
      · right
        refine if_neg ?_
        rintro ⟨name', hmem, -, hp'⟩
        have heq := (List.prefix_of_prefix_length_le hp hp' (by simp)).eq_of_length (by simp)
        obtain rfl := List.singleton_inj.mp (List.append_cancel_left heq)
        exact hname hmem
      · exact Or.inl (if_neg hp)
    · unfold seenUnder
      by_cases hp : comps ++ [name] <+: p
      · rw [if_pos ⟨name, by simp, hvisible, hp⟩, if_pos hp]
        split
        · exact Option.or_self.symm
        · exact Option.or_none.symm
      · rw [if_neg hp, Option.none_or]
        refine if_congr ?_ rfl rfl
        simp only [List.mem_cons, exists_eq_or_imp, hp, and_false, false_or]
  · intro x hx
    exact (List.mem_append.mp hx).elim (h.plain x) (h'.plain x)

theorem newObject_seen (hshows : Shows view t root base) {last : CmaObject}
    (hlast : last.DirectoryAt root) (c : Category) (count : ℤ) {name : CString}
    (hname : VisibleName name) {statbuf : Stat}
    (hstat : view.stat (joinPath last.path name) = some statbuf) :
    let o := newObject count last name statbuf.size statbuf.dataType
    seen t base o.comps = some o.kind ∧ o.Plain c ∧ (o.isFolder = true → o.DirectoryAt root) := by
  have hcomps := newObject_comps count last statbuf.size statbuf.dataType hname.2.1
  have hvisible := visible_concat hlast.visible hname
  have hkind := hshows.stat last.comps name hlast.visible hname
  rw [← hlast.path, hstat, Option.map_some] at hkind
  obtain ⟨k, hk, hdir⟩ := Option.map_eq_some_iff.mp hkind.symm
  have hseen : seen t base (last.comps ++ [name]) = some k := by
    rw [seen_of_visible (by simp) hvisible, hk]
  have hpath : (newObject count last name statbuf.size statbuf.dataType).path =
      diskPath root (last.comps ++ [name]) := by
    rw [diskPath_concat, ← hlast.path]
    rfl
  have htype : statbuf.dataType = if k = .folder then DataType.Folder else DataType.File := by
    unfold Stat.dataType
    rw [← hdir]
    simp
  dsimp only
  rw [hcomps, hseen]
  cases k with
  | folder =>
    have htype : statbuf.dataType = DataType.Folder := htype
    rw [htype] at hcomps hpath ⊢
    have hfile := (newObject_isFile count last name statbuf.size).trans hlast.isFile
    refine ⟨by rw [newFolder_kind], newFolder_plain c count hname hlast.isFile _,
      fun _ => ⟨by rw [hpath, hcomps], by rwa [hcomps], hfile⟩⟩
  | file =>
    have htype : statbuf.dataType = DataType.File := htype
    rw [htype]
    refine ⟨by rw [newFile_kind], newFile_plain c count last hname _, fun hfolder => ?_⟩
    rw [newFile_isFolder] at hfolder
    exact absurd hfolder (by decide)

theorem entriesIn_lists {below : ℤ → CmaObject → Option Block} (hshows : Shows view t root base)
    (hbelow : ∀ count o b, o.DirectoryAt root → below count o = some b →
      b.Lists (seenBelow t base o.comps) c)
    {last : CmaObject} (hlast : last.DirectoryAt root) {count : ℤ} {names : List CString}
    (hnodup : names.Nodup)
    (hnames : ∀ name ∈ names, name.head? ≠ some '.' → VisibleName name ∧
      (t.kind (base ++ (last.comps ++ [name]))).isSome)
    {b : Block}
    (h : entriesIn view below last count (last.path ++ ['/']) names = some b) :
    b.Lists (seenUnder t base last.comps names) c := by
  induction names generalizing count b with
  | nil =>
    obtain rfl : ([], 0) = b := by simpa [entriesIn] using h
    exact ⟨.nil fun p => if_neg (by simp), by simp⟩
  | cons name names ih =>
    obtain ⟨hnotin, hnodup⟩ := List.nodup_cons.mp hnodup
    have hrest := fun n hn => hnames n (List.mem_cons_of_mem name hn)
    simp only [entriesIn] at h
    split_ifs at h with hvisible
    · have hothers := ih hnodup hrest h
      refine ⟨hothers.places.congr fun p => if_congr ?_ rfl rfl, hothers.plain⟩
      simp [hvisible]
    · obtain ⟨hname, hsome⟩ := hnames name (by simp) hvisible
      have hbuffer : last.path ++ ['/'] ++ name = joinPath last.path name := by simp [joinPath]
      have hisDir := hshows.stat last.comps name hlast.visible hname
      rw [← hlast.path] at hisDir
      obtain ⟨k, hk⟩ := Option.isSome_iff_exists.mp hsome
      rw [hk, Option.map_some, Option.map_eq_some_iff] at hisDir
      obtain ⟨statbuf, hstat, -⟩ := hisDir
      rw [hbuffer, hstat] at h
      simp only [Option.bind_eq_bind, Option.bind_eq_some_iff] at h
      obtain ⟨inside, hin, others, hout, hb⟩ := h
      obtain rfl := Option.some.inj hb
      obtain ⟨hseen, hplain, hdir⟩ := newObject_seen hshows hlast c count hname hstat
      have hcomps := newObject_comps count last statbuf.size statbuf.dataType hname.2.1
      generalize newObject count last name statbuf.size statbuf.dataType = current at *
      have hinside : inside.Lists (seenBelow t base current.comps) c := by
        cases hfolder : current.isFolder with
        | true =>
          rw [hfolder] at hin
          exact hbelow _ _ _ (hdir hfolder) hin
        | false =>
          rw [hfolder] at hin
          obtain rfl := Option.some.inj hin
          refine ⟨.nil fun p => seenBelow_none fun hkind => ?_, by simp⟩
          rw [(seen_eq_some.mp hseen).2.2, CmaObject.kind, hfolder] at hkind
          simp at hkind
      have hentry := hinside.cons (o := current.addSize inside.2) hseen (hplain.addSize inside.2) 0
      have hcomps' : (current.addSize inside.2).comps = last.comps ++ [name] := hcomps
      rw [hcomps'] at hentry
      exact hentry.append (ih hnodup hrest hout) hnotin hvisible _

theorem entriesBelow_lists (hshows : Shows view t root base) {n : ℕ} {last : CmaObject}
    (hlast : last.DirectoryAt root) {count : ℤ} {b : Block}
    (h : entriesBelow view n count last = some b) :
    b.Lists (seenBelow t base last.comps) c := by
  induction n generalizing last count b with
  | zero => simp [entriesBelow] at h
  | succ n ih =>
    simp only [entriesBelow] at h
    split_ifs at h
    by_cases hfolder : t.kind (base ++ last.comps) = some .folder
    · obtain ⟨names, hdir, hnodup, hnames⟩ := hshows.opendir last.comps hlast.visible hfolder
      rw [← hlast.path] at hdir
      rw [hdir] at h
      have hin := entriesIn_lists (c := c) hshows (fun count o b ho hb => ih ho hb) hlast hnodup
        (fun name hmem hvisible => (hnames name hvisible).mp hmem) h
      refine ⟨hin.places.congr fun p => ?_, hin.plain⟩
      unfold seenBelow seenUnder
      by_cases hseen : seen t base p = none
      · rw [hseen, ite_self, ite_self]
      · refine if_congr ⟨?_, ?_⟩ rfl rfl
        · rintro ⟨⟨r, rfl⟩, hne⟩
          obtain ⟨k, hk⟩ := Option.ne_none_iff_exists'.mp hseen
          obtain ⟨-, hvisible, hkind⟩ := seen_eq_some.mp hk
          obtain ⟨name, r, rfl⟩ := List.exists_cons_of_ne_nil (l := r) fun hnil =>
            hne (by simp [hnil])
          have hname : VisibleName name := hvisible name (by simp)
          have hpre : last.comps ++ [name] <+: last.comps ++ name :: r := ⟨r, by simp⟩
          refine ⟨name, (hnames name hname.2.2).mpr ⟨hname, ?_⟩, hname.2.2, hpre⟩
          refine t.isSome_of_append (r := r) ?_
          have hassoc :
              base ++ (last.comps ++ [name]) ++ r = base ++ (last.comps ++ name :: r) := by
            simp
          rw [hassoc, hkind]
          rfl
        · rintro ⟨name, -, -, hpre⟩
          refine ⟨(List.prefix_append last.comps [name]).trans hpre, fun he => ?_⟩
          have := hpre.length_le
          rw [← he] at this
          simp at this
    · have hdir := hshows.noDir last.comps hlast.visible hfolder
      rw [← hlast.path] at hdir
      rw [hdir] at h
      obtain rfl : ([], 0) = b := Option.some.inj h
      exact ⟨.nil fun p => seenBelow_none hfolder, by simp⟩

/-- A directory in which everything is less than `n` deep nests less than `n` deep: there is no
directory at a file. -/
theorem Shows.nests (hshows : Shows view t root base) {n : ℕ} {comps : List CString}
    (hcomps : ∀ n ∈ comps, VisibleName n) (hpos : 0 < n)
    (hdepth : ∀ r, r ≠ [] → (seen t base (comps ++ r)).isSome → r.length < n) :
    view.Nests n (diskPath root comps) := by
  induction n generalizing comps with
  | zero => omega
  | succ n ih =>
    intro names hdir name hmem hvisible
    by_cases hfolder : t.kind (base ++ comps) = some .folder
    · obtain ⟨names', hdir', -, hnames⟩ := hshows.opendir comps hcomps hfolder
      obtain rfl : names = names' := Option.some.inj (hdir.symm.trans hdir')
      obtain ⟨hname, hsome⟩ := (hnames name hvisible).mp hmem
      have hconcat := visible_concat hcomps hname
      rw [← seen_of_visible (by simp) hconcat] at hsome
      have hn := hdepth [name] (by simp) hsome
      rw [List.length_singleton] at hn
      rw [← diskPath_concat]
      refine ih hconcat (by omega) fun r _ hr => ?_
      have hlen := hdepth (name :: r) (by simp) (by simpa using hr)
      rw [List.length_cons] at hlen
      omega
    · rw [hshows.noDir comps hcomps hfolder] at hdir
      simp at hdir

theorem Shows.stat_isSome (hshows : Shows view t root base) (hcomps : ∀ n ∈ comps, VisibleName n)
    {names : List CString} (hopen : view.opendir (diskPath root comps ++ ['/']) = some names)
    {name : CString} (hname : name ∈ names) (hvisible : name.head? ≠ some '.') :
    VisibleName name ∧ (view.stat (joinPath (diskPath root comps) name)).isSome := by
  by_cases hfolder : t.kind (base ++ comps) = some .folder
  · obtain ⟨names', hopen', -, hnames⟩ := hshows.opendir comps hcomps hfolder
    obtain rfl : names = names' := Option.some.inj (hopen.symm.trans hopen')
    obtain ⟨hname, hkind⟩ := (hnames name hvisible).mp hname
    refine ⟨hname, ?_⟩
    rw [← Option.isSome_map (f := Stat.isDir), hshows.stat comps name hcomps hname,
      Option.isSome_map]
    exact hkind
  · rw [hshows.noDir comps hcomps hfolder] at hopen
    simp at hopen

theorem Shows.uncut_eq_nil (hshows : Shows view t root base)
    (hcomps : ∀ n ∈ comps, VisibleName n) {q r : List CString}
    (hopen : view.opendir (diskPath root comps ++ ['/']) = some (q ++ r)) :
    view.uncut (diskPath root comps) q = [] :=
  DirView.uncut_eq_nil fun _ hn hvisible =>
    (hshows.stat_isSome hcomps hopen (List.mem_append_left _ hn) hvisible).2

/-- What the scan finds in a directory is there, so its path is not too long. -/
theorem Shows.fits (hshows : Shows view t root base) (hroot : (root ++ ['/']).length < PATH_MAX) :
    view.Fits root := by
  have hreached : ∀ dir, ReflTransGen view.GoesTo root dir → (dir ++ ['/']).length < PATH_MAX ∧
      ∃ comps, (∀ n ∈ comps, VisibleName n) ∧ dir = diskPath root comps := by
    intro dir hdir
    induction hdir with
    | refl => exact ⟨hroot, [], by simp, (diskPath_nil root).symm⟩
    | tail _ hsub ih =>
      obtain ⟨-, comps, hcomps, rfl⟩ := ih
      obtain ⟨q, name, r, hopen, hvisible, hkind, rfl⟩ := hsub
      obtain ⟨hname, -⟩ := hshows.stat_isSome hcomps hopen (by simp) hvisible
      have hconcat := visible_concat hcomps hname
      rw [hshows.uncut_eq_nil hcomps hopen, List.nil_append, DirView.kindAt,
        hshows.stat comps name hcomps hname, Option.map_eq_some_iff] at hkind
      obtain ⟨k, hk, hfolder⟩ := hkind
      obtain rfl : k = .folder := by simpa using hfolder
      obtain ⟨names, hdir, -⟩ := hshows.opendir _ hconcat hk
      rw [diskPath_concat] at hdir
      refine ⟨not_le.mp fun hlong => ?_, _, hconcat, (diskPath_concat ..).symm⟩
      rw [(hshows.limit _ hlong).1] at hdir
      simp at hdir
  intro dir hdir
  obtain ⟨hslash, comps, hcomps, rfl⟩ := hreached dir hdir
  refine ⟨hslash, fun q name r hopen hvisible => not_le.mp fun hlong => ?_⟩
  have hsome := (hshows.stat_isSome hcomps hopen (by simp) hvisible).2
  rw [hshows.uncut_eq_nil hcomps hopen, List.nil_append] at hlong
  rw [(hshows.limit _ hlong).2] at hsome
  simp at hsome

end entries

section categories

variable {paths : CmaPaths} {uuid : CString} {view : DirView} {n : ℕ} {db db₀ : Database}

theorem initDatabase_objects (paths : CmaPaths) (uuid : CString) (c : Category) :
    (initDatabase paths uuid).objects c = [] := by
  rw [initDatabase_eq]
  rfl

/-- A scan of categories that are still empty fills each of them with one block. -/
theorem scans_objects {cs : List Category} (hcs : cs.Nodup) (h : WellFormed paths uuid db₀)
    (hempty : ∀ c ∈ cs, db₀.objects c = [])
    (hdb : cs.foldlM (fun db c => addEntriesForDirectory view c n db c.ohfi) db₀ = some db) :
    (∀ c ∈ cs, ∃ count m b, IsMaster paths uuid c m ∧ entriesBelow view n count m = some b ∧
      db.objects c = b.1) ∧ ∀ c ∉ cs, db.objects c = db₀.objects c := by
  induction cs generalizing db₀ with
  | nil =>
    obtain rfl := Option.some.inj hdb
    simp
  | cons c cs ih =>
    obtain ⟨hc, hcs⟩ := List.nodup_cons.mp hcs
    rw [List.foldlM_cons, Option.bind_eq_bind, Option.bind_eq_some_iff] at hdb
    obtain ⟨db₁, hentries, hdb⟩ := hdb
    obtain ⟨m, hm, hid, hmaster⟩ := h.master_mem c
    have h₁ := h.addEntriesForDirectory hm (hid ▸ hentries)
    rw [← hid, addEntriesForDirectory_eq view c n db₀ m (h.counted_list c) (h.get?_eq hm),
      Option.map_eq_some_iff] at hentries
    obtain ⟨b, hb, rfl⟩ := hentries
    rw [h.scan_grown hm hmaster (entriesBelow_scanned hb).numbered b.2] at h₁ hdb
    have hself : (db₀.grown c m.ohfi b.2 b.1 (db₀.ohfiCount + b.1.length)).objects c = b.1 := by
      obtain ⟨m', hm', -⟩ := h.master c
      rw [Database.objects, Database.grown_lists_self, hm', hempty c (by simp)]
      rfl
    have hother : ∀ d, d ≠ c →
        (db₀.grown c m.ohfi b.2 b.1 (db₀.ohfiCount + b.1.length)).objects d = db₀.objects d := by
      intro d hd
      rw [Database.objects, Database.grown_lists_of_ne hd]
      rfl
    have hne : ∀ d ∈ cs, d ≠ c := by
      rintro d hd rfl
      exact hc hd
    obtain ⟨hin, hout⟩ := ih hcs h₁ (fun d hd => by
      rw [hother d (hne d hd), hempty d (List.mem_cons_of_mem c hd)]) hdb
    constructor
    · intro d hd
      rcases List.mem_cons.mp hd with rfl | hd
      · exact ⟨_, m, b, hmaster, hb, (hout d hc).trans hself⟩
      · exact hin d hd
    · intro d hd
      rw [List.mem_cons, not_or] at hd
      rw [hout d hd.2, hother d hd.1]

theorem roots_fit (hdb : createDatabase view n paths uuid = some db) (c : Category) :
    (c.path paths uuid ++ ['/']).length < PATH_MAX := by
  obtain ⟨count, m, b, hm, hb, -⟩ := (scans_objects (by decide) (.init paths uuid)
    (fun c _ => initDatabase_objects paths uuid c) hdb).1 c (Category.mem_all c)
  cases n with
  | zero => simp [entriesBelow] at hb
  | succ n =>
    simp only [entriesBelow] at hb
    split_ifs at hb with hlong
    rw [← hm.path]
    omega

end categories

section refresh

variable {paths : CmaPaths} {uuid : CString} {base : Category → List CString}
  {t : FileTree CString} {view : DirView} {n : ℕ} {db : Database}

theorem master_directoryAt {c : Category} {m : CmaObject} (hm : IsMaster paths uuid c m) :
    m.DirectoryAt (c.path paths uuid) := by
  have hcomps : m.comps = [] := CmaObject.comps_of_none hm.path_none
  refine ⟨by rw [hm.path, hcomps, diskPath_nil], by simp [hcomps], hm.isFile⟩

theorem mirrors_createDatabase
    (hshows : ∀ c : Category, Shows view t (c.path paths uuid) (base c))
    (hdb : createDatabase view n paths uuid = some db) : MirrorsDisk paths uuid base t db := by
  have hwf : WellFormed paths uuid db := .createDatabase hdb
  have hlists : ∀ c, Block.Lists (db.objects c, 0) (seen t (base c)) c := by
    intro c
    obtain ⟨count, m, b, hm, hb, hobjects⟩ := (scans_objects (by decide) (.init paths uuid)
      (fun c _ => initDatabase_objects paths uuid c) hdb).1 c (Category.mem_all c)
    have hb := entriesBelow_lists (c := c) (hshows c) (master_directoryAt hm) hb
    refine ⟨?_, fun o ho => hb.plain o (hobjects ▸ ho)⟩
    rw [hobjects]
    refine hb.places.congr fun p => ?_
    rw [seenBelow, CmaObject.comps_of_none hm.path_none]
    cases p with
    | nil => simp [seen]
    | cons a p => simp
  refine ⟨hwf, WellFormed.joined_createDatabase hdb, fun c o ho => ?_, fun c => (hlists c).places⟩
  rcases hwf.mem_lists.mp ho with ⟨hm, -⟩ | hobj
  · constructor
    · intro name hname
      rw [hm.name_none] at hname
      simp at hname
    · exact fun hne => absurd hm.ohfi hne
  · exact (hlists c).plain o hobj

/-- Everything that a mirrored file system shows is read by a refresh with enough steps. -/
theorem createDatabase_isSome (hshows : ∀ c : Category, Shows view t (c.path paths uuid) (base c))
    (hroots : ∀ c : Category, (c.path paths uuid ++ ['/']).length < PATH_MAX)
    (h : MirrorsDisk paths uuid base t db) : ∃ n, (createDatabase view n paths uuid).isSome := by
  have hbound : ∃ n, ∀ c, ∀ x ∈ db.objects c, x.comps.length < n := by
    refine ⟨(Category.all.flatMap fun c => (db.objects c).map fun x => x.comps.length).sum + 1,
      fun c x hx => Nat.lt_succ_of_le (List.single_le_sum (by simp) _ ?_)⟩
    exact List.mem_flatMap.mpr ⟨c, Category.mem_all c, List.mem_map_of_mem hx⟩
  obtain ⟨n, hn⟩ := hbound
  have hnests (c : Category) : view.Nests (n + 1) (c.path paths uuid) := by
    rw [← diskPath_nil (c.path paths uuid)]
    refine (hshows c).nests (by simp) (by omega) fun r _ hsome => ?_
    obtain ⟨x, hx, rfl⟩ := h.found hsome
    have := hn c x hx
    omega
  exact ⟨n + 1, (createDatabase_isSome_iff hnests).mpr fun c => (hshows c).fits (hroots c)⟩

end refresh

end VitaMTP
