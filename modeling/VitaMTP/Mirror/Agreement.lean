import VitaMTP.Events.Totals
import VitaMTP.Mirror.TreePosix

/-! The database that is kept up to date request by request has the entries that a refresh would
find, as long as nothing is created or moved onto something that is there. -/
namespace VitaMTP
open ParentFirst Runs

/-- An entry of a listing: the relative path, and whether it is a folder and a file. -/
def CmaObject.entry (o : CmaObject) : Option CString × Bool × Bool :=
  (o.metadata.path, o.isFolder, o.isFile)

/-- The directories of the categories lie apart, and the way to each of them does not lead through
one of them. -/
structure RootsApart (paths : CmaPaths) (uuid : CString) (locate : CString → List CString) :
    Prop where
  apart : ∀ c d : Category, locate (c.path paths uuid) <+: locate (d.path paths uuid) → c = d
  way : ∀ c : Category, ∀ dir ∈ slashPrefixes (c.path paths uuid),
    ¬ Interior (fun d => locate (d.path paths uuid)) (locate dir)

/-- The view shows the directories of all categories. -/
def ShowsCategories (paths : CmaPaths) (uuid : CString) (locate : CString → List CString)
    (t : FileTree CString) (view : DirView) : Prop :=
  ∀ c : Category, Shows view t (c.path paths uuid) (locate (c.path paths uuid))

/-- A refresh on the file system `t` ends with the entries that are in the database, in some order;
no two of them have the same path, and a path leads back to its object. -/
structure AgreesWithRefresh (paths : CmaPaths) (uuid : CString) (locate : CString → List CString)
    (t : FileTree CString) (db : Database) : Prop where
  ends : ∀ view, ShowsCategories paths uuid locate t view →
    ∃ n, (createDatabase view n paths uuid).isSome
  entries : ∀ view, ShowsCategories paths uuid locate t view → ∀ n db',
    createDatabase view n paths uuid = some db' → ∀ c,
      ((db.objects c).map CmaObject.entry).Perm ((db'.objects c).map CmaObject.entry)
  distinct : ∀ c, ((db.objects c).map fun o => o.metadata.path).Nodup
  found : ∀ c, ∀ x ∈ db.objects c, ∀ path, x.metadata.path = some path →
    pathToObject db path c.ohfi = some (c, x)

/-- No object has the path of `name` in `root`. -/
def Free (db : Database) (c : Category) (root : CmaObject) (name : CString) : Prop :=
  ∀ x ∈ db.objects c, x.metadata.path ≠ some (root.relPrefix ++ name)

instance (db : Database) (c : Category) (root : CmaObject) (name : CString) :
    Decidable (Free db c root name) := by
  unfold Free
  infer_instance

section condition

variable {σ : Type} (posix : Posix σ) (tree : σ → FileTree CString)
  (locate : CString → List CString) (paths : CmaPaths) (uuid : CString)

/-- Deleting the path leaves nothing there. -/
def Removes (s : Host σ) (path : CString) : Prop :=
  (tree (posix.removeAll s.fs.state path)).kind (locate path) = none

instance (s : Host σ) (path : CString) : Decidable (Removes posix tree locate s path) := by
  unfold Removes
  infer_instance

/-- The names are visible and differ between siblings; a folder is created, and an object renamed,
where nothing has the path yet, the searches of a rename hit, and what is deleted or replaced goes
from the disk. -/
def OntoNothing (s : Host σ) : DeviceRequest → Prop
  | .operate (some ⟨cmd, ohfi, title⟩) => VisibleName title ∧
      ∀ p ∈ ohfiToObject s.db ohfi.toInt,
        (cmd = VITA_OPERATE_CREATE_FOLDER → Free s.db p.1 p.2 title) ∧
        (cmd = VITA_OPERATE_RENAME → ∀ root ∈ s.db.lists p.1, root.ohfi = p.2.ohfiParent →
          ∀ name, p.2.metadata.name = some name →
            RenameHits (p.1.path paths uuid) (s.db.lists p.1) root p.2 name title ∧
              (title = name ∨ Free s.db p.1 root title))
  | .delete event => ∀ p ∈ ohfiToObject s.db event.param2.toInt,
      Removes posix tree locate s p.2.path
  | .treat (some (ohfiParent, t)) => t.WellNamed ∧
      ∀ p ∈ ohfiToObject s.db ohfiParent.toInt, ∀ name ∈ t.name?,
        (t.isFolder = true → p.2 ∈ s.db.objects p.1 → Free s.db p.1 p.2 name) ∧
        ∀ q ∈ pathToObject s.db name p.2.ohfi, Removes posix tree locate s q.2.path
  | .part _ => False
  | _ => True

/-- A request that is answered with success, onto nothing. -/
def MirroredRequest (s : Host σ) (r : DeviceRequest) : Prop :=
  Completes posix s r = true ∧ OntoNothing posix tree locate paths uuid s r

end condition

section agreement

variable {paths : CmaPaths} {uuid : CString} {base : Category → List CString}
  {t : FileTree CString} {db db' : Database} {c : Category}

namespace MirrorsDisk

theorem entry_eq (h : MirrorsDisk paths uuid base t db) {x : CmaObject} (hx : x ∈ db.objects c) :
    x.entry = (some (['/'].intercalate x.place.1), x.place.2 == .folder, x.place.2 == .file) := by
  obtain ⟨-, path, -, hpath⟩ := (h.wellFormed.objects c x hx).named
  have hplain := (h.plain c x (WellFormed.mem_of_objects hx)).kind (h.wellFormed.ohfi_ne_master hx)
  rw [CmaObject.entry, hplain, hpath, ← CmaObject.intercalate_comps hpath]
  unfold CmaObject.place CmaObject.kind
  cases x.isFolder <;> rfl

theorem entries_perm (h : MirrorsDisk paths uuid base t db) (h' : MirrorsDisk paths uuid base t db')
    (c : Category) :
    ((db.objects c).map CmaObject.entry).Perm ((db'.objects c).map CmaObject.entry) := by
  have hplaces := ((h.places c).perm (h'.places c)).map fun e =>
    (some (['/'].intercalate e.1), e.2 == FileKind.folder, e.2 == FileKind.file)
  rw [List.map_map, List.map_map] at hplaces
  rwa [List.map_congr_left fun x hx => h.entry_eq hx,
    List.map_congr_left fun x hx => h'.entry_eq hx]

theorem path_inj (h : MirrorsDisk paths uuid base t db) {x y : CmaObject} (hx : x ∈ db.objects c)
    (hy : y ∈ db.objects c) (he : x.metadata.path = y.metadata.path) : x = y := by
  refine h.comps_inj hx hy ?_
  unfold CmaObject.comps
  rw [he]

theorem paths_nodup (h : MirrorsDisk paths uuid base t db) (c : Category) :
    ((db.objects c).map fun o => o.metadata.path).Nodup :=
  (h.distinct c).of_map.map_on fun _ hx _ hy he => h.path_inj hx hy he

theorem pathToObject_eq (h : MirrorsDisk paths uuid base t db) {x : CmaObject}
    (hx : x ∈ db.objects c) {path : CString} (hpath : x.metadata.path = some path) :
    pathToObject db path c.ohfi = some (c, x) := by
  rw [h.wellFormed.pathToObject_category]
  cases hfind : (db.objects c).find? (fun o => o.metadata.path == some path) with
  | none =>
    rw [List.find?_eq_none] at hfind
    exact absurd (by simp [hpath]) (hfind x hx)
  | some y =>
    have hy : y.metadata.path = some path := by simpa using List.find?_some hfind
    rw [h.path_inj (List.mem_of_find?_eq_some hfind) hx (hy.trans hpath.symm)]
    rfl

end MirrorsDisk

theorem MirrorsDisk.agrees {locate : CString → List CString}
    (h : MirrorsDisk paths uuid (fun c => locate (c.path paths uuid)) t db)
    (hroots : ∀ c : Category, (c.path paths uuid ++ ['/']).length < PATH_MAX) :
    AgreesWithRefresh paths uuid locate t db where
  ends _ hview := createDatabase_isSome hview hroots h
  entries _ hview _ _ hdb c := h.entries_perm (mirrors_createDatabase hview hdb) c
  distinct := h.paths_nodup
  found _ _ hx _ hpath := h.pathToObject_eq hx hpath

end agreement

section step

variable {σ : Type} {posix : Posix σ} {tree : σ → FileTree CString}
  {locate : CString → List CString} {paths : CmaPaths} {uuid : CString}
  {base : Category → List CString} {s s' : Host σ} {r : DeviceRequest} {msgs : List Message}
  {c : Category} {root x : CmaObject}

/-- The host works on a symlink-free disk with its categories apart, and mirrors it. -/
structure Mirroring (posix : Posix σ) (tree : σ → FileTree CString)
    (locate : CString → List CString) (paths : CmaPaths) (uuid : CString)
    (base : Category → List CString) (s : Host σ) : Prop where
  calls : posix.WorksOn tree locate
  places : ∀ c : Category, locate (c.path paths uuid) = base c
  apart : ∀ c d, base c <+: base d → c = d
  way : ∀ c : Category, ∀ d ∈ slashPrefixes (c.path paths uuid), ¬ Interior base (locate d)
  mirrors : MirrorsDisk paths uuid base (tree s.fs.state) s.db

namespace Mirroring

theorem locate_eq (h : Mirroring posix tree locate paths uuid base s) (hx : x ∈ s.db.lists c) :
    locate x.path = base c ++ x.comps :=
  (h.mirrors.passable h.calls h.places h.apart h.way x hx).1

theorem passable (h : Mirroring posix tree locate paths uuid base s) (hx : x ∈ s.db.lists c) :
    Passable base locate (tree s.fs.state) x.path :=
  (h.mirrors.passable h.calls h.places h.apart h.way x hx).2

theorem grown (h : Mirroring posix tree locate paths uuid base s) (hroot : root ∈ s.db.lists c)
    {os : List CmaObject} (hos : NewBlock s.db.ohfiCount root.ohfi os) {count : ℤ}
    (hcount : s.db.ohfiCount + os.length ≤ count) (bytes : ULong) {fs : Disk σ}
    (hj : (s.db.grown c root.ohfi bytes os count).Joined) (hplain : ∀ o ∈ os, o.Plain c)
    (hadds : Adds base (tree s.fs.state) (tree fs.state) c (os.map CmaObject.place))
    (hvisible : ∀ e ∈ os.map CmaObject.place, e.1 ≠ [] ∧ ∀ n ∈ e.1, VisibleName n) :
    Mirroring posix tree locate paths uuid base
      { db := s.db.grown c root.ohfi bytes os count, fs := fs } :=
  ⟨h.calls, h.places, h.apart, h.way,
    h.mirrors.grown h.apart hroot hos hcount bytes hj hplain hadds hvisible⟩

theorem visible_name (h : Mirroring posix tree locate paths uuid base s)
    (hroot : root ∈ s.db.lists c) {name : CString} (hname : VisibleName name) :
    ∀ n ∈ root.comps ++ [name], VisibleName n :=
  visible_concat (h.mirrors.visible hroot) hname

theorem created (h : Mirroring posix tree locate paths uuid base s) (hroot : root ∈ s.db.lists c)
    {title : CString} (htitle : VisibleName title) {folder : Bool}
    (hfree : folder = true → Free s.db c root title)
    (hok : (creation posix folder s.fs (joinPath root.path title)).1 = true) :
    Mirroring posix tree locate paths uuid base
      { db := (addToDatabase s.db c root title 0 (creationType folder)).1
        fs := (creation posix folder s.fs (joinPath root.path title)).2 } := by
  have hdir := h.locate_eq hroot
  have hj := h.mirrors.wellFormed.joined_addToDatabase h.mirrors.joined hroot title 0
    (creationType folder)
  rw [addToDatabase_eq, Database.append_eq_grown s.db c root.ohfi] at hj ⊢
  have hcomps := newObject_comps s.db.ohfiCount root 0 (creationType folder) htitle.2.1
  have hblock : NewBlock s.db.ohfiCount root.ohfi
      [newObject s.db.ohfiCount root title 0 (creationType folder)] :=
    .cons rfl rfl ⟨rfl, _, _, rfl, rfl⟩ (.nil _ _)
  have hvisible := h.visible_name hroot htitle
  have hplaces : ∀ k, (newObject s.db.ohfiCount root title 0 (creationType folder)).kind = k →
      [newObject s.db.ohfiCount root title 0 (creationType folder)].map CmaObject.place =
        [(root.comps ++ [title], k)] := by
    rintro k rfl
    rw [List.map_singleton, CmaObject.place, hcomps]
  cases folder with
  | true =>
    have hnone := h.mirrors.free hroot htitle (hfree rfl)
    have hadds := createNewDirectory_adds h.calls (h.passable hroot) htitle hdir hnone hok
    have hfile := h.mirrors.isFile_of_folder hroot fun hne =>
      hadds.parent (List.mem_singleton_self _) hne (by simp)
    have hkind := hplaces .folder (newFolder_kind ..)
    refine h.grown hroot hblock le_rfl 0 hj (fun o ho => ?_) (hkind ▸ hadds) ?_
    · obtain rfl := List.mem_singleton.mp ho
      exact newFolder_plain c _ htitle hfile 0
    · rw [hkind]
      simpa using hvisible
  | false =>
    have hadds := createNewFile_adds h.calls htitle hdir hok
    have hkind := hplaces .file (newFile_kind ..)
    refine h.grown hroot hblock le_rfl 0 hj (fun o ho => ?_) (hkind ▸ hadds) ?_
    · obtain rfl := List.mem_singleton.mp ho
      exact newFile_plain c _ root htitle 0
    · rw [hkind]
      simpa using hvisible

theorem removed (h : Mirroring posix tree locate paths uuid base s) (hx : x ∈ s.db.objects c)
    (hremoves : Removes posix tree locate s x.path) :
    Mirroring posix tree locate paths uuid base
      { db := s.db.setList c (withoutNodes x.ohfi (s.db.lists c))
        fs := deleteAll posix s.fs x.path } := by
  have hplace := h.locate_eq (WellFormed.mem_of_objects hx)
  refine ⟨h.calls, h.places, h.apart, h.way, h.mirrors.without h.apart hx ?_ fun place hnot => ?_⟩
  · rw [← hplace]
    exact hremoves
  · exact h.calls.removeAll s.fs.state x.path place (by rwa [hplace])

theorem renamed (h : Mirroring posix tree locate paths uuid base s) (hx : x ∈ s.db.objects c)
    (hroot : root ∈ s.db.lists c) (hparent : root.ohfi = x.ohfiParent)
    {name path title : CString} (hname : x.metadata.name = some name)
    (hpath : x.metadata.path = some path) (htitle : VisibleName title)
    (hhits : RenameHits (c.path paths uuid) (s.db.lists c) root x name title)
    (hfree : title = name ∨ Free s.db c root title) {db₁ : Database}
    (hrename : renameRootEntry s.db (c, x) none title = some db₁) {fs : σ}
    (hmove : posix.rename s.fs.state x.path (renamedPath x path name title) = some fs)
    (calls : List FsCall) :
    Mirroring posix tree locate paths uuid base
      { db := db₁, fs := { state := fs, calls := calls } } := by
  have hwf := h.mirrors.wellFormed
  have hj := h.mirrors.joined
  have hx' := h.locate_eq (WellFormed.mem_of_objects hx)
  have hdest : locate (renamedPath x path name title) = base c ++ (root.comps ++ [title]) := by
    rw [renamedPath, hwf.renamed_path hj hx hroot hparent hname hpath hhits,
      h.calls.locate_join _ _ htitle, h.locate_eq hroot, List.append_assoc]
  obtain ⟨db', heq, hwf₁⟩ := hwf.renameRootEntry hx none title
  obtain rfl := Option.some.inj (heq.symm.trans hrename)
  obtain ⟨db'', heq', hiff⟩ := hwf.renamedExactly_iff hj hx hroot hparent hname title
  obtain rfl := Option.some.inj (heq'.symm.trans hrename)
  refine ⟨h.calls, h.places, h.apart, h.way, h.mirrors.renamed h.apart hx hroot hparent hname htitle
    hwf₁ (hiff.mpr hhits) ?_⟩
  rcases hfree with rfl | hfree
  · left
    obtain ⟨n, hn, hrel, -⟩ := hj c x hx root hroot hparent
    obtain rfl := Option.some.inj (hname.symm.trans hn)
    have hcomps := CmaObject.comps_of_relPath htitle.2.1 hrel
    refine ⟨hcomps.symm, h.calls.rename_same _ _ _ _ hmove ?_⟩
    rw [hx', hdest, hcomps]
  · right
    have hnone := h.mirrors.free hroot htitle hfree
    have hmoved := h.calls.rename_free _ _ _ _ hmove (by rw [hdest, hnone])
    rw [hx', hdest] at hmoved
    exact ⟨hnone, hmoved⟩

/-! What a tree replaces goes, then the tree is added. -/

theorem cleared (h : Mirroring posix tree locate paths uuid base s) (hroot : root ∈ s.db.lists c)
    (name : CString)
    (hremoves : ∀ q ∈ pathToObject s.db name root.ohfi, Removes posix tree locate s q.2.path) :
    Mirroring posix tree locate paths uuid base (cleared posix s root.ohfi (some name)) := by
  rcases cleared_cases posix h.mirrors.wellFormed hroot name with ⟨-, he⟩ |
    ⟨temp, htemp, -, hfound, he⟩
  · rw [he]
    exact h
  · rw [he]
    exact h.removed htemp (hremoves (c, temp) hfound)

/-- Nothing is at the place of a folder that is received, if it was free or is replaced. -/
theorem cleared_free (h : Mirroring posix tree locate paths uuid base s)
    (hroot : root ∈ s.db.lists c) {name : CString} (hname : VisibleName name)
    (hfree : root ∈ s.db.objects c → Free s.db c root name)
    (hremoves : ∀ q ∈ pathToObject s.db name root.ohfi, Removes posix tree locate s q.2.path) :
    (tree (VitaMTP.cleared posix s root.ohfi (some name)).fs.state).kind
      (base c ++ (root.comps ++ [name])) = none := by
  have hwf := h.mirrors.wellFormed
  rcases cleared_cases posix hwf hroot name with ⟨hnone, he⟩ | ⟨temp, htemp, hm, hfound, he⟩
  · rw [he]
    refine h.mirrors.free hroot hname ?_
    rcases hwf.mem_lists.mp hroot with ⟨hm, -⟩ | hobj
    · rw [hm.ohfi, hwf.pathToObject_category, Option.map_eq_none_iff, List.find?_eq_none] at hnone
      intro x hx hpath
      rw [hwf.relPrefix_master hm] at hpath
      exact hnone x hx (by simp [hpath])
    · exact hfree hobj
  · rw [he]
    have hpath : temp.metadata.path = some (root.relPrefix ++ name) := by
      rw [hwf.relPrefix_master hm]
      rw [hm.ohfi, hwf.pathToObject_category, Option.map_eq_some_iff] at hfound
      obtain ⟨y, hy, heq⟩ := hfound
      obtain ⟨-, rfl⟩ := Prod.mk.inj heq
      simpa using List.find?_some hy
    have hcomps := CmaObject.comps_of_relPath hname.2.1 hpath
    have hgone := hremoves (c, temp) hfound
    rw [Removes, h.locate_eq (WellFormed.mem_of_objects htemp), hcomps] at hgone
    exact hgone

theorem received (h : Mirroring posix tree locate paths uuid base s) (hroot : root ∈ s.db.lists c)
    {t : DeviceObject} (ht : t.WellNamed)
    (hfree : ∀ name ∈ t.name?, t.isFolder = true → root ∈ s.db.objects c → Free s.db c root name)
    (hremoves : ∀ name ∈ t.name?, ∀ q ∈ pathToObject s.db name root.ohfi,
      Removes posix tree locate s q.2.path)
    (hreceive : vitaGetAllObjects posix c root.ohfi t s = some (.OK, s')) :
    Mirroring posix tree locate paths uuid base s' := by
  have hwf := h.mirrors.wellFormed
  have hreceives := vitaGetAllObjects_receives posix paths uuid t s s' c root .OK hwf hroot hreceive
  have hok := hreceives.ok.mp rfl
  have hdb := received_grown hwf hroot hreceive
  have hj := vitaGetAllObjects_related joinedTo_inherited hwf h.mirrors.joined hroot hreceive
  have hcount := cleared_ohfiCount posix hwf hroot t.name?
  have hmem := cleared_parent posix hwf hroot t.name?
  obtain ⟨db, fs⟩ := s'
  obtain rfl := hreceives.fs
  dsimp only at hdb hj
  subst hdb
  cases hn : t.name? with
  | none =>
    cases t with
    | unavailable =>
      unfold writeTree at hok
      simp at hok
    | file => simp [DeviceObject.name?] at hn
    | folder => simp [DeviceObject.name?] at hn
  | some name =>
    rw [hn] at hok hj hcount hmem
    have hname := ht.visible hn
    have hclear := h.cleared hroot name (hremoves name hn)
    have hnone := fun hfolder => h.cleared_free hroot hname (hfree name hn hfolder)
      (hremoves name hn)
    have hadds := writeTree_adds hclear.calls root.isFile (hclear.locate_eq hmem) t ht _
      (hclear.passable hmem) (fun hfolder name' hname' => by
        obtain rfl := Option.some.inj (hn.symm.trans hname')
        exact hnone hfolder) hok
    rw [← hcount] at hj ⊢
    have hplaces :=
      nodes_place (VitaMTP.cleared posix s root.ohfi (some name)).db.ohfiCount root t ht
    have hfile : t.isFolder = true → root.isFile = false := by
      intro hfolder
      cases t with
      | folder name' handle children =>
        by_contra hroot'
        rw [Bool.not_eq_false] at hroot'
        rw [hroot'] at hok
        unfold writeTree at hok
        simp at hok
      | _ => simp [DeviceObject.isFolder] at hfolder
    refine hclear.grown hmem (nodes_block _ root t) le_rfl _ hj (nodes_plain c _ t ht hfile)
      (hplaces ▸ hadds) ?_
    rw [hplaces]
    exact fun e he => ⟨places_ne_nil e he, places_visible (h.mirrors.visible hroot) t ht e he⟩

end Mirroring

theorem Handled.mirroring (hh : Handled posix s r s' msgs)
    (h : Mirroring posix tree locate paths uuid base s)
    (hok : ∃ m, msgs = [m] ∧ m.isOK = true) (hr : OntoNothing posix tree locate paths uuid s r) :
    Mirroring posix tree locate paths uuid base s' := by
  obtain ⟨m, rfl, hm⟩ := hok
  cases hh with
  | refused hmsgs =>
    rcases hmsgs with hmsgs | ⟨code, hcode, hmsgs⟩
    · simp at hmsgs
    · obtain rfl := (List.cons.inj hmsgs).1
      exact absurd (by simpa [Message.isOK] using hm) hcode
  | @created c root _ title folder hroot hfound hcreated =>
    refine h.created hroot hr.1 (fun hfolder => ?_) hcreated
    subst hfolder
    exact (hr.2 (c, root) hfound).1 rfl
  | notCreated => exact absurd hm (by decide)
  | @renamed c x _ title name path db₁ fs hx hfound hname hpath hrename hmove =>
    obtain ⟨root, hroot, hp⟩ := h.mirrors.wellFormed.exists_parent hx
    obtain ⟨hhits, hfree⟩ := (hr.2 (c, x) hfound).2 rfl root hroot hp name hname
    exact h.renamed hx hroot hp hname hpath hr.1 hhits hfree hrename hmove _
  | notRenamed => exact absurd hm (by decide)
  | deleted hx hfound => exact h.removed hx (hr _ hfound)
  | @received c root _ t ret _ hroot hfound hreceive =>
    obtain rfl : ret = .OK := by simpa [Message.isOK] using hm
    have hcond := hr.2 (c, root) hfound
    exact h.received hroot hr.1 (fun name hname => (hcond name hname).1)
      (fun name hname => (hcond name hname).2) hreceive
  | written => exact hr.elim
  | notWritten => exact absurd hm (by decide)

end step

/-- In every run from a scan whose requests succeed onto nothing, the database has the entries that
a refresh would find. -/
theorem database_agrees_with_refresh {σ : Type} {posix : Posix σ} {tree : σ → FileTree CString}
    {locate : CString → List CString} (hcalls : posix.WorksOn tree locate) {paths : CmaPaths}
    {uuid : CString} (hroots : RootsApart paths uuid locate) {view : DirView} {n : ℕ}
    {db₀ : Database} {fs : Disk σ} {s : Host σ}
    (hview : ShowsCategories paths uuid locate (tree fs.state) view)
    (hdb : createDatabase view n paths uuid = some db₀)
    (h : Reached (hostStep posix) (MirroredRequest posix tree locate paths uuid)
      { db := db₀, fs := fs } s) :
    AgreesWithRefresh paths uuid locate (tree s.fs.state) s.db := by
  have hmirroring : Mirroring posix tree locate paths uuid
      (fun c => locate (c.path paths uuid)) s := by
    refine h.invariant (I := Mirroring posix tree locate paths uuid
      (fun c => locate (c.path paths uuid))) ?_ ?_
    · exact ⟨hcalls, fun _ => rfl, hroots.apart, hroots.way, mirrors_createDatabase hview hdb⟩
    · intro s r s' hs hr hstep
      obtain ⟨msgs, hh, hok⟩ := completes_handled hs.mirrors.wellFormed hr.1 hstep
      exact hh.mirroring hs hok hr.2
  exact hmirroring.mirrors.agrees (roots_fit hdb)

/-- The photo folder `d` with the photo `x` in it; the other categories have no directory yet. -/
def sampleDisk : FileTree CString where
  kind p :=
    if p = [] ∨ p = [['p']] ∨ p = [['p'], ['d']] then some .folder
    else if p = [['p'], ['d'], ['x']] then some .file else none
  closed p a h := by
    rcases p with _ | ⟨b, _ | ⟨b', _ | ⟨b'', p⟩⟩⟩
    · simp
    · simp at h
      simp [h]
    · simp at h
      simp [h]
    · simp at h

def sampleNames : List CString := [['p'], ['d'], ['x']]

def diskView : DirView := treeView sampleNames sampleDisk

theorem sampleDisk_isPrefix {place : List CString} (h : (sampleDisk.kind place).isSome) :
    place <+: sampleNames := by
  unfold sampleDisk at h
  dsimp only at h
  split_ifs at h with hfolder hfile
  · rcases hfolder with rfl | rfl | rfl <;> decide
  · subst hfile
    decide
  · simp at h

theorem sampleDisk_shown : ShowsCategories samplePaths ['0'] locatePath sampleDisk diskView := by
  refine fun c => treeView_shows (by decide) (by decide) (fun place name h => ?_) fun comps h => ?_
  · exact (sampleDisk_isPrefix h).subset (List.mem_append_right place (List.mem_singleton_self name))
  · have hsub := ((List.sublist_append_right _ _).trans (sampleDisk_isPrefix h).sublist).map
      fun name : CString => name.length + 1
    have hsum := hsub.sum_le_sum (by simp)
    have hroot : (c.path samplePaths ['0']).length < 100 := by
      cases c <;> decide
    have hmax : PATH_MAX = 4096 := rfl
    have hall : (sampleNames.map fun name : CString => name.length + 1).sum = 6 := by decide
    rw [List.length_append, diskPath_length, List.length_singleton]
    omega

theorem sampleRoots_apart : RootsApart samplePaths ['0'] locatePath := by
  constructor
  · intro c d
    cases c <;> cases d <;> decide
  · have hall : ∀ c ∈ Category.all, ∀ dir ∈ slashPrefixes (c.path samplePaths ['0']),
        ∀ d ∈ Category.all,
          ¬ (locatePath (d.path samplePaths ['0']) <+: locatePath dir ∧
            locatePath (d.path samplePaths ['0']) ≠ locatePath dir) := by
      decide +kernel
    rintro c dir hdir ⟨d, comps, hne, heq⟩
    refine hall c (Category.mem_all c) dir hdir d (Category.mem_all d) ⟨⟨comps, heq.symm⟩, ?_⟩
    rw [heq]
    exact fun hself => hne (List.self_eq_append_right.mp hself)

def diskDatabase : Database :=
  (createDatabase diskView 3 samplePaths ['0']).getD (initDatabase samplePaths ['0'])

theorem disk_created : createDatabase diskView 3 samplePaths ['0'] = some diskDatabase := by
  have hsome : (createDatabase diskView 3 samplePaths ['0']).isSome := by decide +kernel
  obtain ⟨db, hdb⟩ := Option.isSome_iff_exists.mp hsome
  rw [diskDatabase, hdb]
  rfl

def diskHost : Host (FileTree CString) := { db := diskDatabase, fs := { state := sampleDisk } }

theorem diskHost_shown :
    ShowsCategories samplePaths ['0'] locatePath (id diskHost.fs.state) diskView := sampleDisk_shown

/-- The host after a request that does not crash. -/
def nextHost (s : Host (FileTree CString)) (r : DeviceRequest) : Host (FileTree CString) :=
  (hostStep treePosix s r).getD s

theorem nextHost_reached {s : Host (FileTree CString)} {r : DeviceRequest}
    (h : Reached (hostStep treePosix) (MirroredRequest treePosix id locatePath samplePaths ['0'])
      diskHost s)
    (hr : MirroredRequest treePosix id locatePath samplePaths ['0'] s r)
    (hs : (hostStep treePosix s r).isSome) :
    Reached (hostStep treePosix) (MirroredRequest treePosix id locatePath samplePaths ['0'])
      diskHost (nextHost s r) :=
  h.step hr (hostStep_isSome hs)

/-- A folder is created in `d`. -/
def folderHost : Host (FileTree CString) :=
  nextHost diskHost (.operate (some ⟨VITA_OPERATE_CREATE_FOLDER, 1005, ['n']⟩))

/-- A photo is received beside `d`. -/
def photoHost : Host (FileTree CString) :=
  nextHost folderHost (.treat (some (2, .file ['y'] 9 1 [0])))

/-- The photo `x` is deleted. -/
def mirrorHost : Host (FileTree CString) := nextHost photoHost (.delete { param2 := 1006 })

theorem mirrorHost_reached : Reached (hostStep treePosix)
    (MirroredRequest treePosix id locatePath samplePaths ['0']) diskHost mirrorHost := by
  have hfolder : ∀ p ∈ ohfiToObject diskHost.db (1005 : BitVec 32).toInt,
      Free diskHost.db p.1 p.2 ['n'] := by
    decide +kernel
  have hphoto : ∀ p ∈ ohfiToObject folderHost.db (2 : BitVec 32).toInt,
      ∀ q ∈ pathToObject folderHost.db ['y'] p.2.ohfi,
        Removes treePosix id locatePath folderHost q.2.path := by
    decide +kernel
  have hdelete : ∀ p ∈ ohfiToObject photoHost.db (1006 : BitVec 32).toInt,
      Removes treePosix id locatePath photoHost p.2.path := by
    decide +kernel
  have hfirst : Reached (hostStep treePosix)
      (MirroredRequest treePosix id locatePath samplePaths ['0']) diskHost folderHost := by
    refine nextHost_reached .start ⟨by decide +kernel, by decide,
      fun p hp => ⟨fun _ => hfolder p hp, fun hrename => ?_⟩⟩ (by decide +kernel)
    exact absurd hrename (by decide)
  have hsecond : Reached (hostStep treePosix)
      (MirroredRequest treePosix id locatePath samplePaths ['0']) diskHost photoHost := by
    refine nextHost_reached hfirst ⟨by decide +kernel, ?_,
      fun p hp name hname => ⟨fun hfolder => ?_, ?_⟩⟩ (by decide +kernel)
    · unfold DeviceObject.WellNamed
      decide
    · simp [DeviceObject.isFolder] at hfolder
    · obtain rfl := Option.some.inj hname
      exact hphoto p hp
  exact nextHost_reached hsecond ⟨by decide +kernel, hdelete⟩ (by decide +kernel)

theorem database_agrees_with_refresh_sample :
    (mirrorHost.db.objects .photos).map CmaObject.entry =
        [(some ['d'], true, false), (some ['d', '/', 'n'], true, false), (some ['y'], false, true)] ∧
      AgreesWithRefresh samplePaths ['0'] locatePath mirrorHost.fs.state mirrorHost.db :=
  ⟨by decide +kernel, database_agrees_with_refresh treePosix_worksOn sampleRoots_apart
    diskHost_shown disk_created mirrorHost_reached⟩

/-- The folder `d` is created where it is already: it is reported created, the disk stays as it
was, and the database has it twice. -/
theorem database_disagrees_with_refresh :
    ShowsCategories samplePaths ['0'] locatePath sampleDisk diskView ∧
      createDatabase diskView 3 samplePaths ['0'] = some diskDatabase ∧
      ∃ s, hostStep treePosix diskHost
          (.operate (some ⟨VITA_OPERATE_CREATE_FOLDER, 2, ['d']⟩)) = some s ∧
        Completes treePosix diskHost
          (.operate (some ⟨VITA_OPERATE_CREATE_FOLDER, 2, ['d']⟩)) = true ∧
        VisibleName ['d'] ∧ s.fs.state = sampleDisk ∧
        ¬ ((s.db.objects .photos).map CmaObject.entry).Perm
          ((diskDatabase.objects .photos).map CmaObject.entry) ∧
        ¬ AgreesWithRefresh samplePaths ['0'] locatePath s.fs.state s.db := by
  have hsome : (hostStep treePosix diskHost
      (.operate (some ⟨VITA_OPERATE_CREATE_FOLDER, 2, ['d']⟩))).isSome := by
    decide +kernel
  have hperm : ¬ (((nextHost diskHost (.operate (some ⟨VITA_OPERATE_CREATE_FOLDER, 2,
      ['d']⟩))).db.objects .photos).map CmaObject.entry).Perm
      ((diskDatabase.objects .photos).map CmaObject.entry) := by
    decide +kernel
  have hstate : (nextHost diskHost (.operate (some ⟨VITA_OPERATE_CREATE_FOLDER, 2,
      ['d']⟩))).fs.state = sampleDisk := by
    rfl
  refine ⟨sampleDisk_shown, disk_created, _, hostStep_isSome hsome, by decide +kernel, by decide,
    hstate, hperm, fun hagrees => hperm ?_⟩
  exact hagrees.entries diskView (hstate ▸ sampleDisk_shown) 3 diskDatabase disk_created .photos

end VitaMTP
