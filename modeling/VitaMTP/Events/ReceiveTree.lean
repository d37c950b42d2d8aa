import VitaMTP.Database.Paths
import VitaMTP.Database.Reachable
import VitaMTP.Events.Received

/-! When receiving a tree replaces what was there and reproduces the tree. -/
namespace VitaMTP
open ParentFirst

/-- What the device shows of an object, under the relative path it is received at. Only a file
has a size. -/
structure ReceivedEntry where
  path : CString
  handle : BitVec 32
  fileSize : Option ULong
  deriving DecidableEq, Repr

mutual

/-- The entries of a tree received into the directory that `dir` leads to. -/
def DeviceObject.entries : CString → DeviceObject → List ReceivedEntry
  | _, .unavailable => []
  | dir, .file name handle size _ => [⟨dir ++ name, handle, some size⟩]
  | dir, .folder name handle children =>
    ⟨dir ++ name, handle, none⟩ :: childEntries (dir ++ name ++ ['/']) children

def childEntries : CString → List DeviceObject → List ReceivedEntry
  | _, [] => []
  | dir, t :: ts => t.entries dir ++ childEntries dir ts

end

/-- The object has the path, the handle, the kind and, for a file, the size of the entry. -/
structure CmaObject.Shows (o : CmaObject) (e : ReceivedEntry) : Prop where
  path : o.metadata.path = some e.path
  handle : o.metadata.handle = e.handle
  file : ∀ size, e.fileSize = some size →
    o.isFile = true ∧ o.isFolder = false ∧ o.metadata.size = size
  folder : e.fileSize = none → o.isFolder = true ∧ o.isFile = false

/-- A single path component that does not start with a dot. -/
def VisibleName (name : CString) : Prop := name ≠ [] ∧ '/' ∉ name ∧ name.head? ≠ some '.'

mutual

/-- All names are visible and siblings have different ones. -/
def DeviceObject.WellNamed : DeviceObject → Prop
  | .unavailable => True
  | .file name _ _ _ => VisibleName name
  | .folder name _ children =>
    VisibleName name ∧ (children.filterMap DeviceObject.name?).Nodup ∧ ChildrenNamed children

def ChildrenNamed : List DeviceObject → Prop
  | [] => True
  | t :: ts => t.WellNamed ∧ ChildrenNamed ts

end

theorem newObject_path (count : ℤ) (root : CmaObject) (name : CString) (size : ULong)
    (type : Mask) :
    (newObject count root name size type).metadata.path = some (root.relPrefix ++ name) := by
  obtain ⟨name', hname, hpath, -⟩ := CmaObject.newObject_joinedTo count root name size type
  obtain rfl : name = name' := Option.some.inj hname
  exact hpath

def DeviceObject.isFolder : DeviceObject → Bool
  | .folder _ _ _ => true
  | _ => false

mutual

theorem nodes_show (count : ℤ) (root : CmaObject) :
    (t : DeviceObject) → (t.isFolder = true → root.isFile = false) →
    List.Forall₂ CmaObject.Shows (t.nodes count root) (t.entries root.relPrefix)
  | .unavailable, _ => by
    unfold DeviceObject.nodes DeviceObject.entries
    exact .nil
  | .file name handle size data, _ => by
    unfold DeviceObject.nodes DeviceObject.entries
    have hpath := newObject_path count root name 0 DataType.File
    refine .cons ⟨hpath, rfl, fun size' he => ?_, by simp⟩ .nil
    obtain rfl : size = size' := Option.some.inj he
    exact ⟨newFile_isFile count root name 0, newFile_isFolder count root name 0,
      BitVec.zero_add size⟩
  | .folder name handle children, hfile => by
    unfold DeviceObject.nodes DeviceObject.entries
    have hroot := hfile rfl
    have hfalse := (newObject_isFile count root name 0).trans hroot
    have hpath := newObject_path count root name 0 DataType.Folder
    have hpre : ((newObject count root name 0 DataType.Folder).setHandle handle).relPrefix =
        root.relPrefix ++ name ++ ['/'] :=
      CmaObject.relPrefix_of_some hpath
    have hfolder := newFolder_isFolder count root name 0
    refine .cons ⟨hpath, rfl, by simp, fun _ => ⟨hfolder, hfalse⟩⟩ ?_
    rw [← hpre]
    exact childNodes_show (count + 1)
      ((newObject count root name 0 DataType.Folder).setHandle handle)
      hfalse children

theorem childNodes_show (count : ℤ) (root : CmaObject) (hfile : root.isFile = false) :
    (ts : List DeviceObject) →
    List.Forall₂ CmaObject.Shows (childNodes count root ts) (childEntries root.relPrefix ts)
  | [] => by
    unfold childNodes childEntries
    exact .nil
  | t :: ts => by
    unfold childNodes childEntries
    exact List.rel_append (nodes_show count root t fun _ => hfile)
      (childNodes_show _ root hfile ts)

end

/-- Two components followed by nothing or a slash are equal if the texts are. -/
theorem component_inj {a b r r' : CString} (ha : '/' ∉ a) (hb : '/' ∉ b)
    (hr : r = [] ∨ r.head? = some '/') (hr' : r' = [] ∨ r'.head? = some '/')
    (h : a ++ r = b ++ r') : a = b := by
  have htake {a r : CString} (ha : '/' ∉ a) (hr : r = [] ∨ r.head? = some '/') :
      (a ++ r).takeWhile (· ≠ '/') = a := by
    have hpass : ∀ x ∈ a, decide (x ≠ '/') = true := by
      intro x hx
      simpa using fun he : x = '/' => ha (he ▸ hx)
    rw [List.takeWhile_append_of_pos hpass]
    rcases hr with rfl | hr
    · simp
    · cases r with
      | nil => simp
      | cons x xs =>
        obtain rfl : x = '/' := by simpa using hr
        simp
  rw [← htake ha hr, h, htake hb hr']

mutual

theorem entries_path (dir : CString) : (t : DeviceObject) → ∀ e ∈ t.entries dir,
    ∃ name r, t.name? = some name ∧ e.path = dir ++ name ++ r ∧ (r = [] ∨ r.head? = some '/')
  | .unavailable => by
    unfold DeviceObject.entries
    simp
  | .file name handle size data => by
    unfold DeviceObject.entries
    intro e he
    obtain rfl := List.mem_singleton.mp he
    exact ⟨name, [], rfl, by simp, Or.inl rfl⟩
  | .folder name handle children => by
    unfold DeviceObject.entries
    intro e he
    rcases List.mem_cons.mp he with rfl | he
    · exact ⟨name, [], rfl, by simp, Or.inl rfl⟩
    · obtain ⟨r, hpath⟩ := childEntries_path (dir ++ name ++ ['/']) children e he
      exact ⟨name, '/' :: r, rfl, by simp [hpath], Or.inr rfl⟩

theorem childEntries_path (dir : CString) : (ts : List DeviceObject) → ∀ e ∈ childEntries dir ts,
    ∃ r, e.path = dir ++ r
  | [] => by
    unfold childEntries
    simp
  | t :: ts => by
    unfold childEntries
    intro e he
    rcases List.mem_append.mp he with he | he
    · obtain ⟨name, r, -, hpath, -⟩ := entries_path dir t e he
      exact ⟨name ++ r, by simp [hpath]⟩
    · exact childEntries_path dir ts e he

end

theorem mem_childEntries {dir : CString} {ts : List DeviceObject} {e : ReceivedEntry}
    (he : e ∈ childEntries dir ts) : ∃ t ∈ ts, e ∈ t.entries dir := by
  induction ts with
  | nil =>
    unfold childEntries at he
    simp at he
  | cons t ts ih =>
    unfold childEntries at he
    rcases List.mem_append.mp he with he | he
    · exact ⟨t, by simp, he⟩
    · obtain ⟨t', ht', he⟩ := ih he
      exact ⟨t', List.mem_cons_of_mem _ ht', he⟩

theorem DeviceObject.WellNamed.visible {t : DeviceObject} (h : t.WellNamed) {name : CString}
    (hname : t.name? = some name) : VisibleName name := by
  cases t with
  | unavailable => simp [name?] at hname
  | file n handle size data =>
    obtain rfl : n = name := Option.some.inj hname
    unfold WellNamed at h
    exact h
  | folder n handle children =>
    obtain rfl : n = name := Option.some.inj hname
    unfold WellNamed at h
    exact h.1

theorem ChildrenNamed.mem {ts : List DeviceObject} (h : ChildrenNamed ts) :
    ∀ t ∈ ts, t.WellNamed := by
  induction ts with
  | nil => simp
  | cons t ts ih =>
    unfold ChildrenNamed at h
    simp only [List.mem_cons, forall_eq_or_imp]
    exact ⟨h.1, ih h.2⟩

mutual

theorem entries_nodup (dir : CString) : (t : DeviceObject) → t.WellNamed →
    ((t.entries dir).map ReceivedEntry.path).Nodup
  | .unavailable, _ => by
    unfold DeviceObject.entries
    simp
  | .file name handle size data, _ => by
    unfold DeviceObject.entries
    simp
  | .folder name handle children, h => by
    unfold DeviceObject.WellNamed at h
    unfold DeviceObject.entries
    rw [List.map_cons, List.nodup_cons]
    refine ⟨fun hm => ?_, childEntries_nodup _ children h.2.2 h.2.1⟩
    obtain ⟨e, he, hpath⟩ := List.mem_map.mp hm
    obtain ⟨r, hr⟩ := childEntries_path _ children e he
    have := congrArg List.length (hr.symm.trans hpath)
    simp at this

theorem childEntries_nodup (dir : CString) : (ts : List DeviceObject) → ChildrenNamed ts →
    (ts.filterMap DeviceObject.name?).Nodup →
    ((childEntries dir ts).map ReceivedEntry.path).Nodup
  | [], _, _ => by
    unfold childEntries
    simp
  | t :: ts, h, hn => by
    unfold ChildrenNamed at h
    unfold childEntries
    rw [List.map_append, List.nodup_append']
    have htail : (ts.filterMap DeviceObject.name?).Nodup :=
      hn.sublist ((List.sublist_cons_self t ts).filterMap _)
    refine ⟨entries_nodup dir t h.1, childEntries_nodup dir ts h.2 htail, fun p hp hp' => ?_⟩
    obtain ⟨e, he, rfl⟩ := List.mem_map.mp hp
    obtain ⟨e', he', hpath⟩ := List.mem_map.mp hp'
    obtain ⟨t', ht', he'⟩ := mem_childEntries he'
    obtain ⟨name, r, hname, hr, hslash⟩ := entries_path dir t e he
    obtain ⟨name', r', hname', hr', hslash'⟩ := entries_path dir t' e' he'
    have heq : name ++ r = name' ++ r' := by
      have := hr.symm.trans (hpath.symm.trans hr')
      rw [List.append_assoc, List.append_assoc] at this
      exact List.append_cancel_left this
    have hvisible := h.1.visible hname
    have hvisible' := (h.2.mem t' ht').visible hname'
    obtain rfl := component_inj hvisible.2.1 hvisible'.2.1 hslash hslash' heq
    rw [List.filterMap_cons_some hname, List.nodup_cons] at hn
    exact hn.1 (List.mem_filterMap.mpr ⟨t', ht', hname'⟩)

end

/-- `x` is below an object that had the path of the received root. -/
def Occupied (db : Database) (c : Category) (path : CString) (x : CmaObject) : Prop :=
  ∃ y ∈ db.objects c, y.metadata.path = some path ∧ NodesBelow (db.lists c) y.ohfi x.ohfi

/-- Below `parent` there is exactly one object at each path of the tree, what had the path of its
root is gone, and everything else is as before up to the sizes of `parent` and what is above. -/
structure TreeReceived (db db' : Database) (c : Category) (parent : CmaObject) (name : CString)
    (t : DeviceObject) : Prop where
  reproduced : ∀ e ∈ t.entries parent.relPrefix, ∃ o ∈ db'.lists c, o.Shows e ∧
    NodesBelow (db'.lists c) parent.ohfi o.ohfi ∧
    ∀ y ∈ db'.lists c, NodesBelow (db'.lists c) parent.ohfi y.ohfi →
      y.metadata.path = some e.path → y = o
  replaced : ∀ x ∈ db.lists c, Occupied db c (parent.relPrefix ++ name) x →
    ∀ y ∈ db'.lists c, y.ohfi ≠ x.ohfi
  kept : ∀ d, ∀ x ∈ db.lists d, ¬ (d = c ∧ Occupied db c (parent.relPrefix ++ name) x) →
    x ∈ db'.lists d ∨ d = c ∧ NodesBelow (db.lists c) x.ohfi parent.ohfi ∧
      ∃ size, x.addSize size ∈ db'.lists d
  nothingElse : ∀ d, ∀ y ∈ db'.lists d, (∃ x ∈ db.lists d, x.ohfi = y.ohfi) ∨
    d = c ∧ NodesBelow (db'.lists c) parent.ohfi y.ohfi ∧
      ∃ e ∈ t.entries parent.relPrefix, y.Shows e

/-- `x` belongs to the object that `pathToObject` finds under the name of the root. -/
def Found (db : Database) (c : Category) (parent : CmaObject) (name : CString) (x : CmaObject) :
    Prop :=
  ∃ temp, pathToObject db name parent.ohfi = some (c, temp) ∧
    NodesBelow (db.lists c) temp.ohfi x.ohfi

/-- Whatever has the path of the received root, or a path of the tree below `parent`, is
found with the name of the root. -/
def FoundByName (db : Database) (c : Category) (parent : CmaObject) (name : CString)
    (t : DeviceObject) : Prop :=
  ∀ x ∈ db.objects c,
    (x.metadata.path = some (parent.relPrefix ++ name) ∨
      NodesBelow (db.lists c) parent.ohfi x.ohfi ∧
        ∃ e ∈ t.entries parent.relPrefix, x.metadata.path = some e.path) →
    Found db c parent name x

section receive

variable {σ : Type} {posix : Posix σ} {paths : CmaPaths} {uuid : CString} {s s' : Host σ}
  {c : Category} {parent : CmaObject} {name : CString} {t : DeviceObject}

theorem mem_cleared (posix : Posix σ) (h : WellFormed paths uuid s.db) (hp : parent ∈ s.db.lists c)
    (name : CString) {x : CmaObject} :
    x ∈ (cleared posix s parent.ohfi (some name)).db.lists c ↔ x ∈ s.db.lists c ∧
      ¬ Found s.db c parent name x := by
  unfold Found
  rcases cleared_cases posix h hp name with ⟨hnone, he⟩ | ⟨temp, -, -, hfound, he⟩
  · rw [he, hnone]
    simp
  · rw [he, hfound]
    simp only [Database.setList_lists_self, withoutNodes, mem_without]
    simp

theorem cleared_lists_of_ne (posix : Posix σ) (h : WellFormed paths uuid s.db)
    (hp : parent ∈ s.db.lists c)
    (name : CString) {d : Category} (hd : d ≠ c) :
    (cleared posix s parent.ohfi (some name)).db.lists d = s.db.lists d := by
  rcases cleared_cases posix h hp name with ⟨-, he⟩ | ⟨temp, -, -, -, he⟩
  · rw [he]
  · rw [he]
    simp [hd]

theorem found_path {db : Database} (h : WellFormed paths uuid db) (hp : parent ∈ db.lists c)
    {temp : CmaObject} (hfound : pathToObject db name parent.ohfi = some (c, temp)) :
    temp ∈ db.objects c ∧ temp.metadata.path = some (parent.relPrefix ++ name) := by
  rcases h.mem_lists.mp hp with ⟨hm, -⟩ | hobj
  · rw [hm.ohfi, h.pathToObject_category, Option.map_eq_some_iff] at hfound
    obtain ⟨o, ho, he⟩ := hfound
    obtain rfl : o = temp := (Prod.mk.inj he).2
    have hpath := List.find?_some ho
    rw [h.relPrefix_master hm]
    exact ⟨List.mem_of_find?_eq_some ho, by simpa using hpath⟩
  · have hpos := h.ohfi_pos hp
    rw [h.pathToObject_object name (by omega) fun d he => h.ohfi_ne_master hobj he.symm] at hfound
    simp at hfound

theorem cleared_below (posix : Posix σ) (h : WellFormed paths uuid s.db)
    (hp : parent ∈ s.db.lists c)
    (name : CString) {x : CmaObject}
    (hx : x ∈ (cleared posix s parent.ohfi (some name)).db.lists c) :
    NodesBelow ((cleared posix s parent.ohfi (some name)).db.lists c) parent.ohfi x.ohfi ↔
      NodesBelow (s.db.lists c) parent.ohfi x.ohfi := by
  have h₀ := cleared_wellFormed posix h hp (some name)
  rcases cleared_cases posix h hp name with ⟨-, he⟩ | ⟨temp, -, hm, -, -⟩
  · rw [he]
  · have hxs := ((mem_cleared posix h hp name).mp hx).1
    have hthen := h₀.below_master x hx
    rw [← hm.ohfi] at hthen
    exact ⟨fun _ => hm.ohfi ▸ h.below_master x hxs, fun _ => hthen⟩

end receive

theorem shows_exists {os : List CmaObject} {es : List ReceivedEntry}
    (h : List.Forall₂ CmaObject.Shows os es) :
    (∀ o ∈ os, ∃ e ∈ es, o.Shows e) ∧ ∀ e ∈ es, ∃ o ∈ os, o.Shows e := by
  induction h with
  | nil => simp
  | @cons o e os es hoe _ ih =>
    constructor
    · intro o' ho'
      rcases List.mem_cons.mp ho' with rfl | ho'
      · exact ⟨e, by simp, hoe⟩
      · obtain ⟨e', he', hs⟩ := ih.1 o' ho'
        exact ⟨e', List.mem_cons_of_mem _ he', hs⟩
    · intro e' he'
      rcases List.mem_cons.mp he' with rfl | he'
      · exact ⟨o, by simp, hoe⟩
      · obtain ⟨o', ho', hs⟩ := ih.2 e' he'
        exact ⟨o', List.mem_cons_of_mem _ ho', hs⟩

theorem shows_path_inj {os : List CmaObject} {es : List ReceivedEntry}
    (h : List.Forall₂ CmaObject.Shows os es) (hn : (es.map ReceivedEntry.path).Nodup) :
    ∀ x ∈ os, ∀ y ∈ os, x.metadata.path = y.metadata.path → x = y := by
  have hpaths : os.map (·.metadata.path) = (es.map ReceivedEntry.path).map some := by
    clear hn
    induction h with
    | nil => rfl
    | cons hoe _ ih => rw [List.map_cons, List.map_cons, List.map_cons, ih, hoe.path]
  have hnodup : (os.map (·.metadata.path)).Nodup := by
    rw [hpaths]
    exact hn.map (Option.some_injective _)
  exact fun x hx y hy he => List.inj_on_of_nodup_map hnodup hx hy he

/-- A tree that is received has a root with a name, and only a folder takes a folder in. -/
theorem writeTree_ok {σ : Type} {posix : Posix σ} {inFile : Bool} {dir : CString}
    {t : DeviceObject} {fs : Disk σ} (h : (writeTree posix inFile dir t fs).ok = true) :
    t.isFolder = true → inFile = false := by
  cases t with
  | folder name handle children =>
    cases inFile with
    | true => simp [writeTree] at h
    | false => simp
  | file => simp [DeviceObject.isFolder]
  | unavailable => simp [DeviceObject.isFolder]

/-- `db'` is `db` with the objects `os` below `parent`, without what is found by the name of the
root, and with larger sizes of `parent` and what is above it. -/
structure TakenIn (db db' : Database) (c : Category) (parent : CmaObject) (name : CString)
    (os : List CmaObject) : Prop where
  others : ∀ d, d ≠ c → db'.lists d = db.lists d
  new : ∀ o ∈ os, o ∈ db'.lists c ∧ NodesBelow (db'.lists c) parent.ohfi o.ohfi ∧
    db.ohfiCount ≤ o.ohfi
  source : ∀ y ∈ db'.lists c, y ∈ os ∨ ∃ x ∈ db.lists c, ¬ Found db c parent name x ∧
    y.ohfi = x.ohfi ∧ y.metadata.path = x.metadata.path ∧
    (NodesBelow (db'.lists c) parent.ohfi y.ohfi ↔ NodesBelow (db.lists c) parent.ohfi x.ohfi)
  stays : ∀ x ∈ db.lists c, ¬ Found db c parent name x → ∃ y ∈ db'.lists c,
    y.ohfi = x.ohfi ∧ y.metadata.path = x.metadata.path ∧
    (NodesBelow (db'.lists c) parent.ohfi y.ohfi ↔ NodesBelow (db.lists c) parent.ohfi x.ohfi) ∧
    (y = x ∨ NodesBelow (db.lists c) x.ohfi parent.ohfi ∧ ∃ size, y = x.addSize size)

theorem takenIn {paths : CmaPaths} {uuid : CString} {σ : Type} {posix : Posix σ} {s s' : Host σ}
    (h : WellFormed paths uuid s.db) {c : Category} {parent : CmaObject}
    (hp : parent ∈ s.db.lists c) {name : CString} {os : List CmaObject} {bytes : ULong}
    {count : ℤ} (hos : NewBlock s.db.ohfiCount parent.ohfi os)
    (hcount : s.db.ohfiCount + os.length ≤ count)
    (hdb : s'.db =
      (cleared posix s parent.ohfi (some name)).db.grown c parent.ohfi bytes os count) :
    TakenIn s.db s'.db c parent name os := by
  have hsame := cleared_ohfiCount posix h hp (some name)
  have h₀ := cleared_wellFormed posix h hp (some name)
  have hp₀ := cleared_parent posix h hp (some name)
  have hleft (x : CmaObject) := mem_cleared posix h hp name (x := x)
  have hbelow (x : CmaObject) := cleared_below posix h hp name (x := x)
  have hothers (d : Category) := cleared_lists_of_ne posix h hp name (d := d)
  generalize (cleared posix s parent.ohfi (some name)).db = db₀ at *
  rw [← hsame] at hos hcount
  have h' := h₀.grown hp₀ hos hcount bytes
  rw [hdb]
  constructor
  · intro d hd
    rw [Database.grown_lists_of_ne hd, hothers d hd]
  · intro o ho
    refine ⟨?_, grown_below_new hos ho, hsame ▸ (hos.numbered.bounds o ho).1⟩
    rw [Database.grown_lists_self]
    exact List.mem_append_right _ ho
  · intro y hy
    rcases mem_grown_cases hy with ho | ⟨x, hx, hid, hpath⟩
    · exact Or.inl ho
    · obtain ⟨hxs, hnot⟩ := (hleft x).mp hx
      refine Or.inr ⟨x, hxs, hnot, hid, hpath, ?_⟩
      rw [hid, grown_below_old h' hx, hbelow x hx]
  · intro x hx hnot
    have hx₀ := (hleft x).mpr ⟨hx, hnot⟩
    obtain ⟨y, hy, hid, hpath, hor⟩ := mem_grown_of_mem parent bytes os count hx₀
    refine ⟨y, hy, hid, hpath, ?_, ?_⟩
    · rw [hid, grown_below_old h' hx₀, hbelow x hx₀]
    · rcases hor with rfl | ⟨hb, rfl⟩
      · exact Or.inl rfl
      · exact Or.inr ⟨hb.mono fun z hz => ((hleft z).mp hz).1, bytes, rfl⟩

namespace TakenIn

variable {paths : CmaPaths} {uuid : CString} {db db' : Database} {c : Category}
  {parent : CmaObject} {name : CString} {t : DeviceObject} {os : List CmaObject}

theorem foundByName (h : TakenIn db db' c parent name os) (hwf : WellFormed paths uuid db)
    (hnode : ∀ e ∈ t.entries parent.relPrefix, ∃ o ∈ os, o.Shows e)
    (hreceived : TreeReceived db db' c parent name t) : FoundByName db c parent name t := by
  intro x hx hor
  have hxl := WellFormed.mem_of_objects hx
  by_contra hnot
  obtain ⟨y, hy, hid, hpath, hyb, -⟩ := h.stays x hxl hnot
  rcases hor with hroot | ⟨hb, e, he, hxe⟩
  · exact hreceived.replaced x hxl ⟨x, hx, hroot, .refl⟩ y hy hid
  · obtain ⟨o, ho, hshows⟩ := hnode e he
    obtain ⟨hol, hob, hnew⟩ := h.new o ho
    obtain ⟨z, -, -, -, hunique⟩ := hreceived.reproduced e he
    have hoz := hunique o hol hob hshows.path
    have hyz := hunique y hy (hyb.mpr hb) (hpath.trans hxe)
    have hold := hwf.counted_list c x hxl
    rw [← hid, hyz, ← hoz] at hold
    omega

/-- An entry of the tree has one object, where all that had its path has been found. -/
theorem reproduced (h : TakenIn db db' c parent name os) (hwf : WellFormed paths uuid db)
    (hinj : ∀ x ∈ os, ∀ y ∈ os, x.metadata.path = y.metadata.path → x = y)
    (hnode : ∀ e ∈ t.entries parent.relPrefix, ∃ o ∈ os, o.Shows e)
    (hfound : FoundByName db c parent name t) {e : ReceivedEntry}
    (he : e ∈ t.entries parent.relPrefix) :
    ∃ o ∈ db'.lists c, o.Shows e ∧ NodesBelow (db'.lists c) parent.ohfi o.ohfi ∧
      ∀ y ∈ db'.lists c, NodesBelow (db'.lists c) parent.ohfi y.ohfi →
        y.metadata.path = some e.path → y = o := by
  obtain ⟨o, ho, hshows⟩ := hnode e he
  obtain ⟨hol, hob, -⟩ := h.new o ho
  refine ⟨o, hol, hshows, hob, fun y hy hyb hype => ?_⟩
  rcases h.source y hy with hy | ⟨x, hx, hnot, -, hpath, hiff⟩
  · exact hinj y hy o ho (hype.trans hshows.path.symm)
  · have hxe := hpath.symm.trans hype
    rcases hwf.mem_lists.mp hx with ⟨hm, -⟩ | hobj
    · rw [hm.path_none] at hxe
      simp at hxe
    · exact absurd (hfound x hobj (Or.inr ⟨hiff.mp hyb, e, he, hxe⟩)) hnot

theorem replaced (h : TakenIn db db' c parent name os) (hwf : WellFormed paths uuid db)
    (hfound : FoundByName db c parent name t) {x y : CmaObject} (hx : x ∈ db.lists c)
    (hoccupied : Occupied db c (parent.relPrefix ++ name) x) (hy : y ∈ db'.lists c) :
    y.ohfi ≠ x.ohfi := by
  obtain ⟨z, hz, hzpath, hzx⟩ := hoccupied
  intro hid
  obtain ⟨temp, htemp, hb⟩ := hfound z hz (Or.inl hzpath)
  rcases h.source y hy with hy | ⟨x', hx', hnot, hid', -⟩
  · have h₁ := (h.new y hy).2.2
    have h₂ := hwf.counted_list c x hx
    omega
  · obtain rfl := (hwf.ordered c).inj hx' hx (hid'.symm.trans hid)
    exact hnot ⟨temp, htemp, hb.trans hzx⟩

theorem kept (h : TakenIn db db' c parent name os) (hwf : WellFormed paths uuid db)
    (hp : parent ∈ db.lists c) {d : Category} {x : CmaObject} (hx : x ∈ db.lists d)
    (hnot : ¬ (d = c ∧ Occupied db c (parent.relPrefix ++ name) x)) :
    x ∈ db'.lists d ∨ d = c ∧ NodesBelow (db.lists c) x.ohfi parent.ohfi ∧
      ∃ size, x.addSize size ∈ db'.lists d := by
  by_cases hd : d = c
  · subst hd
    have hnotfound : ¬ Found db d parent name x := by
      rintro ⟨temp, htemp, hb⟩
      obtain ⟨htm, htpath⟩ := found_path hwf hp htemp
      exact hnot ⟨rfl, temp, htm, htpath, hb⟩
    obtain ⟨y, hy, -, -, -, hor⟩ := h.stays x hx hnotfound
    rcases hor with rfl | ⟨hb, size, rfl⟩
    · exact Or.inl hy
    · exact Or.inr ⟨rfl, hb, size, hy⟩
  · rw [h.others d hd]
    exact Or.inl hx

theorem nothingElse (h : TakenIn db db' c parent name os)
    (hentry : ∀ o ∈ os, ∃ e ∈ t.entries parent.relPrefix, o.Shows e) {d : Category}
    {y : CmaObject} (hy : y ∈ db'.lists d) :
    (∃ x ∈ db.lists d, x.ohfi = y.ohfi) ∨
      d = c ∧ NodesBelow (db'.lists c) parent.ohfi y.ohfi ∧
        ∃ e ∈ t.entries parent.relPrefix, y.Shows e := by
  by_cases hd : d = c
  · subst hd
    rcases h.source y hy with ho | ⟨x, hx, -, hid, -⟩
    · obtain ⟨e, he, hshows⟩ := hentry y ho
      exact Or.inr ⟨rfl, (h.new y ho).2.1, e, he, hshows⟩
    · exact Or.inl ⟨x, hx, hid.symm⟩
  · rw [h.others d hd] at hy
    exact Or.inl ⟨y, hy, rfl⟩

end TakenIn

/-- A received tree is reproduced, and replaces what had its path, exactly if everything in its
way belongs to the one object that is found under the name of its root. -/
theorem receive_tree_iff {allowed : CmaObject → Mask → Prop} {view : DirView} {n : ℕ}
    {paths : CmaPaths} {uuid : CString} {σ : Type} {posix : Posix σ} {s s' : Host σ}
    (h : Reachable allowed view n paths uuid s.db) {c : Category} {parent : CmaObject}
    (hp : parent ∈ s.db.lists c) {t : DeviceObject} {name : CString}
    (hname : t.name? = some name) (hnamed : t.WellNamed)
    (hok : vitaGetAllObjects posix c parent.ohfi t s = some (.OK, s')) :
    TreeReceived s.db s'.db c parent name t ↔ FoundByName s.db c parent name t := by
  have hwf := h.wellFormed
  have hr := vitaGetAllObjects_receives posix paths uuid t s s' c parent .OK hwf hp hok
  have hwok := hr.ok.mp rfl
  have hdb := hr.done hwok
  have hblock := nodes_block s.db.ohfiCount parent t
  have hshow := nodes_show s.db.ohfiCount parent t (writeTree_ok hwok)
  have hinj := shows_path_inj hshow (entries_nodup parent.relPrefix t hnamed)
  rw [hname, cleared_ohfiCount posix hwf hp] at hdb
  have htaken := takenIn hwf hp hblock le_rfl hdb
  generalize t.nodes s.db.ohfiCount parent = os at hshow hinj htaken
  obtain ⟨hentry, hnode⟩ := shows_exists hshow
  constructor
  · exact htaken.foundByName hwf hnode
  · intro hfound
    constructor
    · exact fun e he => htaken.reproduced hwf hinj hnode hfound he
    · exact fun x hx hoccupied y hy => htaken.replaced hwf hfound hx hoccupied hy
    · exact fun d x hx hnot => htaken.kept hwf hp hx hnot
    · exact fun d y hy => htaken.nothingElse hentry hy

/-- A folder `e` with the photo `y` in it. -/
def sampleTree : DeviceObject := .folder ['e'] 7 [.file ['y'] 8 3 [1, 2, 3]]

/-- The host after a call, or before it where it returns nothing. -/
def hostAfter (s : Host Unit) (result : Option (ResultCode × Host Unit)) : Host Unit :=
  (result.map Prod.snd).getD s

theorem receive_tree_sample :
    TreeReceived sampleDatabase
      (hostAfter (sampleHost sampleDatabase)
        (vitaGetAllObjects samplePosix .photos 2 sampleTree (sampleHost sampleDatabase))).db
      .photos (sampleObject 0) ['e'] sampleTree := by
  have hp : sampleObject 0 ∈ sampleDatabase.lists .photos := by simp [sample_photos]
  have hok : vitaGetAllObjects samplePosix .photos 2 sampleTree (sampleHost sampleDatabase) =
      some (.OK, hostAfter (sampleHost sampleDatabase)
        (vitaGetAllObjects samplePosix .photos 2 sampleTree (sampleHost sampleDatabase))) := by
    rfl
  refine (receive_tree_iff (s := sampleHost sampleDatabase) (sample_reachable FolderAddition) hp
    rfl ?_ hok).mpr ?_
  · simp [sampleTree, DeviceObject.WellNamed, ChildrenNamed, VisibleName, DeviceObject.name?]
  · intro x hx hor
    change x ∈ sampleDatabase.objects .photos at hx
    have hentry : ∃ e ∈ sampleTree.entries [], x.metadata.path = some e.path := by
      rcases hor with hroot | ⟨-, he⟩
      · exact ⟨⟨['e'], 7, none⟩, by decide, hroot⟩
      · exact he
    have hfree : ∀ k < 3, ∀ e ∈ sampleTree.entries [],
        (sampleObject k).metadata.path ≠ some e.path := by
      decide
    obtain ⟨e, he, hpath⟩ := hentry
    simp only [Database.objects, sample_photos, List.tail_cons, List.mem_cons, List.not_mem_nil,
      or_false] at hx
    rcases hx with rfl | rfl
    · exact absurd hpath (hfree 1 (by decide) e he)
    · exact absurd hpath (hfree 2 (by decide) e he)

/-- The sample with a folder `e` in its folder. -/
def nestedDatabase : Database :=
  (addToDatabase sampleDatabase .photos (sampleObject 1) ['e'] 0 DataType.Folder).1

def existingPosix : Posix Unit := { samplePosix with access := fun _ _ => true }

/-- A folder `e` received where there is one already gives two of them. -/
theorem receive_tree_twice :
    Reachable FolderAddition sampleView 3 samplePaths ['0'] nestedDatabase ∧
      ∃ s', vitaGetAllObjects existingPosix .photos 1005 (.folder ['e'] 9 [])
          (sampleHost nestedDatabase) = some (.OK, s') ∧
        ¬ TreeReceived nestedDatabase s'.db .photos (sampleObject 1) ['e']
          (.folder ['e'] 9 []) := by
  have hlists : nestedDatabase.lists .photos = [sampleObject 0, sampleObject 1, sampleObject 2,
      newObject 1007 (sampleObject 1) ['e'] 0 DataType.Folder] := by rfl
  refine ⟨(sample_reachable FolderAddition).step (.add (by simp [sample_photos]) ['e'] 0
    DataType.Folder ⟨Or.inl (by decide), Or.inl rfl⟩), _, by rfl, fun hreceived => ?_⟩
  have hold : newObject 1007 (sampleObject 1) ['e'] 0 DataType.Folder ∈
      nestedDatabase.objects .photos := by
    simp [Database.objects, hlists]
  refine hreceived.replaced _ (WellFormed.mem_of_objects hold) ⟨_, hold, by decide, .refl⟩
    (newObject 1007 (sampleObject 1) ['e'] 0 DataType.Folder) ?_ rfl
  decide

end VitaMTP
