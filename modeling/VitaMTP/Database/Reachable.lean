import VitaMTP.Database.Sizes

/-! The databases a program run can build, and what their ids promise. -/
namespace VitaMTP
open ParentFirst

/-- One call that changes the object lists. `allowed` restricts under which objects what types
are added. The start of a removal is the object's parent or its category. A listing changes
nothing but its links. -/
inductive Operation (allowed : CmaObject → Mask → Prop) : Database → Database → Prop
  | add {db : Database} {c : Category} {root : CmaObject} (hroot : root ∈ db.lists c)
      (name : CString) (size : ULong) (type : Mask) (hallowed : allowed root type) :
      Operation allowed db (addToDatabase db c root name size type).1
  | remove {db db' : Database} {c : Category} {x start : CmaObject} (hx : x ∈ db.objects c)
      (hmem : start ∈ db.lists c) (hstart : start.ohfi = x.ohfiParent ∨ start.ohfi = c.ohfi)
      (h : removeFromDatabase db x.ohfi (some (c, start)) = some db') :
      Operation allowed db db'
  | rename {db db' : Database} {c : Category} {x : CmaObject} (hx : x ∈ db.objects c)
      (name : Option CString) (newname : CString)
      (h : renameRootEntry db (c, x) name newname = some db') :
      Operation allowed db db'
  | increment {db db' : Database} {c : Category} {x : CmaObject} (hx : x ∈ db.lists c)
      (size : ULong) (h : incrementSizeMetadata db (c, x) size = some db') :
      Operation allowed db db'
  | setHandle (db : Database) (c : Category) (ohfi : ℤ) (handle : BitVec 32) :
      Operation allowed db (db.modify c ohfi (CmaObject.setHandle handle))
  | link {db db' : Database} (h : db'.unlinked = db.unlinked) : Operation allowed db db'

/-- A file or folder added under a category or a folder. -/
def FolderAddition (root : CmaObject) (type : Mask) : Prop :=
  (root.isFolder ∨ ∃ c : Category, root.ohfi = c.ohfi) ∧
    (type = DataType.Folder ∨ type = DataType.File)

/-- A scan followed by any operations. -/
inductive Reachable (allowed : CmaObject → Mask → Prop) (view : DirView) (n : ℕ)
    (paths : CmaPaths) (uuid : CString) : Database → Prop
  | create {db : Database} (h : createDatabase view n paths uuid = some db) :
      Reachable allowed view n paths uuid db
  | step {db db' : Database} (h : Reachable allowed view n paths uuid db)
      (hop : Operation allowed db db') : Reachable allowed view n paths uuid db'

variable {allowed : CmaObject → Mask → Prop}

theorem Operation.wellFormed {paths : CmaPaths} {uuid : CString} {db db' : Database}
    (hop : Operation allowed db db') (h : WellFormed paths uuid db) :
    WellFormed paths uuid db' := by
  cases hop with
  | add hroot name size type _ => exact h.addToDatabase hroot name size type
  | remove hx hmem hstart hremove =>
    rw [h.removeFromDatabase_eq hx hmem hstart] at hremove
    exact Option.some.inj hremove ▸ h.without hx
  | rename hx name newname hrename =>
    obtain ⟨db'', heq, h'⟩ := h.renameRootEntry hx name newname
    exact Option.some.inj (heq.symm.trans hrename) ▸ h'
  | increment hx size hincrement =>
    rw [h.incrementSizeMetadata_eq hx] at hincrement
    exact Option.some.inj hincrement ▸ h.sizeAdded_wellFormed _ _ _
  | setHandle c ohfi handle => exact h.setHandle c ohfi handle
  | link hlink => exact WellFormed.unlinked_iff.mp (hlink ▸ WellFormed.unlinked_iff.mpr h)

theorem Reachable.wellFormed {view : DirView} {n : ℕ} {paths : CmaPaths} {uuid : CString}
    {db : Database} (h : Reachable allowed view n paths uuid db) : WellFormed paths uuid db := by
  induction h with
  | create h => exact WellFormed.createDatabase h
  | step _ hop ih => exact hop.wellFormed ih

namespace Database

/-- The ids of all categories, filters and objects. -/
def ids (db : Database) : List ℤ := Category.all.flatMap fun c => (db.lists c).flatMap CmaObject.ids

def filterIds (db : Database) : List ℤ :=
  Category.all.flatMap fun c => (db.lists c).flatMap fun o => o.filters.map (·.ohfi)

/-- The ids of the objects added after `initDatabase`. -/
def objectIds (db : Database) : List ℤ :=
  Category.all.flatMap fun c => (db.objects c).map CmaObject.ohfi

theorem mem_ids {db : Database} {i : ℤ} : i ∈ db.ids ↔ ∃ c, ∃ o ∈ db.lists c, i ∈ o.ids := by
  simp [ids]

end Database

namespace WellFormed

variable {paths : CmaPaths} {uuid : CString} {db : Database}

theorem ids_nodup (h : WellFormed paths uuid db) : db.ids.Nodup := by
  have hself : ∀ c, ∀ o ∈ db.lists c, o.ids.Nodup := by
    intro c o ho
    rcases h.mem_lists.mp ho with ⟨hm, -⟩ | ho
    · rw [hm.ids]
      exact c.ids_nodup
    · rw [(h.objects c o ho).ids]
      exact List.nodup_singleton _
  have hlist : ∀ c, ((db.lists c).flatMap CmaObject.ids).Nodup := by
    intro c
    have hn : (db.lists c).Nodup := (h.ohfi_nodup c).of_map
    refine List.nodup_flatMap.mpr ⟨hself c, hn.imp_of_mem fun hx hy hne => ?_⟩
    intro i hix hiy
    exact hne (h.ids_inj hx hy hix hiy).2
  refine List.nodup_flatMap.mpr ⟨fun c _ => hlist c, ?_⟩
  have hall : Category.all.Nodup := by decide
  refine hall.imp fun {c d} hne i hi hi' => ?_
  obtain ⟨x, hx, hix⟩ := List.mem_flatMap.mp hi
  obtain ⟨y, hy, hiy⟩ := List.mem_flatMap.mp hi'
  exact hne (h.ids_inj hx hy hix hiy).1

theorem offset_le_iff (h : WellFormed paths uuid db) {i : ℤ} (hi : i ∈ db.ids) :
    OHFI_OFFSET ≤ i ↔ i ∈ db.filterIds ∨ i ∈ db.objectIds := by
  have hlow : OHFI_OFFSET ≤ FIRST_OBJECT := by decide
  have hobject : i ∈ db.objectIds → OHFI_OFFSET ≤ i := by
    intro hi
    obtain ⟨c, -, hi⟩ := List.mem_flatMap.mp hi
    obtain ⟨o, ho, rfl⟩ := List.mem_map.mp hi
    exact hlow.trans (h.objects c o ho).first
  have hfilter : i ∈ db.filterIds → OHFI_OFFSET ≤ i := by
    intro hi
    obtain ⟨c, -, hi⟩ := List.mem_flatMap.mp hi
    obtain ⟨o, ho, hi⟩ := List.mem_flatMap.mp hi
    rcases h.mem_lists.mp ho with ⟨hm, -⟩ | ho
    · have hids := hm.ids
      rw [CmaObject.ids, List.cons.injEq] at hids
      rw [hids.2] at hi
      exact (c.filterIds_range i hi).1
    · rw [(h.objects c o ho).filters] at hi
      simp at hi
  refine ⟨fun hle => ?_, fun hor => hor.elim hfilter hobject⟩
  obtain ⟨c, o, ho, hio⟩ := Database.mem_ids.mp hi
  rcases h.mem_lists.mp ho with ⟨hm, -⟩ | hobj
  · refine Or.inl (List.mem_flatMap.mpr ⟨c, Category.mem_all c, List.mem_flatMap.mpr ⟨o, ho, ?_⟩⟩)
    rcases List.mem_cons.mp hio with he | hio
    · have := c.ohfi_lt
      rw [hm.ohfi] at he
      omega
    · exact hio
  · rw [(h.objects c o hobj).ids, List.mem_singleton] at hio
    exact Or.inr (List.mem_flatMap.mpr
      ⟨c, Category.mem_all c, hio ▸ List.mem_map_of_mem hobj⟩)

end WellFormed

/-- The representation invariant of every database a run can build. -/
theorem representation_invariant {view : DirView} {n : ℕ} {paths : CmaPaths} {uuid : CString}
    {db : Database} (h : Reachable allowed view n paths uuid db) :
    db.ids.Nodup ∧
      (∀ i ∈ db.ids, OHFI_OFFSET ≤ i ↔ i ∈ db.filterIds ∨ i ∈ db.objectIds) ∧
      (∀ c l x l', db.lists c = l ++ x :: l' → l ≠ [] → ∃ y ∈ l, y.ohfi = x.ohfiParent) ∧
      (∀ i c x, ohfiToObject db i = some (c, x) ↔ x ∈ db.lists c ∧ i ∈ x.ids) ∧
      ∀ i, i ∉ db.ids → ohfiToObject db i = none := by
  have hwf := h.wellFormed
  refine ⟨hwf.ids_nodup, fun i hi => hwf.offset_le_iff hi, fun c l x l' hl hne => ?_,
    fun i c x => hwf.ohfiToObject_eq_some, fun i hi => ?_⟩
  · obtain ⟨m, hm, -⟩ := hwf.master c
    have hx : x ∈ db.objects c := by
      obtain ⟨y, ys, rfl⟩ := List.exists_cons_of_ne_nil hne
      rw [Database.objects, hl]
      simp
    exact hwf.parent_before hx hl
  · refine WellFormed.ohfiToObject_none fun c x hx hix => hi ?_
    exact Database.mem_ids.mpr ⟨c, x, hx, hix⟩

def samplePaths : CmaPaths where
  urlPath := ['/', 'u']
  photosPath := ['/', 'p']
  videosPath := ['/', 'v']
  musicPath := ['/', 'm']
  appsPath := ['/', 'a']
  packagesPath := ['/', 'k']

/-- A photo folder `d` with the photo `x` in it. -/
def sampleView : DirView where
  opendir path :=
    if path = ['/', 'p', '/'] then some [['.'], ['d']]
    else if path = ['/', 'p', '/', 'd', '/'] then some [['.', '.'], ['x']]
    else none
  stat path :=
    if path = ['/', 'p', '/', 'd'] then some { size := 4096, isDir := true }
    else if path = ['/', 'p', '/', 'd', '/', 'x'] then some { size := 7, isDir := false }
    else none

def sampleDatabase : Database :=
  (createDatabase sampleView 3 samplePaths ['0']).getD (initDatabase samplePaths ['0'])

theorem sample_created : createDatabase sampleView 3 samplePaths ['0'] = some sampleDatabase := by
  rfl

theorem sample_reachable (allowed : CmaObject → Mask → Prop) :
    Reachable allowed sampleView 3 samplePaths ['0'] sampleDatabase :=
  .create sample_created

/-- The objects of the category, its own object first. -/
def sampleObject (k : ℕ) : CmaObject :=
  (sampleDatabase.lists .photos).getD k (masterObject samplePaths ['0'] .photos)

theorem sample_photos :
    sampleDatabase.lists .photos = [sampleObject 0, sampleObject 1, sampleObject 2] := by
  rfl

theorem representation_invariant_sample :
    sampleDatabase.ids = [2, 1000, 1001, 1005, 1006, 3, 1002, 1003, 1, 1004, 5, 10, 13, 14, 16, 18,
      6] ∧ sampleDatabase.ids.Nodup :=
  ⟨by decide, (representation_invariant (sample_reachable FolderAddition)).1⟩

end VitaMTP
