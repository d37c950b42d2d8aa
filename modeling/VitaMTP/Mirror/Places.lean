import VitaMTP.Database.Blocks
import VitaMTP.Database.RenameExact
import VitaMTP.Events.ReceiveTree
import VitaMTP.Library.Enumerates
import VitaMTP.Library.FileTree

/-! Where the objects of the database are in a file system. -/
namespace VitaMTP
open ParentFirst

instance (name : CString) : Decidable (VisibleName name) := by
  unfold VisibleName
  infer_instance

/-- The path of what lies at `comps` below `root`. -/
def diskPath (root : CString) (comps : List CString) : CString :=
  root ++ comps.flatMap ('/' :: ·)

@[simp] theorem diskPath_nil (root : CString) : diskPath root [] = root := by simp [diskPath]

theorem diskPath_length (root : CString) (comps : List CString) :
    (diskPath root comps).length = root.length + (comps.map fun name => name.length + 1).sum := by
  rw [diskPath, List.length_append, List.length_flatMap]
  rfl

theorem diskPath_concat (root : CString) (comps : List CString) (name : CString) :
    diskPath root (comps ++ [name]) = joinPath (diskPath root comps) name := by
  simp [diskPath, joinPath]

/-- A visible name below visible names. -/
theorem visible_concat {comps : List CString} (hcomps : ∀ n ∈ comps, VisibleName n)
    {name : CString} (hname : VisibleName name) : ∀ n ∈ comps ++ [name], VisibleName n := by
  intro n hn
  rcases List.mem_append.mp hn with hn | hn
  · exact hcomps n hn
  · exact List.mem_singleton.mp hn ▸ hname

/-- What a scan of the directory `base` can see at `comps` below it. -/
def seen (t : FileTree CString) (base comps : List CString) : Option FileKind :=
  if comps ≠ [] ∧ ∀ n ∈ comps, VisibleName n then t.kind (base ++ comps) else none

section seen

variable {t : FileTree CString} {base comps rest : List CString} {k : FileKind}

theorem seen_of_visible (hne : comps ≠ []) (hvisible : ∀ n ∈ comps, VisibleName n) :
    seen t base comps = t.kind (base ++ comps) := if_pos ⟨hne, hvisible⟩

theorem seen_eq_some : seen t base comps = some k ↔
    comps ≠ [] ∧ (∀ n ∈ comps, VisibleName n) ∧ t.kind (base ++ comps) = some k := by
  unfold seen
  split
  · rename_i h
    exact ⟨fun hk => ⟨h.1, h.2, hk⟩, fun hk => hk.2.2⟩
  · rename_i h
    simp only [reduceCtorEq, false_iff]
    exact fun hsome => h ⟨hsome.1, hsome.2.1⟩

theorem seen_append_none (h : seen t base comps = none) (hne : comps ≠ []) :
    seen t base (comps ++ rest) = none := by
  rw [Option.eq_none_iff_forall_ne_some]
  intro k hk
  obtain ⟨-, hvisible, hkind⟩ := seen_eq_some.mp hk
  rw [seen_of_visible hne fun n hn => hvisible n (List.mem_append_left _ hn)] at h
  have hnone := t.kind_append_none h rest
  rw [List.append_assoc, hkind] at hnone
  simp at hnone

end seen

namespace CmaObject

/-- The names that lead from the directory of the category to the object. -/
def comps (o : CmaObject) : List CString :=
  match o.metadata.path with
  | none => []
  | some path => path.splitOn '/'

def kind (o : CmaObject) : FileKind := if o.isFolder then .folder else .file

def place (o : CmaObject) : List CString × FileKind := (o.comps, o.kind)

/-- The name is one visible component, and an object is either a folder or a file. -/
structure Plain (c : Category) (o : CmaObject) : Prop where
  name : ∀ name, o.metadata.name = some name → VisibleName name
  kind : o.ohfi ≠ c.ohfi → o.isFile = !o.isFolder

theorem Plain.addSize {c : Category} {o : CmaObject} (h : o.Plain c) (size : ULong) :
    (o.addSize size).Plain c := ⟨h.name, h.kind⟩

theorem comps_of_none {o : CmaObject} (h : o.metadata.path = none) : o.comps = [] := by
  simp [comps, h]

theorem comps_of_some {o : CmaObject} {path : CString} (h : o.metadata.path = some path) :
    o.comps = path.splitOn '/' := by
  simp [comps, h]

/-- The path can be read off the names. -/
theorem intercalate_comps {o : CmaObject} {path : CString} (h : o.metadata.path = some path) :
    ['/'].intercalate o.comps = path := by
  rw [comps_of_some h, List.intercalate_splitOn]

/-- Relative paths lead to places. -/
theorem splitOn_relPrefix (root : CmaObject) {name : CString} (hname : '/' ∉ name) :
    (root.relPrefix ++ name).splitOn '/' = root.comps ++ [name] := by
  cases hpath : root.metadata.path with
  | none => simp [relPrefix_of_none hpath, comps_of_none hpath, List.splitOn_eq_singleton hname]
  | some path =>
    rw [relPrefix_of_some hpath, comps_of_some hpath, List.append_assoc, List.singleton_append,
      List.splitOn_append_cons_self, List.splitOn_eq_singleton hname]

theorem comps_of_relPath {root o : CmaObject} {name : CString} (hname : '/' ∉ name)
    (hpath : o.metadata.path = some (root.relPrefix ++ name)) : o.comps = root.comps ++ [name] := by
  rw [comps_of_some hpath, splitOn_relPrefix root hname]

theorem relPath_of_comps {root o : CmaObject} {name path : CString} (hname : '/' ∉ name)
    (hpath : o.metadata.path = some path) (hcomps : o.comps = root.comps ++ [name]) :
    path = root.relPrefix ++ name := by
  rw [← intercalate_comps hpath, hcomps, ← splitOn_relPrefix root hname, List.intercalate_splitOn]

end CmaObject

theorem newObject_comps (count : ℤ) (root : CmaObject) {name : CString} (size : ULong)
    (type : Mask) (hname : '/' ∉ name) :
    (newObject count root name size type).comps = root.comps ++ [name] :=
  CmaObject.comps_of_relPath hname (newObject_path count root name size type)

theorem IsMaster.isFile {paths : CmaPaths} {uuid : CString} {c : Category} {m : CmaObject}
    (hm : IsMaster paths uuid c m) : m.isFile = false := by
  obtain ⟨size, handle, hm⟩ := hm
  have htype : m.metadata.dataType = c.dataType :=
    (congrArg (fun o => o.metadata.dataType) hm).trans (by cases c <;> rfl)
  unfold CmaObject.isFile
  rw [htype]
  cases c <;> decide

namespace WellFormed

variable {paths : CmaPaths} {uuid : CString} {db : Database} {c : Category} {x y : CmaObject}

theorem comps_master (_h : WellFormed paths uuid db) {m : CmaObject}
    (hm : IsMaster paths uuid c m) : m.comps = [] :=
  CmaObject.comps_of_none hm.path_none

/-- An object lies under its name in its parent. -/
theorem comps_object (h : WellFormed paths uuid db) (hj : db.Joined)
    (hplain : ∀ c, ∀ o ∈ db.lists c, o.Plain c) (hx : x ∈ db.objects c) :
    ∃ root ∈ db.lists c, ∃ name, root.ohfi = x.ohfiParent ∧ x.metadata.name = some name ∧
      VisibleName name ∧ x.comps = root.comps ++ [name] ∧ x.path = joinPath root.path name := by
  obtain ⟨root, hroot, hp⟩ := h.exists_parent hx
  obtain ⟨name, hname, hrel, hpath⟩ := hj c x hx root hroot hp
  have hvisible := (hplain c x (mem_of_objects hx)).name name hname
  refine ⟨root, hroot, name, hp, hname, hvisible, CmaObject.comps_of_relPath hvisible.2.1 hrel, ?_⟩
  rw [hpath, CmaObject.absPrefix]
  exact List.append_assoc root.path ['/'] name

theorem comps_visible (h : WellFormed paths uuid db) (hj : db.Joined)
    (hplain : ∀ c, ∀ o ∈ db.lists c, o.Plain c) : ∀ x ∈ db.lists c,
    (∀ n ∈ x.comps, VisibleName n) ∧ x.path = diskPath (c.path paths uuid) x.comps := by
  refine h.induction (fun m _ hm => ?_) fun x hx z hz hp ih => ?_
  · rw [h.comps_master hm, hm.path]
    simp
  · obtain ⟨root, hroot, name, hp', -, hvisible, hcomps, hpath⟩ := h.comps_object hj hplain hx
    obtain rfl := (h.ordered c).inj hroot hz (hp'.trans hp.symm)
    rw [hcomps, hpath, diskPath_concat, ← ih.2]
    refine ⟨fun n hn => ?_, rfl⟩
    rcases List.mem_append.mp hn with hn | hn
    · exact ih.1 n hn
    · exact List.mem_singleton.mp hn ▸ hvisible

theorem comps_ne_nil (h : WellFormed paths uuid db) (hj : db.Joined)
    (hplain : ∀ c, ∀ o ∈ db.lists c, o.Plain c) (hx : x ∈ db.objects c) : x.comps ≠ [] := by
  obtain ⟨root, -, name, -, -, -, hcomps, -⟩ := h.comps_object hj hplain hx
  simp [hcomps]

/-- Where places are distinct, the objects below one are those with longer places. -/
theorem below_iff_prefix (h : WellFormed paths uuid db) (hj : db.Joined)
    (hplain : ∀ c, ∀ o ∈ db.lists c, o.Plain c)
    (hdistinct : ((db.objects c).map CmaObject.comps).Nodup) (hx : x ∈ db.objects c) :
    ∀ y ∈ db.lists c, NodesBelow (db.lists c) x.ohfi y.ohfi ↔ x.comps <+: y.comps := by
  have hne := h.comps_ne_nil hj hplain hx
  refine h.induction (fun m _ hm => ?_) fun y hy z hz hp ih => ?_
  · rw [h.comps_master hm, List.prefix_nil, hm.ohfi]
    exact iff_of_false (h.not_below_master (h.objects c x hx).first) hne
  · obtain ⟨root, hroot, name, hp', -, -, hcomps, -⟩ := h.comps_object hj hplain hy
    obtain rfl := (h.ordered c).inj hroot hz (hp'.trans hp.symm)
    have hid : x.ohfi = y.ohfi ↔ x.comps = y.comps := by
      constructor
      · intro he
        rw [(h.ordered c).inj (mem_of_objects hx) (mem_of_objects hy) he]
      · intro he
        rw [List.inj_on_of_nodup_map hdistinct hx hy he]
    rw [nodesBelow_iff (h.ordered c) (mem_of_objects hy), ← hp, ih, hid, hcomps,
      List.prefix_concat_iff]

end WellFormed

end VitaMTP
