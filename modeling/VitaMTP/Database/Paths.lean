import VitaMTP.Database.Parents
import VitaMTP.Library.FirstMatch

/-! The law that joins the paths of an object to those of its parent. -/
namespace VitaMTP
open ParentFirst

namespace CmaObject

/-- What `addToDatabase` puts in front of the name of an entry below `root`. -/
def relPrefix (root : CmaObject) : CString :=
  match root.metadata.path with
  | none => []
  | some path => path ++ ['/']

def absPrefix (root : CmaObject) : CString := root.path ++ ['/']

/-- Both paths of the object are those of its parent, followed by its name. -/
def JoinedTo (root x : CmaObject) : Prop :=
  ∃ name, x.metadata.name = some name ∧ x.metadata.path = some (root.relPrefix ++ name) ∧
    x.path = root.absPrefix ++ name

theorem relPrefix_of_some {o : CmaObject} {path : CString} (h : o.metadata.path = some path) :
    o.relPrefix = path ++ ['/'] := by
  simp [relPrefix, h]

theorem relPrefix_of_none {o : CmaObject} (h : o.metadata.path = none) : o.relPrefix = [] := by
  simp [relPrefix, h]

theorem JoinedTo.congr {root root' x x' : CmaObject} (h : JoinedTo root x)
    (hr : root'.metadata.path = root.metadata.path) (hrp : root'.path = root.path)
    (hn : x'.metadata.name = x.metadata.name) (hp : x'.metadata.path = x.metadata.path)
    (hxp : x'.path = x.path) : JoinedTo root' x' := by
  obtain ⟨name, hname, hrel, hpath⟩ := h
  refine ⟨name, hn ▸ hname, ?_, ?_⟩
  · rw [hp, hrel, relPrefix, relPrefix, hr]
  · rw [hxp, hpath, absPrefix, absPrefix, hrp]

theorem newObject_joinedTo (ohfi : ℤ) (root : CmaObject) (name : CString) (size : ULong)
    (type : Mask) : JoinedTo root (newObject ohfi root name size type) := by
  refine ⟨name, rfl, ?_, ?_⟩
  · simp only [newObject, relPrefix]
    cases root.metadata.path <;> simp [joinPath]
  · simp [newObject, joinPath, absPrefix]

end CmaObject

namespace Database

/-- Every object is joined to its parent. -/
def Joined (db : Database) : Prop :=
  ∀ c, ∀ x ∈ db.objects c, ∀ root ∈ db.lists c, root.ohfi = x.ohfiParent → root.JoinedTo x

end Database

theorem joinedTo_inherited : Inherited CmaObject.JoinedTo := by
  refine ⟨CmaObject.newObject_joinedTo, ?_⟩
  rintro root _ x _ h ⟨size, handle, rfl⟩ ⟨size', handle', rfl⟩
  exact h.congr rfl rfl rfl rfl rfl

namespace WellFormed

variable {paths : CmaPaths} {uuid : CString} {db : Database}

/-- What holds of the category and of every object whose parent has it holds of all objects. -/
theorem induction (h : WellFormed paths uuid db) {c : Category} {P : CmaObject → Prop}
    (hmaster : ∀ m ∈ db.lists c, IsMaster paths uuid c m → P m)
    (hstep : ∀ x ∈ db.objects c, ∀ root ∈ db.lists c, root.ohfi = x.ohfiParent → P root → P x) :
    ∀ x ∈ db.lists c, P x := by
  refine (h.rooted_list c).induction fun x hx hor => ?_
  rcases h.mem_lists.mp hx with ⟨hm, -⟩ | hobj
  · exact hmaster x hx hm
  · rcases hor with hp | ⟨z, hz, he, hP⟩
    · obtain ⟨z, hz, he⟩ := h.exists_parent hobj
      have := h.ohfi_pos hz
      have := List.mem_singleton.mp hp
      omega
    · exact hstep x hobj z hz he hP

theorem below_master (h : WellFormed paths uuid db) {c : Category} :
    ∀ x ∈ db.lists c, NodesBelow (db.lists c) c.ohfi x.ohfi := by
  refine h.induction (fun m _ hm => ?_) (fun x hx root _ hp ih => ?_)
  · rw [hm.ohfi]
  · exact ih.tail ⟨x, mem_of_objects hx, hp.symm, rfl⟩

theorem relPrefix_master (_h : WellFormed paths uuid db) {c : Category} {m : CmaObject}
    (hm : IsMaster paths uuid c m) : m.relPrefix = [] :=
  CmaObject.relPrefix_of_none hm.path_none

/-- The path on disk is the directory of the category followed by the relative path. -/
theorem path_eq (h : WellFormed paths uuid db) (hj : db.Joined) {c : Category} :
    ∀ x ∈ db.lists c, x.absPrefix = c.path paths uuid ++ '/' :: x.relPrefix := by
  refine h.induction (fun m _ hm => ?_) (fun x hx root hroot hp ih => ?_)
  · rw [CmaObject.absPrefix, hm.path, h.relPrefix_master hm]
  · obtain ⟨name, -, hrel, hpath⟩ := hj c x hx root hroot hp
    rw [CmaObject.absPrefix, hpath, CmaObject.relPrefix_of_some hrel, ih]
    simp

theorem joined_addToDatabase (h : WellFormed paths uuid db) (hj : db.Joined) {c : Category}
    {root : CmaObject} (hroot : root ∈ db.lists c) (name : CString) (size : ULong) (type : Mask) :
    (VitaMTP.addToDatabase db c root name size type).1.Joined :=
  h.related_addToDatabase hj joinedTo_inherited hroot name size type

theorem joined_createDatabase {view : DirView} {n : ℕ}
    (hdb : VitaMTP.createDatabase view n paths uuid = some db) : db.Joined :=
  related_createDatabase joinedTo_inherited hdb

end WellFormed

end VitaMTP
