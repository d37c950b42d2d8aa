import VitaMTP.Database.Reachable

/-! Every object inherits the kind of its category. -/
namespace VitaMTP
open ParentFirst

/-- An object of the category: one type bit, the kind of the category, and the union filled in
for them. -/
structure Typed (c : Category) (o : CmaObject) : Prop where
  type : o.metadata.type = DirType.REGULAR
  dataType : o.metadata.dataType = DataType.Folder ||| c.dataType ∨
    o.metadata.dataType = DataType.File ||| c.dataType
  data : ∃ name rootName, o.metadata.data = initialData o.metadata.dataType name rootName

/-- What an object hands on to the entries below it. -/
def HandsOn (c : Category) (root : CmaObject) : Prop :=
  root.metadata.dataType &&& ~~~DataType.Folder = c.dataType

namespace Database

def Typed (db : Database) : Prop := ∀ c, ∀ o ∈ db.objects c, VitaMTP.Typed c o

end Database

theorem newObject_typed {c : Category} {root : CmaObject} (h : HandsOn c root) {type : Mask}
    (htype : type = DataType.Folder ∨ type = DataType.File) (ohfi : ℤ) (name : CString)
    (size : ULong) : Typed c (newObject ohfi root name size type) := by
  have hdata : (newObject ohfi root name size type).metadata.dataType = type ||| c.dataType := by
    rw [← h]
    rfl
  refine ⟨rfl, ?_, name, root.metadata.name, rfl⟩
  rw [hdata]
  rcases htype with rfl | rfl
  · exact Or.inl rfl
  · exact Or.inr rfl

theorem Typed.handsOn {c : Category} {o : CmaObject} (h : Typed c o) (hf : o.isFolder) :
    HandsOn c o := by
  unfold CmaObject.isFolder at hf
  unfold HandsOn
  rcases h.dataType with he | he
  · rw [he]
    cases c <;> decide
  · have hfile : ((DataType.File ||| c.dataType) &&& DataType.Folder != 0) = false := by
      cases c <;> decide
    rw [he, hfile] at hf
    simp at hf

theorem IsMaster.handsOn {paths : CmaPaths} {uuid : CString} {c : Category} {o : CmaObject}
    (h : IsMaster paths uuid c o) : HandsOn c o := by
  obtain ⟨size, handle, h⟩ := h
  have hdata : o.metadata.dataType = c.dataType := congrArg (·.metadata.dataType) h
  rw [HandsOn, hdata]
  cases c <;> decide

/-- Only three fields of the metadata matter. -/
theorem Typed.congr {c : Category} {o o' : CmaObject} (h : Typed c o)
    (ht : o'.metadata.type = o.metadata.type) (hd : o'.metadata.dataType = o.metadata.dataType)
    (hdata : o'.metadata.data = o.metadata.data) : Typed c o' := by
  refine ⟨ht.trans h.type, ?_, ?_⟩
  · rw [hd]
    exact h.dataType
  · rw [hd, hdata]
    exact h.data

theorem Scanned.typed {c : Category} {last : CmaObject} {count : ℤ} {os : List CmaObject}
    {total : ULong} (h : Scanned last count os total) (hlast : HandsOn c last) :
    ∀ o ∈ os, Typed c o := by
  induction h with
  | nil => simp
  | @cons last current count name statbuf s t inside others hcurrent hfile _ _ hin hout =>
    have htyped : Typed c current := by
      subst hcurrent
      refine newObject_typed hlast ?_ count name statbuf.size
      unfold Stat.dataType
      split
      · exact Or.inl rfl
      · exact Or.inr rfl
    intro o ho
    simp only [List.mem_cons, List.mem_append] at ho
    rcases ho with rfl | ho | ho
    · exact htyped.congr rfl rfl rfl
    · cases hf : current.isFolder with
      | true => exact hin (htyped.handsOn hf) o ho
      | false =>
        rw [hfile hf] at ho
        simp at ho
    · exact hout hlast o ho

namespace WellFormed

variable {paths : CmaPaths} {uuid : CString} {db : Database}

section objects

variable {P : Category → CmaObject → Prop}

/-- What holds of all objects and of those that are appended. -/
theorem objects_append (h : WellFormed paths uuid db) (hP : ∀ c, ∀ o ∈ db.objects c, P c o)
    {c : Category} {os : List CmaObject} (hos : ∀ o ∈ os, P c o) :
    ∀ d, ∀ o ∈ (db.append c os).objects d, P d o := by
  obtain ⟨m, hm, -⟩ := h.master c
  intro d o ho
  by_cases hd : d = c
  · subst hd
    have hlists : (db.append d os).objects d = db.objects d ++ os := by
      rw [Database.objects, Database.append_lists_self, hm]
      rfl
    rw [hlists, List.mem_append] at ho
    exact ho.elim (hP d o) (hos o)
  · rw [Database.objects, show (db.append c os).lists d = db.lists d by
      simp [Database.append, hd]] at ho
    exact hP d o ho

theorem objects_map (hP : ∀ c, ∀ o ∈ db.objects c, P c o) (c : Category)
    {g : CmaObject → CmaObject} (hg : ∀ o ∈ db.objects c, P c o → P c (g o)) :
    ∀ d, ∀ o ∈ (db.setList c ((db.lists c).map g)).objects d, P d o := by
  intro d o ho
  by_cases hd : d = c
  · subst hd
    rw [Database.objects, Database.setList_lists_self, ← List.map_tail] at ho
    obtain ⟨y, hy, rfl⟩ := List.mem_map.mp ho
    exact hg y hy (hP d y hy)
  · rw [Database.objects, Database.setList_lists_of_ne _ _ hd] at ho
    exact hP d o ho

theorem objects_without (h : WellFormed paths uuid db) (hP : ∀ c, ∀ o ∈ db.objects c, P c o)
    {c : Category} {x : CmaObject} (hx : x ∈ db.objects c) :
    ∀ d, ∀ o ∈ (db.setList c (withoutNodes x.ohfi (db.lists c))).objects d, P d o := by
  intro d o ho
  by_cases hd : d = c
  · subst hd
    apply hP d o
    have hol := WellFormed.mem_of_objects ho
    rw [Database.setList_lists_self] at hol
    have hsub : (withoutNodes x.ohfi (db.lists d)).Sublist (db.lists d) := without_sublist _ _
    rcases h.mem_lists.mp (hsub.subset hol) with ⟨hm, -⟩ | hobj
    · exact absurd hm.ohfi ((h.without hx).ohfi_ne_master ho)
    · exact hobj
  · rw [Database.objects, Database.setList_lists_of_ne _ _ hd] at ho
    exact hP d o ho

/-- The links between listed records play no part. -/
theorem objects_unlinked {db' : Database} (hlink : db'.unlinked = db.unlinked)
    (hP : ∀ c, ∀ o ∈ db.objects c, P c o)
    (hunlinked : ∀ c o o', o.unlinked = o'.unlinked → P c o → P c o') :
    ∀ c, ∀ o ∈ db'.objects c, P c o := by
  intro c o ho
  have hmem : o.unlinked ∈ db'.unlinked.objects c := by
    rw [Database.objects, Database.unlinked, ← List.map_tail]
    exact List.mem_map_of_mem ho
  rw [hlink, Database.objects, Database.unlinked, ← List.map_tail] at hmem
  obtain ⟨y, hy, he⟩ := List.mem_map.mp hmem
  exact hunlinked c y o he (hP c y hy)

end objects

theorem renameRootEntry_kinds (h : WellFormed paths uuid db) {c : Category} {x : CmaObject}
    (hx : x ∈ db.objects c) {name : Option CString} {newname : CString} {db' : Database}
    (hrename : VitaMTP.renameRootEntry db (c, x) name newname = some db') :
    ∃ g, db' = db.setList c ((db.lists c).map g) ∧ ∀ y ∈ db.objects c,
      (g y).metadata.type = y.metadata.type ∧ (g y).metadata.dataType = y.metadata.dataType ∧
        (g y).metadata.data = y.metadata.data := by
  obtain ⟨origName, origRelPath, hname, hpath⟩ := (h.objects c x hx).named
  obtain ⟨g, sent, heq, hgx, -, hg, -, -⟩ := h.renameRootEntry_map hx hname hpath name newname
  refine ⟨g, Option.some.inj (hrename.symm.trans heq), fun y hy => ?_⟩
  by_cases hyx : y = x
  · rw [hyx, hgx]
    exact ⟨rfl, rfl, rfl⟩
  · rw [hg y (WellFormed.mem_of_objects hy) hyx]
    cases sent y.ohfiParent <;> exact ⟨rfl, rfl, rfl⟩

theorem typed_createDatabase {view : DirView} {n : ℕ}
    (hdb : VitaMTP.createDatabase view n paths uuid = some db) : db.Typed := by
  refine (createDatabase_induction hdb ?_ fun db₀ c m b h ht hm hmaster hb => ?_).2
  · intro c x hx
    rw [initDatabase_eq] at hx
    simp [Database.objects] at hx
  · have htyped := h.objects_append ht ((entriesBelow_scanned hb).typed hmaster.handsOn)
    refine objects_map htyped c fun o _ ho => ?_
    split <;> exact ho.congr rfl rfl rfl

end WellFormed

theorem Operation.typed {paths : CmaPaths} {uuid : CString} {db db' : Database}
    (hop : Operation FolderAddition db db') (h : WellFormed paths uuid db) (ht : db.Typed) :
    db'.Typed := by
  cases hop with
  | @add c root hroot name size type hallowed =>
    obtain ⟨hfolder, htype⟩ := hallowed
    have hhands : HandsOn c root := by
      rcases h.mem_lists.mp hroot with ⟨hm, -⟩ | ho
      · exact hm.handsOn
      · refine (ht c root ho).handsOn (hfolder.resolve_right ?_)
        rintro ⟨d, hd⟩
        exact h.ohfi_ne_master ho hd
    rw [addToDatabase_eq]
    refine h.objects_append ht fun o ho => ?_
    obtain rfl := List.mem_singleton.mp ho
    exact newObject_typed hhands htype _ _ _
  | @remove _ c x start hx hmem hstart hremove =>
    rw [h.removeFromDatabase_eq hx hmem hstart] at hremove
    obtain rfl := Option.some.inj hremove
    exact h.objects_without ht hx
  | @rename _ c x hx name newname hrename =>
    obtain ⟨g, rfl, hg⟩ := h.renameRootEntry_kinds hx hrename
    refine WellFormed.objects_map ht c fun y hy hty => ?_
    obtain ⟨htype, hdataType, hdata⟩ := hg y hy
    exact hty.congr htype hdataType hdata
  | @increment _ c x hx size hincrement =>
    rw [h.incrementSizeMetadata_eq hx] at hincrement
    obtain rfl := Option.some.inj hincrement
    refine WellFormed.objects_map ht c fun y _ hty => ?_
    split <;> exact hty.congr rfl rfl rfl
  | setHandle c ohfi handle =>
    refine WellFormed.objects_map ht c fun y _ hty => ?_
    split <;> exact hty.congr rfl rfl rfl
  | link hlink =>
    refine WellFormed.objects_unlinked hlink ht fun c o o' he hto => ?_
    exact hto.congr (congrArg (·.metadata.type) he).symm
      (congrArg (·.metadata.dataType) he).symm (congrArg (·.metadata.data) he).symm

theorem Reachable.typed {view : DirView} {n : ℕ} {paths : CmaPaths} {uuid : CString}
    {db : Database} (h : Reachable FolderAddition view n paths uuid db) : db.Typed := by
  induction h with
  | create h => exact WellFormed.typed_createDatabase h
  | step h hop ih => exact hop.typed h.wellFormed ih

end VitaMTP
