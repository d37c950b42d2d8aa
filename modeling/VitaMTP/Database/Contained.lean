import VitaMTP.Database.Blocks
import VitaMTP.Database.Entries
import VitaMTP.Database.RenameExact
import VitaMTP.Library.Components

/-! Objects whose names are proper lie inside the directory of their category. -/
namespace VitaMTP
open ParentFirst Components

/-- The entries that mean the directory itself and the one above. -/
def ProperComponent (name : CString) : Prop := name ≠ ['.'] ∧ name ≠ ['.', '.']

instance (name : CString) : Decidable (ProperComponent name) := by
  unfold ProperComponent
  infer_instance

/-- `path` is `root` followed by one or more components, none of them empty, `.` or `..`. -/
def Contained (root path : CString) : Prop := Inside '/' ProperComponent root path

/-- One or more such components with a slash between them. -/
def ProperName (name : CString) : Prop := Contained [] ('/' :: name)

theorem properName_component {name : CString} (hne : name ≠ []) (hslash : '/' ∉ name)
    (hproper : ProperComponent name) : ProperName name :=
  inside_component [] hne hslash hproper

/-- The directory or something in it. -/
def Within (root path : CString) : Prop := path = root ∨ Contained root path

theorem Within.join {root dir name : CString} (h : Within root dir) (hname : ProperName name) :
    Contained root (joinPath dir name) := by
  have hjoin : Contained dir (joinPath dir name) := Inside.join hname dir
  rcases h with rfl | h
  · exact hjoin
  · exact h.trans hjoin

/-- What `readdir` gives is a file name. -/
def DirView.FileNames (view : DirView) : Prop :=
  ∀ dir names, view.opendir dir = some names → ∀ name ∈ names, name ≠ [] ∧ '/' ∉ name

/-- The name of the object, if it has one, is proper. -/
def CmaObject.ProperlyNamed (o : CmaObject) : Prop :=
  ∀ name, o.metadata.name = some name → ProperName name

def Database.ProperNames (db : Database) : Prop := ∀ c, ∀ o ∈ db.lists c, o.ProperlyNamed

theorem FromEntry.properlyNamed {view : DirView} (hview : view.FileNames) {o : CmaObject}
    (h : FromEntry view o) : o.ProperlyNamed := by
  obtain ⟨last, p, entry, r, statbuf, count, size, hdir, hvisible, -, rfl⟩ := h
  intro name hname
  obtain rfl : entry = name := Option.some.inj hname
  obtain ⟨hne, hslash⟩ := hview _ _ hdir entry (by simp)
  refine properName_component hne hslash ⟨?_, ?_⟩
  · rintro rfl
    exact hvisible rfl
  · rintro rfl
    exact hvisible rfl

namespace WellFormed

variable {paths : CmaPaths} {uuid : CString} {db db₁ : Database} {c : Category}
  {root x : CmaObject} {os : List CmaObject}

theorem within (h : WellFormed paths uuid db) (hj : db.Joined) (hn : db.ProperNames) :
    ∀ x ∈ db.lists c, Within (c.path paths uuid) x.path := by
  refine h.induction (fun m _ hm => Or.inl hm.path) fun x hx root hroot hp ih => ?_
  obtain ⟨name, hname, -, hpath⟩ := hj c x hx root hroot hp
  have hjoined : x.path = joinPath root.path name := by
    rw [hpath, CmaObject.absPrefix]
    exact List.append_assoc root.path ['/'] name
  exact Or.inr (hjoined ▸ ih.join (hn c x (mem_of_objects hx) name hname))

theorem contained (h : WellFormed paths uuid db) (hj : db.Joined) (hn : db.ProperNames)
    (hx : x ∈ db.objects c) : Contained (c.path paths uuid) x.path := by
  obtain ⟨root, hroot, hp⟩ := h.exists_parent hx
  obtain ⟨name, hname, -, hpath⟩ := hj c x hx root hroot hp
  have hjoined : x.path = joinPath root.path name := by
    rw [hpath, CmaObject.absPrefix]
    exact List.append_assoc root.path ['/'] name
  exact hjoined ▸ (h.within hj hn root hroot).join (hn c x (mem_of_objects hx) name hname)

theorem properNames_grown (hn : db.ProperNames) (hos : ∀ o ∈ os, o.ProperlyNamed) (c : Category)
    (root : ℤ) (bytes : ULong) (count : ℤ) : (db.grown c root bytes os count).ProperNames :=
  forall_grown (P := fun _ => CmaObject.ProperlyNamed) (fun _ _ _ ho => ho) hn hos root bytes count

theorem properNames_without (hn : db.ProperNames) (c : Category) (ohfi : ℤ) :
    (db.setList c (withoutNodes ohfi (db.lists c))).ProperNames :=
  forall_without (P := fun _ => CmaObject.ProperlyNamed) hn c ohfi

theorem properNames_createDatabase {view : DirView} {n : ℕ} (hview : view.FileNames)
    (hdb : VitaMTP.createDatabase view n paths uuid = some db) : db.ProperNames := by
  refine (createDatabase_induction hdb ?_ fun db₀ c m b h hn hm hmaster hb => ?_).2
  · intro c o ho name hname
    rw [initDatabase_eq] at ho
    obtain rfl := List.mem_singleton.mp ho
    have hnone := (isMaster_categoryObject paths uuid c).name_none
    rw [hnone] at hname
    simp at hname
  · rw [h.scan_grown hm hmaster (entriesBelow_scanned hb).numbered b.2]
    exact properNames_grown hn (fun o ho => (entriesBelow_fromEntry hb o ho).properlyNamed hview)
      c _ _ _

/-- A rename whose searches hit keeps names and paths in order, and the new path is the one of
the parent joined with the new name. -/
theorem contained_rename (h : WellFormed paths uuid db) (hj : db.Joined) (hn : db.ProperNames)
    (hx : x ∈ db.objects c) (hroot : root ∈ db.lists c) (hparent : root.ohfi = x.ohfiParent)
    {name path title : CString} (hname : x.metadata.name = some name)
    (hpath : x.metadata.path = some path) (htitle : ProperName title)
    (hhits : RenameHits (c.path paths uuid) (db.lists c) root x name title)
    (hrename : VitaMTP.renameRootEntry db (c, x) none title = some db₁) :
    db₁.Joined ∧ db₁.ProperNames ∧
      Contained (c.path paths uuid) (strreplace x.path path (strreplace path name title)) := by
  obtain ⟨db', heq, hiff⟩ := h.renamedExactly_iff hj hx hroot hparent hname title
  obtain rfl := Option.some.inj (heq.symm.trans hrename)
  obtain ⟨⟨g, rfl, hsame, hbelow, hself⟩, hj₁⟩ := hiff.mpr hhits
  refine ⟨hj₁, ?_, ?_⟩
  · intro d o ho n hn'
    by_cases hd : d = c
    · subst hd
      rw [Database.setList_lists_self] at ho
      obtain ⟨y, hy, rfl⟩ := List.mem_map.mp ho
      by_cases hyx : y = x
      · rw [hyx, hself] at hn'
        exact Option.some.inj hn' ▸ htitle
      · by_cases hb : NodesBelow (db.lists d) x.ohfi y.ohfi
        · rw [hbelow y hy hyx hb] at hn'
          exact hn d y hy n hn'
        · rw [hsame y hy hb] at hn'
          exact hn d y hy n hn'
    · rw [Database.setList_lists_of_ne _ _ hd] at ho
      exact hn d o ho n hn'
  · rw [h.renamed_path hj hx hroot hparent hname hpath hhits]
    exact (h.within hj hn root hroot).join htitle

end WellFormed

end VitaMTP
