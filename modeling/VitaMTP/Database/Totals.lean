import Mathlib.Data.BitVec
import VitaMTP.Database.Blocks
import VitaMTP.Database.Entries
import VitaMTP.Library.ChildSums

/-! The size of a folder or category is the one it was inserted with and those of the objects
directly below it. -/
namespace VitaMTP
open ParentFirst

/-- The sizes of the objects directly below the id `k`, added up. -/
def sizeBelow (l : List CmaObject) (k : ℤ) : ULong :=
  childSum CmaObject.ohfiParent (fun o => o.metadata.size) l k

/-- The category's own object or a folder. -/
def CmaObject.IsDirectory (c : Category) (o : CmaObject) : Prop :=
  o.isFolder = true ∨ o.ohfi = c.ohfi

instance (c : Category) (o : CmaObject) : Decidable (o.IsDirectory c) := by
  unfold CmaObject.IsDirectory
  infer_instance

def AddsUp (l : List CmaObject) (o : CmaObject) : Prop :=
  o.metadata.size = o.insertedSize + sizeBelow l o.ohfi

/-- All folders and categories add up. -/
def Database.AddsUp (db : Database) : Prop :=
  ∀ c, ∀ o ∈ db.lists c, o.IsDirectory c → VitaMTP.AddsUp (db.lists c) o

theorem sizeBelow_append (l l' : List CmaObject) (k : ℤ) :
    sizeBelow (l ++ l') k = sizeBelow l k + sizeBelow l' k := childSum_append l l' k

theorem sizeBelow_cons (o : CmaObject) (l : List CmaObject) (k : ℤ) :
    sizeBelow (o :: l) k = (if o.ohfiParent = k then o.metadata.size else 0) + sizeBelow l k :=
  childSum_cons o l k

/-- A block of objects below `root` whose folders add up, and the sizes directly below `root`. -/
structure SumBlock (count root : ℤ) (os : List CmaObject) (total : ULong) : Prop where
  low : root < count
  numbered : Numbered count os
  rooted : Rooted CmaObject.ohfi CmaObject.ohfiParent [root] os
  total : sizeBelow os root = total
  addsUp : ∀ o ∈ os, o.isFolder = true → AddsUp os o

namespace SumBlock

variable {count root : ℤ} {os os' : List CmaObject} {total total' : ULong}

theorem parent_cases (hnum : Numbered count os)
    (hroot : Rooted CmaObject.ohfi CmaObject.ohfiParent [root] os) {o : CmaObject} (ho : o ∈ os) :
    o.ohfiParent = root ∨ count ≤ o.ohfiParent ∧ o.ohfiParent < count + os.length := by
  obtain ⟨p, q, rfl⟩ := List.append_of_mem ho
  rcases hroot.par_mem with hp | hp
  · exact Or.inl (List.mem_singleton.mp hp)
  · obtain ⟨x, hx, he⟩ := List.mem_map.mp hp
    have := hnum.bounds x (List.mem_append_left _ hx)
    exact Or.inr (by omega)

/-- Only the ids of the block and its root have anything below them. -/
theorem sizeBelow_eq_zero (hnum : Numbered count os)
    (hroot : Rooted CmaObject.ohfi CmaObject.ohfiParent [root] os) {k : ℤ} (hk : k ≠ root)
    (hout : k < count ∨ count + os.length ≤ k) : sizeBelow os k = 0 := by
  refine childSum_eq_zero fun o ho he => ?_
  rcases parent_cases hnum hroot ho with hp | hp
  · exact hk (he ▸ hp)
  · omega

theorem nil (h : root < count) : SumBlock count root [] 0 :=
  ⟨h, trivial, trivial, rfl, by simp⟩

theorem append (h : SumBlock count root os total)
    (h' : SumBlock (count + os.length) root os' total') :
    SumBlock count root (os ++ os') (total + total') := by
  refine ⟨h.low, Numbered.append.mpr ⟨h.numbered, h'.numbered⟩,
    Rooted.append.mpr ⟨h.rooted, h'.rooted.mono (by simp)⟩, ?_, fun o ho hfolder => ?_⟩
  · rw [sizeBelow_append, h.total, h'.total]
  · have hlow := h.low
    rw [AddsUp, sizeBelow_append]
    rcases List.mem_append.mp ho with ho | ho
    · have hb := h.numbered.bounds o ho
      rw [sizeBelow_eq_zero h'.numbered h'.rooted (by omega) (by omega), add_zero]
      exact h.addsUp o ho hfolder
    · have hb := h'.numbered.bounds o ho
      rw [sizeBelow_eq_zero h.numbered h.rooted (by omega) (by omega), zero_add]
      exact h'.addsUp o ho hfolder

theorem cons {o : CmaObject} (hlow : root < count) (hid : o.ohfi = count)
    (hparent : o.ohfiParent = root) (h : SumBlock (count + 1) count os total)
    (hsize : o.isFolder = true → o.metadata.size = o.insertedSize + total) :
    SumBlock count root (o :: os) o.metadata.size := by
  refine ⟨hlow, ⟨hid, h.numbered⟩, ⟨by simp [hparent], h.rooted.mono (by simp [hid])⟩, ?_,
    fun x hx hfolder => ?_⟩
  · rw [sizeBelow_cons, if_pos hparent,
      sizeBelow_eq_zero h.numbered h.rooted (by omega) (by omega), add_zero]
  · have hx' : count ≤ x.ohfi := by
      rcases List.mem_cons.mp hx with rfl | hx
      · omega
      · have := h.numbered.bounds x hx
        omega
    rw [AddsUp, sizeBelow_cons, if_neg (by omega), zero_add]
    rcases List.mem_cons.mp hx with rfl | hx
    · rw [hid, h.total]
      exact hsize hfolder
    · exact h.addsUp x hx hfolder

end SumBlock

theorem Scanned.sumBlock {last : CmaObject} {count : ℤ} {os : List CmaObject} {total : ULong}
    (h : Scanned last count os total) (hlow : last.ohfi < count) :
    SumBlock count last.ohfi os total := by
  induction h with
  | nil => exact .nil hlow
  | @cons last current count name statbuf s t inside others hcurrent _ _ _ hin hout =>
    have hid : current.ohfi = count := hcurrent ▸ rfl
    have hparent : current.ohfiParent = last.ohfi := hcurrent ▸ rfl
    have hsize : current.metadata.size = current.insertedSize := hcurrent ▸ rfl
    have hinside := hin (by omega)
    rw [hid] at hinside
    have hfirst : SumBlock count last.ohfi (current.addSize s :: inside)
        (current.addSize s).metadata.size := by
      refine .cons hlow hid hparent hinside fun _ => ?_
      change current.metadata.size + s = current.insertedSize + s
      rw [hsize]
    have hlen : count + 1 + inside.length = count + (current.addSize s :: inside).length := by
      simp only [List.length_cons]
      omega
    have hothers := hout (by omega)
    rw [hlen] at hothers
    exact hfirst.append hothers

/-- An object that does not count for what it is in. -/
def Uncounted (db : Database) (c : Category) (x : CmaObject) : Prop :=
  ∀ root ∈ db.lists c, root.ohfi = x.ohfiParent → root.IsDirectory c → x.metadata.size = 0

instance (db : Database) (c : Category) (x : CmaObject) : Decidable (Uncounted db c x) := by
  unfold Uncounted
  infer_instance

namespace WellFormed

variable {paths : CmaPaths} {uuid : CString} {db : Database} {c : Category} {root x : CmaObject}
  {os : List CmaObject} {count : ℤ} {bytes total : ULong}

open Classical in
theorem sizeBelow_grown (h : WellFormed paths uuid db)
    (hos : SumBlock db.ohfiCount root.ohfi os total) (hx : x ∈ db.lists c) (bytes : ULong)
    (count : ℤ) : sizeBelow ((db.grown c root.ohfi bytes os count).lists c) x.ohfi =
      sizeBelow (db.lists c) x.ohfi + if x.ohfi = root.ohfi then total
        else if NodesBelow (db.lists c) x.ohfi root.ohfi then bytes else 0 := by
  have hgrow : sizeBelow (sizeAdded root.ohfi bytes (db.lists c)) x.ohfi =
      sizeBelow (db.lists c) x.ohfi +
        if x.ohfi ≠ root.ohfi ∧ NodesBelow (db.lists c) x.ohfi root.ohfi then bytes else 0 := by
    unfold sizeBelow sizeAdded
    rw [childSum_map, (h.ordered c).childSum_grow x.ohfi root.ohfi bytes fun y _ => ?_]
    · split <;> rfl
    · intro y _
      split <;> rfl
  rw [Database.grown_lists_self, sizeBelow_append, hgrow, add_assoc]
  by_cases he : x.ohfi = root.ohfi
  · rw [if_neg (by simp [he]), if_pos he, he, hos.total, zero_add]
  · rw [SumBlock.sizeBelow_eq_zero hos.numbered hos.rooted he (Or.inl (h.counted_list c x hx)),
      if_neg he, add_zero]
    simp [he]

open Classical in
/-- What becomes of an object while `root` takes in a block that weighs as much as it grows. -/
theorem addsUp_grown_iff (h : WellFormed paths uuid db)
    (hos : SumBlock db.ohfiCount root.ohfi os total) (hx : x ∈ db.lists c)
    (count : ℤ) (hbytes : x.ohfi = root.ohfi → total = bytes) :
    AddsUp ((db.grown c root.ohfi bytes os count).lists c)
      (if NodesBelow (db.lists c) x.ohfi root.ohfi then x.addSize bytes else x) ↔
      AddsUp (db.lists c) x := by
  have hsum := h.sizeBelow_grown hos hx bytes count
  by_cases hb : NodesBelow (db.lists c) x.ohfi root.ohfi
  · have hsum : sizeBelow ((db.grown c root.ohfi bytes os count).lists c) x.ohfi =
        sizeBelow (db.lists c) x.ohfi + bytes := by
      rw [hsum, if_pos hb]
      split
      · rename_i he
        rw [hbytes he]
      · rfl
    rw [if_pos hb]
    change x.metadata.size + bytes = x.insertedSize + _ ↔ _
    rw [CmaObject.addSize_ohfi, hsum, ← add_assoc]
    exact add_left_inj bytes
  · have hne : x.ohfi ≠ root.ohfi := fun he => hb (he ▸ .refl)
    rw [if_neg hne, if_neg hb, add_zero] at hsum
    rw [if_neg hb, AddsUp, AddsUp, hsum]

theorem addsUp_root_iff (h : WellFormed paths uuid db)
    (hos : SumBlock db.ohfiCount root.ohfi os total) (hroot : root ∈ db.lists c)
    (ha : AddsUp (db.lists c) root) (bytes : ULong) (count : ℤ) :
    AddsUp ((db.grown c root.ohfi bytes os count).lists c) (root.addSize bytes) ↔
      bytes = total := by
  have hsum := h.sizeBelow_grown hos hroot bytes count
  rw [if_pos rfl] at hsum
  change root.metadata.size + bytes = root.insertedSize + _ ↔ _
  rw [CmaObject.addSize_ohfi, hsum, ha, ← add_assoc]
  exact add_right_inj _

theorem ohfiParent_lt (h : WellFormed paths uuid db) (hx : x ∈ db.lists c) :
    x.ohfiParent < db.ohfiCount := by
  rcases h.mem_lists.mp hx with ⟨hm, -⟩ | hobj
  · have h₁ : (0 : ℤ) < FIRST_OBJECT := by decide
    have h₂ := h.counted
    rw [hm.ohfiParent]
    omega
  · obtain ⟨z, hz, hp⟩ := h.exists_parent hobj
    exact hp ▸ h.counted_list c z hz

theorem sizeBelow_new (h : WellFormed paths uuid db) {k : ℤ} (hnew : db.ohfiCount ≤ k) :
    sizeBelow (sizeAdded root.ohfi bytes (db.lists c)) k = 0 := by
  refine childSum_eq_zero fun o ho he => ?_
  have hparents := congrArg (List.map Prod.snd) (sizeAdded_ids root.ohfi bytes (db.lists c))
  rw [List.map_map, List.map_map] at hparents
  have hmem : o.ohfiParent ∈ (db.lists c).map CmaObject.ohfiParent :=
    hparents ▸ List.mem_map_of_mem ho
  obtain ⟨x, hx, hp⟩ := List.mem_map.mp hmem
  have := h.ohfiParent_lt hx
  omega

theorem isFolder_of_new (h : WellFormed paths uuid db) (hnew : db.ohfiCount ≤ x.ohfi)
    (hdir : x.IsDirectory c) : x.isFolder = true := by
  refine hdir.resolve_right fun he => ?_
  have h₁ := c.ohfi_lt_first
  have h₂ := h.counted
  omega

theorem addsUp_grown (h : WellFormed paths uuid db) (hroot : root ∈ db.lists c)
    (hos : SumBlock db.ohfiCount root.ohfi os total)
    (hbytes : root.IsDirectory c → total = bytes) :
    (db.grown c root.ohfi bytes os count).AddsUp ↔ db.AddsUp := by
  classical
  have hself {x : CmaObject} (hx : x ∈ db.lists c) (hdir : x.IsDirectory c) :=
    h.addsUp_grown_iff hos hx count fun he =>
      hbytes ((h.ordered c).inj hx hroot he ▸ hdir)
  constructor
  · intro ha d x hx hdir
    by_cases hd : d = c
    · subst hd
      refine (hself hx hdir).mp (ha d _ ?_ ?_)
      · rw [Database.grown_lists_self]
        exact List.mem_append_left _ (List.mem_map.mpr ⟨x, hx, if_congr Iff.rfl rfl rfl⟩)
      · split <;> exact hdir
    · have := ha d x (by rwa [Database.grown_lists_of_ne hd]) hdir
      rwa [Database.grown_lists_of_ne hd] at this
  · intro ha d y hy hdir
    by_cases hd : d = c
    · subst hd
      rw [Database.grown_lists_self, List.mem_append] at hy
      rcases hy with hy | hy
      · obtain ⟨x, hx, rfl⟩ := List.mem_map.mp hy
        have hxdir : x.IsDirectory d := by
          split at hdir <;> exact hdir
        exact (hself hx hxdir).mpr (ha d x hx hxdir)
      · have hnew := (hos.numbered.bounds y hy).1
        rw [VitaMTP.AddsUp, Database.grown_lists_self, sizeBelow_append,
          h.sizeBelow_new hnew, zero_add]
        exact hos.addsUp y hy (h.isFolder_of_new hnew hdir)
    · rw [Database.grown_lists_of_ne hd] at hy ⊢
      exact ha d y hy hdir

/-- Only bytes that go into a directory are in none of the objects below it. -/
theorem addsUp_sizeAdded (h : WellFormed paths uuid db) (ha : db.AddsUp)
    (hroot : root ∈ db.lists c) :
    (db.setList c (sizeAdded root.ohfi bytes (db.lists c))).AddsUp ↔
      (root.IsDirectory c → bytes = 0) := by
  have hos : SumBlock db.ohfiCount root.ohfi [] 0 := .nil (h.counted_list c root hroot)
  rw [Database.sizeAdded_eq_grown]
  constructor
  · intro hnew hdir
    refine (h.addsUp_root_iff hos hroot (ha c root hroot hdir) bytes db.ohfiCount).mp
      (hnew c _ ?_ hdir)
    rw [Database.grown_lists_self]
    exact List.mem_append_left _ (List.mem_map.mpr ⟨root, hroot, if_pos .refl⟩)
  · intro hbytes
    exact (h.addsUp_grown hroot hos fun hdir => (hbytes hdir).symm).mpr ha

theorem addsUp_without_iff (h : WellFormed paths uuid db) (ha : db.AddsUp)
    (hx : x ∈ db.objects c) :
    (db.setList c (withoutNodes x.ohfi (db.lists c))).AddsUp ↔ Uncounted db c x := by
  have hxl := mem_of_objects hx
  have hsum {y : CmaObject} (hy : y ∈ withoutNodes x.ohfi (db.lists c)) :=
    (h.ordered c).childSum_without (f := fun o => o.metadata.size) hxl (mem_without.mp hy).2
  constructor
  · intro hnew root hroot hp hdir
    have hkept : root ∈ withoutNodes x.ohfi (db.lists c) := by
      refine mem_without.mpr ⟨hroot, ?_⟩
      rw [hp]
      exact (h.ordered c).not_below_par hxl
    have hafter := hnew c root (by simpa using hkept) hdir
    rw [Database.setList_lists_self] at hafter
    have hbefore := ha c root hroot hdir
    rw [AddsUp, sizeBelow, hsum hkept, if_pos hp.symm, ← add_assoc] at hbefore
    rw [AddsUp, sizeBelow, hbefore] at hafter
    exact (add_eq_left).mp hafter
  · intro hcount d y hy hdir
    by_cases hd : d = c
    · subst hd
      rw [Database.setList_lists_self] at hy ⊢
      have hyl := (mem_without.mp hy).1
      have hbefore := ha d y hyl hdir
      rw [AddsUp, sizeBelow, hsum hy] at hbefore
      rw [AddsUp, sizeBelow, hbefore]
      split
      · rename_i hp
        rw [hcount y hyl hp.symm hdir, add_zero]
      · rw [add_zero]
    · rw [Database.setList_lists_of_ne _ _ hd] at hy ⊢
      exact ha d y hy hdir

theorem addsUp_createDatabase {view : DirView} {n : ℕ}
    (hdb : VitaMTP.createDatabase view n paths uuid = some db) : db.AddsUp := by
  refine (createDatabase_induction hdb ?_ fun db₀ c m b h ha hm hmaster hb => ?_).2
  · intro c x hx _
    rw [initDatabase_eq] at hx ⊢
    obtain rfl := List.mem_singleton.mp hx
    cases c <;> rfl
  · have hblock := (entriesBelow_scanned hb).sumBlock (h.counted_list c m hm)
    rw [h.scan_grown hm hmaster hblock.numbered b.2]
    exact (h.addsUp_grown hm hblock fun _ => rfl).mpr ha

end WellFormed

/-- The size `o` was inserted with is an `st_size`, and its own one if all entries can be
examined. -/
def StatSize (view : DirView) (o : CmaObject) : Prop :=
  ∃ path statbuf, view.stat path = some statbuf ∧ o.insertedSize = statbuf.size ∧
    (view.Complete → path = o.path)

/-- Categories, and objects from the id `first` on, were inserted without a size, all others with
what the scan found. -/
def InsertedSize (view : DirView) (first : ℤ) (c : Category) (o : CmaObject) : Prop :=
  if o.ohfi = c.ohfi ∨ first ≤ o.ohfi then o.insertedSize = 0 else StatSize view o

def Database.Inserted (view : DirView) (first : ℤ) (db : Database) : Prop :=
  ∀ c, ∀ o ∈ db.lists c, InsertedSize view first c o

section inserted

variable {view : DirView}

theorem FromEntry.statSize {o : CmaObject} (h : FromEntry view o) : StatSize view o := by
  obtain ⟨statbuf, hfound, hsize⟩ := h.foundWith
  obtain ⟨dir, p, name, r, -, -, hpath, hstat⟩ := id hfound
  by_cases hcomplete : view.Complete
  · exact ⟨o.path, statbuf, hfound.own hcomplete, hsize, fun _ => rfl⟩
  · exact ⟨_, statbuf, hstat, hsize, fun hc => absurd hc hcomplete⟩

variable {paths : CmaPaths} {uuid : CString} {db : Database} {c : Category} {root : CmaObject}
  {os : List CmaObject} {first : ℤ}

theorem Database.Inserted.grown (h : db.Inserted view first)
    (hos : ∀ o ∈ os, InsertedSize view first c o) (root : ℤ) (bytes : ULong) (count : ℤ) :
    (db.grown c root bytes os count).Inserted view first :=
  forall_grown (P := InsertedSize view first) (fun _ _ _ ho => ho) h hos root bytes count

theorem Database.Inserted.without (h : db.Inserted view first) (c : Category) (ohfi : ℤ) :
    (db.setList c (withoutNodes ohfi (db.lists c))).Inserted view first :=
  forall_without (P := InsertedSize view first) h c ohfi

theorem WellFormed.inserted_createDatabase {n : ℕ}
    (hdb : VitaMTP.createDatabase view n paths uuid = some db) :
    db.Inserted view db.ohfiCount := by
  refine (createDatabase_induction (P := fun db => ∀ first, db.ohfiCount ≤ first →
    db.Inserted view first) hdb ?_ fun db₀ c m b h hi hm hmaster hb => ?_).2 db.ohfiCount le_rfl
  · intro first _ c o ho
    rw [initDatabase_eq] at ho
    obtain rfl := List.mem_singleton.mp ho
    have hid : (categoryObject paths uuid c).ohfi = c.ohfi := by
      cases c <;> rfl
    rw [InsertedSize, if_pos (Or.inl hid)]
    cases c <;> rfl
  · have hnum := (entriesBelow_scanned hb).numbered
    rw [h.scan_grown hm hmaster hnum b.2]
    intro first hfirst
    rw [Database.grown_ohfiCount] at hfirst
    refine (hi first (by omega)).grown (fun o ho => ?_) _ _ _
    have hbounds := hnum.bounds o ho
    have h₁ := c.ohfi_lt_first
    have h₂ := h.counted
    rw [InsertedSize, if_neg (by omega)]
    exact (entriesBelow_fromEntry hb o ho).statSize

end inserted

end VitaMTP
