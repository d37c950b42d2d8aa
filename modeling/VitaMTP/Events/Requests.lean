import VitaMTP.Database.Undo
import VitaMTP.Events.Operate

/-! What the handlers of `OperateObject` and `DeleteObject` do, by what the id names. -/
namespace VitaMTP
open ParentFirst

namespace WellFormed

variable {paths : CmaPaths} {uuid : CString} {db : Database}

/-- An id names nothing, a category, directly or through one of its filters, or an object. -/
theorem lookup_cases (h : WellFormed paths uuid db) (i : ℤ) :
    (ohfiToObject db i = none ∧ ∀ c, ∀ y ∈ db.lists c, i ∉ y.ids) ∨
    (∃ c m, ohfiToObject db i = some (c, m) ∧ m ∈ db.lists c ∧ IsMaster paths uuid c m ∧
      i ∈ c.ohfi :: c.filterIds) ∨
    (∃ c x, ohfiToObject db i = some (c, x) ∧ x ∈ db.objects c ∧ x.ohfi = i) := by
  by_cases hex : ∃ c, ∃ y ∈ db.lists c, i ∈ y.ids
  · obtain ⟨c, y, hy, hi⟩ := hex
    have hfound := h.ohfiToObject_eq hy hi
    rcases h.mem_lists.mp hy with ⟨hm, -⟩ | ho
    · rw [hm.ids] at hi
      exact Or.inr (Or.inl ⟨c, y, hfound, hy, hm, hi⟩)
    · exact Or.inr (Or.inr ⟨c, y, hfound, ho, ((h.ohfiToObject_object ho).mp hfound).symm⟩)
  · simp only [not_exists, not_and] at hex
    exact Or.inl ⟨ohfiToObject_none hex, hex⟩

theorem ohfi_not_category (h : WellFormed paths uuid db) {c d : Category} {x : CmaObject}
    (hx : x ∈ db.objects c) : x.ohfi ∉ d.ohfi :: d.filterIds := by
  intro hi
  have hfirst := (h.objects c x hx).first
  rcases List.mem_cons.mp hi with he | hi
  · exact h.ohfi_ne_master hx he
  · have := (d.filterIds_range _ hi).2
    omega

theorem parent_found (h : WellFormed paths uuid db) {c : Category} {x : CmaObject}
    (hx : x ∈ db.objects c) :
    ∃ start ∈ db.lists c, start.ohfi = x.ohfiParent ∧
      ohfiToObject db x.ohfiParent = some (c, start) := by
  obtain ⟨z, hz, hzp⟩ := h.exists_parent hx
  exact ⟨z, hz, hzp, h.ohfiToObject_eq hz (by simp [CmaObject.ids, hzp])⟩

end WellFormed

section handlers

variable {σ : Type} {posix : Posix σ} {paths : CmaPaths} {uuid : CString} {s : Host σ}

theorem vitaEventDeleteObject_object (h : WellFormed paths uuid s.db) {c : Category}
    {x : CmaObject} (hx : x ∈ s.db.objects c) {event : Event}
    (hfound : ohfiToObject s.db event.param2.toInt = some (c, x)) :
    vitaEventDeleteObject posix s event =
      .ok ({ db := s.db.setList c (withoutNodes x.ohfi (s.db.lists c))
             fs := deleteAll posix s.fs x.path }, [.reportResult .OK]) := by
  obtain ⟨start, hmem, hstart, hparent⟩ := h.parent_found hx
  have hid := (h.ohfiToObject_object hx).mp hfound
  rw [hid] at hfound
  simp only [vitaEventDeleteObject, hid, hfound, hparent,
    h.removeFromDatabase_eq hx hmem (Or.inl hstart)]

/-- Deleting a category deletes its directory, and then there is no parent to start from. -/
theorem vitaEventDeleteObject_category (h : WellFormed paths uuid s.db) {c : Category}
    {m : CmaObject} (hm : IsMaster paths uuid c m) {event : Event}
    (hfound : ohfiToObject s.db event.param2.toInt = some (c, m)) :
    vitaEventDeleteObject posix s event = .error (deleteAll posix s.fs m.path) := by
  have hparent : ohfiToObject s.db m.ohfiParent = none := by
    cases hp : ohfiToObject s.db m.ohfiParent with
    | none => rfl
    | some p =>
      have := h.ohfiToObject_pos hp
      rw [hm.ohfiParent] at this
      omega
  simp [vitaEventDeleteObject, hfound, hparent, removeFromDatabase]

/-- Renaming an object renames it in the database and moves its file, or renames it back. -/
theorem operateRename_object (posix : Posix σ) (h : WellFormed paths uuid s.db) {c : Category}
    {x : CmaObject} (hx : x ∈ s.db.objects c) {name path : CString} (hname : x.metadata.name = some name)
    (hpath : x.metadata.path = some path) (title : CString) {newPath : CString}
    (hnew : newPath = strreplace x.path path (strreplace path name title)) :
    ∃ db₁ db₂, renameRootEntry s.db (c, x) none title = some db₁ ∧
      db₂.ohfiCount = s.db.ohfiCount ∧ (db₂ = s.db ↔ RenameUndone (s.db.lists c) x title) ∧
      (∀ fs, posix.rename s.fs.state x.path newPath = some fs →
        operateRename posix s (c, x) title =
          some ({ db := db₁
                  fs := { state := fs, calls := s.fs.calls ++ [.rename x.path newPath] } },
            [.reportResultWithParam .OK x.ohfi])) ∧
      (posix.rename s.fs.state x.path newPath = none →
        operateRename posix s (c, x) title =
          some ({ db := db₂
                  fs := { s.fs with calls := s.fs.calls ++ [.rename x.path newPath] } },
            [.reportResult .Failed_Operate_Object])) := by
  obtain ⟨db₁, x₁, db₂, heq, hget, hid, hpath₁, hback, hiff⟩ :=
    h.rename_back hx hname hpath title
  rw [← hnew] at hpath₁
  have hcount := (renameRootEntry_ohfiCount hback).trans (renameRootEntry_ohfiCount heq)
  refine ⟨db₁, db₂, heq, hcount, hiff, fun fs hmove => ?_, fun hmove => ?_⟩
  · simp only [operateRename, hname, heq, hget, hpath₁, hid, Option.bind_eq_bind, Option.bind_some,
      move, Disk.call, hmove, Option.isSome_some, if_true, Option.getD_some]
  · simp only [operateRename, hname, heq, hget, hpath₁, hback, Option.bind_eq_bind,
      Option.bind_some, move, Disk.call, hmove, Option.isSome_none, Bool.false_eq_true, if_false,
      Option.getD_none]

theorem operateRename_category {c : Category} {m : CmaObject} (hm : IsMaster paths uuid c m)
    (title : CString) : operateRename posix s (c, m) title = none := by
  simp [operateRename, hm.name_none]

end handlers

end VitaMTP
