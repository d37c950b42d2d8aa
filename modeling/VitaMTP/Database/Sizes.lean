import Mathlib.Algebra.Order.BigOperators.Group.List
import Mathlib.Algebra.Order.Ring.Nat
import VitaMTP.Database.Lookup

/-! `incrementSizeMetadata` adds to an object and to everything above it. -/
namespace VitaMTP
open ParentFirst

open Classical in
/-- The list after `size` was added to the object `ohfi` and to everything above it. -/
noncomputable def sizeAdded (ohfi : ℤ) (size : ULong) (l : List CmaObject) : List CmaObject :=
  l.map fun y => if NodesBelow l y.ohfi ohfi then y.addSize size else y

theorem sizeAdded_ids (k : ℤ) (size : ULong) (l : List CmaObject) :
    (sizeAdded k size l).map (fun o => (o.ohfi, o.ohfiParent)) =
      l.map (fun o => (o.ohfi, o.ohfiParent)) := by
  unfold sizeAdded
  rw [List.map_map]
  refine List.map_congr_left fun o _ => ?_
  simp only [Function.comp_apply]
  split <;> rfl

theorem sizeAdded_keys (k : ℤ) (size : ULong) (l : List CmaObject) :
    (sizeAdded k size l).map CmaObject.ohfi = l.map CmaObject.ohfi := by
  have := congrArg (List.map Prod.fst) (sizeAdded_ids k size l)
  simpa [Function.comp_def] using this

theorem sizeAdded_zero (k : ℤ) (l : List CmaObject) : sizeAdded k 0 l = l := by
  unfold sizeAdded
  conv_rhs => rw [← List.map_id l]
  refine List.map_congr_left fun o _ => ?_
  have hzero : o.addSize 0 = o := CmaObject.addSize_zero o
  rw [hzero, ite_self]
  rfl

theorem sizeAdded_sizeAdded (k : ℤ) (a b : ULong) (l : List CmaObject) :
    sizeAdded k b (sizeAdded k a l) = sizeAdded k (a + b) l := by
  have hbelow (x : ℤ) : NodesBelow (sizeAdded k a l) x k ↔ NodesBelow l x k :=
    Below.congr (sizeAdded_ids k a l)
  unfold sizeAdded at hbelow ⊢
  rw [List.map_map]
  refine List.map_congr_left fun o _ => ?_
  simp only [Function.comp_apply]
  by_cases h : NodesBelow l o.ohfi k
  · rw [if_pos h, if_pos h, if_pos ((hbelow (o.addSize a).ohfi).mpr h)]
    simp only [CmaObject.addSize, add_assoc]
  · rw [if_neg h, if_neg h, if_neg fun h' => h ((hbelow _).mp h')]

theorem sizeAdded_append {l os : List CmaObject} (ho : NodesOrdered (l ++ os)) {k : ℤ}
    (hk : k ∈ l.map CmaObject.ohfi) (size : ULong) :
    sizeAdded k size (l ++ os) = sizeAdded k size l ++ os := by
  unfold sizeAdded
  rw [List.map_append]
  congr 1
  · refine List.map_congr_left fun o _ => ?_
    classical
    exact if_congr (ho.below_append hk) rfl rfl
  · conv_rhs => rw [← List.map_id os]
    exact List.map_congr_left fun o hos => if_neg (ho.not_below_append hos hk)

/-- A new object that grows hands the bytes on to its parent. -/
theorem sizeAdded_concat {l : List CmaObject} {x : CmaObject} (ho : NodesOrdered (l ++ [x]))
    (hp : x.ohfiParent ∈ l.map CmaObject.ohfi) (size : ULong) :
    sizeAdded x.ohfi size (l ++ [x]) = sizeAdded x.ohfiParent size l ++ [x.addSize size] := by
  have hx : x ∈ l ++ [x] := by simp
  unfold sizeAdded
  rw [List.map_append, List.map_singleton, if_pos .refl]
  congr 1
  refine List.map_congr_left fun o hol => ?_
  have hne : o.ohfi ≠ x.ohfi := by
    have hn := ho.nodup
    rw [List.map_append, List.nodup_append'] at hn
    exact fun he => hn.2.2 (List.mem_map_of_mem hol) (by simp [he])
  have hiff : NodesBelow (l ++ [x]) o.ohfi x.ohfi ↔ NodesBelow l o.ohfi x.ohfiParent := by
    have hparent : NodesBelow (l ++ [x]) o.ohfi x.ohfiParent ↔ NodesBelow l o.ohfi x.ohfiParent :=
      ho.below_append hp
    rw [nodesBelow_iff ho hx, hparent]
    simp [hne]
  classical
  exact if_congr hiff rfl rfl

/-- Ids belong to one object each, and all but a category's own object have their parent in front
of them. -/
structure Climbable (db : Database) : Prop where
  ordered : ∀ c, NodesOrdered (db.lists c)
  ids_inj : ∀ {c d : Category} {x y : CmaObject} {i : ℤ}, x ∈ db.lists c → y ∈ db.lists d →
    i ∈ x.ids → i ∈ y.ids → c = d ∧ x = y
  parents : ∀ {c : Category} {m : CmaObject} {l : List CmaObject}, db.lists c = m :: l →
    m.ohfiParent ≤ 0 ∧ Rooted CmaObject.ohfi CmaObject.ohfiParent [m.ohfi] l ∧
      ∀ o ∈ l, 0 < o.ohfiParent

private def grow (ohfi : ℤ) (size : ULong) (o : CmaObject) : CmaObject :=
  if o.ohfi = ohfi then o.addSize size else o

private theorem grow_fields (ohfi : ℤ) (size : ULong) (o : CmaObject) :
    (grow ohfi size o).ohfi = o.ohfi ∧ (grow ohfi size o).ohfiParent = o.ohfiParent ∧
      (grow ohfi size o).ids = o.ids := by
  unfold grow
  split
  · exact ⟨rfl, rfl, rfl⟩
  · exact ⟨rfl, rfl, rfl⟩

private theorem map_grow_ids (ohfi : ℤ) (size : ULong) (l : List CmaObject) :
    (l.map (grow ohfi size)).map (fun o => (o.ohfi, o.ohfiParent)) =
      l.map (fun o => (o.ohfi, o.ohfiParent)) := by
  rw [List.map_map]
  refine List.map_congr_left fun o _ => ?_
  obtain ⟨hohfi, hparent, -⟩ := grow_fields ohfi size o
  rw [Function.comp_apply, hohfi, hparent]

namespace Climbable

variable {db : Database}

theorem addSize (h : Climbable db) (c : Category) (ohfi : ℤ) (size : ULong) :
    Climbable (db.modify c ohfi (CmaObject.addSize size)) := by
  let g : Category → CmaObject → CmaObject := fun d => if d = c then grow ohfi size else id
  have hlists (d : Category) :
      (db.modify c ohfi (CmaObject.addSize size)).lists d = (db.lists d).map (g d) := by
    by_cases hd : d = c
    · subst hd
      simp only [g, if_pos, Database.modify, Database.setList_lists_self]
      rfl
    · simp only [g, if_neg hd, Database.modify, Database.setList_lists_of_ne _ _ hd, List.map_id]
  have hfields (d : Category) (o : CmaObject) : (g d o).ohfi = o.ohfi ∧
      (g d o).ohfiParent = o.ohfiParent ∧ (g d o).ids = o.ids := by
    by_cases hd : d = c
    · simpa only [g, if_pos hd] using grow_fields ohfi size o
    · simp [g, if_neg hd]
  have hpairs (d : Category) (l : List CmaObject) :
      (l.map (g d)).map (fun o => (o.ohfi, o.ohfiParent)) =
        l.map (fun o => (o.ohfi, o.ohfiParent)) := by
    rw [List.map_map]
    refine List.map_congr_left fun o _ => ?_
    rw [Function.comp_apply, (hfields d o).1, (hfields d o).2.1]
  constructor
  · intro d
    rw [hlists]
    exact (h.ordered d).congr (hpairs d _)
  · intro d e x y i hx hy hix hiy
    rw [hlists] at hx hy
    obtain ⟨x₀, hx₀, rfl⟩ := List.mem_map.mp hx
    obtain ⟨y₀, hy₀, rfl⟩ := List.mem_map.mp hy
    rw [(hfields d x₀).2.2] at hix
    rw [(hfields e y₀).2.2] at hiy
    obtain ⟨rfl, rfl⟩ := h.ids_inj hx₀ hy₀ hix hiy
    exact ⟨rfl, rfl⟩
  · intro d m l hl
    rw [hlists, List.map_eq_cons_iff] at hl
    obtain ⟨m, l, hl, rfl, rfl⟩ := hl
    obtain ⟨hm, hrooted, hpos⟩ := h.parents hl
    rw [(hfields d m).1, (hfields d m).2.1]
    refine ⟨hm, hrooted.congr (hpairs d l), fun o ho => ?_⟩
    obtain ⟨o₀, ho₀, rfl⟩ := List.mem_map.mp ho
    rw [(hfields d o₀).2.1]
    exact hpos o₀ ho₀

theorem sizeAdded_head (h : Climbable db) {c : Category} {m : CmaObject} {l : List CmaObject}
    (hl : db.lists c = m :: l) (size : ULong) :
    (db.lists c).map (grow m.ohfi size) = sizeAdded m.ohfi size (db.lists c) := by
  have ho := h.ordered c
  rw [hl] at ho ⊢
  unfold sizeAdded grow
  refine List.map_congr_left fun y hy => ?_
  have hbelow : NodesBelow (m :: l) y.ohfi m.ohfi ↔ y = m := ho.below_head hy
  classical
  refine if_congr ?_ rfl rfl
  rw [hbelow]
  exact ⟨ho.inj hy (by simp), fun he => he ▸ rfl⟩

theorem sizeAdded_parent (h : Climbable db) {c : Category} {x z : CmaObject}
    (hx : x ∈ db.lists c) (hzx : z.ohfi = x.ohfiParent) (size : ULong) :
    sizeAdded z.ohfi size ((db.lists c).map (grow x.ohfi size)) =
      sizeAdded x.ohfi size (db.lists c) := by
  have ho := h.ordered c
  unfold sizeAdded
  rw [List.map_map]
  refine List.map_congr_left fun y hy => ?_
  have hbelow : NodesBelow ((db.lists c).map (grow x.ohfi size)) y.ohfi z.ohfi ↔
      NodesBelow (db.lists c) y.ohfi x.ohfiParent := by
    rw [hzx]
    exact Below.congr (map_grow_ids x.ohfi size _)
  rw [Function.comp_apply, (grow_fields x.ohfi size y).1]
  by_cases hyx : y = x
  · subst hyx
    have hself : grow y.ohfi size y = y.addSize size := if_pos rfl
    rw [if_neg (fun hb => ho.not_below_par hy (hbelow.mp hb)), if_pos .refl, hself]
  · have hne : y.ohfi ≠ x.ohfi := fun he => hyx (ho.inj hy hx he)
    have hother : grow x.ohfi size y = y := if_neg hne
    rw [hother]
    classical
    refine if_congr ?_ rfl rfl
    rw [hbelow, nodesBelow_iff ho hx]
    simp [hne]

/-- An object that has something in front of it has its parent there. -/
theorem parent_before (h : Climbable db) {c : Category} {p q : List CmaObject} {x : CmaObject}
    (hl : db.lists c = p ++ x :: q) (hp : p ≠ []) :
    0 < x.ohfiParent ∧ ∃ z ∈ p, z.ohfi = x.ohfiParent := by
  obtain ⟨m, p, rfl⟩ := List.exists_cons_of_ne_nil hp
  rw [List.cons_append] at hl
  obtain ⟨-, hrooted, hpos⟩ := h.parents hl
  refine ⟨hpos x (by simp), ?_⟩
  rcases hrooted.par_mem with hm | hmem
  · exact ⟨m, by simp, (List.mem_singleton.mp hm).symm⟩
  · obtain ⟨z, hz, he⟩ := List.mem_map.mp hmem
    exact ⟨z, List.mem_cons_of_mem _ hz, he⟩

/-- The loop from an object that has `p` in front of it. Every round it stands further in front. -/
theorem incrementSizeLoop_eq (h : Climbable db) {c : Category} {x : CmaObject}
    {p q : List CmaObject} (hl : db.lists c = p ++ x :: q) (size : ULong) {n : ℕ}
    (hn : p.length + 1 ≤ n) :
    incrementSizeLoop n db c x.ohfi size =
      some (db.setList c (sizeAdded x.ohfi size (db.lists c))) := by
  induction hlen : p.length using Nat.strong_induction_on generalizing n db x p q with
  | h len ih =>
  subst hlen
  obtain ⟨n, rfl⟩ : ∃ m, n = m + 1 := ⟨n - 1, by omega⟩
  have hx : x ∈ db.lists c := by
    rw [hl]
    simp
  have h' := h.addSize c x.ohfi size
  have hlists : (db.modify c x.ohfi (CmaObject.addSize size)).lists c =
      (db.lists c).map (grow x.ohfi size) := Database.setList_lists_self ..
  have hgrown : grow x.ohfi size x = x.addSize size := if_pos rfl
  have hx' : x.addSize size ∈ (db.modify c x.ohfi (CmaObject.addSize size)).lists c := by
    rw [hlists, ← hgrown]
    exact List.mem_map_of_mem hx
  have hget : (db.modify c x.ohfi (CmaObject.addSize size)).get? c x.ohfi =
      some (x.addSize size) := Database.get?_of_ordered (h'.ordered c) hx'
  simp only [incrementSizeLoop, Option.bind_eq_bind]
  rw [hget, Option.bind_some, CmaObject.addSize_ohfiParent]
  by_cases hp : p = []
  · subst hp
    have hstop := (h.parents hl).1
    rw [if_neg (by omega), ← h.sizeAdded_head hl]
    rfl
  · obtain ⟨hpos, z, hz, hzx⟩ := h.parent_before hl hp
    obtain ⟨p₁, p₂, rfl⟩ := List.append_of_mem hz
    have hl' : (db.modify c x.ohfi (CmaObject.addSize size)).lists c =
        p₁.map (grow x.ohfi size) ++
          grow x.ohfi size z :: (p₂ ++ x :: q).map (grow x.ohfi size) := by
      rw [hlists, hl]
      simp
    have hzfields := grow_fields x.ohfi size z
    have hfind : ohfiToObject (db.modify c x.ohfi (CmaObject.addSize size)) x.ohfiParent =
        some (c, grow x.ohfi size z) := by
      refine ohfiToObject_of_unique (fun d => (h'.ordered d).nodup.of_map) h'.ids_inj ?_ ?_
      · rw [hl']
        simp
      · rw [hzfields.2.2, CmaObject.ids, hzx]
        exact List.mem_cons_self ..
    rw [if_pos hpos, hfind]
    have hshorter : (p₁.map (grow x.ohfi size)).length < (p₁ ++ z :: p₂).length := by
      simp only [List.length_map, List.length_append, List.length_cons]
      omega
    simp only
    rw [ih _ hshorter h' hl' (by omega) rfl, hzfields.1, hlists, h.sizeAdded_parent hx hzx,
      Database.modify, Database.setList_setList]

/-- The whole climb: the object and everything above it grow, nothing else changes. -/
theorem incrementSizeMetadata_eq (h : Climbable db) {c : Category} {x : CmaObject}
    (hx : x ∈ db.lists c) (size : ULong) :
    incrementSizeMetadata db (c, x) size =
      some (db.setList c (sizeAdded x.ohfi size (db.lists c))) := by
  obtain ⟨p, q, hl⟩ := List.append_of_mem hx
  refine h.incrementSizeLoop_eq hl size ?_
  have hsum : (db.lists c).length ≤ (Category.all.map fun c => (db.lists c).length).sum :=
    List.single_le_sum (fun _ _ => Nat.zero_le _) _
      (List.mem_map_of_mem (f := fun c => (db.lists c).length) (Category.mem_all c))
  have hlen := congrArg List.length hl
  simp only [List.length_append, List.length_cons] at hlen
  omega

end Climbable

namespace WellFormed

variable {paths : CmaPaths} {uuid : CString} {db : Database}

theorem climbable (h : WellFormed paths uuid db) : Climbable db where
  ordered := h.ordered
  ids_inj := h.ids_inj
  parents := by
    intro c m l hl
    obtain ⟨m', hm', hmaster⟩ := h.master c
    obtain ⟨rfl, rfl⟩ := List.cons.inj (hl.symm.trans hm')
    refine ⟨hmaster.ohfiParent.le, hmaster.ohfi ▸ h.rooted c, fun o ho => ?_⟩
    obtain ⟨z, hz, he⟩ := h.exists_parent ho
    exact he ▸ h.ohfi_pos hz

theorem below_master_iff (h : WellFormed paths uuid db) {c : Category} {x m : CmaObject}
    (hx : x ∈ db.lists c) (hm : m ∈ db.lists c) (hmaster : IsMaster paths uuid c m) :
    NodesBelow (db.lists c) x.ohfi m.ohfi ↔ x = m := by
  obtain ⟨m', hl, hmaster'⟩ := h.master c
  have ho := h.ordered c
  have hm' : m' ∈ db.lists c := by simp [hl]
  obtain rfl : m = m' := ho.inj hm hm' (hmaster.ohfi.trans hmaster'.ohfi.symm)
  rw [hl] at ho hx ⊢
  exact ho.below_head hx

theorem incrementSizeMetadata_eq (h : WellFormed paths uuid db) {c : Category} {x : CmaObject}
    (hx : x ∈ db.lists c) (size : ULong) :
    incrementSizeMetadata db (c, x) size =
      some (db.setList c (sizeAdded x.ohfi size (db.lists c))) :=
  h.climbable.incrementSizeMetadata_eq hx size

theorem sizeAdded_wellFormed (h : WellFormed paths uuid db) (c : Category) (ohfi : ℤ)
    (size : ULong) :
    WellFormed paths uuid (db.setList c (sizeAdded ohfi size (db.lists c))) := by
  refine h.map c (fun o _ hm => ?_) (fun o ho => ?_)
  · split
    · exact hm.addSize size
    · exact hm
  · have hobj := h.objects c o ho
    split
    · exact ⟨rfl, rfl, rfl, hobj.named⟩
    · exact ⟨rfl, rfl, rfl, hobj.named⟩

end WellFormed

end VitaMTP
