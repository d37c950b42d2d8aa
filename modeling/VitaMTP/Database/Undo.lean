import VitaMTP.Database.RenameExact

/-! Renaming an object back, as `vitaEventOperateObject` does when the file cannot be moved. -/
namespace VitaMTP
open ParentFirst

/-- Renaming `x` replaces the first `find` in the relative path of `y`, which is `x` or below
it, by `replace`. -/
inductive Rewrites (l : List CmaObject) (x : CmaObject) (newname : CString) :
    CmaObject → CString → CString → Prop
  | self {name : CString} (hname : x.metadata.name = some name) :
      Rewrites l x newname x name newname
  | child {z y : CmaObject} {find replace path name : CString}
      (hz : Rewrites l x newname z find replace) (hy : y ∈ l) (hp : y.ohfiParent = z.ohfi)
      (hpath : z.metadata.path = some path) (hname : y.metadata.name = some name) :
      Rewrites l x newname y (joinPath path name) (joinPath (strreplace path find replace) name)

/-- Replacing `replace` by `find` again gives back both paths. -/
def CmaObject.Undoes (y : CmaObject) (find replace : CString) : Prop :=
  ∀ path, y.metadata.path = some path →
    strreplace (strreplace path find replace) replace find = path ∧
      strreplace (strreplace y.path path (strreplace path find replace))
        (strreplace path find replace) path = y.path

/-- Every replacement of a rename can be undone. -/
def RenameUndone (l : List CmaObject) (x : CmaObject) (newname : CString) : Prop :=
  ∀ y find replace, Rewrites l x newname y find replace → y.Undoes find replace

namespace CmaObject

/-- The object after its relative path became `newpath`, where it was `path`. -/
def moved (y : CmaObject) (path newpath : CString) : CmaObject :=
  { y with
    metadata := { y.metadata with path := some newpath }
    path := strreplace y.path path newpath }

theorem moved_moved {y : CmaObject} {path newpath oldpath : CString}
    (hpath : y.metadata.path = some path) :
    (y.moved path newpath).moved newpath oldpath = y ↔
      oldpath = path ∧ strreplace (strreplace y.path path newpath) newpath path = y.path := by
  constructor
  · intro h
    have hrel : some oldpath = y.metadata.path := congrArg (·.metadata.path) h
    obtain rfl : oldpath = path := Option.some.inj (hrel.trans hpath)
    exact ⟨rfl, congrArg (·.path) h⟩
  · rintro ⟨rfl, hfull⟩
    simp only [moved, hfull, ← hpath]

theorem renamedUnder_moved {y : CmaObject} {path name : CString}
    (hname : y.metadata.name = some name) (hpath : y.metadata.path = some path)
    (paths : CString × CString) :
    y.renamedUnder paths = y.moved path
      (strreplace path (joinPath paths.1 name) (joinPath paths.2 name)) := by
  simp only [renamedUnder, renamed, moved, hname, hpath, Option.getD_some, strreplace_name]

end CmaObject

theorem strreplace_whole (s replace : CString) : strreplace s s replace = replace := by
  rw [strreplace_eq, FirstMatch.replaceFirst_whole]

namespace Database

theorem setList_eq_self {db : Database} {c : Category} {l : List CmaObject} :
    db.setList c l = db ↔ l = db.lists c := by
  constructor
  · intro h
    have := congrArg (fun db => db.lists c) h
    simpa using this
  · rintro rfl
    exact db.setList_self c

end Database

theorem renameRootEntry_ohfiCount {db db' : Database} {object : ObjectPtr} {name : Option CString}
    {newname : CString} (h : renameRootEntry db object name newname = some db') :
    db'.ohfiCount = db.ohfiCount := by
  unfold renameRootEntry at h
  simp only [Option.bind_eq_bind, Option.bind_eq_some_iff, Option.some.injEq] at h
  obtain ⟨nodes, -, rfl⟩ := h
  rfl

/-- A pass over a list that renames `x`: what each other object becomes, and the paths it hands
down. -/
structure RenamePass (l : List CmaObject) (x : CmaObject) (g : CmaObject → CmaObject)
    (sent : ℤ → Option (CString × CString)) : Prop where
  node : ∀ y ∈ l, y ≠ x → g y = (sent y.ohfiParent).elim y y.renamedUnder
  sends : ∀ y ∈ l, y ≠ x → sent y.ohfi = (sent y.ohfiParent).map y.pathsUnder
  below : ∀ k, (sent k).isSome ↔ NodesBelow l x.ohfi k

namespace RenamePass

variable {l : List CmaObject} {x y : CmaObject} {g g' : CmaObject → CmaObject}
  {sent sent' : ℤ → Option (CString × CString)} {newname : CString}

theorem unmoved (h : RenamePass l x g sent) (ho : NodesOrdered l) (hy : y ∈ l)
    (hb : ¬ NodesBelow l x.ohfi y.ohfi) : g y = y := by
  have hyx : y ≠ x := by
    rintro rfl
    exact hb .refl
  have hparent : ¬ NodesBelow l x.ohfi y.ohfiParent :=
    fun hbp => hb ((nodesBelow_iff ho hy).mpr (Or.inr hbp))
  rw [h.node y hy hyx, Option.not_isSome_iff_eq_none.mp fun hs => hparent ((h.below _).mp hs)]
  rfl

theorem child (h : RenamePass l x g sent) (hy : y ∈ l) (hyx : y ≠ x) {q q' path name : CString}
    (hs : sent y.ohfiParent = some (q, q')) (hname : y.metadata.name = some name)
    (hpath : y.metadata.path = some path) :
    g y = y.moved path (strreplace path (joinPath q name) (joinPath q' name)) ∧
      sent y.ohfi = some (path, strreplace path (joinPath q name) (joinPath q' name)) := by
  constructor
  · rw [h.node y hy hyx, hs]
    exact CmaObject.renamedUnder_moved hname hpath _
  · rw [h.sends y hy hyx, hs]
    simp only [Option.map_some, CmaObject.pathsUnder, hname, hpath, Option.getD_some]

/-- What two passes hand down at `y` and make of it, the second with `find` and `replace` the other
way round. -/
def Twice (sent sent' : ℤ → Option (CString × CString)) (g g' : CmaObject → CmaObject)
    (y : CmaObject) (find replace : CString) : Prop :=
  ∀ p, y.metadata.path = some p →
    sent y.ohfi = some (p, strreplace p find replace) ∧
    sent' y.ohfi = some (strreplace p find replace,
      strreplace (strreplace p find replace) replace find) ∧
    g' (g y) = (y.moved p (strreplace p find replace)).moved (strreplace p find replace)
      (strreplace (strreplace p find replace) replace find)

theorem twice (h : RenamePass l x g sent) (h' : RenamePass (l.map g) (g x) g' sent')
    (ho : NodesOrdered l) (hx : x ∈ l)
    (hids : ∀ y ∈ l, (g y).ohfi = y.ohfi ∧ (g y).ohfiParent = y.ohfiParent)
    (hself : ∀ name, x.metadata.name = some name → Twice sent sent' g g' x name newname)
    (hundo : ∀ y find replace, Rewrites l x newname y find replace → y ∈ l →
      Twice sent sent' g g' y find replace → y.Undoes find replace)
    {find replace : CString} (hrw : Rewrites l x newname y find replace) :
    y ∈ l ∧ Twice sent sent' g g' y find replace := by
  induction hrw with
  | self hname => exact ⟨hx, hself _ hname⟩
  | @child z y find replace q n hz hy hp hq hn ih =>
    obtain ⟨hzl, htwice⟩ := ih
    obtain ⟨hsz, hsz', -⟩ := htwice q hq
    rw [(hundo z find replace hz hzl htwice q hq).1] at hsz'
    have hyx : y ≠ x := by
      rintro rfl
      have hb := (h.below z.ohfi).mp (by rw [hsz]; rfl)
      rw [← hp] at hb
      exact ho.not_below_par hx hb
    have hgyx : g y ≠ g x := by
      intro he
      have := congrArg CmaObject.ohfi he
      rw [(hids y hy).1, (hids x hx).1] at this
      exact hyx (ho.inj hy hx this)
    refine ⟨hy, fun p hyp => ?_⟩
    rw [← hp] at hsz
    rw [← hp, ← (hids y hy).2] at hsz'
    obtain ⟨hgy, hsent⟩ := h.child hy hyx hsz hn hyp
    have hgn : (g y).metadata.name = some n := by
      rw [hgy]
      exact hn
    have hgp : (g y).metadata.path = some (strreplace p (joinPath q n)
        (joinPath (strreplace q find replace) n)) := by
      rw [hgy]
      rfl
    obtain ⟨hggy, hsent'⟩ := h'.child (List.mem_map_of_mem hy) hgyx hsz' hgn hgp
    rw [(hids y hy).1] at hsent'
    exact ⟨hsent, hsent', by rw [hggy, hgy]⟩

/-- What is not below `x` is not below it after the first pass, and stays as it is. -/
theorem unmoved_twice (h : RenamePass l x g sent) (h' : RenamePass (l.map g) (g x) g' sent')
    (ho : NodesOrdered l) (ho' : NodesOrdered (l.map g)) (hx : x ∈ l)
    (hids : ∀ y ∈ l, (g y).ohfi = y.ohfi ∧ (g y).ohfiParent = y.ohfiParent) (hy : y ∈ l)
    (hb : ¬ NodesBelow l x.ohfi y.ohfi) : g' (g y) = y := by
  have hgy := h.unmoved ho hy hb
  have hkeys : (l.map g).map (fun y => (y.ohfi, y.ohfiParent)) =
      l.map (fun y => (y.ohfi, y.ohfiParent)) := by
    rw [List.map_map]
    exact List.map_congr_left fun z hz => Prod.ext (hids z hz).1 (hids z hz).2
  have hmem := List.mem_map_of_mem (f := g) hy
  rw [hgy] at hmem ⊢
  refine h'.unmoved ho' hmem fun hb' => hb ?_
  rw [(hids x hx).1] at hb'
  exact (Below.congr hkeys).mp hb'

/-- Two passes restore the list exactly when every replacement can be undone. -/
theorem restores_iff (h : RenamePass l x g sent) (h' : RenamePass (l.map g) (g x) g' sent')
    (ho : NodesOrdered l) (ho' : NodesOrdered (l.map g)) (hx : x ∈ l)
    (hids : ∀ y ∈ l, (g y).ohfi = y.ohfi ∧ (g y).ohfiParent = y.ohfiParent)
    (hself : ∀ name, x.metadata.name = some name → Twice sent sent' g g' x name newname)
    (hbelow : ∀ y ∈ l, NodesBelow l x.ohfi y.ohfi →
      (∃ find replace, Rewrites l x newname y find replace) ∧ ∃ p, y.metadata.path = some p) :
    (∀ y ∈ l, g' (g y) = y) ↔ RenameUndone l x newname := by
  constructor
  · intro hsame
    have hundo : ∀ y find replace, Rewrites l x newname y find replace → y ∈ l →
        Twice sent sent' g g' y find replace → y.Undoes find replace := by
      intro y find replace _ hy htwice p hp
      obtain ⟨-, -, hgg⟩ := htwice p hp
      rw [hsame y hy] at hgg
      exact (CmaObject.moved_moved hp).mp hgg.symm
    intro y find replace hrw
    obtain ⟨hy, htwice⟩ := h.twice h' ho hx hids hself hundo hrw
    exact hundo y find replace hrw hy htwice
  · intro hundone y hy
    by_cases hb : NodesBelow l x.ohfi y.ohfi
    · obtain ⟨⟨find, replace, hrw⟩, p, hp⟩ := hbelow y hy hb
      obtain ⟨-, htwice⟩ := h.twice h' ho hx hids hself
        (fun y f r hrw _ _ => hundone y f r hrw) hrw
      rw [(htwice p hp).2.2]
      exact (CmaObject.moved_moved hp).mpr (hundone y find replace hrw p hp)
    · exact h.unmoved_twice h' ho ho' hx hids hy hb

end RenamePass

namespace WellFormed

variable {paths : CmaPaths} {uuid : CString} {db : Database} {c : Category} {x : CmaObject}
  {name : CString}

theorem rewrites_of_below (h : WellFormed paths uuid db) (hx : x ∈ db.objects c)
    (newname : CString) : ∀ y ∈ db.lists c, NodesBelow (db.lists c) x.ohfi y.ohfi →
      ∃ find replace, Rewrites (db.lists c) x newname y find replace := by
  refine h.induction (fun m hm hmaster hb => ?_) (fun y hy z hz hzp ih hb => ?_)
  · rw [hmaster.ohfi] at hb
    exact absurd hb (h.not_below_master (h.objects c x hx).first)
  · have hyl := mem_of_objects hy
    obtain ⟨name, path, hname, -⟩ := (h.objects c y hy).named
    rcases (nodesBelow_iff (h.ordered c) hyl).mp hb with he | hb
    · obtain rfl := (h.ordered c).inj (mem_of_objects hx) hyl he
      exact ⟨name, newname, .self hname⟩
    · rw [← hzp] at hb
      obtain ⟨find, replace, hrw⟩ := ih hb
      obtain ⟨-, zpath, -, hzpath⟩ := (h.objects c z (h.mem_objects_of_below hx hz hb)).named
      exact ⟨_, _, .child hrw hyl hzp.symm hzpath hname⟩

theorem renameRootEntry_pass (h : WellFormed paths uuid db) (hx : x ∈ db.objects c)
    (hname : x.metadata.name = some name) {path : CString} (hpath : x.metadata.path = some path)
    (newname : CString) :
    ∃ g sent, VitaMTP.renameRootEntry db (c, x) none newname =
        some (db.setList c ((db.lists c).map g)) ∧
      WellFormed paths uuid (db.setList c ((db.lists c).map g)) ∧
      g x = x.renamed name path name newname ∧
      sent x.ohfi = some (path, strreplace path name newname) ∧
      RenamePass (db.lists c) x g sent ∧
      ∀ y ∈ db.lists c, (g y).ohfi = y.ohfi ∧ (g y).ohfiParent = y.ohfiParent := by
  obtain ⟨g, sent, heq, hgx, hsx, hg, hsent, hbelow⟩ :=
    h.renameRootEntry_map hx hname hpath none newname
  obtain ⟨db₁, heq₁, h₁⟩ := h.renameRootEntry hx none newname
  obtain rfl := Option.some.inj (heq.symm.trans heq₁)
  refine ⟨g, sent, heq, h₁, hgx, hsx, ⟨hg, hsent, hbelow⟩, fun y hy => ?_⟩
  by_cases hyx : y = x
  · rw [hyx, hgx]
    exact ⟨rfl, rfl⟩
  · rw [hg y hy hyx]
    cases sent y.ohfiParent <;> exact ⟨rfl, rfl⟩

/-- A rename and the rename back to the old name: the database is the old one exactly when
every replacement can be undone. -/
theorem rename_back (h : WellFormed paths uuid db) (hx : x ∈ db.objects c)
    (hname : x.metadata.name = some name) {path : CString} (hpath : x.metadata.path = some path)
    (newname : CString) :
    ∃ db₁ x₁ db₂, VitaMTP.renameRootEntry db (c, x) none newname = some db₁ ∧
      db₁.get? c x.ohfi = some x₁ ∧ x₁.ohfi = x.ohfi ∧
      x₁.path = strreplace x.path path (strreplace path name newname) ∧
      VitaMTP.renameRootEntry db₁ (c, x₁) none name = some db₂ ∧
      (db₂ = db ↔ RenameUndone (db.lists c) x newname) := by
  have hxl := mem_of_objects hx
  obtain ⟨g, sent, heq, h₁, hgx, hsx, hpass, hids⟩ :=
    h.renameRootEntry_pass hx hname hpath newname
  have hlists : (db.setList c ((db.lists c).map g)).lists c = (db.lists c).map g := by simp
  have hx₁ : g x ∈ (db.setList c ((db.lists c).map g)).objects c := by
    rw [Database.objects, hlists, ← List.map_tail]
    exact List.mem_map_of_mem hx
  have hname₁ : (g x).metadata.name = some newname := by
    rw [hgx, CmaObject.renamed, strreplace_whole]
  have hpath₁ : (g x).metadata.path = some (strreplace path name newname) := by
    rw [hgx]
    rfl
  obtain ⟨g', sent', heq', -, hgx', hsx', hpass', -⟩ :=
    h₁.renameRootEntry_pass hx₁ hname₁ hpath₁ name
  have ho₁ := h₁.ordered c
  rw [hlists] at hpass' ho₁
  refine ⟨_, g x, _, heq, ?_, (hids x hxl).1, ?_, heq', ?_⟩
  · rw [← (hids x hxl).1]
    exact h₁.get?_eq (mem_of_objects hx₁)
  · rw [hgx]
    rfl
  have hself : ∀ n, x.metadata.name = some n →
      RenamePass.Twice sent sent' g g' x n newname := by
    intro n hn p hp
    obtain rfl := Option.some.inj (hname.symm.trans hn)
    obtain rfl := Option.some.inj (hpath.symm.trans hp)
    rw [(hids x hxl).1] at hsx'
    refine ⟨hsx, hsx', ?_⟩
    rw [hgx', hgx]
    simp only [CmaObject.renamed, CmaObject.moved, strreplace_whole, ← hname]
  have hmap : (((db.lists c).map g).map g' = db.lists c) ↔ ∀ y ∈ db.lists c, g' (g y) = y := by
    rw [List.map_map]
    conv_lhs => rhs; rw [← List.map_id (db.lists c)]
    exact List.map_inj_left
  rw [hlists, Database.setList_setList, Database.setList_eq_self, hmap]
  refine hpass.restores_iff hpass' (h.ordered c) ho₁ hxl hids hself fun y hy hb => ?_
  obtain ⟨-, p, -, hp⟩ := (h.objects c y (h.mem_objects_of_below hx hy hb)).named
  exact ⟨h.rewrites_of_below hx newname y hy hb, p, hp⟩

end WellFormed

end VitaMTP
