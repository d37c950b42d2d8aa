import VitaMTP.Database.Paths
import VitaMTP.Database.Reachable

/-! When `renameRootEntry` moves exactly one subtree. It looks for the component to replace by
its text, from the left. -/
namespace VitaMTP
open ParentFirst

theorem strreplace_eq (s find replace : CString) :
    strreplace s find replace = FirstMatch.replaceFirst s find replace := rfl

/-- The text at offset `k` replaced. -/
def replaceAt (k : ℕ) (old new s : CString) : CString := s.take k ++ new ++ s.drop (k + old.length)

@[simp] theorem replaceAt_append (a old new b : CString) :
    replaceAt a.length old new (a ++ (old ++ b)) = a ++ (new ++ b) := by
  have : (a ++ (old ++ b)).drop (a.length + old.length) = b := by
    rw [← List.append_assoc, ← List.length_append, List.drop_left]
  simp [replaceAt, this]

/-- `y` after the component `name` below `root` was replaced in both of its paths. -/
def CmaObject.componentReplaced (root : CmaObject) (name newname : CString) (y : CmaObject) :
    CmaObject :=
  { y with
    metadata := { y.metadata with
      path := y.metadata.path.map (replaceAt root.relPrefix.length name newname) }
    path := replaceAt root.absPrefix.length name newname y.path }

/-- The object `x` below `root` is renamed, everything below it moves along, nothing else
changes, and the paths are still joined. -/
def RenamedExactly (db : Database) (c : Category) (root x : CmaObject) (name newname : CString)
    (db' : Database) : Prop :=
  (∃ g, db' = db.setList c ((db.lists c).map g) ∧
    (∀ y ∈ db.lists c, ¬ NodesBelow (db.lists c) x.ohfi y.ohfi → g y = y) ∧
    (∀ y ∈ db.lists c, y ≠ x → NodesBelow (db.lists c) x.ohfi y.ohfi →
      g y = root.componentReplaced name newname y) ∧
    g x = { root.componentReplaced name newname x with
      metadata := { (root.componentReplaced name newname x).metadata with
        name := some newname } }) ∧
  db'.Joined

/-- `find` stands at the end of `pre ++ find`. The search finds that occurrence, or an earlier
one from which the text shifts onto itself. -/
def HitsTail (pre find replace : CString) : Prop :=
  ∃ i ≤ pre.length, strstr (pre ++ find) find = some i ∧
    pre.drop i ++ replace = replace ++ (pre ++ find).drop (i + find.length)

theorem strreplace_tail (pre find replace : CString) :
    strreplace (pre ++ find) find replace = pre ++ replace ↔ HitsTail pre find replace :=
  FirstMatch.replaceFirst_tail pre find replace

/-- The searches of a rename: the name in the relative path of the object, and each relative
path in the full path, behind the directory `dir` of the category. -/
def RenameHits (dir : CString) (l : List CmaObject) (root x : CmaObject) (name newname : CString) :
    Prop :=
  HitsTail root.relPrefix name newname ∧
    ∀ y ∈ l, NodesBelow l x.ohfi y.ohfi → ∀ path, y.metadata.path = some path →
      HitsTail (dir ++ ['/']) path (replaceAt root.relPrefix.length name newname path)

/-- For names of one component the searches succeed exactly when they find the trailing
occurrence, or nothing is renamed at all. -/
theorem hitsTail_component {pre A B name newname : CString} (hpre : FirstMatch.Closed '/' pre)
    (hA : FirstMatch.Closed '/' A) (hname : '/' ∉ name) (hnew : '/' ∉ newname) :
    HitsTail pre (A ++ name ++ B) (A ++ newname ++ B) ↔
      name = newname ∨ strstr (pre ++ (A ++ name ++ B)) (A ++ name ++ B) = some pre.length := by
  rw [← strreplace_tail, strreplace_eq]
  exact FirstMatch.replaceFirst_tail_iff hpre hA hname hnew

theorem strreplace_name (path name replace : CString) :
    strreplace name (joinPath path name) replace = name := by
  refine FirstMatch.replaceFirst_of_not_infix _ fun hin => ?_
  have := hin.length_le
  simp only [joinPath, List.length_append, List.length_cons] at this
  omega

/-- A child whose path is the path of its parent joined with its name: its relative path is
found as a whole. -/
theorem renamedUnder_eq {y : CmaObject} {path newpath name : CString}
    (hname : y.metadata.name = some name) (hpath : y.metadata.path = some (joinPath path name)) :
    y.renamedUnder (path, newpath) =
      { y with
        metadata := { y.metadata with path := some (joinPath newpath name) }
        path := strreplace y.path (joinPath path name) (joinPath newpath name) } := by
  have hwhole : strreplace (joinPath path name) (joinPath path name) (joinPath newpath name) =
      joinPath newpath name := by
    rw [strreplace_eq, FirstMatch.replaceFirst_whole]
  simp only [CmaObject.renamedUnder, CmaObject.renamed, hname, hpath, Option.getD_some, hwhole,
    strreplace_name]

theorem pathsUnder_eq {y : CmaObject} {path newpath name : CString}
    (hname : y.metadata.name = some name) (hpath : y.metadata.path = some (joinPath path name)) :
    y.pathsUnder (path, newpath) = (joinPath path name, joinPath newpath name) := by
  simp only [CmaObject.pathsUnder, hname, hpath, Option.getD_some]
  rw [strreplace_eq, FirstMatch.replaceFirst_whole]

namespace WellFormed

variable {paths : CmaPaths} {uuid : CString} {db : Database} {c : Category} {root x : CmaObject}
  {name newname : CString}

/-- Every object from `x` down has the name of `x` at the same place of its relative path. -/
theorem below_paths (h : WellFormed paths uuid db) (hj : db.Joined) (hx : x ∈ db.objects c)
    (hroot : root ∈ db.lists c) (hparent : root.ohfi = x.ohfiParent)
    (hname : x.metadata.name = some name) :
    ∀ y ∈ db.lists c, NodesBelow (db.lists c) x.ohfi y.ohfi → y ∈ db.objects c ∧
      ∃ B, y.metadata.path = some (root.relPrefix ++ (name ++ B)) ∧
        y.path = root.absPrefix ++ (name ++ B) := by
  refine h.induction (fun m hm hmaster hb => ?_) (fun y hy z hz hzp ih hb => ?_)
  · rw [hmaster.ohfi] at hb
    exact absurd hb (h.not_below_master (h.objects c x hx).first)
  · refine ⟨hy, ?_⟩
    obtain ⟨n, hn, hrel, hpath⟩ := hj c y hy z hz hzp
    rcases (nodesBelow_iff (h.ordered c) (mem_of_objects hy)).mp hb with he | hb
    · obtain rfl := (h.ordered c).inj (mem_of_objects hx) (mem_of_objects hy) he
      obtain rfl := (h.ordered c).inj hroot hz (hparent.trans hzp.symm)
      obtain rfl := Option.some.inj (hname.symm.trans hn)
      exact ⟨[], by simpa using hrel, by simpa using hpath⟩
    · obtain ⟨-, B, hB, hzpath⟩ := ih (hzp ▸ hb)
      refine ⟨B ++ '/' :: n, ?_, ?_⟩
      · rw [hrel, CmaObject.relPrefix_of_some hB]
        simp
      · rw [hpath, CmaObject.absPrefix, hzpath]
        simp

/-- The full path is the directory of the category followed by the relative path. -/
theorem full_path (h : WellFormed paths uuid db) (hj : db.Joined) (hx : x ∈ db.objects c)
    {path : CString} (hpath : x.metadata.path = some path) :
    x.path = (c.path paths uuid ++ ['/']) ++ path := by
  have := h.path_eq hj x (mem_of_objects hx)
  rw [CmaObject.absPrefix, CmaObject.relPrefix_of_some hpath] at this
  have hcancel : x.path ++ ['/'] = ((c.path paths uuid ++ ['/']) ++ path) ++ ['/'] := by
    rw [this]
    simp
  exact List.append_cancel_right hcancel

theorem absPrefix_eq (h : WellFormed paths uuid db) (hj : db.Joined) (hroot : root ∈ db.lists c) :
    root.absPrefix = (c.path paths uuid ++ ['/']) ++ root.relPrefix := by
  rw [h.path_eq hj root hroot]
  simp

/-- Where the searches hit, the new path is that of the parent joined with the new name. -/
theorem renamed_path (h : WellFormed paths uuid db) (hj : db.Joined) (hx : x ∈ db.objects c)
    (hroot : root ∈ db.lists c) (hparent : root.ohfi = x.ohfiParent)
    (hname : x.metadata.name = some name) {path : CString} (hpath : x.metadata.path = some path)
    (hhits : RenameHits (c.path paths uuid) (db.lists c) root x name newname) :
    strreplace x.path path (strreplace path name newname) = joinPath root.path newname := by
  obtain ⟨n, hn, hrel, -⟩ := hj c x hx root hroot hparent
  obtain rfl := Option.some.inj (hname.symm.trans hn)
  obtain rfl := Option.some.inj (hpath.symm.trans hrel)
  obtain ⟨hfirst, hall⟩ := hhits
  have hsecond := hall x (mem_of_objects hx) .refl _ hrel
  rw [← strreplace_tail] at hfirst hsecond
  have hreplace : replaceAt root.relPrefix.length name newname (root.relPrefix ++ name) =
      root.relPrefix ++ newname := by
    simpa using replaceAt_append root.relPrefix name newname []
  rw [hfirst, h.full_path hj hx hrel, ← hreplace, hsecond, hreplace, ← List.append_assoc,
    ← h.absPrefix_eq hj hroot, CmaObject.absPrefix]
  exact List.append_assoc root.path ['/'] newname

theorem rename_writes (h : WellFormed paths uuid db) (hj : db.Joined) (hx : x ∈ db.objects c)
    (hroot : root ∈ db.lists c) (hparent : root.ohfi = x.ohfiParent)
    (hname : x.metadata.name = some name) (newname : CString) :
    ∃ g, VitaMTP.renameRootEntry db (c, x) none newname = some (db.setList c ((db.lists c).map g)) ∧
      (∀ y ∈ db.lists c, ¬ NodesBelow (db.lists c) x.ohfi y.ohfi → g y = y) ∧
      (g x).metadata = { x.metadata with
        name := some newname
        path := some (strreplace (root.relPrefix ++ name) name newname) } ∧
      (HitsTail root.relPrefix name newname →
        ∀ y ∈ db.lists c, NodesBelow (db.lists c) x.ohfi y.ohfi →
          ∀ B, y.metadata.path = some (root.relPrefix ++ (name ++ B)) →
            g y = { y with
              metadata := { y.metadata with
                name := if y = x then some newname else y.metadata.name
                path := some (root.relPrefix ++ (newname ++ B)) }
              path := strreplace y.path (root.relPrefix ++ (name ++ B))
                (root.relPrefix ++ (newname ++ B)) }) := by
  have ho := h.ordered c
  obtain ⟨name', hn, hrel, -⟩ := hj c x hx root hroot hparent
  obtain rfl := Option.some.inj (hname.symm.trans hn)
  obtain ⟨g, sent, heq, hgx, hsx, hg, hsent, hbelow⟩ :=
    h.renameRootEntry_map hx hname hrel none newname
  simp only [Option.getD_none] at hgx hsx
  have hself : strreplace name name newname = newname := by
    rw [strreplace_eq, FirstMatch.replaceFirst_whole]
  refine ⟨g, heq, fun y hy hb => ?_, by rw [hgx, CmaObject.renamed, hself], fun hhit => ?_⟩
  · have hyx : y ≠ x := by
      rintro rfl
      exact hb .refl
    have hnone : sent y.ohfiParent = none := by
      rw [← Option.not_isSome_iff_eq_none, hbelow]
      intro hbp
      exact hb ((nodesBelow_iff ho hy).mpr (Or.inr hbp))
    rw [hg y hy hyx, hnone]
    rfl
  · rw [← strreplace_tail] at hhit
    -- every object from `x` down hands down its old and its new relative path
    have hstep : ∀ y ∈ db.lists c, NodesBelow (db.lists c) x.ohfi y.ohfi →
        ∀ B, y.metadata.path = some (root.relPrefix ++ (name ++ B)) →
          sent y.ohfi = some (root.relPrefix ++ (name ++ B), root.relPrefix ++ (newname ++ B)) ∧
          g y = { y with
            metadata := { y.metadata with
              name := if y = x then some newname else y.metadata.name
              path := some (root.relPrefix ++ (newname ++ B)) }
            path := strreplace y.path (root.relPrefix ++ (name ++ B))
              (root.relPrefix ++ (newname ++ B)) } := by
      refine h.induction (fun m hm hmaster hb => ?_) (fun y hy z hz hzp ih hb B hB => ?_)
      · rw [hmaster.ohfi] at hb
        exact absurd hb (h.not_below_master (h.objects c x hx).first)
      · have hyl := mem_of_objects hy
        rcases (nodesBelow_iff ho hyl).mp hb with he | hb
        · obtain rfl := ho.inj (mem_of_objects hx) hyl he
          obtain rfl : B = [] := by
            have := Option.some.inj (hrel.symm.trans hB)
            simpa using this
          refine ⟨by rw [hsx, hhit]; simp, ?_⟩
          rw [hgx, CmaObject.renamed, hself, hhit]
          simp
        · have hyx : y ≠ x := by
            rintro rfl
            exact ho.not_below_par hyl hb
          rw [← hzp] at hb
          obtain ⟨-, B', hB', -⟩ := h.below_paths hj hx hroot hparent hname z hz hb
          obtain ⟨hsz, -⟩ := ih hb B' hB'
          obtain ⟨n, hyn, hyrel, -⟩ := hj c y hy z hz hzp
          rw [CmaObject.relPrefix_of_some hB'] at hyrel
          obtain rfl : B = B' ++ '/' :: n := by
            have := Option.some.inj (hB.symm.trans hyrel)
            simpa using this
          have hjoin (m : CString) : root.relPrefix ++ (m ++ (B' ++ '/' :: n)) =
              joinPath (root.relPrefix ++ (m ++ B')) n := by
            simp [joinPath]
          rw [hjoin] at hB
          rw [hsent y hyl hyx, hg y hyl hyx, ← hzp, hsz, if_neg hyx, hjoin, hjoin]
          simp only [Option.map_some, Option.elim_some]
          rw [pathsUnder_eq hyn hB, renamedUnder_eq hyn hB]
          exact ⟨rfl, rfl⟩
    exact fun y hy hb B hB => (hstep y hy hb B hB).2

theorem componentReplaced_eq {y : CmaObject} {B : CString}
    (hrel : y.metadata.path = some (root.relPrefix ++ (name ++ B)))
    (hpath : y.path = root.absPrefix ++ (name ++ B)) :
    root.componentReplaced name newname y =
      { y with
        metadata := { y.metadata with path := some (root.relPrefix ++ (newname ++ B)) }
        path := root.absPrefix ++ (newname ++ B) } := by
  rw [CmaObject.componentReplaced, hrel, hpath, Option.map_some, replaceAt_append,
    replaceAt_append]

theorem exact_kept {g : CmaObject → CmaObject}
    (hsame : ∀ y ∈ db.lists c, ¬ NodesBelow (db.lists c) x.ohfi y.ohfi → g y = y)
    (hbelow : ∀ y ∈ db.lists c, y ≠ x → NodesBelow (db.lists c) x.ohfi y.ohfi →
      g y = root.componentReplaced name newname y)
    (hself : g x = { root.componentReplaced name newname x with
      metadata := { (root.componentReplaced name newname x).metadata with
        name := some newname } }) {y : CmaObject} (hy : y ∈ db.lists c) :
    (g y).ohfi = y.ohfi ∧ (g y).ohfiParent = y.ohfiParent ∧
      (g y).metadata.dataType = y.metadata.dataType := by
  by_cases hb : NodesBelow (db.lists c) x.ohfi y.ohfi
  · by_cases hyx : y = x
    · rw [hyx, hself]
      exact ⟨rfl, rfl, rfl⟩
    · rw [hbelow y hy hyx hb]
      exact ⟨rfl, rfl, rfl⟩
  · rw [hsame y hy hb]
    exact ⟨rfl, rfl, rfl⟩

private theorem joined_of_exact (h : WellFormed paths uuid db) (hj : db.Joined)
    (hx : x ∈ db.objects c) (hroot : root ∈ db.lists c) (hparent : root.ohfi = x.ohfiParent)
    (hname : x.metadata.name = some name) {g : CmaObject → CmaObject}
    (hsame : ∀ y ∈ db.lists c, ¬ NodesBelow (db.lists c) x.ohfi y.ohfi → g y = y)
    (hbelow : ∀ y ∈ db.lists c, y ≠ x → NodesBelow (db.lists c) x.ohfi y.ohfi →
      g y = root.componentReplaced name newname y)
    (hself : g x = { root.componentReplaced name newname x with
      metadata := { (root.componentReplaced name newname x).metadata with
        name := some newname } }) :
    (db.setList c ((db.lists c).map g)).Joined := by
  have ho := h.ordered c
  have hids {y : CmaObject} (hy : y ∈ db.lists c) := exact_kept hsame hbelow hself hy
  obtain ⟨m, hm, -⟩ := h.master c
  intro d y' hy' r' hr' hp
  by_cases hd : d = c
  · subst hd
    rw [Database.objects, Database.setList_lists_self, hm, List.map_cons, List.tail_cons] at hy'
    rw [Database.setList_lists_self] at hr'
    obtain ⟨y, hy, rfl⟩ := List.mem_map.mp hy'
    obtain ⟨r, hr, rfl⟩ := List.mem_map.mp hr'
    have hyl := mem_of_objects hy
    rw [(hids hr).1, (hids hyl).2.1] at hp
    obtain ⟨n, hn, hrel, hpath⟩ := hj d y hy r hr hp
    have hiff := nodesBelow_iff ho hyl (a := x.ohfi)
    rw [← hp] at hiff
    by_cases hb : NodesBelow (db.lists d) x.ohfi y.ohfi
    · by_cases hyx : y = x
      · subst hyx
        obtain rfl := ho.inj hroot hr (hparent.trans hp.symm)
        obtain rfl := Option.some.inj (hname.symm.trans hn)
        have hroot' : ¬ NodesBelow (db.lists d) y.ohfi root.ohfi := by
          rw [hparent]
          exact ho.not_below_par hyl
        rw [hsame root hroot hroot', hself, componentReplaced_eq (B := []) (by simpa using hrel)
          (by simpa using hpath)]
        exact ⟨newname, rfl, by simp, by simp⟩
      · have hbr : NodesBelow (db.lists d) x.ohfi r.ohfi :=
          (hiff.mp hb).resolve_left fun he => hyx (ho.inj hyl (mem_of_objects hx) he.symm)
        obtain ⟨-, B, hB, hBpath⟩ := h.below_paths hj hx hroot hparent hname r hr hbr
        have hyB : y.metadata.path = some (root.relPrefix ++ (name ++ (B ++ '/' :: n))) := by
          rw [hrel, CmaObject.relPrefix_of_some hB]
          simp
        have hyBpath : y.path = root.absPrefix ++ (name ++ (B ++ '/' :: n)) := by
          rw [hpath, CmaObject.absPrefix, hBpath]
          simp
        have hgr : (g r).metadata.path = some (root.relPrefix ++ (newname ++ B)) ∧
            (g r).path = root.absPrefix ++ (newname ++ B) := by
          by_cases hrx : r = x
          · rw [hrx, hself, ← hrx, componentReplaced_eq hB hBpath]
            exact ⟨rfl, rfl⟩
          · rw [hbelow r hr hrx hbr, componentReplaced_eq hB hBpath]
            exact ⟨rfl, rfl⟩
        rw [hbelow y hyl hyx hb, componentReplaced_eq hyB hyBpath]
        refine ⟨n, hn, ?_, ?_⟩
        · rw [CmaObject.relPrefix_of_some hgr.1]
          simp
        · rw [show (g r).absPrefix = (g r).path ++ ['/'] from rfl, hgr.2]
          simp
    · have hbr : ¬ NodesBelow (db.lists d) x.ohfi r.ohfi := fun hbr => hb (hiff.mpr (Or.inr hbr))
      rw [hsame y hyl hb, hsame r hr hbr]
      exact ⟨n, hn, hrel, hpath⟩
  · rw [Database.objects, Database.setList_lists_of_ne _ _ hd] at hy'
    rw [Database.setList_lists_of_ne _ _ hd] at hr'
    exact hj d y' hy' r' hr' hp

/-- A rename is exact precisely when its searches find what they are meant to find. -/
theorem renamedExactly_iff (h : WellFormed paths uuid db) (hj : db.Joined)
    (hx : x ∈ db.objects c) (hroot : root ∈ db.lists c) (hparent : root.ohfi = x.ohfiParent)
    (hname : x.metadata.name = some name) (newname : CString) :
    ∃ db', VitaMTP.renameRootEntry db (c, x) none newname = some db' ∧
      (RenamedExactly db c root x name newname db' ↔
        RenameHits (c.path paths uuid) (db.lists c) root x name newname) := by
  obtain ⟨g, heq, hsame, hgx, hwrites⟩ := h.rename_writes hj hx hroot hparent hname newname
  have hxl := mem_of_objects hx
  have hpaths := h.below_paths hj hx hroot hparent hname
  have habs := h.absPrefix_eq hj hroot
  refine ⟨_, heq, ⟨?_, ?_⟩⟩
  · rintro ⟨⟨g', he, -, hbelow, hself⟩, -⟩
    have hmap : (db.lists c).map g = (db.lists c).map g' := by
      have := congrArg (fun db => db.lists c) he
      simpa using this
    have hgg : ∀ y ∈ db.lists c, g y = g' y := List.map_inj_left.mp hmap
    obtain ⟨-, B, hB, hBpath⟩ := hpaths x hxl .refl
    obtain rfl : B = [] := by
      obtain ⟨n, hn, hrel, -⟩ := hj c x hx root hroot hparent
      obtain rfl := Option.some.inj (hname.symm.trans hn)
      have := Option.some.inj (hrel.symm.trans hB)
      simpa using this
    have hhit : HitsTail root.relPrefix name newname := by
      rw [← strreplace_tail]
      have hmeta := congrArg (fun o => o.metadata.path) ((hgg x hxl).trans hself)
      rw [componentReplaced_eq hB hBpath] at hmeta
      simpa [hgx] using hmeta
    refine ⟨hhit, fun y hy hb path hpath => ?_⟩
    obtain ⟨hyo, B, hB, hBpath⟩ := hpaths y hy hb
    obtain rfl := Option.some.inj (hB.symm.trans hpath)
    have hpathy : (g y).path = root.absPrefix ++ (newname ++ B) := by
      by_cases hyx : y = x
      · rw [hyx, hgg x hxl, hself, ← hyx, componentReplaced_eq hB hBpath]
      · rw [hgg y hy, hbelow y hy hyx hb, componentReplaced_eq hB hBpath]
    rw [hwrites hhit y hy hb B hB] at hpathy
    rw [replaceAt_append, ← strreplace_tail, ← h.full_path hj hyo hB]
    rw [habs] at hpathy
    simpa using hpathy
  · rintro ⟨hhit, hpathhit⟩
    have hmoved : ∀ y ∈ db.lists c, NodesBelow (db.lists c) x.ohfi y.ohfi →
        g y = { root.componentReplaced name newname y with
          metadata := { (root.componentReplaced name newname y).metadata with
            name := if y = x then some newname else y.metadata.name } } := by
      intro y hy hb
      obtain ⟨hyo, B, hB, hBpath⟩ := hpaths y hy hb
      have hreplace := hpathhit y hy hb _ hB
      rw [replaceAt_append, ← strreplace_tail, ← h.full_path hj hyo hB] at hreplace
      rw [hwrites hhit y hy hb B hB, componentReplaced_eq hB hBpath, hreplace, habs]
      simp
    have hbelow : ∀ y ∈ db.lists c, y ≠ x → NodesBelow (db.lists c) x.ohfi y.ohfi →
        g y = root.componentReplaced name newname y := by
      intro y hy hyx hb
      rw [hmoved y hy hb, if_neg hyx]
      rfl
    have hself := hmoved x hxl .refl
    rw [if_pos rfl] at hself
    exact ⟨⟨g, rfl, hsame, hbelow, hself⟩,
      h.joined_of_exact hj hx hroot hparent hname hsame hbelow hself⟩

end WellFormed

/-- `renameRootEntry` moves exactly one subtree if and only if its searches find what they are
meant to find. -/
theorem rename_exactly_iff {allowed : CmaObject → Mask → Prop} {view : DirView} {n : ℕ}
    {paths : CmaPaths} {uuid : CString} {db : Database} (h : Reachable allowed view n paths uuid db)
    (hj : db.Joined) {c : Category}
    {root x : CmaObject} {name : CString} (hx : x ∈ db.objects c) (hroot : root ∈ db.lists c)
    (hparent : root.ohfi = x.ohfiParent) (hname : x.metadata.name = some name)
    (newname : CString) :
    ∃ db', renameRootEntry db (c, x) none newname = some db' ∧
      (RenamedExactly db c root x name newname db' ↔
        RenameHits (c.path paths uuid) (db.lists c) root x name newname) :=
  h.wellFormed.renamedExactly_iff hj hx hroot hparent hname newname

/-- The folder `d` of the sample can be renamed. -/
theorem rename_exactly_iff_sample :
    ∃ db', renameRootEntry sampleDatabase (.photos, sampleObject 1) none ['e'] = some db' ∧
      (RenamedExactly sampleDatabase .photos (sampleObject 0) (sampleObject 1) ['d'] ['e'] db' ↔
        RenameHits ['/', 'p'] (sampleDatabase.lists .photos) (sampleObject 0) (sampleObject 1)
          ['d'] ['e']) :=
  rename_exactly_iff (sample_reachable FolderAddition)
    (WellFormed.joined_createDatabase sample_created)
    (by simp [Database.objects, sample_photos]) (by simp [sample_photos]) (by decide) (by decide)
    ['e']

/-- The sample with another folder, of the name that the directory of the photos has. -/
def collidingDatabase : Database :=
  (addToDatabase sampleDatabase .photos (sampleObject 0) ['p'] 0 DataType.Folder).1

def collidingObject : CmaObject := newObject 1007 (sampleObject 0) ['p'] 0 DataType.Folder

/-- Renaming the folder `/p/p` to `q` in the database gives it the path `/q/p`. -/
theorem rename_not_exact :
    Reachable FolderAddition sampleView 3 samplePaths ['0'] collidingDatabase ∧
    collidingDatabase.Joined ∧
      collidingObject ∈ collidingDatabase.objects .photos ∧
      ∃ db', renameRootEntry collidingDatabase (.photos, collidingObject) none ['q'] = some db' ∧
        (db'.lists .photos).map (·.path) =
          [['/', 'p'], ['/', 'p', '/', 'd'], ['/', 'p', '/', 'd', '/', 'x'], ['/', 'q', '/', 'p']] ∧
        ¬ RenamedExactly collidingDatabase .photos (sampleObject 0) collidingObject ['p'] ['q']
          db' := by
  have hroot : sampleObject 0 ∈ sampleDatabase.lists .photos := by simp [sample_photos]
  have hsample := sample_reachable FolderAddition
  have h : Reachable FolderAddition sampleView 3 samplePaths ['0'] collidingDatabase :=
    hsample.step (.add hroot ['p'] 0 DataType.Folder ⟨Or.inr ⟨.photos, by decide⟩, Or.inl rfl⟩)
  have hj : collidingDatabase.Joined :=
    hsample.wellFormed.joined_addToDatabase (WellFormed.joined_createDatabase sample_created) hroot
      ['p'] 0 DataType.Folder
  have hlists : collidingDatabase.lists .photos =
      [sampleObject 0, sampleObject 1, sampleObject 2, collidingObject] := by rfl
  have hx : collidingObject ∈ collidingDatabase.objects .photos := by
    simp [Database.objects, hlists]
  obtain ⟨db', heq, hiff⟩ := h.wellFormed.renamedExactly_iff hj hx
    (show sampleObject 0 ∈ _ by simp [hlists]) rfl rfl ['q']
  refine ⟨h, hj, hx, db', heq, ?_, fun hexact => ?_⟩
  · have hpaths : (renameRootEntry collidingDatabase (.photos, collidingObject) none ['q']).map
        (fun db => (db.lists .photos).map (·.path)) = some [['/', 'p'], ['/', 'p', '/', 'd'],
          ['/', 'p', '/', 'd', '/', 'x'], ['/', 'q', '/', 'p']] := by decide
    rw [heq] at hpaths
    exact Option.some.inj hpaths
  · have hhit := (hiff.mp hexact).2 collidingObject (by simp [hlists]) .refl ['p'] rfl
    revert hhit
    unfold HitsTail
    decide

end VitaMTP
