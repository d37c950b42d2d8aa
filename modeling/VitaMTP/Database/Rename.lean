import VitaMTP.Database.Remove

/-! `renameRootEntry` rewrites an object and, in one pass over the list behind it, everything
below it. -/
namespace VitaMTP
open ParentFirst

/-- Objects have both strings that the categories lack. -/
def CmaObject.Named (o : CmaObject) : Prop :=
  ∃ name path, o.metadata.name = some name ∧ o.metadata.path = some path

/-- A child after the recursive call. A parent hands down its relative path before and after. -/
def CmaObject.renamedUnder (x : CmaObject) (paths : CString × CString) : CmaObject :=
  let name := x.metadata.name.getD []
  x.renamed name (x.metadata.path.getD []) (joinPath paths.1 name) (joinPath paths.2 name)

def CmaObject.pathsUnder (x : CmaObject) (paths : CString × CString) : CString × CString :=
  let name := x.metadata.name.getD []
  let origRelPath := x.metadata.path.getD []
  (origRelPath, strreplace origRelPath (joinPath paths.1 name) (joinPath paths.2 name))

def renameChild (paths : CString × CString) (x : CmaObject) :
    Option CmaObject × (CString × CString) :=
  (some (x.renamedUnder paths), x.pathsUnder paths)

/-- One pass over the objects behind a renamed one. -/
def renameBelow (ohfi : ℤ) (paths : CString × CString) : List CmaObject → List CmaObject :=
  sweep CmaObject.ohfi CmaObject.ohfiParent renameChild (mark ohfi paths)

section renamed

variable (x : CmaObject) (origName origRelPath name newname : CString)

theorem CmaObject.renamed_named : (x.renamed origName origRelPath name newname).Named :=
  ⟨_, _, rfl, rfl⟩

end renamed

theorem renameChild_keeps : Keeps CmaObject.ohfi CmaObject.ohfiParent renameChild := by
  intro s x y h
  simp only [renameChild, Option.some.injEq] at h
  subst h
  exact ⟨rfl, rfl⟩

theorem renameBelow_eq_map {ohfi : ℤ} {paths : CString × CString} {l : List CmaObject}
    (ho : NodesOrdered l) (hne : ∀ x ∈ l, x.ohfi ≠ ohfi) :
    renameBelow ohfi paths l = l.map (fun x =>
      (marks CmaObject.ohfi CmaObject.ohfiParent renameChild (mark ohfi paths) l
        x.ohfiParent).elim x x.renamedUnder) := by
  rw [renameBelow, sweep_eq_flatMap ho fun x hx => mark_ne _ (hne x hx), List.map_eq_flatMap]
  congr 1
  funext x
  cases marks CmaObject.ohfi CmaObject.ohfiParent renameChild (mark ohfi paths) l
    (CmaObject.ohfiParent x) <;> rfl

section walk

variable {n : ℕ} {ohfi : ℤ} {o w : CString} {temp temp' : CmaObject}
  {rest rest' : List CmaObject}

private theorem renameChildren_pass (hp : temp.ohfiParent ≠ ohfi) :
    renameChildren (n + 1) ohfi o w (temp :: rest) =
      (renameChildren n ohfi o w rest).map (temp :: ·) := by
  simp [renameChildren, hp]

private theorem renameChildren_child {name : CString} (hp : temp.ohfiParent = ohfi)
    (hname : temp.metadata.name = some name)
    (hcall : renameNodes n (some (joinPath o name)) (joinPath w name) (temp :: rest) =
      some (temp' :: rest')) :
    renameChildren (n + 1) ohfi o w (temp :: rest) =
      (renameChildren n ohfi o w rest').map (temp' :: ·) := by
  simp [renameChildren, hp, hname, hcall]

end walk

/-- The loop over the objects behind the renamed one: each child renames what is below it
before the loop goes on. -/
private theorem renameChildren_eq (n : ℕ) (ohfi : ℤ) (o w : CString) (l : List CmaObject)
    (ho : NodesOrdered l) (hne : ∀ x ∈ l, x.ohfi ≠ ohfi) (hnamed : ∀ x ∈ l, x.Named)
    (hn : 4 * l.length + 1 ≤ n) :
    renameChildren n ohfi o w l = some (renameBelow ohfi (o, w) l) := by
  induction hlen : l.length using Nat.strong_induction_on generalizing n ohfi o w l with
  | h len ih =>
  subst hlen
  obtain ⟨n, rfl⟩ : ∃ m, n = m + 1 := ⟨n - 1, by omega⟩
  cases l with
  | nil => rfl
  | cons x xs =>
    have hx : x.ohfi ≠ ohfi := hne x (by simp)
    have hxs : ∀ y ∈ xs, y.ohfi ≠ ohfi := fun y hy => hne y (List.mem_cons_of_mem _ hy)
    have hnxs : ∀ y ∈ xs, y.Named := fun y hy => hnamed y (List.mem_cons_of_mem _ hy)
    simp only [List.length_cons] at hn ih
    by_cases hp : x.ohfiParent = ohfi
    · obtain ⟨name, path, hname, hpath⟩ := hnamed x (by simp)
      -- the recursive call rewrites the child and then everything below it
      have hcall : renameNodes n (some (joinPath o name)) (joinPath w name) (x :: xs) =
          some (x.renamed name path (joinPath o name) (joinPath w name) ::
            renameBelow x.ohfi (path, strreplace path (joinPath o name) (joinPath w name)) xs) := by
        obtain ⟨n, rfl⟩ : ∃ m, n = m + 2 := ⟨n - 2, by omega⟩
        have hself : (x.renamed name path (joinPath o name) (joinPath w name)).ohfiParent ≠
            x.ohfi := ho.irrefl x (by simp)
        simp only [renameNodes, hname, hpath, Option.getD_some]
        rw [renameChildren_pass hself,
          ih xs.length (by omega) n x.ohfi path _ xs ho.tail (fun y hy => ho.key_ne hy) hnxs
            (by omega) rfl]
        rfl
      rw [renameChildren_child hp hname hcall]
      generalize hs : (path, strreplace path (joinPath o name) (joinPath w name)) = s
      have hmap := @renameBelow_eq_map x.ohfi s xs ho.tail fun y hy => ho.key_ne hy
      have hids : (renameBelow x.ohfi s xs).map (fun y => (y.ohfi, y.ohfiParent)) =
          xs.map (fun y => (y.ohfi, y.ohfiParent)) := by
        rw [hmap, List.map_map]
        refine List.map_congr_left fun y _ => ?_
        simp only [Function.comp_apply]
        cases marks CmaObject.ohfi CmaObject.ohfiParent renameChild (mark x.ohfi s) xs
          y.ohfiParent <;> rfl
      have hlen : (renameBelow x.ohfi s xs).length = xs.length := by
        rw [hmap, List.length_map]
      have hkeys : ∀ y ∈ renameBelow x.ohfi s xs, y.ohfi ≠ ohfi := by
        intro y hy
        have hm : (y.ohfi, y.ohfiParent) ∈ xs.map (fun y => (y.ohfi, y.ohfiParent)) :=
          hids ▸ List.mem_map_of_mem hy
        obtain ⟨z, hz, he⟩ := List.mem_map.mp hm
        have he : z.ohfi = y.ohfi := congrArg Prod.fst he
        exact he ▸ hxs z hz
      have hnames : ∀ y ∈ renameBelow x.ohfi s xs, y.Named := by
        intro y hy
        rw [hmap] at hy
        obtain ⟨z, hz, rfl⟩ := List.mem_map.mp hy
        cases marks CmaObject.ohfi CmaObject.ohfiParent renameChild (mark x.ohfi s) xs
          z.ohfiParent with
        | none => exact hnxs z hz
        | some t => exact z.renamed_named _ _ _ _
      rw [ih _ (by omega) n ohfi o w _ (ho.tail.congr hids) hkeys hnames (by omega) rfl]
      have htwo : renameBelow ohfi (o, w) (renameBelow x.ohfi s xs) =
          sweep CmaObject.ohfi CmaObject.ohfiParent renameChild
            (Function.update (mark ohfi (o, w)) x.ohfi (some s)) xs :=
        sweep_mark_sweep_mark renameChild_keeps hx hxs (fun y hy => ho.key_ne hy) ho.tail.nodup
      rw [htwo]
      simp [renameBelow, sweep, hp, renameChild, CmaObject.renamedUnder, CmaObject.pathsUnder,
        hname,
        hpath, hs]
    · rw [renameChildren_pass hp, ih xs.length (by omega) n ohfi o w xs ho.tail hxs hnxs
        (by omega) rfl]
      simp [renameBelow, sweep, mark_ne _ hp]

theorem renameRootEntry_eq {db : Database} {c : Category} {x : CmaObject} {p l : List CmaObject}
    {origName origRelPath : CString} (hl : db.lists c = p ++ x :: l)
    (ho : NodesOrdered (db.lists c)) (hnamed : ∀ y ∈ l, y.Named)
    (hname : x.metadata.name = some origName) (hpath : x.metadata.path = some origRelPath)
    (name : Option CString) (newname : CString) :
    renameRootEntry db (c, x) name newname =
      some (db.setList c (p ++
        x.renamed origName origRelPath (name.getD origName) newname ::
          renameBelow x.ohfi
            (origRelPath, strreplace origRelPath (name.getD origName) newname) l)) := by
  rw [hl] at ho
  have hox : NodesOrdered (x :: l) := ho.sublist (List.sublist_append_right p _)
  have hn := ho.nodup
  rw [List.map_append, List.nodup_append'] at hn
  have hp : ∀ y ∈ p, y.ohfi ≠ x.ohfi := fun y hy he =>
    hn.2.2 (List.mem_map_of_mem hy) (he ▸ by simp)
  obtain ⟨ht, hd⟩ := takeWhile_dropWhile_split (r := l) hp
  have hself : (x.renamed origName origRelPath (name.getD origName) newname).ohfiParent ≠
      x.ohfi := hox.irrefl x (by simp)
  have hfuel : walkFuel (x :: l) = (4 * l.length + 5) + 1 + 2 := by
    simp only [walkFuel, List.length_cons]
    omega
  have hwalk : renameNodes (walkFuel (x :: l)) name newname (x :: l) =
      some (x.renamed origName origRelPath (name.getD origName) newname ::
        renameBelow x.ohfi
          (origRelPath, strreplace origRelPath (name.getD origName) newname) l) := by
    rw [hfuel]
    simp only [renameNodes, hname, hpath]
    rw [renameChildren_pass hself, renameChildren_eq _ _ _ _ _ hox.tail
      (fun y hy => hox.key_ne hy) hnamed (by omega)]
    rfl
  simp only [renameRootEntry, Option.bind_eq_bind, hl, ht, hd, hwalk, Option.bind_some]

section pass

variable {x : CmaObject} {s : CString × CString} {p l : List CmaObject}

/-- What each object hands down, when `x` hands down `s` to the objects `l` behind it. -/
def sentFrom (x : CmaObject) (s : CString × CString) (l : List CmaObject) :
    ℤ → Option (CString × CString) :=
  marks CmaObject.ohfi CmaObject.ohfiParent renameChild (mark x.ohfi s) l

theorem sentFrom_self (ho : NodesOrdered (x :: l)) : sentFrom x s l x.ohfi = some s :=
  (marks_of_not_key (List.nodup_cons.mp ho.nodup).1).trans (mark_self _ _)

theorem sentFrom_none {k : ℤ} (hk : k ∉ (x :: l).map CmaObject.ohfi) : sentFrom x s l k = none := by
  simp only [List.map_cons, List.mem_cons, not_or] at hk
  exact (marks_of_not_key hk.2).trans (mark_ne s hk.1)

theorem sentFrom_front (ho : NodesOrdered (p ++ x :: l)) {y : CmaObject} (hy : y ∈ p) :
    sentFrom x s l y.ohfi = none ∧ sentFrom x s l y.ohfiParent = none := by
  have hnodup := ho.nodup
  rw [List.map_append, List.nodup_append'] at hnodup
  refine ⟨sentFrom_none fun hm => hnodup.2.2 (List.mem_map_of_mem hy) hm,
    sentFrom_none fun hm => ?_⟩
  obtain ⟨z, hz, he⟩ := List.mem_map.mp hm
  exact (List.pairwise_append.mp ho.before).2.2 y hy z hz he.symm

theorem sentFrom_child (ho : NodesOrdered (p ++ x :: l)) {y : CmaObject} (hy : y ∈ p ++ x :: l)
    (hne : y ≠ x) : sentFrom x s l y.ohfi = (sentFrom x s l y.ohfiParent).map y.pathsUnder := by
  have hox : NodesOrdered (x :: l) := ho.sublist (List.sublist_append_right _ _)
  rcases List.mem_append.mp hy with hy | hy
  · obtain ⟨hself, hparent⟩ := sentFrom_front (s := s) ho hy
    rw [hself, hparent]
    rfl
  · have hy : y ∈ l := by simpa [hne] using hy
    exact marks_key hox.tail (fun z hz => mark_ne s (hox.key_ne hz)) hy

theorem sentFrom_isSome_iff (ho : NodesOrdered (p ++ x :: l)) (k : ℤ) :
    (sentFrom x s l k).isSome ↔ NodesBelow (p ++ x :: l) x.ohfi k := by
  have hox : NodesOrdered (x :: l) := ho.sublist (List.sublist_append_right _ _)
  have hone : (∃ a, (mark x.ohfi s a).isSome ∧ NodesBelow l a k) ↔ NodesBelow l x.ohfi k := by
    constructor
    · rintro ⟨a, ha, hb⟩
      obtain rfl : a = x.ohfi := by
        by_contra hne
        simp [mark_ne s hne] at ha
      exact hb
    · exact fun hb => ⟨x.ohfi, by simp, hb⟩
  rw [sentFrom, marks_isSome_iff hox.tail fun z hz => mark_ne s (hox.key_ne hz), hone]
  constructor
  · exact fun hb => hb.mono fun z hz => by simp [hz]
  · intro hb
    rcases hb.split ho with rfl | ⟨hb, -⟩
    · exact .refl
    · exact hb

/-- What the pass makes of each object of the whole list, with `x'` in the place of `x`. -/
def renamedFrom (x x' : CmaObject) (s : CString × CString) (l : List CmaObject) (y : CmaObject) :
    CmaObject :=
  if y.ohfi = x.ohfi then x' else (sentFrom x s l y.ohfiParent).elim y y.renamedUnder

theorem renamedFrom_ne (ho : NodesOrdered (p ++ x :: l)) (x' : CmaObject) {y : CmaObject}
    (hy : y ∈ p ++ x :: l) (hne : y ≠ x) :
    renamedFrom x x' s l y = (sentFrom x s l y.ohfiParent).elim y y.renamedUnder :=
  if_neg fun he => hne (ho.inj hy (by simp) he)

theorem map_renamedFrom (ho : NodesOrdered (p ++ x :: l)) (x' : CmaObject) :
    (p ++ x :: l).map (renamedFrom x x' s l) = p ++ x' :: renameBelow x.ohfi s l := by
  have hox : NodesOrdered (x :: l) := ho.sublist (List.sublist_append_right _ _)
  have hnodup := ho.nodup
  rw [List.map_append, List.nodup_append'] at hnodup
  rw [List.map_append, List.map_cons, renameBelow_eq_map hox.tail fun y hy => hox.key_ne hy]
  refine congrArg₂ (· ++ ·) ?_ (congrArg₂ List.cons (if_pos rfl) ?_)
  · conv_rhs => rw [← List.map_id p]
    refine List.map_congr_left fun y hy => ?_
    have hne : y.ohfi ≠ x.ohfi := fun he => hnodup.2.2 (List.mem_map_of_mem hy) (he ▸ by simp)
    rw [renamedFrom, if_neg hne, (sentFrom_front ho hy).2]
    rfl
  · exact List.map_congr_left fun y hy => if_neg (hox.key_ne hy)

end pass

/-- `renameRootEntry` maps the list in place. `sent` is what each object hands down, for the
objects from `x` down. -/
theorem renameRootEntry_map {db : Database} {c : Category} {x : CmaObject}
    {origName origRelPath : CString} (ho : NodesOrdered (db.lists c))
    (hnamed : ∀ y ∈ (db.lists c).tail, y.Named) (hx : x ∈ (db.lists c).tail)
    (hname : x.metadata.name = some origName) (hpath : x.metadata.path = some origRelPath)
    (name : Option CString) (newname : CString) :
    ∃ (g : CmaObject → CmaObject) (sent : ℤ → Option (CString × CString)),
      renameRootEntry db (c, x) name newname = some (db.setList c ((db.lists c).map g)) ∧
      g x = x.renamed origName origRelPath (name.getD origName) newname ∧
      sent x.ohfi = some (origRelPath, strreplace origRelPath (name.getD origName) newname) ∧
      (∀ y ∈ db.lists c, y ≠ x → g y = (sent y.ohfiParent).elim y y.renamedUnder) ∧
      (∀ y ∈ db.lists c, y ≠ x → sent y.ohfi = (sent y.ohfiParent).map y.pathsUnder) ∧
      (∀ k, (sent k).isSome ↔ NodesBelow (db.lists c) x.ohfi k) := by
  obtain ⟨p, l, hl⟩ := List.append_of_mem hx
  obtain ⟨master, hmaster⟩ : ∃ m, db.lists c = m :: (db.lists c).tail := by
    cases h : db.lists c with
    | nil => simp [h] at hx
    | cons m os => exact ⟨m, rfl⟩
  have hsplit : db.lists c = (master :: p) ++ x :: l := by
    rw [hmaster, hl]
    rfl
  have hnl : ∀ y ∈ l, y.Named := fun y hy => hnamed y (by rw [hl]; simp [hy])
  have hrename := renameRootEntry_eq hsplit ho hnl hname hpath name newname
  rw [hsplit] at ho ⊢
  rw [← map_renamedFrom ho] at hrename
  exact ⟨_, _, hrename, if_pos rfl,
    sentFrom_self (ho.sublist (List.sublist_append_right _ _)),
    fun y hy hne => renamedFrom_ne ho _ hy hne, fun y hy hne => sentFrom_child ho hy hne,
    sentFrom_isSome_iff ho⟩

end VitaMTP
