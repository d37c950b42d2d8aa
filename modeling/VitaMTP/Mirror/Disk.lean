import VitaMTP.Mirror.Trees

/-! Databases that mirror a file system: each visible entry of the category directories has
exactly one object. -/
namespace VitaMTP
open ParentFirst

/-- Every list holds the visible entries of its directory in `t`, each once. -/
structure MirrorsDisk (paths : CmaPaths) (uuid : CString) (base : Category → List CString)
    (t : FileTree CString) (db : Database) : Prop where
  wellFormed : WellFormed paths uuid db
  joined : db.Joined
  plain : ∀ c, ∀ o ∈ db.lists c, o.Plain c
  places : ∀ c, Enumerates (seen t (base c)) ((db.objects c).map CmaObject.place)

section places

variable {base : Category → List CString} {t t' : FileTree CString} {c d : Category}
  {p q : List CString}

theorem seen_congr (h : p ≠ [] → t'.kind (base c ++ p) = t.kind (base c ++ p)) :
    seen t' (base c) p = seen t (base c) p := by
  unfold seen
  split
  · rename_i hp
    exact h hp.1
  · rfl

theorem root_eq (hapart : ∀ c d, base c <+: base d → c = d) (h : base c ++ p <+: base d ++ q) :
    c = d := by
  have hc : base c <+: base d ++ q := (List.prefix_append (base c) p).trans h
  rcases List.prefix_or_prefix_of_prefix hc (List.prefix_append (base d) q) with h | h
  · exact hapart c d h
  · exact (hapart d c h).symm

theorem not_interior_root (hapart : ∀ c d, base c <+: base d → c = d) (c : Category) :
    ¬ Interior base (base c) := by
  rintro ⟨d, comps, hne, heq⟩
  obtain rfl := hapart d c (heq ▸ List.prefix_append (base d) comps)
  exact hne (List.self_eq_append_right.mp heq)

theorem Adds.enumerates {es : List (List CString × FileKind)} (h : Adds base t t' c es)
    (hvisible : ∀ e ∈ es, e.1 ≠ [] ∧ ∀ n ∈ e.1, VisibleName n) :
    Enumerates (fun p => if p ∈ es.map Prod.fst then seen t' (base c) p else none) es := by
  have hseen : ∀ e ∈ es, seen t' (base c) e.1 = some e.2 := by
    intro e he
    rw [seen_of_visible (hvisible e he).1 (hvisible e he).2, h.present e he]
  refine ⟨h.nodup, fun p k => ⟨fun hmem => ?_, fun hk => ?_⟩⟩
  · rw [if_pos (List.mem_map.mpr ⟨(p, k), hmem, rfl⟩)]
    exact hseen (p, k) hmem
  · split_ifs at hk with hp
    obtain ⟨e, he, rfl⟩ := List.mem_map.mp hp
    obtain rfl := Option.some.inj ((hseen e he).symm.trans hk)
    exact he

end places

namespace MirrorsDisk

variable {paths : CmaPaths} {uuid : CString} {base : Category → List CString}
  {t t' : FileTree CString} {db : Database} {c : Category} {root x y : CmaObject}

theorem distinct (h : MirrorsDisk paths uuid base t db) (c : Category) :
    ((db.objects c).map CmaObject.comps).Nodup := by
  have hnodup := (h.places c).nodup
  rw [List.map_map] at hnodup
  exact hnodup

theorem comps_inj (h : MirrorsDisk paths uuid base t db) (hx : x ∈ db.objects c)
    (hy : y ∈ db.objects c) (he : x.comps = y.comps) : x = y :=
  List.inj_on_of_nodup_map (h.distinct c) hx hy he

theorem comps_ne_nil (h : MirrorsDisk paths uuid base t db) (hx : x ∈ db.objects c) :
    x.comps ≠ [] :=
  h.wellFormed.comps_ne_nil h.joined h.plain hx

theorem visible (h : MirrorsDisk paths uuid base t db) (hx : x ∈ db.lists c) :
    ∀ n ∈ x.comps, VisibleName n :=
  (h.wellFormed.comps_visible h.joined h.plain x hx).1

theorem below_iff (h : MirrorsDisk paths uuid base t db) (hx : x ∈ db.objects c)
    (hy : y ∈ db.lists c) : NodesBelow (db.lists c) x.ohfi y.ohfi ↔ x.comps <+: y.comps :=
  h.wellFormed.below_iff_prefix h.joined h.plain (h.distinct c) hx y hy

theorem there (h : MirrorsDisk paths uuid base t db) (hx : x ∈ db.objects c) :
    t.kind (base c ++ x.comps) = some x.kind := by
  have hmem := ((h.places c).mem x.comps x.kind).mp (List.mem_map_of_mem hx)
  exact (seen_eq_some.mp hmem).2.2

theorem found (h : MirrorsDisk paths uuid base t db) {comps : List CString}
    (hsome : (seen t (base c) comps).isSome) : ∃ x ∈ db.objects c, x.comps = comps := by
  obtain ⟨e, he, rfl⟩ := List.mem_map.mp ((h.places c).isSome.mp hsome)
  obtain ⟨x, hx, rfl⟩ := List.mem_map.mp he
  exact ⟨x, hx, rfl⟩

theorem free (h : MirrorsDisk paths uuid base t db) (hroot : root ∈ db.lists c) {name : CString}
    (hname : VisibleName name)
    (hfree : ∀ x ∈ db.objects c, x.metadata.path ≠ some (root.relPrefix ++ name)) :
    t.kind (base c ++ (root.comps ++ [name])) = none := by
  have hvisible := visible_concat (h.visible hroot) hname
  rw [← seen_of_visible (by simp) hvisible, ← Option.not_isSome_iff_eq_none]
  intro hsome
  obtain ⟨x, hx, hcomps⟩ := h.found hsome
  obtain ⟨-, path, -, hpath⟩ := (h.wellFormed.objects c x hx).named
  refine hfree x hx ?_
  rw [hpath, CmaObject.relPath_of_comps hname.2.1 hpath hcomps]

/-- Only folders have something in them, and the categories are no files. -/
theorem isFile_of_folder (h : MirrorsDisk paths uuid base t db) (hroot : root ∈ db.lists c)
    (hfolder : root.comps ≠ [] → t.kind (base c ++ root.comps) = some .folder) :
    root.isFile = false := by
  rcases h.wellFormed.mem_lists.mp hroot with ⟨hm, -⟩ | hobj
  · exact hm.isFile
  · have hkind := (h.there hobj).symm.trans (hfolder (h.comps_ne_nil hobj))
    have hplain := (h.plain c root hroot).kind (h.wellFormed.ohfi_ne_master hobj)
    unfold CmaObject.kind at hkind
    split at hkind
    · rename_i hisFolder
      rw [hplain, hisFolder]
      rfl
    · simp at hkind

theorem passable (h : MirrorsDisk paths uuid base t db) {locate : CString → List CString}
    {σ : Type} {posix : Posix σ} {tree : σ → FileTree CString} (hsys : posix.WorksOn tree locate)
    (hbase : ∀ c, locate (c.path paths uuid) = base c)
    (hapart : ∀ c d, base c <+: base d → c = d)
    (hway : ∀ c : Category, ∀ d ∈ slashPrefixes (c.path paths uuid), ¬ Interior base (locate d)) :
    ∀ x ∈ db.lists c, locate x.path = base c ++ x.comps ∧ Passable base locate t x.path := by
  refine h.wellFormed.induction (fun m _ hm => ?_) fun x hx z hz hp ih => ?_
  · rw [hm.path, h.wellFormed.comps_master hm, List.append_nil]
    refine ⟨hbase c, fun d hd hin => ?_⟩
    rcases hd with rfl | hd
    · rw [hbase c] at hin
      exact absurd hin (not_interior_root hapart c)
    · exact absurd hin (hway c d hd)
  · obtain ⟨root, hroot, name, hp', -, hname, hcomps, hpath⟩ :=
      h.wellFormed.comps_object h.joined h.plain hx
    obtain rfl := (h.wellFormed.ordered c).inj hroot hz (hp'.trans hp.symm)
    have hlocate : locate x.path = base c ++ x.comps := by
      rw [hpath, hsys.locate_join _ _ hname, ih.1, hcomps, List.append_assoc]
    refine ⟨hlocate, fun d hd hin => ?_⟩
    rcases hd with rfl | hd
    · rw [hlocate, h.there hx]
      rfl
    · rw [hpath] at hd
      exact ih.2 d ((mem_slashPrefixes_join hname.2.1).mp hd) hin

theorem grown (h : MirrorsDisk paths uuid base t db) (hapart : ∀ c d, base c <+: base d → c = d)
    (hroot : root ∈ db.lists c) {os : List CmaObject} (hos : NewBlock db.ohfiCount root.ohfi os)
    {count : ℤ} (hcount : db.ohfiCount + os.length ≤ count) (bytes : ULong)
    (hj : (db.grown c root.ohfi bytes os count).Joined) (hplain : ∀ o ∈ os, o.Plain c)
    (hadds : Adds base t t' c (os.map CmaObject.place))
    (hvisible : ∀ e ∈ os.map CmaObject.place, e.1 ≠ [] ∧ ∀ n ∈ e.1, VisibleName n) :
    MirrorsDisk paths uuid base t' (db.grown c root.ohfi bytes os count) := by
  refine ⟨h.wellFormed.grown hroot hos hcount bytes, hj,
    forall_grown (fun _ _ size ho => ho.addSize size) h.plain hplain _ _ _, fun d => ?_⟩
  by_cases hd : d = c
  · subst hd
    obtain ⟨m, hm, -⟩ := h.wellFormed.master d
    have hobjects : ((db.grown d root.ohfi bytes os count).objects d).map CmaObject.place =
        (db.objects d).map CmaObject.place ++ os.map CmaObject.place := by
      rw [Database.objects, Database.grown_lists_self, hm, sizeAdded, List.map_cons,
        List.cons_append, List.tail_cons, List.map_append, List.map_map]
      congr 1
      refine List.map_congr_left fun o _ => ?_
      simp only [Function.comp_apply]
      split <;> rfl
    rw [hobjects]
    refine (h.places d).union (hadds.enumerates hvisible) (fun p => ?_) fun p => ?_
    · by_cases hp : p ∈ (os.map CmaObject.place).map Prod.fst
      · left
        obtain ⟨e, he, rfl⟩ := List.mem_map.mp hp
        rw [seen_of_visible (hvisible e he).1 (hvisible e he).2]
        exact hadds.fresh e he
      · exact Or.inr (if_neg hp)
    · by_cases hp : p ∈ (os.map CmaObject.place).map Prod.fst
      · obtain ⟨e, he, rfl⟩ := List.mem_map.mp hp
        have hnone : seen t (base d) e.1 = none := by
          rw [seen_of_visible (hvisible e he).1 (hvisible e he).2]
          exact hadds.fresh e he
        rw [hnone, Option.none_or, if_pos hp]
      · rw [if_neg hp, Option.or_none]
        refine seen_congr fun hne => hadds.frame _ ⟨d, p, hne, rfl⟩ fun e he heq => hp ?_
        exact List.mem_map.mpr ⟨e, he, (List.append_cancel_left heq).symm⟩
  · have hobjects : (db.grown c root.ohfi bytes os count).objects d = db.objects d := by
      rw [Database.objects, Database.grown_lists_of_ne hd]
      rfl
    rw [hobjects]
    refine (h.places d).congr fun p => seen_congr fun hne => ?_
    refine hadds.frame _ ⟨d, p, hne, rfl⟩ fun e he heq => hd ?_
    exact root_eq hapart ⟨[], by rw [List.append_nil, heq]⟩

/-- An object is taken out, and what was at its place is gone. -/
theorem without (h : MirrorsDisk paths uuid base t db) (hapart : ∀ c d, base c <+: base d → c = d)
    (hx : x ∈ db.objects c) (hgone : t'.kind (base c ++ x.comps) = none)
    (hframe : ∀ place, ¬ base c ++ x.comps <+: place → t'.kind place = t.kind place) :
    MirrorsDisk paths uuid base t' (db.setList c (withoutNodes x.ohfi (db.lists c))) := by
  refine ⟨h.wellFormed.without hx, h.wellFormed.related_without h.joined hx,
    forall_without h.plain c x.ohfi, fun d => ?_⟩
  by_cases hd : d = c
  · subst hd
    obtain ⟨m, hm, hmaster⟩ := h.wellFormed.master d
    classical
    have hobjects : ((db.setList d (withoutNodes x.ohfi (db.lists d))).objects d).map
        CmaObject.place =
        ((db.objects d).map CmaObject.place).filter fun e => ¬ x.comps <+: e.1 := by
      have hfilter : (withoutNodes x.ohfi (db.lists d)).tail =
          (db.objects d).filter fun y => ¬ x.comps <+: y.comps := by
        rw [withoutNodes, ParentFirst.without]
        have hcongr : (db.lists d).filter
            (fun y => decide (¬ NodesBelow (db.lists d) x.ohfi y.ohfi)) =
            (db.lists d).filter fun y => ¬ x.comps <+: y.comps := by
          exact List.filter_congr fun y hy =>
            decide_eq_decide.mpr (not_congr (h.below_iff hx hy))
        rw [hcongr, hm, List.filter_cons_of_pos]
        · rfl
        · rw [h.wellFormed.comps_master hmaster]
          simpa using h.comps_ne_nil hx
      rw [Database.objects, Database.setList_lists_self, hfilter, List.filter_map]
      rfl
    rw [hobjects]
    refine (h.places d).filter (fun p hp => ?_) fun p hp => ?_
    · obtain ⟨r, rfl⟩ := hp
      refine seen_append_none ?_ (h.comps_ne_nil hx)
      rw [seen_of_visible (h.comps_ne_nil hx) (h.visible (WellFormed.mem_of_objects hx)), hgone]
    · refine seen_congr fun _ => hframe _ fun hpre => hp ?_
      exact (List.prefix_append_right_inj _).mp hpre
  · have hobjects : (db.setList c (withoutNodes x.ohfi (db.lists c))).objects d = db.objects d := by
      rw [Database.objects, Database.setList_lists_of_ne _ _ hd]
      rfl
    rw [hobjects]
    refine (h.places d).congr fun p => seen_congr fun _ => hframe _ fun hpre => hd ?_
    exact (root_eq hapart hpre).symm

/-- An exact rename takes every object where the rename on disk takes its file. -/
theorem renamed_comps (h : MirrorsDisk paths uuid base t db) (hx : x ∈ db.objects c)
    (hroot : root ∈ db.lists c) (hparent : root.ohfi = x.ohfiParent) {name title : CString}
    (hname : x.metadata.name = some name) (htitle : VisibleName title)
    {g : CmaObject → CmaObject}
    (hsame : ∀ y ∈ db.lists c, ¬ NodesBelow (db.lists c) x.ohfi y.ohfi → g y = y)
    (hbelow : ∀ y ∈ db.lists c, y ≠ x → NodesBelow (db.lists c) x.ohfi y.ohfi →
      g y = root.componentReplaced name title y)
    (hself : g x = { root.componentReplaced name title x with
      metadata := { (root.componentReplaced name title x).metadata with name := some title } })
    (hj : (db.setList c ((db.lists c).map g)).Joined) :
    ∀ y ∈ db.lists c, (g y).comps = moved x.comps (root.comps ++ [title]) y.comps := by
  have hwf := h.wellFormed
  have hids {y : CmaObject} (hy : y ∈ db.lists c) := WellFormed.exact_kept hsame hbelow hself hy
  refine hwf.induction (fun m hml hm => ?_) fun y hy z hz hp ih => ?_
  · have hnot : ¬ NodesBelow (db.lists c) x.ohfi m.ohfi := by
      rw [hm.ohfi]
      exact hwf.not_below_master (hwf.objects c x hx).first
    rw [hsame m hml hnot, hwf.comps_master hm, moved_of_not]
    rw [List.prefix_nil]
    exact h.comps_ne_nil hx
  · have hyl := WellFormed.mem_of_objects hy
    by_cases hb : NodesBelow (db.lists c) x.ohfi y.ohfi
    · by_cases hyx : y = x
      · subst hyx
        have hmoved : moved y.comps (root.comps ++ [title]) y.comps = root.comps ++ [title] := by
          simpa using moved_append y.comps (root.comps ++ [title]) []
        obtain ⟨n, hn, hrel, -⟩ := h.joined c y hy root hroot hparent
        obtain rfl := Option.some.inj (hname.symm.trans hn)
        have hreplace := replaceAt_append root.relPrefix name title []
        rw [List.append_nil, List.append_nil] at hreplace
        rw [hmoved, hself]
        refine CmaObject.comps_of_relPath htitle.2.1 ?_
        simp only [CmaObject.componentReplaced, hrel, Option.map_some, hreplace]
      · -- the parent moved as well, and the name is the old one
        obtain ⟨root', hroot', n, hp', hn, hvisible, hcomps, -⟩ :=
          hwf.comps_object h.joined h.plain hy
        obtain rfl := (hwf.ordered c).inj hroot' hz (hp'.trans hp.symm)
        have hz' : x.comps <+: root'.comps := by
          rw [← h.below_iff hx hz, hp]
          refine ((nodesBelow_iff (hwf.ordered c) hyl).mp hb).resolve_left fun he => hyx ?_
          exact (hwf.ordered c).inj hyl (WellFormed.mem_of_objects hx) he.symm
        have hgy : g y ∈ (db.setList c ((db.lists c).map g)).objects c := by
          obtain ⟨m, hm, -⟩ := hwf.master c
          rw [Database.objects, Database.setList_lists_self, hm, List.map_cons, List.tail_cons]
          exact List.mem_map_of_mem hy
        have hgz : g root' ∈ (db.setList c ((db.lists c).map g)).lists c := by
          rw [Database.setList_lists_self]
          exact List.mem_map_of_mem hz
        obtain ⟨n', hn', hrel, -⟩ := hj c (g y) hgy (g root') hgz (by
          rw [(hids hz).1, (hids hyl).2.1, hp])
        rw [hbelow y hyl hyx hb] at hn'
        obtain rfl : n = n' := Option.some.inj (hn.symm.trans hn')
        rw [CmaObject.comps_of_relPath hvisible.2.1 hrel, ih, hcomps, moved_concat hz']
    · rw [hsame y hyl hb, moved_of_not]
      rwa [← h.below_iff hx hyl]

theorem kind_move {old new p : List CString}
    (hmove : t.move (base c ++ old) (base c ++ new) = some t') :
    t'.kind (base c ++ p) = if new <+: p then t.kind (base c ++ (old ++ p.drop new.length))
      else if old <+: p then none else t.kind (base c ++ p) := by
  obtain ⟨-, -, hkind⟩ := FileTree.move_eq_some hmove
  rw [hkind]
  simp only [List.prefix_append_right_inj]
  have hdrop : (base c ++ p).drop (base c ++ new).length = p.drop new.length := by
    rw [List.length_append, ← List.drop_drop, List.drop_left]
  rw [hdrop, List.append_assoc]

/-- What can be seen at a place and below it is seen at the new one, where nothing was. -/
theorem places_moved {l : List (List CString × FileKind)} {old new : List CString}
    (h : Enumerates (seen t (base c)) l) (hne : old ≠ []) (hold : ∀ n ∈ old, VisibleName n)
    (hne' : new ≠ []) (hnew : ∀ n ∈ new, VisibleName n) (hnone : t.kind (base c ++ new) = none)
    (hmove : t.move (base c ++ old) (base c ++ new) = some t') :
    Enumerates (seen t' (base c)) (l.map fun e => (moved old new e.1, e.2)) := by
  refine h.move (fun r => ?_) (fun r => ?_) (fun p hn ho => ?_) fun p hn ho => ?_
  · refine seen_append_none ?_ hne'
    rw [seen_of_visible hne' hnew, hnone]
  · have hiff : (new ++ r ≠ [] ∧ ∀ n ∈ new ++ r, VisibleName n) ↔
        (old ++ r ≠ [] ∧ ∀ n ∈ old ++ r, VisibleName n) := by
      simp only [List.mem_append, or_imp, forall_and, ne_eq, List.append_eq_nil_iff, hne, hne',
        false_and, not_false_eq_true, true_and]
      exact and_congr (iff_of_true hnew hold) Iff.rfl
    have hkind := kind_move (p := new ++ r) hmove
    rw [if_pos (List.prefix_append new r), List.drop_left] at hkind
    unfold seen
    exact if_congr hiff hkind rfl
  · have hkind := kind_move (p := p) hmove
    rw [if_neg hn, if_pos ho] at hkind
    unfold seen
    rw [hkind, ite_self]
  · have hkind := kind_move (p := p) hmove
    rw [if_neg hn, if_neg ho] at hkind
    exact seen_congr fun _ => hkind

/-- An object gets a new name, on disk as in the database. -/
theorem renamed (h : MirrorsDisk paths uuid base t db) (hapart : ∀ c d, base c <+: base d → c = d)
    (hx : x ∈ db.objects c) (hroot : root ∈ db.lists c) (hparent : root.ohfi = x.ohfiParent)
    {name title : CString} (hname : x.metadata.name = some name) (htitle : VisibleName title)
    {db₁ : Database} (hwf : WellFormed paths uuid db₁)
    (hexact : RenamedExactly db c root x name title db₁)
    (hdisk : root.comps ++ [title] = x.comps ∧ t' = t ∨
      t.kind (base c ++ (root.comps ++ [title])) = none ∧
        t.move (base c ++ x.comps) (base c ++ (root.comps ++ [title])) = some t') :
    MirrorsDisk paths uuid base t' db₁ := by
  obtain ⟨⟨g, rfl, hsame, hbelow, hself⟩, hj⟩ := hexact
  have hcomps := h.renamed_comps hx hroot hparent hname htitle hsame hbelow hself hj
  have hkept {y : CmaObject} (hy : y ∈ db.lists c) := WellFormed.exact_kept hsame hbelow hself hy
  refine ⟨hwf, hj, fun d o ho => ?_, fun d => ?_⟩
  · by_cases hd : d = c
    · subst hd
      rw [Database.setList_lists_self] at ho
      obtain ⟨y, hy, rfl⟩ := List.mem_map.mp ho
      have hplain := h.plain d y hy
      obtain ⟨hid, -, htype⟩ := hkept hy
      refine ⟨fun n hn => ?_, fun hne => ?_⟩
      · by_cases hb : NodesBelow (db.lists d) x.ohfi y.ohfi
        · by_cases hyx : y = x
          · rw [hyx, hself] at hn
            exact Option.some.inj hn ▸ htitle
          · rw [hbelow y hy hyx hb] at hn
            exact hplain.name n hn
        · rw [hsame y hy hb] at hn
          exact hplain.name n hn
      · rw [hid] at hne
        unfold CmaObject.isFile CmaObject.isFolder
        rw [htype]
        exact hplain.kind hne
    · rw [Database.setList_lists_of_ne _ _ hd] at ho
      exact h.plain d o ho
  · by_cases hd : d = c
    · subst hd
      obtain ⟨m, hm, -⟩ := h.wellFormed.master d
      have hobjects : ((db.setList d ((db.lists d).map g)).objects d).map CmaObject.place =
          ((db.objects d).map CmaObject.place).map fun e =>
            (moved x.comps (root.comps ++ [title]) e.1, e.2) := by
        rw [Database.objects, Database.setList_lists_self, hm, List.map_cons, List.tail_cons,
          List.map_map, List.map_map]
        refine List.map_congr_left fun y hy => ?_
        have hyl := WellFormed.mem_of_objects hy
        have hfolder : (g y).isFolder = y.isFolder := by
          unfold CmaObject.isFolder
          rw [(hkept hyl).2.2]
        refine Prod.ext (hcomps y hyl) ?_
        simp only [Function.comp_apply, CmaObject.place, CmaObject.kind, hfolder]
      rw [hobjects]
      rcases hdisk with ⟨hsameName, rfl⟩ | ⟨hnone, hmove⟩
      · rw [hsameName]
        simpa [Function.comp_def] using h.places d
      · exact places_moved (h.places d) (h.comps_ne_nil hx)
          (h.visible (WellFormed.mem_of_objects hx)) (by simp)
          (visible_concat (h.visible hroot) htitle) hnone hmove
    · have hobjects : (db.setList c ((db.lists c).map g)).objects d = db.objects d := by
        rw [Database.objects, Database.setList_lists_of_ne _ _ hd]
        rfl
      rw [hobjects]
      rcases hdisk with ⟨-, rfl⟩ | ⟨-, hmove⟩
      · exact h.places d
      · obtain ⟨-, -, hkind⟩ := FileTree.move_eq_some hmove
        refine (h.places d).congr fun p => seen_congr fun _ => ?_
        rw [hkind, if_neg fun hpre => hd (root_eq hapart hpre).symm,
          if_neg fun hpre => hd (root_eq hapart hpre).symm]

end MirrorsDisk

end VitaMTP
