import VitaMTP.Database.Invariant

/-! Every operation on the object lists keeps them well formed. -/
namespace VitaMTP
open ParentFirst

/-- What `vitaEventSendObject` and `vitaGetAllObjects` write into an object. -/
def CmaObject.setHandle (handle : BitVec 32) (object : CmaObject) : CmaObject :=
  { object with metadata := { object.metadata with handle := handle } }

theorem IsMaster.setHandle {paths : CmaPaths} {uuid : CString} {c : Category} {o : CmaObject}
    (h : IsMaster paths uuid c o) (handle : BitVec 32) :
    IsMaster paths uuid c (o.setHandle handle) := by
  obtain ⟨size, handle', h⟩ := h
  exact ⟨size, _, congrArg (CmaObject.setHandle handle) h⟩

namespace Scanned

variable {last : CmaObject} {count : ℤ} {objects : List CmaObject} {total : ULong}

theorem rooted (h : Scanned last count objects total) :
    Rooted CmaObject.ohfi CmaObject.ohfiParent [last.ohfi] objects := by
  induction h with
  | nil => trivial
  | @cons last current count name statbuf s t inside others hcurrent _ _ _ hin hout =>
    subst hcurrent
    refine ⟨by simp [CmaObject.addSize, newObject], ?_⟩
    refine Rooted.append.mpr ⟨hin.mono ?_, hout.mono ?_⟩
    · simp
    · simp

theorem newObjects (h : Scanned last count objects total) :
    ∀ o ∈ objects, o.filters = [] ∧ o.Named := by
  induction h with
  | nil => simp
  | cons hcurrent _ _ _ hin hout =>
    subst hcurrent
    intro o ho
    simp only [List.mem_cons, List.mem_append] at ho
    rcases ho with rfl | ho | ho
    · exact ⟨rfl, _, _, rfl, rfl⟩
    · exact hin o ho
    · exact hout o ho

end Scanned

theorem Database.get?_of_ordered {db : Database} {c : Category} (hord : NodesOrdered (db.lists c))
    {o : CmaObject} (ho : o ∈ db.lists c) : db.get? c o.ohfi = some o := by
  have hsome : ((db.lists c).find? (fun y => y.ohfi == o.ohfi)).isSome := by
    rw [List.find?_isSome]
    exact ⟨o, ho, by simp⟩
  obtain ⟨y, hy⟩ := Option.isSome_iff_exists.mp hsome
  have hid : y.ohfi = o.ohfi := by simpa using List.find?_some hy
  rw [Database.get?, hy, hord.inj (List.mem_of_find?_eq_some hy) ho hid]

namespace WellFormed

variable {paths : CmaPaths} {uuid : CString} {db : Database}

theorem init (paths : CmaPaths) (uuid : CString) :
    WellFormed paths uuid (initDatabase paths uuid) := by
  rw [initDatabase_eq]
  refine ⟨le_rfl, fun c => ⟨_, rfl, isMaster_categoryObject paths uuid c⟩, ?_, ?_, ?_, ?_⟩
  all_goals simp [Database.objects, Rooted]

/-- Appending fresh objects whose parents are in the list or among them. -/
theorem append (h : WellFormed paths uuid db) {c : Category} {os : List CmaObject} {seen : List ℤ}
    (hos : Numbered db.ohfiCount os) (hnew : ∀ o ∈ os, o.filters = [] ∧ o.Named)
    (hrooted : Rooted CmaObject.ohfi CmaObject.ohfiParent seen os)
    (hseen : seen ⊆ (db.lists c).map CmaObject.ohfi) : WellFormed paths uuid (db.append c os) := by
  obtain ⟨m, hm, hmaster⟩ := h.master c
  have hall : Rooted CmaObject.ohfi CmaObject.ohfiParent [c.ohfi] (db.objects c ++ os) := by
    refine Rooted.append.mpr ⟨h.rooted c, hrooted.mono fun i hi => ?_⟩
    have hi := hseen hi
    rw [hm, List.map_cons, hmaster.ohfi, List.mem_cons] at hi
    simp only [List.mem_append, List.mem_reverse, List.mem_singleton]
    exact hi.symm
  have hnodup : ((db.objects c ++ os).map CmaObject.ohfi).Nodup := by
    rw [List.map_append, List.nodup_append']
    refine ⟨h.distinct c, hos.nodup, fun i hi hi' => ?_⟩
    obtain ⟨x, hx, rfl⟩ := List.mem_map.mp hi
    obtain ⟨y, hy, he⟩ := List.mem_map.mp hi'
    have h₁ := (h.objects c x hx).counted
    have h₂ := (hos.bounds y hy).1
    omega
  have := @replace paths uuid db h c m (db.objects c ++ os) (db.ohfiCount + os.length)
    (show db.ohfiCount ≤ db.ohfiCount + os.length by omega) hmaster ?_ hall hnodup ?_
  · rw [Database.append, hm]
    exact this
  · intro o ho
    rcases List.mem_append.mp ho with ho | ho
    · have hobj := h.objects c o ho
      refine ⟨hobj.first, ?_, hobj.filters, hobj.named⟩
      have := hobj.counted
      omega
    · have hb := hos.bounds o ho
      have := h.counted
      exact ⟨by omega, hb.2, (hnew o ho).1, (hnew o ho).2⟩
  · intro o ho
    rcases List.mem_append.mp ho with ho | ho
    · exact Or.inl ⟨o, ho, rfl⟩
    · exact Or.inr (hos.bounds o ho).1

theorem addToDatabase (h : WellFormed paths uuid db) {c : Category} {root : CmaObject}
    (hroot : root ∈ db.lists c) (name : CString) (size : ULong) (type : Mask) :
    WellFormed paths uuid (VitaMTP.addToDatabase db c root name size type).1 := by
  rw [addToDatabase_eq]
  have hrooted : Rooted CmaObject.ohfi CmaObject.ohfiParent [root.ohfi]
      [newObject db.ohfiCount root name size type] := ⟨by simp [newObject], trivial⟩
  refine h.append ⟨rfl, trivial⟩ ?_ hrooted ?_
  · intro o ho
    obtain rfl := List.mem_singleton.mp ho
    exact ⟨rfl, _, _, rfl, rfl⟩
  · simpa using ⟨root, hroot, rfl⟩

/-- A write that keeps ids, parents, filters and strings. -/
theorem modify (h : WellFormed paths uuid db) (c : Category) (ohfi : ℤ)
    {f : CmaObject → CmaObject}
    (hf : ∀ o, (∃ size, f o = o.addSize size) ∨ ∃ handle, f o = o.setHandle handle) :
    WellFormed paths uuid (db.modify c ohfi f) := by
  refine h.map c (fun o _ hm => ?_) (fun o ho => ?_)
  · split
    · rcases hf o with ⟨size, he⟩ | ⟨handle, he⟩
      · exact he ▸ hm.addSize size
      · exact he ▸ hm.setHandle handle
    · exact hm
  · have hobj := h.objects c o ho
    split
    · rcases hf o with ⟨size, he⟩ | ⟨handle, he⟩
      · exact he ▸ ⟨rfl, rfl, rfl, hobj.named⟩
      · exact he ▸ ⟨rfl, rfl, rfl, hobj.named⟩
    · exact ⟨rfl, rfl, rfl, hobj.named⟩

theorem addSize (h : WellFormed paths uuid db) (c : Category) (ohfi : ℤ) (size : ULong) :
    WellFormed paths uuid (db.modify c ohfi (CmaObject.addSize size)) :=
  h.modify c ohfi fun _ => Or.inl ⟨size, rfl⟩

theorem setHandle (h : WellFormed paths uuid db) (c : Category) (ohfi : ℤ) (handle : BitVec 32) :
    WellFormed paths uuid (db.modify c ohfi (CmaObject.setHandle handle)) :=
  h.modify c ohfi fun _ => Or.inr ⟨handle, rfl⟩

/-- Reading through a pointer to an object of the list. -/
theorem get?_eq (h : WellFormed paths uuid db) {c : Category} {o : CmaObject}
    (ho : o ∈ db.lists c) : db.get? c o.ohfi = some o :=
  Database.get?_of_ordered (h.ordered c) ho

theorem addEntriesForDirectory (h : WellFormed paths uuid db) {view : DirView} {c : Category}
    {n : ℕ} {last : CmaObject} (hlast : last ∈ db.lists c) {db' : Database}
    (hscan : VitaMTP.addEntriesForDirectory view c n db last.ohfi = some db') :
    WellFormed paths uuid db' := by
  rw [addEntriesForDirectory_eq view c n db last (h.counted_list c) (h.get?_eq hlast),
    Option.map_eq_some_iff] at hscan
  obtain ⟨b, hb, rfl⟩ := hscan
  have hs := entriesBelow_scanned hb
  refine (h.append hs.numbered hs.newObjects hs.rooted ?_).addSize c last.ohfi b.2
  simpa using ⟨last, hlast, rfl⟩

theorem master_mem (h : WellFormed paths uuid db) (c : Category) :
    ∃ m ∈ db.lists c, m.ohfi = c.ohfi ∧ IsMaster paths uuid c m := by
  obtain ⟨m, hm, hmaster⟩ := h.master c
  exact ⟨m, by rw [hm]; simp, hmaster.ohfi, hmaster⟩

/-- `createDatabase` scans one category after the other. -/
theorem createDatabase_induction {P : Database → Prop} {view : DirView} {n : ℕ}
    (hdb : VitaMTP.createDatabase view n paths uuid = some db) (hinit : P (initDatabase paths uuid))
    (hscan : ∀ db c m b, WellFormed paths uuid db → P db → m ∈ db.lists c →
      IsMaster paths uuid c m → entriesBelow view n db.ohfiCount m = some b →
      P ((db.append c b.1).modify c m.ohfi (CmaObject.addSize b.2))) :
    WellFormed paths uuid db ∧ P db := by
  have hfold (cs : List Category) (db₀ : Database) (h : WellFormed paths uuid db₀) (hP : P db₀)
      (hcs : cs.foldlM (fun db c => VitaMTP.addEntriesForDirectory view c n db c.ohfi) db₀ =
        some db) : WellFormed paths uuid db ∧ P db := by
    induction cs generalizing db₀ with
    | nil => exact Option.some.inj hcs ▸ ⟨h, hP⟩
    | cons c cs ih =>
      rw [List.foldlM_cons, Option.bind_eq_bind, Option.bind_eq_some_iff] at hcs
      obtain ⟨db₁, hentries, hcs⟩ := hcs
      obtain ⟨m, hm, hid, hmaster⟩ := h.master_mem c
      have h₁ := h.addEntriesForDirectory hm (hid ▸ hentries)
      rw [← hid, addEntriesForDirectory_eq view c n db₀ m (h.counted_list c) (h.get?_eq hm),
        Option.map_eq_some_iff] at hentries
      obtain ⟨b, hb, rfl⟩ := hentries
      exact ih _ h₁ (hscan db₀ c m b h hP hm hmaster hb) hcs
  exact hfold Category.all _ (init paths uuid) hinit hdb

theorem createDatabase {view : DirView} {n : ℕ}
    (hdb : VitaMTP.createDatabase view n paths uuid = some db) : WellFormed paths uuid db :=
  (createDatabase_induction (P := fun _ => True) hdb trivial fun _ _ _ _ _ _ _ _ _ => trivial).1

theorem not_below_master (h : WellFormed paths uuid db) {c : Category} {a : ℤ}
    (ha : FIRST_OBJECT ≤ a) : ¬ NodesBelow (db.lists c) a c.ohfi := by
  have hpos : (0 : ℤ) < FIRST_OBJECT := by decide
  have hc := c.ohfi_lt_first
  intro hb
  rcases hb.cases_tail with he | ⟨b, hb, x, hx, hp, hk⟩
  · omega
  · obtain ⟨m, hm, hid, hmaster⟩ := h.master_mem c
    obtain rfl := (h.ordered c).inj hx hm (hk.trans hid.symm)
    rw [hmaster.ohfiParent] at hp
    subst hp
    rcases hb.cases_tail with he | ⟨_, -, y, hy, -, hk⟩
    · omega
    · have := h.ohfi_pos hy
      omega

theorem mem_objects_of_below (h : WellFormed paths uuid db) {c : Category} {x y : CmaObject}
    (hx : x ∈ db.objects c) (hy : y ∈ db.lists c) (hb : NodesBelow (db.lists c) x.ohfi y.ohfi) :
    y ∈ db.objects c := by
  refine (h.mem_lists.mp hy).resolve_left ?_
  rintro ⟨hmaster, -⟩
  rw [hmaster.ohfi] at hb
  exact h.not_below_master (h.objects c x hx).first hb

theorem ohfi_ne_master (h : WellFormed paths uuid db) {c d : Category} {x : CmaObject}
    (hx : x ∈ db.objects c) : x.ohfi ≠ d.ohfi := by
  have h₁ := (h.objects c x hx).first
  have h₂ := d.ohfi_lt_first
  omega

theorem without (h : WellFormed paths uuid db) {c : Category} {x : CmaObject}
    (hx : x ∈ db.objects c) :
    WellFormed paths uuid (db.setList c (withoutNodes x.ohfi (db.lists c))) := by
  obtain ⟨m, hm, hmaster⟩ := h.master c
  have hkept : ¬ NodesBelow (db.lists c) x.ohfi m.ohfi := by
    rw [hmaster.ohfi]
    exact h.not_below_master (h.objects c x hx).first
  generalize hl : db.lists c = l at hm hkept
  subst hm
  rw [withoutNodes, ParentFirst.without, List.filter_cons_of_pos (by simpa using hkept)]
  refine h.replace le_rfl hmaster (fun o ho => h.objects c o (List.mem_of_mem_filter ho)) ?_
    ((h.distinct c).sublist (List.filter_sublist.map _))
    fun o ho => Or.inl ⟨o, List.mem_of_mem_filter ho, rfl⟩
  refine (h.rooted c).filter (fun _ _ _ hi => hi) fun y hy hkeep z hz he => ?_
  simp only [decide_eq_true_eq] at hkeep ⊢
  exact fun hb => hkeep (hb.tail ⟨y, List.mem_cons_of_mem _ hy, he.symm, rfl⟩)

/-- Removing an object with its parent or its category as the start takes out exactly the
object and what is below it. -/
theorem removeFromDatabase_eq (h : WellFormed paths uuid db) {c : Category} {x start : CmaObject}
    (hx : x ∈ db.objects c) (hmem : start ∈ db.lists c)
    (hstart : start.ohfi = x.ohfiParent ∨ start.ohfi = c.ohfi) :
    removeFromDatabase db x.ohfi (some (c, start)) =
      some (db.setList c (withoutNodes x.ohfi (db.lists c))) := by
  obtain ⟨l, l', hl⟩ := List.append_of_mem hx
  obtain ⟨m, hm, hmaster⟩ := h.master c
  have hsplit : db.lists c = (m :: l) ++ x :: l' := by
    rw [hm, hl]
    rfl
  have hfront : start ∈ m :: l := by
    rcases hstart with he | he
    · obtain ⟨z, hz, hzp⟩ := h.parent_before hx hsplit
      have hzm : z ∈ db.lists c := by
        rw [hsplit]
        exact List.mem_append_left _ hz
      exact (h.ordered c).inj hmem hzm (he.trans hzp.symm) ▸ hz
    · have hmm : m ∈ db.lists c := by
        rw [hm]
        simp
      exact (h.ordered c).inj hmem hmm (he.trans hmaster.ohfi.symm) ▸ List.mem_cons_self ..
  obtain ⟨p, q, hpq⟩ := List.append_of_mem hfront
  have hwhole : db.lists c = p ++ start :: q ++ x :: l' := by
    rw [hsplit, hpq]
  exact VitaMTP.removeFromDatabase_eq hwhole (h.ordered c)

/-- Renaming an object rewrites it and what is below it in place. -/
theorem renameRootEntry_map (h : WellFormed paths uuid db) {c : Category} {x : CmaObject}
    (hx : x ∈ db.objects c) {origName origRelPath : CString}
    (hname : x.metadata.name = some origName) (hpath : x.metadata.path = some origRelPath)
    (name : Option CString) (newname : CString) :
    ∃ (g : CmaObject → CmaObject) (sent : ℤ → Option (CString × CString)),
      renameRootEntry db (c, x) name newname = some (db.setList c ((db.lists c).map g)) ∧
      g x = x.renamed origName origRelPath (name.getD origName) newname ∧
      sent x.ohfi = some (origRelPath, strreplace origRelPath (name.getD origName) newname) ∧
      (∀ y ∈ db.lists c, y ≠ x → g y = (sent y.ohfiParent).elim y y.renamedUnder) ∧
      (∀ y ∈ db.lists c, y ≠ x → sent y.ohfi = (sent y.ohfiParent).map y.pathsUnder) ∧
      (∀ k, (sent k).isSome ↔ NodesBelow (db.lists c) x.ohfi k) :=
  VitaMTP.renameRootEntry_map (h.ordered c) (fun y hy => (h.objects c y hy).named) hx hname hpath
    name newname

theorem renameRootEntry (h : WellFormed paths uuid db) {c : Category} {x : CmaObject}
    (hx : x ∈ db.objects c) (name : Option CString) (newname : CString) :
    ∃ db', VitaMTP.renameRootEntry db (c, x) name newname = some db' ∧
      WellFormed paths uuid db' := by
  obtain ⟨origName, origRelPath, hname, hpath⟩ := (h.objects c x hx).named
  obtain ⟨g, sent, heq, hgx, -, hg, -, hbelow⟩ :=
    h.renameRootEntry_map hx hname hpath name newname
  refine ⟨_, heq, h.map c (fun m hm hmaster => ?_) (fun y hy => ?_)⟩
  · have hne : m ≠ x := by
      rintro rfl
      exact h.ohfi_ne_master hx hmaster.ohfi
    have hunsent : sent 0 = none := by
      rw [← Option.not_isSome_iff_eq_none, hbelow]
      intro hb
      have hpos : (0 : ℤ) < FIRST_OBJECT := by decide
      have hfirst := (h.objects c x hx).first
      rcases hb.cases_tail with he | ⟨_, -, z, hz, -, hk⟩
      · omega
      · have := h.ohfi_pos hz
        omega
    rw [hg m hm hne, hmaster.ohfiParent, hunsent]
    exact hmaster
  · by_cases hne : y = x
    · subst hne
      rw [hgx]
      exact ⟨rfl, rfl, rfl, y.renamed_named _ _ _ _⟩
    · rw [hg y (mem_of_objects hy) hne]
      cases sent y.ohfiParent with
      | none => exact ⟨rfl, rfl, rfl, (h.objects c y hy).named⟩
      | some s => exact ⟨rfl, rfl, rfl, y.renamed_named _ _ _ _⟩

end WellFormed

end VitaMTP
