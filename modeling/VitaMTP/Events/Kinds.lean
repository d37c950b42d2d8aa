import VitaMTP.Events.Run
import VitaMTP.Events.Send

/-! No handler changes the kind of an object, and the objects it creates have one. -/
namespace VitaMTP
open ParentFirst

section trees

variable {c : Category}

mutual

theorem nodes_kinded (count : ℤ) (root : CmaObject) (h : EntryBits c root) :
    (t : DeviceObject) → ∀ o ∈ t.nodes count root, Kinded c o
  | .unavailable => by
    unfold DeviceObject.nodes
    simp
  | .file name handle size data => by
    unfold DeviceObject.nodes
    intro o ho
    obtain rfl := List.mem_singleton.mp ho
    exact (newObject_kinded h (Or.inr rfl) count name 0).congr rfl rfl rfl
  | .folder name handle children => by
    unfold DeviceObject.nodes
    have hfolder := newObject_kinded h (Or.inl rfl) count name 0
    intro o ho
    rcases List.mem_cons.mp ho with rfl | ho
    · exact hfolder.congr rfl rfl rfl
    · have hobject : Kinded c ((newObject count root name 0 DataType.Folder).setHandle handle) :=
        hfolder.congr rfl rfl rfl
      exact childNodes_kinded _ _ hobject.entryBits children o ho

theorem childNodes_kinded (count : ℤ) (root : CmaObject) (h : EntryBits c root) :
    (ts : List DeviceObject) → ∀ o ∈ childNodes count root ts, Kinded c o
  | [] => by
    unfold childNodes
    simp
  | t :: ts => by
    unfold childNodes
    intro o ho
    rcases List.mem_append.mp ho with ho | ho
    · exact nodes_kinded _ root h t o ho
    · exact childNodes_kinded _ root h ts o ho

end

end trees

namespace WellFormed

variable {paths : CmaPaths} {uuid : CString} {db : Database}

theorem kinded_grown (h : WellFormed paths uuid db) (hk : db.Kinded) {c : Category} {root : ℤ}
    {os : List CmaObject} (hos : ∀ o ∈ os, Kinded c o) (bytes : ULong) (count : ℤ) :
    (db.grown c root bytes os count).Kinded := by
  have hlists : (db.grown c root bytes os count).lists =
      ((db.setList c (sizeAdded root bytes (db.lists c))).append c os).lists := by
    simp [Database.grown, Database.append, Database.setList]
  have happend : ((db.setList c (sizeAdded root bytes (db.lists c))).append c os).Kinded :=
    (h.sizeAdded_wellFormed c root bytes).objects_append (kinded_sizeAdded hk c root bytes) hos
  unfold Database.Kinded Database.objects at happend ⊢
  rw [hlists]
  exact happend

end WellFormed

section requests

variable {σ : Type} {posix : Posix σ} {paths : CmaPaths} {uuid : CString} {s s' : Host σ}

theorem vitaGetAllObjects_kinded (h : WellFormed paths uuid s.db) (hk : s.db.Kinded)
    {c : Category} {parent : CmaObject} (hp : parent ∈ s.db.lists c) {t : DeviceObject}
    {ret : ResultCode} (hres : vitaGetAllObjects posix c parent.ohfi t s = some (ret, s')) :
    s'.db.Kinded := by
  obtain ⟨bytes, os, count, hos, hle, hdb⟩ := vitaGetAllObjects_grown h hp hres
  have hcleared : (cleared posix s parent.ohfi t.name?).db.Kinded := by
    cases hname : t.name? with
    | none => exact hk
    | some name =>
      rcases cleared_cases posix h hp name with ⟨-, he⟩ | ⟨temp, htemp, -, -, he⟩
      · rw [he]
        exact hk
      · rw [he]
        exact h.objects_without hk htemp
  have hnew : ∀ o ∈ os, Kinded c o := by
    rcases hos with rfl | rfl
    · simp
    · exact nodes_kinded _ parent (h.entryBits hk hp) t
  rw [hdb]
  exact (cleared_wellFormed posix h hp _).kinded_grown hcleared hnew bytes count

theorem Handled.kinded {r : DeviceRequest} {msgs : List Message}
    (hh : Handled posix s r s' msgs) (h : WellFormed paths uuid s.db) (hk : s.db.Kinded) :
    s'.db.Kinded := by
  cases hh with
  | refused => exact hk
  | @created c root _ title folder hroot =>
    apply h.kinded_added hk hroot
    cases folder
    · exact Or.inr rfl
    · exact Or.inl rfl
  | notCreated => exact hk
  | renamed hx _ _ _ hrename =>
    obtain ⟨g, rfl, hg⟩ := h.renameRootEntry_kinds hx hrename
    exact WellFormed.kinded_map hk _ hg
  | notRenamed hx _ hname _ hrename hx₁ hid hback =>
    obtain ⟨db', heq, h₁⟩ := h.renameRootEntry hx none _
    obtain rfl := Option.some.inj (heq.symm.trans hrename)
    have hx₁' := object_of_get? h₁ h hx hx₁ hid
    obtain ⟨g, rfl, hg⟩ := h.renameRootEntry_kinds hx hrename
    obtain ⟨g', rfl, hg'⟩ := h₁.renameRootEntry_kinds hx₁' hback
    exact WellFormed.kinded_map (WellFormed.kinded_map hk _ hg) _ hg'
  | deleted hx => exact h.objects_without hk hx
  | received hparent _ hreceive => exact vitaGetAllObjects_kinded h hk hparent hreceive
  | written => exact WellFormed.kinded_sizeAdded hk _ _ _
  | notWritten => exact hk

theorem Database.modify_split {db : Database} {c : Category} {x : CmaObject} {p q : List CmaObject}
    (hl : db.lists c = p ++ x :: q) (hn : ((db.lists c).map CmaObject.ohfi).Nodup)
    (f : CmaObject → CmaObject) : db.modify c x.ohfi f = db.setList c (p ++ f x :: q) := by
  obtain ⟨hp, hbehind⟩ := ohfi_ne_of_split hl hn
  have hskip (l : List CmaObject) (hne : ∀ y ∈ l, y.ohfi ≠ x.ohfi) :
      l.map (fun o => if o.ohfi = x.ohfi then f o else o) = l := by
    conv_rhs => rw [← List.map_id l]
    exact List.map_congr_left fun y hy => if_neg (hne y hy)
  rw [Database.modify, hl, List.map_append, List.map_cons, if_pos rfl, hskip p hp,
    hskip q hbehind]

/-- What a round leaves in the list: it stops in front of its object, or sets its handle and stops
or goes on behind it. -/
theorem sendNodes_nodes (fs : Disk σ) (answers : ℕ → Option SendAnswer) (sent : List CmaObject)
    (parentHandle : BitVec 32) (object : CmaObject) (rest : List CmaObject) :
    (sendNodes posix fs answers sent parentHandle object rest).nodes = sent ++ object :: rest ∨
    ∃ handle, (sendNodes posix fs answers sent parentHandle object rest).nodes =
        sent ++ object.setHandle handle :: rest ∨
      ∃ next rest' parentHandle', rest = next :: rest' ∧
        (sendNodes posix fs answers sent parentHandle object rest).nodes =
          (sendNodes posix fs answers (sent ++ [object.setHandle handle]) parentHandle' next
            rest').nodes := by
  rw [sendNodes.eq_def]
  cases readObject posix fs object with
  | none => exact Or.inl rfl
  | some data =>
    dsimp only
    cases sendObjectMessage (parentHandleOf sent object parentHandle) object data with
    | none => exact Or.inl rfl
    | some msg =>
      dsimp only
      cases answers sent.length with
      | none => exact Or.inl rfl
      | some a =>
        refine Or.inr ⟨a.2, ?_⟩
        cases rest with
        | nil => exact Or.inl (List.append_assoc ..)
        | cons next rest =>
          dsimp only
          split_ifs
          · exact Or.inr ⟨next, rest, a.1, rfl, rfl⟩
          · exact Or.inl (List.append_assoc ..)

/-- The loop does nothing to the list but to set handles. -/
theorem sendNodes_keeps {I : Database → Prop}
    (hI : ∀ db c ohfi handle, I db → I (db.modify c ohfi (CmaObject.setHandle handle)))
    {fs : Disk σ} {answers : ℕ → Option SendAnswer} {db : Database} {c : Category}
    {p sent rest : List CmaObject} {object : CmaObject} (parentHandle : BitVec 32)
    (hl : db.lists c = p ++ (sent ++ object :: rest))
    (hn : ((db.lists c).map CmaObject.ohfi).Nodup) (hdb : I db) :
    I (db.setList c (p ++ (sendNodes posix fs answers sent parentHandle object rest).nodes)) := by
  have hsplit {db : Database} {sent rest : List CmaObject} {object : CmaObject}
      (hl : db.lists c = p ++ (sent ++ object :: rest))
      (hn : ((db.lists c).map CmaObject.ohfi).Nodup) (hdb : I db) (handle : BitVec 32) :
      I (db.setList c (p ++ (sent ++ object.setHandle handle :: rest))) := by
    rw [← List.append_assoc] at hl ⊢
    exact Database.modify_split hl hn (CmaObject.setHandle handle) ▸ hI db c object.ohfi handle hdb
  induction rest generalizing db sent object parentHandle with
  | nil =>
    rcases @sendNodes_nodes σ posix fs answers sent parentHandle object [] with
      he | ⟨handle, he | ⟨next, rest, _, hrest, -⟩⟩
    · rw [he, ← hl, Database.setList_self]
      exact hdb
    · rw [he]
      exact hsplit hl hn hdb handle
    · simp at hrest
  | cons next rest ih =>
    rcases @sendNodes_nodes σ posix fs answers sent parentHandle object (next :: rest) with
      he | ⟨handle, he | ⟨next', rest', parentHandle', hrest, he⟩⟩
    · rw [he, ← hl, Database.setList_self]
      exact hdb
    · rw [he]
      exact hsplit hl hn hdb handle
    · obtain ⟨rfl, rfl⟩ := List.cons.inj hrest
      rw [he]
      have hround := hsplit hl hn hdb handle
      have hlists :
          (db.setList c (p ++ (sent ++ object.setHandle handle :: next :: rest))).lists c =
          p ++ ((sent ++ [object.setHandle handle]) ++ next :: rest) := by simp
      have hids : (((db.setList c
          (p ++ (sent ++ object.setHandle handle :: next :: rest))).lists c).map
            CmaObject.ohfi).Nodup := by
        rw [hl] at hn
        simpa [CmaObject.setHandle] using hn
      have hdone := ih parentHandle' hlists hids hround
      rwa [Database.setList_setList] at hdone

theorem vitaEventSendObject_keeps {I : Database → Prop}
    (hI : ∀ db c ohfi handle, I db → I (db.modify c ohfi (CmaObject.setHandle handle)))
    (h : WellFormed paths uuid s.db) (event : Event) (answers : ℕ → Option SendAnswer)
    (hdb : I s.db) : I (vitaEventSendObject posix s event answers).1.db := by
  unfold vitaEventSendObject
  cases hfound : ohfiToObject s.db event.param2.toInt with
  | none => exact hdb
  | some r =>
    obtain ⟨c, object⟩ := r
    obtain ⟨p, q, hl⟩ := List.append_of_mem (h.ohfiToObject_eq_some.mp hfound).1
    have hids := h.ohfi_nodup c
    obtain ⟨htake, hdrop⟩ := takeWhile_dropWhile_split (r := q) (ohfi_ne_of_split hl hids).1
    simp only [hl, htake, hdrop, List.tail_cons]
    exact @sendNodes_keeps σ posix I hI s.fs answers s.db c p [] q object event.param3 hl hids hdb

end requests

end VitaMTP
