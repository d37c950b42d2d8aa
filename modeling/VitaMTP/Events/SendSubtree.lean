import VitaMTP.Database.Reachable
import VitaMTP.Events.Send

/-! When the objects that are sent are exactly a subtree. -/
namespace VitaMTP
open ParentFirst

/-- The objects that are sent, each with the handle of the parent it is put under. -/
def transmitted (msgs : List Message) : List (BitVec 32 × Metadata) :=
  msgs.filterMap fun msg =>
    match msg with
    | .sendObject parentHandle object _ => some (parentHandle, object)
    | _ => none

/-- The handler gets to its end. -/
def SendCompleted (msgs : List Message) : Prop := ∃ handle, .reportResultWithParam .OK handle ∈ msgs

/-- `x` and everything below it is sent, each object once and after its parent, `x` under the
given handle and every other object under the handle its parent got. -/
def SendsSubtree (l : List CmaObject) (x : CmaObject) (parentHandle : BitVec 32)
    (answers : ℕ → Option SendAnswer) (msgs : List Message) : Prop :=
  ∃ ps : List (BitVec 32 × CmaObject),
    transmitted msgs = ps.map (fun p => (p.1, p.2.metadata)) ∧ (ps.map (·.2)).Nodup ∧
    (∀ y, y ∈ ps.map (·.2) ↔ y ∈ l ∧ NodesBelow l x.ohfi y.ohfi) ∧
    ps.head? = some (parentHandle, x) ∧
    ∀ i p y, 0 < i → ps[i]? = some (p, y) → ∃ j < i, ∃ q z a, ps[j]? = some (q, z) ∧
      z.ohfi = y.ohfiParent ∧ answers j = some a ∧ p = a.2

/-- The nodes behind `x`. -/
def behind (l : List CmaObject) (x : CmaObject) : List CmaObject :=
  (l.dropWhile (fun o => o.ohfi ≠ x.ohfi)).tail

/-- In the list, what is below `x` comes right behind `x`, and then comes the end or an entry
directly below the category. -/
def SubtreeContiguous (l : List CmaObject) (x : CmaObject) : Prop :=
  ∃ block rest, behind l x = block ++ rest ∧
    (∀ y ∈ l, NodesBelow l x.ohfi y.ohfi ↔ y ∈ x :: block) ∧
    ∀ y ∈ rest.head?, y.ohfiParent < OHFI_OFFSET

/-- What the loop goes on to after `object`. -/
def stretch (rest : List CmaObject) : List CmaObject :=
  rest.takeWhile fun o => OHFI_OFFSET ≤ o.ohfiParent

theorem transmitted_cons_send {parentHandle : BitVec 32} {object : Metadata} {data : List Byte}
    {msgs : List Message} : transmitted (.sendObject parentHandle object data :: msgs) =
      (parentHandle, object) :: transmitted msgs := rfl

theorem sendObjectMessage_eq {parentHandle : BitVec 32} {object : CmaObject} {data : List Byte}
    {msg : Message} (h : sendObjectMessage parentHandle object data = some msg) :
    ∃ sent, msg = .sendObject parentHandle object.metadata sent := by
  unfold sendObjectMessage at h
  split at h
  · exact ⟨_, (Option.some.inj h).symm⟩
  · split at h
    · exact ⟨_, (Option.some.inj h).symm⟩
    · simp at h

theorem parentHandleOf_mem {sent : List CmaObject} {t object : CmaObject}
    (hn : (sent.map CmaObject.ohfi).Nodup) (ht : t ∈ sent) (he : t.ohfi = object.ohfiParent)
    (parentHandle : BitVec 32) : parentHandleOf sent object parentHandle = t.metadata.handle := by
  have hfind : sent.find? (fun temp => temp.ohfi == object.ohfiParent) = some t := by
    induction sent with
    | nil => simp at ht
    | cons a sent ih =>
      rw [List.map_cons, List.nodup_cons] at hn
      rcases List.mem_cons.mp ht with rfl | ht
      · rw [List.find?_cons_of_pos (by simpa using he)]
      · have hne : a.ohfi ≠ object.ohfiParent := by
          intro hae
          exact hn.1 (hae.trans he.symm ▸ List.mem_map_of_mem ht)
        rw [List.find?_cons_of_neg (by simpa using hne)]
        exact ih hn.2 ht
  rw [parentHandleOf, hfind]

section loop

variable {σ : Type} {posix : Posix σ} {fs : Disk σ} {answers : ℕ → Option SendAnswer}

/-- The messages after the loop. -/
def sendEnd (handle : BitVec 32) : List Message :=
  [.reportResultWithParam .OK handle.toNat, .reportResult .Invalid_Data]

theorem sendNodes_round {sent : List CmaObject} {parentHandle : BitVec 32} {object : CmaObject}
    {rest : List CmaObject}
    (hdone : SendCompleted (sendNodes posix fs answers sent parentHandle object rest).msgs) :
    ∃ data a, answers sent.length = some a ∧
      (sendNodes posix fs answers sent parentHandle object rest).msgs =
        .sendObject (parentHandleOf sent object parentHandle) object.metadata data ::
          match rest with
          | [] => sendEnd a.2
          | next :: rest =>
            if OHFI_OFFSET ≤ next.ohfiParent then
              (sendNodes posix fs answers (sent ++ [object.setHandle a.2]) a.1 next rest).msgs
            else sendEnd a.2 := by
  obtain ⟨handle, hdone⟩ := hdone
  rw [sendNodes.eq_def] at hdone ⊢
  cases hread : readObject posix fs object with
  | none => simp [hread] at hdone
  | some data =>
    simp only [hread] at hdone ⊢
    cases hmsg : sendObjectMessage (parentHandleOf sent object parentHandle) object data with
    | none => simp [hmsg] at hdone
    | some msg =>
      simp only [hmsg] at hdone ⊢
      obtain ⟨sentData, rfl⟩ := sendObjectMessage_eq hmsg
      cases ha : answers sent.length with
      | none => simp [ha] at hdone
      | some a =>
        refine ⟨sentData, a, rfl, ?_⟩
        cases rest with
        | nil => rfl
        | cons next rest =>
          simp only
          by_cases hnext : OHFI_OFFSET ≤ next.ohfiParent
          · simp only [if_pos hnext]
          · simp only [if_neg hnext]
            rfl

/-- `xs` is sent in this order, the first object under `parentHandle`, and each object under
the handle of its parent if that was sent before, in this loop or among `sent`. -/
def SentInOrder (answers : ℕ → Option SendAnswer) (sent xs : List CmaObject)
    (parentHandle : BitVec 32) (msgs : List Message) : Prop :=
  ∃ ps : List (BitVec 32 × CmaObject),
    transmitted msgs = ps.map (fun p => (p.1, p.2.metadata)) ∧ ps.map (·.2) = xs ∧
    (∀ p ∈ ps.head?, p.1 = parentHandle) ∧
    (∀ p ∈ ps, ∀ t ∈ sent, t.ohfi = p.2.ohfiParent → p.1 = t.metadata.handle) ∧
    ∀ i j p q, j < i → ps[i]? = some p → ps[j]? = some q → q.2.ohfi = p.2.ohfiParent →
      ∃ a, answers (sent.length + j) = some a ∧ p.1 = a.2

theorem sentInOrder_last {sent : List CmaObject} {parentHandle : BitVec 32} {object : CmaObject}
    (hfirst : ∀ t ∈ sent, t.ohfi = object.ohfiParent → parentHandle = t.metadata.handle)
    (data : List Byte) (handle : BitVec 32) :
    SentInOrder answers sent [object] parentHandle
      (.sendObject parentHandle object.metadata data :: sendEnd handle) := by
  refine ⟨[(parentHandle, object)], rfl, rfl, by simp, ?_, ?_⟩
  · intro p hp t ht he
    obtain rfl := List.mem_singleton.mp hp
    exact hfirst t ht he
  · intro i j p q hji hi
    obtain ⟨hlt, -⟩ := List.getElem?_eq_some_iff.mp hi
    rw [List.length_singleton] at hlt
    omega

theorem SentInOrder.cons {sent xs : List CmaObject} {parentHandle next : BitVec 32}
    {object : CmaObject} {a : SendAnswer} {msgs : List Message}
    (h : SentInOrder answers (sent ++ [object.setHandle a.2]) xs next msgs)
    (ha : answers sent.length = some a)
    (hfirst : ∀ t ∈ sent, t.ohfi = object.ohfiParent → parentHandle = t.metadata.handle)
    (data : List Byte) :
    SentInOrder answers sent (object :: xs) parentHandle
      (.sendObject parentHandle object.metadata data :: msgs) := by
  obtain ⟨ps, hmsgs, hxs, -, hsent, horder⟩ := h
  refine ⟨(parentHandle, object) :: ps, ?_, ?_, by simp, ?_, ?_⟩
  · rw [transmitted_cons_send, hmsgs, List.map_cons]
  · rw [List.map_cons, hxs]
  · intro p hp t ht he
    rcases List.mem_cons.mp hp with rfl | hp
    · exact hfirst t ht he
    · exact hsent p hp t (List.mem_append_left _ ht) he
  · intro i j p q hji hi hj he
    obtain ⟨i, rfl⟩ : ∃ k, i = k + 1 := ⟨i - 1, by omega⟩
    rw [List.getElem?_cons_succ] at hi
    cases j with
    | zero =>
      obtain rfl := Option.some.inj hj
      refine ⟨a, by simpa using ha, ?_⟩
      exact hsent p (List.mem_of_getElem? hi) (object.setHandle a.2) (by simp) he
    | succ j =>
      rw [List.getElem?_cons_succ] at hj
      obtain ⟨b, hb, hp⟩ := horder i j p q (by omega) hi hj he
      refine ⟨b, ?_, hp⟩
      rw [List.length_append, List.length_singleton] at hb
      rw [← hb]
      congr 1
      omega

theorem sendNodes_completed (sent : List CmaObject) (parentHandle : BitVec 32)
    (object : CmaObject) (rest : List CmaObject)
    (hn : ((sent ++ object :: rest).map CmaObject.ohfi).Nodup)
    (hdone : SendCompleted (sendNodes posix fs answers sent parentHandle object rest).msgs) :
    SentInOrder answers sent (object :: stretch rest) (parentHandleOf sent object parentHandle)
      (sendNodes posix fs answers sent parentHandle object rest).msgs := by
  have hsentn : (sent.map CmaObject.ohfi).Nodup :=
    hn.sublist ((List.sublist_append_left ..).map _)
  have hfirst : ∀ t ∈ sent, t.ohfi = object.ohfiParent →
      parentHandleOf sent object parentHandle = t.metadata.handle :=
    fun t ht he => parentHandleOf_mem hsentn ht he parentHandle
  obtain ⟨data, a, ha, hmsgs⟩ := sendNodes_round hdone
  induction rest generalizing sent parentHandle object data a with
  | nil =>
    rw [hmsgs]
    exact sentInOrder_last hfirst data a.2
  | cons next rest ih =>
    by_cases hnext : OHFI_OFFSET ≤ next.ohfiParent
    · simp only [if_pos hnext] at hmsgs
      have hstretch : stretch (next :: rest) = next :: stretch rest := by simp [stretch, hnext]
      have hn' : ((sent ++ [object.setHandle a.2] ++ next :: rest).map CmaObject.ohfi).Nodup := by
        rw [List.append_assoc]
        simpa [CmaObject.setHandle] using hn
      have hdone' : SendCompleted (sendNodes posix fs answers (sent ++ [object.setHandle a.2]) a.1
          next rest).msgs := by
        obtain ⟨handle, hdone⟩ := hdone
        rw [hmsgs] at hdone
        exact ⟨handle, by simpa using hdone⟩
      obtain ⟨data', a', ha', hmsgs'⟩ := sendNodes_round hdone'
      have hsentn' : ((sent ++ [object.setHandle a.2]).map CmaObject.ohfi).Nodup :=
        hn'.sublist ((List.sublist_append_left ..).map _)
      rw [hmsgs, hstretch]
      exact (ih _ a.1 next hn' hdone' hsentn'
        (fun t ht he => parentHandleOf_mem hsentn' ht he a.1) data' a' ha' hmsgs').cons ha hfirst
        data
    · simp only [if_neg hnext] at hmsgs
      have hstretch : stretch (next :: rest) = [] := by simp [stretch, hnext]
      rw [hmsgs, hstretch]
      exact sentInOrder_last hfirst data a.2

end loop

/-- The stretch behind `x` holds exactly what is below it when the subtree is contiguous. -/
theorem subtreeContiguous_iff {l : List CmaObject} {x : CmaObject} (hx : x ∉ behind l x)
    (hsub : behind l x ⊆ l)
    (hid : ∀ y ∈ l, NodesBelow l x.ohfi y.ohfi → y ≠ x → OHFI_OFFSET ≤ y.ohfiParent) :
    SubtreeContiguous l x ↔
      ∀ y ∈ l, NodesBelow l x.ohfi y.ohfi ↔ y ∈ x :: stretch (behind l x) := by
  constructor
  · rintro ⟨block, rest, hsplit, hblock, hrest⟩
    have hall : ∀ y ∈ block, decide (OHFI_OFFSET ≤ y.ohfiParent) = true := by
      intro y hy
      have hyb : y ∈ behind l x := by
        rw [hsplit]
        exact List.mem_append_left _ hy
      refine decide_eq_true (hid y (hsub hyb) ?_ ?_)
      · exact (hblock y (hsub hyb)).mpr (List.mem_cons_of_mem _ hy)
      · rintro rfl
        exact hx hyb
    have hnone : rest.takeWhile (fun o => OHFI_OFFSET ≤ o.ohfiParent) = [] := by
      cases rest with
      | nil => rfl
      | cons y rest =>
        have := hrest y rfl
        rw [List.takeWhile_cons_of_neg]
        simpa using this
    have hstretch : stretch (behind l x) = block := by
      rw [stretch, hsplit, List.takeWhile_append_of_pos hall, hnone, List.append_nil]
    rw [hstretch]
    exact hblock
  · intro hbelow
    refine ⟨stretch (behind l x), (behind l x).dropWhile fun o => OHFI_OFFSET ≤ o.ohfiParent,
      List.takeWhile_append_dropWhile.symm, hbelow, fun y hy => ?_⟩
    have := List.head?_dropWhile_not (fun o : CmaObject => decide (OHFI_OFFSET ≤ o.ohfiParent))
      (behind l x)
    rw [hy] at this
    simpa using this

theorem WellFormed.offset_le_parent {paths : CmaPaths} {uuid : CString} {db : Database}
    (h : WellFormed paths uuid db) {c : Category} {x : CmaObject} (hx : x ∈ db.objects c) :
    ∀ y ∈ db.lists c, NodesBelow (db.lists c) x.ohfi y.ohfi → y ≠ x →
      ∃ z ∈ db.lists c, NodesBelow (db.lists c) x.ohfi z.ohfi ∧ z.ohfi = y.ohfiParent ∧
        OHFI_OFFSET ≤ y.ohfiParent := by
  intro y hy hb hne
  have ho := h.ordered c
  have hpar : NodesBelow (db.lists c) x.ohfi y.ohfiParent :=
    ((nodesBelow_iff ho hy).mp hb).resolve_left
      fun he => hne (ho.inj (mem_of_objects hx) hy he).symm
  obtain ⟨z, hz, hzp⟩ := h.exists_parent (h.mem_objects_of_below hx hy hb)
  rw [← hzp] at hpar
  refine ⟨z, hz, hpar, hzp, ?_⟩
  have hz := (h.objects c z (h.mem_objects_of_below hx hz hpar)).first
  unfold FIRST_OBJECT at hz
  omega

theorem WellFormed.behind_split {paths : CmaPaths} {uuid : CString} {db : Database}
    (h : WellFormed paths uuid db) {c : Category} {x : CmaObject} (hx : x ∈ db.objects c) :
    ∃ p, db.lists c = p ++ x :: behind (db.lists c) x ∧
      ((x :: behind (db.lists c) x).map CmaObject.ohfi).Nodup ∧ x ∉ behind (db.lists c) x := by
  obtain ⟨p, q, hl⟩ := List.append_of_mem (mem_of_objects hx)
  have hnodup := h.ohfi_nodup c
  rw [hl, List.map_append, List.nodup_append'] at hnodup
  have hbehind : behind (db.lists c) x = q := by
    obtain ⟨-, hd⟩ := @takeWhile_dropWhile_split p q x fun y hy he =>
      hnodup.2.2 (List.mem_map_of_mem hy) (by simp [he])
    rw [behind, hl, hd, List.tail_cons]
  rw [hbehind]
  exact ⟨p, hl, hnodup.2.1,
    fun hm => (List.nodup_cons.mp hnodup.2.1).1 (List.mem_map_of_mem hm)⟩

section exact

variable {l xs : List CmaObject} {x y : CmaObject} {parentHandle : BitVec 32}
  {answers : ℕ → Option SendAnswer} {msgs : List Message}

theorem SentInOrder.below_iff (h : SentInOrder answers [] xs parentHandle msgs)
    (ho : NodesOrdered l) (hxs : xs ⊆ l) (hsends : SendsSubtree l x parentHandle answers msgs)
    (hy : y ∈ l) : NodesBelow l x.ohfi y.ohfi ↔ y ∈ xs := by
  obtain ⟨ps, hps, rfl, -⟩ := h
  obtain ⟨ps', hps', -, hmem, -, -⟩ := hsends
  have hids : (ps.map (·.2)).map CmaObject.ohfi = (ps'.map (·.2)).map CmaObject.ohfi := by
    have := congrArg (List.map fun m : BitVec 32 × Metadata => m.2.ohfi) (hps.symm.trans hps')
    simpa [List.map_map, Function.comp_def] using this
  have hsame (as bs : List CmaObject) (he : as.map CmaObject.ohfi = bs.map CmaObject.ohfi)
      (hbs : ∀ b ∈ bs, b ∈ l) (hya : y ∈ as) : y ∈ bs := by
    have hm : y.ohfi ∈ bs.map CmaObject.ohfi := by
      rw [← he]
      exact List.mem_map_of_mem hya
    obtain ⟨b, hb, hbe⟩ := List.mem_map.mp hm
    exact ho.inj (hbs b hb) hy hbe ▸ hb
  constructor
  · intro hb
    exact hsame _ _ hids.symm (fun b hb => hxs hb) ((hmem y).mpr ⟨hy, hb⟩)
  · intro hys
    exact ((hmem y).mp (hsame _ _ hids (fun b hb => ((hmem b).mp hb).1) hys)).2

/-- Objects that are sent in the order of their list, and are all that is below the first one, are
sent as a subtree. -/
theorem SentInOrder.sendsSubtree (h : SentInOrder answers [] (x :: xs) parentHandle msgs)
    (ho : NodesOrdered l) (hsub : (x :: xs).Sublist l) (hx : x ∉ xs)
    (hbelow : ∀ y ∈ l, NodesBelow l x.ohfi y.ohfi ↔ y ∈ x :: xs)
    (hparent : ∀ y ∈ l, NodesBelow l x.ohfi y.ohfi → y ≠ x →
      ∃ z ∈ l, NodesBelow l x.ohfi z.ohfi ∧ z.ohfi = y.ohfiParent) :
    SendsSubtree l x parentHandle answers msgs := by
  obtain ⟨ps, hps, hxs, hhead, -, horder⟩ := h
  refine ⟨ps, hps, ?_, fun y => ?_, ?_, ?_⟩
  · rw [hxs]
    exact (ho.nodup.of_map).sublist hsub
  · rw [hxs]
    exact ⟨fun hy => ⟨hsub.subset hy, (hbelow y (hsub.subset hy)).mpr hy⟩,
      fun hy => (hbelow y hy.1).mp hy.2⟩
  · cases ps with
    | nil => simp at hxs
    | cons p₀ ps =>
      have h₁ : p₀.1 = parentHandle := hhead p₀ rfl
      have h₂ : p₀.2 = x := by
        rw [List.map_cons, List.cons.injEq] at hxs
        exact hxs.1
      rw [List.head?_cons, ← h₁, ← h₂]
  · intro i p y hi hpy
    have hyi : (x :: xs)[i]? = some y := by
      rw [← hxs, List.getElem?_map, hpy]
      rfl
    have hym : y ∈ x :: xs := List.mem_of_getElem? hyi
    have hyx : y ≠ x := by
      obtain ⟨k, rfl⟩ : ∃ k, i = k + 1 := ⟨i - 1, by omega⟩
      rw [List.getElem?_cons_succ] at hyi
      rintro rfl
      exact hx (List.mem_of_getElem? hyi)
    have hyl := hsub.subset hym
    obtain ⟨z, hz, hzb, hzp⟩ := hparent y hyl ((hbelow y hyl).mpr hym) hyx
    obtain ⟨j, hji, hzj⟩ := (ho.sublist hsub).parent_index hyi ((hbelow z hz).mp hzb) hzp
    rw [← hxs, List.getElem?_map, Option.map_eq_some_iff] at hzj
    obtain ⟨⟨q, z'⟩, hr, rfl⟩ := hzj
    obtain ⟨a, ha, hp⟩ := horder i j _ _ hji hpy hr hzp
    exact ⟨j, hji, q, _, a, hr, hzp, by simpa using ha, hp⟩

end exact

/-- What `vitaEventSendObject` sends for an object is exactly its subtree when the subtree is
contiguous in its list. -/
theorem send_object_iff {allowed : CmaObject → Mask → Prop} {view : DirView} {n : ℕ}
    {paths : CmaPaths} {uuid : CString} {σ : Type} {s : Host σ}
    (h : Reachable allowed view n paths uuid s.db) (posix : Posix σ) {c : Category}
    {x : CmaObject} (hx : x ∈ s.db.objects c) {event : Event} (hid : event.param2.toInt = x.ohfi)
    {answers : ℕ → Option SendAnswer}
    (hdone : SendCompleted (vitaEventSendObject posix s event answers).2) :
    SendsSubtree (s.db.lists c) x event.param3 answers
        (vitaEventSendObject posix s event answers).2 ↔
      SubtreeContiguous (s.db.lists c) x := by
  have hw := h.wellFormed
  have ho := hw.ordered c
  have hfound : ohfiToObject s.db event.param2.toInt = some (c, x) :=
    (hw.ohfiToObject_object hx).mpr hid
  have hmsgs : (vitaEventSendObject posix s event answers).2 =
      (sendNodes posix s.fs answers [] event.param3 x (behind (s.db.lists c) x)).msgs := by
    simp only [vitaEventSendObject, hfound]
    rfl
  rw [hmsgs] at hdone ⊢
  obtain ⟨p, hl, hnodup, hxbehind⟩ := hw.behind_split hx
  have hsub : (x :: behind (s.db.lists c) x).Sublist (s.db.lists c) := by
    conv_rhs => rw [hl]
    exact List.sublist_append_right ..
  have hsublist : (x :: stretch (behind (s.db.lists c) x)).Sublist (s.db.lists c) :=
    ((List.takeWhile_sublist _).cons_cons x).trans hsub
  have hparent := hw.offset_le_parent hx
  rw [subtreeContiguous_iff hxbehind ((List.sublist_cons_self ..).trans hsub).subset
    fun y hy hb hne => (hparent y hy hb hne).elim fun _ hz => hz.2.2.2]
  have hsent : SentInOrder answers [] (x :: stretch (behind (s.db.lists c) x)) event.param3 _ :=
    sendNodes_completed [] event.param3 x _ hnodup hdone
  constructor
  · exact fun hsends y hy => hsent.below_iff ho hsublist.subset hsends hy
  · refine fun hexact => hsent.sendsSubtree ho hsublist
      (fun hm => hxbehind ((List.takeWhile_sublist _).subset hm)) hexact fun y hy hb hne => ?_
    obtain ⟨z, hz, hzb, hzp, -⟩ := hparent y hy hb hne
    exact ⟨z, hz, hzb, hzp⟩

def sampleAnswers (k : ℕ) : Option SendAnswer := some (0, BitVec.ofNat 32 (100 + k))

def readablePosix : Posix Unit :=
  { samplePosix with contents := fun _ _ => some [1, 2, 3, 4, 5, 6, 7] }

/-- The folder of the sample is sent with the photo in it. -/
theorem send_object_sample :
    SendsSubtree (sampleDatabase.lists .photos) (sampleObject 1) 9 sampleAnswers
      (vitaEventSendObject readablePosix (sampleHost sampleDatabase)
        { param2 := 1005, param3 := 9 } sampleAnswers).2 := by
  have hx : sampleObject 1 ∈ sampleDatabase.objects .photos := by
    simp [Database.objects, sample_photos]
  refine (send_object_iff (s := sampleHost sampleDatabase) (sample_reachable FolderAddition)
    readablePosix hx (by decide) ⟨101, by decide⟩).mpr ⟨[sampleObject 2], [], by rfl, ?_, by simp⟩
  intro y hy
  change y ∈ sampleDatabase.lists .photos at hy
  have hmaster : ¬ NodesBelow (sampleDatabase.lists .photos) 1005 (sampleObject 0).ohfi :=
    (sample_reachable FolderAddition).wellFormed.not_below_master (by decide)
  have hchild : NodesBelow (sampleDatabase.lists .photos) 1005 (sampleObject 2).ohfi :=
    .single ⟨sampleObject 2, by simp [sample_photos], by decide, rfl⟩
  rw [sample_photos] at hy
  simp only [List.mem_cons, List.not_mem_nil, or_false] at hy
  rcases hy with rfl | rfl | rfl
  · exact iff_of_false hmaster (by decide)
  · exact iff_of_true .refl (by simp)
  · exact iff_of_true hchild (by simp)

/-- The sample with another photo in its folder. -/
def siblingDatabase : Database :=
  (addToDatabase sampleDatabase .photos (sampleObject 1) ['y'] 7 DataType.File).1

/-- Sending the first photo of the folder also sends the second. -/
theorem send_object_beyond :
    Reachable FolderAddition sampleView 3 samplePaths ['0'] siblingDatabase ∧
      sampleObject 2 ∈ siblingDatabase.objects .photos ∧
      (transmitted (vitaEventSendObject readablePosix (sampleHost siblingDatabase)
        { param2 := 1006, param3 := 9 } sampleAnswers).2).map (fun p => (p.1, p.2.name)) =
          [(9, some ['x']), (0, some ['y'])] ∧
      ¬ SendsSubtree (siblingDatabase.lists .photos) (sampleObject 2) 9 sampleAnswers
        (vitaEventSendObject readablePosix (sampleHost siblingDatabase)
          { param2 := 1006, param3 := 9 } sampleAnswers).2 := by
  have h : Reachable FolderAddition sampleView 3 samplePaths ['0'] siblingDatabase :=
    (sample_reachable FolderAddition).step
      (.add (by simp [sample_photos]) ['y'] 7 DataType.File ⟨Or.inl (by decide), Or.inr rfl⟩)
  have hw := h.wellFormed
  have hlists : siblingDatabase.lists .photos = [sampleObject 0, sampleObject 1, sampleObject 2,
      newObject 1007 (sampleObject 1) ['y'] 7 DataType.File] := by rfl
  refine ⟨h, by simp [Database.objects, hlists], by decide, ?_⟩
  rintro ⟨ps, hps, -, hmem, -⟩
  have hsent : (newObject 1007 (sampleObject 1) ['y'] 7 DataType.File).metadata ∈
      (ps.map fun p => (p.1, p.2.metadata)).map (·.2) := by
    rw [← hps]
    decide
  rw [List.map_map] at hsent
  obtain ⟨p, hp, he⟩ := List.mem_map.mp hsent
  obtain ⟨hpl, hb⟩ := (hmem p.2).mp (List.mem_map_of_mem hp)
  have hpo : p.2.ohfi = 1007 ∧ p.2.ohfiParent = 1005 :=
    ⟨congrArg (·.ohfi) he, congrArg (·.ohfiParent) he⟩
  have ho := hw.ordered .photos
  -- from the second photo up there are the folder and the category
  have hb := ((nodesBelow_iff ho hpl).mp hb).resolve_left (by rw [hpo.1]; decide)
  rw [hpo.2] at hb
  have hd : sampleObject 1 ∈ siblingDatabase.lists .photos := by simp [hlists]
  have hb := ((nodesBelow_iff ho hd).mp hb).resolve_left (by decide)
  exact hw.not_below_master (by decide) hb

end VitaMTP
