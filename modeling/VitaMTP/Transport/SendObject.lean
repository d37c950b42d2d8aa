import VitaMTP.Transport.TreatRequest

/-! Sending objects over the transactions of a device. -/
namespace VitaMTP
open Dialogues

/-- The call of `VitaMTP_ReportResultWithParam`. -/
def reportResultWithParam (eventId result param : BitVec 32) : Query where
  call :=
    { code := PTP_OC_VITA_ReportResult
      params := [eventId, result, param]
      few := few_three eventId result param
      phase := .nodata }

section wire

variable {σ : Type} (posix : Posix σ) (conv : Converters) (eventId : BitVec 32)

/-- The reports after all has been sent. -/
def remoteSent (handle : BitVec 32) (nodes : List CmaObject) : Remote (List CmaObject) := do
  let _ ← Dialogue.query (reportResultWithParam eventId (ResultCode.OK.code.setWidth 32) handle)
  let _ ← Dialogue.query (reportResult eventId (ResultCode.Invalid_Data.code.setWidth 32))
  pure nodes

/-- The loop of `vitaEventSendObject` at `object`, and the nodes from the first one sent on; `sent`
are those it has passed. -/
def remoteSendNodes (fs : Disk σ) (sent : List CmaObject) (parentHandle : BitVec 32)
    (object : CmaObject) (rest : List CmaObject) : Remote (List CmaObject) :=
  match readObject posix fs object with
  | none => do
    let _ ← Dialogue.query
      (reportResult eventId (ResultCode.Not_Exist_Object.code.setWidth 32))
    pure (sent ++ object :: rest)
  | some data => do
    match ← (vitaMtpSendObject conv (parentHandleOf sent object parentHandle) object.metadata
      data).run with
    | .error _ => pure (sent ++ object :: rest)
    | .ok (parentHandle, handle) =>
      let sent := sent ++ [object.setHandle handle]
      match rest with
      | [] => remoteSent eventId handle sent
      | next :: rest =>
        -- get everything under this "folder"
        if OHFI_OFFSET ≤ next.ohfiParent then remoteSendNodes fs sent parentHandle next rest
        else remoteSent eventId handle (sent ++ next :: rest)

/-- `vitaEventSendObject` as it asks the device. -/
def remoteSendObject (s : Host σ) (event : Event) : Remote (Host σ) :=
  match ohfiToObject s.db event.param2.toInt with
  | none => do
    let _ ← Dialogue.query (reportResult eventId (ResultCode.Invalid_OHFI.code.setWidth 32))
    pure s
  | some (c, object) => do
    let nodes := (s.db.lists c).dropWhile (fun o => o.ohfi ≠ object.ohfi)
    let nodes ← remoteSendNodes posix conv eventId s.fs [] event.param3 object nodes.tail
    pure { s with
      db := s.db.setList c
        ((s.db.lists c).takeWhile (fun o => o.ohfi ≠ object.ohfi) ++ nodes) }

end wire

section queries

variable (conv : Converters) (eventId : BitVec 32)

def sendQueries (parentHandle : BitVec 32) (object : Metadata) (data : List Byte) : List Query :=
  sendObjectInfo VITA_STORAGE_ID parentHandle
      (ptpPackOI conv (objectInfoOf parentHandle object) (object.name.getD [])) ::
    if object.dataType &&& DataType.Folder ≠ 0 then [] else [sendObject data]

/-- The transactions of the messages that `vitaEventSendObject` sends. -/
def Message.queries : Message → List Query
  | .sendObject parentHandle object data => sendQueries conv parentHandle object data
  | .reportResult code => [VitaMTP.reportResult eventId (code.code.setWidth 32)]
  | .reportResultWithParam code param =>
    [VitaMTP.reportResultWithParam eventId (code.code.setWidth 32) (BitVec.ofInt 32 param)]
  | _ => []

end queries

section object

variable {conv : Converters} {R R' : Type} {d : Checked R} {next : R → Checked R'}
  {l : List (Query × Answer)}

theorem Checked.path_bind {r : Except (BitVec 16) R'}
    (h : Dialogue.Path (d >>= next).run l r) :
    (∃ code, Dialogue.Path d.run l (.error code) ∧ r = .error code) ∨
    ∃ x l₁ l₂, l = l₁ ++ l₂ ∧ Dialogue.Path d.run l₁ (.ok x) ∧ Dialogue.Path (next x).run l₂ r := by
  obtain ⟨l₁, x, l₂, h₁, h₂, rfl⟩ := Dialogue.path_bind_iff.mp h
  cases x with
  | error code =>
    cases h₂
    exact Or.inl ⟨code, by rwa [List.append_nil], rfl⟩
  | ok x => exact Or.inr ⟨x, l₁, l₂, rfl, h₁, h₂⟩

theorem Checked.path_query {q : Query} {r : Except (BitVec 16) Answer}
    (h : Dialogue.Path (Checked.query q).run l r) : ∃ a, l = [(q, a)] := by
  obtain ⟨l₁, a, l₂, h₁, h₂, rfl⟩ := Dialogue.path_bind_iff.mp h
  cases h₁ with
  | ask h₁ =>
    cases h₁
    cases h₂
    exact ⟨a, rfl⟩

theorem Checked.path_need {o : Option R} {r : Except (BitVec 16) R}
    (h : Dialogue.Path (Checked.need o).run l r) : l = [] ∧ ∃ x, o = some x ∧ r = .ok x := by
  obtain ⟨x, ho, hpath⟩ := Dialogue.path_ofOption_bind_iff.mp h
  cases hpath
  exact ⟨rfl, x, ho, rfl⟩

theorem Checked.path_need_bind {o : Option R} {r : Except (BitVec 16) R'}
    (h : Dialogue.Path (Checked.need o >>= next).run l r) :
    ∃ x, o = some x ∧ Dialogue.Path (next x).run l r := by
  rcases Checked.path_bind h with ⟨code, hneed, -⟩ | ⟨x, l₁, l₂, rfl, hneed, hnext⟩
  · obtain ⟨-, x, -, hx⟩ := Checked.path_need hneed
    cases hx
  · obtain ⟨rfl, y, ho, hx⟩ := Checked.path_need hneed
    cases hx
    exact ⟨x, ho, hnext⟩

theorem path_sendobjectinfo {store parenthandle : BitVec 32} {info : PTPObjectInfo}
    {filename : CString} {r : Except (BitVec 16) (BitVec 32 × BitVec 32 × BitVec 32)}
    (h : Dialogue.Path (ptpSendobjectinfo conv store parenthandle info filename).run l r) :
    l.map Prod.fst = [sendObjectInfo store parenthandle (ptpPackOI conv info filename)] := by
  rcases Checked.path_bind h with ⟨code, hquery, -⟩ | ⟨a, l₁, l₂, rfl, hquery, hneed⟩
  · obtain ⟨a, rfl⟩ := Checked.path_query hquery
    rfl
  · obtain ⟨a, rfl⟩ := Checked.path_query hquery
    obtain ⟨rfl, -⟩ := Checked.path_need hneed
    rfl

theorem path_sendobject {object : List Byte} {size : BitVec 32} {r : Except (BitVec 16) Unit}
    (h : Dialogue.Path (ptpSendobject object size).run l r) :
    l.map Prod.fst = [sendObject (object.take size.toNat)] := by
  rcases Checked.path_bind h with ⟨code, hquery, -⟩ | ⟨a, l₁, l₂, rfl, hquery, hpure⟩
  · obtain ⟨a, rfl⟩ := Checked.path_query hquery
    rfl
  · obtain ⟨a, rfl⟩ := Checked.path_query hquery
    cases hpure
    rfl

/-- A run of `VitaMTP_SendObject`: the transactions of the message, all of them if it succeeds, or
none where the object is not supported. -/
theorem path_vitaMtpSendObject (eventId : BitVec 32) {parentHandle : BitVec 32}
    {object : CmaObject} {data : List Byte} {r : Except (BitVec 16) (BitVec 32 × BitVec 32)}
    (h : Dialogue.Path (vitaMtpSendObject conv parentHandle object.metadata data).run l r) :
    (∃ msg, sendObjectMessage parentHandle object data = some msg ∧ msg.isReport = false ∧
      l.map Prod.fst <+: msg.queries conv eventId ∧
      ∀ x, r = .ok x → l.map Prod.fst = msg.queries conv eventId) ∨
    sendObjectMessage parentHandle object data = none ∧ l = [] ∧ ∀ x, r ≠ .ok x := by
  unfold vitaMtpSendObject at h
  by_cases hfolder : object.metadata.dataType &&& DataType.Folder ≠ 0
  · rw [if_pos hfolder] at h
    have hmessage : sendObjectMessage parentHandle object data =
        some (.sendObject parentHandle object.metadata []) := if_pos (bne_iff_ne.mpr hfolder)
    obtain ⟨name, hname, h⟩ := Checked.path_need_bind h
    have hasked : l.map Prod.fst =
        (Message.sendObject parentHandle object.metadata []).queries conv eventId := by
      rw [Message.queries, sendQueries, if_pos hfolder, hname, Option.getD_some]
      rcases Checked.path_bind h with ⟨code, hinfo, -⟩ | ⟨⟨_, _, _⟩, l₁, l₂, rfl, hinfo, hpure⟩
      · exact path_sendobjectinfo hinfo
      · cases hpure
        rw [List.append_nil]
        exact path_sendobjectinfo hinfo
    exact Or.inl ⟨_, hmessage, rfl, hasked ▸ List.prefix_rfl, fun _ _ => hasked⟩
  · rw [if_neg hfolder] at h
    have hnot : ¬ object.isFolder = true := fun hcontra => hfolder (bne_iff_ne.mp hcontra)
    by_cases hfile : object.metadata.dataType &&& DataType.File ≠ 0
    · rw [if_pos hfile] at h
      have hmessage : sendObjectMessage parentHandle object data =
          some (.sendObject parentHandle object.metadata
            (data.take (object.metadata.size.setWidth 32).toNat)) :=
        (if_neg hnot).trans (if_pos (bne_iff_ne.mpr hfile))
      obtain ⟨name, hname, h⟩ := Checked.path_need_bind h
      refine Or.inl ⟨_, hmessage, rfl, ?_⟩
      rw [Message.queries, sendQueries, if_neg hfolder, hname, Option.getD_some]
      rcases Checked.path_bind h with ⟨code, hinfo, rfl⟩ | ⟨⟨_, _, _⟩, l₁, l₂, rfl, hinfo, hrest⟩
      · rw [path_sendobjectinfo hinfo]
        exact ⟨⟨_, rfl⟩, nofun⟩
      · have hsent : l₂.map Prod.fst =
            [sendObject (data.take (object.metadata.size.setWidth 32).toNat)] := by
          rcases Checked.path_bind hrest with ⟨code, hsend, -⟩ | ⟨_, l₃, l₄, rfl, hsend, hpure⟩
          · exact path_sendobject hsend
          · cases hpure
            rw [List.append_nil]
            exact path_sendobject hsend
        rw [List.map_append, path_sendobjectinfo hinfo, hsent]
        exact ⟨List.prefix_rfl, fun _ _ => rfl⟩
    · rw [if_neg hfile] at h
      cases h
      exact Or.inr ⟨(if_neg hnot).trans (if_neg fun hcontra => hfile (bne_iff_ne.mp hcontra)), rfl,
        nofun⟩

end object

/-- A run that sends nodes: `nodes` are those of `result`, and the transactions begin those of its
messages, or are all of them if there is a report. -/
structure SentRun (conv : Converters) (eventId : BitVec 32) (result : Sent)
    (nodes : List CmaObject) (asked : List Query) : Prop where
  kept : result.nodes = nodes
  begins : asked <+: result.msgs.flatMap (Message.queries conv eventId)
  reported : (∃ m ∈ result.msgs, m.isReport = true) →
    asked = result.msgs.flatMap (Message.queries conv eventId)

section sending

variable {σ : Type} {posix : Posix σ} {conv : Converters} {eventId : BitVec 32} {fs : Disk σ}

theorem SentRun.stop {handle : BitVec 32} {sent nodes : List CmaObject}
    {l : List (Query × Answer)} (h : Dialogue.Path (remoteSent eventId handle sent) l nodes) :
    SentRun conv eventId
      { nodes := sent
        msgs := [.reportResultWithParam .OK handle.toNat, .reportResult .Invalid_Data] } nodes
      (l.map Prod.fst) := by
  cases h with
  | ask h =>
    cases h with
    | ask h =>
      cases h
      have hasked : [reportResultWithParam eventId (ResultCode.OK.code.setWidth 32) handle,
          reportResult eventId (ResultCode.Invalid_Data.code.setWidth 32)] =
          [Message.reportResultWithParam .OK handle.toNat, .reportResult .Invalid_Data].flatMap
            (Message.queries conv eventId) := by
        simp [Message.queries, BitVec.ofInt_natCast]
      exact ⟨rfl, hasked ▸ List.prefix_rfl, fun _ => hasked⟩

theorem SentRun.cons {result : Sent} {nodes : List CmaObject} {first asked : List Query}
    (h : SentRun conv eventId result nodes asked) {msg : Message} (hmsg : msg.isReport = false)
    (hfirst : first = msg.queries conv eventId) :
    SentRun conv eventId { result with msgs := msg :: result.msgs } nodes (first ++ asked) where
  kept := h.kept
  begins := by
    rw [List.flatMap_cons, hfirst]
    exact (List.prefix_append_right_inj _).mpr h.begins
  reported := by
    rintro ⟨m, hm, hreport⟩
    rw [List.flatMap_cons, hfirst]
    rcases List.mem_cons.mp hm with rfl | hm
    · exact absurd hreport (by rw [hmsg]; decide)
    · rw [h.reported ⟨m, hm, hreport⟩]

/-- What follows an object that the device has taken. -/
def afterObject (posix : Posix σ) (conv : Converters) (eventId : BitVec 32) (fs : Disk σ)
    (sent : List CmaObject) (answer : SendAnswer) : List CmaObject → Remote (List CmaObject)
  | [] => remoteSent eventId answer.2 sent
  | next :: rest =>
    if OHFI_OFFSET ≤ next.ohfiParent then
      remoteSendNodes posix conv eventId fs sent answer.1 next rest
    else remoteSent eventId answer.2 (sent ++ next :: rest)

theorem path_remoteSendNodes_step {sent : List CmaObject} {parentHandle : BitVec 32}
    {object : CmaObject} {rest nodes : List CmaObject} {l : List (Query × Answer)}
    (h : Dialogue.Path (remoteSendNodes posix conv eventId fs sent parentHandle object rest) l
      nodes) :
    (∃ result, (∀ answers, answers sent.length = none →
        sendNodes posix fs answers sent parentHandle object rest = result) ∧
      SentRun conv eventId result nodes (l.map Prod.fst)) ∨
    ∃ data msg answer l₁ l₂, readObject posix fs object = some data ∧
      sendObjectMessage (parentHandleOf sent object parentHandle) object data = some msg ∧
      msg.isReport = false ∧ l = l₁ ++ l₂ ∧ l₁.map Prod.fst = msg.queries conv eventId ∧
      Dialogue.Path (afterObject posix conv eventId fs (sent ++ [object.setHandle answer.2])
        answer rest) l₂ nodes := by
  rw [remoteSendNodes.eq_def] at h
  cases hread : readObject posix fs object with
  | none =>
    rw [hread] at h
    cases h with
    | ask h =>
      cases h
      refine Or.inl ⟨_, fun answers _ => by rw [sendNodes.eq_def, hread], rfl, List.prefix_rfl,
        fun _ => rfl⟩
  | some data =>
    rw [hread] at h
    obtain ⟨l₁, got, l₂, hsend, hrest, rfl⟩ := Dialogue.path_bind_iff.mp h
    rcases path_vitaMtpSendObject eventId hsend with
      ⟨msg, hmsg, hreport, hprefix, hall⟩ | ⟨hmsg, rfl, hno⟩
    · cases got with
      | error code =>
        cases hrest
        refine Or.inl ⟨{ nodes := sent ++ object :: rest, msgs := [msg] }, fun answers hnone => ?_,
          rfl, ?_, ?_⟩
        · rw [sendNodes.eq_def, hread]
          simp only [hmsg, hnone]
        · rwa [List.append_nil, List.flatMap_singleton]
        · rintro ⟨m, hm, hcontra⟩
          rw [List.mem_singleton.mp hm, hreport] at hcontra
          cases hcontra
      | ok answer =>
        refine Or.inr ⟨data, msg, answer, l₁, l₂, rfl, hmsg, hreport, rfl, hall _ rfl, ?_⟩
        cases rest with
        | nil => exact hrest
        | cons next rest => exact hrest
    · cases got with
      | error code =>
        cases hrest
        refine Or.inl ⟨{ nodes := sent ++ object :: rest, msgs := [] }, fun answers _ => ?_, rfl,
          List.prefix_rfl, fun _ => rfl⟩
        rw [sendNodes.eq_def, hread]
        simp only [hmsg]
      | ok answer => exact absurd rfl (hno answer)

/-- Whatever the device answers, the loop does what `sendNodes` does with some answers. -/
theorem path_remoteSendNodes {sent : List CmaObject} {parentHandle : BitVec 32}
    {object : CmaObject} {rest nodes : List CmaObject} {l : List (Query × Answer)}
    (h : Dialogue.Path (remoteSendNodes posix conv eventId fs sent parentHandle object rest) l
      nodes) :
    ∃ taken : List SendAnswer, ∀ answers : ℕ → Option SendAnswer,
      (∀ i, answers (sent.length + i) = taken[i]?) →
      SentRun conv eventId (sendNodes posix fs answers sent parentHandle object rest) nodes
        (l.map Prod.fst) := by
  induction rest generalizing sent parentHandle object l with
  | nil =>
    rcases path_remoteSendNodes_step h with
      ⟨result, hresult, hrun⟩ | ⟨data, msg, answer, l₁, l₂, hread, hmsg, hreport, rfl, hall, hrest⟩
    · exact ⟨[], fun answers hanswers => hresult answers (hanswers 0) ▸ hrun⟩
    · refine ⟨[answer], fun answers hanswers => ?_⟩
      have hanswer : answers sent.length = some answer := hanswers 0
      rw [sendNodes.eq_def, hread, List.map_append]
      simp only [hmsg, hanswer, List.append_nil]
      exact (SentRun.stop hrest).cons hreport hall
  | cons next rest ih =>
    rcases path_remoteSendNodes_step h with
      ⟨result, hresult, hrun⟩ | ⟨data, msg, answer, l₁, l₂, hread, hmsg, hreport, rfl, hall, hrest⟩
    · exact ⟨[], fun answers hanswers => hresult answers (hanswers 0) ▸ hrun⟩
    · rw [afterObject] at hrest
      by_cases hchild : OHFI_OFFSET ≤ next.ohfiParent
      · rw [if_pos hchild] at hrest
        obtain ⟨taken, htaken⟩ := ih hrest
        refine ⟨answer :: taken, fun answers hanswers => ?_⟩
        have hanswer : answers sent.length = some answer := hanswers 0
        rw [sendNodes.eq_def, hread, List.map_append]
        simp only [hmsg, hanswer, if_pos hchild]
        refine (htaken answers fun i => ?_).cons hreport hall
        rw [List.length_append, List.length_singleton, Nat.add_assoc, Nat.add_comm 1 i]
        exact hanswers (i + 1)
      · rw [if_neg hchild] at hrest
        refine ⟨[answer], fun answers hanswers => ?_⟩
        have hanswer : answers sent.length = some answer := hanswers 0
        rw [sendNodes.eq_def, hread, List.map_append]
        simp only [hmsg, hanswer, if_neg hchild]
        exact (SentRun.stop hrest).cons hreport hall

/-- Whatever a transport brings: the database of a handler that returns is the one that
`vitaEventSendObject` leaves with some answers of the device, the transactions are those of its
messages up to where the device refuses, and the database stays sound. -/
theorem remoteSendObject_over {τ : Type} {t : Transport τ} {params params' : PTPParams}
    {st st' : τ} {s s' : Host σ} {event : Event}
    (h : Remote.over t (remoteSendObject posix conv eventId s event) params st =
      some (s', params', st')) :
    ∃ l answers, Dialogue.Along (remoteStep t) l (params, st) (params', st') ∧
      (vitaEventSendObject posix s event answers).1 = s' ∧
      l.map Prod.fst <+:
        (vitaEventSendObject posix s event answers).2.flatMap (Message.queries conv eventId) ∧
      ((∃ m ∈ (vitaEventSendObject posix s event answers).2, m.isReport = true) →
        l.map Prod.fst =
          (vitaEventSendObject posix s event answers).2.flatMap (Message.queries conv eventId)) ∧
      ∀ paths uuid, s.db.Sound paths uuid → s'.db.Sound paths uuid := by
  obtain ⟨l, hpath, halong⟩ := Dialogue.run_eq_some_iff.mp h
  suffices hrun : ∃ answers, (vitaEventSendObject posix s event answers).1 = s' ∧
      SentRun conv eventId ⟨[], (vitaEventSendObject posix s event answers).2⟩ []
        (l.map Prod.fst) by
    obtain ⟨answers, hs', hsent⟩ := hrun
    refine ⟨l, answers, halong, hs', hsent.begins, hsent.reported, fun paths uuid hsound => ?_⟩
    rw [← hs']
    exact vitaEventSendObject_keeps (fun _ c ohfi handle h => h.setHandle c ohfi handle) hsound.1
      event answers hsound
  unfold remoteSendObject at hpath
  unfold vitaEventSendObject
  cases hfound : ohfiToObject s.db event.param2.toInt with
  | none =>
    rw [hfound] at hpath
    cases hpath with
    | ask hpath =>
      cases hpath
      exact ⟨fun _ => none, rfl, rfl, List.prefix_rfl, fun _ => rfl⟩
  | some found =>
    rw [hfound] at hpath
    obtain ⟨l, nodes, rest, hnodes, hend, rfl⟩ := Dialogue.path_bind_iff.mp hpath
    cases hend
    obtain ⟨taken, htaken⟩ := path_remoteSendNodes hnodes
    have hsent := htaken (fun i => taken[i]?) fun i => by rw [List.length_nil, Nat.zero_add]
    refine ⟨fun i => taken[i]?, ?_, rfl, ?_, ?_⟩
    · rw [← hsent.kept]
    · rw [List.append_nil]
      exact hsent.begins
    · rw [List.append_nil]
      exact hsent.reported

def folderInfo : List Byte :=
  ptpPackOI byteConverters (objectInfoOf 9 (sampleObject 1).metadata)
    ((sampleObject 1).metadata.name.getD [])

/-- A folder is sent, and then a photo that cannot be read. -/
def sentFolder : List (Query × Answer) :=
  [(sendObjectInfo VITA_STORAGE_ID 9 folderInfo,
      { ret := PTP_RC_OK, handles := some (1, 9, 7) }),
    (reportResult 4 0xA00A, { ret := PTP_RC_OK })]

def sentHost : Host Unit :=
  { sampleHost sampleDatabase with
    db := sampleDatabase.setList .photos
      [sampleObject 0, (sampleObject 1).setHandle 7, sampleObject 2] }

theorem sentFolder_path :
    Dialogue.Path (remoteSendObject samplePosix byteConverters 4 (sampleHost sampleDatabase)
      { param2 := 1005, param3 := 9 }) sentFolder sentHost := by
  have hfound : ohfiToObject (sampleHost sampleDatabase).db (1005 : BitVec 32).toInt =
      some (.photos, sampleObject 1) := by rfl
  have hsend : Dialogue.Path (remoteSendNodes samplePosix byteConverters 4
      (sampleHost sampleDatabase).fs [] 9 (sampleObject 1) [sampleObject 2]) sentFolder
      [(sampleObject 1).setHandle 7, sampleObject 2] := by
    have hread : readObject samplePosix (sampleHost sampleDatabase).fs (sampleObject 1) =
        some [] := by rfl
    have hread' : readObject samplePosix (sampleHost sampleDatabase).fs (sampleObject 2) =
        none := by rfl
    have hchild : OHFI_OFFSET ≤ (sampleObject 2).ohfiParent := by decide
    have hgot : Dialogue.Path (vitaMtpSendObject byteConverters
        (parentHandleOf [] (sampleObject 1) 9) (sampleObject 1).metadata []).run
        [(sendObjectInfo VITA_STORAGE_ID 9 folderInfo,
          { ret := PTP_RC_OK, handles := some (1, 9, 7) })] (.ok (9, 7)) := by
      unfold vitaMtpSendObject
      rw [if_pos (by decide)]
      exact .ask (.done _)
    have hphoto : Dialogue.Path (remoteSendNodes samplePosix byteConverters 4
        (sampleHost sampleDatabase).fs [(sampleObject 1).setHandle 7] 9 (sampleObject 2) [])
        [(reportResult 4 0xA00A, { ret := PTP_RC_OK })]
        [(sampleObject 1).setHandle 7, sampleObject 2] := by
      rw [remoteSendNodes.eq_def, hread']
      exact .ask (.done _)
    rw [remoteSendNodes.eq_def, hread]
    refine hgot.bind ?_
    dsimp only
    rw [if_pos hchild]
    exact hphoto
  unfold remoteSendObject
  rw [hfound]
  exact hsend.bind (.done _)

def folderResponse : PtpResponse where
  code := PTP_RC_OK
  transactionId := 0
  params := [1, 9, 7]
  few := few_three 1 9 7

theorem remoteSendObject_over_sample : ∃ params' link',
    Remote.over (ptpip takingSocket) (remoteSendObject samplePosix byteConverters 4
        (sampleHost sampleDatabase) { param2 := 1005, param3 := 9 }) {}
        (trickle (folderResponse.bytes ++ ((okResponse 1).bytes ++ []))) =
      some (sentHost, params', link') ∧
    ∃ l answers, Dialogue.Along (remoteStep (ptpip takingSocket)) l
        ({}, trickle (folderResponse.bytes ++ ((okResponse 1).bytes ++ []))) (params', link') ∧
      (vitaEventSendObject samplePosix (sampleHost sampleDatabase)
        { param2 := 1005, param3 := 9 } answers).1 = sentHost ∧
      l.map Prod.fst <+: (vitaEventSendObject samplePosix (sampleHost sampleDatabase)
        { param2 := 1005, param3 := 9 } answers).2.flatMap (Message.queries byteConverters 4) ∧
      ((∃ m ∈ (vitaEventSendObject samplePosix (sampleHost sampleDatabase)
          { param2 := 1005, param3 := 9 } answers).2, m.isReport = true) →
        l.map Prod.fst = (vitaEventSendObject samplePosix (sampleHost sampleDatabase)
          { param2 := 1005, param3 := 9 } answers).2.flatMap
            (Message.queries byteConverters 4)) ∧
      ∀ paths uuid, (sampleHost sampleDatabase).db.Sound paths uuid →
        sentHost.db.Sound paths uuid := by
  have hinfo : Answers 0 (sendObjectInfo VITA_STORAGE_ID 9 folderInfo).call
      { code := PTP_RC_OK, params := [1, 9, 7] } folderResponse.bytes :=
    ⟨[], [], folderResponse, rfl, nofun, rfl, rfl, rfl, Or.inr ⟨nofun, rfl, rfl⟩⟩
  have hreport : Answers 1 (reportResult 4 0xA00A).call { code := PTP_RC_OK }
      (okResponse 1).bytes :=
    ⟨[], [], okResponse 1, rfl, nofun, rfl, rfl, rfl, Or.inr ⟨nofun, rfl, rfl⟩⟩
  obtain ⟨params', link', hrun, -⟩ := @Transport.Serves.over _ _ _ _ _ _ _ _ []
    (ptpip_serves takingSocket_open) _ _ [] _ sentFolder_path {} (trickle _)
    ⟨_, _, .cons ⟨rfl, rfl, _, _, _, _, rfl, rfl⟩ (.cons ⟨rfl, rfl, rfl⟩ .nil),
      .cons hinfo (.cons hreport .nil), fun _ _ => trivial, trivial,
      by rw [List.append_nil]; exact content_trickle _⟩
  exact ⟨params', link', hrun, remoteSendObject_over hrun⟩

end sending

end VitaMTP
