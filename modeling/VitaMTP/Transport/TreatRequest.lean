import VitaMTP.Transport.DeviceTree

/-! The request to treat an object, over the transactions of a device. -/
namespace VitaMTP
open Dialogues Pieces

def PTP_OC_VITA_ReportResult : BitVec 16 := 0x9518
def PTP_OC_VITA_GetTreatObject : BitVec 16 := 0x9534

def ResultCode.code : ResultCode → BitVec 16
  | .OK => PTP_RC_OK
  | .Invalid_Context => 0xA001
  | .Not_Ready => 0xA002
  | .Invalid_OHFI => 0xA003
  | .Invalid_Data => 0xA004
  | .Not_Exist_Object => 0xA00A
  | .Invalid_Permission => 0xA012
  | .Failed_Download => 0xA018
  | .Failed_Operate_Object => 0xA01F
  | .Same_Object => 0xA022
  | .Different_Object => 0xA023

/-- The call of `VitaMTP_GetData`. -/
def getData (eventId : BitVec 32) (code : BitVec 16) : Query where
  call :=
    { code := code
      params := [eventId]
      few := few_one eventId
      phase := .getdata }

/-- The call of `VitaMTP_ReportResult`. -/
def reportResult (eventId result : BitVec 32) : Query where
  call :=
    { code := PTP_OC_VITA_ReportResult
      params := [eventId, result]
      few := few_two eventId result
      phase := .nodata }

section handler

variable {σ : Type} (posix : Posix σ) (conv : Converters) (fuel : ℕ) (eventId : BitVec 32)

def remoteReportResult (s : Host σ) (ret : ResultCode) : Remote (Host σ × Option ResultCode) := do
  let _ ← Dialogue.query (reportResult eventId (ret.code.setWidth 32))
  pure (s, some ret)

/-- `vitaEventGetTreatObject`, and what it reports. -/
def remoteGetTreatObject (s : Host σ) : Remote (Host σ × Option ResultCode) := do
  let a ← Dialogue.query (getData eventId PTP_OC_VITA_GetTreatObject)
  let (ret, treat) ← Dialogue.ofOption (getTreatObject ⟨a.ret, a.data⟩)
  let treat ← Dialogue.ofOption treat
  if ret ≠ PTP_RC_OK then pure (s, none)
  else
    match ohfiToObject s.db treat.ohfiParent.toInt with
    | none => remoteReportResult eventId s .Invalid_OHFI
    | some (c, parent) => do
      let (ret, s) ← remoteGetAllObjects posix conv c fuel parent.ohfi treat.handle s
      remoteReportResult eventId s ret

end handler

section reads

variable {σ : Type} (posix : Posix σ) (conv : Converters)

theorem remoteChildren_reads {get : BitVec 32 → Host σ → Remote (ResultCode × Host σ)}
    (hget : ∀ handle s, (get handle s).Asks Query.Reads) (handles : List (BitVec 32))
    (s : Host σ) : (remoteChildren get handles s).Asks Query.Reads := by
  induction handles generalizing s with
  | nil => trivial
  | cons handle handles ih =>
    refine (hget handle s).bind fun r => ?_
    dsimp only
    split_ifs
    · exact ih r.2
    · trivial

theorem remoteFolder_reads (c : Category) {below : ℤ → Host σ → Remote (ResultCode × Host σ)}
    (hbelow : ∀ object s, (below object s).Asks Query.Reads) (parent : ℤ) (name : CString)
    (handle : BitVec 32) (s : Host σ) :
    (remoteFolder posix c below parent name handle s).Asks Query.Reads := by
  refine (Dialogue.asks_ofOption _).bind fun node => ?_
  refine (Dialogue.asks_ofOption _).bind fun added => ?_
  dsimp only
  split_ifs
  · trivial
  · exact Dialogue.asks_ofOption _
  · refine (hbelow _ _).bind fun r => ?_
    split_ifs
    · trivial
    · exact Dialogue.asks_ofOption _
  · exact Dialogue.asks_ofOption _

theorem remoteGetAllObjects_reads (c : Category) (fuel : ℕ) (parent : ℤ) (handle : BitVec 32)
    (s : Host σ) : (remoteGetAllObjects posix conv c fuel parent handle s).Asks Query.Reads := by
  induction fuel generalizing parent handle s with
  | zero => trivial
  | succ fuel ih =>
    refine (vitaMtpGetObject_reads conv handle).bind fun got => ?_
    cases got with
    | error code => trivial
    | ok got =>
      cases got with
      | file name size data =>
        refine (Dialogue.asks_ofOption _).bind fun name => ?_
        refine (Dialogue.asks_ofOption _).bind fun node => ?_
        exact (Dialogue.asks_ofOption _).bind fun added => Dialogue.asks_ofOption _
      | folder name handles =>
        refine (Dialogue.asks_ofOption _).bind fun name => ?_
        exact remoteFolder_reads posix c
          (fun object s => remoteChildren_reads (fun handle s => ih object handle s) handles s)
          parent name handle s

end reads

/-- A run of the handler: what it does is what `vitaEventGetTreatObject` does with a tree, and the
device is read until the one report. -/
structure TreatRun {σ : Type} (posix : Posix σ) (eventId : BitVec 32) (s s' : Host σ)
    (ret : Option ResultCode) (asked : List Query) : Prop where
  refines : ∃ treat, vitaEventGetTreatObject posix s treat =
    some (s', ret.toList.map Message.reportResult)
  reports : ∃ reads, (∀ q ∈ reads, q.Reads) ∧ asked = reads ++ ret.toList.map fun ret =>
    reportResult eventId (ret.code.setWidth 32)

section handler

variable {σ τ : Type} {posix : Posix σ} {conv : Converters} {fuel : ℕ} {eventId : BitVec 32}
  {s s' : Host σ} {ret : Option ResultCode}

theorem path_remoteReportResult {code : ResultCode} {l : List (Query × Answer)}
    (h : Dialogue.Path (remoteReportResult eventId s code) l (s', ret)) :
    s' = s ∧ ret = some code ∧
      l.map Prod.fst = [reportResult eventId (code.code.setWidth 32)] := by
  cases h with
  | ask h =>
    cases h
    exact ⟨rfl, rfl, rfl⟩

theorem remoteGetTreatObject_run {l : List (Query × Answer)}
    (h : Dialogue.Path (remoteGetTreatObject posix conv fuel eventId s) l (s', ret)) :
    TreatRun posix eventId s s' ret (l.map Prod.fst) := by
  cases h with
  | @ask _ a _ l _ h =>
    have hfirst : (getData eventId PTP_OC_VITA_GetTreatObject).Reads := rfl
    obtain ⟨⟨code, treat⟩, -, h⟩ := Dialogue.path_ofOption_bind_iff.mp h
    obtain ⟨treat, -, h⟩ := Dialogue.path_ofOption_bind_iff.mp h
    dsimp only at h
    by_cases hcode : code ≠ PTP_RC_OK
    · rw [if_pos hcode] at h
      cases h
      exact ⟨⟨none, rfl⟩, [_], fun q hq => List.mem_singleton.mp hq ▸ hfirst, rfl⟩
    · rw [if_neg hcode] at h
      cases hparent : ohfiToObject s.db treat.ohfiParent.toInt with
      | none =>
        rw [hparent] at h
        obtain ⟨rfl, rfl, hasked⟩ := path_remoteReportResult h
        refine ⟨⟨some (treat.ohfiParent, .unavailable), ?_⟩, [_],
          fun q hq => List.mem_singleton.mp hq ▸ hfirst, ?_⟩
        · rw [vitaEventGetTreatObject, hparent]
          rfl
        · rw [List.map_cons, hasked]
          rfl
      | some found =>
        obtain ⟨c, parent⟩ := found
        rw [hparent] at h
        obtain ⟨reads, ⟨ret₁, s₁⟩, rest, hreads, hrest, rfl⟩ := Dialogue.path_bind_iff.mp h
        obtain ⟨rfl, rfl, hasked⟩ := path_remoteReportResult hrest
        obtain ⟨device, more, -, hall, -⟩ := remoteGetAllObjects_shown hreads
        refine ⟨⟨some (treat.ohfiParent, device), ?_⟩,
          getData eventId PTP_OC_VITA_GetTreatObject :: reads.map Prod.fst, ?_, ?_⟩
        · rw [vitaEventGetTreatObject, hparent]
          exact congrArg (Option.bind · _) hall
        · intro q hq
          rcases List.mem_cons.mp hq with rfl | hq
          · exact hfirst
          · obtain ⟨qa, hqa, rfl⟩ := List.mem_map.mp hq
            exact hreads.asks (remoteGetAllObjects_reads posix conv c fuel _ _ s) qa hqa
        · rw [List.map_cons, List.map_append, hasked]
          rfl

/-- The handler asks for what it is to treat, then for all of it, and reports. -/
theorem path_remoteGetTreatObject {data : List Byte} {treat : TreatObject} {c : Category}
    {parent : CmaObject} {l : List (Query × Answer)} {code : ResultCode}
    (htreat : getTreatObject ⟨PTP_RC_OK, data⟩ = some (PTP_RC_OK, some treat))
    (hparent : ohfiToObject s.db treat.ohfiParent.toInt = some (c, parent))
    (hall : Dialogue.Path (remoteGetAllObjects posix conv c fuel parent.ohfi treat.handle s) l
      (code, s')) (a : Answer) :
    Dialogue.Path (remoteGetTreatObject posix conv fuel eventId s)
      ((getData eventId PTP_OC_VITA_GetTreatObject, { ret := PTP_RC_OK, data := data }) ::
        (l ++ [(reportResult eventId (code.code.setWidth 32), a)])) (s', some code) := by
  refine .ask (Dialogue.path_ofOption_bind_iff.mpr ⟨_, htreat,
    Dialogue.path_ofOption_bind_iff.mpr ⟨treat, rfl, ?_⟩⟩)
  dsimp only
  rw [if_neg (not_not.mpr rfl), hparent]
  exact hall.bind (.ask (.done _))

/-- Whatever a transport brings: the transactions of the handler are reads and at the end the one
report, what it does and reports is what is done with a tree, and the database stays sound. -/
theorem remoteGetTreatObject_over {t : Transport τ} {params params' : PTPParams} {st st' : τ}
    (h : Remote.over t (remoteGetTreatObject posix conv fuel eventId s) params st =
      some ((s', ret), params', st')) :
    ∃ l, Dialogue.Along (remoteStep t) l (params, st) (params', st') ∧
      TreatRun posix eventId s s' ret (l.map Prod.fst) ∧
      ∀ paths uuid, s.db.Sound paths uuid → s'.db.Sound paths uuid := by
  obtain ⟨l, hpath, halong⟩ := Dialogue.run_eq_some_iff.mp h
  have hrun := remoteGetTreatObject_run hpath
  refine ⟨l, halong, hrun, fun paths uuid hsound => ?_⟩
  obtain ⟨treat, htreat⟩ := hrun.refines
  exact @Database.Sound.handle σ posix paths uuid s s' hsound (.treat treat) _ htreat

/-- A file, and the request that it be treated. -/
def sampleFile : DeviceObject := .file ['y'] 7 3 [1, 2, 3]

def treatFile : List Byte := htod32a 2 ++ htod32a 0 ++ htod32a 7

/-- The host after the file has been received. -/
def treatedHost : Host Unit :=
  hostAfter (sampleHost sampleDatabase)
    (vitaGetAllObjects samplePosix .photos 2 sampleFile (sampleHost sampleDatabase))

/-- The answers of a device that has the file. -/
def treatAnswers : List (Query × Answer) :=
  (getData 9 PTP_OC_VITA_GetTreatObject, { ret := PTP_RC_OK, data := treatFile }) ::
    (sampleFile.answers byteConverters ++ [(reportResult 9 0x2001, { ret := PTP_RC_OK })])

theorem sampleFile_sendable : sampleFile.Sendable byteConverters :=
  ⟨⟨by decide, rfl⟩, by decide⟩

theorem treatAnswers_path :
    Dialogue.Path (remoteGetTreatObject samplePosix byteConverters 1 9 (sampleHost sampleDatabase))
      treatAnswers (treatedHost, some .OK) := by
  have hall : vitaGetAllObjects samplePosix .photos 2 sampleFile (sampleHost sampleDatabase) =
      some (.OK, treatedHost) := by rfl
  have htreat : getTreatObject ⟨PTP_RC_OK, treatFile⟩ =
      some (PTP_RC_OK, some ⟨2, 0, 7⟩) := by rfl
  have hparent : ohfiToObject (sampleHost sampleDatabase).db (2 : BitVec 32).toInt =
      some (.photos, sampleObject 0) := by rfl
  obtain ⟨first, rest, hsplit, hpath, hok⟩ := remoteGetAllObjects_ends
    (show sampleFile.depth ≤ 1 by decide)
    (tells_answers byteConverters_faithful sampleFile sampleFile_sendable) hall
  rw [hok rfl, List.append_nil] at hsplit
  rw [treatAnswers, hsplit]
  exact path_remoteGetTreatObject htreat hparent hpath _

theorem treatAnswers_answered : ∀ qa ∈ treatAnswers,
    Delivers qa.1 qa.2 { code := qa.2.ret, data := qa.2.data } ∧
      ∀ id, ∃ bytes, Answers id qa.1.call { code := qa.2.ret, data := qa.2.data } bytes := by
  have htreat : GetsData (getData 9 PTP_OC_VITA_GetTreatObject,
      { ret := PTP_RC_OK, data := treatFile }) := ⟨rfl, ⟨rfl, rfl⟩, by decide, by decide⟩
  refine List.forall_mem_cons.mpr ⟨⟨htreat.delivers, fun id => ⟨_, htreat.answers id⟩⟩,
    List.forall_mem_append.mpr ⟨fun qa hmem => ?_, List.forall_mem_singleton.mpr
      ⟨⟨rfl, rfl, rfl⟩, fun id => ⟨_, [], [], okResponse id, rfl, nofun, rfl, rfl, rfl,
        Or.inr ⟨nofun, rfl, rfl⟩⟩⟩⟩⟩
  have hgets := answers_getsData sampleFile sampleFile_sendable qa hmem
  exact ⟨hgets.delivers, fun id => ⟨_, hgets.answers id⟩⟩

theorem remoteGetTreatObject_over_sample : ∃ bytes params' link',
    Remote.over (ptpip takingSocket)
        (remoteGetTreatObject samplePosix byteConverters 1 9 (sampleHost sampleDatabase)) {}
        (trickle bytes) = some ((treatedHost, some .OK), params', link') ∧
    ∃ l, Dialogue.Along (remoteStep (ptpip takingSocket)) l ({}, trickle bytes)
        (params', link') ∧
      TreatRun samplePosix 9 (sampleHost sampleDatabase) treatedHost (some .OK)
        (l.map Prod.fst) ∧
      ∀ paths uuid, (sampleHost sampleDatabase).db.Sound paths uuid →
        treatedHost.db.Sound paths uuid := by
  obtain ⟨replies, bytes, hdelivers, hconversation⟩ := exists_conversation treatAnswers_answered 0
  obtain ⟨params', link', hrun, -⟩ := @Transport.Serves.over _ _ _ _ _ _ _ _ []
    (ptpip_serves takingSocket_open) _ _ [] _ treatAnswers_path {} (trickle bytes)
    ⟨replies, bytes, hdelivers, hconversation, fun _ _ => trivial, trivial,
      by rw [List.append_nil]; exact content_trickle _⟩
  exact ⟨bytes, params', link', hrun, remoteGetTreatObject_over hrun⟩

end handler

end VitaMTP
