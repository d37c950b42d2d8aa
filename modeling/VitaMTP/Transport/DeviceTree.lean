import VitaMTP.Events.ReceiveTree
import VitaMTP.Transport.Treat

/-! Devices that have a tree: what they answer when all of it is asked for, and that it is
received. -/
namespace VitaMTP
open Dialogues LittleEndian Pieces

/-- The handle of an object; one that is refused may have any. -/
def DeviceObject.handle : DeviceObject → BitVec 32
  | .unavailable => 0
  | .file _ handle _ _ => handle
  | .folder _ handle _ => handle

section device

variable (conv : Converters)

def packedName (name : CString) : List Byte :=
  if (ptpPackString conv name).1 = 0 then [0] else (ptpPackString conv name).2

/-- The answers that say what an object is. -/
def namedAnswers (handle : BitVec 32) (format : BitVec 16) (name : CString) :
    List (Query × Answer) :=
  [(getObjectPropValue handle PTP_OPC_ObjectFormat,
      { ret := PTP_RC_OK, data := htod16a format }),
    (getObjectPropValue handle PTP_OPC_ObjectFileName,
      { ret := PTP_RC_OK, data := packedName conv name })]

def fileAnswers (name : CString) (handle : BitVec 32) (size : ULong) (data : List Byte) :
    List (Query × Answer) :=
  namedAnswers conv handle PTP_OFC_Undefined name ++
    [(getObjectPropValue handle PTP_OPC_ObjectSize,
        { ret := PTP_RC_OK, data := encode 8 size.toNat }),
      (getObject handle, { ret := PTP_RC_OK, data := data })]

/-- The answers that bring a folder. -/
def folderAnswers (name : CString) (handle : BitVec 32) (handles : List (BitVec 32)) :
    List (Query × Answer) :=
  namedAnswers conv handle PTP_OFC_Association name ++
    [(getObjectHandles VITA_STORAGE_ID 0 handle,
        { ret := PTP_RC_OK, data := ptpPackUint32Array handles })]

mutual

/-- What a device that has the tree answers when it is asked for all of it. -/
def DeviceObject.answers : DeviceObject → List (Query × Answer)
  | .unavailable => [(getObjectPropValue 0 PTP_OPC_ObjectFormat, { ret := PTP_RC_GeneralError })]
  | .file name handle size data => fileAnswers conv name handle size data
  | .folder name handle children =>
    folderAnswers conv name handle (children.map DeviceObject.handle) ++ childAnswers children

def childAnswers : List DeviceObject → List (Query × Answer)
  | [] => []
  | child :: children => child.answers ++ childAnswers children

end

/-- A name that is read as it was sent. -/
def SendableName (name : CString) : Prop := nul ∉ name ∧ keptName conv name = some name

mutual

/-- The names of a tree can be sent, and its files and folders are not too long for the length of a
container. -/
def DeviceObject.Sendable : DeviceObject → Prop
  | .unavailable => True
  | .file name _ _ data => SendableName conv name ∧ 12 + data.length < 0xffffffff
  | .folder name _ children =>
    SendableName conv name ∧ 12 + 4 * (children.length + 1) < 0xffffffff ∧
      ChildrenSendable children

def ChildrenSendable : List DeviceObject → Prop
  | [] => True
  | child :: children => child.Sendable ∧ ChildrenSendable children

end

end device

section answering

variable {conv : Converters} {name : CString} {handle : BitVec 32}

theorem unpack_uint16 (x : BitVec 16) : ptpUnpackDPV conv (htod16a x) .uint16 = some (some x) := by
  have h := dtoh16a_head x []
  rw [List.append_nil] at h
  rw [ptpUnpackDPV, if_neg (by rw [length_htod16a]; decide), h]

theorem unpack_uint64 (x : ULong) :
    ptpUnpackDPV conv (encode 8 x.toNat) .uint64 = some (some x) := by
  have hlength := length_encode 8 x.toNat
  rw [ptpUnpackDPV, if_neg (by omega), longAt, List.drop_zero,
    List.take_of_length_le hlength.le, decode_encode x.isLt, BitVec.ofNat_toNat, BitVec.setWidth_eq]

theorem unpack_name (hconv : conv.Faithful) (h : SendableName conv name) :
    ptpUnpackDPV conv (packedName conv name) .str = some (some (some name)) := by
  obtain ⟨n, hunpack, -⟩ := @ptpUnpackString_pack conv name [] [] 0 hconv h.1 rfl
  rw [List.append_nil, List.nil_append, h.2] at hunpack
  rw [ptpUnpackDPV, packedName, hunpack]
  rfl

theorem path_getobjectpropvalue {R : Type} {oid : BitVec 32} {opc : BitVec 16}
    {datatype : PtpDatatype} {data : List Byte} {value : Option datatype.Value}
    {next : Option datatype.Value → Checked R} {l : List (Query × Answer)}
    {r : Except (BitVec 16) R} (hvalue : ptpUnpackDPV conv data datatype = some value)
    (h : Dialogue.Path (next value).run l r) :
    Dialogue.Path (ptpMtpGetobjectpropvalue conv oid opc datatype >>= next).run
      ((getObjectPropValue oid opc, { ret := PTP_RC_OK, data := data }) :: l) r := by
  refine .ask ?_
  change Dialogue.Path ((Checked.need (ptpUnpackDPV conv data datatype) >>= next).run) l r
  rw [hvalue]
  exact h

theorem path_getobjecthandles {R : Type} {storage format associationOH : BitVec 32}
    {data : List Byte} {handles : List (BitVec 32)} {next : List (BitVec 32) → Checked R}
    {l : List (Query × Answer)} {r : Except (BitVec 16) R}
    (hhandles : ptpUnpackOH data = some handles)
    (h : Dialogue.Path (next handles).run l r) :
    Dialogue.Path (ptpGetobjecthandles storage format associationOH >>= next).run
      ((getObjectHandles storage format associationOH, { ret := PTP_RC_OK, data := data }) :: l)
      r := by
  refine .ask ?_
  change Dialogue.Path (((ExceptT.lift (Dialogue.ofOption (ptpUnpackOH data)) : Checked _) >>=
    next).run) l r
  rw [hhandles]
  exact h

theorem gets_file (hconv : conv.Faithful) (h : SendableName conv name) (size : ULong)
    (data : List Byte) :
    Gets conv handle (fileAnswers conv name handle size data)
      (.ok (.file (some name) size data)) := by
  refine path_getobjectpropvalue (unpack_uint16 _) ?_
  refine path_getobjectpropvalue (unpack_name hconv h) ?_
  refine path_getobjectpropvalue (unpack_uint64 _) ?_
  exact .ask (.done _)

theorem gets_folder (hconv : conv.Faithful) (h : SendableName conv name)
    {handles : List (BitVec 32)} (hcount : handles.length < 2 ^ 32) :
    Gets conv handle (folderAnswers conv name handle handles)
      (.ok (.folder (some name) handles)) := by
  refine path_getobjectpropvalue (unpack_uint16 _) ?_
  refine path_getobjectpropvalue (unpack_name hconv h) ?_
  exact path_getobjecthandles (ptpUnpackOH_pack hcount) (.done _)

mutual

theorem tells_answers (hconv : conv.Faithful) : (device : DeviceObject) → device.Sendable conv →
    Tells conv device device.handle (device.answers conv)
  | .unavailable, _ => ⟨PTP_RC_GeneralError, .ask (.done _)⟩
  | .file _ _ size data, h => ⟨rfl, gets_file hconv h.1 size data⟩
  | .folder _ _ children, ⟨hname, hcount, hchildren⟩ =>
    ⟨rfl, children.map DeviceObject.handle, _, _, rfl,
      gets_folder hconv hname (by rw [List.length_map]; omega),
      tellsChildren_answers hconv children hchildren⟩

theorem tellsChildren_answers (hconv : conv.Faithful) : (children : List DeviceObject) →
    ChildrenSendable conv children →
    TellsChildren conv children (children.map DeviceObject.handle) (childAnswers conv children)
  | [], _ => ⟨rfl, rfl⟩
  | child :: children, ⟨hchild, hchildren⟩ =>
    ⟨child.handle, _, _, _, rfl, rfl, tells_answers hconv child hchild,
      tellsChildren_answers hconv children hchildren⟩

end

end answering

section transport

variable {σ τ α : Type} {posix : Posix σ} {conv : Converters} {c : Category} {fuel : ℕ}
  {parent : ℤ} {s : Host σ} {r : ResultCode × Host σ} {t : Transport τ} {params : PTPParams}
  {st : τ} {unread : τ → List α} {Inv : τ → Prop} {Ok : Call → Prop}
  {answers : BitVec 32 → Call → CallReply → List α → Prop} {rest : List α}

/-- A tree whose names can be sent is received over any transport that serves the device that has
it, as `Events.Receive` has it. -/
theorem Transport.Serves.getAllObjects (hserves : t.Serves unread Inv Ok answers)
    (hconv : conv.Faithful) {device : DeviceObject} (hsend : device.Sendable conv)
    (hdepth : device.depth ≤ fuel) (hall : vitaGetAllObjects posix c parent device s = some r)
    (hholds : Holds unread Inv Ok answers rest (device.answers conv) (params, st)) :
    ∃ params' st' more, Remote.over t
        (remoteGetAllObjects posix conv c fuel parent device.handle s) params st =
          some (r, params', st') ∧
      more <:+ device.answers conv ∧ Holds unread Inv Ok answers rest more (params', st') ∧
      (r.1 = .OK → more = []) := by
  obtain ⟨first, more, hsplit, hpath, hok⟩ :=
    remoteGetAllObjects_ends hdepth (tells_answers hconv device hsend) hall
  rw [hsplit] at hholds ⊢
  obtain ⟨params', st', hrun, hmore⟩ := hserves.over hpath hholds
  exact ⟨params', st', more, hrun, List.suffix_append .., hmore, hok⟩

end transport

section received

variable {conv : Converters} {name : CString}

theorem length_packedName_le (conv : Converters) (name : CString) :
    (packedName conv name).length ≤ 511 := by
  set packed := (ucs2str conv name).takeWhile (· ≠ 0) with hpacked
  by_cases hlong : PTP_MAXSTRLEN - 1 < packed.length
  · have hpack : ptpPackString conv name = (0, []) := if_pos hlong
    rw [packedName, hpack]
    decide
  · have hpack : ptpPackString conv name = (packed.length + 1,
        BitVec.ofNat 8 (packed.length + 1) :: (packed.flatMap htod16a ++ htod16a 0)) :=
      if_neg hlong
    rw [packedName, hpack, if_neg (Nat.succ_ne_zero _), List.length_cons, List.length_append,
      length_flatMap_htod16a, length_htod16a]
    unfold PTP_MAXSTRLEN at hlong
    omega

theorem namedAnswers_getsData (handle : BitVec 32) (format : BitVec 16) :
    ∀ qa ∈ namedAnswers conv handle format name, GetsData qa := by
  have hformat : 12 + (htod16a format).length < 0xffffffff := by
    rw [length_htod16a]
    decide
  have hlength := length_packedName_le conv name
  have hname : 12 + (packedName conv name).length < 0xffffffff := by omega
  exact List.forall_mem_cons.mpr ⟨⟨rfl, ⟨rfl, rfl⟩, ok_ne_respExpected, hformat⟩,
    List.forall_mem_singleton.mpr ⟨rfl, ⟨rfl, rfl⟩, ok_ne_respExpected, hname⟩⟩

mutual

theorem answers_getsData : (device : DeviceObject) → device.Sendable conv →
    ∀ qa ∈ device.answers conv, GetsData qa
  | .unavailable, _ => List.forall_mem_singleton.mpr ⟨rfl, ⟨rfl, rfl⟩, by decide, by decide⟩
  | .file _ handle size data, h => List.forall_mem_append.mpr
    ⟨namedAnswers_getsData handle PTP_OFC_Undefined, List.forall_mem_cons.mpr
      ⟨⟨rfl, ⟨rfl, rfl⟩, ok_ne_respExpected, by rw [length_encode]; decide⟩,
        List.forall_mem_singleton.mpr ⟨rfl, ⟨rfl, rfl⟩, ok_ne_respExpected, h.2⟩⟩⟩
  | .folder _ handle children, ⟨_, hcount, hchildren⟩ => List.forall_mem_append.mpr
    ⟨List.forall_mem_append.mpr ⟨namedAnswers_getsData handle PTP_OFC_Association,
      List.forall_mem_singleton.mpr ⟨rfl, ⟨rfl, rfl⟩, ok_ne_respExpected, by
        rw [ptpPackUint32Array, List.length_append, length_htod32a, length_flatMap_htod32a,
          List.length_map]
        omega⟩⟩,
      childAnswers_getsData children hchildren⟩

theorem childAnswers_getsData : (children : List DeviceObject) → ChildrenSendable conv children →
    ∀ qa ∈ childAnswers conv children, GetsData qa
  | [], _ => fun _ hmem => nomatch hmem
  | child :: children, ⟨hchild, hchildren⟩ => List.forall_mem_append.mpr
    ⟨answers_getsData child hchild, childAnswers_getsData children hchildren⟩

end

variable {σ τ α : Type} {posix : Posix σ} {c : Category} {fuel : ℕ} {parent : ℤ} {s : Host σ}
  {r : ResultCode × Host σ} {device : DeviceObject}

theorem Transport.Serves.deviceTree {t : Transport τ} {unread : τ → List α} {Inv : τ → Prop}
    {Ok : Call → Prop} {answers : BitVec 32 → Call → CallReply → List α → Prop}
    (hserves : t.Serves unread Inv Ok answers)
    (hanswers : ∀ qa, GetsData qa → ∀ id,
      ∃ xs, answers id qa.1.call { code := qa.2.ret, data := qa.2.data } xs)
    (hcalls : ∀ qa, GetsData qa → Ok qa.1.call) (hconv : conv.Faithful)
    (hsend : device.Sendable conv) (hdepth : device.depth ≤ fuel)
    (hall : vitaGetAllObjects posix c parent device s = some r) (params : PTPParams) :
    ∃ xs, ∀ st rest, Inv st → unread st = xs ++ rest →
      ∃ params' st', Remote.over t
          (remoteGetAllObjects posix conv c fuel parent device.handle s) params st =
            some (r, params', st') ∧
        (r.1 = .OK → unread st' = rest) := by
  have hgets := answers_getsData device hsend
  obtain ⟨replies, xs, hdelivers, hconversation⟩ := exists_conversation
    (fun qa hmem => ⟨(hgets qa hmem).delivers, hanswers qa (hgets qa hmem)⟩) params.transactionId
  refine ⟨xs, fun st rest hinv hunread => ?_⟩
  obtain ⟨params', st', more, hrun, -, hmore, hok⟩ := hserves.getAllObjects hconv hsend hdepth hall
    ⟨replies, xs, hdelivers, hconversation, fun qa hmem => hcalls qa (hgets qa hmem), hinv,
      hunread⟩
  refine ⟨params', st', hrun, fun hret => ?_⟩
  obtain ⟨replies', xs', -, hconversation', -, -, hrest⟩ := hmore
  rw [hok hret] at hconversation'
  cases hconversation'
  exact hrest

/-- Every tree whose names can be sent can be received, over PTP/IP however the connection cuts
what it carries, and over USB with or without the headers apart from the data. -/
theorem deviceTree_received {socket : Socket} {pipes : UsbPipes} (hopen : socket.Open)
    (hregular : pipes.Regular) (hwhole : pipes.Whole) (splits : Bool) (hconv : conv.Faithful)
    (hsend : device.Sendable conv) (hdepth : device.depth ≤ fuel)
    (hall : vitaGetAllObjects posix c parent device s = some r) (params : PTPParams) :
    (∃ bytes, ∀ link rest, content link.cmd = bytes ++ rest →
      ∃ params' link', Remote.over (ptpip socket)
          (remoteGetAllObjects posix conv c fuel parent device.handle s) params link =
            some (r, params', link') ∧
        (r.1 = .OK → content link'.cmd = rest)) ∧
    ∃ incoming, ∀ link rest, link.Ready splits → link.incoming = incoming ++ rest →
      ∃ params' link', Remote.over (usb pipes)
          (remoteGetAllObjects posix conv c fuel parent device.handle s) params link =
            some (r, params', link') ∧
        (r.1 = .OK → link'.incoming = rest) := by
  constructor
  · obtain ⟨bytes, h⟩ := (ptpip_serves hopen).deviceTree (fun _ hgets id => ⟨_, hgets.answers id⟩)
      (fun _ _ => trivial) hconv hsend hdepth hall params
    exact ⟨bytes, fun link rest => h link rest trivial⟩
  · exact (usb_serves splits hregular hwhole).deviceTree
      (fun _ hgets id => hgets.usbAnswers pipes splits id)
      (fun _ hgets data hsent => by rw [hgets.reads] at hsent; cases hsent) hconv hsend hdepth hall
      params

theorem deviceTree_received_sample :
    (∃ bytes, ∀ link rest, content link.cmd = bytes ++ rest →
      ∃ params' link', Remote.over (ptpip takingSocket)
          (remoteGetAllObjects samplePosix byteConverters .photos 2 2 7
            (sampleHost sampleDatabase)) {} link =
            some ((.OK, hostAfter (sampleHost sampleDatabase) (vitaGetAllObjects samplePosix .photos
              2 sampleTree (sampleHost sampleDatabase))), params', link') ∧
        (ResultCode.OK = .OK → content link'.cmd = rest)) ∧
    ∃ incoming, ∀ link rest, link.Ready true → link.incoming = incoming ++ rest →
      ∃ params' link', Remote.over (usb wholePipes)
          (remoteGetAllObjects samplePosix byteConverters .photos 2 2 7
            (sampleHost sampleDatabase)) {} link =
            some ((.OK, hostAfter (sampleHost sampleDatabase) (vitaGetAllObjects samplePosix .photos
              2 sampleTree (sampleHost sampleDatabase))), params', link') ∧
        (ResultCode.OK = .OK → link'.incoming = rest) :=
  @deviceTree_received byteConverters Unit samplePosix .photos 2 2 (sampleHost sampleDatabase) _
    sampleTree takingSocket wholePipes takingSocket_open ⟨rfl, dvd_rfl, by decide⟩ (fun _ _ => rfl)
    true byteConverters_faithful
    ⟨⟨by decide, rfl⟩, by decide, ⟨⟨by decide, rfl⟩, by decide⟩, trivial⟩ (by decide) rfl {}

end received

end VitaMTP
