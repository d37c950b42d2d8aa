import VitaMTP.Transport.Dataset
import VitaMTP.Transport.Remote

/-! The calls of `ptp.c` and `vitamtp.c` that get and send the objects of a device. -/
namespace VitaMTP
open Dialogues LittleEndian

def PTP_OC_GetObjectHandles : BitVec 16 := 0x1007
def PTP_OC_GetObject : BitVec 16 := 0x1009
def PTP_OC_SendObjectInfo : BitVec 16 := 0x100C
def PTP_OC_SendObject : BitVec 16 := 0x100D
def PTP_OC_MTP_GetObjectPropValue : BitVec 16 := 0x9803
def PTP_OPC_ObjectFormat : BitVec 16 := 0xDC02
def PTP_OPC_ObjectSize : BitVec 16 := 0xDC04
def PTP_OPC_ObjectFileName : BitVec 16 := 0xDC07
def PTP_OFC_Undefined : BitVec 16 := 0x3000
def PTP_OFC_Association : BitVec 16 := 0x3001
def PTP_OFC_PSPSave : BitVec 16 := 0xB00A
def PTP_AT_GenericFolder : BitVec 16 := 0x0001
def PTP_RC_OperationNotSupported : BitVec 16 := 0x2005
def VITA_STORAGE_ID : BitVec 32 := 0x00010001

/-- A program that ends with the first code that is not `PTP_RC_OK`. -/
abbrev Checked : Type → Type := ExceptT (BitVec 16) Remote

namespace Checked

variable {R R' : Type}

/-- A transaction, whose answer is read if all is well. -/
def query (q : Query) : Checked Answer := ExceptT.mk do
  let a ← Dialogue.query q
  pure (if a.ret = PTP_RC_OK then .ok a else .error a.ret)

/-- Goes wrong where there is no value. -/
def need (r : Option R) : Checked R := ExceptT.lift (Dialogue.ofOption r)

section asks

variable {P : Query → Prop} {d : Checked R} {next : R → Checked R'}

theorem asks_bind (h : d.run.Asks P) (hnext : ∀ r, (next r).run.Asks P) :
    (d >>= next).run.Asks P :=
  h.bind fun r => by
    cases r with
    | error code => trivial
    | ok r => exact hnext r

theorem asks_query {q : Query} (h : P q) : (query q).run.Asks P := ⟨h, fun _ => trivial⟩

theorem asks_need (r : Option R) : (need r).run.Asks P :=
  (Dialogue.asks_ofOption r).bind fun _ => trivial

end asks

end Checked

section ptp

variable (conv : Converters)

/-- The call of `ptp_mtp_getobjectpropvalue`. -/
def getObjectPropValue (oid : BitVec 32) (opc : BitVec 16) : Query where
  call :=
    { code := PTP_OC_MTP_GetObjectPropValue
      params := [oid, opc.setWidth 32]
      few := Nat.le_of_ble_eq_true rfl
      phase := .getdata }

/-- What becomes of a value that cannot be unpacked is not asked. -/
def ptpMtpGetobjectpropvalue (oid : BitVec 32) (opc : BitVec 16) (datatype : PtpDatatype) :
    Checked (Option datatype.Value) := do
  let a ← Checked.query (getObjectPropValue oid opc)
  Checked.need (ptpUnpackDPV conv a.data datatype)

/-- The call of `ptp_getobjecthandles`. -/
def getObjectHandles (storage objectformatcode associationOH : BitVec 32) : Query where
  call :=
    { code := PTP_OC_GetObjectHandles
      params := [storage, objectformatcode, associationOH]
      few := Nat.le_of_ble_eq_true rfl
      phase := .getdata }

def ptpGetobjecthandles (storage objectformatcode associationOH : BitVec 32) :
    Checked (List (BitVec 32)) := ExceptT.mk do
  let a ← Dialogue.query (getObjectHandles storage objectformatcode associationOH)
  if a.ret = PTP_RC_OK then do
    let handles ← Dialogue.ofOption (ptpUnpackOH a.data)
    pure (.ok handles)
  else if storage = 0xffffffff ∧ objectformatcode = 0 ∧ associationOH = 0 then
    -- when we query all object handles on all stores
    pure (.ok [])
  else pure (.error a.ret)

/-- The call of `ptp_getobject`. -/
def getObject (handle : BitVec 32) : Query where
  call :=
    { code := PTP_OC_GetObject
      params := [handle]
      few := few_one handle
      phase := .getdata }

def ptpGetobject (handle : BitVec 32) : Checked (List Byte) := do
  let a ← Checked.query (getObject handle)
  pure a.data

/-- The call of `ptp_sendobjectinfo`. -/
def sendObjectInfo (store parenthandle : BitVec 32) (oidata : List Byte) : Query where
  call :=
    { code := PTP_OC_SendObjectInfo
      params := [store, parenthandle]
      few := Nat.le_of_ble_eq_true rfl
      phase := .senddata oidata }
  handles := true

/-- The store, the handle of the parent and the one of the object. -/
def ptpSendobjectinfo (store parenthandle : BitVec 32) (objectinfo : PTPObjectInfo)
    (filename : CString) : Checked (BitVec 32 × BitVec 32 × BitVec 32) := do
  let a ← Checked.query (sendObjectInfo store parenthandle (ptpPackOI conv objectinfo filename))
  Checked.need a.handles

/-- The call of `ptp_sendobject`. -/
def sendObject (object : List Byte) : Query where
  call :=
    { code := PTP_OC_SendObject
      params := []
      few := few_nil
      phase := .senddata object }

def ptpSendobject (object : List Byte) (size : BitVec 32) : Checked Unit := do
  let _ ← Checked.query (sendObject (object.take size.toNat))
  pure ()

end ptp

/-- What `VitaMTP_GetObject` stores: the handles in a folder, or the data of a file. A name that is
empty is null. -/
inductive GotObject
  | folder (name : Option CString) (handles : List (BitVec 32))
  | file (name : Option CString) (size : ULong) (data : List Byte)
  deriving DecidableEq, Repr

section vitamtp

variable (conv : Converters)

def vitaMtpGetObject (handle : BitVec 32) : Checked GotObject := do
  let format ← ptpMtpGetobjectpropvalue conv handle PTP_OPC_ObjectFormat .uint16
  let format ← Checked.need format
  let name ← ptpMtpGetobjectpropvalue conv handle PTP_OPC_ObjectFileName .str
  let name ← Checked.need name
  if format = PTP_OFC_Association then do
    let handles ← ptpGetobjecthandles VITA_STORAGE_ID 0 handle
    pure (.folder name handles)
  else do
    let size ← ptpMtpGetobjectpropvalue conv handle PTP_OPC_ObjectSize .uint64
    let size ← Checked.need size
    let data ← ptpGetobject handle
    pure (.file name size data)

/-- The fields that `VitaMTP_SendObject` fills in, but for the name and the dates, which are not
packed. -/
def objectInfoOf (parenthandle : BitVec 32) (metadata : Metadata) : PTPObjectInfo :=
  let objectinfo : PTPObjectInfo := { storageId := VITA_STORAGE_ID, parentObject := parenthandle }
  if metadata.dataType &&& DataType.Folder ≠ 0 then
    { objectinfo with
      objectFormat := PTP_OFC_Association
      associationType := PTP_AT_GenericFolder }
  else
    { objectinfo with
      objectFormat :=
        if metadata.dataType &&& DataType.SaveData ≠ 0 then PTP_OFC_PSPSave else PTP_OFC_Undefined
      objectCompressedSize := metadata.size.setWidth 32 }

/-- The handle of the parent and the one of the object. -/
def vitaMtpSendObject (parenthandle : BitVec 32) (metadata : Metadata) (data : List Byte) :
    Checked (BitVec 32 × BitVec 32) :=
  if metadata.dataType &&& DataType.Folder ≠ 0 then do
    let name ← Checked.need metadata.name
    let (_, parenthandle, handle) ← ptpSendobjectinfo conv VITA_STORAGE_ID parenthandle
      (objectInfoOf parenthandle metadata) name
    pure (parenthandle, handle)
  else if metadata.dataType &&& DataType.File ≠ 0 then do
    let name ← Checked.need metadata.name
    let (_, parenthandle, handle) ← ptpSendobjectinfo conv VITA_STORAGE_ID parenthandle
      (objectInfoOf parenthandle metadata) name
    ptpSendobject data (metadata.size.setWidth 32)
    pure (parenthandle, handle)
  else throw PTP_RC_OperationNotSupported

end vitamtp

section reads

variable (conv : Converters)

theorem ptpMtpGetobjectpropvalue_reads (oid : BitVec 32) (opc : BitVec 16)
    (datatype : PtpDatatype) :
    (ptpMtpGetobjectpropvalue conv oid opc datatype).run.Asks Query.Reads :=
  Checked.asks_bind (Checked.asks_query rfl) fun _ => Checked.asks_need _

theorem ptpGetobjecthandles_reads (storage objectformatcode associationOH : BitVec 32) :
    (ptpGetobjecthandles storage objectformatcode associationOH).run.Asks Query.Reads := by
  refine ⟨rfl, fun a => ?_⟩
  change Dialogue.Asks _ (if a.ret = PTP_RC_OK then _ else _)
  split_ifs
  · exact (Dialogue.asks_ofOption _).bind fun _ => trivial
  · trivial
  · trivial

theorem vitaMtpGetObject_reads (handle : BitVec 32) :
    (vitaMtpGetObject conv handle).run.Asks Query.Reads := by
  refine Checked.asks_bind (ptpMtpGetobjectpropvalue_reads conv _ _ _) fun format => ?_
  refine Checked.asks_bind (Checked.asks_need _) fun format => ?_
  refine Checked.asks_bind (ptpMtpGetobjectpropvalue_reads conv _ _ _) fun name => ?_
  refine Checked.asks_bind (Checked.asks_need _) fun name => ?_
  split_ifs
  · exact Checked.asks_bind (ptpGetobjecthandles_reads _ _ _) fun _ => trivial
  · refine Checked.asks_bind (ptpMtpGetobjectpropvalue_reads conv _ _ _) fun size => ?_
    refine Checked.asks_bind (Checked.asks_need _) fun size => ?_
    exact Checked.asks_bind (Checked.asks_bind (Checked.asks_query rfl) fun _ => trivial)
      fun _ => trivial

end reads

end VitaMTP
