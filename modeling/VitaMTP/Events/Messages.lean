import VitaMTP.Listing.Xml
import VitaMTP.Events.Posix

/-! What the device asks for and what the host sends back. -/
namespace VitaMTP

/-- The parameters of a `vita_event_t` that the handlers read. -/
structure Event where
  param2 : BitVec 32
  param3 : BitVec 32 := 0
  deriving DecidableEq, Repr

inductive ResultCode
  | OK
  | Invalid_Context
  | Not_Ready
  | Invalid_OHFI
  | Invalid_Data
  | Not_Exist_Object
  | Invalid_Permission
  | Failed_Download
  | Failed_Operate_Object
  | Same_Object
  | Different_Object
  deriving DecidableEq, Repr

/-- A transaction the host starts. Where the reply is built byte by byte, it is the bytes. -/
inductive Message
  | sendNumOfObject (num : ℕ)
  | sendObjectMetadata (elements : List Element)
  | sendObject (parentHandle : BitVec 32) (object : Metadata) (data : List Byte)
  | sendObjectThumb (elements : List Element) (data : List Byte)
  | sendPartOfObject (reply : List Byte)
  | sendHttpObjectFromURL (reply : List Byte)
  | sendHttpObjectPropFromURL (reply : List Byte)
  | sendStorageSize (total free : ULong)
  | sendCopyConfirmationInfo (reply : List Byte)
  | reportResult (code : ResultCode)
  | reportResultWithParam (code : ResultCode) (param : ℤ)
  deriving DecidableEq, Repr

end VitaMTP
