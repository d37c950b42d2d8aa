import VitaMTP.Events.Operate

/-! Sending an object and what follows it in the list to the device. -/
namespace VitaMTP

/-- The answer to `VitaMTP_SendObject`: the parent handle it writes back and the handle of the
new object. -/
abbrev SendAnswer := BitVec 32 × BitVec 32

/-- The nodes from the first one sent on, and what was sent. -/
structure Sent where
  nodes : List CmaObject
  msgs : List Message

section handler

variable {σ : Type} (posix : Posix σ)

/-- The handle of the parent, if it is among the nodes that have been sent. -/
def parentHandleOf (sent : List CmaObject) (object : CmaObject) (parentHandle : BitVec 32) :
    BitVec 32 :=
  match sent.find? (fun temp => temp.ohfi == object.ohfiParent) with
  | none => parentHandle
  | some temp => temp.metadata.handle

/-- The file to send; a directory has none. -/
def readObject (fs : Disk σ) (object : CmaObject) : Option (List Byte) :=
  if object.isFile then
    readFileToBuffer posix fs object.path 0 (object.metadata.size.setWidth 32)
  else some []

/-- What `VitaMTP_SendObject` sends, where it supports the object. -/
def sendObjectMessage (parentHandle : BitVec 32) (object : CmaObject) (data : List Byte) :
    Option Message :=
  if object.isFolder then some (.sendObject parentHandle object.metadata [])
  else if object.isFile then
    some (.sendObject parentHandle object.metadata
      (data.take (object.metadata.size.setWidth 32).toNat))
  else none

/-- The loop of `vitaEventSendObject` at `object`; `sent` are the nodes it has passed. -/
def sendNodes (fs : Disk σ) (answers : ℕ → Option SendAnswer) (sent : List CmaObject)
    (parentHandle : BitVec 32) (object : CmaObject) (rest : List CmaObject) : Sent :=
  match readObject posix fs object with
  | none => { nodes := sent ++ object :: rest, msgs := [.reportResult .Not_Exist_Object] }
  | some data =>
    match sendObjectMessage (parentHandleOf sent object parentHandle) object data with
    | none => { nodes := sent ++ object :: rest, msgs := [] }
    | some msg =>
      match answers sent.length with
      | none => { nodes := sent ++ object :: rest, msgs := [msg] }
      | some (parentHandle, handle) =>
        let sent := sent ++ [object.setHandle handle]
        let stop : Sent := { nodes := sent ++ rest
                             msgs := [.reportResultWithParam .OK handle.toNat,
                               .reportResult .Invalid_Data] }
        let continued : Sent := match rest with
          | [] => stop
          | next :: rest =>
            -- get everything under this "folder"
            if OHFI_OFFSET ≤ next.ohfiParent then
              sendNodes fs answers sent parentHandle next rest
            else stop
        { continued with msgs := msg :: continued.msgs }

def vitaEventSendObject (s : Host σ) (event : Event) (answers : ℕ → Option SendAnswer) :
    Host σ × List Message :=
  match ohfiToObject s.db event.param2.toInt with
  | none => (s, [.reportResult .Invalid_OHFI])
  | some (c, object) =>
    let nodes := (s.db.lists c).dropWhile (fun o => o.ohfi ≠ object.ohfi)
    let result := sendNodes posix s.fs answers [] event.param3 object nodes.tail
    let db := s.db.setList c
      ((s.db.lists c).takeWhile (fun o => o.ohfi ≠ object.ohfi) ++ result.nodes)
    ({ s with db := db }, result.msgs)

end handler

end VitaMTP
