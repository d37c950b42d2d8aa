import VitaMTP.Library.Runs
import VitaMTP.Wireless.Scanf

/-! `VitaMTP_Get_Wireless_Device`: the requests by which a device pairs with the host. -/
namespace VitaMTP

/-- The fields of `vita_device_t` that pairing writes. -/
structure WirelessDevice where
  guid : CString := []
  dataPort : ℤ := 0
  registered : Bool := false
  addr : BitVec 32 := 0
  deriving DecidableEq, Repr

inductive Response
  | ok200
  | ok210
  | ng605
  | ng610
  | registerCancel (errorcode : ℤ)
  deriving DecidableEq, Repr

inductive Request
  | connect (deviceid : CString)
  | showPin (deviceid : CString)
  | register (deviceid : CString)
  deriving DecidableEq, Repr

/-- What happens in a call, in order. -/
inductive LogEntry
  | isRegistered (deviceid : CString) (answer : Bool)
  | createRegisterPin (deviceid : CString) (pin : ℤ)
  | answered (request : Request) (response : Response)
  deriving DecidableEq, Repr

/-- Where the call is: it waits for a client or for its next request, or it has left the
loop. -/
inductive Phase
  | accepting
  | connected (client : BitVec 32)
  | finished
  deriving DecidableEq, Repr

/-- The variables of the call. `bytesRead` is the variable `read`, unset at first. -/
structure Pairing where
  device : WirelessDevice := {}
  pin : ℤ := -1
  bytesRead : Option ℕ := none
  listen : Bool := true
  phase : Phase := .accepting
  log : List LogEntry := []
  deriving DecidableEq, Repr

/-- How the callbacks and the socket react to a request, as far as it uses them. -/
structure Reaction where
  isRegistered : Bool
  createRegisterPin : ℤ
  errorcode : ℤ
  okaySent : Bool
  respSent : Bool
  deriving DecidableEq, Repr

inductive Input
  | selectFailed
  | timedOut
  | acceptFailed
  | accepted (client : BitVec 32)
  | readFailed
  | closed
  | received (data : List Char) (reaction : Reaction)
  deriving DecidableEq, Repr

/-- `"%20s * HTTP/1.1\r\n%n"`. -/
def requestFormat : List Directive := .str 20 :: formatText " * HTTP/1.1\r\n" ++ [.count]

/-- `"device-id:%32s\r\ndevice-port:%d\r\n"`. -/
def connectFormat : List Directive :=
  formatText "device-id:" ++ [.str 32] ++ formatText "\r\ndevice-port:" ++ [.int] ++
    formatText "\r\n"

/-- The line of a `CONNECT`; the id is stored even when the port cannot be read. -/
inductive ConnectLine
  | full (deviceid : CString) (dataPort : ℤ)
  | noPort (deviceid : CString)
  | malformed
  deriving DecidableEq, Repr

def parseConnect (headers : CString) : ConnectLine :=
  match sscanf connectFormat headers 0 with
  | [.str deviceid, .int dataPort] => .full deviceid dataPort
  | .str deviceid :: _ => .noPort deviceid
  | _ => .malformed

/-- The port as the line of a `CONNECT` writes it. -/
def writtenPort (headers : CString) : Option ℤ :=
  match sscanf (formatText "device-id:" ++ [.str 32] ++ formatText "\r\ndevice-port:" ++ [.count])
    headers 0 with
  | [.str _, .count n] => writtenNumber (headers.drop n)
  | _ => none

inductive Method
  | connect
  | showPin
  | register
  | standby
  | other -- no response needed
  deriving DecidableEq, Repr

/-- The comparisons of `method`, in order. -/
def Method.ofString (method : CString) : Method :=
  if method = "CONNECT".toList then connect
  else if method = "SHOWPIN".toList then showPin
  else if method = "REGISTER".toList then register
  else if method = "STANDBY".toList then standby
  else other

/-- A request after the first line is read. `headers` is `data+read`, if `read` is set and
in the request. -/
structure RequestLine where
  method : Method
  bytesRead : Option ℕ
  headers : Option CString
  deriving DecidableEq, Repr

/-- The request line, or `some none` for a malformed one. `none` where a string function
leaves a buffer: there is no terminator in the request, or the method leaves no room for
its own. -/
def readRequest (bytesRead : Option ℕ) (data : List Char) : Option (Option RequestLine) := do
  let data ← cString data
  match sscanf requestFormat data 0 with
  | .str method :: rest =>
    if method.length = 20 then none
    else
      let bytesRead := match rest with
        | [.count n] => some n
        | _ => bytesRead
      some (some { method := .ofString method
                   bytesRead
                   headers := (bytesRead.filter (· ≤ data.length)).map data.drop })
  | _ => some none

namespace Pairing

/-- `listen = 0; break`. -/
def stop (s : Pairing) : Pairing := { s with listen := false, phase := .finished }

def note (s : Pairing) (entry : LogEntry) : Pairing := { s with log := s.log ++ [entry] }

def setGuid (s : Pairing) (guid : CString) : Pairing :=
  { s with device := { s.device with guid := guid } }

/-- Sends the response at the end of a round. -/
def respond (s : Pairing) (request : Request) (response : Response) (a : Reaction) : Pairing :=
  let s := s.note (.answered request response)
  if a.respSent then s else s.stop

def connect (s : Pairing) (headers : CString) (a : Reaction) : Pairing :=
  match parseConnect headers with
  | .full guid dataPort =>
    let s := { s with device := { s.device with guid := guid, dataPort := dataPort } }
    if s.device.registered then s.respond (.connect guid) .ok210 a
    else (s.note (.isRegistered guid a.isRegistered)).respond (.connect guid)
      (if a.isRegistered then .ok210 else .ng605) a
  | .noPort guid => (s.setGuid guid).stop
  | .malformed => s.stop

def showPin (s : Pairing) (headers : CString) (a : Reaction) : Option Pairing := do
  let deviceid ← (parseDeviceHeaders headers).deviceid
  let s := s.setGuid (deviceid.take 32)
  if a.okaySent then
    let s := { s.note (.createRegisterPin deviceid a.createRegisterPin) with
      pin := a.createRegisterPin }
    some (if a.createRegisterPin < 0 then
      s.respond (.showPin deviceid) (.registerCancel a.errorcode) a else s)
  else some s.stop

def register (s : Pairing) (headers : CString) (a : Reaction) : Option Pairing := do
  let info := parseDeviceHeaders headers
  let deviceid ← info.deviceid
  if s.device.guid ≠ deviceid then some (s.respond (.register deviceid) .ng610 a)
  else if s.pin < 0 then some (s.respond (.register deviceid) .ng610 a)
  else do
    let pinTry ← info.pin
    if s.pin ≠ atoi pinTry then some (s.respond (.register deviceid) .ng610 a)
    else
      some ({ s with device := { s.device with registered := true } }.respond
        (.register deviceid) .ok200 a)

/-- One request of a client. `none` also where `data+read` is not in the request. -/
def request (s : Pairing) (client : BitVec 32) (data : List Char) (a : Reaction) :
    Option Pairing := do
  match ← readRequest s.bytesRead data with
  | none => some s.stop
  | some r =>
    let s := { s with bytesRead := r.bytesRead }
    match r.method with
    | .connect => r.headers.map fun headers => s.connect headers a
    | .showPin => r.headers.bind fun headers => s.showPin headers a
    | .register => r.headers.bind fun headers => s.register headers a
    | .standby => some { s with listen := false, device := { s.device with addr := client } }
    | .other => some s

/-- One step of the loops. `none` also where the input does not fit the phase. -/
def step (s : Pairing) (input : Input) : Option Pairing :=
  match s.phase, input with
  | .accepting, .selectFailed => some { s with phase := .finished }
  | .accepting, .timedOut => some { s with phase := .finished }
  | .accepting, .acceptFailed => some { s with phase := .finished }
  | .accepting, .accepted client => some { s with phase := .connected client }
  | .connected _, .readFailed => some s.stop
  | .connected _, .closed =>
    some { s with pin := -1, phase := if s.listen then .accepting else .finished }
  | .connected client, .received data a => s.request client data a
  | _, _ => none

/-- The device that the call hands to `VitaMTP_Data_Connect`. -/
def dataConnect (s : Pairing) : Option WirelessDevice :=
  if s.phase = .finished ∧ s.device.addr ≠ 0 then some s.device else none

end Pairing

end VitaMTP
