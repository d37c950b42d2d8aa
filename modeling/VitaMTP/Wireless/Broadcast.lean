import VitaMTP.Wireless.SockRead

/-! `VitaMTP_Broadcast_Host`, the datagrams that it answers, and `VitaMTP_Stop_Broadcast`, each
system call a step of its own. -/
namespace VitaMTP

/-- The fields of `wireless_host_info_t`. -/
structure WirelessHostInfo where
  guid : CString
  type : CString
  name : CString
  port : ℤ
  deriving DecidableEq, Repr

def VITAMTP_PROTOCOL_MAX_VERSION : ℕ := 1500010

def VITAMTP_WIRELESS_MAX_VERSION : ℕ := 1000000

/-- `%08d` of a number that is not negative. -/
def padded (n : ℕ) : CString :=
  let digits := (toString n).toList
  List.replicate (8 - digits.length) '0' ++ digits

def hostResponse (info : WirelessHostInfo) : CString :=
  "HTTP/1.1 200 OK\r\nhost-id:".toList ++ info.guid ++ "\r\nhost-type:".toList ++ info.type ++
    "\r\nhost-name:".toList ++ info.name ++ "\r\nhost-mtp-protocol-version:".toList ++
    padded VITAMTP_PROTOCOL_MAX_VERSION ++ "\r\nhost-request-port:".toList ++
    (toString info.port).toList ++ "\r\nhost-wireless-protocol-version:".toList ++
    padded VITAMTP_WIRELESS_MAX_VERSION ++ "\r\n".toList

def searchText : CString := "SRCH * HTTP/1.1\r\n".toList

/-- A datagram that fits the buffer and ends with a terminator. -/
structure Datagram where
  data : List Char
  sender : BitVec 32
  fits : data.length ≤ 100
  terminated : data.getLast? = some '\x00'
  deriving DecidableEq, Repr

/-- A pair of command sockets: the commands that wait at the reading end, and whether the
ends are open. -/
structure CommandPair where
  commands : ℕ := 0
  readerOpen : Bool := true
  writerOpen : Bool := true
  deriving DecidableEq, Repr

namespace CommandPair

/-- The reading end is ready. The sockets are `SOCK_DGRAM`, where a peer that is closed wakes
nobody. -/
def Ready (p : CommandPair) : Prop := 0 < p.commands

instance (p : CommandPair) : Decidable p.Ready := inferInstanceAs (Decidable (_ < _))

/-- A command reaches the reading end while both ends are open. -/
def command (p : CommandPair) : CommandPair :=
  if p.readerOpen ∧ p.writerOpen then { p with commands := p.commands + 1 } else p

end CommandPair

/-- `g_broadcast_command_fds`: the pair whose end a descriptor is, `none` for -1. -/
structure CommandFds where
  reader : Option ℕ := none
  writer : Option ℕ := none
  deriving DecidableEq, Repr

/-- Where the thread of the broadcast is. -/
inductive BroadcastPhase
  | returned
  | starting
  | bound
  | unpaired
  | selecting
  | reading (data : List Char) (src : Option (BitVec 32))
  | handling (data : List Char) (src : Option (BitVec 32))
  deriving DecidableEq, Repr

/-- Where the call of `VitaMTP_Stop_Broadcast` is. -/
inductive StopPhase
  | returned
  | checked
  | sent
  | closed
  deriving DecidableEq, Repr

/-- The shared state of the two threads. Of the datagrams that `arrived` since the broadcast was
started it has `received` some, and the others wait in the `queue` of its socket; `stopped` tells
that a call to stop it has returned. -/
structure Broadcast where
  phase : BroadcastPhase := .returned
  stopPhase : StopPhase := .returned
  fds : CommandFds := {}
  pairs : List CommandPair := []
  arrived : List Datagram := []
  queue : List Datagram := []
  received : List Datagram := []
  replies : List (CString × BitVec 32) := []
  stopped : Bool := false
  deriving DecidableEq, Repr

inductive BroadcastInput
  | start
  | bind (ok : Bool)
  | closeOld
  | socketpair (ok : Bool)
  | select (ok : Bool)
  | recv (ok : Bool)
  | handle (sent : Bool)
  | arrive (d : Datagram)
  | stopCheck
  | stopSend (ok : Bool)
  | stopClose
  | stopClear
  deriving DecidableEq, Repr

namespace Broadcast

def modifyPair (s : Broadcast) (pair : Option ℕ) (f : CommandPair → CommandPair) : Broadcast :=
  match pair with
  | some k => { s with pairs := s.pairs.modify k f }
  | none => s

def closeReader (s : Broadcast) : Broadcast :=
  s.modifyPair s.fds.reader fun p => { p with readerOpen := false }

def closeWriter (s : Broadcast) : Broadcast :=
  s.modifyPair s.fds.writer fun p => { p with writerOpen := false }

/-- The end of the loop. The writing end stays open. -/
def finish (s : Broadcast) : Broadcast :=
  { s.closeReader with
    phase := .returned, queue := [], fds := { s.fds with reader := none } }

/-- The return from a failed read or write. -/
def fail (s : Broadcast) : Broadcast :=
  { s.closeReader.closeWriter with phase := .returned, queue := [], fds := {} }

/-- What `recvfrom` gives now. -/
def recvResult (s : Broadcast) (ok : Bool) : Recv (BitVec 32) :=
  if ok then
    match s.queue with
    | [] => .wouldBlock
    | d :: _ => .bytes d.data d.sender
  else .failed

/-! The start-up of `VitaMTP_Broadcast_Host`. -/

/-- The thread is created, as long as none is running or being stopped. -/
def start (s : Broadcast) : Option Broadcast :=
  if s.phase = .returned ∧ s.stopPhase = .returned then
    some { s with
      phase := .starting, arrived := [], queue := [], received := [], replies := []
      stopped := false }
  else none

def bind (s : Broadcast) (ok : Bool) : Option Broadcast :=
  if s.phase = .starting then some { s with phase := if ok then .bound else .returned } else none

-- in case a previous broadcast went wrong
def closeOld (s : Broadcast) : Option Broadcast :=
  if s.phase = .bound then some { s.closeWriter with phase := .unpaired } else none

/-- The loop is entered also when there is no pair. -/
def socketpair (s : Broadcast) (ok : Bool) : Option Broadcast :=
  if s.phase = .unpaired then
    some (if ok then
      { s with
        phase := .selecting
        fds := { reader := some s.pairs.length, writer := some s.pairs.length }
        pairs := s.pairs ++ [{}] }
    else { s with phase := .selecting })
  else none

/-! Its loop. `none` stands also for a call that blocks, and for what is undefined: a `FD_SET` of
-1, and a string without terminator. -/

def select (s : Broadcast) (ok : Bool) : Option Broadcast :=
  if s.phase = .selecting then
    if ok then do
      let p ← s.pairs[← s.fds.reader]?
      if p.Ready then some s.finish
      else if s.queue = [] then none
      else some { s with phase := .reading [] none }
    else some s.finish
  else none

def recv (s : Broadcast) (ok : Bool) : Option Broadcast :=
  match s.phase with
  | .reading data src =>
    let r := s.recvResult ok
    if data = [] ∧ r = .wouldBlock then none
    else
      let s' := { s with received := s.received ++ s.queue.take 1, queue := s.queue.tail }
      match readRound data src r with
      | .more data src => some { s' with phase := .reading data src }
      | .returned data src => some { s' with phase := .handling data src }
      | .failed => some s.fail
  | _ => none

def handle (info : WirelessHostInfo) (s : Broadcast) (sent : Bool) : Option Broadcast :=
  match s.phase with
  | .handling data src =>
    if data = [] then some { s with phase := .selecting }
    else do
      let text ← cString data
      if text ≠ searchText then some { s with phase := .selecting }
      else if sent then do
        let src ← src
        some { s with phase := .selecting, replies := s.replies ++ [(hostResponse info, src)] }
      else some s.fail
  | _ => none

/-- A datagram reaches the socket once it is bound. -/
def arrive (s : Broadcast) (d : Datagram) : Option Broadcast :=
  if s.phase = .returned ∨ s.phase = .starting then none
  else some { s with arrived := s.arrived ++ [d], queue := s.queue ++ [d] }

/-! `VitaMTP_Stop_Broadcast`. -/

def stopCheck (s : Broadcast) : Option Broadcast :=
  if s.stopPhase = .returned then
    some (if s.fds.writer = none then { s with stopped := true }
    else { s with stopPhase := .checked })
  else none

def stopSend (s : Broadcast) (ok : Bool) : Option Broadcast :=
  if s.stopPhase = .checked then
    some (if ok then
      { s.modifyPair s.fds.writer CommandPair.command with stopPhase := .sent }
    else { s with stopPhase := .sent })
  else none

def stopClose (s : Broadcast) : Option Broadcast :=
  if s.stopPhase = .sent then some { s.closeWriter with stopPhase := .closed } else none

def stopClear (s : Broadcast) : Option Broadcast :=
  if s.stopPhase = .closed then
    some { s with stopPhase := .returned, fds := { s.fds with writer := none }, stopped := true }
  else none

def step (info : WirelessHostInfo) (s : Broadcast) : BroadcastInput → Option Broadcast
  | .start => s.start
  | .bind ok => s.bind ok
  | .closeOld => s.closeOld
  | .socketpair ok => s.socketpair ok
  | .select ok => s.select ok
  | .recv ok => s.recv ok
  | .handle sent => s.handle info sent
  | .arrive d => s.arrive d
  | .stopCheck => s.stopCheck
  | .stopSend ok => s.stopSend ok
  | .stopClose => s.stopClose
  | .stopClear => s.stopClear

end Broadcast

end VitaMTP
