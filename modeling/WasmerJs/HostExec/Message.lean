import WasmerJs.Lib.LittleEndian
import WasmerJs.Pipe.Memory

/-! What the workers, the scheduler and the JS handler say to each other about `host_exec` sessions
    (`src/tasks/scheduler.rs`, `src/tasks/scheduler_message.rs`). Words of a fixed width are bit vectors; an `i32` is
    the word of its two's complement. -/

namespace WasmerJs
namespace HostExec

/-- Request ids and session ids are drawn from the same counter, and a session is known by the id of the request
    that started it. -/
abbrev SessionId := BitVec 64

abbrev ChildId := BitVec 64

abbrev ExitCode := BitVec 32

abbrev MsgType := BitVec 32

def MSG_TYPE_STDOUT : MsgType := 1
def MSG_TYPE_STDERR : MsgType := 2
def MSG_TYPE_EXIT : MsgType := 3
def MSG_TYPE_SPAWN_REQUEST : MsgType := 10
def MSG_TYPE_SPAWN_STDIN : MsgType := 11
def MSG_TYPE_SPAWN_CLOSE_STDIN : MsgType := 12
def MSG_TYPE_SPAWN_KILL : MsgType := 13
def MSG_TYPE_CHILD_STDOUT : MsgType := 20
def MSG_TYPE_CHILD_STDERR : MsgType := 21
def MSG_TYPE_CHILD_EXIT : MsgType := 22

def toLeBytes {n : Nat} (v : BitVec (8 * n)) : Bytes := LittleEndian.encode n v.toNat

/-- `i32::from_le_bytes` of the first four bytes. -/
def fromLeBytes (data : Bytes) : BitVec 32 := BitVec.ofNat 32 (LittleEndian.decode (data.take 4))

@[simp] theorem toLeBytes_length {n : Nat} (v : BitVec (8 * n)) : (toLeBytes v).length = n :=
  LittleEndian.encode_length n v.toNat

theorem fromLeBytes_toLeBytes (code : ExitCode) : fromLeBytes (toLeBytes (n := 4) code) = code := by
  have hlt : code.toNat < 256 ^ 4 := code.isLt
  have htake : (toLeBytes (n := 4) code).take 4 = LittleEndian.encode 4 code.toNat :=
    List.take_of_length_le (Nat.le_of_eq (LittleEndian.encode_length ..))
  rw [fromLeBytes, htake, LittleEndian.decode_encode_of_lt hlt, BitVec.ofNat_toNat, BitVec.setWidth_eq]

/-! ### Messages to the scheduler -/

/-- The `host_exec` messages in the scheduler's mailbox; `W` are the worker ids. The request ids that the
    scheduler does not look at are left out. -/
inductive SchedulerMessage (W : Type) where
  | hostExecStart (worker : W) (requestId : SessionId) (requestJson : Bytes)
  | hostExecRead (worker : W) (session : SessionId)
  -- A read that was parked is answered; `requestId` carries the session id.
  | hostExecReadComplete (worker : W) (requestId : SessionId) (msgType : MsgType) (data : Bytes)
  | hostExecWrite (worker : W) (session : SessionId) (data : Bytes)
  | hostExecCloseStdin (worker : W) (session : SessionId)
  | hostExecTryRead (worker : W) (session : SessionId)
  | hostExecPoll (worker : W) (session : SessionId)
  | hostExecSignal (worker : W) (session : SessionId) (signal : BitVec 32)
  | hostExecChildOutput (worker : W) (session : SessionId) (childId : ChildId) (msgType : MsgType) (data : Bytes)
  deriving DecidableEq

namespace SchedulerMessage

variable {W : Type}

def worker : SchedulerMessage W → W
  | hostExecStart w _ _ | hostExecRead w _ | hostExecReadComplete w _ _ _ | hostExecWrite w _ _
  | hostExecCloseStdin w _ | hostExecTryRead w _ | hostExecPoll w _ | hostExecSignal w _ _
  | hostExecChildOutput w _ _ _ _ => w

/-- The session whose entries the scheduler looks up. For the output of a child that is none: the scheduler goes
    by the child id alone. -/
def session? : SchedulerMessage W → Option SessionId
  | hostExecStart _ s _ | hostExecRead _ s | hostExecReadComplete _ s _ _ | hostExecWrite _ s _
  | hostExecCloseStdin _ s | hostExecTryRead _ s | hostExecPoll _ s | hostExecSignal _ s _ => some s
  | hostExecChildOutput .. => none

def isStart : SchedulerMessage W → Bool
  | hostExecStart .. => true
  | _ => false

/-- The messages that the scheduler sends to itself. -/
def isComplete : SchedulerMessage W → Bool
  | hostExecReadComplete .. => true
  | _ => false

/-- The requests that are answered with output or with the exit code. -/
def isRead : SchedulerMessage W → Bool
  | hostExecRead .. | hostExecTryRead .. => true
  | _ => false

/-- The request that is parked when there is nothing to answer it with. -/
def isBlockingRead : SchedulerMessage W → Bool
  | hostExecRead .. => true
  | _ => false

end SchedulerMessage

/-! ### The handler -/

inductive HandlerResult where
  | promise
  | notPromise
  | threw (error : String)
  deriving DecidableEq

inductive Settlement where
  | resolved (code : ExitCode)
  | rejected
  deriving DecidableEq

def Settlement.code : Settlement → ExitCode
  | resolved code => code
  | rejected => 1

/-- The functions of the context object, called with arguments of the types that they accept; `F` are the JS
    functions. `requestSpawn` comes with the JSON text that is built from its arguments. -/
inductive Callback (F : Type) where
  | onStdout (data : Bytes)
  | onStderr (data : Bytes)
  | setStdinWriter (writer closer : F)
  | setKillFunction (kill : F)
  | requestSpawn (childId : ChildId) (handlers : Option (F × F × F)) (json : Bytes)
  | spawnWriteStdin (childId : ChildId) (data : Bytes)
  | spawnCloseStdin (childId : ChildId)
  | spawnKill (childId : ChildId) (signal : BitVec 32)
  | setChildOutputHandlers (handlers : F × F × F)
  deriving DecidableEq

/-- The message for the session's reader that a callback produces. -/
def Callback.message {F : Type} : Callback F → Option (MsgType × Bytes)
  | onStdout data => some (MSG_TYPE_STDOUT, data)
  | onStderr data => some (MSG_TYPE_STDERR, data)
  | requestSpawn _ _ json => some (MSG_TYPE_SPAWN_REQUEST, json)
  | spawnWriteStdin childId data => some (MSG_TYPE_SPAWN_STDIN, toLeBytes (n := 8) childId ++ data)
  | spawnCloseStdin childId => some (MSG_TYPE_SPAWN_CLOSE_STDIN, toLeBytes (n := 8) childId)
  | spawnKill childId signal =>
    some (MSG_TYPE_SPAWN_KILL, toLeBytes (n := 8) childId ++ toLeBytes (n := 4) signal)
  | setStdinWriter .. | setKillFunction _ | setChildOutputHandlers _ => none

/-- No callback produces an exit message. -/
theorem Callback.message_ne_exit {F : Type} {c : Callback F} {m : MsgType × Bytes} (h : c.message = some m) :
    m.1 ≠ MSG_TYPE_EXIT := by
  cases c <;> cases h <;> dsimp only <;> decide

/-! ### Effects -/

inductive Arg where
  | none
  | bytes (data : Bytes)
  | number (n : BitVec 32)
  deriving DecidableEq

/-- What the scheduler does for a message, apart from its own state: it answers a worker, or calls a JS function. -/
inductive Effect (W F : Type) where
  | startResponse (worker : W) (requestId : SessionId) (result : Except String SessionId)
  -- `send_host_exec_read_response`
  | readResponse (worker : W) (session : SessionId) (msgType : MsgType) (dataOrExitCode : BitVec 32)
      (data : Option Bytes)
  -- `send_host_exec_try_read_no_data`
  | noData (worker : W) (session : SessionId)
  -- `send_host_exec_poll_response`
  | pollResponse (worker : W) (session : SessionId) (isReady : Bool)
  | call (f : F) (arg : Arg)
  deriving DecidableEq

end HostExec
end WasmerJs
