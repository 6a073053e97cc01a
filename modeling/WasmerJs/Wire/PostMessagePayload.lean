import WasmerJs.Wire.SchedulerMessage

/-! The messages that the scheduler sends to a worker (`src/tasks/post_message_payload.rs`). -/

namespace WasmerJs
namespace Wire

variable {P : Platform}

inductive AsyncJob (P : Platform) where
  | thunk (task : P.AsyncTask)

inductive BlockingJob (P : Platform) where
  | thunk (task : P.BlockingTask)
  | spawnWithModule (module : P.Module) (task : P.BlockingModuleTask)
  | spawnWithModuleAndMemory (module : P.Module) (memory : Option P.Memory) (spawnWasm : SpawnWasm P)
      (subprocessStdio : Option SubprocessStdioBuffers) (forkPipes : Option ForkPipeBuffers)

inductive Notification (P : Platform) where
  | cacheModule (hash : P.ModuleHash) (module : P.Module)

inductive PostMessagePayload (P : Platform) where
  | async (job : AsyncJob P)
  | blocking (job : BlockingJob P)
  | notification (n : Notification P)
  | hostExecStartResponse (requestId : BitVec 64) (result : Except String (BitVec 64))
  | hostExecReadResponse (requestId : BitVec 64) (result : Except String (BitVec 32 × Bytes))

namespace PostMessagePayload

/-! ### Constants -/

@[match_pattern] def TYPE_SPAWN_ASYNC : String := "spawn-async"
@[match_pattern] def TYPE_SPAWN_BLOCKING : String := "spawn-blocking"
@[match_pattern] def TYPE_CACHE_MODULE : String := "cache-module"
@[match_pattern] def TYPE_SPAWN_WITH_MODULE : String := "spawn-with-module"
@[match_pattern] def TYPE_SPAWN_WITH_MODULE_AND_MEMORY : String := "spawn-with-module-and-memory"
@[match_pattern] def TYPE_HOST_EXEC_START_RESPONSE : String := "host-exec-start-response"
@[match_pattern] def TYPE_HOST_EXEC_READ_RESPONSE : String := "host-exec-read-response"

def PTR : String := "ptr"
def MODULE : String := "module"
def MEMORY : String := "memory"
def MODULE_HASH : String := "module-hash"
def REQUEST_ID : String := "request-id"
def SESSION_ID : String := "session-id"
def ERROR : String := "error"
def MSG_TYPE : String := "msg-type"
def DATA : String := "data"
def SUBPROCESS_STDIN_OFFSET : String := "subprocess-stdin-offset"
def SUBPROCESS_STDIN_SIZE : String := "subprocess-stdin-size"
def SUBPROCESS_STDOUT_OFFSET : String := "subprocess-stdout-offset"
def SUBPROCESS_STDOUT_SIZE : String := "subprocess-stdout-size"
def SUBPROCESS_STDERR_OFFSET : String := "subprocess-stderr-offset"
def SUBPROCESS_STDERR_SIZE : String := "subprocess-stderr-size"
def FORK_PIPE_COUNT : String := "fork-pipe-count"
def FORK_PIPE_FD_PREFIX : String := "fork-pipe-fd-"
def FORK_PIPE_IS_TX_PREFIX : String := "fork-pipe-is-tx-"
def FORK_PIPE_OFFSET_PREFIX : String := "fork-pipe-offset-"
def FORK_PIPE_SIZE_PREFIX : String := "fork-pipe-size-"

def forkPipeKeys : ForkPipeKeys where
  count := FORK_PIPE_COUNT
  stem
    | .fd => FORK_PIPE_FD_PREFIX
    | .isTx => FORK_PIPE_IS_TX_PREFIX
    | .offset => FORK_PIPE_OFFSET_PREFIX
    | .size => FORK_PIPE_SIZE_PREFIX
  count_trailing := by decide
  stem_trailing f := by cases f <;> decide
  stem_injective f g h := by cases f <;> cases g <;> first | rfl | exact absurd h (by decide)

/-! ### Writing -/

section Read

variable (b : Bindings P) (de : Deserializer P)

/-- Stdio is set up if all six numbers are there. -/
def readSubprocessStdio : Option SubprocessStdioBuffers := do
  let stdinOffset ← (de.serde SUBPROCESS_STDIN_OFFSET b.fromValueU32).toOption
  let stdinSize ← (de.serde SUBPROCESS_STDIN_SIZE b.fromValueU32).toOption
  let stdoutOffset ← (de.serde SUBPROCESS_STDOUT_OFFSET b.fromValueU32).toOption
  let stdoutSize ← (de.serde SUBPROCESS_STDOUT_SIZE b.fromValueU32).toOption
  let stderrOffset ← (de.serde SUBPROCESS_STDERR_OFFSET b.fromValueU32).toOption
  let stderrSize ← (de.serde SUBPROCESS_STDERR_SIZE b.fromValueU32).toOption
  return { stdinOffset, stdinSize, stdoutOffset, stdoutSize, stderrOffset, stderrSize }

/-- A session was started if its id is there. -/
def readStartResult : Except Failure (Except String (BitVec 64)) :=
  match de.serde SESSION_ID b.fromValueU64 with
  | .ok sessionId => return .ok sessionId
  | .error _ => do
    let error ← de.serde ERROR b.fromValueString
    return .error error

/-- Something was read if the type of the message is there. -/
def readReadResult : Except Failure (Except String (BitVec 32 × Bytes)) :=
  match de.serde MSG_TYPE b.fromValueU32 with
  | .ok msgType => do
    let data ← de.uint8Array DATA
    return .ok (msgType, data)
  | .error _ => do
    let error ← de.serde ERROR b.fromValueString
    return .error error

/-- `try_from_js` after it has read the type of the message. -/
def readAs (ty : String) : Unbox P (PostMessagePayload P) := do
  match ty with
  | TYPE_SPAWN_ASYNC =>
    let task ← de.boxed PTR Boxed.asyncTask?
    return async (.thunk task)
  | TYPE_SPAWN_BLOCKING =>
    let task ← de.boxed PTR Boxed.blockingTask?
    return blocking (.thunk task)
  | TYPE_CACHE_MODULE =>
    let module ← de.module MODULE
    let hash ← de.moduleHash b MODULE_HASH
    return notification (.cacheModule hash module)
  | TYPE_SPAWN_WITH_MODULE =>
    let task ← de.boxed PTR Boxed.blockingModuleTask?
    let module ← de.module MODULE
    return blocking (.spawnWithModule module task)
  | TYPE_SPAWN_WITH_MODULE_AND_MEMORY =>
    let module ← de.module MODULE
    let memory := (de.memory MEMORY).toOption
    let spawnWasm ← de.boxed PTR Boxed.spawnWasm?
    let subprocessStdio := readSubprocessStdio b de
    let forkPipes ← readForkPipes b forkPipeKeys de
    return blocking (.spawnWithModuleAndMemory module memory spawnWasm subprocessStdio forkPipes)
  | TYPE_HOST_EXEC_START_RESPONSE =>
    let requestId ← de.serde REQUEST_ID b.fromValueU64
    let result ← readStartResult b de
    return hostExecStartResponse requestId result
  | TYPE_HOST_EXEC_READ_RESPONSE =>
    let requestId ← de.serde REQUEST_ID b.fromValueU64
    let result ← readReadResult b de
    return hostExecReadResponse requestId result
  | other => throw (.error ("Unknown message type: " ++ other))

end Read

def tryFromJs (b : Bindings P) (value : JsValue P) : Unbox P (PostMessagePayload P) := do
  let de : Deserializer P := value
  let ty ← de.ty
  readAs b de ty

/-! ### Round trip -/

/-- The part of a message that is only for debugging is lost. -/
def forgetDebug : PostMessagePayload P → PostMessagePayload P
  | blocking (.spawnWithModuleAndMemory module memory spawnWasm subprocessStdio forkPipes) =>
    blocking (.spawnWithModuleAndMemory module memory spawnWasm subprocessStdio
      (forkPipes.map ForkPipeBuffers.forgetDebug))
  | p => p

variable {b : Bindings P} {heap : Heap P} {ptr : Address}

section Result

variable {obj : String → JsValue P} {error : String}

end Result

end PostMessagePayload
end Wire
end WasmerJs
