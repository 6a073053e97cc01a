import WasmerJs.Wire.ForkPipes

/-! The messages that a worker emits for the scheduler (`src/tasks/scheduler_message.rs`,
    `src/tasks/worker_message.rs`), and how the message for a WebAssembly task is built (`src/tasks/task_wasm.rs`). -/

namespace WasmerJs
namespace Wire

variable {P : Platform}

structure SubprocessStdioBuffers where
  stdinOffset : BitVec 32
  stdinSize : BitVec 32
  stdoutOffset : BitVec 32
  stdoutSize : BitVec 32
  stderrOffset : BitVec 32
  stderrSize : BitVec 32
  deriving DecidableEq

inductive SchedulerMessage (P : Platform) where
  | close
  | spawnAsync (task : P.AsyncTask)
  | spawnBlocking (task : P.BlockingTask)
  | workerIdle (workerId : BitVec 32)
  | workerBusy (workerId : BitVec 32)
  | hostExecStart (workerId : BitVec 32) (requestId : BitVec 64) (requestJson : Bytes)
  | hostExecRead (workerId : BitVec 32) (requestId sessionId : BitVec 64)
  | hostExecWrite (workerId : BitVec 32) (requestId sessionId : BitVec 64) (data : Bytes)
  | hostExecCloseStdin (workerId : BitVec 32) (requestId sessionId : BitVec 64)
  | hostExecTryRead (workerId : BitVec 32) (requestId sessionId : BitVec 64)
  | hostExecPoll (workerId : BitVec 32) (requestId sessionId : BitVec 64)
  | hostExecSignal (workerId : BitVec 32) (requestId sessionId : BitVec 64) (signal : BitVec 32)
  | hostExecChildOutput (workerId : BitVec 32) (requestId sessionId childId : BitVec 64) (msgType : BitVec 32)
      (data : Bytes)
  | hostExecReadComplete (workerId : BitVec 32) (requestId : BitVec 64) (msgType : BitVec 32) (data : Bytes)
  | cacheModule (hash : P.ModuleHash) (module : P.Module)
  | spawnWithModule (module : P.Module) (task : P.BlockingModuleTask)
  | spawnWithModuleAndMemory (module : P.Module) (memory : Option (Memory P)) (spawnWasm : SpawnWasm P)
      (subprocessStdio : Option SubprocessStdioBuffers) (forkPipes : Option ForkPipeBuffers)

namespace SchedulerMessage

/-! ### Constants -/

@[match_pattern] def TYPE_SPAWN_ASYNC : String := "spawn-async"
@[match_pattern] def TYPE_SPAWN_BLOCKING : String := "spawn-blocking"
@[match_pattern] def TYPE_WORKER_IDLE : String := "worker-idle"
@[match_pattern] def TYPE_WORKER_BUSY : String := "worker-busy"
@[match_pattern] def TYPE_CACHE_MODULE : String := "cache-module"
@[match_pattern] def TYPE_SPAWN_WITH_MODULE : String := "spawn-with-module"
@[match_pattern] def TYPE_SPAWN_WITH_MODULE_AND_MEMORY : String := "spawn-with-module-and-memory"
@[match_pattern] def TYPE_HOST_EXEC_START : String := "host-exec-start"
@[match_pattern] def TYPE_HOST_EXEC_READ : String := "host-exec-read"
@[match_pattern] def TYPE_HOST_EXEC_WRITE : String := "host-exec-write"
@[match_pattern] def TYPE_HOST_EXEC_CLOSE_STDIN : String := "host-exec-close-stdin"
@[match_pattern] def TYPE_HOST_EXEC_TRY_READ : String := "host-exec-try-read"
@[match_pattern] def TYPE_HOST_EXEC_POLL : String := "host-exec-poll"
@[match_pattern] def TYPE_HOST_EXEC_SIGNAL : String := "host-exec-signal"
@[match_pattern] def TYPE_HOST_EXEC_CHILD_OUTPUT : String := "host-exec-child-output"

def MEMORY : String := "memory"
def MODULE_HASH : String := "module-hash"
def MODULE : String := "module"
def PTR : String := "ptr"
def WORKER_ID : String := "worker-id"
def REQUEST_ID : String := "request-id"
def REQUEST_JSON : String := "request-json"
def SESSION_ID : String := "session-id"
def DATA : String := "data"
def SIGNAL : String := "signal"
def CHILD_ID : String := "child-id"
def MSG_TYPE : String := "msg-type"
def FORK_PIPE_COUNT : String := "fork-pipe-count"
def FORK_PIPE_FD_PREFIX : String := "fork-pipe-fd-"
def FORK_PIPE_IS_TX_PREFIX : String := "fork-pipe-is-tx-"
def FORK_PIPE_OFFSET_PREFIX : String := "fork-pipe-offset-"
def FORK_PIPE_SIZE_PREFIX : String := "fork-pipe-size-"

def forkPipeKeys : ForkPipeKeys where
  count := FORK_PIPE_COUNT
  stem
    | .fd => FORK_PIPE_FD_PREFIX
    | .isTx => FORK_PIPE_IS_TX_PREFIX
    | .offset => FORK_PIPE_OFFSET_PREFIX
    | .size => FORK_PIPE_SIZE_PREFIX
  count_trailing := by decide
  stem_trailing f := by cases f <;> decide
  stem_injective f g h := by cases f <;> cases g <;> first | rfl | exact absurd h (by decide)

/-! ### Writing -/

/-- The fields that all messages about a session begin with. -/
def readSession (b : Bindings P) (de : Deserializer P) :
    Except Failure (BitVec 32 × BitVec 64 × BitVec 64) := do
  let workerId ← de.serde WORKER_ID b.fromValueU32
  let requestId ← de.serde REQUEST_ID b.fromValueU64
  let sessionId ← de.serde SESSION_ID b.fromValueU64
  return (workerId, requestId, sessionId)

/-- The memory is looked for if the task shares it. -/
def readMemory (b : Bindings P) (de : Deserializer P) (spawnWasm : SpawnWasm P) :
    Except Failure (Option (Memory P)) :=
  match spawnWasm.runType.sharedMemoryType with
  | some ty => do
    let memory ← de.js MEMORY "wasm_bindgen::JsValue" some
    return (b.memoryFromJsvalue ty memory).toOption
  | none => return none

/-- `try_from_js` after it has read the type of the message. -/
def readAs (b : Bindings P) (de : Deserializer P) (ty : String) : Unbox P (SchedulerMessage P) := do
  match ty with
  | TYPE_SPAWN_ASYNC =>
    let task ← de.boxed PTR Boxed.asyncTask?
    return spawnAsync task
  | TYPE_SPAWN_BLOCKING =>
    let task ← de.boxed PTR Boxed.blockingTask?
    return spawnBlocking task
  | TYPE_WORKER_IDLE =>
    let workerId ← de.serde WORKER_ID b.fromValueU32
    return workerIdle workerId
  | TYPE_WORKER_BUSY =>
    let workerId ← de.serde WORKER_ID b.fromValueU32
    return workerBusy workerId
  | TYPE_CACHE_MODULE =>
    let hash ← de.moduleHash b MODULE_HASH
    let module ← de.module MODULE
    return cacheModule hash module
  | TYPE_SPAWN_WITH_MODULE =>
    let module ← de.module MODULE
    let task ← de.boxed PTR Boxed.blockingModuleTask?
    return spawnWithModule module task
  | TYPE_SPAWN_WITH_MODULE_AND_MEMORY =>
    let spawnWasm ← de.boxed PTR Boxed.spawnWasm?
    let module ← de.module MODULE
    let memory ← readMemory b de spawnWasm
    let forkPipes ← readForkPipes b forkPipeKeys de
    return spawnWithModuleAndMemory module memory spawnWasm none forkPipes
  | TYPE_HOST_EXEC_START =>
    let workerId ← de.serde WORKER_ID b.fromValueU32
    let requestId ← de.serde REQUEST_ID b.fromValueU64
    let requestJson ← de.uint8Array REQUEST_JSON
    return hostExecStart workerId requestId requestJson
  | TYPE_HOST_EXEC_READ =>
    let (workerId, requestId, sessionId) ← readSession b de
    return hostExecRead workerId requestId sessionId
  | TYPE_HOST_EXEC_WRITE =>
    let (workerId, requestId, sessionId) ← readSession b de
    let data ← de.uint8Array DATA
    return hostExecWrite workerId requestId sessionId data
  | TYPE_HOST_EXEC_CLOSE_STDIN =>
    let (workerId, requestId, sessionId) ← readSession b de
    return hostExecCloseStdin workerId requestId sessionId
  | TYPE_HOST_EXEC_TRY_READ =>
    let (workerId, requestId, sessionId) ← readSession b de
    return hostExecTryRead workerId requestId sessionId
  | TYPE_HOST_EXEC_POLL =>
    let (workerId, requestId, sessionId) ← readSession b de
    return hostExecPoll workerId requestId sessionId
  | TYPE_HOST_EXEC_SIGNAL =>
    let (workerId, requestId, sessionId) ← readSession b de
    let signal ← de.serde SIGNAL b.fromValueU32
    return hostExecSignal workerId requestId sessionId signal
  | TYPE_HOST_EXEC_CHILD_OUTPUT =>
    let (workerId, requestId, sessionId) ← readSession b de
    let childId ← de.serde CHILD_ID b.fromValueU64
    let msgType ← de.serde MSG_TYPE b.fromValueU32
    let data ← de.uint8Array DATA
    return hostExecChildOutput workerId requestId sessionId childId msgType data
  | other => throw (.error ("Unknown message type, \"" ++ other ++ "\""))

def tryFromJs (b : Bindings P) (value : JsValue P) : Unbox P (SchedulerMessage P) := do
  let de : Deserializer P := value
  let ty ← de.ty
  readAs b de ty

/-! ### What a worker emits -/

/-- The part of a message that is only for debugging is lost. -/
def forgetDebug : SchedulerMessage P → SchedulerMessage P
  | spawnWithModuleAndMemory module memory spawnWasm subprocessStdio forkPipes =>
    spawnWithModuleAndMemory module memory spawnWasm subprocessStdio (forkPipes.map ForkPipeBuffers.forgetDebug)
  | m => m

/-- The messages that a worker emits. In those for a WebAssembly task the memory is one of the type that the task
    shares, if it shares one, and stdio is not set up. -/
def Emittable : SchedulerMessage P → Prop
  | close | hostExecReadComplete .. => False
  | spawnWithModuleAndMemory _ memory spawnWasm subprocessStdio _ =>
    memory.map (·.ty) = spawnWasm.runType.sharedMemoryType ∧ subprocessStdio = none
  | _ => True

/-! ### Round trip -/

variable {b : Bindings P} {heap : Heap P} {ptr : Address}

end SchedulerMessage
end Wire
end WasmerJs
