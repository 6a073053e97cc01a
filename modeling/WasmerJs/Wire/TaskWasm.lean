import WasmerJs.Wire.SchedulerMessage

/-! How the message for a WebAssembly task is built (`src/tasks/task_wasm.rs`). -/

namespace WasmerJs
namespace Wire

variable {P : Platform}

inductive SpawnType (P : Platform) where
  | createMemory
  | createMemoryOfType (ty : P.MemoryType)
  | copyMemory (m : Memory P)
  | shareMemory (m : Memory P)
  | newLinkerInstanceGroup

structure TaskWasm (P : Platform) where
  run : P.WasmTask
  module : P.Module
  spawnType : SpawnType P
  trigger : Option P.WasmResumeTrigger
  -- What `extract_pipe_buffers` finds in the environment.
  pipeBuffers : ForkPipeBuffers

namespace TaskWasm

/-- `memory_ty`, `memory` and `run_type`. A memory is copied before the process goes on that is forked. -/
def spawnMemory (b : Bindings P) :
    SpawnType P → Except Failure (Option P.MemoryType × Option P.Memory × WasmMemoryType P)
  | .createMemory => return (none, none, .createMemory)
  | .createMemoryOfType ty => return (some ty, none, .createMemoryOfType ty)
  | .copyMemory m => do
    let memory ← (b.copyMemory m.handle m.ty).mapError .error
    return (some m.ty, some memory, .shareMemory m.ty)
  | .shareMemory m => return (some m.ty, some m.handle, .shareMemory m.ty)
  | .newLinkerInstanceGroup => throw (.panic "not implemented: New Linker Instance Group is not supported")

/-- The memory as one of wasmer's. -/
def wasmerMemory (b : Bindings P) : Option P.MemoryType → Option P.Memory → Except Failure (Option (Memory P))
  | _, none => return none
  | none, some _ => throw (.panic "Guaranteed to be set")
  | some ty, some memory =>
    match b.memoryFromJsvalue ty (.memory memory) with
    | .ok m => return some m
    | .error _ => throw (.panic "internal error: entered unreachable code")

def runTrigger : Option P.MemoryType → Option P.WasmResumeTrigger → Except Failure (Option (WasmRunTrigger P))
  | _, none => return none
  | none, some _ => throw (.panic "triggers must have the a known memory type")
  | some memoryTy, some run => return some { run, memoryTy }

def toSchedulerMessage (b : Bindings P) (task : TaskWasm P) : Except Failure (SchedulerMessage P) := do
  let (memoryTy, memory, runType) ← spawnMemory b task.spawnType
  let memory ← wasmerMemory b memoryTy memory
  let forkPipes := if task.pipeBuffers.buffers.isEmpty then none else some task.pipeBuffers
  let trigger ← runTrigger memoryTy task.trigger
  return .spawnWithModuleAndMemory task.module memory { run := task.run, runType, trigger } none forkPipes

variable {b : Bindings P}

/-- There is a memory if the task shares one, and it has the type that the task shares. -/
theorem memory_of_spawnMemory (hb : b.Lawful) {spawnType : SpawnType P} {memoryTy : Option P.MemoryType}
    {handle : Option P.Memory} {runType : WasmMemoryType P} {memory : Option (Memory P)}
    (h : spawnMemory b spawnType = .ok (memoryTy, handle, runType))
    (hmemory : wasmerMemory b memoryTy handle = .ok memory) :
    memory.map (·.ty) = runType.sharedMemoryType := by
  cases spawnType with
  | createMemory =>
    cases h
    cases hmemory
    rfl
  | createMemoryOfType ty =>
    cases h
    cases hmemory
    rfl
  | copyMemory m =>
    obtain ⟨copy, -, heq⟩ := Failure.of_bind_ok h
    cases heq
    simp only [wasmerMemory, hb.memory] at hmemory
    cases hmemory
    rfl
  | shareMemory m =>
    cases h
    simp only [wasmerMemory, hb.memory] at hmemory
    cases hmemory
    rfl
  | newLinkerInstanceGroup => cases h

/-- Every message that is built for a task can be emitted. -/
theorem toSchedulerMessage_emittable (hb : b.Lawful) {task : TaskWasm P} {m : SchedulerMessage P}
    (h : toSchedulerMessage b task = .ok m) : m.Emittable := by
  obtain ⟨⟨memoryTy, handle, runType⟩, hspawn, h⟩ := Failure.of_bind_ok h
  obtain ⟨memory, hmemory, h⟩ := Failure.of_bind_ok h
  obtain ⟨trigger, -, h⟩ := Failure.of_bind_ok h
  cases h
  exact ⟨memory_of_spawnMemory hb hspawn hmemory, rfl⟩

end TaskWasm
end Wire
end WasmerJs
