import WasmerJs.Wire.PostMessagePayload
import WasmerJs.Wire.TaskWasm

/-! The way of a message from one worker to another (`src/tasks/worker_message.rs`, `src/tasks/scheduler.rs`): it is
    posted to the scheduler inside a `WorkerMessage`, the scheduler builds a payload from it, and posts the payload.
    `postMessage` itself hands over what it is given. -/

namespace WasmerJs
namespace Wire

variable {P : Platform}

/-! ### The first hop -/

inductive WorkerMessage (P : Platform) where
  | markBusy
  | markIdle
  | scheduler (msg : SchedulerMessage P)

namespace WorkerMessage

@[match_pattern] def TYPE_BUSY : String := "busy"
@[match_pattern] def TYPE_IDLE : String := "idle"
@[match_pattern] def TYPE_SCHEDULER : String := "scheduler"
def MESSAGE : String := "msg"

/-- `try_from_js` after it has read the type of the message. -/
def readAs (b : Bindings P) (de : Deserializer P) (ty : String) : Unbox P (WorkerMessage P) := do
  match ty with
  | TYPE_BUSY => return markBusy
  | TYPE_IDLE => return markIdle
  | TYPE_SCHEDULER =>
    let value ← de.js MESSAGE "wasm_bindgen::JsValue" some
    let msg ← SchedulerMessage.tryFromJs b value
    return scheduler msg
  | other => throw (.error ("Unknown message type, \"" ++ other ++ "\""))

def tryFromJs (b : Bindings P) (value : JsValue P) : Unbox P (WorkerMessage P) := do
  let de : Deserializer P := value
  let ty ← de.ty
  readAs b de ty

variable {b : Bindings P} {heap : Heap P} {ptr : Address}

end WorkerMessage

/-! ### Between the hops -/

end Wire
end WasmerJs
