import WasmerJs.Pool.Scheduler

/-! The pool as a whole: the scheduler's handlers, the workers that run the jobs posted to them, and the
    notifications on their way back (`src/tasks/thread_pool_worker.rs`). Those of one worker arrive in the order in
    which it emitted them, and those of different workers in any order. -/

namespace WasmerJs
namespace Pool

/-- What the guard of `ThreadPoolWorker::busy` emits when it is made and when it is dropped. -/
inductive Note where
  | markBusy
  | markIdle
  deriving DecidableEq

def Note.message {H T : Type} (w : WorkerId) : Note → SchedulerMessage H T
  | .markBusy => .workerBusy w
  | .markIdle => .workerIdle w

/-- A worker as the browser sees it. `posted` counts the blocking jobs posted to it, and `closed` the
    `WorkerIdle` messages that have been delivered for it. -/
structure Worker (H T : Type) where
  live : Bool
  inbox : List (BlockingJob H T)
  running : Nat
  outbox : List Note
  posted : Nat
  closed : Nat

variable {H T : Type}

namespace Worker

/-- No worker has this id yet. -/
def unborn : Worker H T := { live := false, inbox := [], running := 0, outbox := [], posted := 0, closed := 0 }

def receive (v : Worker H T) : PostMessagePayload H T → Worker H T
  | .blocking job => { v with inbox := v.inbox ++ [job], posted := v.posted + 1 }
  | .async _ | .cacheModule _ => v

/-- Job `k` of those posted begins; the guard emits its first notification. -/
def begin (v : Worker H T) (k : Nat) : Option (Worker H T) :=
  if k < v.inbox.length then
    some { v with inbox := v.inbox.eraseIdx k, running := v.running + 1, outbox := v.outbox ++ [.markBusy] }
  else none

/-- A job ends and its guard is dropped. -/
def finish (v : Worker H T) : Option (Worker H T) :=
  if 0 < v.running then some { v with running := v.running - 1, outbox := v.outbox ++ [.markIdle] } else none

/-- The oldest notification is taken for delivery. -/
def takeNote (v : Worker H T) : Option (Note × Worker H T) :=
  match v.outbox with
  | [] => none
  | .markBusy :: rest => some (.markBusy, { v with outbox := rest })
  | .markIdle :: rest => some (.markIdle, { v with outbox := rest, closed := v.closed + 1 })

end Worker

/-- An effect of a handler reaches the worker that it is about. -/
def applyEffect (ws : WorkerId → Worker H T) : Effect H T → WorkerId → Worker H T
  | .spawned w => Function.update ws w { ws w with live := true }
  | .posted w msg => Function.update ws w ((ws w).receive msg)
  | .terminated w => Function.update ws w { ws w with live := false }

structure State (H T : Type) where
  sched : SchedulerState H
  workers : WorkerId → Worker H T

def State.init : State H T := { sched := .new, workers := fun _ => .unborn }

/-- The events of the pool; each handler runs against answers of the browser of its own. -/
inductive Event (H T : Type) where
  | message (b : Browser H T) (msg : SchedulerMessage H T)
  | deliver (b : Browser H T) (w : WorkerId)
  | begin (w : WorkerId) (k : Nat)
  | finish (w : WorkerId)

def State.setWorker (s : State H T) (w : WorkerId) (v : Worker H T) : State H T :=
  { s with workers := Function.update s.workers w v }

variable [LinearOrder H]

/-- The scheduler handles a message, and its effects reach the workers. -/
def State.handle (s : State H T) (b : Browser H T) (msg : SchedulerMessage H T) : State H T :=
  let (sched, effects) := s.sched.execute b msg
  { sched, workers := effects.foldl applyEffect s.workers }

def step (s : State H T) : Event H T → Option (State H T)
  | .message b msg => if msg.isNotification then none else some (s.handle b msg)
  | .deliver b w =>
    (s.workers w).takeNote.map fun (note, v) => (s.setWorker w v).handle b (note.message w)
  | .begin w k => ((s.workers w).begin k).map (s.setWorker w)
  | .finish w => (s.workers w).finish.map (s.setWorker w)

theorem step_message_inv {s t : State H T} {b : Browser H T} {msg : SchedulerMessage H T}
    (hs : step s (.message b msg) = some t) : msg.isNotification = false ∧ t = s.handle b msg := by
  simp only [step] at hs
  split at hs
  · cases hs
  · exact ⟨Bool.eq_false_iff.mpr ‹_›, (Option.some.inj hs).symm⟩

end Pool
end WasmerJs
