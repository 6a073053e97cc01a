import WasmerJs.Lib.Transition

/-! The part of the scheduler that hands jobs to the workers of the thread pool
    (`src/tasks/scheduler.rs`, `src/tasks/post_message_payload.rs`). Handlers are functions on the state; what they
    do to the workers is returned as a list of effects. -/

namespace WasmerJs
namespace Pool

/-- The `u32` id of a worker. Ids come from one counter that only moves on, by one for each worker started: it is
    bounded by the number of events so far (`nextId_le`), so that ids are below `2 ^ 32`, where the counter of the
    source wraps around, in every run of fewer than `2 ^ 32` events (`ids_lt`). -/
abbrev WorkerId := Nat

/-- `H` are the hashes of modules, `T` the tasks that the pool runs. -/
inductive BlockingJob (H T : Type) where
  | thunk (task : T)
  | spawnWithModule (module : H) (task : T)
  | spawnWithModuleAndMemory (module : H) (task : T)

inductive PostMessagePayload (H T : Type) where
  | async (task : T)
  | blocking (job : BlockingJob H T)
  | cacheModule (hash : H)

variable {H T : Type}

/-- Only blocking jobs keep a worker from taking more work. -/
def PostMessagePayload.wouldBlock : PostMessagePayload H T → Bool
  | .blocking _ => true
  | _ => false

/-- What a handler does to the workers. A `WorkerHandle` that is dropped terminates its worker. -/
inductive Effect (H T : Type) where
  | spawned (w : WorkerId)
  | posted (w : WorkerId) (msg : PostMessagePayload H T)
  | terminated (w : WorkerId)

/-- What the browser answers while one message is handled: whether a worker can be made, and whether
    `postMessage` to a worker succeeds. -/
structure Browser (H T : Type) where
  spawn : Bool
  post : WorkerId → PostMessagePayload H T → Bool

/-- A browser that does everything it is asked to. -/
def Browser.willing : Browser H T := { spawn := true, post := fun _ _ => true }

/-- The queues hold the handles of the workers, which are known by their ids. -/
structure SchedulerState (H : Type) where
  idle : List WorkerId
  busy : List WorkerId
  nextId : WorkerId
  -- The keys of a `BTreeMap`, in order.
  cachedModules : List H

def SchedulerState.new : SchedulerState H := { idle := [], busy := [], nextId := 1, cachedModules := [] }

inductive SchedulerMessage (H T : Type) where
  | spawnAsync (task : T)
  | spawnBlocking (task : T)
  | spawnWithModule (module : H) (task : T)
  | spawnWithModuleAndMemory (module : H) (task : T)
  | cacheModule (hash : H)
  | workerBusy (w : WorkerId)
  | workerIdle (w : WorkerId)

/-- A message that a worker's notification is turned into. -/
def SchedulerMessage.isNotification : SchedulerMessage H T → Bool
  | .workerBusy _ | .workerIdle _ => true
  | _ => false

namespace SchedulerState

variable (b : Browser H T) (s : SchedulerState H)

/-- The new worker's module cache is primed one module at a time, until a message cannot be sent. -/
def prime (id : WorkerId) : List H → List (Effect H T) × Bool
  | [] => ([], true)
  | hash :: rest =>
    if b.post id (.cacheModule hash) then
      let (sent, ok) := prime id rest
      (.posted id (.cacheModule hash) :: sent, ok)
    else ([], false)

def startWorker : SchedulerState H × List (Effect H T) × Option WorkerId :=
  let id := s.nextId
  let s := { s with nextId := id + 1 }
  if b.spawn then
    let (sent, ok) := prime b id s.cachedModules
    if ok then (s, .spawned id :: sent, some id) else (s, .spawned id :: sent ++ [.terminated id], none)
  else (s, [], none)

/-- An idle worker if there is one, else a new one. -/
def nextAvailableWorker : SchedulerState H × List (Effect H T) × Option WorkerId :=
  match s.idle with
  | w :: idle => ({ s with idle }, [], some w)
  | [] => s.startWorker b

def postMessage (msg : PostMessagePayload H T) : SchedulerState H × List (Effect H T) :=
  match s.nextAvailableWorker b with
  | (s, effects, none) => (s, effects)
  | (s, effects, some w) =>
    if b.post w msg then
      let effects := effects ++ [.posted w msg]
      if msg.wouldBlock then ({ s with busy := s.busy ++ [w] }, effects)
      else ({ s with idle := s.idle ++ [w] }, effects)
    -- The handle is dropped on the way out.
    else (s, effects ++ [.terminated w])

/-- Sends a message to the workers in turn, until it cannot be sent to one. -/
def sendAll (msg : PostMessagePayload H T) : List WorkerId → List (Effect H T)
  | [] => []
  | w :: ws => if b.post w msg then .posted w msg :: sendAll msg ws else []

end SchedulerState

def moveWorker (w : WorkerId) (src dst : List WorkerId) : List WorkerId × List WorkerId :=
  if w ∈ src then (src.erase w, dst ++ [w]) else (src, dst)

def SchedulerState.execute [LinearOrder H] (b : Browser H T) (s : SchedulerState H) :
    SchedulerMessage H T → SchedulerState H × List (Effect H T)
  | .spawnAsync task => s.postMessage b (.async task)
  | .spawnBlocking task => s.postMessage b (.blocking (.thunk task))
  | .spawnWithModule module task => s.postMessage b (.blocking (.spawnWithModule module task))
  | .spawnWithModuleAndMemory module task => s.postMessage b (.blocking (.spawnWithModuleAndMemory module task))
  | .cacheModule hash =>
    let cachedModules :=
      if hash ∈ s.cachedModules then s.cachedModules else s.cachedModules.orderedInsert (· ≤ ·) hash
    ({ s with cachedModules }, sendAll b (.cacheModule hash) (s.idle ++ s.busy))
  | .workerBusy w =>
    let (idle, busy) := moveWorker w s.idle s.busy
    ({ s with idle, busy }, [])
  | .workerIdle w =>
    let (busy, idle) := moveWorker w s.busy s.idle
    ({ s with idle, busy }, [])

/-- The message that a task is posted to a worker as; the other messages are no tasks. -/
def SchedulerMessage.payload? : SchedulerMessage H T → Option (PostMessagePayload H T)
  | .spawnAsync task => some (.async task)
  | .spawnBlocking task => some (.blocking (.thunk task))
  | .spawnWithModule module task => some (.blocking (.spawnWithModule module task))
  | .spawnWithModuleAndMemory module task => some (.blocking (.spawnWithModuleAndMemory module task))
  | .cacheModule _ | .workerBusy _ | .workerIdle _ => none

theorem SchedulerState.execute_task [LinearOrder H] {b : Browser H T} {s : SchedulerState H}
    {msg : SchedulerMessage H T} {p : PostMessagePayload H T} (h : msg.payload? = some p) :
    s.execute b msg = s.postMessage b p := by
  cases msg <;> cases h <;> rfl

/-! ### Notifications -/

/-- What is not touched by the messages about cached modules is the same after any number of them. -/
theorem foldl_notified {β : Type} {apply : β → Effect H T → β}
    (happly : ∀ x w hash, apply x (.posted w (.cacheModule hash)) = x) {effects : List (Effect H T)}
    (hp : ∀ e ∈ effects, ∃ w hash, e = .posted w (.cacheModule hash)) (x : β) : effects.foldl apply x = x := by
  induction effects with
  | nil => rfl
  | cons e effects ih =>
    obtain ⟨w, hash, rfl⟩ := hp e (List.mem_cons_self ..)
    rw [List.foldl_cons, happly]
    exact ih fun e he => hp e (List.mem_cons_of_mem _ he)

/-- What is left of the effects on a new worker once its module cache is primed. -/
theorem foldl_spawned {β : Type} {apply : β → Effect H T → β}
    (happly : ∀ x w hash, apply x (.posted w (.cacheModule hash)) = x) {w : WorkerId} {primed : List (Effect H T)}
    (hp : ∀ e ∈ primed, ∃ hash, e = .posted w (.cacheModule hash)) (e : Effect H T) (x : β) :
    (.spawned w :: primed ++ [e]).foldl apply x = apply (apply x (.spawned w)) e := by
  rw [List.cons_append, List.foldl_cons, List.foldl_append, foldl_notified happly fun e he => ⟨w, hp e he⟩]
  rfl

theorem SchedulerState.sendAll_notifies (b : Browser H T) (hash : H) (ids : List WorkerId) :
    ∀ e ∈ sendAll b (.cacheModule hash) ids, ∃ w hash, e = .posted w (.cacheModule hash) := by
  induction ids with
  | nil => simp [sendAll]
  | cons w ids ih =>
    simp only [sendAll]
    split
    · intro e he
      rcases List.mem_cons.mp he with rfl | he
      · exact ⟨w, hash, rfl⟩
      · exact ih e he
    · simp

/-! ### What a post does -/

/-- The outcomes of `post_message`: it used the first idle worker or started a new one, and the message was sent
    or the worker was given up. `primed` are messages that no job is part of. -/
inductive Post (s : SchedulerState H) (msg : PostMessagePayload H T) :
    SchedulerState H × List (Effect H T) → Prop where
  | idleBlocking {w idle} (hi : s.idle = w :: idle) (hb : msg.wouldBlock) :
      Post s msg ({ s with idle, busy := s.busy ++ [w] }, [.posted w msg])
  | idleAsync {w idle} (hi : s.idle = w :: idle) (hb : msg.wouldBlock = false) :
      Post s msg ({ s with idle := idle ++ [w] }, [.posted w msg])
  | idleFailed {w idle} (hi : s.idle = w :: idle) : Post s msg ({ s with idle }, [.terminated w])
  | notSpawned (hi : s.idle = []) : Post s msg ({ s with nextId := s.nextId + 1 }, [])
  | newFailed {primed} (hi : s.idle = []) (hp : ∀ e ∈ primed, ∃ hash, e = .posted s.nextId (.cacheModule hash)) :
      Post s msg ({ s with nextId := s.nextId + 1 }, .spawned s.nextId :: primed ++ [.terminated s.nextId])
  | newBlocking {primed} (hi : s.idle = []) (hp : ∀ e ∈ primed, ∃ hash, e = .posted s.nextId (.cacheModule hash))
      (hb : msg.wouldBlock) :
      Post s msg ({ s with nextId := s.nextId + 1, busy := s.busy ++ [s.nextId] },
        .spawned s.nextId :: primed ++ [.posted s.nextId msg])
  | newAsync {primed} (hi : s.idle = []) (hp : ∀ e ∈ primed, ∃ hash, e = .posted s.nextId (.cacheModule hash))
      (hb : msg.wouldBlock = false) :
      Post s msg ({ s with nextId := s.nextId + 1, idle := [s.nextId] },
        .spawned s.nextId :: primed ++ [.posted s.nextId msg])

namespace SchedulerState

variable {b : Browser H T} {s : SchedulerState H} {msg : PostMessagePayload H T}

theorem prime_effects (b : Browser H T) (id : WorkerId) (hashes : List H) :
    ∀ e ∈ (prime b id hashes).1, ∃ hash, e = .posted id (.cacheModule hash) := by
  induction hashes with
  | nil => simp [prime]
  | cons hash rest ih =>
    simp only [prime]
    split
    · intro e he
      rcases List.mem_cons.mp he with rfl | he
      · exact ⟨hash, rfl⟩
      · exact ih e he
    · simp

theorem startWorker_inv : s.startWorker b = ({ s with nextId := s.nextId + 1 }, [], none) ∨
    ∃ primed : List (Effect H T), (∀ e ∈ primed, ∃ hash, e = .posted s.nextId (.cacheModule hash)) ∧
      (s.startWorker b = ({ s with nextId := s.nextId + 1 }, .spawned s.nextId :: primed, some s.nextId) ∨
        s.startWorker b =
          ({ s with nextId := s.nextId + 1 }, .spawned s.nextId :: primed ++ [.terminated s.nextId], none)) := by
  unfold startWorker
  by_cases hspawn : b.spawn
  · have hp := prime_effects b s.nextId s.cachedModules
    rcases hprime : prime b s.nextId s.cachedModules with ⟨primed, ok⟩
    rw [hprime] at hp
    refine .inr ⟨primed, hp, ?_⟩
    cases ok <;> simp [hspawn, hprime]
  · exact .inl (by simp [hspawn])

/-- An idle worker takes the message, or is given up when it cannot be posted. -/
theorem postMessage_idle {w : WorkerId} {idle : List WorkerId} (hi : s.idle = w :: idle) :
    (s.postMessage b msg).2 = if b.post w msg then [.posted w msg] else [.terminated w] := by
  unfold postMessage nextAvailableWorker
  rw [hi]
  by_cases hpost : b.post w msg
  · cases msg.wouldBlock <;> simp [hpost]
  · simp [hpost]

theorem postMessage_inv (b : Browser H T) (s : SchedulerState H) (msg : PostMessagePayload H T) :
    Post s msg (s.postMessage b msg) := by
  unfold postMessage nextAvailableWorker
  cases hi : s.idle with
  | cons w idle =>
    by_cases hpost : b.post w msg
    · cases hb : msg.wouldBlock with
      | true => simpa [hpost, hb] using Post.idleBlocking hi hb
      | false => simpa [hpost, hb] using Post.idleAsync hi hb
    · simpa [hpost] using Post.idleFailed hi
  | nil =>
    obtain hstart | ⟨primed, hp, hstart | hstart⟩ := s.startWorker_inv (b := b)
    · simpa [hstart] using Post.notSpawned hi
    · by_cases hpost : b.post s.nextId msg
      · cases hb : msg.wouldBlock with
        | true => simpa [hstart, hpost, hb] using Post.newBlocking hi hp hb
        | false => simpa [hstart, hpost, hb, hi] using Post.newAsync hi hp hb
      · simpa [hstart, hpost] using Post.newFailed hi hp
    · simpa [hstart] using Post.newFailed hi hp

end SchedulerState
end Pool
end WasmerJs
