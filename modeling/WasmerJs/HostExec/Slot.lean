import WasmerJs.HostExec.Message

/-! What the global maps of the scheduler hold for one session id, and the places where the code takes entries out
    and puts entries in (`src/tasks/scheduler.rs`). Each of them works on the entries of one id. -/

namespace WasmerJs
namespace HostExec

/-- The entries of `HOST_EXEC_RESULTS`, `PENDING_READS`, `OUTPUT_QUEUES`, `STDIN_WRITERS` and `SIGNAL_HANDLERS`
    under one session id. -/
structure Slot (W F : Type) where
  result : Option ExitCode
  pending : Option (W × SessionId)
  queue : Option (List (MsgType × Bytes))
  stdinWriter : Option (F × F)
  signalHandler : Option F

namespace Slot

variable {W F : Type}

def empty : Slot W F :=
  { result := none, pending := none, queue := none, stdinWriter := none, signalHandler := none }

def output (v : Slot W F) : List (MsgType × Bytes) := v.queue.getD []

/-- `get_mut(..).and_then(|q| q.pop_front())`; the entry stays when the queue becomes empty. -/
def popFront (v : Slot W F) : Option ((MsgType × Bytes) × Slot W F) :=
  match v.queue with
  | some (m :: queue) => some (m, { v with queue := some queue })
  | _ => none

/-- `entry(..).or_default().push_back(..)` -/
def pushBack (v : Slot W F) (m : MsgType × Bytes) : Slot W F := { v with queue := some (v.output ++ [m]) }

/-- What a read or a try-read finds: the first message of the queue, else the exit code, which ends the session. -/
inductive Answer where
  | output (msgType : MsgType) (data : Bytes)
  | exit (code : ExitCode)

def nextAnswer (v : Slot W F) : Option (Answer × Slot W F) :=
  match v.popFront with
  | some ((msgType, data), v) => some (.output msgType data, v)
  | none =>
    match v.result with
    | some code => some (.exit code, { v with result := none, queue := none })
    | none => none

def Answer.effect (w : W) (s : SessionId) : Answer → Effect W F
  | output msgType data => .readResponse w s msgType (BitVec.ofNat 32 data.length) (some data)
  | exit code => .readResponse w s MSG_TYPE_EXIT code none

/-- `onStdout` and `onStderr` hand the data to a parked read if there is one, and queue it else. -/
def deliver (v : Slot W F) (m : MsgType × Bytes) : Slot W F × List (SchedulerMessage W) :=
  match v.pending with
  | some (w, s) => ({ v with pending := none }, [.hostExecReadComplete w s m.1 m.2])
  | none => (v.pushBack m, [])

/-- The callbacks for child processes queue their message first; a parked read then gets the front of the queue. -/
def enqueue (v : Slot W F) (m : MsgType × Bytes) : Slot W F × List (SchedulerMessage W) :=
  match v.pending with
  | some (w, s) =>
    match { v.pushBack m with pending := none }.popFront with
    | some (m, v) => (v, [.hostExecReadComplete w s m.1 m.2])
    | none => ({ v.pushBack m with pending := none }, [])
  | none => (v.pushBack m, [])

/-- The part of a callback that works on the entries of its session. -/
def callback (v : Slot W F) (c : Callback F) : Slot W F × List (SchedulerMessage W) :=
  match c with
  | .onStdout data => v.deliver (MSG_TYPE_STDOUT, data)
  | .onStderr data => v.deliver (MSG_TYPE_STDERR, data)
  | .setStdinWriter writer closer => ({ v with stdinWriter := some (writer, closer) }, [])
  | .setKillFunction kill => ({ v with signalHandler := some kill }, [])
  | .requestSpawn _ _ json => v.enqueue (MSG_TYPE_SPAWN_REQUEST, json)
  | .spawnWriteStdin childId data => v.enqueue (MSG_TYPE_SPAWN_STDIN, toLeBytes (n := 8) childId ++ data)
  | .spawnCloseStdin childId => v.enqueue (MSG_TYPE_SPAWN_CLOSE_STDIN, toLeBytes (n := 8) childId)
  | .spawnKill childId signal =>
    v.enqueue (MSG_TYPE_SPAWN_KILL, toLeBytes (n := 8) childId ++ toLeBytes (n := 4) signal)
  | .setChildOutputHandlers _ => (v, [])

/-- The promise of the handler settles: the code is stored, and a parked read is told. -/
def settle (v : Slot W F) (r : Settlement) : Slot W F × List (SchedulerMessage W) :=
  match v.pending with
  | some (w, s) =>
    ({ v with result := some r.code, pending := none },
      [.hostExecReadComplete w s MSG_TYPE_EXIT (toLeBytes (n := 4) r.code)])
  | none => ({ v with result := some r.code }, [])

/-- The part of a message's handler that works on the entries of its session. -/
def execute (v : Slot W F) : SchedulerMessage W → Slot W F × List (Effect W F)
  | .hostExecRead w s =>
    match v.nextAnswer with
    | some (answer, v) => (v, [answer.effect w s])
    | none => ({ v with pending := some (w, s) }, [])
  | .hostExecReadComplete w s msgType data =>
    if msgType = MSG_TYPE_EXIT ∧ 4 ≤ data.length then
      (v, [.readResponse w s MSG_TYPE_EXIT (fromLeBytes data) none])
    else (v, [.readResponse w s msgType (BitVec.ofNat 32 data.length) (some data)])
  | .hostExecWrite _ _ data =>
    match v.stdinWriter with
    | some (writer, _) => (v, [.call writer (.bytes data)])
    | none => (v, [])
  | .hostExecCloseStdin _ _ =>
    match v.stdinWriter with
    | some (_, closer) => ({ v with stdinWriter := none }, [.call closer .none])
    | none => (v, [])
  | .hostExecTryRead w s =>
    match v.nextAnswer with
    | some (answer, v) => (v, [answer.effect w s])
    | none => (v, [.noData w s])
  | .hostExecPoll w s => (v, [.pollResponse w s (!v.output.isEmpty || v.result.isSome)])
  | .hostExecSignal _ _ signal =>
    match v.signalHandler with
    | some kill => (v, [.call kill (.number signal)])
    | none => (v, [])
  | .hostExecStart .. | .hostExecChildOutput .. => (v, [])

/-! ### What they do -/

variable {v v' : Slot W F} {m : MsgType × Bytes}

@[simp] theorem output_pushBack : (v.pushBack m).output = v.output ++ [m] := rfl

@[simp] theorem pushBack_pending : (v.pushBack m).pending = v.pending := rfl

theorem popFront_eq_none : v.popFront = none ↔ v.output = [] := by
  obtain ⟨result, pending, queue, stdinWriter, signalHandler⟩ := v
  match queue with
  | none | some [] => simp [popFront, output]
  | some (m :: queue) => simp [popFront, output]

/-- A message is taken from the front of the queue and nothing else changes. -/
theorem popFront_inv (h : v.popFront = some (m, v')) :
    v.output = m :: v'.output ∧ v' = { v with queue := some v'.output } := by
  obtain ⟨result, pending, queue, stdinWriter, signalHandler⟩ := v
  match queue with
  | none | some [] => cases h
  | some (_ :: _) =>
    cases h
    exact ⟨rfl, rfl⟩

/-- The two answers, and what they take out. -/
theorem nextAnswer_inv {answer : Answer} (h : v.nextAnswer = some (answer, v')) :
    (∃ msgType data, answer = .output msgType data ∧ v.output = (msgType, data) :: v'.output ∧
        v' = { v with queue := some v'.output }) ∨
      ∃ code, answer = .exit code ∧ v.output = [] ∧ v.result = some code ∧
        v' = { v with result := none, queue := none } := by
  unfold nextAnswer at h
  split at h
  · rename_i msgType data u hpop
    cases h
    obtain ⟨hout, hv⟩ := popFront_inv hpop
    exact .inl ⟨msgType, data, rfl, hout, hv⟩
  · rename_i hpop
    split at h
    · cases h
      exact .inr ⟨_, rfl, popFront_eq_none.mp hpop, ‹_›, rfl⟩
    · cases h

theorem nextAnswer_eq_none : v.nextAnswer = none ↔ v.output = [] ∧ v.result = none := by
  unfold nextAnswer
  split
  · rename_i hpop
    simp [(popFront_inv hpop).1]
  · rename_i hpop
    rw [popFront_eq_none] at hpop
    split <;> simp_all

/-! ### Parked reads -/

/-- A message that the entries of a slot give rise to is for the reader that is parked there. -/
def ForParked (v : Slot W F) (ms : List (SchedulerMessage W)) : Prop :=
  ∀ m ∈ ms, ∃ s, v.pending = some (m.worker, s) ∧ m.session? = some s

theorem ForParked.nil : v.ForParked [] := by
  intro m hm
  cases hm

theorem ForParked.complete {w : W} {s : SessionId} (hp : v.pending = some (w, s)) (t : MsgType) (data : Bytes) :
    v.ForParked [.hostExecReadComplete w s t data] := by
  intro m hm
  obtain rfl := List.mem_singleton.mp hm
  exact ⟨s, hp, rfl⟩

theorem deliver_pending (m : MsgType × Bytes) :
    v.ForParked (v.deliver m).2 ∧ ((v.deliver m).1.pending = v.pending ∨ (v.deliver m).1.pending = none) := by
  unfold deliver
  split
  · exact ⟨.complete ‹_› _ _, .inr rfl⟩
  · exact ⟨.nil, .inl rfl⟩

theorem enqueue_pending (m : MsgType × Bytes) :
    v.ForParked (v.enqueue m).2 ∧ ((v.enqueue m).1.pending = v.pending ∨ (v.enqueue m).1.pending = none) := by
  unfold enqueue
  split
  · rename_i w s hp
    split
    · rename_i hpop
      refine ⟨.complete hp _ _, .inr ?_⟩
      rw [(popFront_inv hpop).2]
    · exact ⟨.nil, .inr rfl⟩
  · exact ⟨.nil, .inl rfl⟩

theorem callback_pending (c : Callback F) :
    v.ForParked (v.callback c).2 ∧ ((v.callback c).1.pending = v.pending ∨ (v.callback c).1.pending = none) := by
  cases c with
  | onStdout | onStderr => exact deliver_pending _
  | requestSpawn | spawnWriteStdin | spawnCloseStdin | spawnKill => exact enqueue_pending _
  | setStdinWriter | setKillFunction | setChildOutputHandlers => exact ⟨.nil, .inl rfl⟩

theorem settle_pending (r : Settlement) :
    v.ForParked (v.settle r).2 ∧ ((v.settle r).1.pending = v.pending ∨ (v.settle r).1.pending = none) := by
  unfold settle
  split
  · exact ⟨.complete ‹_› _ _, .inr rfl⟩
  · exact ⟨.nil, .inl rfl⟩

/-- Only a read parks, and it parks for the worker and the session that it names. -/
theorem execute_pending (m : SchedulerMessage W) :
    (v.execute m).1.pending = v.pending ∨ ∃ w s, m = .hostExecRead w s ∧ (v.execute m).1.pending = some (w, s) := by
  cases m with
  | hostExecRead w s =>
    simp only [execute]
    split
    · rename_i hn
      rcases nextAnswer_inv hn with ⟨_, _, -, -, hv⟩ | ⟨_, -, -, -, hv⟩ <;> exact .inl (by rw [hv])
    · exact .inr ⟨w, s, rfl, rfl⟩
  | hostExecTryRead w s =>
    simp only [execute]
    split
    · rename_i hn
      rcases nextAnswer_inv hn with ⟨_, _, -, -, hv⟩ | ⟨_, -, -, -, hv⟩ <;> exact .inl (by rw [hv])
    · exact .inl rfl
  | hostExecReadComplete | hostExecWrite | hostExecCloseStdin | hostExecSignal =>
    simp only [execute]
    split <;> exact .inl rfl
  | hostExecStart | hostExecPoll | hostExecChildOutput => exact .inl rfl

end Slot
end HostExec
end WasmerJs
