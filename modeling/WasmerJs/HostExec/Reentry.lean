import WasmerJs.Lib.Guards
import WasmerJs.HostExec.Host

/-! A JS function that the scheduler calls may call the functions of the context objects before it returns
    (`SchedulerState::execute` and `create_host_exec_context` in `src/tasks/scheduler.rs`). Here both are written with
    the guards of the tables that they work on. The guard in the scrutinee of an `if let` lives to the end of the whole
    `if let`, its `else` included; the guard in a statement is dropped at the end of the statement. -/

namespace WasmerJs
namespace HostExec

/-- The tables behind a `RefCell` or a `Mutex` that messages with a JS function to call, or context functions, use. -/
inductive Table where
  -- `RefCell`s: `STDIN_WRITERS`, `SIGNAL_HANDLERS` and `CHILD_OUTPUT_HANDLERS`.
  | stdinWriters
  | signalHandlers
  | childOutputHandlers
  -- `Mutex`es: `PENDING_READS` and `OUTPUT_QUEUES`.
  | pendingReads
  | outputQueues
  deriving DecidableEq

/-- Programs on the scheduler's tables and its mailbox. -/
abbrev Prog (W F : Type) := Guarded Table (State W F)

open Guarded Transition

variable {W F : Type}

/-! ### Table entries -/

/-- Work on the entries of one session. -/
def onSlot {α : Type} (s : SessionId) (f : Slot W F → α × Slot W F) : Prog W F α :=
  act fun h => ((f (h.slots s)).1, { h with slots := Function.update h.slots s (f (h.slots s)).2 })

/-- `PENDING_READS.lock().unwrap().remove(&session_id)` -/
def takePending (s : SessionId) : Prog W F (Option (W × SessionId)) :=
  onSlot s fun v => (v.pending, { v with pending := none })

def pushBack (s : SessionId) (m : MsgType × Bytes) : Prog W F Unit := onSlot s fun v => ((), v.pushBack m)

def popFront (s : SessionId) : Prog W F (Option (MsgType × Bytes)) :=
  onSlot s fun v =>
    match v.popFront with
    | some (m, v) => (some m, v)
    | none => (none, v)

def send (m : SchedulerMessage W) : Prog W F Unit := act fun h => ((), { h with mailbox := h.mailbox ++ [m] })

def insertChildHandlers (childId : ChildId) (handlers : F × F × F) : Prog W F Unit :=
  act fun h => ((), { h with
    childOutputHandlers := Function.update h.childOutputHandlers childId (some handlers) })

/-! ### The functions of the context object -/

/-- `onStdout` and `onStderr`: the guard of the parked reads is alive when the queue is locked in the `else`. -/
def deliver (s : SessionId) (m : MsgType × Bytes) : Prog W F Unit :=
  exclusive .pendingReads do
    match ← takePending s with
    | some (w, id) => send (.hostExecReadComplete w id m.1 m.2)
    | none => exclusive .outputQueues (pushBack s m)

/-- The functions for child processes: the queue is locked once for the push and once more for a parked read. -/
def enqueue (s : SessionId) (m : MsgType × Bytes) : Prog W F Unit := do
  exclusive .outputQueues (pushBack s m)
  exclusive .pendingReads do
    match ← takePending s with
    | some (w, id) =>
      exclusive .outputQueues do
        match ← popFront s with
        | some m => send (.hostExecReadComplete w id m.1 m.2)
        | none => pure ()
    | none => pure ()

/-- A function of the context object that was made for session `s`. -/
def contextFunction (s : SessionId) : Callback F → Prog W F Unit
  | .onStdout data => deliver s (MSG_TYPE_STDOUT, data)
  | .onStderr data => deliver s (MSG_TYPE_STDERR, data)
  | .setStdinWriter writer closer =>
    exclusive .stdinWriters (onSlot s fun v => ((), { v with stdinWriter := some (writer, closer) }))
  | .setKillFunction kill => exclusive .signalHandlers (onSlot s fun v => ((), { v with signalHandler := some kill }))
  | .requestSpawn childId handlers json => do
    match handlers with
    | some handlers => exclusive .childOutputHandlers (insertChildHandlers childId handlers)
    | none => pure ()
    enqueue s (MSG_TYPE_SPAWN_REQUEST, json)
  | .spawnWriteStdin childId data => enqueue s (MSG_TYPE_SPAWN_STDIN, toLeBytes (n := 8) childId ++ data)
  | .spawnCloseStdin childId => enqueue s (MSG_TYPE_SPAWN_CLOSE_STDIN, toLeBytes (n := 8) childId)
  | .spawnKill childId signal =>
    enqueue s (MSG_TYPE_SPAWN_KILL, toLeBytes (n := 8) childId ++ toLeBytes (n := 4) signal)
  | .setChildOutputHandlers handlers => exclusive .childOutputHandlers (insertChildHandlers s handlers)

/-! ### Messages that call a JS function -/

/-- A call of a context function by the JS function that the scheduler has called. -/
abbrev Reentrant (W F : Type) := W × SessionId × Callback F

/-- A JS function is called, and calls context functions before it returns. -/
def call (calls : List (Reentrant W F)) (f : F) (arg : Arg) : Prog W F (List (Effect W F)) := do
  forM calls fun c => contextFunction c.2.1 c.2.2
  pure [.call f arg]

inductive HandlerMessage (W : Type) where
  | hostExecWrite (worker : W) (session : SessionId) (data : Bytes)
  | hostExecCloseStdin (worker : W) (session : SessionId)
  | hostExecSignal (worker : W) (session : SessionId) (signal : BitVec 32)
  | hostExecChildOutput (worker : W) (session : SessionId) (childId : ChildId) (msgType : MsgType) (data : Bytes)
  deriving DecidableEq

def HandlerMessage.message : HandlerMessage W → SchedulerMessage W
  | hostExecWrite w s data => .hostExecWrite w s data
  | hostExecCloseStdin w s => .hostExecCloseStdin w s
  | hostExecSignal w s signal => .hostExecSignal w s signal
  | hostExecChildOutput w s childId msgType data => .hostExecChildOutput w s childId msgType data

/-- `SchedulerState::execute` on the messages that call a JS function, where that function calls the context functions
    `calls`. In each case the guard of the table lives to the end of the `if let` that makes the call. -/
def executeReentrant (calls : List (Reentrant W F)) : HandlerMessage W → Prog W F (List (Effect W F))
  | .hostExecWrite _ s data =>
    shared .stdinWriters do
      match ← onSlot s fun v => (v.stdinWriter, v) with
      | some (writer, _) => call calls writer (.bytes data)
      | none => pure []
  | .hostExecCloseStdin _ s =>
    exclusive .stdinWriters do
      match ← onSlot s fun v => (v.stdinWriter, { v with stdinWriter := none }) with
      | some (_, closer) => call calls closer .none
      | none => pure []
  | .hostExecSignal _ s signal =>
    shared .signalHandlers do
      match ← onSlot s fun v => (v.signalHandler, v) with
      | some kill => call calls kill (.number signal)
      | none => pure []
  | .hostExecChildOutput _ _ childId msgType data =>
    shared .childOutputHandlers do
      match ← act fun h => (h.childOutputHandlers childId, h) with
      | some (stdout, stderr, exit) =>
        if msgType = MSG_TYPE_CHILD_STDOUT then call calls stdout (.bytes data)
        else if msgType = MSG_TYPE_CHILD_STDERR then call calls stderr (.bytes data)
        else if msgType = MSG_TYPE_CHILD_EXIT then
          call calls exit (.number (if 4 ≤ data.length then fromLeBytes data else 0))
        else pure []
      | none => pure []

/-! ### What the context functions do -/

section ContextFunctions

variable {g : Table → Borrow} {h : State W F} {s : SessionId}

/-- The entries of a session change, and messages go to the mailbox. -/
def State.after (h : State W F) (s : SessionId) (r : Slot W F × List (SchedulerMessage W)) : State W F :=
  { h with slots := Function.update h.slots s r.1, mailbox := h.mailbox ++ r.2 }

/-- A context function is called. -/
def State.invoke (h : State W F) (c : Reentrant W F) : State W F :=
  { h with childOutputHandlers := h.registered c.2.1 c.2.2 }.after c.2.1 ((h.slots c.2.1).callback c.2.2)

/-- The table in which a context function registers JS functions. -/
def Callback.table : Callback F → Option Table
  | .setStdinWriter .. => some .stdinWriters
  | .setKillFunction _ => some .signalHandlers
  | .requestSpawn _ (some _) _ | .setChildOutputHandlers _ => some .childOutputHandlers
  | _ => none

@[simp] theorem onSlot_run {α : Type} (f : Slot W F → α × Slot W F) :
    onSlot s f g h = some ((f (h.slots s)).1, { h with slots := Function.update h.slots s (f (h.slots s)).2 }) := rfl

@[simp] theorem takePending_run :
    takePending s g h = some ((h.slots s).pending,
      { h with slots := Function.update h.slots s { h.slots s with pending := none } }) := rfl

@[simp] theorem pushBack_run (m : MsgType × Bytes) :
    pushBack s m g h = some ((), { h with slots := Function.update h.slots s ((h.slots s).pushBack m) }) := rfl

@[simp] theorem send_run (m : SchedulerMessage W) :
    send m g h = some ((), { h with mailbox := h.mailbox ++ [m] }) := rfl

theorem deliver_run (hp : g .pendingReads = .free) (hq : g .outputQueues = .free) (m : MsgType × Bytes) :
    deliver s m g h = some ((), h.after s ((h.slots s).deliver m)) := by
  rw [deliver, exclusive_run hp, bind_of_run takePending_run]
  unfold Slot.deliver
  cases hpend : (h.slots s).pending with
  | none =>
    dsimp only
    rw [exclusive_run (by simp [hq]), pushBack_run]
    simp [State.after, Slot.pushBack, Slot.output, hpend]
  | some p => simp [State.after]

theorem enqueue_run (hp : g .pendingReads = .free) (hq : g .outputQueues = .free) (m : MsgType × Bytes) :
    enqueue s m g h = some ((), h.after s ((h.slots s).enqueue m)) := by
  have hpush : exclusive .outputQueues (pushBack s m) g h =
      some ((), { h with slots := Function.update h.slots s ((h.slots s).pushBack m) }) := by
    rw [exclusive_run hq, pushBack_run]
  rw [enqueue, bind_of_run hpush, exclusive_run hp, bind_of_run takePending_run]
  unfold Slot.enqueue
  cases hpend : (h.slots s).pending with
  | none => simp [State.after, Slot.pushBack, Slot.output, hpend]
  | some p =>
    simp only [Function.update_self, Slot.pushBack_pending, hpend]
    rw [exclusive_run (by simp [hq]), bind_run, popFront, onSlot_run]
    simp only [Function.update_self, Function.update_idem, Option.bind_some]
    cases hpop : Slot.popFront { (h.slots s).pushBack m with pending := none } with
    | none => simp [State.after]
    | some q => simp [State.after]

/-- A context function panics only when the table in which it registers JS functions is borrowed. -/
theorem contextFunction_run (hp : g .pendingReads = .free) (hq : g .outputQueues = .free) (c : Reentrant W F) :
    contextFunction c.2.1 c.2.2 g h =
      if ∀ k ∈ c.2.2.table, g k = .free then some ((), h.invoke c) else none := by
  obtain ⟨w, s, c⟩ := c
  cases c with
  | onStdout | onStderr =>
    rw [contextFunction, deliver_run hp hq, if_pos (by simp [Callback.table])]
    rfl
  | spawnWriteStdin | spawnCloseStdin | spawnKill =>
    rw [contextFunction, enqueue_run hp hq, if_pos (by simp [Callback.table])]
    rfl
  | setStdinWriter | setKillFunction =>
    rw [contextFunction, onSlot, exclusive_act]
    simp [Callback.table, State.invoke, State.after, State.registered, Slot.callback]
  | setChildOutputHandlers handlers =>
    rw [contextFunction, insertChildHandlers, exclusive_act]
    simp [Callback.table, State.invoke, State.after, State.registered, Slot.callback]
  | requestSpawn childId handlers json =>
    cases handlers with
    | none =>
      rw [contextFunction]
      dsimp only
      rw [enqueue_run hp hq, if_pos (by simp [Callback.table])]
      rfl
    | some handlers =>
      rw [contextFunction, bind_run, insertChildHandlers, exclusive_act]
      by_cases hk : g .childOutputHandlers = .free
      · rw [if_pos hk, Option.bind_some]
        dsimp only
        rw [enqueue_run hp hq, if_pos (by simp [Callback.table, hk])]
        rfl
      · simp [hk, Callback.table]

end ContextFunctions

/-! ### When the scheduler panics -/

section Panics

variable {h : State W F} {m : HandlerMessage W} {calls : List (Reentrant W F)}

/-- The table in which a message looks for the JS function to call. -/
def HandlerMessage.table : HandlerMessage W → Table
  | hostExecWrite .. | hostExecCloseStdin .. => .stdinWriters
  | hostExecSignal .. => .signalHandlers
  | hostExecChildOutput .. => .childOutputHandlers

/-- The function that is called for the output of a child, and its argument. -/
def childCallee (msgType : MsgType) (data : Bytes) : F × F × F → Option (F × Arg)
  | (stdout, stderr, exit) =>
    if msgType = MSG_TYPE_CHILD_STDOUT then some (stdout, .bytes data)
    else if msgType = MSG_TYPE_CHILD_STDERR then some (stderr, .bytes data)
    else if msgType = MSG_TYPE_CHILD_EXIT then
      some (exit, .number (if 4 ≤ data.length then fromLeBytes data else 0))
    else none

/-- The JS function that a message finds there, and its argument. -/
def State.callee (h : State W F) : HandlerMessage W → Option (F × Arg)
  | .hostExecWrite _ s data => (h.slots s).stdinWriter.map fun (writer, _) => (writer, .bytes data)
  | .hostExecCloseStdin _ s => (h.slots s).stdinWriter.map fun (_, closer) => (closer, .none)
  | .hostExecSignal _ s signal => (h.slots s).signalHandler.map fun kill => (kill, .number signal)
  | .hostExecChildOutput _ _ childId msgType data => (h.childOutputHandlers childId).bind (childCallee msgType data)

/-- The JS function that a message calls, if it finds one, registers nothing in the table that it was found in. -/
def Undisturbed (h : State W F) (m : HandlerMessage W) (calls : List (Reentrant W F)) : Prop :=
  (h.callee m).isSome → ∀ c ∈ calls, c.2.2.table ≠ some m.table

instance : Decidable (Undisturbed h m calls) := inferInstanceAs (Decidable (_ → _))

/-- A JS function that is called while a guard of `k` is alive. -/
theorem call_run {k : Table} {b : Borrow} (hb : b ≠ .free) (hp : k ≠ .pendingReads) (hq : k ≠ .outputQueues) (f : F)
    (arg : Arg) :
    call calls f arg (Function.update noGuards k b) h =
      if ∀ c ∈ calls, c.2.2.table ≠ some k then some ([.call f arg], calls.foldl State.invoke h) else none := by
  have hp := (update_noGuards_eq_free hb).mpr hp.symm
  have hq := (update_noGuards_eq_free hb).mpr hq.symm
  have hfree : ∀ c : Reentrant W F,
      (∀ k' ∈ c.2.2.table, Function.update noGuards k b k' = .free) ↔ c.2.2.table ≠ some k := by
    intro c
    cases c.2.2.table with
    | none => simp
    | some k' => simp [update_noGuards_eq_free hb]
  rw [call, bind_run, forM_run fun h c => contextFunction_run hp hq c]
  simp only [hfree]
  split <;> rfl

/-- What is done for each kind of output, and for the other message types, goes by the function that is called. -/
theorem childCallee_elim {α : Type} {msgType : MsgType} {data : Bytes} {stdout stderr exit : F} (k : F → Arg → α)
    (d : α) :
    (if msgType = MSG_TYPE_CHILD_STDOUT then k stdout (.bytes data)
      else if msgType = MSG_TYPE_CHILD_STDERR then k stderr (.bytes data)
      else if msgType = MSG_TYPE_CHILD_EXIT then k exit (.number (if 4 ≤ data.length then fromLeBytes data else 0))
      else d) =
      (childCallee msgType data (stdout, stderr, exit)).elim d fun p => k p.1 p.2 := by
  unfold childCallee
  split
  · rfl
  · split
    · rfl
    · split <;> rfl

/-- A message that finds no function leaves everything as it is. -/
theorem executeReentrant_of_callee_none (hc : h.callee m = none) (parse : Bytes → Except String Unit)
    (r : HandlerResult) :
    h.execute parse m.message r = (h, []) ∧ executeReentrant calls m noGuards h = some ([], h) := by
  cases m with
  | hostExecWrite w s data =>
    have hw : (h.slots s).stdinWriter = none := Option.map_eq_none_iff.mp hc
    rw [executeReentrant, shared_run rfl, bind_of_run (onSlot_run _)]
    simp [State.execute, HandlerMessage.message, Slot.execute, hw]
  | hostExecCloseStdin w s =>
    have hw : (h.slots s).stdinWriter = none := Option.map_eq_none_iff.mp hc
    have hv : { h.slots s with stdinWriter := none } = h.slots s := by rw [← hw]
    rw [executeReentrant, exclusive_run rfl, bind_of_run (onSlot_run _)]
    simp [State.execute, HandlerMessage.message, Slot.execute, hw, hv]
  | hostExecSignal w s signal =>
    have hw : (h.slots s).signalHandler = none := Option.map_eq_none_iff.mp hc
    rw [executeReentrant, shared_run rfl, bind_of_run (onSlot_run _)]
    simp [State.execute, HandlerMessage.message, Slot.execute, hw]
  | hostExecChildOutput w s childId msgType data =>
    rw [executeReentrant, shared_run rfl, act_bind]
    simp only [State.execute, HandlerMessage.message, State.childOutput]
    cases hh : h.childOutputHandlers childId with
    | none => simp
    | some p =>
      have hf : childCallee msgType data p = none := by simpa [State.callee, hh] using hc
      simp only [childCallee_elim fun f arg => [Effect.call f arg], childCallee_elim (call calls), Prod.mk.eta, hf,
        Option.elim_none, pure_run, true_and]

/-- A function that a message finds is called while a guard of its table is alive. -/
theorem executeReentrant_of_callee {f : F} {arg : Arg} (hc : h.callee m = some (f, arg))
    (parse : Bytes → Except String Unit) (r : HandlerResult) :
    ∃ b, b ≠ .free ∧ (h.execute parse m.message r).2 = [.call f arg] ∧
      executeReentrant calls m noGuards h =
        call calls f arg (Function.update noGuards m.table b) (h.execute parse m.message r).1 := by
  cases m with
  | hostExecWrite w s data =>
    obtain ⟨p, hw, heq⟩ := Option.map_eq_some_iff.mp hc
    cases heq
    refine ⟨.shared, by decide, ?_, ?_⟩
    · simp [State.execute, HandlerMessage.message, Slot.execute, hw]
    · rw [executeReentrant, shared_run rfl, bind_of_run (onSlot_run _)]
      simp [State.execute, HandlerMessage.message, Slot.execute, hw, HandlerMessage.table]
  | hostExecCloseStdin w s =>
    obtain ⟨p, hw, heq⟩ := Option.map_eq_some_iff.mp hc
    cases heq
    refine ⟨.exclusive, by decide, ?_, ?_⟩
    · simp [State.execute, HandlerMessage.message, Slot.execute, hw]
    · rw [executeReentrant, exclusive_run rfl, bind_of_run (onSlot_run _)]
      simp [State.execute, HandlerMessage.message, Slot.execute, hw, HandlerMessage.table]
  | hostExecSignal w s signal =>
    obtain ⟨kill, hw, heq⟩ := Option.map_eq_some_iff.mp hc
    cases heq
    refine ⟨.shared, by decide, ?_, ?_⟩
    · simp [State.execute, HandlerMessage.message, Slot.execute, hw]
    · rw [executeReentrant, shared_run rfl, bind_of_run (onSlot_run _)]
      simp [State.execute, HandlerMessage.message, Slot.execute, hw, HandlerMessage.table]
  | hostExecChildOutput w s childId msgType data =>
    obtain ⟨p, hh, hf⟩ := Option.bind_eq_some_iff.mp hc
    refine ⟨.shared, by decide, ?_, ?_⟩
    · simp only [State.execute, HandlerMessage.message, State.childOutput, hh]
      rw [childCallee_elim fun f arg => [Effect.call f arg], hf, Option.elim_some]
    · rw [executeReentrant, shared_run rfl, act_bind]
      simp only [State.execute, HandlerMessage.message, hh]
      rw [childCallee_elim (call calls), hf, Option.elim_some, HandlerMessage.table]

/-- Where nothing panics, the JS function's calls happen after the message as if they had come on their own. -/
theorem executeReentrant_run (parse : Bytes → Except String Unit) (r : HandlerResult) :
    executeReentrant calls m noGuards h =
      if Undisturbed h m calls then
        some ((h.execute parse m.message r).2,
          (if (h.callee m).isSome then calls else []).foldl State.invoke (h.execute parse m.message r).1)
      else none := by
  cases hc : h.callee m with
  | none =>
    obtain ⟨hx, hrun⟩ := executeReentrant_of_callee_none hc parse r
    rw [if_pos (by simp [Undisturbed, hc]), hrun, hx]
    simp
  | some p =>
    obtain ⟨b, hb, heff, hrun⟩ := executeReentrant_of_callee hc parse r
    have hiff : Undisturbed h m calls ↔ ∀ c ∈ calls, c.2.2.table ≠ some m.table := by simp [Undisturbed, hc]
    rw [hrun, call_run hb (by cases m <;> simp [HandlerMessage.table]) (by cases m <;> simp [HandlerMessage.table]),
      heff]
    simp only [hiff, Option.isSome_some, if_true]

/-- The scheduler panics exactly when it calls a JS function that registers a function in the table that is borrowed
    for the call. -/
theorem no_panic_iff : (executeReentrant calls m noGuards h).isSome ↔ Undisturbed h m calls := by
  rw [executeReentrant_run (fun _ => .ok ()) .promise]
  split <;> simp [*]

end Panics

/-- A call of a context function between two messages is that call from the JS function of a message. -/
theorem step_callback_invoke [DecidableEq W] {parse : Bytes → Except String Unit} {h h' : State W F} {w : W}
    {s : SessionId} {c : Callback F} (hs : step parse h (.callback w s c) = some h') :
    h' = { h.invoke (w, s, c) with log := h.log ++ [.called w s c] } := by
  obtain ⟨-, v, ms, hv, rfl⟩ := step_callback_inv hs
  simp [State.invoke, State.after, hv]

/-- A handler that asks for the next child when a child has ended. -/
theorem spawn_on_exit_panics :
    ¬ ∀ h : State Nat Nat, Reach (step fun _ => .ok ()) .init h →
      ∀ (m : HandlerMessage Nat) (calls : List (Reentrant Nat Nat)), (∀ c ∈ calls, (c.1, c.2.1) ∈ h.contexts) →
        (executeReentrant calls m noGuards h).isSome := by
  intro hall
  obtain ⟨h, hr, hc, hfound⟩ : ∃ h : State Nat Nat, Reach (step fun _ => .ok ()) .init h ∧ (0, 7) ∈ h.contexts ∧
      (h.callee (.hostExecChildOutput 0 7 1 MSG_TYPE_CHILD_EXIT [0, 0, 0, 0])).isSome :=
    exists_reach (Event.started 0 7 ++ [.callback 0 7 (.requestSpawn 1 (some (10, 11, 12)) [])]) _ (by decide)
  have hok := hall h hr (.hostExecChildOutput 0 7 1 MSG_TYPE_CHILD_EXIT [0, 0, 0, 0])
    [(0, 7, .requestSpawn 2 (some (20, 21, 22)) [])] (by simpa using hc)
  rw [executeReentrant_run (fun _ => .ok ()) .promise, if_neg] at hok
  · cases hok
  · intro hund
    exact hund hfound _ (List.mem_singleton.mpr rfl) rfl

end HostExec
end WasmerJs
