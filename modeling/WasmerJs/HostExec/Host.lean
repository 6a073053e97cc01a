import WasmerJs.Lib.Transition
import WasmerJs.HostExec.Slot

/-! The main thread: the scheduler that takes the messages of its mailbox one after the other, and the JS side that
    calls the functions of the context objects and settles the handler's promises in between
    (`src/tasks/scheduler.rs`). Everything runs on one thread, so each event is one step. -/

namespace WasmerJs
namespace HostExec

/-- What has happened, oldest first. -/
inductive Entry (W F : Type) where
  | posted (m : SchedulerMessage W)
  | executed (m : SchedulerMessage W) (effects : List (Effect W F))
  | called (w : W) (s : SessionId) (c : Callback F)
  | settled (w : W) (s : SessionId) (r : Settlement)
  deriving DecidableEq

def Entry.session? {W F : Type} : Entry W F → Option SessionId
  | posted m | executed m _ => m.session?
  | called _ s _ | settled _ s _ => some s

section

variable {W F : Type} {m : SchedulerMessage W} {w : W} {s : SessionId}

@[simp] theorem Entry.posted_session? : (posted m : Entry W F).session? = m.session? := rfl

@[simp] theorem Entry.executed_session? {effects : List (Effect W F)} :
    (executed m effects).session? = m.session? := rfl

@[simp] theorem Entry.called_session? {c : Callback F} : (called w s c).session? = some s := rfl

@[simp] theorem Entry.settled_session? {r : Settlement} : (settled w s r : Entry W F).session? = some s := rfl

end

/-- The worker that an entry is about; for the callbacks and the promise of a handler, the one that started the
    session. -/
def Entry.worker {W F : Type} : Entry W F → W
  | posted m | executed m _ => m.worker
  | called w _ _ | settled w _ _ => w

/-- Named, so that every test for a session in a list is one and the same. -/
instance instDecidableMemSession {W : Type} [DecidableEq W] (x : W × SessionId) (xs : List (W × SessionId)) :
    Decidable (x ∈ xs) :=
  inferInstance

/-- The state of the main thread. A context object, or a promise that has not settled, is known by the worker and
    the session id of the start that made it. -/
structure State (W F : Type) where
  -- `HOST_EXEC_HANDLER` is set.
  handler : Bool
  slots : SessionId → Slot W F
  -- `CHILD_OUTPUT_HANDLERS`, keyed by child ids, and by session ids for `setChildOutputHandlers`.
  childOutputHandlers : ChildId → Option (F × F × F)
  mailbox : List (SchedulerMessage W)
  contexts : List (W × SessionId)
  promises : List (W × SessionId)
  log : List (Entry W F)

def State.init {W F : Type} : State W F :=
  { handler := false
    slots := fun _ => .empty
    childOutputHandlers := fun _ => none
    mailbox := []
    contexts := []
    promises := []
    log := [] }

/-- The events on the main thread. A message of a worker arrives, the scheduler takes the first message of its
    mailbox (`r` is what the JS handler does if it is called for it), the JS side calls a function of a context
    object, or the promise of a handler settles. -/
inductive Event (W F : Type) where
  | setHandler (registered : Bool)
  | post (m : SchedulerMessage W)
  | process (m : SchedulerMessage W) (r : HandlerResult)
  | callback (w : W) (s : SessionId) (c : Callback F)
  | settle (w : W) (s : SessionId) (r : Settlement)
  deriving DecidableEq

/-- A session is started, and its handler returns a promise. -/
def Event.started {W F : Type} (w : W) (s : SessionId) : List (Event W F) :=
  [.setHandler true, .post (.hostExecStart w s []), .process (.hostExecStart w s []) .promise]

/-- A message arrives, and the scheduler takes it up. -/
def Event.handled {W F : Type} (m : SchedulerMessage W) : List (Event W F) := [.post m, .process m .promise]

/-! ### Starting a session -/

/-- How `HostExecStart` ends; `parse` is the JSON parser for requests. A context object is made before the handler is
    called, and stays with the JS side whatever the handler does. -/
inductive StartResult where
  | noContext (error : String)
  | failed (error : String)
  | started

def startResult (parse : Bytes → Except String Unit) (handler : Bool) (requestJson : Bytes) (r : HandlerResult) :
    StartResult :=
  match parse requestJson with
  | .error e => .noContext ("Failed to parse request: " ++ e)
  | .ok () =>
    if handler then
      match r with
      | .promise => .started
      | .notPromise => .failed "Handler did not return a Promise"
      | .threw e => .failed ("Handler failed: " ++ e)
    else .noContext "host_exec handler not registered"

def StartResult.hasContext : StartResult → Bool
  | noContext _ => false
  | failed _ | started => true

def StartResult.hasPromise : StartResult → Bool
  | started => true
  | noContext _ | failed _ => false

/-- The response to the worker; the session id is the id of the request. -/
def StartResult.response (requestId : SessionId) : StartResult → Except String SessionId
  | noContext e | failed e => .error e
  | started => .ok requestId

/-! ### Steps -/

section Steps

variable {W F : Type}

/-- The output of a child process goes to the functions that were registered for the child. -/
def State.childOutput (h : State W F) (childId : ChildId) (msgType : MsgType) (data : Bytes) : List (Effect W F) :=
  match h.childOutputHandlers childId with
  | some (stdout, stderr, exit) =>
    if msgType = MSG_TYPE_CHILD_STDOUT then [.call stdout (.bytes data)]
    else if msgType = MSG_TYPE_CHILD_STDERR then [.call stderr (.bytes data)]
    else if msgType = MSG_TYPE_CHILD_EXIT then
      [.call exit (.number (if 4 ≤ data.length then fromLeBytes data else 0))]
    else []
  | none => []

/-- `SchedulerState::execute` on the `host_exec` messages. -/
def State.execute (parse : Bytes → Except String Unit) (h : State W F) (m : SchedulerMessage W) (r : HandlerResult) :
    State W F × List (Effect W F) :=
  match m with
  | .hostExecStart w id json =>
    let result := startResult parse h.handler json r
    let contexts := if result.hasContext then h.contexts ++ [(w, id)] else h.contexts
    let promises := if result.hasPromise then h.promises ++ [(w, id)] else h.promises
    ({ h with contexts, promises }, [.startResponse w id (result.response id)])
  | .hostExecChildOutput _ _ childId msgType data => (h, h.childOutput childId msgType data)
  | .hostExecRead _ s | .hostExecReadComplete _ s _ _ | .hostExecWrite _ s _ | .hostExecCloseStdin _ s
  | .hostExecTryRead _ s | .hostExecPoll _ s | .hostExecSignal _ s _ =>
    let (v, effects) := (h.slots s).execute m
    ({ h with slots := Function.update h.slots s v }, effects)

/-- The functions that a callback registers for the output of child processes. -/
def State.registered (h : State W F) (s : SessionId) : Callback F → ChildId → Option (F × F × F)
  | .requestSpawn childId (some handlers) _ => Function.update h.childOutputHandlers childId (some handlers)
  | .setChildOutputHandlers handlers => Function.update h.childOutputHandlers s (some handlers)
  | _ => h.childOutputHandlers

def step [DecidableEq W] (parse : Bytes → Except String Unit) (h : State W F) : Event W F → Option (State W F)
  | .setHandler registered => some { h with handler := registered }
  | .post m => if m.isComplete then none else some { h with mailbox := h.mailbox ++ [m], log := h.log ++ [.posted m] }
  | .process m r =>
    match h.mailbox with
    | [] => none
    | head :: mailbox =>
      if head = m then
        let (h, effects) := { h with mailbox }.execute parse m r
        some { h with log := h.log ++ [.executed m effects] }
      else none
  | .callback w s c =>
    if (w, s) ∈ h.contexts then
      let (v, ms) := (h.slots s).callback c
      some { h with
        slots := Function.update h.slots s v
        childOutputHandlers := h.registered s c
        mailbox := h.mailbox ++ ms
        log := h.log ++ [.called w s c] }
    else none
  | .settle w s r =>
    if (w, s) ∈ h.promises then
      let (v, ms) := (h.slots s).settle r
      some { h with
        slots := Function.update h.slots s v
        promises := h.promises.erase (w, s)
        mailbox := h.mailbox ++ ms
        log := h.log ++ [.settled w s r] }
    else none

/-! ### What an event does -/

variable {parse : Bytes → Except String Unit} {h h' : State W F}

/-- A message starts a session, or it is the output of a child, or it works on the entries of its session. -/
theorem execute_inv {m : SchedulerMessage W} {r : HandlerResult} {effects : List (Effect W F)}
    (hx : h.execute parse m r = (h', effects)) :
    (∃ w id json, m = .hostExecStart w id json) ∨ (m.session? = none ∧ h' = h) ∨
      ∃ s v, m.session? = some s ∧ m.isStart = false ∧ (h.slots s).execute m = (v, effects) ∧
        h' = { h with slots := Function.update h.slots s v } := by
  cases m with
  | hostExecStart w id json => exact .inl ⟨w, id, json, rfl⟩
  | hostExecChildOutput =>
    cases hx
    exact .inr (.inl ⟨rfl, rfl⟩)
  | _ =>
    cases hx
    exact .inr (.inr ⟨_, _, rfl, rfl, rfl, rfl⟩)

theorem execute_frame {m : SchedulerMessage W} {r : HandlerResult} {effects : List (Effect W F)}
    (hx : h.execute parse m r = (h', effects)) : h'.mailbox = h.mailbox ∧ h'.log = h.log := by
  rcases execute_inv hx with ⟨w, id, json, rfl⟩ | ⟨-, rfl⟩ | ⟨s, v, -, -, -, rfl⟩
  · cases hx
    exact ⟨rfl, rfl⟩
  · exact ⟨rfl, rfl⟩
  · exact ⟨rfl, rfl⟩

variable [DecidableEq W]

theorem step_post_inv {m : SchedulerMessage W} (hs : step parse h (.post m) = some h') :
    m.isComplete = false ∧ h' = { h with mailbox := h.mailbox ++ [m], log := h.log ++ [.posted m] } := by
  simp only [step] at hs
  split at hs
  · cases hs
  · exact ⟨Bool.eq_false_iff.mpr ‹_›, (Option.some.inj hs).symm⟩

theorem step_process_inv {m : SchedulerMessage W} {r : HandlerResult} (hs : step parse h (.process m r) = some h') :
    ∃ mailbox h₁ effects, h.mailbox = m :: mailbox ∧ { h with mailbox }.execute parse m r = (h₁, effects) ∧
      h' = { h₁ with log := h₁.log ++ [.executed m effects] } := by
  simp only [step] at hs
  split at hs
  · cases hs
  · split at hs
    · rename_i mailbox hm hhead
      subst hhead
      exact ⟨mailbox, _, _, hm, rfl, (Option.some.inj hs).symm⟩
    · cases hs

theorem step_callback_inv {w : W} {s : SessionId} {c : Callback F} (hs : step parse h (.callback w s c) = some h') :
    (w, s) ∈ h.contexts ∧ ∃ v ms, (h.slots s).callback c = (v, ms) ∧
      h' = { h with
        slots := Function.update h.slots s v
        childOutputHandlers := h.registered s c
        mailbox := h.mailbox ++ ms
        log := h.log ++ [.called w s c] } := by
  simp only [step] at hs
  split at hs
  · exact ⟨‹_›, _, _, rfl, (Option.some.inj hs).symm⟩
  · cases hs

theorem step_settle_inv {w : W} {s : SessionId} {r : Settlement} (hs : step parse h (.settle w s r) = some h') :
    (w, s) ∈ h.promises ∧ ∃ v ms, (h.slots s).settle r = (v, ms) ∧
      h' = { h with
        slots := Function.update h.slots s v
        promises := h.promises.erase (w, s)
        mailbox := h.mailbox ++ ms
        log := h.log ++ [.settled w s r] } := by
  simp only [step] at hs
  split at hs
  · exact ⟨‹_›, _, _, rfl, (Option.some.inj hs).symm⟩
  · cases hs

end Steps

end HostExec
end WasmerJs
