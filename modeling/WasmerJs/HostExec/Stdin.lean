import WasmerJs.HostExec.Log

/-! The input of a session (`HostExecWrite` and `HostExecCloseStdin` in `src/tasks/scheduler.rs`). A worker is told
    that its chunk is written as soon as the message is on its way. The scheduler hands it to the writer that is
    registered when the message is taken up, and drops it when there is none. -/

namespace WasmerJs
namespace HostExec

open Transition

variable {W F : Type}

/-! ### What the log says -/

/-- The chunk that is written to session `s`, or the end of its input, which comes without an argument. -/
def SchedulerMessage.stdin? (s : SessionId) : SchedulerMessage W → Option Arg
  | hostExecWrite _ s' data => if s' = s then some (.bytes data) else none
  | hostExecCloseStdin _ s' => if s' = s then some .none else none
  | _ => none

/-- Input that the worker has been told is written. -/
def Entry.accepted? (s : SessionId) : Entry W F → Option Arg
  | posted m => m.stdin? s
  | executed .. | called .. | settled .. => none

/-- Input that the scheduler has taken up. -/
def Entry.stdin? (s : SessionId) : Entry W F → Option Arg
  | executed m _ => m.stdin? s
  | posted _ | called .. | settled .. => none

def Callback.stdinWriter? : Callback F → Option (F × F)
  | setStdinWriter writer closer => some (writer, closer)
  | _ => none

/-- The writer and the closer that are registered for session `s`. -/
def Entry.registered? (s : SessionId) : Entry W F → Option (F × F)
  | called _ s' c => if s' = s then c.stdinWriter? else none
  | posted _ | executed .. | settled .. => none

def Effect.arg? : Effect W F → Option Arg
  | call _ arg => some arg
  | startResponse .. | readResponse .. | noData .. | pollResponse .. => none

/-- The call that hands a chunk to the writer, or the end of the input to the closer. -/
def stdinCall (p : F × F) : Arg → Effect W F
  | .none => .call p.2 .none
  | arg => .call p.1 arg

@[simp] theorem stdinCall_arg? (p : F × F) (a : Arg) : (stdinCall p a : Effect W F).arg? = some a := by
  cases a <;> rfl

def accepted (s : SessionId) (log : List (Entry W F)) : List Arg := log.filterMap (Entry.accepted? s)

/-- The JS functions that were called with input of session `s`, in order. -/
def stdinCalls (s : SessionId) (log : List (Entry W F)) : List (Effect W F) :=
  log.flatMap fun e => if (e.stdin? s).isSome then e.effects else []

def lastRegistered (s : SessionId) (log : List (Entry W F)) : Option (F × F) :=
  (log.filterMap (Entry.registered? s)).getLast?

/-- The input that the scheduler has not taken up. -/
def State.unread (h : State W F) (s : SessionId) : List Arg := h.mailbox.filterMap (·.stdin? s)

/-- Each JS function that was called with input of session `s` had been registered last. -/
def CallsLatest (s : SessionId) (log : List (Entry W F)) : Prop :=
  ∀ pre e post, log = pre ++ e :: post → ∀ a ∈ e.stdin? s, ∀ x ∈ e.effects,
    ∃ p, lastRegistered s pre = some p ∧ x = stdinCall p a

/-- The input that was accepted is handed on in order, each chunk once and to the writer that is registered, and the
    rest is still to be taken up. -/
structure Delivered (s : SessionId) (h : State W F) : Prop where
  all : (stdinCalls s h.log).filterMap Effect.arg? ++ h.unread s = accepted s h.log
  latest : CallsLatest s h.log

/-- Input is taken up when the session has a writer: `setStdinWriter` was called, and the input has not been closed
    since. -/
def FindsWriter (s : SessionId) (h : State W F) : Event W F → Prop
  | .process m _ => (m.stdin? s).isSome → (h.slots s).stdinWriter.isSome
  | _ => True

instance (s : SessionId) (h : State W F) : ∀ e, Decidable (FindsWriter s h e)
  | .process .. => inferInstanceAs (Decidable (_ → _))
  | .setHandler _ | .post _ | .callback .. | .settle .. => inferInstanceAs (Decidable True)

/-! ### The writer of a session -/

namespace Slot

variable {v : Slot W F} {m : SchedulerMessage W}

theorem deliver_stdin (m : MsgType × Bytes) :
    (v.deliver m).1.stdinWriter = v.stdinWriter ∧ ∀ m' ∈ (v.deliver m).2, m'.isComplete := by
  unfold deliver
  split <;> simp [pushBack, SchedulerMessage.isComplete]

theorem enqueue_stdin (m : MsgType × Bytes) :
    (v.enqueue m).1.stdinWriter = v.stdinWriter ∧ ∀ m' ∈ (v.enqueue m).2, m'.isComplete := by
  unfold enqueue
  split
  · split
    · rename_i hpop
      rw [(popFront_inv hpop).2]
      simp [pushBack, SchedulerMessage.isComplete]
    · simp [pushBack]
  · simp [pushBack]

/-- A callback registers a writer or leaves it alone. -/
theorem callback_stdin (c : Callback F) :
    (v.callback c).1.stdinWriter = c.stdinWriter?.or v.stdinWriter ∧ ∀ m ∈ (v.callback c).2, m.isComplete := by
  cases c with
  | onStdout | onStderr => exact deliver_stdin _
  | requestSpawn | spawnWriteStdin | spawnCloseStdin | spawnKill => exact enqueue_stdin _
  | setStdinWriter | setKillFunction | setChildOutputHandlers => exact ⟨rfl, by simp [callback]⟩

/-- Only the input of a session works on its writer. -/
theorem execute_stdin (hm : ∀ s, m.stdin? s = none) : (v.execute m).1.stdinWriter = v.stdinWriter := by
  cases m with
  | hostExecRead | hostExecTryRead =>
    simp only [execute]
    split
    · rename_i hn
      rcases nextAnswer_inv hn with ⟨_, _, -, -, hv⟩ | ⟨_, -, -, -, hv⟩ <;> rw [hv]
    · rfl
  | hostExecReadComplete | hostExecSignal =>
    simp only [execute]
    split <;> rfl
  | hostExecWrite _ s | hostExecCloseStdin _ s =>
    have := hm s
    simp [SchedulerMessage.stdin?] at this
  | hostExecStart | hostExecPoll | hostExecChildOutput => rfl

theorem settle_stdin (r : Settlement) :
    (v.settle r).1.stdinWriter = v.stdinWriter ∧ ∀ m ∈ (v.settle r).2, m.isComplete := by
  unfold settle
  split <;> simp [SchedulerMessage.isComplete]

end Slot

/-! ### What a step does with the input -/

/-- A step, as far as the input of session `s` goes. -/
inductive StdinStep (s : SessionId) (h h' : State W F) : Event W F → Prop where
  | handler {registered} (hlog : h'.log = h.log) (hmail : h'.unread s = h.unread s)
      (hw : (h'.slots s).stdinWriter = (h.slots s).stdinWriter) : StdinStep s h h' (.setHandler registered)
  | other {e} (hf : FindsWriter s h e) (x : Entry W F) (ha : x.accepted? s = none) (ht : x.stdin? s = none)
      (hr : x.registered? s = none) (hlog : h'.log = h.log ++ [x]) (hmail : h'.unread s = h.unread s)
      (hw : (h'.slots s).stdinWriter = (h.slots s).stdinWriter) : StdinStep s h h' e
  | accepted {m a} (hm : m.stdin? s = some a) (hlog : h'.log = h.log ++ [.posted m])
      (hmail : h'.unread s = h.unread s ++ [a]) (hw : (h'.slots s).stdinWriter = (h.slots s).stdinWriter) :
      StdinStep s h h' (.post m)
  | registered {w c p} (hc : c.stdinWriter? = some p) (hlog : h'.log = h.log ++ [.called w s c])
      (hmail : h'.unread s = h.unread s) (hw : (h'.slots s).stdinWriter = some p) : StdinStep s h h' (.callback w s c)
  | delivered {m r a p} (hm : m.stdin? s = some a) (hw : (h.slots s).stdinWriter = some p)
      (hlog : h'.log = h.log ++ [.executed m [stdinCall p a]]) (hmail : h.unread s = a :: h'.unread s)
      (hw' : ∀ q, (h'.slots s).stdinWriter = some q → q = p) : StdinStep s h h' (.process m r)
  | dropped {m r a} (hm : m.stdin? s = some a) (hw : (h.slots s).stdinWriter = none)
      (hlog : h'.log = h.log ++ [.executed m []]) (hmail : h.unread s = a :: h'.unread s)
      (hw' : (h'.slots s).stdinWriter = none) : StdinStep s h h' (.process m r)

section Steps

variable {parse : Bytes → Except String Unit} {h h' : State W F} {e : Event W F} {s : SessionId}

/-- Messages that the scheduler sends to itself are not input. -/
theorem unread_append {ms : List (SchedulerMessage W)} (hms : ∀ m ∈ ms, m.isComplete) :
    (h.mailbox ++ ms).filterMap (·.stdin? s) = h.unread s := by
  have hnil : ms.filterMap (·.stdin? s) = [] := by
    rw [List.filterMap_eq_nil_iff]
    intro m hm
    cases m <;> first | rfl | cases hms _ hm
  rw [List.filterMap_append, hnil, List.append_nil, State.unread]

/-- A message that is not input of session `s` leaves its writer alone. -/
theorem execute_stdinWriter {m : SchedulerMessage W} {r : HandlerResult} {effects : List (Effect W F)}
    (hm : m.stdin? s = none) (hx : h.execute parse m r = (h', effects)) :
    (h'.slots s).stdinWriter = (h.slots s).stdinWriter := by
  rcases execute_inv hx with ⟨w, id, json, rfl⟩ | ⟨-, rfl⟩ | ⟨s', v, hs', -, hv, rfl⟩
  · cases hx
    rfl
  · rfl
  · by_cases hs : s = s'
    · subst hs
      have hall : ∀ t, m.stdin? t = none := by
        intro t
        cases m <;> simp_all [SchedulerMessage.stdin?, SchedulerMessage.session?]
      have := Slot.execute_stdin (v := h.slots s) hall
      rw [hv] at this
      dsimp only at this
      simp [this]
    · simp [Function.update_of_ne hs]

/-- Input goes to the writer of its session, or nowhere. -/
theorem execute_input {m : SchedulerMessage W} {r : HandlerResult} {effects : List (Effect W F)} {a : Arg}
    (hm : m.stdin? s = some a) (hx : h.execute parse m r = (h', effects)) :
    (∃ p, (h.slots s).stdinWriter = some p ∧ effects = [stdinCall p a] ∧
        ∀ q, (h'.slots s).stdinWriter = some q → q = p) ∨
      (h.slots s).stdinWriter = none ∧ effects = [] ∧ (h'.slots s).stdinWriter = none := by
  cases m with
  | hostExecWrite w s' data =>
    obtain ⟨rfl, rfl⟩ : s' = s ∧ Arg.bytes data = a := by simpa [SchedulerMessage.stdin?] using hm
    cases hw : (h.slots s').stdinWriter with
    | none =>
      simp only [State.execute, Slot.execute, hw] at hx
      cases hx
      exact .inr ⟨rfl, rfl, by simpa using hw⟩
    | some p =>
      simp only [State.execute, Slot.execute, hw] at hx
      cases hx
      exact .inl ⟨p, rfl, rfl, by simp [hw]⟩
  | hostExecCloseStdin w s' =>
    obtain ⟨rfl, rfl⟩ : s' = s ∧ Arg.none = a := by simpa [SchedulerMessage.stdin?] using hm
    cases hw : (h.slots s').stdinWriter with
    | none =>
      simp only [State.execute, Slot.execute, hw] at hx
      cases hx
      exact .inr ⟨rfl, rfl, by simpa using hw⟩
    | some p =>
      simp only [State.execute, Slot.execute, hw] at hx
      cases hx
      exact .inl ⟨p, rfl, rfl, by simp⟩
  | _ => cases hm

variable [DecidableEq W]

theorem step_stdin (hs : step parse h e = some h') (s : SessionId) : StdinStep s h h' e := by
  cases e with
  | setHandler =>
    cases hs
    exact .handler rfl rfl rfl
  | post m =>
    obtain ⟨-, rfl⟩ := step_post_inv hs
    cases hm : m.stdin? s with
    | none => exact .other trivial (.posted m) hm rfl rfl rfl (by simp [State.unread, hm]) rfl
    | some a => exact .accepted hm rfl (by simp [State.unread, hm]) rfl
  | process m r =>
    obtain ⟨mailbox, h₁, effects, hmail, hx, rfl⟩ := step_process_inv hs
    obtain ⟨hrest, hlog⟩ := execute_frame hx
    dsimp only at hrest hlog
    cases hm : m.stdin? s with
    | none =>
      have hw : (h₁.slots s).stdinWriter = (h.slots s).stdinWriter :=
        execute_stdinWriter (h := { h with mailbox }) hm hx
      exact .other (by simp [FindsWriter, hm]) (.executed m effects) rfl hm rfl (by rw [hlog])
        (by simp [State.unread, hmail, hrest, hm]) hw
    | some a =>
      have hunread : h.unread s = a :: mailbox.filterMap (·.stdin? s) := by simp [State.unread, hmail, hm]
      rcases execute_input (h := { h with mailbox }) hm hx with ⟨p, hw, rfl, hw'⟩ | ⟨hw, rfl, hw'⟩
      · exact .delivered hm hw (by rw [hlog]) (by rw [hunread, State.unread, hrest]) hw'
      · exact .dropped hm hw (by rw [hlog]) (by rw [hunread, State.unread, hrest]) hw'
  | callback w s' c =>
    obtain ⟨-, v, ms, hv, rfl⟩ := step_callback_inv hs
    obtain ⟨hw, hms⟩ := (h.slots s').callback_stdin c
    rw [hv] at hw hms
    dsimp only at hw hms
    by_cases hs : s = s'
    · subst hs
      cases hc : c.stdinWriter? with
      | none =>
        exact .other trivial (.called w s c) rfl rfl (by simp [Entry.registered?, hc]) rfl (unread_append hms)
          (by simp [hw, hc])
      | some p => exact .registered hc rfl (unread_append hms) (by simp [hw, hc])
    · exact .other trivial (.called w s' c) rfl rfl (by simp [Entry.registered?, Ne.symm hs]) rfl (unread_append hms)
        (by simp [Function.update_of_ne hs])
  | settle w s' r =>
    obtain ⟨-, v, ms, hv, rfl⟩ := step_settle_inv hs
    obtain ⟨hw, hms⟩ := (h.slots s').settle_stdin r
    rw [hv] at hw hms
    dsimp only at hw hms
    refine .other trivial (.settled w s' r) rfl rfl rfl rfl (unread_append hms) ?_
    by_cases hs : s = s'
    · subst hs
      simp [hw]
    · simp [Function.update_of_ne hs]

end Steps

/-! ### Delivery -/

section Delivery

variable {log : List (Entry W F)} {x : Entry W F} {h h' : State W F} {e : Event W F} {s : SessionId}

theorem accepted_append : accepted s (log ++ [x]) = accepted s log ++ (x.accepted? s).toList := by
  cases hx : x.accepted? s <;> simp [accepted, hx]

theorem stdinCalls_append :
    stdinCalls s (log ++ [x]) = stdinCalls s log ++ if (x.stdin? s).isSome then x.effects else [] := by
  simp [stdinCalls]

theorem lastRegistered_append :
    lastRegistered s (log ++ [x]) = (x.registered? s).or (lastRegistered s log) := by
  cases hx : x.registered? s <;> simp [lastRegistered, hx]

theorem CallsLatest.append (hl : CallsLatest s log)
    (hx : ∀ a ∈ x.stdin? s, ∀ y ∈ x.effects, ∃ p, lastRegistered s log = some p ∧ y = stdinCall p a) :
    CallsLatest s (log ++ [x]) :=
  forall_entry_concat.mpr ⟨hl, hx⟩

/-- A session's input is delivered, and its writer is the one registered last. -/
structure StdinInv (s : SessionId) (h : State W F) : Prop where
  delivered : Delivered s h
  writer : ∀ p, (h.slots s).stdinWriter = some p → lastRegistered s h.log = some p

theorem StdinInv.init : StdinInv s (State.init : State W F) where
  delivered := ⟨rfl, fun pre e post hlog => by simp [State.init] at hlog⟩
  writer p hp := by cases hp

theorem StdinStep.inv (hs : StdinStep s h h' e) (hi : StdinInv s h) (ho : FindsWriter s h e) : StdinInv s h' := by
  obtain ⟨⟨hall, hlatest⟩, hwriter⟩ := hi
  cases hs with
  | handler hlog hmail hw =>
    exact ⟨⟨by rw [hlog, hmail, hall], by rwa [hlog]⟩, by rwa [hlog, hw]⟩
  | other _ x ha ht hr hlog hmail hw =>
    refine ⟨⟨?_, ?_⟩, ?_⟩
    · simpa [hlog, hmail, accepted_append, stdinCalls_append, ha, ht] using hall
    · rw [hlog]
      exact hlatest.append (by simp [ht])
    · simpa [hlog, hw, lastRegistered_append, hr] using hwriter
  | accepted hm hlog hmail hw =>
    refine ⟨⟨?_, ?_⟩, ?_⟩
    · simp [hlog, hmail, accepted_append, stdinCalls_append, Entry.accepted?, Entry.stdin?, hm, ← hall]
    · rw [hlog]
      exact hlatest.append (by simp [Entry.stdin?])
    · simpa [hlog, hw, lastRegistered_append, Entry.registered?] using hwriter
  | registered hc hlog hmail hw =>
    refine ⟨⟨?_, ?_⟩, ?_⟩
    · simpa [hlog, hmail, accepted_append, stdinCalls_append, Entry.accepted?, Entry.stdin?] using hall
    · rw [hlog]
      exact hlatest.append (by simp [Entry.stdin?])
    · simp [hlog, hw, lastRegistered_append, Entry.registered?, hc]
  | @delivered m r a p hm hw hlog hmail hw' =>
    refine ⟨⟨?_, ?_⟩, ?_⟩
    · rw [hmail] at hall
      simp [hlog, accepted_append, stdinCalls_append, Entry.accepted?, Entry.stdin?, Entry.effects, hm, ← hall]
    · rw [hlog]
      refine hlatest.append fun b hb y hy => ⟨p, hwriter p hw, ?_⟩
      obtain rfl : a = b := Option.some.inj (hm.symm.trans hb)
      exact List.mem_singleton.mp hy
    · intro q hq
      obtain rfl := hw' q hq
      simp [hlog, lastRegistered_append, Entry.registered?, hwriter q hw]
  | dropped hm hw =>
    have hsome : (h.slots s).stdinWriter.isSome := ho (by simp [hm])
    simp [hw] at hsome

/-- Input that is taken up without a writer is lost. -/
theorem StdinStep.lost (hs : StdinStep s h h' e) (hi : StdinInv s h) (ho : ¬ FindsWriter s h e) : ¬ Delivered s h' := by
  intro hd
  cases hs with
  | dropped hm hw hlog hmail =>
    have hall := hi.delivered.all
    have hall' := hd.all
    rw [hmail] at hall
    simp [hlog, accepted_append, stdinCalls_append, Entry.accepted?, Entry.stdin?, Entry.effects, hm, ← hall] at hall'
  | delivered hm hw => exact ho fun _ => by simp [hw]
  | other hf => exact ho hf
  | handler | accepted | registered => exact ho trivial

variable [DecidableEq W] {parse : Bytes → Except String Unit}

/-- Along a run the input of a session is delivered exactly as long as it is taken up when there is a writer. -/
theorem stdin_delivered_iff {es : List (Event W F)} (hr : run (step parse) .init es = some h) :
    RunAll (step parse) (Delivered s) .init es ↔ RunOk (step parse) (FindsWriter s) .init es :=
  runAll_iff_runOk (I := StdinInv s) StdinInv.delivered (fun hi ho hs => (step_stdin hs s).inv hi ho)
    (fun hi ho hs => (step_stdin hs s).lost hi ho) .init hr

/-- Two chunks are written and the input is closed, once the handler has registered a writer. -/
theorem stdin_delivered_registered :
    let parse : Bytes → Except String Unit := fun _ => .ok ()
    let es : List (Event Nat Nat) := List.flatten [
      Event.started 0 7,
      [.post (.hostExecWrite 0 7 [1]), .callback 0 7 (.setStdinWriter 10 11)],
      [.process (.hostExecWrite 0 7 [1]) .promise],
      Event.handled (.hostExecWrite 0 7 [2]),
      Event.handled (.hostExecCloseStdin 0 7)]
    (run (step parse) .init es).isSome ∧ RunAll (step parse) (Delivered 7) .init es := by
  intro parse es
  obtain ⟨h, hr⟩ := Option.isSome_iff_exists.mp (by decide : (run (step parse) .init es).isSome = true)
  exact ⟨by simp [hr], (stdin_delivered_iff hr).mpr (by decide)⟩

/-- The scheduler takes up a chunk and the end of the input before the handler has registered its writer. -/
theorem early_stdin_lost :
    let parse : Bytes → Except String Unit := fun _ => .ok ()
    ¬ ∀ h : State Nat Nat, Reach (step parse) .init h → Delivered 7 h := by
  intro parse hall
  obtain ⟨h, hr, hcalls, hread, hacc⟩ : ∃ h : State Nat Nat, Reach (step parse) .init h ∧
      stdinCalls 7 h.log = [] ∧ h.unread 7 = [] ∧ accepted 7 h.log = [.bytes [1], .none] :=
    exists_reach
      (List.flatten [
        Event.started 0 7,
        Event.handled (.hostExecWrite 0 7 [1]),
        Event.handled (.hostExecCloseStdin 0 7),
        [.callback 0 7 (.setStdinWriter 10 11)]])
      _ (by decide)
  have hall := (hall h hr).all
  rw [hcalls, hread, hacc] at hall
  cases hall

end Delivery

end HostExec
end WasmerJs
