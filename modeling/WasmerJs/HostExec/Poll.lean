import WasmerJs.HostExec.LaneStep

/-! What a positive answer to a poll is worth. A poll, a read and a try-read look up the queue and the exit code each on
    its own (`src/tasks/scheduler.rs`). What a poll has found is there until a read takes it, because nothing is queued
    or stored while a read is parked that could then be given to that read. -/

namespace WasmerJs
namespace HostExec

open Transition

variable {W F : Type}

/-- There is something to answer a read with. -/
def Slot.Ready (v : Slot W F) : Prop := v.nextAnswer ≠ none

/-- No read or try-read is handled. -/
def NoRead (_ : Lane W F) : Event W F → Prop
  | .process m _ => m.isRead = false
  | .setHandler _ | .post _ | .callback .. | .settle .. => True

instance (l : Lane W F) (e : Event W F) : Decidable (NoRead l e) :=
  match e with
  | .process .. => inferInstanceAs (Decidable (_ = false))
  | .setHandler _ | .post _ | .callback .. | .settle .. => inferInstanceAs (Decidable True)

/-- A message was answered with output or with the exit code. -/
def AnsweredAtOnce (m : SchedulerMessage W) (s : SessionId) (effects : List (Effect W F)) : Prop :=
  ∃ msgType n data, effects = [.readResponse m.worker s msgType n data]

/-- What a poll, a read and a try-read of worker `w` do in one and the same state. -/
structure PollAgrees (parse : Bytes → Except String Unit) (h : State W F) (w : W) (s : SessionId) (r : HandlerResult) :
    Prop where
  read : (h.execute parse (.hostExecPoll w s) r).2 = [.pollResponse w s true] ↔
    AnsweredAtOnce (.hostExecRead w s) s (h.execute parse (.hostExecRead w s) r).2
  tryRead : (h.execute parse (.hostExecPoll w s) r).2 = [.pollResponse w s true] ↔
    (h.execute parse (.hostExecTryRead w s) r).2 ≠ [.noData w s]
  -- The state and the answer.
  same : (h.execute parse (.hostExecPoll w s) r).2 = [.pollResponse w s true] →
    h.execute parse (.hostExecRead w s) r = h.execute parse (.hostExecTryRead w s) r

namespace Slot

variable {v v' : Slot W F} {m : SchedulerMessage W} {s : SessionId} {answer : Answer}

theorem ready_iff : v.Ready ↔ (!v.output.isEmpty || v.result.isSome) = true := by
  rw [Ready, ne_eq, nextAnswer_eq_none]
  cases v.result <;> simp

theorem Ready.congr (hv : v.Ready) (hr : v'.result = v.result) (hq : v'.output = v.output) :
    v'.Ready := by
  rw [Slot.ready_iff] at hv ⊢
  rwa [hr, hq]

theorem Ready.of_output (ho : v.output ≠ []) : v.Ready := by
  rw [Slot.ready_iff]
  simp [ho]

theorem Ready.of_result {code : ExitCode} (hr : v.result = some code) : v.Ready := by
  rw [Slot.ready_iff]
  simp [hr]

/-- A read and a try-read take the same answer out. -/
theorem execute_of_answer (hm : m.session? = some s) (hr : m.isRead) (hn : v.nextAnswer = some (answer, v')) :
    v.execute m = (v', [answer.effect m.worker s]) := by
  cases m with
  | hostExecRead | hostExecTryRead =>
    obtain rfl := Option.some.inj hm
    simp [execute, hn, SchedulerMessage.worker]
  | _ => cases hr

theorem answeredAtOnce (hm : m.session? = some s) (hr : m.isRead) (hv : v.Ready) :
    AnsweredAtOnce m s (v.execute m).2 := by
  obtain ⟨⟨answer, v'⟩, hn⟩ := Option.ne_none_iff_exists'.mp hv
  rw [execute_of_answer hm hr hn]
  cases answer with
  | output msgType data => exact ⟨_, _, _, rfl⟩
  | exit code => exact ⟨_, _, _, rfl⟩

end Slot

/-! ### One state -/

theorem pollAgrees (parse : Bytes → Except String Unit) (h : State W F) (w : W) (s : SessionId) (r : HandlerResult) :
    PollAgrees parse h w s r := by
  have hpoll : (h.execute parse (.hostExecPoll w s) r).2 = [.pollResponse w s true] ↔ (h.slots s).Ready := by
    rw [Slot.ready_iff]
    simp [State.execute, Slot.execute]
  by_cases hv : (h.slots s).Ready
  · obtain ⟨⟨answer, v⟩, hn⟩ := Option.ne_none_iff_exists'.mp hv
    have hread := Slot.execute_of_answer (m := .hostExecRead w s) rfl rfl hn
    have htry := Slot.execute_of_answer (m := .hostExecTryRead w s) rfl rfl hn
    refine ⟨?_, ?_, fun _ => ?_⟩
    · exact iff_of_true (hpoll.mpr hv) (Slot.answeredAtOnce (m := .hostExecRead w s) rfl rfl hv)
    · refine iff_of_true (hpoll.mpr hv) ?_
      simp only [State.execute, htry]
      cases answer <;> simp [Slot.Answer.effect]
    · simp only [State.execute, hread, htry]
      rfl
  · have hn : (h.slots s).nextAnswer = none := not_not.mp hv
    refine ⟨?_, ?_, fun hp => absurd (hpoll.mp hp) hv⟩
    · refine iff_of_false (fun hp => hv (hpoll.mp hp)) ?_
      rintro ⟨_, _, _, he⟩
      simp [State.execute, Slot.execute, hn] at he
    · refine iff_of_false (fun hp => hv (hpoll.mp hp)) ?_
      simp [State.execute, Slot.execute, hn]

/-! ### Runs -/

/-- Where there is something for a read, no read is parked. -/
theorem Lane.Parked.pending_eq_none {l : Lane W F} (hl : l.Parked) (hv : l.slot.Ready) : l.slot.pending = none := by
  by_contra hp
  exact hv (Slot.nextAnswer_eq_none.mpr (hl hp))

section Steps

variable [DecidableEq W] {parse : Bytes → Except String Unit} {l l' : Lane W F} {e : Event W F}

/-- What is there for a read stays until one is handled. -/
theorem LaneStep.ready (h : LaneStep parse l e l') (hl : l.Parked) (hv : l.slot.Ready) (ho : NoRead l e) :
    l'.slot.Ready := by
  have hpend := hl.pending_eq_none hv
  cases h with
  | output _ _ hr | exit _ _ hr => exact absurd hr (Bool.eq_false_iff.mp ho)
  | park | noData => cases ho
  | control _ _ _ hr _ hq => exact hv.congr hr (by rw [Slot.output, hq, Slot.output])
  | called _ hc =>
    cases hc with
    | quiet _ hr _ hq => exact hv.congr hr (by rw [Slot.output, hq, Slot.output])
    | queued => exact .of_output (by simp)
    | handed _ hp =>
      rw [hpend] at hp
      cases hp
  | settle => exact .of_result rfl
  | settleParked _ hp =>
    rw [hpend] at hp
    cases hp
  | _ => exact hv

/-- A poll that is answered leaves what it has looked at. -/
theorem step_poll_inv {h h' : State W F} {w : W} {s : SessionId} {r : HandlerResult}
    (hs : step parse h (.process (.hostExecPoll w s) r) = some h')
    (hlog : h'.log = h.log ++ [.executed (.hostExecPoll w s) [.pollResponse w s true]]) : (h'.slots s).Ready := by
  obtain ⟨mailbox, h₁, effects, -, hx, rfl⟩ := step_process_inv hs
  have hframe := (execute_frame hx).2
  cases hx
  rw [Slot.ready_iff]
  simpa [Slot.execute] using hlog

end Steps

/-- The next read is answered at once: it gets a message or the exit code. -/
def NextReadAnswered [DecidableEq W] (parse : Bytes → Except String Unit) (s : SessionId) (h : State W F) : Prop :=
  ∀ m r h', m.session? = some s → m.isRead → step parse h (.process m r) = some h' →
    ∃ effects, h'.log = h.log ++ [.executed m effects] ∧ AnsweredAtOnce m s effects

theorem nextReadAnswered [DecidableEq W] {parse : Bytes → Except String Unit} {s : SessionId} {h : State W F}
    (hv : (h.slots s).Ready) : NextReadAnswered parse s h := by
  intro m r h' hm hr hs
  obtain ⟨mailbox, h₁, effects, -, hx, rfl⟩ := step_process_inv hs
  refine ⟨effects, by rw [(execute_frame hx).2], ?_⟩
  rcases execute_inv hx with ⟨w, id, json, rfl⟩ | ⟨hnone, -⟩ | ⟨s', v, hm', -, hv', -⟩
  · cases hr
  · rw [hnone] at hm
    cases hm
  · obtain rfl := Option.some.inj (hm.symm.trans hm')
    have hans := Slot.answeredAtOnce hm hr hv
    have hslot : ((({ h with mailbox } : State W F).slots s).execute m).2 = effects := by rw [hv']
    rwa [← hslot]

/-- When a poll of a session has been answered with ready, the next read or try-read of the session is answered at
    once, whatever happens before. In one and the same state a poll, a read and a try-read agree. -/
theorem poll_never_taken_back [DecidableEq W] {parse : Bytes → Except String Unit} {s : SessionId} {h : State W F}
    (hr : Reach (step parse) State.init h) :
    (∀ w r h₁ h', step parse h (.process (.hostExecPoll w s) r) = some h₁ →
      h₁.log = h.log ++ [.executed (.hostExecPoll w s) [.pollResponse w s true]] →
      ReachVia (step parse) (OnLane s NoRead) h₁ h' → NextReadAnswered parse s h') ∧
    ∀ w r, PollAgrees parse h w s r := by
  refine ⟨fun w r h₁ h' hs hlog hrun => nextReadAnswered ?_, fun w r => pollAgrees parse h w s r⟩
  have hown : ParkedOwn h.slots := hr.invariant (I := fun h => ParkedOwn h.slots) .init fun hp _ hs => hp.step hs
  have hany : ReachVia (step parse) (OnLane s fun _ _ => True) State.init h := hr.mono fun _ _ _ _ => trivial
  have hparked : (h.lane s).Parked :=
    (lane_invariant (I := fun _ => True) trivial (fun _ _ _ _ _ => trivial) hany).1
  have hpoll : LaneStep parse (h.lane s) (.process (.hostExecPoll w s) r) (h₁.lane s) :=
    Lane.step_inv hparked ((lane_projects s).on hown rfl hs)
  have hlane := (lane_projects s).reachVia (hown.step hs) (fun _ _ ho ha => ho ha) hrun
  have hend : (h'.lane s).Parked ∧ (h'.lane s).slot.Ready := by
    refine hlane.invariant (I := fun l => l.Parked ∧ l.slot.Ready) ⟨hpoll.parked hparked, step_poll_inv hs hlog⟩ ?_
    intro l l' e ⟨hp, hv⟩ ho hs
    have hstep := Lane.step_inv hp hs
    exact ⟨hstep.parked hp, hstep.ready hp hv ho⟩
  exact hend.2

/-- A poll finds a message, and the promise settles before the read. -/
theorem poll_never_taken_back_queued :
    let parse : Bytes → Except String Unit := fun _ => .ok ()
    ∃ h h₁ h' : State Nat Nat, Reach (step parse) State.init h ∧
      step parse h (.process (.hostExecPoll 0 7) .promise) = some h₁ ∧
      ReachVia (step parse) (OnLane 7 NoRead) h₁ h' ∧ h'.mailbox = [.hostExecRead 0 7] ∧
      NextReadAnswered parse 7 h' ∧ PollAgrees parse h 0 7 .promise := by
  intro parse
  let later : List (Event Nat Nat) := [.settle 0 7 .rejected, .post (.hostExecRead 0 7)]
  obtain ⟨h, hr, hpoll⟩ : ∃ h, Reach (step parse) (State.init : State Nat Nat) h ∧
      (step parse h (.process (.hostExecPoll 0 7) .promise)).any (fun h₁ =>
        h₁.log = h.log ++ [.executed (.hostExecPoll 0 7) [.pollResponse 0 7 true]] ∧
          RunOk (step parse) (OnLane 7 NoRead) h₁ later ∧
          (run (step parse) h₁ later).any (·.mailbox = [.hostExecRead 0 7])) = true :=
    exists_reach (Event.started 0 7 ++ [.callback 0 7 (.onStdout [1]), .post (.hostExecPoll 0 7)]) _ (by decide)
  obtain ⟨h₁, hs, hpoll⟩ := (Option.any_eq_true _ _).mp hpoll
  obtain ⟨hlog, hok, hlater⟩ := of_decide_eq_true hpoll
  obtain ⟨h', hrun, hmail⟩ := (Option.any_eq_true _ _).mp hlater
  have hvia := reachVia_of_run hok hrun
  obtain ⟨hnext, hagrees⟩ := poll_never_taken_back hr
  exact ⟨h, h₁, h', hr, hs, hvia, of_decide_eq_true hmail, hnext 0 .promise h₁ h' hs hlog hvia, hagrees 0 .promise⟩

end HostExec
end WasmerJs
