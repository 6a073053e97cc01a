import WasmerJs.HostExec.LaneStep
import WasmerJs.HostExec.Log

/-! The output of a session on its way to the reader, when the next read is sent only after the previous one was
    answered. A message waits in the queue, or travels in a `HostExecReadComplete`, but never both at once, which is
    why the order stays. -/

namespace WasmerJs
namespace HostExec

open Transition

variable {W F : Type}

/-! ### One reader -/

/-- A read or a try-read is sent only when every earlier one of the session has been answered. -/
def OneReadAtATime (l : Lane W F) : Event W F → Prop
  | .post m => m.isRead → asked l.log = answered l.log
  | _ => True

instance (l : Lane W F) (e : Event W F) : Decidable (OneReadAtATime l e) :=
  match e with
  | .post m => inferInstanceAs (Decidable (m.isRead → _))
  | .setHandler _ | .process .. | .callback .. | .settle .. => inferInstanceAs (Decidable True)

/-- The messages in the mailbox that an answer to a read or a try-read is to come from. -/
def SchedulerMessage.isWaiting : SchedulerMessage W → Bool
  | hostExecRead .. | hostExecTryRead .. | hostExecReadComplete .. => true
  | _ => false

/-- How many reads and try-reads wait for their answer. -/
def Lane.waiting (l : Lane W F) : Nat :=
  l.mail.countP SchedulerMessage.isWaiting + if l.slot.pending.isSome then 1 else 0

structure Lane.OneReader (l : Lane W F) : Prop where
  balance : asked l.log = answered l.log + l.waiting
  one : l.waiting ≤ 1

theorem isRead_isWaiting {m : SchedulerMessage W} (hr : m.isRead) : m.isWaiting := by
  cases m <;> first | rfl | cases hr

theorem isWaiting_of_not_complete {m : SchedulerMessage W} (hc : m.isComplete = false) : m.isWaiting = m.isRead := by
  cases m <;> first | rfl | cases hc

theorem isControl_isWaiting {m : SchedulerMessage W} (hc : m.isControl) : m.isWaiting = false := by
  cases m <;> first | rfl | cases hc

/-- Effects that only call functions of the JS side are no answers. -/
theorem calls_not_answers {effects : List (Effect W F)} (he : ∀ e ∈ effects, ∃ f arg, e = .call f arg) :
    effects.countP Effect.isAnswer = 0 ∧ effects.filterMap Effect.output? = [] ∧
      ∀ x ∈ effects, x.isExit = false := by
  refine ⟨?_, ?_, ?_⟩
  · refine List.countP_eq_zero.mpr fun x hx => ?_
    obtain ⟨f, arg, rfl⟩ := he x hx
    simp [Effect.isAnswer]
  · refine List.filterMap_eq_nil_iff.mpr fun x hx => ?_
    obtain ⟨f, arg, rfl⟩ := he x hx
    rfl
  · intro x hx
    obtain ⟨f, arg, rfl⟩ := he x hx
    rfl

/-! ### The stream of messages -/

/-- The message that a `HostExecReadComplete` carries, apart from the exit code. -/
def SchedulerMessage.output? : SchedulerMessage W → Option (MsgType × Bytes)
  | hostExecReadComplete _ _ msgType data => if msgType = MSG_TYPE_EXIT then none else some (msgType, data)
  | _ => none

/-- An exit code is answered only after the promise has settled, and after every message from before that. -/
def ExitsLast (log : List (Entry W F)) : Prop :=
  ∀ pre e post, log = pre ++ e :: post → (∃ x ∈ e.effects, x.isExit) →
    0 < settlements pre ∧ producedBefore pre <+: outputs pre

structure Lane.Streamed (l : Lane W F) : Prop where
  stream : produced l.log = outputs l.log ++ l.mail.filterMap SchedulerMessage.output? ++ l.slot.output
  settled : l.slot.result ≠ none → 0 < settlements l.log
  exitMail : ∀ w s data, .hostExecReadComplete w s MSG_TYPE_EXIT data ∈ l.mail →
    0 < settlements l.log ∧ producedBefore l.log <+: outputs l.log
  exitsLast : ExitsLast l.log

theorem ExitsLast.nil : ExitsLast ([] : List (Entry W F)) := by
  intro pre e post h
  simp at h

theorem ExitsLast.append {log : List (Entry W F)} {e : Entry W F} (h : ExitsLast log)
    (he : (∃ x ∈ e.effects, x.isExit) → 0 < settlements log ∧ producedBefore log <+: outputs log) :
    ExitsLast (log ++ [e]) :=
  forall_entry_concat.mpr ⟨h, he⟩

theorem producedBefore_outputs {log : List (Entry W F)} {e : Entry W F}
    (h : 0 < settlements log ∧ producedBefore log <+: outputs log) :
    0 < settlements (log ++ [e]) ∧ producedBefore (log ++ [e]) <+: outputs (log ++ [e]) := by
  refine ⟨by simp; omega, ?_⟩
  rw [producedBefore_append h.1, outputs_append]
  exact h.2.trans (List.prefix_append _ _)

/-- A step that sends no exit code keeps the order, if it keeps the stream. -/
theorem Lane.Streamed.append {l l' : Lane W F} {e : Entry W F} (hl : l.Streamed) (hlog : l'.log = l.log ++ [e])
    (hstream : produced (l.log ++ [e]) =
      outputs (l.log ++ [e]) ++ l'.mail.filterMap SchedulerMessage.output? ++ l'.slot.output)
    (hres : l'.slot.result ≠ none → l.slot.result ≠ none ∨ e.isSettled)
    (hmail : ∀ w s data, .hostExecReadComplete w s MSG_TYPE_EXIT data ∈ l'.mail →
      .hostExecReadComplete w s MSG_TYPE_EXIT data ∈ l.mail)
    (hexit : (∃ x ∈ e.effects, x.isExit) → 0 < settlements l.log ∧ producedBefore l.log <+: outputs l.log) :
    l'.Streamed where
  stream := hlog ▸ hstream
  settled hr := by
    rw [hlog, settlements_append]
    rcases hres hr with hr | hs
    · have := hl.settled hr
      omega
    · simp [hs]
  exitMail w s data hm := hlog ▸ producedBefore_outputs (hl.exitMail w s data (hmail w s data hm))
  exitsLast := hlog ▸ hl.exitsLast.append hexit

theorem filterMap_output_eq_nil {mail : List (SchedulerMessage W)} (h : mail.countP SchedulerMessage.isWaiting = 0) :
    mail.filterMap SchedulerMessage.output? = [] := by
  refine List.filterMap_eq_nil_iff.mpr fun m hm => ?_
  have hw := List.countP_eq_zero.mp h m hm
  cases m <;> first | rfl | exact absurd rfl hw

/-- While the only read is at the head of the mail, no answer is on its way. -/
theorem Lane.OneReader.of_read {l : Lane W F} (hl : l.OneReader) {m : SchedulerMessage W}
    {mail : List (SchedulerMessage W)} (hm : l.mail = m :: mail) (hr : m.isRead) :
    mail.filterMap SchedulerMessage.output? = [] := by
  have h1 := hl.one
  simp only [Lane.waiting, hm, List.countP_cons, isRead_isWaiting hr, ↓reduceIte] at h1
  exact filterMap_output_eq_nil (by omega)

/-- While the only read is parked, no answer is on its way. -/
theorem Lane.OneReader.of_parked {l : Lane W F} (hl : l.OneReader) {p : W × SessionId}
    (hp : l.slot.pending = some p) : l.mail.filterMap SchedulerMessage.output? = [] := by
  have h1 := hl.one
  simp only [Lane.waiting, hp, Option.isSome_some, ↓reduceIte] at h1
  exact filterMap_output_eq_nil (by omega)

/-! ### Steps -/

section Steps

variable [DecidableEq W] {parse : Bytes → Except String Unit} {l l' : Lane W F} {e : Event W F}

theorem LaneStep.oneReader (h : LaneStep parse l e l') (hl : l.OneReader) (ho : OneReadAtATime l e) :
    l'.OneReader := by
  obtain ⟨hb, h1⟩ := hl
  unfold Lane.waiting at hb h1
  cases h with
  | setHandler => exact ⟨hb, h1⟩
  | @post m hc =>
    have hw := isWaiting_of_not_complete hc
    by_cases hr : m.isRead
    · have := ho hr
      constructor <;> simp [Lane.waiting, Entry.isAsk, Entry.effects, hw, hr] <;> omega
    · constructor <;> simp [Lane.waiting, Entry.isAsk, Entry.effects, hw, hr] <;> omega
  | start hm | noData hm | completeExit hm | completeOutput hm | poll hm =>
    simp only [hm, List.countP_cons] at hb h1
    constructor <;>
      simp_all [Lane.waiting, Entry.isAsk, Entry.effects, Effect.isAnswer, SchedulerMessage.isWaiting] <;> omega
  | output hm _ hr | exit hm _ hr =>
    simp only [hm, List.countP_cons, isRead_isWaiting hr, ↓reduceIte] at hb h1
    constructor <;> simp [Lane.waiting, Entry.isAsk, Entry.effects, Effect.isAnswer] <;> omega
  | park hm =>
    simp only [hm, List.countP_cons, SchedulerMessage.isWaiting, ↓reduceIte] at hb h1
    constructor <;> simp [Lane.waiting, Entry.isAsk, Entry.effects, -List.countP_eq_zero] <;> omega
  | control hm hc he _ hp =>
    have := (calls_not_answers he).1
    simp only [hm, List.countP_cons, isControl_isWaiting hc, ← hp] at hb h1
    constructor <;> simp_all [Lane.waiting, Entry.isAsk, Entry.effects]
  | called _ hv =>
    cases hv with
    | quiet _ _ hp => constructor <;> simp_all [Lane.waiting, Entry.isAsk, Entry.effects]
    | queued => constructor <;> simp_all [Lane.waiting, Entry.isAsk, Entry.effects]
    | handed _ hp hp' =>
      simp only [hp, Option.isSome_some, ↓reduceIte] at hb h1
      constructor <;>
        simp [Lane.waiting, Entry.isAsk, Entry.effects, SchedulerMessage.isWaiting, hp', -List.countP_eq_zero] <;> omega
  | settle _ hp => constructor <;> simp_all [Lane.waiting, Entry.isAsk, Entry.effects]
  | settleParked _ hp =>
    simp only [hp, Option.isSome_some, ↓reduceIte] at hb h1
    constructor <;>
      simp [Lane.waiting, Entry.isAsk, Entry.effects, SchedulerMessage.isWaiting, -List.countP_eq_zero] <;> omega

theorem LaneStep.streamed (h : LaneStep parse l e l') (hp : l.Parked) (ht : l.Typed) (h1 : l.OneReader)
    (hl : l.Streamed) : l'.Streamed := by
  have hstream := hl.stream
  cases h with
  | setHandler => exact ⟨hl.stream, hl.settled, hl.exitMail, hl.exitsLast⟩
  | @post m hc =>
    refine hl.append rfl ?_ .inl ?_ (by simp [Entry.effects])
    · cases m <;> simp_all [Entry.effects, Entry.produced?, SchedulerMessage.output?, SchedulerMessage.isComplete]
    · intro w s data hm
      rcases List.mem_append.mp hm with hm | hm
      · exact hm
      · obtain rfl := List.mem_singleton.mp hm
        cases hc
  | start hm | park hm | noData hm | poll hm =>
    refine hl.append rfl ?_ .inl (fun w s data hd => hm ▸ List.mem_cons_of_mem _ hd)
      (by simp [Entry.effects, Effect.isExit])
    simp_all [Entry.effects, Entry.produced?, Effect.output?, SchedulerMessage.output?, Slot.output,
      List.filterMap_cons]
  | @output m s r mail msgType data rest hm _ hr ho =>
    have hne : msgType ≠ MSG_TYPE_EXIT := ht.output (msgType, data) (by simp [ho])
    refine hl.append rfl ?_ .inl (fun w s data hd => hm ▸ List.mem_cons_of_mem _ hd)
      (by simp [Entry.effects, Effect.isExit, hne])
    have hnil := h1.of_read hm hr
    have hread : m.output? = none := by cases m <;> first | rfl | cases hr
    rw [hm, List.filterMap_cons_none hread, hnil, ho] at hstream
    simp [Entry.effects, Entry.produced?, Effect.output?, hne, hstream, hnil, Slot.output]
  | @exit m s r mail code hm _ hr ho hres =>
    have hnil := h1.of_read hm hr
    have hread : m.output? = none := by cases m <;> first | rfl | cases hr
    rw [hm, List.filterMap_cons_none hread, hnil, ho, List.append_nil, List.append_nil] at hstream
    have hbefore := hstream ▸ producedBefore_prefix l.log
    refine hl.append rfl ?_ (absurd rfl) (fun w s data hd => hm ▸ List.mem_cons_of_mem _ hd)
      fun _ => ⟨hl.settled (by simp [hres]), hbefore⟩
    simp [Entry.effects, Entry.produced?, Effect.output?, hstream, hnil, Slot.output]
  | @completeExit w s data r mail hm hd =>
    refine hl.append rfl ?_ .inl (fun w s data hd => hm ▸ List.mem_cons_of_mem _ hd)
      fun _ => hl.exitMail w s data (by simp [hm])
    rw [hm, List.filterMap_cons_none (by simp [SchedulerMessage.output?])] at hstream
    simp [Entry.effects, Entry.produced?, Effect.output?, hstream]
  | @completeOutput w s msgType data r mail hm hd =>
    have hne : msgType ≠ MSG_TYPE_EXIT := by
      rintro rfl
      exact hd ⟨rfl, (ht.mail w s data (by simp [hm])).ge⟩
    refine hl.append rfl ?_ .inl (fun w s data hd => hm ▸ List.mem_cons_of_mem _ hd)
      (by simp [Entry.effects, Effect.isExit, hne])
    rw [hm, List.filterMap_cons_some (b := (msgType, data)) (by simp [SchedulerMessage.output?, hne])] at hstream
    simp [Entry.effects, Entry.produced?, Effect.output?, hne, hstream]
  | @control m r mail v effects hm hc he hr _ hq =>
    obtain ⟨-, hout, hexit⟩ := calls_not_answers he
    have hnone : m.output? = none := by cases m <;> first | rfl | cases hc
    refine hl.append rfl ?_ (fun hv => .inl (hr ▸ hv)) (fun w s data hd => hm ▸ List.mem_cons_of_mem _ hd)
      (by simpa [Entry.effects] using fun x hx hx' => absurd hx' (by simp [hexit x hx]))
    rw [hm, List.filterMap_cons_none hnone] at hstream
    simp [Entry.effects, Entry.produced?, hout, hstream, Slot.output, hq]
  | called hc hv =>
    cases hv with
    | quiet hc hr _ hq =>
      refine hl.append rfl ?_ (fun hv => .inl (hr ▸ hv)) (by simp) (by simp [Entry.effects])
      simp [Entry.effects, Entry.produced?, hc, hstream, Slot.output, hq]
    | queued hc =>
      refine hl.append rfl ?_ .inl (by simp) (by simp [Entry.effects])
      simp [Entry.effects, Entry.produced?, hc, hstream]
    | @handed m w s v' hc hpend _ hr ho =>
      have hne := Callback.message_ne_exit hc
      have hnil := h1.of_parked hpend
      rw [hnil, (hp (by simp [hpend])).1] at hstream
      refine hl.append rfl ?_ (fun hv => .inl (hr ▸ hv)) (by simp [Ne.symm hne]) (by simp [Entry.effects])
      simp [Entry.effects, Entry.produced?, hc, hstream, hnil, ho, SchedulerMessage.output?, hne]
  | settle =>
    refine hl.append rfl ?_ (fun _ => .inr rfl) (fun _ _ _ => id) (by simp [Entry.effects])
    simp [Entry.effects, Entry.produced?, hstream, Slot.output]
  | @settleParked w s r w' s' hw hpend =>
    -- Nothing is queued and nothing is on its way, so the reader has everything that was produced so far.
    have hnil := h1.of_parked hpend
    rw [hnil, (hp (by simp [hpend])).1, List.append_nil, List.append_nil] at hstream
    have hprefix := producedBefore_prefix (l.log ++ [.settled w s r])
    have hall : produced (l.log ++ [.settled w s r]) = outputs (l.log ++ [.settled w s r]) := by
      simp [Entry.effects, Entry.produced?, hstream]
    have hpos : 0 < settlements (l.log ++ [.settled w s r]) := by simp [Entry.isSettled]
    refine ⟨?_, fun _ => hpos, fun _ _ _ _ => ⟨hpos, hall ▸ hprefix⟩, hl.exitsLast.append (by simp [Entry.effects])⟩
    have hqueue : l.slot.queue.getD [] = [] := (hp (by simp [hpend])).1
    simpa [Slot.output, SchedulerMessage.output?, hnil, hqueue] using hall

end Steps

/-! ### Runs -/

/-- A session whose reads come one after the other: while one is parked nothing is stored for it, the messages that
    reads are answered with come in the order in which the callbacks produced them, without gaps or repetitions, and
    an exit code is answered only after every message from before the promise settled. -/
theorem output_in_order [DecidableEq W] {parse : Bytes → Except String Unit} {s : SessionId} {h : State W F}
    (hr : ReachVia (step parse) (OnLane s OneReadAtATime) State.init h) :
    ((h.slots s).pending ≠ none → (h.slots s).output = [] ∧ (h.slots s).result = none) ∧
      outputs (h.lane s).log <+: produced (h.lane s).log ∧ ExitsLast (h.lane s).log := by
  have h0 : (Lane.init : Lane W F).OneReader ∧ (Lane.init : Lane W F).Streamed :=
    ⟨⟨rfl, Nat.zero_le _⟩, rfl, fun hres => absurd rfl hres, fun _ _ _ hm => absurd hm List.not_mem_nil, .nil⟩
  obtain ⟨hp, -, hl⟩ := lane_invariant (I := fun l => l.OneReader ∧ l.Streamed) h0
    (fun hp ht hi ho hs => ⟨hs.oneReader hi.1 ho, hs.streamed hp ht hi.1 hi.2⟩) hr
  refine ⟨hp, ?_, hl.exitsLast⟩
  rw [hl.stream, List.append_assoc]
  exact List.prefix_append _ _

/-- A session whose messages travel in all three ways. -/
theorem output_in_order_travelling :
    let parse : Bytes → Except String Unit := fun _ => .ok ()
    ∃ h : State Nat Nat, ReachVia (step parse) (OnLane 7 OneReadAtATime) State.init h ∧
      produced (h.lane 7).log = [(MSG_TYPE_STDOUT, [1]), (MSG_TYPE_SPAWN_REQUEST, [2]), (MSG_TYPE_STDERR, [3])] ∧
      exits (h.lane 7).log = 1 ∧ outputs (h.lane 7).log <+: produced (h.lane 7).log ∧ ExitsLast (h.lane 7).log := by
  intro parse
  obtain ⟨h, hr, hp, he⟩ : ∃ h, ReachVia (step parse) (OnLane 7 OneReadAtATime) (State.init : State Nat Nat) h ∧
      produced (h.lane 7).log = [(MSG_TYPE_STDOUT, [1]), (MSG_TYPE_SPAWN_REQUEST, [2]), (MSG_TYPE_STDERR, [3])] ∧
      exits (h.lane 7).log = 1 :=
    exists_reachVia
      (List.flatten [
        Event.started 0 7,
        Event.handled (.hostExecRead 0 7),
        [.callback 0 7 (.onStdout [1]), .process (.hostExecReadComplete 0 7 MSG_TYPE_STDOUT [1]) .promise],
        Event.handled (.hostExecRead 0 7),
        [.callback 0 7 (.requestSpawn 8 none [2]),
          .process (.hostExecReadComplete 0 7 MSG_TYPE_SPAWN_REQUEST [2]) .promise,
          .callback 0 7 (.onStderr [3]), .settle 0 7 (.resolved 5)],
        Event.handled (.hostExecTryRead 0 7),
        Event.handled (.hostExecRead 0 7)])
      _ (by decide) (by decide)
  obtain ⟨-, hout, hlast⟩ := output_in_order hr
  exact ⟨h, hr, hp, he, hout, hlast⟩

end HostExec
end WasmerJs
