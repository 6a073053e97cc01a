import WasmerJs.HostExec.Lane

/-! What an event does to the lane of its session, with everything it finds there. The results about single sessions
    are proved from this relation, one case for each path that a message can take. -/

namespace WasmerJs
namespace HostExec

open Transition

variable {W F : Type}

namespace Slot

/-- The three ways a callback goes: it has no message for the reader, or queues it, or hands it to the parked read.
    The child process callbacks queue first and hand out the front of the queue, which is the same as long as nothing
    is queued while a read is parked. -/
inductive CallbackResult (v : Slot W F) (c : Callback F) : Slot W F × List (SchedulerMessage W) → Prop where
  | quiet {v'} (hc : c.message = none) (hr : v'.result = v.result) (hp : v'.pending = v.pending)
      (hq : v'.queue = v.queue) : CallbackResult v c (v', [])
  | queued {m} (hc : c.message = some m) (hp : v.pending = none) : CallbackResult v c (v.pushBack m, [])
  | handed {m w s v'} (hc : c.message = some m) (hp : v.pending = some (w, s)) (hp' : v'.pending = none)
      (hr : v'.result = v.result) (ho : v'.output = []) :
      CallbackResult v c (v', [.hostExecReadComplete w s m.1 m.2])

variable {v : Slot W F} {m : MsgType × Bytes} {c : Callback F}

theorem deliver_result (hc : c.message = some m) (ho : v.pending ≠ none → v.output = []) :
    v.CallbackResult c (v.deliver m) := by
  unfold deliver
  split
  · rename_i w s hp
    exact .handed hc hp rfl rfl (ho (by simp [hp]))
  · exact .queued hc ‹_›

theorem enqueue_result (hc : c.message = some m) (ho : v.pending ≠ none → v.output = []) :
    v.CallbackResult c (v.enqueue m) := by
  unfold enqueue
  split
  · rename_i w s hp
    have hout : v.output = [] := ho (by simp [hp])
    simp only [popFront, pushBack, hout, List.nil_append]
    exact .handed hc hp rfl rfl rfl
  · exact .queued hc ‹_›

theorem callback_result (ho : v.pending ≠ none → v.output = []) : v.CallbackResult c (v.callback c) := by
  cases c with
  | onStdout | onStderr => exact deliver_result rfl ho
  | requestSpawn | spawnWriteStdin | spawnCloseStdin | spawnKill => exact enqueue_result rfl ho
  | setStdinWriter | setKillFunction | setChildOutputHandlers => exact .quiet rfl rfl rfl rfl

end Slot

/-- The messages that reach a function of the handler, or nothing: they are not answered. -/
def SchedulerMessage.isControl : SchedulerMessage W → Bool
  | hostExecWrite .. | hostExecCloseStdin .. | hostExecSignal .. | hostExecChildOutput .. => true
  | _ => false

/-- A step of a lane. The messages `m` at the head of the mail are about session `s`. -/
inductive LaneStep (parse : Bytes → Except String Unit) (l : Lane W F) [DecidableEq W] :
    Event W F → Lane W F → Prop where
  | setHandler {handler} : LaneStep parse l (.setHandler handler) { l with handler }
  | post {m} (hc : m.isComplete = false) :
      LaneStep parse l (.post m) { l with mail := l.mail ++ [m], log := l.log ++ [.posted m] }
  | start {w id json r mail result} (hm : l.mail = .hostExecStart w id json :: mail)
      (hres : startResult parse l.handler json r = result) :
      LaneStep parse l (.process (.hostExecStart w id json) r)
        { l with
          mail
          contexts := if result.hasContext then l.contexts ++ [(w, id)] else l.contexts
          promises := if result.hasPromise then l.promises ++ [(w, id)] else l.promises
          log := l.log ++ [.executed (.hostExecStart w id json) [.startResponse w id (result.response id)]] }
  -- A read or a try-read takes the front of the queue.
  | output {m s r mail msgType data rest} (hm : l.mail = m :: mail) (hs : m.session? = some s) (hr : m.isRead)
      (ho : l.slot.output = (msgType, data) :: rest) :
      LaneStep parse l (.process m r)
        { l with
          mail
          slot := { l.slot with queue := some rest }
          log := l.log ++
            [.executed m [.readResponse m.worker s msgType (BitVec.ofNat 32 data.length) (some data)]] }
  -- A read or a try-read takes the exit code.
  | exit {m s r mail code} (hm : l.mail = m :: mail) (hs : m.session? = some s) (hr : m.isRead)
      (ho : l.slot.output = []) (hres : l.slot.result = some code) :
      LaneStep parse l (.process m r)
        { l with
          mail
          slot := { l.slot with result := none, queue := none }
          log := l.log ++ [.executed m [.readResponse m.worker s MSG_TYPE_EXIT code none]] }
  | park {w s r mail} (hm : l.mail = .hostExecRead w s :: mail) (ho : l.slot.output = [])
      (hres : l.slot.result = none) :
      LaneStep parse l (.process (.hostExecRead w s) r)
        { l with
          mail
          slot := { l.slot with pending := some (w, s) }
          log := l.log ++ [.executed (.hostExecRead w s) []] }
  | noData {w s r mail} (hm : l.mail = .hostExecTryRead w s :: mail) (ho : l.slot.output = [])
      (hres : l.slot.result = none) :
      LaneStep parse l (.process (.hostExecTryRead w s) r)
        { l with mail, log := l.log ++ [.executed (.hostExecTryRead w s) [.noData w s]] }
  | completeExit {w s data r mail} (hm : l.mail = .hostExecReadComplete w s MSG_TYPE_EXIT data :: mail)
      (hd : 4 ≤ data.length) :
      LaneStep parse l (.process (.hostExecReadComplete w s MSG_TYPE_EXIT data) r)
        { l with
          mail
          log := l.log ++ [.executed (.hostExecReadComplete w s MSG_TYPE_EXIT data)
            [.readResponse w s MSG_TYPE_EXIT (fromLeBytes data) none]] }
  | completeOutput {w s msgType data r mail} (hm : l.mail = .hostExecReadComplete w s msgType data :: mail)
      (hd : ¬ (msgType = MSG_TYPE_EXIT ∧ 4 ≤ data.length)) :
      LaneStep parse l (.process (.hostExecReadComplete w s msgType data) r)
        { l with
          mail
          log := l.log ++ [.executed (.hostExecReadComplete w s msgType data)
            [.readResponse w s msgType (BitVec.ofNat 32 data.length) (some data)]] }
  | poll {w s r mail} (hm : l.mail = .hostExecPoll w s :: mail) :
      LaneStep parse l (.process (.hostExecPoll w s) r)
        { l with
          mail
          log := l.log ++
            [.executed (.hostExecPoll w s) [.pollResponse w s (!l.slot.output.isEmpty || l.slot.result.isSome)]] }
  | control {m r mail v effects} (hm : l.mail = m :: mail) (hc : m.isControl)
      (he : ∀ e ∈ effects, ∃ f arg, e = .call f arg) (hr : v.result = l.slot.result) (hp : v.pending = l.slot.pending)
      (hq : v.queue = l.slot.queue) :
      LaneStep parse l (.process m r) { l with mail, slot := v, log := l.log ++ [.executed m effects] }
  | called {w s c v ms} (hc : (w, s) ∈ l.contexts) (hv : l.slot.CallbackResult c (v, ms)) :
      LaneStep parse l (.callback w s c)
        { l with slot := v, mail := l.mail ++ ms, log := l.log ++ [.called w s c] }
  -- The promise settles while no read is parked.
  | settle {w s r} (hw : (w, s) ∈ l.promises) (hp : l.slot.pending = none) :
      LaneStep parse l (.settle w s r)
        { l with
          slot := { l.slot with result := some r.code }
          promises := l.promises.erase (w, s)
          log := l.log ++ [.settled w s r] }
  -- The promise settles while a read is parked: the code is stored, and sent as well.
  | settleParked {w s r w' s'} (hw : (w, s) ∈ l.promises) (hp : l.slot.pending = some (w', s')) :
      LaneStep parse l (.settle w s r)
        { l with
          slot := { l.slot with result := some r.code, pending := none }
          promises := l.promises.erase (w, s)
          mail := l.mail ++ [.hostExecReadComplete w' s' MSG_TYPE_EXIT (toLeBytes (n := 4) r.code)]
          log := l.log ++ [.settled w s r] }

/-- While a read is parked, there is nothing that could answer it. -/
def Lane.Parked (l : Lane W F) : Prop :=
  l.slot.pending ≠ none → l.slot.output = [] ∧ l.slot.result = none

variable [DecidableEq W] {parse : Bytes → Except String Unit} {l l' : Lane W F} {e : Event W F}

theorem Lane.read_inv {m : SchedulerMessage W} {r : HandlerResult} {mail : List (SchedulerMessage W)} {s : SessionId}
    {answer : Slot.Answer} {v : Slot W F} (hm : l.mail = m :: mail) (hs : m.session? = some s) (hr : m.isRead)
    (hn : l.slot.nextAnswer = some (answer, v)) :
    LaneStep parse l (.process m r)
      { l with mail, slot := v, log := l.log ++ [.executed m [answer.effect m.worker s]] } := by
  rcases Slot.nextAnswer_inv hn with ⟨msgType, data, rfl, ho, hv⟩ | ⟨code, rfl, ho, hres, rfl⟩
  · rw [hv]
    exact .output hm hs hr ho
  · exact .exit hm hs hr ho hres

theorem Lane.process_inv {m : SchedulerMessage W} {r : HandlerResult}
    (hs : Lane.step parse l (.process m r) = some l') : LaneStep parse l (.process m r) l' := by
  simp only [Lane.step] at hs
  split at hs
  · cases hs
  rename_i head mail hm
  split at hs
  swap
  · cases hs
  subst head
  cases hs
  cases m with
  | hostExecStart w id json => exact .start hm rfl
  | hostExecRead w s =>
    simp only [Lane.execute, Slot.execute]
    split
    · exact Lane.read_inv hm rfl rfl ‹_›
    · obtain ⟨ho, hres⟩ := Slot.nextAnswer_eq_none.mp ‹_›
      exact .park hm ho hres
  | hostExecTryRead w s =>
    simp only [Lane.execute, Slot.execute]
    split
    · exact Lane.read_inv hm rfl rfl ‹_›
    · obtain ⟨ho, hres⟩ := Slot.nextAnswer_eq_none.mp ‹_›
      exact .noData hm ho hres
  | hostExecReadComplete w s msgType data =>
    simp only [Lane.execute, Slot.execute]
    split
    · obtain ⟨rfl, hd⟩ := ‹_ ∧ _›
      exact .completeExit hm hd
    · exact .completeOutput hm ‹_›
  | hostExecPoll w s => exact .poll hm
  | hostExecWrite w s data | hostExecCloseStdin w s | hostExecSignal w s signal =>
    simp only [Lane.execute, Slot.execute]
    split
    · exact .control hm rfl (by simp) rfl rfl rfl
    · exact .control hm rfl (by simp) rfl rfl rfl
  | hostExecChildOutput =>
    simp only [Lane.execute, Slot.execute]
    exact .control hm rfl (by simp) rfl rfl rfl

theorem Lane.step_inv (hl : l.Parked) (hs : Lane.step parse l e = some l') : LaneStep parse l e l' := by
  cases e with
  | setHandler =>
    cases hs
    exact .setHandler
  | post m =>
    simp only [Lane.step] at hs
    split at hs <;> cases hs
    exact .post (Bool.eq_false_iff.mpr ‹_›)
  | process m r => exact Lane.process_inv hs
  | callback w s c =>
    simp only [Lane.step] at hs
    split at hs <;> cases hs
    exact .called ‹_› (Slot.callback_result fun hp => (hl hp).1)
  | settle w s r =>
    simp only [Lane.step] at hs
    split at hs <;> cases hs
    cases hp : l.slot.pending with
    | none => simpa [Slot.settle, hp] using LaneStep.settle ‹_› hp
    | some p => simpa [Slot.settle, hp] using LaneStep.settleParked ‹_› hp

/-! ### What every lane keeps -/

theorem LaneStep.parked (h : LaneStep parse l e l') (hl : l.Parked) : l'.Parked := by
  cases h with
  | output _ _ _ ho =>
    intro hp
    rw [(hl hp).1] at ho
    cases ho
  | exit _ _ _ _ hres =>
    intro hp
    rw [(hl hp).2] at hres
    cases hres
  | park _ ho hres => exact fun _ => ⟨ho, hres⟩
  | control _ _ _ hr hp hq =>
    intro hne
    have := hl (hp ▸ hne)
    simpa [Slot.output, hr, hq] using this
  | called _ hv =>
    cases hv with
    | quiet _ hr hp hq =>
      intro hne
      have := hl (hp ▸ hne)
      simpa [Slot.output, hr, hq] using this
    | queued _ hp => exact fun hne => absurd hp hne
    | handed _ _ hp => exact fun hne => absurd hp hne
  | settle _ hp => exact fun hne => absurd hp hne
  | settleParked => exact fun hne => absurd rfl hne
  | _ => exact hl

/-- The queue holds no exit message, and one that is sent carries an exit code. -/
structure Lane.Typed (l : Lane W F) : Prop where
  output : ∀ m ∈ l.slot.output, m.1 ≠ MSG_TYPE_EXIT
  mail : ∀ w s data, .hostExecReadComplete w s MSG_TYPE_EXIT data ∈ l.mail → data.length = 4

theorem LaneStep.typed (h : LaneStep parse l e l') (hl : l.Typed) : l'.Typed := by
  cases h with
  | setHandler => exact ⟨hl.output, hl.mail⟩
  | @post m hc =>
    refine ⟨hl.output, fun w s data hd => ?_⟩
    rcases List.mem_append.mp hd with hd | hd
    · exact hl.mail w s data hd
    · obtain rfl := List.mem_singleton.mp hd
      cases hc
  | start hm | park hm | noData hm | completeExit hm | completeOutput hm | poll hm =>
    exact ⟨hl.output, fun w s data hd => hl.mail w s data (hm ▸ List.mem_cons_of_mem _ hd)⟩
  | output hm _ _ ho =>
    exact ⟨fun m hmem => hl.output m (ho ▸ List.mem_cons_of_mem _ hmem),
      fun w s data hd => hl.mail w s data (hm ▸ List.mem_cons_of_mem _ hd)⟩
  | exit hm =>
    refine ⟨fun m hmem => ?_, fun w s data hd => hl.mail w s data (hm ▸ List.mem_cons_of_mem _ hd)⟩
    cases hmem
  | control hm _ _ _ _ hq =>
    refine ⟨fun m hmem => hl.output m ?_, fun w s data hd => hl.mail w s data (hm ▸ List.mem_cons_of_mem _ hd)⟩
    simpa [Slot.output, hq] using hmem
  | called _ hv =>
    cases hv with
    | quiet _ _ _ hq =>
      refine ⟨fun m hmem => hl.output m ?_, by simpa using hl.mail⟩
      simpa [Slot.output, hq] using hmem
    | queued hc =>
      refine ⟨fun m hmem => ?_, by simpa using hl.mail⟩
      rw [Slot.output_pushBack] at hmem
      rcases List.mem_append.mp hmem with hmem | hmem
      · exact hl.output m hmem
      · obtain rfl := List.mem_singleton.mp hmem
        exact Callback.message_ne_exit hc
    | handed hc _ _ _ ho =>
      refine ⟨fun m hmem => ?_, fun w s data hd => ?_⟩
      · rw [ho] at hmem
        cases hmem
      · rcases List.mem_append.mp hd with hd | hd
        · exact hl.mail w s data hd
        · have heq := List.mem_singleton.mp hd
          simp only [SchedulerMessage.hostExecReadComplete.injEq] at heq
          exact absurd heq.2.2.1.symm (Callback.message_ne_exit hc)
  | settle => exact ⟨hl.output, hl.mail⟩
  | settleParked =>
    refine ⟨hl.output, fun w s data hd => ?_⟩
    rcases List.mem_append.mp hd with hd | hd
    · exact hl.mail w s data hd
    · have heq := List.mem_singleton.mp hd
      simp only [SchedulerMessage.hostExecReadComplete.injEq] at heq
      rw [heq.2.2.2, toLeBytes_length]

/-! ### Runs of the host -/

/-- A condition on the steps of the lane of `s`, for the steps of the host. -/
def OnLane (s : SessionId) (ok : Lane W F → Event W F → Prop) (h : State W F) (e : Event W F) : Prop :=
  e.About s → ok (h.lane s) e

instance (s : SessionId) (ok : Lane W F → Event W F → Prop) [∀ l e, Decidable (ok l e)] (h : State W F)
    (e : Event W F) : Decidable (OnLane s ok h e) :=
  inferInstanceAs (Decidable (_ → _))

/-- What a lane starts with, and keeps in each step that meets the condition, holds of it in every run of the host
    in which its steps meet the condition. -/
theorem lane_invariant {ok : Lane W F → Event W F → Prop} {I : Lane W F → Prop} {s : SessionId} {h : State W F}
    (h0 : I .init)
    (hstep : ∀ {l l' : Lane W F} {e : Event W F}, l.Parked → l.Typed → I l → ok l e → LaneStep parse l e l' → I l')
    (hr : ReachVia (step parse) (OnLane s ok) State.init h) : (h.lane s).Parked ∧ I (h.lane s) := by
  have hr := (lane_projects s).reachVia ParkedOwn.init (fun _ _ ho ha => ho ha) hr
  suffices hi : (h.lane s).Parked ∧ (h.lane s).Typed ∧ I (h.lane s) from ⟨hi.1, hi.2.2⟩
  refine hr.invariant (I := fun l => l.Parked ∧ l.Typed ∧ I l) ?_ fun ⟨hp, ht, hi⟩ ho hs => ?_
  · have ht : (Lane.init : Lane W F).Typed :=
      ⟨fun _ hm => absurd hm List.not_mem_nil, fun _ _ _ hm => absurd hm List.not_mem_nil⟩
    exact ⟨fun hp => absurd rfl hp, ht, h0⟩
  · have hl := Lane.step_inv hp hs
    exact ⟨hl.parked hp, hl.typed ht, hstep hp ht hi ho hl⟩

end HostExec
end WasmerJs
