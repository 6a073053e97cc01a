import WasmerJs.HostExec.Output

/-! Several workers that read the same session. One map entry holds the parked read of a session, so a second read
    that is parked takes the place of the first, which is then never answered. -/

namespace WasmerJs
namespace HostExec

open Transition

variable {W F : Type} [DecidableEq W]

/-- A response to a read that goes to worker `w`. -/
def Effect.isReadResponseTo (w : W) : Effect W F → Bool
  | readResponse w' .. => w' = w
  | startResponse .. | noData .. | pollResponse .. | call .. => false

/-- How many blocking reads of worker `w` an entry has handled. -/
def Entry.readsOf (w : W) : Entry W F → Nat
  | executed (.hostExecRead w' _) _ => if w' = w then 1 else 0
  | _ => 0

/-- How many answers to blocking reads of worker `w` an entry has sent; a try-read is answered at once. -/
def Entry.readAnswersTo (w : W) : Entry W F → Nat
  | executed (.hostExecTryRead ..) _ => 0
  | executed _ effects => effects.countP (Effect.isReadResponseTo w)
  | posted _ | called .. | settled .. => 0

def readsOf (w : W) (log : List (Entry W F)) : Nat := (log.map (Entry.readsOf w)).sum

def readAnswersTo (w : W) (log : List (Entry W F)) : Nat := (log.map (Entry.readAnswersTo w)).sum

/-- An answer that is on its way to worker `w`. -/
def SchedulerMessage.isCompleteFor (w : W) : SchedulerMessage W → Bool
  | hostExecReadComplete w' .. => w' = w
  | _ => false

/-- How many of the parked reads, of which there is at most one, are of worker `w`. -/
def parkedOf (w : W) : Option (W × SessionId) → Nat
  | some (w', _) => if w' = w then 1 else 0
  | none => 0

/-- Every blocking read of every worker that was handled has been answered, or is parked, or its answer is on its
    way. -/
def Lane.Accounted (l : Lane W F) : Prop :=
  ∀ w, readsOf w l.log =
    readAnswersTo w l.log + parkedOf w l.slot.pending + l.mail.countP (SchedulerMessage.isCompleteFor w)

/-- A blocking read is handled only while no read of the session is parked. -/
def ParksAlone (l : Lane W F) : Event W F → Prop
  | .process m _ => m.isBlockingRead → l.slot.pending = none
  | .setHandler _ | .post _ | .callback .. | .settle .. => True

instance (l : Lane W F) (e : Event W F) : Decidable (ParksAlone l e) :=
  match e with
  | .process .. => inferInstanceAs (Decidable (_ → _))
  | .setHandler _ | .post _ | .callback .. | .settle .. => inferInstanceAs (Decidable True)

@[simp] theorem readsOf_append {w : W} {log : List (Entry W F)} {e : Entry W F} :
    readsOf w (log ++ [e]) = readsOf w log + e.readsOf w := by
  simp [readsOf]

@[simp] theorem readAnswersTo_append {w : W} {log : List (Entry W F)} {e : Entry W F} :
    readAnswersTo w (log ++ [e]) = readAnswersTo w log + e.readAnswersTo w := by
  simp [readAnswersTo]

theorem Entry.answered_at_once {m : SchedulerMessage W} {w : W} {s : SessionId} {msgType : MsgType}
    {code : BitVec 32} {data : Option Bytes} (hr : m.isRead) :
    (Entry.executed m [.readResponse m.worker s msgType code data] : Entry W F).readAnswersTo w =
      (Entry.executed m [.readResponse m.worker s msgType code data] : Entry W F).readsOf w := by
  cases m with
  | hostExecRead =>
    simp [readAnswersTo, readsOf, Effect.isReadResponseTo, List.countP_singleton, SchedulerMessage.worker]
  | hostExecTryRead => rfl
  | _ => cases hr

section Steps

variable {parse : Bytes → Except String Unit} {l l' : Lane W F} {e : Event W F}

theorem LaneStep.accounted (h : LaneStep parse l e l') (hl : l.Accounted) (ho : ParksAlone l e) : l'.Accounted := by
  intro w
  have hw := hl w
  cases h with
  | setHandler => exact hw
  | @post m hc =>
    have hm : m.isCompleteFor w = false := by cases m <;> first | rfl | cases hc
    simpa [Entry.readsOf, Entry.readAnswersTo, hm]
  | start hm | poll hm | noData hm =>
    rw [hm, List.countP_cons] at hw
    simpa [Entry.readsOf, Entry.readAnswersTo, Effect.isReadResponseTo, SchedulerMessage.isCompleteFor] using hw
  | @output m _ _ _ _ _ _ hm _ hr | @exit m _ _ _ _ hm _ hr =>
    have hc : m.isCompleteFor w = false := by cases m <;> first | rfl | cases hr
    rw [hm, List.countP_cons, hc] at hw
    simp [Entry.answered_at_once hr] at hw ⊢
    omega
  | park hm =>
    rw [hm, List.countP_cons, ho rfl] at hw
    simp [Entry.readsOf, Entry.readAnswersTo, SchedulerMessage.isCompleteFor, parkedOf] at hw ⊢
    omega
  | completeExit hm | completeOutput hm =>
    rw [hm, List.countP_cons] at hw
    simp [Entry.readsOf, Entry.readAnswersTo, SchedulerMessage.isCompleteFor, Effect.isReadResponseTo,
      List.countP_singleton] at hw ⊢
    omega
  | @control m r mail v effects hm hc he _ hp =>
    have hcomplete : m.isCompleteFor w = false := by cases m <;> first | rfl | cases hc
    have hcalls : effects.countP (Effect.isReadResponseTo w) = 0 := by
      refine List.countP_eq_zero.mpr fun x hx => ?_
      obtain ⟨f, arg, rfl⟩ := he x hx
      simp [Effect.isReadResponseTo]
    have hentry : (Entry.executed m effects).readsOf w = 0 ∧ (Entry.executed m effects).readAnswersTo w = 0 := by
      cases m <;> first | exact ⟨rfl, hcalls⟩ | cases hc
    rw [hm, List.countP_cons, hcomplete] at hw
    simpa [hentry, hp] using hw
  | called _ hv =>
    cases hv with
    | quiet _ _ hp => simpa [Entry.readsOf, Entry.readAnswersTo, hp] using hw
    | queued => simpa [Entry.readsOf, Entry.readAnswersTo] using hw
    | handed _ hp hp' =>
      simp [Entry.readsOf, Entry.readAnswersTo, SchedulerMessage.isCompleteFor, List.countP_singleton, hp, hp',
        parkedOf] at hw ⊢
      omega
  | settle => simpa [Entry.readsOf, Entry.readAnswersTo] using hw
  | settleParked _ hp =>
    simp [Entry.readsOf, Entry.readAnswersTo, SchedulerMessage.isCompleteFor, List.countP_singleton, hp,
      parkedOf] at hw ⊢
    omega

end Steps

/-! ### Runs -/

/-- When a blocking read of a session is handled only while none is parked, the blocking reads of each worker are
    accounted for: each was answered, or is parked, or its answer is on its way. `W` may be anything, so a worker id
    can also carry the number of the read, which tells single reads apart. -/
theorem reads_accounted {parse : Bytes → Except String Unit} {s : SessionId} {h : State W F}
    (hr : ReachVia (step parse) (OnLane s ParksAlone) State.init h) (w : W) :
    readsOf w (h.lane s).log = readAnswersTo w (h.lane s).log + parkedOf w (h.slots s).pending +
      (h.lane s).mail.countP (SchedulerMessage.isCompleteFor w) :=
  (lane_invariant (I := Lane.Accounted) (fun _ => rfl) (fun _ _ hi ho hs => hs.accounted hi ho) hr).2 w

/-- Two workers that take turns. -/
theorem reads_accounted_turns :
    let parse : Bytes → Except String Unit := fun _ => .ok ()
    ∃ h : State Nat Nat, ReachVia (step parse) (OnLane 7 ParksAlone) State.init h ∧
      readsOf 1 (h.lane 7).log = 2 ∧ readAnswersTo 1 (h.lane 7).log = 1 ∧
      readsOf 1 (h.lane 7).log = readAnswersTo 1 (h.lane 7).log + parkedOf 1 (h.slots 7).pending +
        (h.lane 7).mail.countP (SchedulerMessage.isCompleteFor 1) := by
  intro parse
  obtain ⟨h, hr, hreads, hanswers⟩ : ∃ h,
      ReachVia (step parse) (OnLane 7 ParksAlone) (State.init : State Nat Nat) h ∧
        readsOf 1 (h.lane 7).log = 2 ∧ readAnswersTo 1 (h.lane 7).log = 1 :=
    exists_reachVia
      (List.flatten [
        Event.started 0 7,
        Event.handled (.hostExecRead 0 7),
        [.callback 0 7 (.onStdout [1]), .process (.hostExecReadComplete 0 7 MSG_TYPE_STDOUT [1]) .promise],
        Event.handled (.hostExecRead 1 7),
        [.callback 0 7 (.onStdout [2]), .process (.hostExecReadComplete 1 7 MSG_TYPE_STDOUT [2]) .promise],
        Event.handled (.hostExecRead 1 7)])
      _ (by decide) (by decide)
  exact ⟨h, hr, hreads, hanswers, reads_accounted hr 1⟩

/-- Two workers read a session in which nothing has happened yet. The second read takes the place of the first: when
    the session has ended and its mailbox is empty, worker 0 has had no answer, and none is to come. -/
theorem second_reader_displaces :
    let parse : Bytes → Except String Unit := fun _ => .ok ()
    ∃ h : State Nat Nat, Reach (step parse) State.init h ∧
      readsOf 0 (h.lane 7).log = 1 ∧ readAnswersTo 0 (h.lane 7).log = 0 ∧ parkedOf 0 (h.slots 7).pending = 0 ∧
      h.mailbox = [] ∧ h.promises = [] := by
  intro parse
  exact exists_reach
    (List.flatten [
      Event.started 0 7,
      Event.handled (.hostExecRead 0 7),
      Event.handled (.hostExecRead 1 7),
      [.settle 0 7 (.resolved 5), .process (.hostExecReadComplete 1 7 MSG_TYPE_EXIT [5, 0, 0, 0]) .promise]])
    _ (by decide)

end HostExec
end WasmerJs
