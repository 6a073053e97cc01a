import WasmerJs.HostExec.LaneStep
import WasmerJs.HostExec.Log

/-! Which reads are parked with nothing left to answer them. The worker that starts a session takes no notice of the
    response, so it reads a session whose start has failed; and the exit code is gone once a read has taken it. -/

namespace WasmerJs
namespace HostExec

open Transition

variable {W F : Type}

/-- A start succeeded: the promise of the handler was obtained. -/
def Entry.isStarted : Entry W F → Bool
  | executed _ effects => effects.any fun
    | .startResponse _ _ (.ok _) => true
    | _ => false
  | posted _ | called .. | settled .. => false

/-- A read or a try-read took the exit code out of the map. -/
def Entry.isExitTaken : Entry W F → Bool
  | executed m effects => m.isRead && effects.any Effect.isExit
  | posted _ | called .. | settled .. => false

/-- A start of the session has succeeded, and since then no read or try-read has taken its exit code. -/
def exitAhead (log : List (Entry W F)) : Bool :=
  log.foldl (fun ahead e => if e.isStarted then true else if e.isExitTaken then false else ahead) false

@[simp] theorem exitAhead_append {log : List (Entry W F)} {e : Entry W F} :
    exitAhead (log ++ [e]) = if e.isStarted then true else if e.isExitTaken then false else exitAhead log := by
  simp [exitAhead]

/-- A blocking read is handled only while there is output for it, or the exit code is still ahead. -/
def ReadsLive (l : Lane W F) : Event W F → Prop
  | .process m _ => m.isBlockingRead → l.slot.output ≠ [] ∨ exitAhead l.log
  | .setHandler _ | .post _ | .callback .. | .settle .. => True

instance (l : Lane W F) (e : Event W F) : Decidable (ReadsLive l e) :=
  match e with
  | .process .. => inferInstanceAs (Decidable (_ → (¬ _ = []) ∨ _))
  | .setHandler _ | .post _ | .callback .. | .settle .. => inferInstanceAs (Decidable True)

/-- The exit code that is ahead comes from a promise, or is in the map; a parked read waits for a promise. -/
structure Lane.Answerable (l : Lane W F) : Prop where
  ahead : exitAhead l.log → l.promises ≠ [] ∨ l.slot.result ≠ none
  parked : l.slot.pending ≠ none → l.promises ≠ []

/-- A step that starts nothing, settles nothing and parks nothing. -/
theorem Lane.Answerable.append {l l' : Lane W F} {e : Entry W F} (hl : l.Answerable) (hlog : l'.log = l.log ++ [e])
    (hs : e.isStarted = false) (hpromises : l'.promises = l.promises)
    (hres : e.isExitTaken = true ∨ l'.slot.result = l.slot.result)
    (hpend : l'.slot.pending ≠ none → l.slot.pending ≠ none) : l'.Answerable where
  ahead h := by
    rw [hlog, exitAhead_append, if_neg (by simp [hs])] at h
    split at h
    · cases h
    · rw [hpromises, hres.resolve_left ‹_›]
      exact hl.ahead h
  parked h := hpromises ▸ hl.parked (hpend h)

section Steps

variable [DecidableEq W] {parse : Bytes → Except String Unit} {l l' : Lane W F} {e : Event W F}

theorem LaneStep.answerable (h : LaneStep parse l e l') (hl : l.Answerable) (ho : ReadsLive l e) :
    l'.Answerable := by
  cases h with
  | setHandler => exact ⟨hl.ahead, hl.parked⟩
  | post => exact hl.append rfl rfl rfl (.inr rfl) id
  | @start w requestId json r mail result =>
    cases result with
    | started => exact ⟨fun _ => .inl (by simp [StartResult.hasPromise]), fun _ => by simp [StartResult.hasPromise]⟩
    | noContext | failed => exact hl.append rfl rfl rfl (.inr rfl) id
  | output | noData | completeExit | completeOutput | poll => exact hl.append rfl rfl rfl (.inr rfl) id
  | exit _ _ hr => exact hl.append rfl rfl rfl (.inl (by simp [Entry.isExitTaken, Effect.isExit, hr])) id
  | park _ hout hres =>
    -- The read finds nothing, so the exit code that it relies on is still to come from a promise.
    have hpromises : l.promises ≠ [] := by
      rcases ho rfl with hne | ha
      · exact absurd hout hne
      · exact (hl.ahead ha).resolve_right fun hne => hne hres
    exact ⟨fun _ => .inl hpromises, fun _ => hpromises⟩
  | @control m r mail v effects _ _ he hr hp =>
    have hs : (Entry.executed m effects).isStarted = false := by
      refine List.any_eq_false.mpr fun x hx => ?_
      obtain ⟨f, arg, rfl⟩ := he x hx
      simp
    exact hl.append rfl hs rfl (.inr hr) (hp ▸ id)
  | called _ hv =>
    cases hv with
    | quiet _ hr hp => exact hl.append rfl rfl rfl (.inr hr) (hp ▸ id)
    | queued => exact hl.append rfl rfl rfl (.inr rfl) id
    | handed _ _ hp' hr => exact hl.append rfl rfl rfl (.inr hr) fun h => absurd hp' h
  | settle _ hp => exact ⟨fun _ => .inr (by simp), fun h => absurd hp h⟩
  | settleParked => exact ⟨fun _ => .inr (by simp), fun h => absurd rfl h⟩

end Steps

/-! ### Runs -/

/-- Where every blocking read finds output, or a session whose exit code is still ahead, a read is parked only while
    a promise of its session has not settled. -/
theorem parked_has_promise [DecidableEq W] {parse : Bytes → Except String Unit} {s : SessionId} {h : State W F}
    (hr : ReachVia (step parse) (OnLane s ReadsLive) State.init h) (hp : (h.slots s).pending ≠ none) :
    ∃ w, (w, s) ∈ h.promises := by
  have h0 : (Lane.init : Lane W F).Answerable := ⟨fun h => absurd h Bool.false_ne_true, fun h => absurd rfl h⟩
  obtain ⟨-, hl⟩ := lane_invariant (I := Lane.Answerable) h0 (fun _ _ hi ho hs => hs.answerable hi ho) hr
  obtain ⟨⟨w, s'⟩, hw⟩ := List.exists_mem_of_ne_nil _ (hl.parked hp)
  obtain ⟨hmem, hs⟩ := List.mem_filter.mp hw
  obtain rfl : s' = s := of_decide_eq_true hs
  exact ⟨w, hmem⟩

/-- A read that waits for the exit code of a running session. -/
theorem parked_has_promise_running :
    let parse : Bytes → Except String Unit := fun _ => .ok ()
    ∃ h : State Nat Nat, ReachVia (step parse) (OnLane 7 ReadsLive) State.init h ∧
      (h.slots 7).pending = some (0, 7) ∧ ∃ w, (w, 7) ∈ h.promises := by
  intro parse
  obtain ⟨h, hr, hp⟩ : ∃ h, ReachVia (step parse) (OnLane 7 ReadsLive) (State.init : State Nat Nat) h ∧
      (h.slots 7).pending = some (0, 7) :=
    exists_reachVia
      (List.flatten [
        Event.started 0 7,
        [.callback 0 7 (.onStdout [1])],
        Event.handled (.hostExecRead 0 7),
        Event.handled (.hostExecRead 0 7)])
      _ (by decide) (by decide)
  exact ⟨h, hr, hp, parked_has_promise hr (hp ▸ Option.some_ne_none _)⟩

/-- The handler returns a plain number. The start fails, the worker reads the session nevertheless, and the read is
    parked with no promise that could ever answer it. -/
theorem failed_start_parks_read :
    let parse : Bytes → Except String Unit := fun _ => .ok ()
    ∃ h : State Nat Nat, Reach (step parse) State.init h ∧
      effects (h.lane 7).log = [.startResponse 0 7 (.error "Handler did not return a Promise")] ∧
      (h.slots 7).pending = some (0, 7) ∧ h.mailbox = [] ∧ h.promises = [] := by
  intro parse
  exact exists_reach
    (List.flatten [
      [.setHandler true, .post (.hostExecStart 0 7 []), .process (.hostExecStart 0 7 []) .notPromise],
      Event.handled (.hostExecRead 0 7)])
    _ (by decide)

end HostExec
end WasmerJs
