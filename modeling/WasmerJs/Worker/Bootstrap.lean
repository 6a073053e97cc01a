import WasmerJs.Lib.Transition

/-! How a worker starts (`src-js/worker.js`). Messages that arrive before there is a `ThreadPoolWorker` are kept, and
    `handleInit` hands them over at its end, one after the other; later ones are handed over as they arrive. What
    becomes of the promise of a `handle` is up to the message. -/

namespace WasmerJs
namespace Worker
open Transition

/-- Where `handleInit` stands: before it is called, at one of its `await`s, or at its end. -/
inductive Phase (M : Type) where
  | notCalled
  | importing
  | initialising
  -- An early message is awaited; those that follow it are not handed over yet.
  | draining (rest : List M)
  -- The end, be it that an early message was rejected.
  | done
  -- An error before there was a worker.
  | failed
  deriving DecidableEq

structure State (M : Type) where
  phase : Phase M
  pendingMessages : List M
  worker : Bool
  -- The messages that were posted and those that `handle` was called with, in their order.
  arrived : List M
  invoked : List M
  deriving DecidableEq

inductive Event (M : Type) where
  -- The message of type "init" arrives, the first that is posted to a worker.
  | init
  | message (m : M)
  | imported (ok : Bool)
  | initialised (ok : Bool)
  -- The promise that the loop in `handleInit` awaits is settled.
  | handled (ok : Bool)

variable {M : Type}

namespace State

def init : State M where
  phase := .notCalled
  pendingMessages := []
  worker := false
  arrived := []
  invoked := []

def handle (s : State M) (m : M) : State M := { s with invoked := s.invoked ++ [m] }

/-- `handleMessage`; an error of `handle` is logged. -/
def handleMessage (s : State M) (m : M) : State M :=
  if s.worker then s.handle m else { s with pendingMessages := s.pendingMessages ++ [m] }

/-- The loop in `handleInit` up to its next `await`. -/
def drain (s : State M) : List M → State M
  | [] => { s with phase := .done }
  | m :: rest => { s.handle m with phase := .draining rest }

def step (s : State M) : Event M → Option (State M)
  | .init =>
    match s.phase with
    | .notCalled => some { s with phase := .importing }
    | _ => none
  | .message m => some ({ s with arrived := s.arrived ++ [m] }.handleMessage m)
  | .imported ok =>
    match s.phase with
    | .importing => some { s with phase := if ok then .initialising else .failed }
    | _ => none
  | .initialised ok =>
    match s.phase with
    | .initialising =>
      some (if ok then { s with worker := true, pendingMessages := [] }.drain s.pendingMessages
        else { s with phase := .failed })
    | _ => none
  | .handled ok =>
    match s.phase with
    | .draining rest => some (if ok then s.drain rest else { s with phase := .done })
    | _ => none

/-! ### Promptness -/

/-- As soon as there is a worker, each message is handed over when it arrives, and those that were early have been:
    once each, in their order, and without waiting for another. If there will be no worker, there is no message. -/
structure Prompt (s : State M) : Prop where
  worker : s.worker = true → s.invoked = s.arrived
  failed : s.phase = .failed → s.arrived = []

/-- At most one message is early. If there will be no worker, there is no message. -/
def AtMostOneEarly (s : State M) : Event M → Prop
  | .initialised true => s.pendingMessages.length ≤ 1
  | .imported false | .initialised false => s.pendingMessages = []
  | .message _ => s.phase ≠ .failed
  | .init | .imported true | .handled _ => True

instance [DecidableEq M] (s : State M) (e : Event M) : Decidable (s.AtMostOneEarly e) := by
  unfold AtMostOneEarly
  split <;> infer_instance

/-- What is known in each phase when at most one message is early. -/
def Inv (s : State M) : Prop :=
  match s.phase with
  | .notCalled | .importing | .initialising => s.worker = false ∧ s.invoked = [] ∧ s.pendingMessages = s.arrived
  | .draining rest => s.worker = true ∧ rest = [] ∧ s.invoked = s.arrived
  | .done => s.worker = true ∧ s.invoked = s.arrived
  | .failed => s.worker = false ∧ s.arrived = []

variable {s t : State M} {e : Event M}

theorem Inv.prompt (hi : s.Inv) : s.Prompt := by
  obtain ⟨phase, pending, worker, arrived, invoked⟩ := s
  constructor
  · rintro rfl
    cases phase with
    | notCalled | importing | initialising => cases hi.1
    | draining rest => exact hi.2.2
    | done => exact hi.2
    | failed => cases hi.1
  · rintro rfl
    exact hi.2

theorem Inv.message (hi : s.Inv) (hphase : s.phase ≠ .failed) (m : M) :
    ({ s with arrived := s.arrived ++ [m] }.handleMessage m).Inv := by
  obtain ⟨phase, pending, worker, arrived, invoked⟩ := s
  cases phase with
  | notCalled | importing | initialising =>
    obtain ⟨rfl, rfl, rfl⟩ : worker = false ∧ invoked = [] ∧ pending = arrived := hi
    exact ⟨rfl, rfl, rfl⟩
  | draining rest =>
    obtain ⟨rfl, rfl, rfl⟩ : worker = true ∧ rest = [] ∧ invoked = arrived := hi
    exact ⟨rfl, rfl, rfl⟩
  | done =>
    obtain ⟨rfl, rfl⟩ : worker = true ∧ invoked = arrived := hi
    exact ⟨rfl, rfl⟩
  | failed => exact absurd rfl hphase

theorem Inv.step (hi : s.Inv) (ho : s.AtMostOneEarly e) (hs : s.step e = some t) : t.Inv := by
  obtain ⟨phase, pending, worker, arrived, invoked⟩ := s
  cases e with
  | message m =>
    cases hs
    exact hi.message ho m
  | init =>
    cases phase <;> cases hs
    exact hi
  | imported ok =>
    cases phase <;> cases hs
    cases ok with
    | true => exact hi
    | false => exact ⟨hi.1, hi.2.2.symm.trans ho⟩
  | initialised ok =>
    cases phase <;> cases hs
    obtain ⟨rfl, rfl, rfl⟩ : worker = false ∧ invoked = [] ∧ pending = arrived := hi
    cases ok with
    | true =>
      rcases pending with _ | ⟨m, _ | ⟨m', rest⟩⟩
      · exact ⟨rfl, rfl⟩
      · exact ⟨rfl, rfl, rfl⟩
      · exact absurd ho (by simp [AtMostOneEarly])
    | false => exact ⟨rfl, ho⟩
  | handled ok =>
    cases phase <;> cases hs
    rename_i rest
    obtain ⟨rfl, rfl, rfl⟩ : worker = true ∧ rest = [] ∧ invoked = arrived := hi
    cases ok with
    | true => exact ⟨rfl, rfl⟩
    | false => exact ⟨rfl, rfl⟩

theorem Inv.broken (hi : s.Inv) (ho : ¬ s.AtMostOneEarly e) (hs : s.step e = some t) : ¬ t.Prompt := by
  intro ht
  obtain ⟨phase, pending, worker, arrived, invoked⟩ := s
  cases e with
  | init => exact ho trivial
  | handled ok => exact ho trivial
  | message m =>
    obtain rfl : phase = .failed := not_not.mp ho
    obtain ⟨rfl, rfl⟩ : worker = false ∧ arrived = [] := hi
    cases hs
    cases ht.failed rfl
  | imported ok =>
    cases ok with
    | true => exact ho trivial
    | false =>
      cases phase <;> cases hs
      exact ho (hi.2.2.trans (ht.failed rfl))
  | initialised ok =>
    cases phase <;> cases hs
    obtain ⟨rfl, rfl, rfl⟩ : worker = false ∧ invoked = [] ∧ pending = arrived := hi
    cases ok with
    | false => exact ho (ht.failed rfl)
    | true =>
      -- Only the first of the early messages is handed over.
      rcases pending with _ | ⟨m, _ | ⟨m', rest⟩⟩
      · exact ho (Nat.zero_le 1)
      · exact ho (Nat.le_refl 1)
      · cases ht.worker rfl

/-- Along a run messages are handled promptly exactly as long as at most one of them is early. -/
theorem prompt_iff {es : List (Event M)} (hr : run step .init es = some t) :
    RunAll step Prompt .init es ↔ RunOk step AtMostOneEarly .init es :=
  runAll_iff_runOk (I := Inv) Inv.prompt Inv.step Inv.broken ⟨rfl, rfl, rfl⟩ hr

/-- A message arrives early, a second one while `handle` is busy with it, and a third one after it was rejected. -/
theorem prompt_one_early :
    let es : List (Event Nat) :=
      [.init, .message 1, .imported true, .initialised true, .message 2, .handled false, .message 3]
    (run step .init es).isSome ∧ RunAll step Prompt .init es := by
  intro es
  obtain ⟨t, hr⟩ := Option.isSome_iff_exists.mp (by decide : (run step .init es).isSome = true)
  exact ⟨by simp [hr], (prompt_iff hr).mpr (by decide)⟩

/-! ### What is lost -/

/-- Once `handleInit` is at its end, what has not been handed over by then never is. -/
theorem done_of_reach (hphase : s.phase = .done) (hworker : s.worker = true) (hr : Reach step s t) :
    ∃ ms, t.arrived = s.arrived ++ ms ∧ t.invoked = s.invoked ++ ms := by
  have hinv : t.phase = .done ∧ t.worker = true ∧
      ∃ ms, t.arrived = s.arrived ++ ms ∧ t.invoked = s.invoked ++ ms := by
    refine hr.invariant (I := fun t => t.phase = .done ∧ t.worker = true ∧
      ∃ ms, t.arrived = s.arrived ++ ms ∧ t.invoked = s.invoked ++ ms)
      ⟨hphase, hworker, [], (List.append_nil _).symm, (List.append_nil _).symm⟩ ?_
    rintro u v e ⟨hphase, hworker, ms, harrived, hinvoked⟩ - hs
    cases e with
    | message m =>
      cases hs
      refine ⟨?_, ?_, ms ++ [m], ?_⟩ <;> simp [handleMessage, handle, hphase, hworker, harrived, hinvoked]
    | init | imported | initialised | handled => simp [step, hphase] at hs
  exact hinv.2.2

/-- Two messages are early. The first is rejected; the second is passed over, and never handed over. -/
theorem early_message_lost :
    ∃ s : State Nat, Reach step .init s ∧ s.worker = true ∧ s.arrived = [1, 2, 3] ∧ s.invoked = [1, 3] ∧
      ∀ t, Reach step s t → t.invoked ≠ t.arrived := by
  obtain ⟨s, hr, hphase, hworker, harrived, hinvoked⟩ : ∃ s : State Nat, Reach step .init s ∧
      s.phase = .done ∧ s.worker = true ∧ s.arrived = [1, 2, 3] ∧ s.invoked = [1, 3] :=
    exists_reach
      [.init, .message 1, .message 2, .imported true, .initialised true, .handled false, .message 3] _ (by decide)
  refine ⟨s, hr, hworker, harrived, hinvoked, ?_⟩
  intro t ht heq
  obtain ⟨ms, ha, hi⟩ := done_of_reach hphase hworker ht
  rw [hi, ha, harrived, hinvoked] at heq
  simp at heq

end State
end Worker
end WasmerJs
