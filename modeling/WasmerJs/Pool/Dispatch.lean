import WasmerJs.Pool.Invariant

/-! What a post that fails leaves behind. `post_message` takes a worker out of `idle` before it sends, and puts it back
    only afterwards; when the message cannot be sent the handle is dropped on the way, which terminates the worker
    (`src/tasks/scheduler.rs`, `src/tasks/worker_handle.rs`). -/

namespace WasmerJs
namespace Pool

open Transition

variable {H T : Type}

/-! ### The result of a post -/

namespace SchedulerState

variable {b : Browser H T} {s : SchedulerState H} {msg : PostMessagePayload H T}

/-- `post_message` returns `Ok`: there is a worker, and the message is sent to it. -/
def postOk (b : Browser H T) (s : SchedulerState H) (msg : PostMessagePayload H T) : Bool :=
  (s.nextAvailableWorker b).2.2.any fun w => b.post w msg

/-- The last thing that a post does that returns `Ok` is to send the message. -/
theorem postOk_iff : s.postOk b msg ↔ ∃ w, (s.postMessage b msg).2.getLast? = some (.posted w msg) := by
  rcases hn : s.nextAvailableWorker b with ⟨s', effects, _ | w⟩
  · refine iff_of_false (by simp [postOk, hn]) ?_
    rintro ⟨w, hlast⟩
    -- No worker was found, so none is idle and the new one was not made or was given up.
    have hidle : s.idle = [] := by
      cases hi : s.idle with
      | nil => rfl
      | cons w idle => simp [nextAvailableWorker, hi] at hn
    simp only [nextAvailableWorker, hidle] at hn
    simp only [postMessage, nextAvailableWorker, hidle, hn] at hlast
    rcases s.startWorker_inv (b := b) with hs | ⟨primed, -, hs | hs⟩
    · cases hn.symm.trans hs
      cases hlast
    · cases hn.symm.trans hs
    · cases hn.symm.trans hs
      rw [List.getLast?_append] at hlast
      cases hlast
  · by_cases hpost : b.post w msg
    · refine iff_of_true (by simp [postOk, hn, hpost]) ⟨w, ?_⟩
      simp only [postMessage, hn, hpost, if_true]
      split <;> simp
    · refine iff_of_false (by simp [postOk, hn, hpost]) ?_
      simp [postMessage, hn, hpost]

theorem postOk_idle {w : WorkerId} {idle : List WorkerId} (hi : s.idle = w :: idle) :
    s.postOk b msg = b.post w msg := by
  simp [postOk, nextAvailableWorker, hi]

/-- Without an idle worker, a post that fails draws an id, and that is all the scheduler keeps of it. -/
theorem postMessage_failed (hi : s.idle = []) (ho : s.postOk b msg = false) :
    (s.postMessage b msg).1 = { s with nextId := s.nextId + 1 } := by
  have hstart : s.nextAvailableWorker b = s.startWorker b := by simp [nextAvailableWorker, hi]
  rw [postOk, hstart] at ho
  rw [postMessage, hstart]
  rcases s.startWorker_inv (b := b) with hs | ⟨primed, -, hs | hs⟩
  · rw [hs]
  · have hpost : b.post s.nextId msg = false := by simpa [hs] using ho
    simp [hs, hpost]
  · rw [hs]

end SchedulerState

/-! ### The pool after a post that failed -/

/-- Every worker is still there, in the queue where it was, and nothing has happened to it. -/
structure Kept (s t : State H T) : Prop where
  idle : t.sched.idle = s.sched.idle
  busy : t.sched.busy = s.sched.busy
  same : ∀ w ∈ s.sched.idle ++ s.sched.busy, t.workers w = s.workers w
  live : ∀ w ∈ s.sched.idle ++ s.sched.busy, (t.workers w).live

section Dispatch

variable [LinearOrder H] {s : State H T} {b : Browser H T} {msg : SchedulerMessage H T} {p : PostMessagePayload H T}

theorem State.Inv.kept (h : s.Inv) (hm : msg.payload? = some p) (hi : s.sched.idle = [])
    (ho : s.sched.postOk b p = false) : Kept s (s.handle b msg) := by
  have hsched := SchedulerState.postMessage_failed hi ho
  have hws : ∀ w ∈ s.sched.idle ++ s.sched.busy,
      (s.sched.postMessage b p).2.foldl applyEffect s.workers w = s.workers w := by
    intro w hw
    exact foldl_postMessage (by simp [hi]) (Nat.ne_of_lt (h.fresh w hw)) b p s.workers
  simp only [State.handle, SchedulerState.execute_task hm]
  refine ⟨by simp [hsched], by simp [hsched], hws, fun w hw => ?_⟩
  exact (congrArg Worker.live (hws w hw)).trans ((h.live w).mpr hw)

/-- A post leaves the pool as it was whenever it fails, exactly if no worker is idle or the message can be sent to the
    first idle one. -/
theorem failed_dispatch_iff (hr : Reach step State.init s) (hm : msg.payload? = some p) :
    (s.sched.postOk b p = false → Kept s (s.handle b msg)) ↔ ∀ w ∈ s.sched.idle.head?, b.post w p := by
  have h := State.Inv.of_reach hr
  cases hi : s.sched.idle with
  | nil => exact iff_of_true (h.kept hm hi) (by simp)
  | cons w idle =>
    rw [SchedulerState.postOk_idle hi]
    cases hpost : b.post w p with
    | true => simp [hpost]
    | false =>
      refine iff_of_false (fun hk => ?_) (by simp [hpost])
      have hidle := (hk rfl).idle
      simp only [State.handle, SchedulerState.execute_task hm, SchedulerState.postMessage,
        SchedulerState.nextAvailableWorker, hi, hpost, Bool.false_eq_true, if_false] at hidle
      exact List.cons_ne_self w idle hidle.symm

end Dispatch

/-- The only worker is busy, and no other one can be made. -/
theorem failed_dispatch_busy :
    ∃ s : State Nat Unit, Reach step State.init s ∧ s.sched.busy = [1] ∧
      Kept s (s.handle { spawn := false, post := fun _ _ => false } (.spawnAsync ())) := by
  obtain ⟨s, hr, hidle, hbusy⟩ : ∃ s : State Nat Unit, Reach step State.init s ∧
      s.sched.idle = [] ∧ s.sched.busy = [1] :=
    exists_reach [.message .willing (.spawnBlocking ())] _ (by decide)
  refine ⟨s, hr, hbusy, (failed_dispatch_iff hr rfl).mpr (by simp [hidle]) ?_⟩
  simp [SchedulerState.postOk, SchedulerState.nextAvailableWorker, SchedulerState.startWorker, hidle]

/-- A worker runs an async task, and the next message cannot be cloned. -/
theorem failed_dispatch_terminates :
    ¬ ∀ s : State Nat Unit, Reach step State.init s → ∀ (b : Browser Nat Unit) (msg : SchedulerMessage Nat Unit) p,
      msg.payload? = some p → s.sched.postOk b p = false → Kept s (s.handle b msg) := by
  intro hall
  obtain ⟨s, hr, hidle⟩ : ∃ s : State Nat Unit, Reach step State.init s ∧ s.sched.idle = [1] :=
    exists_reach [.message .willing (.spawnAsync ())] _ (by decide)
  let b : Browser Nat Unit := { spawn := true, post := fun _ _ => false }
  have hfail : s.sched.postOk b (.async ()) = false := by rw [SchedulerState.postOk_idle hidle]
  have hkept := hall s hr b (.spawnAsync ()) _ rfl hfail
  have hlive := hkept.live 1 (by simp [hidle])
  have hdead : ((s.handle b (.spawnAsync ())).workers 1).live = false := by
    simp [State.handle, SchedulerState.execute, SchedulerState.postMessage, SchedulerState.nextAvailableWorker, hidle,
      b, applyEffect]
  rw [hdead] at hlive
  cases hlive

end Pool
end WasmerJs
