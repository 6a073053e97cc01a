import WasmerJs.Pool.Invariant

/-! What each worker still owes: its blocking jobs, and the futures on its event loop, in the order in which they were
    placed on it. A future is an async task, or one that a job or a future has left behind, such as the timer of
    `ThreadPool::sleep_now`, whose job only registers it (`src/tasks/thread_pool.rs`,
    `src/tasks/thread_pool_worker.rs`). A job holds up the futures that it is behind. -/

namespace WasmerJs
namespace Pool

open Transition

variable {H T : Type}

inductive Item where
  | job
  | future
  deriving DecidableEq

def PostMessagePayload.item? : PostMessagePayload H T → Option Item
  | .async _ => some .future
  | .blocking _ => some .job
  | .cacheModule _ => none

def place (owed : WorkerId → List Item) : Effect H T → WorkerId → List Item
  | .posted w msg => Function.update owed w (owed w ++ msg.item?.toList)
  | .spawned _ | .terminated _ => owed

structure Ledger (H T : Type) where
  pool : State H T
  owed : WorkerId → List Item

def Ledger.init : Ledger H T := { pool := .init, owed := fun _ => [] }

/-- The events of the pool, and those of the event loops: a job or a future registers a future, and a future is
    done. -/
inductive LedgerEvent (H T : Type) where
  | pool (e : Event H T)
  | register (w : WorkerId)
  | complete (w : WorkerId) (k : Nat)

namespace Ledger

variable [LinearOrder H]

/-- What the workers owe after an event of the pool. -/
def settle (s : Ledger H T) : Event H T → WorkerId → List Item
  | .message b msg => (s.pool.sched.execute b msg).2.foldl place s.owed
  | .finish w => Function.update s.owed w ((s.owed w).erase .job)
  | .deliver .. | .begin .. => s.owed

def step (s : Ledger H T) : LedgerEvent H T → Option (Ledger H T)
  | .pool e => (Pool.step s.pool e).map fun pool => { pool, owed := s.settle e }
  | .register w =>
    if (s.pool.workers w).live ∧ (0 < (s.pool.workers w).running ∨ .future ∈ s.owed w) then
      some { s with owed := Function.update s.owed w (s.owed w ++ [.future]) }
    else none
  | .complete w k =>
    if (s.owed w)[k]? = some .future then
      some { s with owed := Function.update s.owed w ((s.owed w).eraseIdx k) }
    else none

end Ledger

/-! ### Where a post goes -/

theorem place_cacheModule (owed : WorkerId → List Item) (w : WorkerId) (hash : H) :
    place owed (.posted w (.cacheModule hash) : Effect H T) = owed := by
  simp [place, PostMessagePayload.item?, Function.update_eq_self]

/-- A task goes to the first idle worker if the browser can post it there, and to a new worker, if to any, when none
    is idle. -/
theorem foldl_place_postMessage (b : Browser H T) (s : SchedulerState H) (p : PostMessagePayload H T)
    (owed : WorkerId → List Item) :
    (s.postMessage b p).2.foldl place owed = owed ∨
      ∃ w, (s.postMessage b p).2.foldl place owed = Function.update owed w (owed w ++ p.item?.toList) ∧
        (s.idle.head? = some w ∧ b.post w p ∨ w = s.nextId ∧ (s.postMessage b p).1.nextId = w + 1) := by
  cases hi : s.idle with
  | cons w idle =>
    rw [SchedulerState.postMessage_idle hi]
    split
    · exact .inr ⟨w, rfl, .inl ⟨rfl, ‹_›⟩⟩
    · exact .inl rfl
  | nil =>
    have hp := SchedulerState.postMessage_inv b s p
    generalize s.postMessage b p = r at hp
    cases hp with
    | idleBlocking hi' | idleAsync hi' | idleFailed hi' =>
      rw [hi] at hi'
      cases hi'
    | notSpawned => exact .inl rfl
    | newFailed _ hp =>
      left
      rw [foldl_spawned place_cacheModule hp]
      rfl
    | newBlocking _ hp | newAsync _ hp =>
      refine .inr ⟨s.nextId, ?_, .inr ⟨rfl, rfl⟩⟩
      rw [foldl_spawned place_cacheModule hp]
      rfl

/-! ### Jobs behind futures -/

/-- No job stands behind a future. -/
def InOrder (items : List Item) : Prop := items.Pairwise fun a b => a = .future → b ≠ .job

instance (items : List Item) : Decidable (InOrder items) := inferInstanceAs (Decidable (List.Pairwise ..))

theorem InOrder.future {items : List Item} (h : InOrder items) : InOrder (items ++ [.future]) :=
  List.pairwise_append.mpr ⟨h, List.pairwise_singleton .., fun _ _ b hb _ => by simp_all⟩

theorem inOrder_job {items : List Item} (h : InOrder items) : InOrder (items ++ [.job]) ↔ .future ∉ items := by
  simp only [InOrder, List.pairwise_append, List.mem_singleton]
  constructor
  · rintro ⟨-, -, hall⟩ hf
    exact hall .future hf .job rfl rfl rfl
  · intro hf
    refine ⟨h, List.pairwise_singleton .., fun a ha b _ hfut => ?_⟩
    exact absurd (hfut ▸ ha) hf

namespace Ledger

/-- No worker was given a job while a future that was placed on it before is not done. -/
def Unstarved (s : Ledger H T) : Prop := ∀ w, InOrder (s.owed w)

/-- A blocking job goes to the first idle worker only if that one owes no future. -/
def PostsToFree (s : Ledger H T) : LedgerEvent H T → Prop
  | .pool (.message b msg) =>
    ∀ p ∈ msg.payload?, p.wouldBlock → ∀ w ∈ s.pool.sched.idle.head?, b.post w p → .future ∉ s.owed w
  | _ => True

instance (s : Ledger H T) (e : LedgerEvent H T) : Decidable (s.PostsToFree e) :=
  match e with
  | .pool (.message _ msg) => inferInstanceAs (Decidable (∀ p ∈ msg.payload?, _))
  | .pool (.deliver ..) | .pool (.begin ..) | .pool (.finish _) | .register _ | .complete .. =>
    inferInstanceAs (Decidable True)

structure Inv (s : Ledger H T) : Prop where
  pool : s.pool.Inv
  -- Only workers that were started owe anything.
  started : ∀ w, s.owed w ≠ [] → w < s.pool.sched.nextId
  inOrder : s.Unstarved

namespace Inv

variable {s t : Ledger H T}

theorem init : (Ledger.init : Ledger H T).Inv where
  pool := State.Inv.init
  started _ h := absurd rfl h
  inOrder _ := List.Pairwise.nil

theorem started_of_busy (h : s.Inv) {w : WorkerId} (hr : 0 < (s.pool.workers w).running) :
    w < s.pool.sched.nextId := by
  have hw : w ∈ s.pool.sched.busy := by
    by_contra hw
    have := (h.pool.quiet w hw).running
    omega
  exact h.pool.fresh w (List.mem_append_right _ hw)

theorem keep (h : s.Inv) {pool : State H T} (hp : pool.Inv) (hn : s.pool.sched.nextId ≤ pool.sched.nextId) :
    Ledger.Inv { pool, owed := s.owed } :=
  ⟨hp, fun w hw => Nat.lt_of_lt_of_le (h.started w hw) hn, h.inOrder⟩

theorem owe (h : s.Inv) {pool : State H T} (hp : pool.Inv) (hn : s.pool.sched.nextId ≤ pool.sched.nextId)
    {w : WorkerId} {items : List Item} (hw : items ≠ [] → w < pool.sched.nextId) (ho : InOrder items) :
    Ledger.Inv { pool, owed := Function.update s.owed w items } := by
  refine ⟨hp, fun u hu => ?_, fun u => ?_⟩
  · by_cases huw : u = w
    · subst huw
      exact hw (by simpa using hu)
    · simp only [Function.update_of_ne huw] at hu
      exact Nat.lt_of_lt_of_le (h.started u hu) hn
  · by_cases huw : u = w
    · subst huw
      simpa using ho
    · simpa only [Function.update_of_ne huw] using h.inOrder u

variable [LinearOrder H]

theorem message (h : s.Inv) {b : Browser H T} {msg : SchedulerMessage H T} {pool : State H T}
    (ho : s.PostsToFree (.pool (.message b msg))) (hs : Pool.step s.pool (.message b msg) = some pool) :
    Ledger.Inv { pool, owed := s.settle (.message b msg) } := by
  have hinv := h.pool.step hs
  have hn := execute_nextId_le s.pool.sched b msg
  obtain ⟨-, rfl⟩ := step_message_inv hs
  cases hm : msg.payload? with
  | none =>
    have howed : s.settle (.message b msg) = s.owed := by
      cases msg with
      | cacheModule => exact foldl_notified place_cacheModule (SchedulerState.sendAll_notifies _ _ _) _
      | workerBusy | workerIdle => rfl
      | _ => cases hm
    rw [howed]
    exact h.keep hinv hn
  | some p =>
    have heq : s.settle (.message b msg) = (s.pool.sched.postMessage b p).2.foldl place s.owed := by
      rw [settle, SchedulerState.execute_task hm]
    rw [heq]
    rcases foldl_place_postMessage b s.pool.sched p s.owed with howed | ⟨w, howed, hw⟩
    · rw [howed]
      exact h.keep hinv hn
    · rw [howed]
      have hlt : w < (s.pool.handle b msg).sched.nextId := by
        rcases hw with ⟨hi, -⟩ | ⟨-, hnext⟩
        · exact Nat.lt_of_lt_of_le (h.pool.fresh w (List.mem_append_left _ (List.mem_of_mem_head? hi))) hn
        · simp only [State.handle, SchedulerState.execute_task hm]
          exact hnext ▸ Nat.lt_succ_self w
      refine h.owe hinv hn (fun _ => hlt) ?_
      cases p with
      | async => exact (h.inOrder w).future
      | cacheModule => simpa [PostMessagePayload.item?] using h.inOrder w
      | blocking =>
        refine (inOrder_job (h.inOrder w)).mpr ?_
        rcases hw with ⟨hi, hpost⟩ | ⟨rfl, -⟩
        · exact ho _ hm rfl w hi hpost
        · -- A new worker owes nothing yet.
          intro hf
          exact Nat.lt_irrefl _ (h.started _ (List.ne_nil_of_mem hf))

theorem step (h : s.Inv) {e : LedgerEvent H T} (ho : s.PostsToFree e) (hs : s.step e = some t) : t.Inv := by
  cases e with
  | pool e =>
    obtain ⟨pool, hp, rfl⟩ := Option.map_eq_some_iff.mp hs
    have hinv := h.pool.step hp
    cases e with
    | message b msg => exact h.message ho hp
    | deliver b w =>
      obtain ⟨⟨note, v⟩, -, rfl⟩ := Option.map_eq_some_iff.mp hp
      exact h.keep hinv (by cases note <;> exact Nat.le_refl _)
    | begin w k =>
      obtain ⟨v, -, rfl⟩ := Option.map_eq_some_iff.mp hp
      exact h.keep hinv (Nat.le_refl _)
    | finish w =>
      obtain ⟨v, hf, rfl⟩ := Option.map_eq_some_iff.mp hp
      have hsub : ((s.owed w).erase .job).Sublist (s.owed w) := List.erase_sublist
      exact h.owe hinv (Nat.le_refl _) (fun hne => h.started w fun hnil => hne (by simp [hnil]))
        ((h.inOrder w).sublist hsub)
  | register w =>
    simp only [Ledger.step] at hs
    split at hs
    · rename_i hw
      cases hs
      refine h.owe h.pool (Nat.le_refl _) (fun _ => ?_) (h.inOrder w).future
      rcases hw.2 with hr | hf
      · exact h.started_of_busy hr
      · exact h.started w (List.ne_nil_of_mem hf)
    · cases hs
  | complete w k =>
    simp only [Ledger.step] at hs
    split at hs
    · rename_i hk
      cases hs
      exact h.owe h.pool (Nat.le_refl _) (fun _ => h.started w (List.ne_nil_of_mem (List.mem_of_getElem? hk)))
        ((h.inOrder w).sublist (List.eraseIdx_sublist ..))
    · cases hs

/-- A job that is posted to a worker that owes a future stands behind it. -/
theorem not_unstarved (h : s.Inv) {e : LedgerEvent H T} (ho : ¬ s.PostsToFree e) (hs : s.step e = some t) :
    ¬ t.Unstarved := by
  unfold PostsToFree at ho
  split at ho
  · rename_i b msg
    simp only [not_forall, Classical.not_not] at ho
    obtain ⟨p, hm, hb, w, hi, hpost, hf⟩ := ho
    obtain ⟨pool, -, rfl⟩ := Option.map_eq_some_iff.mp hs
    obtain ⟨idle, hi⟩ := List.head?_eq_some_iff.mp hi
    have hitem : p.item? = some .job := by cases p <;> first | rfl | cases hb
    have howed : s.settle (.message b msg) = Function.update s.owed w (s.owed w ++ [.job]) := by
      rw [settle, SchedulerState.execute_task hm, SchedulerState.postMessage_idle hi, if_pos hpost]
      simp [place, hitem]
    intro hu
    have hw := hu w
    simp only [howed, Function.update_self] at hw
    exact (inOrder_job (h.inOrder w)).mp hw hf
  · exact absurd trivial ho

end Inv

/-- It is the first idle worker alone that matters: no worker is given a blocking job behind an unfinished future in
    any state of a run exactly if that one never owes a future when it is given a job. -/
theorem unstarved_iff [LinearOrder H] {es : List (LedgerEvent H T)} {s : Ledger H T}
    (hr : run Ledger.step Ledger.init es = some s) :
    RunAll Ledger.step Unstarved Ledger.init es ↔ RunOk Ledger.step PostsToFree Ledger.init es :=
  runAll_iff_runOk Inv.inOrder (fun h ho hs => h.step ho hs) (fun h ho hs => h.not_unstarved ho hs) .init hr

/-- When a blocking job is executed, all futures on the workers that are idle are done. What busy workers owe does not
    matter, and a job that finds no worker idle is free to come at any time. -/
def IdleCaughtUp (s : Ledger H T) : LedgerEvent H T → Prop
  | .pool (.message _ msg) =>
    msg.payload?.any PostMessagePayload.wouldBlock → ∀ w ∈ s.pool.sched.idle, .future ∉ s.owed w
  | _ => True

instance (s : Ledger H T) (e : LedgerEvent H T) : Decidable (s.IdleCaughtUp e) :=
  match e with
  | .pool (.message _ msg) => inferInstanceAs (Decidable (msg.payload?.any PostMessagePayload.wouldBlock → _))
  | .pool (.deliver ..) | .pool (.begin ..) | .pool (.finish _) | .register _ | .complete .. =>
    inferInstanceAs (Decidable True)

theorem IdleCaughtUp.postsToFree {s : Ledger H T} {e : LedgerEvent H T} (h : s.IdleCaughtUp e) : s.PostsToFree e := by
  unfold PostsToFree
  split
  · rename_i b msg
    intro p hp hb w hw _
    have hblocks : msg.payload?.any PostMessagePayload.wouldBlock := by
      rw [Option.mem_def.mp hp]
      exact hb
    exact h hblocks w (List.mem_of_mem_head? hw)
  · trivial

/-- In every run in which blocking jobs are executed only when the futures on the idle workers are done, no worker is
    ever given a blocking job while a future that was placed on it before is unfinished. -/
theorem unstarved_of_idleCaughtUp [LinearOrder H] {es : List (LedgerEvent H T)}
    (ho : RunOk Ledger.step IdleCaughtUp Ledger.init es) : RunAll Ledger.step Unstarved (Ledger.init : Ledger H T) es :=
  ho.runAll Inv.inOrder (fun h ho hs => h.step ho.postsToFree hs) Inv.init

/-- A call of `sleep_now`, on worker 1 as the first one: its job registers the timer and ends. -/
def sleepNow : List (LedgerEvent Nat Unit) :=
  [.pool (.message .willing (.spawnBlocking ())), .pool (.begin 1 0), .register 1, .pool (.finish 1),
    .pool (.deliver .willing 1), .pool (.deliver .willing 1)]

/-- The timer runs out before the next job. -/
theorem unstarved_after_sleep :
    RunAll Ledger.step Unstarved Ledger.init
      (sleepNow ++ [.complete 1 0, .pool (.message .willing (.spawnBlocking ()))]) := by
  have hok : RunOk Ledger.step IdleCaughtUp Ledger.init
      (sleepNow ++ [.complete 1 0, .pool (.message .willing (.spawnBlocking ()))]) := by decide
  exact unstarved_of_idleCaughtUp hok

/-- The next job goes to the worker whose timer is running. -/
theorem sleeping_worker_takes_job :
    ∃ s : Ledger Nat Unit, Reach Ledger.step Ledger.init s ∧ s.owed 1 = [.future, .job] ∧ ¬ s.Unstarved := by
  obtain ⟨s, hr, ho⟩ : ∃ s : Ledger Nat Unit, Reach Ledger.step Ledger.init s ∧ s.owed 1 = [.future, .job] :=
    exists_reach (sleepNow ++ [.pool (.message .willing (.spawnBlocking ()))]) _ (by decide)
  refine ⟨s, hr, ho, fun hu => ?_⟩
  have hw := hu 1
  rw [ho] at hw
  exact absurd hw (by decide)

end Ledger
end Pool
end WasmerJs
