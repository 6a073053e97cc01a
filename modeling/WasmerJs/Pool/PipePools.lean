import WasmerJs.Pool.Scheduler

/-! The schedulers of one page, and the pipe pools that their workers are given. `Scheduler::spawn` makes a pool and
    leaves it in a thread-local of the main thread; the init message of a worker carries the pool that is there
    when the worker is started (`src/tasks/scheduler.rs`, `src/tasks/worker_handle.rs`, `src/pipes/pool.rs`,
    `src/tasks/thread_pool_worker.rs`). -/

namespace WasmerJs
namespace Pool

open Transition

/-- A worker that was started. The `SharedArrayBuffer`s that `create_pipe_pool` makes are numbered. -/
structure Thread where
  id : WorkerId
  -- The scheduler that started it.
  scheduler : Nat
  -- How many schedulers had been spawned by then.
  epoch : Nat
  -- The `pipePool` of its init message.
  initPool : Nat
  -- Its own `PIPE_POOL`, once it has handled the init message.
  pipePool : Option Nat
  deriving DecidableEq

structure Page (H : Type) where
  -- `PIPE_POOL` of the main thread.
  pipePool : Option Nat
  nextPool : Nat
  -- A scheduler that has shut down is gone.
  schedulers : List (Option (SchedulerState H))
  -- `NEXT_ID`, which the schedulers share.
  nextId : WorkerId
  threads : List Thread

variable {H T : Type}

def Page.init : Page H := { pipePool := none, nextPool := 0, schedulers := [], nextId := 1, threads := [] }

/-- The events on the page: a scheduler is spawned, handles a message or shuts down, or a worker that was started
    handles its init message. -/
inductive PageEvent (H T : Type) where
  | spawn
  | message (k : Nat) (b : Browser H T) (msg : SchedulerMessage H T)
  | close (k : Nat)
  | initialise (i : Nat)

def Page.scheduler? (page : Page H) (k : Nat) : Option (SchedulerState H) := (page.schedulers[k]?).join

def Effect.spawned? : Effect H T → Option WorkerId
  | .spawned w => some w
  | .posted .. | .terminated _ => none

/-- `init_message` for a worker that scheduler `k` starts. -/
def Page.initMessage (page : Page H) (k : Nat) (pool : Nat) (w : WorkerId) : Thread :=
  { id := w, scheduler := k, epoch := page.schedulers.length, initPool := pool, pipePool := none }

/-- `ThreadPoolWorker::new` -/
def Thread.initialise (a : Thread) : Thread := { a with pipePool := some a.initPool }

section Step

variable [LinearOrder H]

def Page.step (page : Page H) : PageEvent H T → Option (Page H)
  | .spawn =>
    some { page with
      pipePool := some page.nextPool
      nextPool := page.nextPool + 1
      schedulers := page.schedulers ++ [some .new] }
  | .message k b msg =>
    match page.scheduler? k, page.pipePool with
    | some s, some pool =>
      let (s, effects) := { s with nextId := page.nextId }.execute b msg
      some { page with
        schedulers := page.schedulers.set k (some s)
        nextId := s.nextId
        threads := page.threads ++ (effects.filterMap Effect.spawned?).map (page.initMessage k pool) }
    | _, _ => none
  | .close k => (page.scheduler? k).map fun _ => { page with schedulers := page.schedulers.set k none }
  | .initialise i => (page.threads[i]?).map fun a => { page with threads := page.threads.set i a.initialise }

end Step

/-! ### Starting a worker -/

namespace SchedulerState

variable {b : Browser H T} {s : SchedulerState H}

theorem prime_spawned (b : Browser H T) (id : WorkerId) (hashes : List H) :
    (prime b id hashes).1.filterMap Effect.spawned? = [] := by
  refine List.filterMap_eq_nil_iff.mpr fun e he => ?_
  obtain ⟨hash, rfl⟩ := prime_effects b id hashes e he
  rfl

theorem startWorker_spawned :
    (s.startWorker b).2.1.filterMap Effect.spawned? = if b.spawn then [s.nextId] else [] := by
  unfold startWorker
  by_cases hspawn : b.spawn
  · have hp := prime_spawned b s.nextId s.cachedModules
    rcases hprime : prime b s.nextId s.cachedModules with ⟨primed, ok⟩
    rw [hprime] at hp
    cases ok <;> simp [hspawn, hprime, hp, Effect.spawned?]
  · simp [hspawn]

/-- A worker is started for a message only when none is idle. -/
theorem postMessage_spawned (b : Browser H T) (s : SchedulerState H) (msg : PostMessagePayload H T) :
    (s.postMessage b msg).2.filterMap Effect.spawned? = if s.idle = [] ∧ b.spawn then [s.nextId] else [] := by
  unfold postMessage nextAvailableWorker
  cases hi : s.idle with
  | cons w idle =>
    by_cases hpost : b.post w msg
    · cases msg.wouldBlock <;> simp [hpost, Effect.spawned?]
    · simp [hpost, Effect.spawned?]
  | nil =>
    have hs := startWorker_spawned (b := b) (s := s)
    rcases hstart : s.startWorker b with ⟨s', effects, _ | w⟩
    · simpa [hstart] using hs
    · rw [hstart] at hs
      by_cases hpost : b.post w msg
      · cases msg.wouldBlock <;> simp [hpost, hs, Effect.spawned?]
      · simp [hpost, hs, Effect.spawned?]

theorem sendAll_spawned {hash : H} {ids : List WorkerId} :
    (sendAll b (.cacheModule hash) ids).filterMap Effect.spawned? = [] := by
  refine List.filterMap_eq_nil_iff.mpr fun e he => ?_
  obtain ⟨w, hash, rfl⟩ := sendAll_notifies b hash ids e he
  rfl

theorem execute_spawned [LinearOrder H] (b : Browser H T) (s : SchedulerState H) (msg : SchedulerMessage H T) :
    (s.execute b msg).2.filterMap Effect.spawned? =
      if msg.payload?.isSome ∧ s.idle = [] ∧ b.spawn then [s.nextId] else [] := by
  cases hp : msg.payload? with
  | some p => simpa [execute_task hp] using postMessage_spawned b s p
  | none =>
    cases msg with
    | cacheModule => exact sendAll_spawned
    | workerBusy | workerIdle => rfl
    | _ => cases hp

end SchedulerState

/-! ### One pool for each scheduler -/

/-- The workers of one scheduler were initialised with the same pool. -/
structure Page.OnePool (page : Page H) : Prop where
  given : ∀ a ∈ page.threads, ∀ b ∈ page.threads, a.scheduler = b.scheduler → a.initPool = b.initPool
  -- An offset that one of them sends to another denotes the same header there.
  held : ∀ a ∈ page.threads, ∀ b ∈ page.threads, a.scheduler = b.scheduler →
    ∀ p q, a.pipePool = some p → b.pipePool = some q → p = q

/-- Scheduler `k` starts a worker for the message. -/
def Page.Starts (page : Page H) (k : Nat) (b : Browser H T) (msg : SchedulerMessage H T) : Prop :=
  msg.payload?.isSome ∧ (page.scheduler? k).any (fun s => s.idle.isEmpty) ∧ b.spawn

instance (page : Page H) (k : Nat) (b : Browser H T) (msg : SchedulerMessage H T) : Decidable (page.Starts k b msg) :=
  inferInstanceAs (Decidable (_ ∧ _ ∧ _))

theorem Page.step_message_inv [LinearOrder H] {page page' : Page H} {k : Nat} {b : Browser H T}
    {msg : SchedulerMessage H T} (hs : page.step (.message k b msg) = some page') :
    ∃ s s' pool, page.pipePool = some pool ∧ page' = { page with
      schedulers := page.schedulers.set k (some s)
      nextId := s'
      threads := page.threads ++ if page.Starts k b msg then [page.initMessage k pool page.nextId] else [] } := by
  simp only [Page.step] at hs
  split at hs
  · rename_i s pool hk hpool
    have hstarts : page.Starts k b msg ↔ msg.payload?.isSome ∧ s.idle = [] ∧ b.spawn := by simp [Page.Starts, hk]
    have hsp := SchedulerState.execute_spawned b { s with nextId := page.nextId } msg
    generalize SchedulerState.execute b { s with nextId := page.nextId } msg = r at hs hsp
    refine ⟨r.1, r.1.nextId, pool, hpool, (Option.some.inj hs).symm.trans ?_⟩
    rw [hsp, if_congr hstarts rfl rfl]
    split <;> rfl
  · cases hs

/-- A scheduler starts a worker only if no scheduler has been spawned since it started its earlier ones. -/
def StartsInTurn (page : Page H) : PageEvent H T → Prop
  | .message k b msg =>
    page.Starts k b msg → ∀ a ∈ page.threads, a.scheduler = k → a.epoch = page.schedulers.length
  | .spawn | .close _ | .initialise _ => True

instance (page : Page H) (e : PageEvent H T) : Decidable (StartsInTurn page e) :=
  match e with
  | .message .. => inferInstanceAs (Decidable (_ → _))
  | .spawn | .close _ | .initialise _ => inferInstanceAs (Decidable True)

/-- The pool of a thread is the one that the last scheduler spawned before it made. -/
structure Page.Inv (page : Page H) : Prop where
  next : page.nextPool = page.schedulers.length
  current : ∀ pool, page.pipePool = some pool → pool + 1 = page.schedulers.length
  pool : ∀ a ∈ page.threads, a.initPool + 1 = a.epoch
  held : ∀ a ∈ page.threads, ∀ p, a.pipePool = some p → p = a.initPool
  same : ∀ a ∈ page.threads, ∀ b ∈ page.threads, a.scheduler = b.scheduler → a.epoch = b.epoch

theorem Thread.of_initialised {threads : List Thread} {i : Nat} {a b : Thread} (ha : threads[i]? = some a)
    (hb : b ∈ threads.set i a.initialise) :
    ∃ c ∈ threads, b.scheduler = c.scheduler ∧ b.epoch = c.epoch ∧ b.initPool = c.initPool ∧
      (b.pipePool = c.pipePool ∨ b.pipePool = some c.initPool) := by
  rcases List.mem_or_eq_of_mem_set hb with hb | rfl
  · exact ⟨b, hb, rfl, rfl, rfl, .inl rfl⟩
  · exact ⟨a, List.mem_of_getElem? ha, rfl, rfl, rfl, .inr rfl⟩

namespace Page.Inv

variable {page page' : Page H} {e : PageEvent H T}

theorem init : (Page.init : Page H).Inv :=
  { next := rfl
    current := fun _ h => nomatch h
    pool := fun _ h => nomatch h
    held := fun _ h => nomatch h
    same := fun _ h => nomatch h }

theorem onePool (h : page.Inv) : page.OnePool := by
  have given : ∀ a ∈ page.threads, ∀ b ∈ page.threads, a.scheduler = b.scheduler → a.initPool = b.initPool := by
    intro a ha b hb hab
    have := h.same a ha b hb hab
    have := h.pool a ha
    have := h.pool b hb
    omega
  refine ⟨given, fun a ha b hb hab p q hp hq => ?_⟩
  rw [h.held a ha p hp, h.held b hb q hq]
  exact given a ha b hb hab

variable [LinearOrder H]

theorem step (h : page.Inv) (ho : StartsInTurn page e) (hs : page.step e = some page') : page'.Inv := by
  cases e with
  | spawn =>
    cases hs
    refine ⟨by simp [h.next], fun pool hp => ?_, h.pool, h.held, h.same⟩
    cases hp
    simp [h.next]
  | close k =>
    obtain ⟨s, -, rfl⟩ := Option.map_eq_some_iff.mp hs
    exact ⟨by simp [h.next], by simpa using h.current, h.pool, h.held, h.same⟩
  | initialise i =>
    obtain ⟨a, ha, rfl⟩ := Option.map_eq_some_iff.mp hs
    refine ⟨h.next, h.current, fun b hb => ?_, fun b hb p hp => ?_, fun b hb c hc hbc => ?_⟩
    · obtain ⟨b₀, hb₀, -, hepoch, hpool, -⟩ := Thread.of_initialised ha hb
      rw [hepoch, hpool]
      exact h.pool b₀ hb₀
    · obtain ⟨b₀, hb₀, -, -, hpool, heq | heq⟩ := Thread.of_initialised ha hb
      · rw [hpool]
        exact h.held b₀ hb₀ p (heq ▸ hp)
      · rw [hpool]
        exact Option.some.inj (hp.symm.trans heq)
    · obtain ⟨b₀, hb₀, hsb, heb, -⟩ := Thread.of_initialised ha hb
      obtain ⟨c₀, hc₀, hsc, hec, -⟩ := Thread.of_initialised ha hc
      rw [heb, hec]
      exact h.same b₀ hb₀ c₀ hc₀ (hsb ▸ hsc ▸ hbc)
  | message k b msg =>
    obtain ⟨s, n, pool, hpool, rfl⟩ := page.step_message_inv hs
    by_cases hstarts : page.Starts k b msg
    · have hepoch := ho hstarts
      rw [if_pos hstarts]
      have hcur := h.current pool hpool
      refine ⟨by simp [h.next], by simpa using h.current, fun a ha => ?_, fun a ha p hp => ?_,
        fun a ha c hc hac => ?_⟩
      · rcases List.mem_append.mp ha with ha | ha
        · exact h.pool a ha
        · obtain rfl := List.mem_singleton.mp ha
          exact hcur
      · rcases List.mem_append.mp ha with ha | ha
        · exact h.held a ha p hp
        · obtain rfl := List.mem_singleton.mp ha
          cases hp
      · -- The new worker and an earlier one of its scheduler both date from the last scheduler spawned.
        have hnew : ∀ d ∈ page.threads ++ [page.initMessage k pool page.nextId], d.scheduler = k →
            d.epoch = page.schedulers.length := by
          intro d hd hk
          rcases List.mem_append.mp hd with hd | hd
          · exact hepoch d hd hk
          · obtain rfl := List.mem_singleton.mp hd
            rfl
        by_cases hk : a.scheduler = k
        · rw [hnew a ha hk, hnew c hc (hac ▸ hk)]
        · have hold : ∀ d ∈ page.threads ++ [page.initMessage k pool page.nextId], d.scheduler ≠ k →
              d ∈ page.threads := by
            intro d hd hk
            rcases List.mem_append.mp hd with hd | hd
            · exact hd
            · obtain rfl := List.mem_singleton.mp hd
              exact absurd rfl hk
          exact h.same a (hold a ha hk) c (hold c hc (hac ▸ hk)) hac
    · rw [if_neg hstarts, List.append_nil]
      exact ⟨by simp [h.next], by simpa using h.current, h.pool, h.held, h.same⟩

/-- A scheduler that starts workers from before and after another scheduler was spawned gives them different
    pools. -/
theorem not_onePool (h : page.Inv) (ho : ¬ StartsInTurn page e) (hs : page.step e = some page') :
    ¬ page'.OnePool := by
  cases e with
  | spawn | close | initialise => exact absurd trivial ho
  | message k b msg =>
    obtain ⟨s, n, pool, hpool, rfl⟩ := page.step_message_inv hs
    simp only [StartsInTurn, not_forall] at ho
    obtain ⟨hstarts, a, ha, hak, hne⟩ := ho
    intro hone
    rw [if_pos hstarts] at hone
    have hpools : a.initPool = pool :=
      hone.given a (List.mem_append_left _ ha) (page.initMessage k pool page.nextId) (by simp) hak
    have hcur := h.current pool hpool
    have := h.pool a ha
    omega

end Page.Inv

/-- In every run of the page, the workers of each scheduler share one pool in every state exactly if no scheduler
    starts workers both before and after another one is spawned. -/
theorem one_pool_each [LinearOrder H] {es : List (PageEvent H T)} {page : Page H}
    (hr : run Page.step Page.init es = some page) :
    RunAll Page.step Page.OnePool Page.init es ↔ RunOk Page.step StartsInTurn Page.init es :=
  runAll_iff_runOk Page.Inv.onePool (fun h ho hs => h.step ho hs) (fun h ho hs => h.not_onePool ho hs) .init hr

/-- The first scheduler starts two workers before the second one is spawned. -/
theorem one_pool_each_in_turn :
    RunAll Page.step Page.OnePool (Page.init : Page Nat)
      [.spawn, .message 0 .willing (.spawnBlocking ()), .message 0 .willing (.spawnBlocking ()), .spawn,
        .message 1 .willing (.spawnAsync ()), .initialise 0, .initialise 1, .initialise 2] := by
  obtain ⟨page, hr⟩ := Option.isSome_iff_exists.mp (by decide :
    (run Page.step (Page.init : Page Nat)
      [.spawn, .message 0 .willing (.spawnBlocking ()), .message 0 .willing (.spawnBlocking ()), .spawn,
        .message 1 .willing (.spawnAsync ()), .initialise 0, .initialise 1, .initialise 2]).isSome)
  exact (one_pool_each hr).mpr (by decide)

/-- The first scheduler starts its second worker after the second scheduler was spawned. -/
theorem overlapping_schedulers_split_pools :
    ∃ page : Page Nat, Reach (Page.step (T := Unit)) Page.init page ∧ ¬ page.OnePool := by
  obtain ⟨page, hr, ht⟩ : ∃ page : Page Nat, Reach (Page.step (T := Unit)) Page.init page ∧
      page.threads.map (fun a => (a.scheduler, a.pipePool)) = [(0, some 0), (0, some 1)] :=
    exists_reach
      [.spawn, .message 0 .willing (.spawnBlocking ()), .spawn, .message 0 .willing (.spawnBlocking ()),
        .initialise 0, .initialise 1] _ (by decide)
  refine ⟨page, hr, fun hone => ?_⟩
  match hp : page.threads with
  | [a, b] =>
    simp only [hp, List.map_cons, List.map_nil, List.cons.injEq, Prod.mk.injEq] at ht
    have := hone.held a (by simp [hp]) b (by simp [hp]) (by omega) 0 1 (by simp [ht]) (by simp [ht])
    omega
  | [] | [_] | _ :: _ :: _ :: _ => simp [hp] at ht

end Pool
end WasmerJs
