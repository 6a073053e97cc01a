import WasmerJs.Pipe.Allocation

/-! When a pipe cannot be made (`create_pipe` in `src/runtime.rs`, over `src/pipes/mod.rs` and `src/pipes/pool.rs`). The
    pool is a bump allocator: a pipe whose ends are all dropped keeps its region. -/

namespace WasmerJs
namespace Pipe

open Transition

/-- The pipes of the ends that a value holds. -/
def Handle.offsets : Handle → List Nat
  | .tx e | .rx e => [e.poolOffset]
  | .pipe e e' => [e.poolOffset, e'.poolOffset]

namespace Pool

/-- The number of pipes that have an end that is not dropped. -/
def livePipes (s : Pool) : Nat := (s.handles.flatMap Handle.offsets).toFinset.card

/-- `create_pipe` allocates; its result is split at once. -/
def createPipe : Event := .withCapacity DEFAULT_PIPE_BUFFER_SIZE

/-- As many pipes as fit into the pool. -/
def maxPipes : Nat := (PIPE_POOL_SIZE - POOL_HEADER_SIZE) / DEFAULT_PIPE_BUFFER_SIZE

/-- The pipes that a step allocates are made by `create_pipe`. -/
def Event.Creates : Event → Prop
  | .withCapacity size => size = DEFAULT_PIPE_BUFFER_SIZE
  | _ => True

/-- The bytes of the pool that a step takes. -/
def Event.takes : Event → Nat
  | .withCapacity size => size
  | _ => 0

variable {s t : Pool} {e : Event} {es : List Event}

/-! ### The pool only fills up -/

/-- The pool allocates as one access of its allocation word would. -/
theorem withCapacity_eq_none {size : Nat} (hsize : HEADER_SIZE ≤ size) :
    s.step (.withCapacity size) = none ↔ Bump.reserve PIPE_POOL_SIZE s.nextOffset size = none := by
  rw [Bump.reserve_eq_none]
  simp only [step, hsize, true_and]
  split <;> simp <;> omega

theorem step_nextOffset (hs : s.step e = some t) : t.nextOffset = s.nextOffset + e.takes := by
  cases e with
  | pipeFromPoolOffset e =>
    obtain ⟨h, -, rfl⟩ := Option.map_eq_some_iff.mp hs
    rfl
  | withCapacity size =>
    simp only [step] at hs
    split at hs <;> cases hs
    rfl
  | split | combine | txFromPoolOffset | rxFromPoolOffset | drop | storeClosed => cases step_inv hs <;> assumption

theorem run_nextOffset (hr : run step s es = some t) : t.nextOffset = s.nextOffset + (es.map Event.takes).sum := by
  induction es generalizing s with
  | nil =>
    cases hr
    rfl
  | cons e es ih =>
    obtain ⟨u, hs, hr⟩ := Option.bind_eq_some_iff.mp hr
    rw [ih hr, step_nextOffset hs, List.map_cons, List.sum_cons, Nat.add_assoc]

/-- Each call of `create_pipe` takes as many bytes as the others. -/
theorem takes_sum (hes : ∀ e ∈ es, e.Creates) :
    (es.map Event.takes).sum = DEFAULT_PIPE_BUFFER_SIZE * es.count createPipe := by
  induction es with
  | nil => rfl
  | cons e es ih =>
    obtain ⟨he, hes⟩ := List.forall_mem_cons.mp hes
    rw [List.map_cons, List.sum_cons, ih hes]
    cases e with
    | withCapacity size =>
      obtain rfl : size = DEFAULT_PIPE_BUFFER_SIZE := he
      rw [← createPipe, List.count_cons_self, Nat.mul_succ, Nat.add_comm]
      rfl
    | _ =>
      rw [List.count_cons_of_ne (by simp [createPipe])]
      exact Nat.zero_add _

/-- The pool after a history in which every pipe was made by `create_pipe`. -/
theorem nextOffset_of_creates (hes : ∀ e ∈ es, e.Creates) (hr : run step Pool.init es = some s) :
    s.nextOffset = POOL_HEADER_SIZE + DEFAULT_PIPE_BUFFER_SIZE * es.count createPipe := by
  rw [run_nextOffset hr, takes_sum hes]
  rfl

theorem createPipe_eq_none {made : Nat} (hnext : s.nextOffset = POOL_HEADER_SIZE + DEFAULT_PIPE_BUFFER_SIZE * made) :
    s.step createPipe = none ↔ maxPipes ≤ made := by
  rw [createPipe, withCapacity_eq_none (by decide), Bump.reserve_eq_none, hnext, maxPipes]
  simp only [PIPE_POOL_SIZE, POOL_HEADER_SIZE, DEFAULT_PIPE_BUFFER_SIZE]
  omega

/-! ### Pipes that come and go -/

/-- A pipe is made, split, and both of its ends are dropped. -/
def shortLived (o : Nat) : List Event :=
  let e : End := { poolOffset := o, bufferSize := DEFAULT_PIPE_BUFFER_SIZE }
  [createPipe, .split e e, .drop (.tx e), .storeClosed o, .drop (.rx e)]

/-- `n` pipes after one another, the first one at `o`. -/
def shortLivedPipes (o : Nat) : Nat → List Event
  | 0 => []
  | n + 1 => shortLived o ++ shortLivedPipes (o + DEFAULT_PIPE_BUFFER_SIZE) n

/-- No end is left, and no drop has anything left to do. -/
structure Idle (s : Pool) : Prop where
  handles : s.handles = []
  closing : s.closing = []

/-- The pool after a pipe that has come and gone. -/
def spend (s : Pool) : Pool :=
  { s with
    nextOffset := s.nextOffset + DEFAULT_PIPE_BUFFER_SIZE
    headers := Function.update s.headers s.nextOffset (some { txCount := 0, closed := true })
    drops := s.drops ++ [{ poolOffset := s.nextOffset, closes := true, remaining := 0 }] }

theorem shortLived_run (h : s.Idle) (hroom : s.nextOffset + DEFAULT_PIPE_BUFFER_SIZE ≤ PIPE_POOL_SIZE) :
    run step s (shortLived s.nextOffset) = some s.spend ∧
      RunAll step (fun s => s.livePipes ≤ 1) s (shortLived s.nextOffset) := by
  obtain ⟨nextOffset, headers, handles, closing, drops⟩ := s
  obtain ⟨rfl, rfl⟩ : handles = [] ∧ closing = [] := ⟨h.handles, h.closing⟩
  have hsize : HEADER_SIZE ≤ DEFAULT_PIPE_BUFFER_SIZE := by decide
  have hroom : nextOffset + DEFAULT_PIPE_BUFFER_SIZE ≤ PIPE_POOL_SIZE := hroom
  constructor
  · simp [shortLived, createPipe, step, hsize, hroom, addTxCount, spend, live]
  · simp [shortLived, createPipe, RunAll, step, hsize, hroom, livePipes, Handle.offsets, addTxCount]

theorem shortLivedPipes_run {n : Nat} (h : s.Idle)
    (hroom : s.nextOffset + DEFAULT_PIPE_BUFFER_SIZE * n ≤ PIPE_POOL_SIZE) :
    ∃ t, run step s (shortLivedPipes s.nextOffset n) = some t ∧
      RunAll step (fun s => s.livePipes ≤ 1) s (shortLivedPipes s.nextOffset n) := by
  induction n generalizing s with
  | zero => exact ⟨s, rfl, by simp [shortLivedPipes, RunAll, livePipes, h.handles]⟩
  | succ n ih =>
    rw [Nat.mul_succ] at hroom
    obtain ⟨hfirst, hone⟩ := shortLived_run h (by omega)
    have hspent : s.spend.Idle := ⟨h.handles, h.closing⟩
    have hnext : s.spend.nextOffset = s.nextOffset + DEFAULT_PIPE_BUFFER_SIZE := rfl
    obtain ⟨t, hrest, hall⟩ := ih hspent (by omega)
    rw [hnext] at hrest hall
    refine ⟨t, ?_, hone.append hfirst hall⟩
    rw [shortLivedPipes, run_append, hfirst]
    exact hrest

theorem shortLivedPipes_creates {o n : Nat} : ∀ e ∈ shortLivedPipes o n, e.Creates := by
  induction n generalizing o with
  | zero => simp [shortLivedPipes]
  | succ n ih =>
    intro e he
    rcases List.mem_append.mp he with he | he
    · simp only [shortLived, List.mem_cons, List.not_mem_nil, or_false] at he
      rcases he with rfl | rfl | rfl | rfl | rfl
      · exact rfl
      all_goals exact trivial
    · exact ih e he

theorem shortLivedPipes_count {o n : Nat} : (shortLivedPipes o n).count createPipe = n := by
  induction n generalizing o with
  | zero => rfl
  | succ n ih =>
    have hone : (shortLived o).count createPipe = 1 := by simp [shortLived, createPipe]
    rw [shortLivedPipes, List.count_append, hone, ih, Nat.add_comm]

theorem Idle.init : Pool.init.Idle := ⟨rfl, rfl⟩

/-- As many pipes as fit into the pool have come and gone one by one, and the next one cannot be made. -/
theorem short_lived_pipes_exhaust :
    ¬ ∀ es s, (∀ e ∈ es, e.Creates) → run step Pool.init es = some s →
      RunAll step (fun s => s.livePipes ≤ maxPipes) Pool.init es → s.step createPipe ≠ none := by
  intro hall
  obtain ⟨s, hr, hone⟩ := shortLivedPipes_run (n := maxPipes) Idle.init (by decide)
  have hnext := nextOffset_of_creates shortLivedPipes_creates hr
  rw [shortLivedPipes_count] at hnext
  have hlive : ∀ s : Pool, s.livePipes ≤ 1 → s.livePipes ≤ maxPipes := fun s h => Nat.le_trans h (by decide)
  exact hall _ s shortLivedPipes_creates hr (hone.mono hlive) ((createPipe_eq_none hnext).mpr (Nat.le_refl _))

/-! ### When `create_pipe` fails -/

/-- After any history on one pool, of calls of `create_pipe` and whatever else happens to the pipes and their ends, the
    next call fails exactly if as many pipes were made before as fit into the pool, whether or not they have an end
    left. -/
theorem create_pipe_fails_iff (hes : ∀ e ∈ es, e.Creates) (hr : run step Pool.init es = some s) :
    s.step createPipe = none ↔ maxPipes ≤ es.count createPipe :=
  createPipe_eq_none (nextOffset_of_creates hes hr)

/-- The last pipe that fits is made, and the one after it is not. -/
theorem create_pipe_fails_full :
    (∃ s, run step Pool.init (shortLivedPipes POOL_HEADER_SIZE 254) = some s ∧ s.step createPipe ≠ none) ∧
      ∃ s, run step Pool.init (shortLivedPipes POOL_HEADER_SIZE 255) = some s ∧ s.step createPipe = none := by
  constructor
  · obtain ⟨s, hr, -⟩ := shortLivedPipes_run (n := 254) Idle.init (by decide)
    refine ⟨s, hr, fun hnone => ?_⟩
    have hle := (create_pipe_fails_iff shortLivedPipes_creates hr).mp hnone
    rw [shortLivedPipes_count] at hle
    exact absurd hle (by decide)
  · obtain ⟨s, hr, -⟩ := shortLivedPipes_run (n := 255) Idle.init (by decide)
    refine ⟨s, hr, (create_pipe_fails_iff shortLivedPipes_creates hr).mpr ?_⟩
    rw [shortLivedPipes_count]
    decide

end Pool
end Pipe
end WasmerJs
