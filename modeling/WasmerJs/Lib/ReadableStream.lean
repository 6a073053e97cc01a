import Mathlib

/-! Readable streams with a default controller, as the streams standard describes them: a queue of chunks that an
    underlying source fills when it is pulled, and that whoever holds the reader lock empties. What the source does in
    a pull is left open, but for the state `π` that the pull is in. -/

namespace WasmerJs

/-- What a stream is made with: its queuing strategy, and the state of a pull that has just been called. -/
structure Strategy (α π : Type) where
  highWaterMark : Nat
  size : α → Nat
  called : π

/-- The sizes of all chunks together. -/
def Strategy.total {α π : Type} (σ : Strategy α π) (queue : List α) : Nat := (queue.map σ.size).sum

/-- How the promise of a `read` was settled. -/
inductive ReadResult (α : Type) where
  | chunk (c : α)
  | done
  | failed
  deriving DecidableEq

def ReadResult.chunk? {α : Type} : ReadResult α → Option α
  | .chunk c => some c
  | .done | .failed => none

inductive StreamPhase where
  | readable
  | closed
  | errored
  deriving DecidableEq

/-- A stream of chunks `α` with readers `ρ`. `requests` counts the reads of the present reader that wait for a chunk,
    and `results` are the reads that were settled, in that order. -/
structure ReadableStream (ρ α π : Type) where
  phase : StreamPhase
  queue : List α
  closeRequested : Bool
  started : Bool
  -- The pull that is in flight, if any, and whether another one was asked for in the meantime.
  pull : Option π
  pullAgain : Bool
  reader : Option ρ
  requests : Nat
  results : List (ρ × ReadResult α)

namespace ReadableStream

variable {ρ α π : Type}

def init : ReadableStream ρ α π :=
  { phase := .readable, queue := [], closeRequested := false, started := false, pull := none, pullAgain := false,
    reader := none, requests := 0, results := [] }

section Operations

variable (σ : Strategy α π) (s : ReadableStream ρ α π)

/-- The reader's waiting reads are settled, all in the same way. -/
def settle (r : ReadResult α) : ReadableStream ρ α π :=
  { s with requests := 0, results := s.results ++ (s.reader.toList.flatMap fun i => .replicate s.requests (i, r)) }

/-- `ReadableStreamDefaultControllerCanCloseOrEnqueue` -/
def canCloseOrEnqueue : Bool := !s.closeRequested && s.phase == .readable

/-- `ReadableStreamDefaultControllerGetDesiredSize`, where it is not null. -/
def desiredSize : Option Int :=
  match s.phase with
  | .errored => none
  | .closed => some 0
  | .readable => some (σ.highWaterMark - σ.total s.queue)

/-- `ReadableStreamDefaultControllerShouldCallPull` -/
def shouldCallPull : Bool :=
  s.canCloseOrEnqueue && s.started && (0 < s.requests || σ.total s.queue < σ.highWaterMark)

/-- `ReadableStreamDefaultControllerCallPullIfNeeded`: while a pull is in flight, the next one is only noted. -/
def callPullIfNeeded : ReadableStream ρ α π :=
  { s with
    pull := if s.shouldCallPull σ then s.pull.or (some σ.called) else s.pull
    pullAgain := s.pullAgain || s.shouldCallPull σ && s.pull.isSome }

/-- The source has started. -/
def start : ReadableStream ρ α π := callPullIfNeeded σ { s with started := true }

/-- `ReadableStreamClose` -/
def closeStream : ReadableStream ρ α π := settle { s with phase := .closed } .done

/-- `ReadableStreamDefaultControllerError` -/
def error : ReadableStream ρ α π :=
  if s.phase = .readable then settle { s with phase := .errored, queue := [] } .failed else s

/-- `controller.enqueue`; there is no result when it throws. -/
def enqueue (c : α) : Option (ReadableStream ρ α π) :=
  if s.canCloseOrEnqueue then
    match s.reader, s.requests with
    | some i, n + 1 => some (callPullIfNeeded σ { s with requests := n, results := s.results ++ [(i, .chunk c)] })
    | some _, 0 | none, _ => some (callPullIfNeeded σ { s with queue := s.queue ++ [c] })
  else none

/-- `controller.close`; there is no result when it throws. -/
def close : Option (ReadableStream ρ α π) :=
  if s.canCloseOrEnqueue then
    let s := { s with closeRequested := true }
    some (if s.queue.isEmpty then s.closeStream else s)
  else none

/-- The promise of the pull in flight is fulfilled. -/
def pullFulfilled : ReadableStream ρ α π :=
  if s.pullAgain then callPullIfNeeded σ { s with pull := none, pullAgain := false } else { s with pull := none }

/-- The promise of the pull in flight is rejected. -/
def pullRejected : ReadableStream ρ α π := error { s with pull := none }

/-- `getReader`; there is no result when the stream is locked. -/
def getReader (i : ρ) : Option (ReadableStream ρ α π) :=
  match s.reader with
  | none => some { s with reader := some i }
  | some _ => none

/-- `releaseLock`: the reads that still wait fail. -/
def releaseLock : ReadableStream ρ α π := { settle s .failed with reader := none }

/-- `read`, by the reader that holds the lock. -/
def read : Option (ReadableStream ρ α π) :=
  s.reader.map fun i =>
    match s.phase with
    | .closed => { s with results := s.results ++ [(i, .done)] }
    | .errored => { s with results := s.results ++ [(i, .failed)] }
    | .readable =>
      match s.queue with
      | [] => callPullIfNeeded σ { s with requests := s.requests + 1 }
      | c :: queue =>
        let s := { s with queue, results := s.results ++ [(i, .chunk c)] }
        if s.closeRequested && queue.isEmpty then s.closeStream else callPullIfNeeded σ s

/-- `ReadableStreamCancel`; the flag says whether the source is told. -/
def cancel : ReadableStream ρ α π × Bool :=
  match s.phase with
  | .closed => (s, false)
  | .errored => (s, false)
  | .readable => ({ s.closeStream with queue := [] }, true)

end Operations

/-! ### What has come out -/

/-- The chunks that reads were given, in order, whoever read them. -/
def delivered (s : ReadableStream ρ α π) : List α := s.results.filterMap fun r => r.2.chunk?

/-- The chunks that have come out, and then those that wait. -/
def chunks (s : ReadableStream ρ α π) : List α := s.delivered ++ s.queue

variable {σ : Strategy α π} {s t : ReadableStream ρ α π} {r : ReadResult α} {c : α} {i : ρ}

/-! ### The parts that an operation leaves alone -/

@[simp] theorem callPullIfNeeded_phase : (s.callPullIfNeeded σ).phase = s.phase := rfl
@[simp] theorem callPullIfNeeded_queue : (s.callPullIfNeeded σ).queue = s.queue := rfl
@[simp] theorem callPullIfNeeded_closeRequested :
    (s.callPullIfNeeded σ).closeRequested = s.closeRequested := rfl
@[simp] theorem callPullIfNeeded_started : (s.callPullIfNeeded σ).started = s.started := rfl
@[simp] theorem callPullIfNeeded_reader : (s.callPullIfNeeded σ).reader = s.reader := rfl
@[simp] theorem callPullIfNeeded_requests : (s.callPullIfNeeded σ).requests = s.requests := rfl
@[simp] theorem callPullIfNeeded_results : (s.callPullIfNeeded σ).results = s.results := rfl

@[simp] theorem settle_phase : (s.settle r).phase = s.phase := rfl
@[simp] theorem settle_queue : (s.settle r).queue = s.queue := rfl
@[simp] theorem settle_closeRequested : (s.settle r).closeRequested = s.closeRequested := rfl
@[simp] theorem settle_requests : (s.settle r).requests = 0 := rfl
@[simp] theorem settle_pull : (s.settle r).pull = s.pull := rfl
@[simp] theorem settle_pullAgain : (s.settle r).pullAgain = s.pullAgain := rfl
@[simp] theorem settle_started : (s.settle r).started = s.started := rfl
@[simp] theorem settle_reader : (s.settle r).reader = s.reader := rfl

@[simp] theorem delivered_callPullIfNeeded : (s.callPullIfNeeded σ).delivered = s.delivered := rfl

/-- Reads that get no chunk take nothing out. -/
theorem delivered_settle (hr : r.chunk? = none) : (s.settle r).delivered = s.delivered := by
  have hnone : ∀ x ∈ s.reader.toList.flatMap fun i => List.replicate s.requests (i, r), x.2.chunk? = none := by
    intro x hx
    obtain ⟨i, -, hx⟩ := List.mem_flatMap.mp hx
    rw [List.eq_of_mem_replicate hx]
    exact hr
  unfold delivered settle
  rw [List.filterMap_append, List.filterMap_eq_nil_iff.mpr hnone, List.append_nil]

@[simp] theorem delivered_closeStream : s.closeStream.delivered = s.delivered := delivered_settle rfl
@[simp] theorem closeStream_queue : s.closeStream.queue = s.queue := rfl

theorem mem_settle {x : ρ × ReadResult α} (hx : x ∈ (s.settle r).results) : x ∈ s.results ∨ x.2 = r := by
  rcases List.mem_append.mp hx with hx | hx
  · exact .inl hx
  · obtain ⟨i, -, hx⟩ := List.mem_flatMap.mp hx
    exact .inr (congrArg Prod.snd (List.eq_of_mem_replicate hx))

/-! ### What enqueueing and reading do -/

theorem canCloseOrEnqueue_iff : s.canCloseOrEnqueue ↔ s.closeRequested = false ∧ s.phase = .readable := by
  simp [canCloseOrEnqueue]

/-- A chunk goes to the read that waits longest, or behind the others. -/
inductive Enqueued (σ : Strategy α π) (s : ReadableStream ρ α π) (c : α) : ReadableStream ρ α π → Prop where
  | handed {i : ρ} {n : Nat} (hi : s.reader = some i) (hn : s.requests = n + 1) :
      Enqueued σ s c (callPullIfNeeded σ { s with requests := n, results := s.results ++ [(i, .chunk c)] })
  | queued (hn : s.reader.isSome → s.requests = 0) :
      Enqueued σ s c (callPullIfNeeded σ { s with queue := s.queue ++ [c] })

theorem enqueue_inv (ht : s.enqueue σ c = some t) :
    s.closeRequested = false ∧ s.phase = .readable ∧ Enqueued σ s c t := by
  unfold enqueue at ht
  split at ht
  · rename_i hcan
    obtain ⟨hclose, hp⟩ := canCloseOrEnqueue_iff.mp hcan
    refine ⟨hclose, hp, ?_⟩
    split at ht
    · rename_i hi hn
      cases ht
      exact .handed hi hn
    · rename_i hn
      cases ht
      exact .queued fun _ => hn
    · rename_i hi
      cases ht
      exact .queued fun h => by simp [hi] at h
  · cases ht

/-- The outcomes of a read: the stream has ended, or the oldest chunk is taken, or the read waits. -/
inductive Read (σ : Strategy α π) (s : ReadableStream ρ α π) (i : ρ) : ReadableStream ρ α π → Prop where
  | closed (hp : s.phase = .closed) : Read σ s i { s with results := s.results ++ [(i, .done)] }
  | errored (hp : s.phase = .errored) : Read σ s i { s with results := s.results ++ [(i, .failed)] }
  | waits (hp : s.phase = .readable) (hq : s.queue = []) :
      Read σ s i (callPullIfNeeded σ { s with requests := s.requests + 1 })
  | last {c : α} (hp : s.phase = .readable) (hq : s.queue = [c]) (hc : s.closeRequested) :
      Read σ s i (closeStream { s with queue := [], results := s.results ++ [(i, .chunk c)] })
  | taken {c : α} {queue : List α} (hp : s.phase = .readable) (hq : s.queue = c :: queue)
      (hc : s.closeRequested → queue ≠ []) :
      Read σ s i (callPullIfNeeded σ { s with queue, results := s.results ++ [(i, .chunk c)] })

theorem read_inv (ht : s.read σ = some t) : ∃ i, s.reader = some i ∧ Read σ s i t := by
  obtain ⟨i, hi, ht⟩ := Option.map_eq_some_iff.mp ht
  refine ⟨i, hi, ?_⟩
  split at ht
  · rename_i hp
    cases ht
    exact .closed hp
  · rename_i hp
    cases ht
    exact .errored hp
  · rename_i hp
    split at ht
    · rename_i hq
      cases ht
      exact .waits hp hq
    · rename_i c queue hq
      dsimp only at ht
      split at ht
      · rename_i hlast
        obtain ⟨hc, hnil⟩ := Bool.and_eq_true_iff.mp hlast
        obtain rfl : queue = [] := List.isEmpty_iff.mp hnil
        cases ht
        exact .last hp hq hc
      · rename_i hlast
        cases ht
        refine .taken hp hq fun hc hnil => hlast ?_
        simp [show s.closeRequested = true from hc, hnil]

/-! ### What every operation keeps -/

/-- Reads wait only for a readable stream with an empty queue, a stream that is to be closed has chunks left, and the
    end is told only once it is closed. -/
structure Sound (s : ReadableStream ρ α π) : Prop where
  waiting : 0 < s.requests → s.phase = .readable ∧ s.queue = [] ∧ s.closeRequested = false ∧ s.reader.isSome
  closing : s.phase = .readable → s.closeRequested → s.queue ≠ []
  ended : s.phase ≠ .readable → s.queue = []
  told : ∀ i, (i, .done) ∈ s.results → s.phase = .closed

namespace Sound

theorem init : Sound (.init : ReadableStream ρ α π) where
  waiting h := absurd h (Nat.lt_irrefl 0)
  closing _ h := by cases h
  ended h := absurd rfl h
  told i h := by cases h

theorem callPullIfNeeded (h : Sound s) : Sound (s.callPullIfNeeded σ) := ⟨h.waiting, h.closing, h.ended, h.told⟩

/-- What is in flight does not matter. -/
theorem withPull (h : Sound s) (pull : Option π) (again : Bool) :
    Sound { s with pull, pullAgain := again } := ⟨h.waiting, h.closing, h.ended, h.told⟩

theorem start (h : Sound s) : Sound (s.start σ) :=
  callPullIfNeeded ⟨h.waiting, h.closing, h.ended, h.told⟩

theorem not_told (h : Sound s) (hp : s.phase = .readable) (i : ρ) : (i, .done) ∉ s.results := fun hi => by
  cases hp.symm.trans (h.told i hi)

theorem error (h : Sound s) : Sound s.error := by
  unfold ReadableStream.error
  split
  · rename_i hp
    refine ⟨fun h => absurd h (Nat.lt_irrefl 0), nofun, fun _ => rfl, fun i hi => ?_⟩
    rcases mem_settle hi with hi | hi
    · exact absurd hi (h.not_told hp i)
    · cases hi
  · exact h

theorem enqueue (h : Sound s) (ht : s.enqueue σ c = some t) : Sound t := by
  obtain ⟨hclose, hp, ht⟩ := enqueue_inv ht
  cases ht with
  | @handed i n hi hn =>
    obtain ⟨-, hq, -, -⟩ := h.waiting (by omega)
    refine callPullIfNeeded ⟨fun _ => ⟨hp, hq, hclose, by simp [hi]⟩, h.closing, h.ended, fun j hj => ?_⟩
    rcases List.mem_append.mp hj with hj | hj
    · exact absurd hj (h.not_told hp j)
    · simp at hj
  | queued hn =>
    refine callPullIfNeeded ⟨fun hpos => ?_, fun _ _ => by simp, fun hne => absurd hp hne, h.told⟩
    have hzero := hn (h.waiting hpos).2.2.2
    exact absurd hzero (Nat.ne_of_gt hpos)

theorem close (h : Sound s) (ht : s.close = some t) : Sound t := by
  unfold ReadableStream.close at ht
  split at ht
  · rename_i hcan
    obtain ⟨-, hp⟩ := canCloseOrEnqueue_iff.mp hcan
    dsimp only at ht
    split at ht
    · rename_i hq
      cases ht
      exact ⟨fun h => absurd h (Nat.lt_irrefl 0), nofun, fun _ => List.isEmpty_iff.mp hq, fun _ _ => rfl⟩
    · rename_i hq
      have hq : s.queue ≠ [] := fun hnil => hq (List.isEmpty_iff.mpr hnil)
      cases ht
      exact ⟨fun hpos => absurd (h.waiting hpos).2.1 hq, fun _ _ => hq, h.ended, h.told⟩
  · cases ht

theorem pullFulfilled (h : Sound s) : Sound (s.pullFulfilled σ) := by
  unfold ReadableStream.pullFulfilled
  split
  · exact (h.withPull none false).callPullIfNeeded
  · exact h.withPull none s.pullAgain

theorem getReader (h : Sound s) (ht : s.getReader i = some t) : Sound t := by
  unfold ReadableStream.getReader at ht
  split at ht
  · rename_i hr
    cases ht
    refine ⟨fun hpos => ?_, h.closing, h.ended, h.told⟩
    have hsome := (h.waiting hpos).2.2.2
    simp [hr] at hsome
  · cases ht

theorem releaseLock (h : Sound s) : Sound s.releaseLock := by
  refine ⟨fun h => absurd h (Nat.lt_irrefl 0), h.closing, h.ended, fun i hi => ?_⟩
  rcases mem_settle hi with hi | hi
  · exact h.told i hi
  · cases hi

theorem read (h : Sound s) (ht : s.read σ = some t) : Sound t := by
  obtain ⟨i, hi, ht⟩ := read_inv ht
  cases ht with
  | closed hp => exact ⟨h.waiting, h.closing, h.ended, fun _ _ => hp⟩
  | errored hp =>
    refine ⟨h.waiting, h.closing, h.ended, fun j hj => ?_⟩
    rcases List.mem_append.mp hj with hj | hj
    · exact h.told j hj
    · simp at hj
  | waits hp hq =>
    refine callPullIfNeeded ⟨fun _ => ⟨hp, hq, ?_, by simp [hi]⟩, h.closing, h.ended, h.told⟩
    by_contra hc
    exact h.closing hp (by simpa using hc) hq
  | last hp hq hc => exact ⟨fun h => absurd h (Nat.lt_irrefl 0), nofun, fun _ => rfl, fun _ _ => rfl⟩
  | @taken c queue hp hq hc =>
    refine callPullIfNeeded ⟨fun hpos => ?_, fun _ => hc, fun hne => absurd hp hne, fun j hj => ?_⟩
    · have hnil := (h.waiting hpos).2.1
      simp [hq] at hnil
    · rcases List.mem_append.mp hj with hj | hj
      · exact absurd hj (h.not_told hp j)
      · simp at hj

theorem cancel (h : Sound s) : Sound s.cancel.1 := by
  unfold ReadableStream.cancel
  split
  · exact h
  · exact h
  · exact ⟨fun h => absurd h (Nat.lt_irrefl 0), nofun, fun _ => rfl, fun _ _ => rfl⟩

end Sound

/-! ### The chunks -/

theorem chunks_enqueue (h : Sound s) (ht : s.enqueue σ c = some t) : t.chunks = s.chunks ++ [c] := by
  obtain ⟨-, hp, ht⟩ := enqueue_inv ht
  cases ht with
  | @handed i n hi hn =>
    obtain ⟨-, hq, -, -⟩ := h.waiting (by omega)
    simp [chunks, delivered, hq, ReadResult.chunk?]
  | queued hn => simp [chunks, delivered]

theorem chunks_getReader (ht : s.getReader i = some t) : t.chunks = s.chunks := by
  unfold getReader at ht
  split at ht
  · cases ht
    rfl
  · cases ht

theorem reader_releaseLock {i : ρ} : s.releaseLock.reader ≠ some i := by simp [ReadableStream.releaseLock]

theorem chunks_releaseLock : s.releaseLock.chunks = s.chunks :=
  congrArg (· ++ s.queue) (delivered_settle rfl)

theorem chunks_close (ht : s.close = some t) : t.chunks = s.chunks := by
  unfold close at ht
  split at ht
  · dsimp only at ht
    split at ht
    · cases ht
      exact congrArg (· ++ s.queue) delivered_closeStream
    · cases ht
      rfl
  · cases ht

/-- An error throws away what waits in the queue. -/
theorem chunks_error : s.error.chunks <+: s.chunks := by
  unfold error
  split
  · rw [chunks, delivered_settle rfl, settle_queue, List.append_nil]
    exact List.prefix_append _ _
  · exact List.prefix_rfl

theorem chunks_cancel : s.cancel.1.chunks <+: s.chunks := by
  unfold cancel
  split
  · exact List.prefix_rfl
  · exact List.prefix_rfl
  · show s.closeStream.delivered ++ [] <+: s.chunks
    rw [delivered_closeStream, List.append_nil]
    exact List.prefix_append _ _

theorem chunks_read (ht : s.read σ = some t) : t.chunks = s.chunks := by
  obtain ⟨i, hi, ht⟩ := read_inv ht
  cases ht with
  | closed hp => simp [chunks, delivered, ReadResult.chunk?]
  | errored hp => simp [chunks, delivered, ReadResult.chunk?]
  | waits hp hq => rfl
  | last hp hq hc =>
    rw [chunks, delivered_closeStream, closeStream_queue]
    simp [chunks, delivered, ReadResult.chunk?, hq]
  | taken hp hq hc => simp [chunks, delivered, ReadResult.chunk?, hq]

/-! ### The phases -/

theorem closeRequested_read (ht : s.read σ = some t) : t.closeRequested = s.closeRequested := by
  obtain ⟨i, -, ht⟩ := read_inv ht
  cases ht <;> rfl

/-- A read closes the stream when it takes the last chunk of one that is to be closed. -/
theorem phase_read (ht : s.read σ = some t) :
    t.phase = s.phase ∨ s.phase = .readable ∧ s.closeRequested ∧ t.phase = .closed := by
  obtain ⟨i, -, ht⟩ := read_inv ht
  cases ht with
  | last hp hq hc => exact .inr ⟨hp, hc, rfl⟩
  | _ => exact .inl rfl

theorem queue_read (ht : s.read σ = some t) : t.queue <:+ s.queue := by
  obtain ⟨i, -, ht⟩ := read_inv ht
  cases ht with
  | last hp hq hc => exact List.nil_suffix
  | taken hp hq hc => exact hq ▸ List.suffix_cons _ _
  | _ => exact List.suffix_rfl

theorem phase_close (ht : s.close = some t) :
    t.closeRequested ∧ s.phase = .readable ∧ (t.phase = .readable ∨ t.phase = .closed) := by
  unfold close at ht
  split at ht
  · rename_i hcan
    obtain ⟨-, hp⟩ := canCloseOrEnqueue_iff.mp hcan
    dsimp only at ht
    split at ht
    · cases ht
      exact ⟨rfl, hp, .inr rfl⟩
    · cases ht
      exact ⟨rfl, hp, .inl hp⟩
  · cases ht

theorem queue_close (ht : s.close = some t) : t.queue = s.queue := by
  unfold close at ht
  split at ht
  · dsimp only at ht
    split at ht
    · cases ht
      rfl
    · cases ht
      rfl
  · cases ht

theorem close_eq_none_iff : s.close = none ↔ s.canCloseOrEnqueue = false := by
  unfold close
  split <;> simp_all

theorem enqueue_eq_none_iff : s.enqueue σ c = none ↔ s.canCloseOrEnqueue = false := by
  unfold enqueue
  split
  · split <;> simp_all
  · simp_all

theorem phase_enqueue (ht : s.enqueue σ c = some t) : t.phase = s.phase ∧ t.closeRequested = s.closeRequested := by
  obtain ⟨-, -, ht⟩ := enqueue_inv ht
  cases ht <;> exact ⟨rfl, rfl⟩

/-- A chunk takes up room in the queue if no read waits for it. -/
theorem total_enqueue (ht : s.enqueue σ c = some t) : σ.total t.queue ≤ σ.total s.queue + σ.size c := by
  obtain ⟨-, -, ht⟩ := enqueue_inv ht
  cases ht with
  | handed hi hn => exact Nat.le_add_right _ _
  | queued hn => simp [Strategy.total]

theorem phase_error : s.error.phase ≠ .readable ∧ (s.error.phase = .closed → s.phase = .closed) := by
  unfold error
  split
  · exact ⟨nofun, nofun⟩
  · rename_i hp
    exact ⟨hp, id⟩

theorem phase_cancel : s.cancel.1.phase ≠ .readable := by
  unfold cancel
  split
  · rename_i hp
    rw [hp]
    nofun
  · rename_i hp
    rw [hp]
    nofun
  · nofun

theorem total_le_of_suffix {q q' : List α} (h : q' <:+ q) : σ.total q' ≤ σ.total q := by
  obtain ⟨p, rfl⟩ := h
  simp [Strategy.total]

theorem shouldCallPull_iff : s.shouldCallPull σ ↔ s.closeRequested = false ∧ s.phase = .readable ∧ s.started ∧
    (0 < s.requests ∨ σ.total s.queue < σ.highWaterMark) := by
  simp [shouldCallPull, canCloseOrEnqueue_iff, and_assoc]

theorem close_empty (hc : s.closeRequested = false) (hp : s.phase = .readable) (hq : s.queue = []) :
    s.close = some (closeStream { s with closeRequested := true }) := by
  have hcan := canCloseOrEnqueue_iff.mpr ⟨hc, hp⟩
  simp [close, hcan, hq]

theorem enqueue_handed (hc : s.closeRequested = false) (hp : s.phase = .readable) (hi : s.reader = some i) {n : Nat}
    (hn : s.requests = n + 1) (c : α) :
    s.enqueue σ c =
      some (callPullIfNeeded σ { s with requests := n, results := s.results ++ [(i, .chunk c)] }) := by
  have hcan := canCloseOrEnqueue_iff.mpr ⟨hc, hp⟩
  simp [enqueue, hcan, hi, hn]

/-! ### The reads of the present reader -/

/-- Only reads of the present reader are settled by a read. -/
theorem results_read (ht : s.read σ = some t) :
    t.reader = s.reader ∧ ∃ new, t.results = s.results ++ new ∧ ∀ x ∈ new, s.reader = some x.1 := by
  obtain ⟨i, hi, hread⟩ := read_inv ht
  cases hread with
  | closed hp => exact ⟨rfl, [(i, .done)], rfl, by simp [hi]⟩
  | errored hp => exact ⟨rfl, [(i, .failed)], rfl, by simp [hi]⟩
  | waits hp hq => exact ⟨rfl, [], by simp, by simp⟩
  | @last c hp hq hc =>
    refine ⟨rfl, (i, .chunk c) :: .replicate s.requests (i, .done), ?_, ?_⟩
    · simp [closeStream, settle, hi]
    · intro x hx
      rcases List.mem_cons.mp hx with rfl | hx
      · exact hi
      · rw [List.eq_of_mem_replicate hx]
        exact hi
  | @taken c queue hp hq hc => exact ⟨rfl, [(i, .chunk c)], rfl, by simp [hi]⟩

/-- The reads that the present reader waits for are settled in turn, and no others. -/
def Settles (s t : ReadableStream ρ α π) : Prop :=
  ∃ new : List (ReadResult α), t.results = s.results ++ s.reader.toList.flatMap (fun i => new.map fun r => (i, r)) ∧
    t.requests + new.length = s.requests ∧ t.reader = s.reader

namespace Settles

theorem of_eq (hr : t.results = s.results) (hn : t.requests = s.requests) (hi : t.reader = s.reader) : Settles s t :=
  ⟨[], by simp [hr], by simpa using hn, hi⟩

theorem settle (r : ReadResult α) : Settles s (s.settle r) :=
  ⟨.replicate s.requests r, by simp [ReadableStream.settle], by simp, rfl⟩

theorem enqueue (ht : s.enqueue σ c = some t) : Settles s t := by
  obtain ⟨-, -, ht⟩ := enqueue_inv ht
  cases ht with
  | handed hi hn => exact ⟨[.chunk c], by simp [hi], by simp [hn], rfl⟩
  | queued hn => exact of_eq rfl rfl rfl

theorem close (ht : s.close = some t) : Settles s t := by
  unfold ReadableStream.close at ht
  split at ht
  · dsimp only at ht
    split at ht
    · cases ht
      exact settle (s := { s with closeRequested := true, phase := .closed }) .done
    · cases ht
      exact of_eq rfl rfl rfl
  · cases ht

theorem error : Settles s s.error := by
  unfold ReadableStream.error
  split
  · exact settle (s := { s with phase := .errored, queue := [] }) .failed
  · exact of_eq rfl rfl rfl

theorem pullFulfilled : Settles s (s.pullFulfilled σ) := by
  unfold ReadableStream.pullFulfilled
  split <;> exact of_eq rfl rfl rfl

/-- What a pull that is over leaves behind does not matter. -/
theorem withPull (h : Settles s t) (pull : Option π) : Settles s { t with pull } := h

end Settles

/-! ### Pulling -/

/-- Whenever the stream should be filled, a pull is in flight, and one that is over is followed by another one. -/
def Fed (σ : Strategy α π) (settled : π → Prop) (s : ReadableStream ρ α π) : Prop :=
  s.shouldCallPull σ → ∃ p, s.pull = some p ∧ (settled p → s.pullAgain)

theorem pullAgain_callPullIfNeeded (hpull : s.pull.isSome) (hcall : (s.callPullIfNeeded σ).shouldCallPull σ) :
    (s.callPullIfNeeded σ).pullAgain := by
  have hcall : s.shouldCallPull σ = true := hcall
  simp [callPullIfNeeded, hcall, hpull]

namespace Fed

variable {settled : π → Prop}

theorem of_not_readable (hp : s.phase ≠ .readable) : Fed σ settled s := fun hcall =>
  absurd (shouldCallPull_iff.mp hcall).2.1 hp

theorem of_closeRequested (hc : s.closeRequested) : Fed σ settled s := fun hcall => by
  have hopen := (shouldCallPull_iff.mp hcall).1
  rw [hc] at hopen
  cases hopen

/-- After the check a pull is in flight or not needed. -/
theorem callPullIfNeeded (hnew : ¬ settled σ.called) : Fed σ settled (s.callPullIfNeeded σ) := by
  intro hcall
  have hcall : s.shouldCallPull σ = true := hcall
  cases hpull : s.pull with
  | none =>
    refine ⟨σ.called, by simp [ReadableStream.callPullIfNeeded, hcall, hpull], fun hset => absurd hset hnew⟩
  | some p => exact ⟨p, by simp [ReadableStream.callPullIfNeeded, hcall, hpull], fun _ => by
      simp [ReadableStream.callPullIfNeeded, hcall, hpull]⟩

/-- The pull in flight has enqueued a chunk, and then it is over. -/
theorem enqueue (ht : s.enqueue σ c = some t) (hpull : s.pull.isSome) (p : π) :
    Fed σ settled { t with pull := some p } := by
  intro hcall
  refine ⟨p, rfl, fun _ => ?_⟩
  have hcall : t.shouldCallPull σ = true := hcall
  obtain ⟨-, -, ht⟩ := enqueue_inv ht
  cases ht with
  | handed hi hn => exact pullAgain_callPullIfNeeded hpull hcall
  | queued hn => exact pullAgain_callPullIfNeeded hpull hcall

theorem read (hnew : ¬ settled σ.called) (ht : s.read σ = some t) : Fed σ settled t := by
  obtain ⟨i, -, hread⟩ := read_inv ht
  cases hread with
  | closed hp => exact of_not_readable (by simp [hp])
  | errored hp => exact of_not_readable (by simp [hp])
  | waits hp hq => exact callPullIfNeeded hnew
  | last hp hq hc => exact of_not_readable nofun
  | taken hp hq hc => exact callPullIfNeeded hnew

theorem pullFulfilled (h : Fed σ settled s) (hnew : ¬ settled σ.called) (hpull : ∀ p, s.pull = some p → settled p) :
    Fed σ settled (s.pullFulfilled σ) := by
  unfold ReadableStream.pullFulfilled
  split
  · exact callPullIfNeeded hnew
  · rename_i hagain
    intro hcall
    obtain ⟨p, hp, hset⟩ := h hcall
    exact absurd (hset (hpull p hp)) hagain

theorem releaseLock (h : Fed σ settled s) : Fed σ settled s.releaseLock := by
  intro hcall
  obtain ⟨hopen, hp, hs, hroom⟩ := shouldCallPull_iff.mp hcall
  refine h (shouldCallPull_iff.mpr ⟨hopen, hp, hs, .inr ?_⟩)
  exact hroom.resolve_left (Nat.lt_irrefl 0)

end Fed

end ReadableStream
end WasmerJs
