import Mathlib

/-! Writable streams with a default controller, as the streams standard describes them: a queue of chunks that are
    handed to an underlying sink one at a time. What the sink does with a chunk is left open, but for the state `ω`
    that its operation is in. -/

namespace WasmerJs

/-- The state of a sink's operation that has just been called. -/
structure Sink (α ω : Type) where
  write : α → ω
  close : ω

inductive WritePhase where
  | writable
  | closed
  | erroring
  | errored
  deriving DecidableEq

/-- A stream of chunks `α` with writers `ρ`. `acknowledged` are the chunks whose writes were fulfilled. -/
structure WritableStream (ρ α ω : Type) where
  phase : WritePhase
  -- The first chunk stays in the queue while it is being written.
  queue : List α
  closeRequested : Bool
  started : Bool
  -- The sink's operation that is in flight, if any.
  writing : Option ω
  closing : Option ω
  -- An abort that was asked for, and whether the stream was erroring already.
  pendingAbort : Option Bool
  writer : Option ρ
  acknowledged : List α
  -- The sink was told of an abort.
  sinkAborted : Bool

namespace WritableStream

variable {ρ α ω : Type}

def init : WritableStream ρ α ω :=
  { phase := .writable, queue := [], closeRequested := false, started := false, writing := none, closing := none,
    pendingAbort := none, writer := none, acknowledged := [], sinkAborted := false }

section Operations

variable (k : Sink α ω) (s : WritableStream ρ α ω)

/-- `WritableStreamCloseQueuedOrInFlight` -/
def closeQueuedOrInFlight : Bool := s.closeRequested || s.closing.isSome

/-- `WritableStreamFinishErroring` -/
def finishErroring : WritableStream ρ α ω :=
  { s with
    phase := .errored, queue := [], closeRequested := false, pendingAbort := none
    -- Only the first abort of a stream that was not erroring reaches the sink.
    sinkAborted := s.sinkAborted || s.pendingAbort == some false }

/-- `WritableStreamStartErroring` -/
def startErroring : WritableStream ρ α ω :=
  let s := { s with phase := .erroring }
  if s.writing.isNone && s.closing.isNone && s.started then s.finishErroring else s

/-- `WritableStreamDealWithRejection` -/
def dealWithRejection : WritableStream ρ α ω :=
  if s.phase = .writable then s.startErroring else s.finishErroring

/-- `WritableStreamDefaultControllerAdvanceQueueIfNeeded` -/
def advance : WritableStream ρ α ω :=
  if !s.started || s.writing.isSome then s
  else if s.phase = .erroring then s.finishErroring
  else
    match s.queue with
    | c :: _ => { s with writing := some (k.write c) }
    | [] => if s.closeRequested then { s with closeRequested := false, closing := some k.close } else s

/-- The sink has started. -/
def start : WritableStream ρ α ω := advance k { s with started := true }

/-- `write`; there is no result when it is rejected at once. -/
def write (c : α) : Option (WritableStream ρ α ω) :=
  if s.phase = .writable && !s.closeQueuedOrInFlight then some (advance k { s with queue := s.queue ++ [c] }) else none

/-- `close`; there is no result when it is rejected at once, with a `TypeError`. -/
def close : Option (WritableStream ρ α ω) :=
  match s.phase with
  | .closed => none
  | .errored => none
  | .writable => if s.closeQueuedOrInFlight then none else some (advance k { s with closeRequested := true })
  | .erroring => if s.closeQueuedOrInFlight then none else some (advance k { s with closeRequested := true })

/-- `WritableStreamAbort` -/
def abort : WritableStream ρ α ω :=
  match s.phase with
  | .closed => s
  | .errored => s
  | .erroring => if s.pendingAbort.isSome then s else { s with pendingAbort := some true }
  | .writable => if s.pendingAbort.isSome then s else startErroring { s with pendingAbort := some false }

/-- The sink has written the first chunk. -/
def writeFulfilled : WritableStream ρ α ω :=
  match s.queue with
  | c :: queue => advance k { s with writing := none, queue, acknowledged := s.acknowledged ++ [c] }
  | [] => { s with writing := none }

/-- The sink could not write the first chunk. -/
def writeRejected : WritableStream ρ α ω := dealWithRejection { s with writing := none }

/-- The sink has closed. -/
def closeFulfilled : WritableStream ρ α ω :=
  { s with phase := .closed, closing := none, pendingAbort := none }

/-- The sink could not close. -/
def closeRejected : WritableStream ρ α ω := dealWithRejection { s with closing := none, pendingAbort := none }

/-- `getWriter`; there is no result when the stream is locked. -/
def getWriter (i : ρ) : Option (WritableStream ρ α ω) :=
  match s.writer with
  | none => some { s with writer := some i }
  | some _ => none

def releaseLock : WritableStream ρ α ω := { s with writer := none }

end Operations

/-- The chunks whose writes were fulfilled, and then those that wait. -/
def chunks (s : WritableStream ρ α ω) : List α := s.acknowledged ++ s.queue

variable {k : Sink α ω} {s t : WritableStream ρ α ω} {c : α} {i : ρ}

/-! ### What the queue does next -/

/-- The stream goes on with its queue, or with the error that it was waiting to report. -/
inductive Advanced (k : Sink α ω) (s : WritableStream ρ α ω) : WritableStream ρ α ω → Prop where
  | same : Advanced k s s
  | errs (hw : s.writing = none) (hp : s.phase = .erroring) : Advanced k s s.finishErroring
  | writes {c : α} {queue : List α} (hs : s.started) (hw : s.writing = none) (hp : s.phase ≠ .erroring)
      (hq : s.queue = c :: queue) : Advanced k s { s with writing := some (k.write c) }
  | closes (hs : s.started) (hw : s.writing = none) (hp : s.phase ≠ .erroring) (hq : s.queue = [])
      (hc : s.closeRequested) : Advanced k s { s with closeRequested := false, closing := some k.close }

theorem advance_inv (k : Sink α ω) (s : WritableStream ρ α ω) : Advanced k s (s.advance k) := by
  unfold advance
  split
  · exact .same
  · rename_i hready
    obtain ⟨hs, hw⟩ : s.started = true ∧ s.writing = none := by simpa using hready
    split
    · exact .errs hw ‹_›
    · split
      · exact .writes hs hw ‹_› ‹_›
      · split
        · exact .closes hs hw ‹_› ‹_› ‹_›
        · exact .same

/-! ### What every operation keeps -/

/-- One operation of the sink is in flight at a time: a write of the first chunk, or the close of a stream that has no
    chunks left and takes no more. There is none before the sink has started or after the stream has ended. -/
structure Sound (s : WritableStream ρ α ω) : Prop where
  writing : s.writing.isSome → s.queue ≠ [] ∧ s.closing = none
  closing : s.closing.isSome → s.queue = [] ∧ s.closeRequested = false
  ended : s.phase = .closed ∨ s.phase = .errored →
    s.queue = [] ∧ s.closeRequested = false ∧ s.writing = none ∧ s.closing = none
  idle : s.started = false → s.writing = none ∧ s.closing = none

theorem closeQueuedOrInFlight_eq_false (h : s.closeQueuedOrInFlight = false) :
    s.closeRequested = false ∧ s.closing = none := by
  simpa [closeQueuedOrInFlight] using h

theorem write_inv (ht : s.write k c = some t) :
    s.phase = .writable ∧ s.closeRequested = false ∧ s.closing = none ∧
      t = advance k { s with queue := s.queue ++ [c] } := by
  unfold write at ht
  split at ht
  · rename_i h
    obtain ⟨hp, hc⟩ := Bool.and_eq_true_iff.mp h
    obtain ⟨hreq, hcl⟩ := closeQueuedOrInFlight_eq_false (by simpa using hc)
    cases ht
    exact ⟨of_decide_eq_true hp, hreq, hcl, rfl⟩
  · cases ht

theorem close_inv (ht : s.close k = some t) :
    (s.phase = .writable ∨ s.phase = .erroring) ∧ s.closeRequested = false ∧ s.closing = none ∧
      t = advance k { s with closeRequested := true } := by
  unfold close at ht
  split at ht
  · cases ht
  · cases ht
  all_goals
    rename_i hp
    split at ht
    · cases ht
    · rename_i hc
      obtain ⟨hreq, hcl⟩ := closeQueuedOrInFlight_eq_false (by simpa using hc)
      cases ht
      simp [hp, hreq, hcl]

namespace Sound

theorem init : Sound (.init : WritableStream ρ α ω) where
  writing h := by cases h
  closing h := by cases h
  ended _ := ⟨rfl, rfl, rfl, rfl⟩
  idle _ := ⟨rfl, rfl⟩

theorem finishErroring (hw : s.writing = none) (hc : s.closing = none) : Sound s.finishErroring where
  writing h := by simp [WritableStream.finishErroring, hw] at h
  closing h := by simp [WritableStream.finishErroring, hc] at h
  ended _ := ⟨rfl, rfl, hw, hc⟩
  idle _ := ⟨hw, hc⟩

theorem startErroring (h : Sound s) : Sound s.startErroring := by
  unfold WritableStream.startErroring
  dsimp only
  split
  · rename_i hidle
    simp only [Bool.and_eq_true, Option.isNone_iff_eq_none] at hidle
    exact finishErroring hidle.1.1 hidle.1.2
  · refine ⟨h.writing, h.closing, ?_, h.idle⟩
    rintro (h | h) <;> cases h

theorem dealWithRejection (h : Sound s) (hw : s.writing = none) (hc : s.closing = none) :
    Sound s.dealWithRejection := by
  unfold WritableStream.dealWithRejection
  split
  · exact h.startErroring
  · exact finishErroring hw hc

theorem advanced (h : Sound s) (hc : s.closing = none) (ht : Advanced k s t) : Sound t := by
  cases ht with
  | same => exact h
  | errs hw hp => exact finishErroring hw hc
  | writes hs hw hp hq =>
    refine ⟨fun _ => ⟨by simp [hq], hc⟩, fun hcl => ?_, fun hend => ?_, fun hno => ?_⟩
    · simp [hc] at hcl
    · have hnil := (h.ended hend).1
      simp [hq] at hnil
    · rw [hs] at hno
      cases hno
  | closes hs hw hp hq hreq =>
    refine ⟨fun hwr => ?_, fun _ => ⟨hq, rfl⟩, fun hend => ?_, fun hno => ?_⟩
    · simp [hw] at hwr
    · have hnot := (h.ended hend).2.1
      simp [hreq] at hnot
    · rw [hs] at hno
      cases hno

theorem advance (h : Sound s) (hc : s.closing = none) : Sound (s.advance k) := h.advanced hc (advance_inv k s)

theorem writeRejected (h : Sound s) (hw : s.writing.isSome) : Sound s.writeRejected := by
  obtain ⟨-, hc⟩ := h.writing hw
  refine Sound.dealWithRejection ⟨nofun, h.closing, fun hend => ?_, fun _ => ⟨rfl, hc⟩⟩ rfl hc
  exact ⟨(h.ended hend).1, (h.ended hend).2.1, rfl, hc⟩

theorem writing_eq_none_of_closing (h : Sound s) (hc : s.closing.isSome) : s.writing = none := by
  by_contra hw
  obtain ⟨hne, -⟩ := h.writing (Option.isSome_iff_ne_none.mpr hw)
  exact hne (h.closing hc).1

theorem closeFulfilled (h : Sound s) (hc : s.closing.isSome) : Sound s.closeFulfilled := by
  have hw := h.writing_eq_none_of_closing hc
  obtain ⟨hq, hreq⟩ := h.closing hc
  refine ⟨fun hwr => ?_, nofun, fun _ => ⟨hq, hreq, hw, rfl⟩, fun _ => ⟨hw, rfl⟩⟩
  simp [WritableStream.closeFulfilled, hw] at hwr

theorem closeRejected (h : Sound s) (hc : s.closing.isSome) : Sound s.closeRejected := by
  have hw := h.writing_eq_none_of_closing hc
  obtain ⟨hq, hreq⟩ := h.closing hc
  refine Sound.dealWithRejection ⟨fun hwr => ?_, nofun, fun _ => ⟨hq, hreq, hw, rfl⟩, fun _ => ⟨hw, rfl⟩⟩ hw rfl
  simp [hw] at hwr

theorem releaseLock (h : Sound s) : Sound s.releaseLock := ⟨h.writing, h.closing, h.ended, h.idle⟩

end Sound

/-- A write that fails ends the stream at once: no other operation of the sink is in flight. -/
theorem writeRejected_eq (h : Sound s) (hw : s.writing.isSome) :
    s.writeRejected = finishErroring { s with writing := none } := by
  obtain ⟨-, hc⟩ := h.writing hw
  have hs : s.started = true := by
    by_contra hs
    have hnone := (h.idle (by simpa using hs)).1
    simp [hnone] at hw
  unfold writeRejected dealWithRejection
  split
  · simp [startErroring, hs, hc, finishErroring]
  · rfl

/-! ### Aborts -/

/-- The sink is told of an abort once and for all. -/
theorem sinkAborted_finishErroring (h : s.sinkAborted) : s.finishErroring.sinkAborted := by
  simp [finishErroring, h]

theorem sinkAborted_startErroring (h : s.sinkAborted) : s.startErroring.sinkAborted := by
  unfold startErroring
  dsimp only
  split
  · exact sinkAborted_finishErroring (s := { s with phase := .erroring }) h
  · exact h

theorem sinkAborted_dealWithRejection (h : s.sinkAborted) : s.dealWithRejection.sinkAborted := by
  unfold dealWithRejection
  split
  · exact sinkAborted_startErroring h
  · exact sinkAborted_finishErroring h

theorem sinkAborted_advance (h : s.sinkAborted) : (s.advance k).sinkAborted := by
  have hadv := advance_inv k s
  generalize s.advance k = t at hadv
  cases hadv with
  | errs => exact sinkAborted_finishErroring h
  | _ => exact h

theorem sinkAborted_abort (h : s.sinkAborted) : s.abort.sinkAborted := by
  unfold abort
  split
  · exact h
  · exact h
  all_goals
    split
    · exact h
  · exact h
  · exact sinkAborted_startErroring (s := { s with pendingAbort := some false }) h

theorem sinkAborted_writeFulfilled (h : s.sinkAborted) : (s.writeFulfilled k).sinkAborted := by
  unfold writeFulfilled
  split
  · rename_i c queue hq
    exact sinkAborted_advance
      (s := { s with writing := none, queue, acknowledged := s.acknowledged ++ [c] }) h
  · exact h

end WritableStream
end WasmerJs
