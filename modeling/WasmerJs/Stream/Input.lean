import WasmerJs.Lib.Transition
import WasmerJs.Lib.WritableStream
import WasmerJs.Stream.VirtualPipe

/-! The standard input of a process, from the `WritableStream` that JavaScript writes to its pipe (`src/streams.rs`:
    `input_pipe`, `WritableStreamSink`). JavaScript, the operation of the sink that is in flight and the process take
    their steps in any order. -/

namespace WasmerJs
namespace Stream

open Transition

/-- Where an operation of the sink is: `write_all` with the bytes that are left, the flush before `close`, or over,
    with its promise fulfilled or rejected. -/
inductive SinkOp where
  | writing (rest : Bytes)
  | flushing
  | returned (ok : Bool)
  deriving DecidableEq

def sink : Sink Bytes SinkOp := { write := .writing, close := .flushing }

abbrev InputChunks := WritableStream Unit Bytes SinkOp

/-- The two ends of an input. `submitted` are the chunks that the stream has accepted, `sent` the bytes that the pipe
    has taken, and `received` those that the process was given. -/
structure Input (π : Type) where
  pipe : π
  stream : InputChunks
  submitted : List Bytes
  sent : Bytes
  received : Bytes
  -- The process was told that there is no more, or it has closed its end.
  eof : Bool
  readerClosed : Bool

inductive InputEvent where
  -- JavaScript; the writer lock is asked for where it matters.
  | getWriter
  | releaseLock
  | write (chunk : Bytes)
  | close
  | abort
  -- The stream and its sink.
  | start
  | sinkWrites
  | sinkCloses
  | sinkReturns
  -- The process.
  | read (len : Nat)
  | closeReader
  deriving DecidableEq

variable {π : Type}

def Input.init (P : VirtualPipe π) : Input π :=
  { pipe := P.channel, stream := .init, submitted := [], sent := [], received := [], eof := false,
    readerClosed := false }

/-- The stream changes; `WritableStreamSink::abort` closes the pipe when the sink is told of an abort. -/
def Input.withStream (P : VirtualPipe π) (s : Input π) (stream : InputChunks) : Input π :=
  { s with
    stream
    pipe := if stream.sinkAborted && !s.stream.sinkAborted then P.close s.pipe else s.pipe }

/-- One `poll_write` of `write_all`, in `WritableStreamSink::write`. -/
def Input.sinkWrites (P : VirtualPipe π) (s : Input π) (rest : Bytes) : Input π :=
  if rest = [] then { s with stream := { s.stream with writing := some (.returned true) } }
  else
    let (answer, pipe) := P.write s.pipe rest
    let s := { s with pipe, sent := s.sent ++ acceptedBy rest answer }
    match answer with
    | none => s
    | some (.error _) => { s with stream := { s.stream with writing := some (.returned false) } }
    -- `WriteZero`
    | some (.ok 0) => { s with stream := { s.stream with writing := some (.returned false) } }
    | some (.ok (n + 1)) => { s with stream := { s.stream with writing := some (.writing (rest.drop (n + 1))) } }

/-- `WritableStreamSink::close` -/
def Input.sinkCloses (P : VirtualPipe π) (s : Input π) : Input π :=
  let (answer, pipe) := P.flush s.pipe
  match answer with
  | none => { s with pipe }
  | some (.error _) => { s with pipe, stream := { s.stream with closing := some (.returned false) } }
  | some (.ok _) => { s with pipe := P.close pipe, stream := { s.stream with closing := some (.returned true) } }

/-- The process reads from its end. -/
def Input.readBytes (P : VirtualPipe π) (s : Input π) (len : Nat) : Input π :=
  let (answer, pipe) := P.read s.pipe len
  match answer with
  | some (.ok d) => { s with pipe, received := s.received ++ d, eof := s.eof || (d.isEmpty && 0 < len) }
  | some (.error _) => { s with pipe }
  | none => { s with pipe }

def inputStep (P : VirtualPipe π) (s : Input π) : InputEvent → Option (Input π)
  | .getWriter => (s.stream.getWriter ()).map (s.withStream P)
  | .releaseLock => some (s.withStream P s.stream.releaseLock)
  | .write chunk =>
    (s.stream.write sink chunk).map fun stream =>
      { s.withStream P stream with submitted := s.submitted ++ [chunk] }
  | .close => (s.stream.close sink).map (s.withStream P)
  | .abort => some (s.withStream P s.stream.abort)
  | .start => if s.stream.started then none else some (s.withStream P (s.stream.start sink))
  | .sinkWrites =>
    match s.stream.writing with
    | some (.writing rest) => some (s.sinkWrites P rest)
    | some .flushing | some (.returned _) | none => none
  | .sinkCloses =>
    match s.stream.closing with
    | some .flushing => some (s.sinkCloses P)
    | some (.writing _) | some (.returned _) | none => none
  | .sinkReturns =>
    match s.stream.writing, s.stream.closing with
    | some (.returned ok), _ =>
      some (s.withStream P (if ok then s.stream.writeFulfilled sink else s.stream.writeRejected))
    | some (.writing _), _ | some .flushing, _ => none
    | none, some (.returned ok) =>
      some (s.withStream P (if ok then s.stream.closeFulfilled else s.stream.closeRejected))
    | none, some (.writing _) | none, some .flushing | none, none => none
  | .read len => if s.readerClosed then none else some (s.readBytes P len)
  | .closeReader => some { s with pipe := P.closeReader s.pipe, readerClosed := true }

/-! ### The chunks and the bytes that were sent -/

/-- The bytes `p` of the chunk that is being written are in the pipe. -/
def PartOk (s : InputChunks) (p : Bytes) : Prop :=
  match s.writing with
  | none => s.phase ≠ .errored → p = []
  | some (.writing rest) => ∃ queue, s.queue = (p ++ rest) :: queue
  | some (.returned true) => ∃ queue, s.queue = p :: queue
  | some (.returned false) => ∃ rest queue, s.queue = (p ++ rest) :: queue
  | some .flushing => False

/-- The pipe was sent the acknowledged chunks and a part of the next one, and the stream holds what was submitted
    besides, as long as no error has thrown it away. -/
structure Flow (s : InputChunks) (submitted : List Bytes) (sent : Bytes) : Prop where
  sound : s.Sound
  order : s.phase ≠ .errored → s.chunks = submitted
  kept : s.acknowledged <+: submitted
  part : ∃ p, sent = s.acknowledged.flatten ++ p ∧ PartOk s p
  sent : sent <+: submitted.flatten

namespace Flow

variable {s t : InputChunks} {submitted : List Bytes} {sent : Bytes}

theorem init : Flow .init [] [] where
  sound := .init
  order _ := rfl
  kept := List.prefix_rfl
  part := ⟨[], rfl, fun _ => rfl⟩
  sent := List.prefix_rfl

/-- With no write in flight the pipe was sent the acknowledged chunks. -/
theorem sent_eq (h : Flow s submitted sent) (hw : s.writing = none) (hp : s.phase ≠ .errored) :
    sent = s.acknowledged.flatten := by
  obtain ⟨p, hsent, hpart⟩ := h.part
  unfold PartOk at hpart
  rw [hw] at hpart
  rw [hsent, hpart hp, List.append_nil]

/-- An error throws away what the stream holds, but not what was sent. -/
theorem errored (h : Flow s submitted sent) (hsound : t.Sound) (hw : t.writing = none) (hp : t.phase = .errored)
    (ha : t.acknowledged = s.acknowledged) : Flow t submitted sent where
  sound := hsound
  order hne := absurd hp hne
  kept := ha ▸ h.kept
  part := by
    obtain ⟨p, hsent, -⟩ := h.part
    refine ⟨p, ha ▸ hsent, ?_⟩
    unfold PartOk
    rw [hw]
    exact fun hne => absurd hp hne
  sent := h.sent

/-- What else changes does not matter. -/
theorem of_eq (h : Flow s submitted sent) (hsound : t.Sound) (hw : t.writing = s.writing) (hq : t.queue = s.queue)
    (ha : t.acknowledged = s.acknowledged) (hp : t.phase ≠ .errored → s.phase ≠ .errored) :
    Flow t submitted sent where
  sound := hsound
  order ht := by
    rw [WritableStream.chunks, ha, hq]
    exact h.order (hp ht)
  kept := ha ▸ h.kept
  part := by
    obtain ⟨p, hsent, hpart⟩ := h.part
    refine ⟨p, ha ▸ hsent, ?_⟩
    unfold PartOk at hpart ⊢
    rw [hw, hq]
    split
    · rename_i hnone
      rw [hnone] at hpart
      exact fun ht => hpart (hp ht)
    all_goals
      rename_i hsome
      rw [hsome] at hpart
      exact hpart
  sent := h.sent

theorem startErroring (h : Flow s submitted sent) (hp : s.phase ≠ .errored) :
    Flow s.startErroring submitted sent := by
  have hsound := h.sound.startErroring
  unfold WritableStream.startErroring at hsound ⊢
  dsimp only at hsound ⊢
  have herr : Flow { s with phase := .erroring } submitted sent := by
    refine h.of_eq ⟨h.sound.writing, h.sound.closing, ?_, h.sound.idle⟩ rfl rfl rfl fun _ => hp
    rintro (h | h) <;> cases h
  split
  · rename_i hidle
    simp only [Bool.and_eq_true, Option.isNone_iff_eq_none] at hidle
    rw [if_pos (by simp [hidle])] at hsound
    exact herr.errored hsound hidle.1.1 rfl rfl
  · exact herr

theorem advance (h : Flow s submitted sent) (hc : s.closing = none) : Flow (s.advance sink) submitted sent := by
  have hsound := h.sound.advance (k := sink) hc
  have hadv := WritableStream.advance_inv sink s
  generalize s.advance sink = t at hsound hadv
  cases hadv with
  | same => exact h
  | errs hw hp => exact h.errored hsound hw rfl rfl
  | @writes c queue hs hw hp hq =>
    refine ⟨hsound, h.order, h.kept, ⟨[], ?_, queue, hq⟩, h.sent⟩
    have hp : s.phase ≠ .errored := fun herr => by
      have hnil := (h.sound.ended (.inr herr)).1
      simp [hq] at hnil
    rw [h.sent_eq hw hp, List.append_nil]
  | closes hs hw hp hq hreq => exact h.of_eq hsound rfl rfl rfl id

theorem start (h : Flow s submitted sent) (hs : s.started = false) : Flow (s.start sink) submitted sent := by
  obtain ⟨hw, hc⟩ := h.sound.idle hs
  refine Flow.advance (h.of_eq ⟨h.sound.writing, h.sound.closing, h.sound.ended, nofun⟩ rfl rfl rfl id) hc

theorem write (h : Flow s submitted sent) {c : Bytes} (ht : s.write sink c = some t) :
    Flow t (submitted ++ [c]) sent := by
  obtain ⟨hp, hreq, hc, rfl⟩ := WritableStream.write_inv ht
  refine Flow.advance ⟨⟨fun _ => ⟨by simp, hc⟩, fun hcl => ?_, ?_, h.sound.idle⟩, fun hp => ?_, ?_, ?_, ?_⟩ hc
  · simp [hc] at hcl
  · rintro (hend | hend) <;> cases hp.symm.trans hend
  · rw [← h.order hp]
    exact (List.append_assoc _ _ _).symm
  · exact h.kept.trans (List.prefix_append _ _)
  · obtain ⟨p, hsent, hpart⟩ := h.part
    refine ⟨p, hsent, ?_⟩
    unfold PartOk at hpart ⊢
    dsimp only
    split
    · rename_i hnone
      rw [hnone] at hpart
      exact hpart
    · rename_i rest hsome
      rw [hsome] at hpart
      obtain ⟨queue, hq⟩ := hpart
      exact ⟨queue ++ [c], by rw [hq, List.cons_append]⟩
    · rename_i hsome
      rw [hsome] at hpart
      obtain ⟨queue, hq⟩ := hpart
      exact ⟨queue ++ [c], by rw [hq, List.cons_append]⟩
    · rename_i hsome
      rw [hsome] at hpart
      obtain ⟨rest, queue, hq⟩ := hpart
      exact ⟨rest, queue ++ [c], by rw [hq, List.cons_append]⟩
    · rename_i hsome
      rw [hsome] at hpart
      exact hpart
  · rw [List.flatten_append]
    exact h.sent.trans (List.prefix_append _ _)

theorem close (h : Flow s submitted sent) (ht : s.close sink = some t) : Flow t submitted sent := by
  obtain ⟨hp, hreq, hc, rfl⟩ := WritableStream.close_inv ht
  refine Flow.advance (h.of_eq ⟨h.sound.writing, fun hcl => ?_, ?_, h.sound.idle⟩ rfl rfl rfl id) hc
  · simp [hc] at hcl
  · rintro (hend | hend) <;> rcases hp with hp | hp <;> cases hp.symm.trans hend

theorem abort (h : Flow s submitted sent) : Flow s.abort submitted sent := by
  unfold WritableStream.abort
  split
  · exact h
  · exact h
  all_goals
    rename_i hp
    split
    · exact h
  · exact h.of_eq ⟨h.sound.writing, h.sound.closing, h.sound.ended, h.sound.idle⟩ rfl rfl rfl id
  · refine Flow.startErroring ?_ (by simp [hp])
    exact h.of_eq ⟨h.sound.writing, h.sound.closing, h.sound.ended, h.sound.idle⟩ rfl rfl rfl id

theorem not_errored (h : Flow s submitted sent) (hw : s.writing.isSome) : s.phase ≠ .errored := fun herr => by
  have hnone := (h.sound.ended (.inr herr)).2.2.1
  simp [hnone] at hw

theorem writeFulfilled (h : Flow s submitted sent) (hw : s.writing = some (.returned true)) :
    Flow (s.writeFulfilled sink) submitted sent := by
  obtain ⟨p, hsent, hpart⟩ := h.part
  unfold PartOk at hpart
  rw [hw] at hpart
  obtain ⟨queue, hq⟩ := hpart
  obtain ⟨-, hc⟩ := h.sound.writing (by simp [hw])
  have hp := h.not_errored (by simp [hw])
  have hchunks : (s.acknowledged ++ [p]) ++ queue = submitted := by
    rw [← h.order hp, WritableStream.chunks, hq]
    simp
  unfold WritableStream.writeFulfilled
  rw [hq]
  refine Flow.advance ⟨⟨nofun, fun hcl => ?_, fun hend => ?_, fun _ => ⟨rfl, hc⟩⟩, fun _ => hchunks, ?_, ?_, h.sent⟩ hc
  · simp [hc] at hcl
  · have hnil := (h.sound.ended hend).1
    simp [hq] at hnil
  · rw [← hchunks]
    exact List.prefix_append _ _
  · exact ⟨[], by simp [hsent], fun _ => rfl⟩

theorem writeRejected (h : Flow s submitted sent) (hw : s.writing.isSome) : Flow s.writeRejected submitted sent := by
  have hsound := h.sound.writeRejected hw
  rw [WritableStream.writeRejected_eq h.sound hw] at hsound ⊢
  exact h.errored hsound rfl rfl rfl

theorem closeFulfilled (h : Flow s submitted sent) (hc : s.closing.isSome) : Flow s.closeFulfilled submitted sent := by
  refine h.of_eq (h.sound.closeFulfilled hc) rfl rfl rfl fun _ herr => ?_
  have hnone := (h.sound.ended (.inr herr)).2.2.2
  simp [hnone] at hc

theorem closeRejected (h : Flow s submitted sent) (hc : s.closing.isSome) : Flow s.closeRejected submitted sent := by
  have hsound := h.sound.closeRejected hc
  have hw := h.sound.writing_eq_none_of_closing hc
  obtain ⟨hq, hreq⟩ := h.sound.closing hc
  have hnone : Flow { s with closing := none, pendingAbort := none } submitted sent := by
    refine h.of_eq ⟨fun hwr => ?_, nofun, fun _ => ⟨hq, hreq, hw, rfl⟩, fun _ => ⟨hw, rfl⟩⟩ rfl rfl rfl id
    simp [hw] at hwr
  unfold WritableStream.closeRejected WritableStream.dealWithRejection at hsound ⊢
  split
  · rename_i hp
    exact hnone.startErroring (by simp [show s.phase = .writable from hp])
  · rename_i hp
    rw [if_neg hp] at hsound
    exact hnone.errored hsound hw rfl rfl

/-- More of the chunk is sent, and the operation goes on, or fails, or is over with nothing left. -/
theorem progress (h : Flow s submitted sent) {d rest : Bytes} (hw : s.writing = some (.writing (d ++ rest)))
    (op : SinkOp) (hop : op = .writing rest ∨ op = .returned false ∨ rest = [] ∧ op = .returned true) :
    Flow { s with writing := some op } submitted (sent ++ d) := by
  obtain ⟨p, hsent, hpart⟩ := h.part
  unfold PartOk at hpart
  rw [hw] at hpart
  obtain ⟨queue, hq⟩ := hpart
  have hp := h.not_errored (by simp [hw])
  have hq : s.queue = (p ++ d ++ rest) :: queue := by rw [hq, List.append_assoc]
  refine ⟨⟨fun _ => h.sound.writing (by simp [hw]), h.sound.closing, fun hend => ?_, fun hs => ?_⟩, h.order, h.kept,
    ⟨p ++ d, by rw [hsent, List.append_assoc], ?_⟩, ?_⟩
  · have hnil := (h.sound.ended hend).1
    simp [hq] at hnil
  · have hnone := (h.sound.idle hs).1
    simp [hw] at hnone
  · unfold PartOk
    rcases hop with rfl | rfl | ⟨rfl, rfl⟩
    · exact ⟨queue, hq⟩
    · exact ⟨rest, queue, hq⟩
    · exact ⟨queue, by simpa using hq⟩
  · have hchunks := h.order hp
    rw [hsent, ← hchunks, WritableStream.chunks, hq]
    exact ⟨rest ++ queue.flatten, by simp⟩

end Flow

/-! ### A stream whose sink has closed the pipe -/

/-- The sink has closed the pipe because the stream was closed. -/
def Ended (s : InputChunks) : Prop := s.closing = some (.returned true) ∨ s.phase = .closed

namespace Ended

variable {s t : InputChunks} {submitted : List Bytes} {sent : Bytes}

theorem facts (h : Ended s) (hs : s.Sound) :
    s.queue = [] ∧ s.closeRequested = false ∧ s.writing = none ∧ s.phase ≠ .errored := by
  rcases h with hc | hp
  · have hsome : s.closing.isSome := by simp [hc]
    obtain ⟨hq, hreq⟩ := hs.closing hsome
    refine ⟨hq, hreq, hs.writing_eq_none_of_closing hsome, fun herr => ?_⟩
    have hnone := (hs.ended (.inr herr)).2.2.2
    simp [hc] at hnone
  · obtain ⟨hq, hreq, hw, -⟩ := hs.ended (.inl hp)
    exact ⟨hq, hreq, hw, by simp [hp]⟩

/-- All that was submitted is sent. -/
theorem sent_eq (h : Ended s) (hf : Flow s submitted sent) : sent = submitted.flatten := by
  obtain ⟨hq, -, hw, hp⟩ := h.facts hf.sound
  rw [hf.sent_eq hw hp, ← hf.order hp, WritableStream.chunks, hq, List.append_nil]

theorem not_write (h : Ended s) (c : Bytes) : s.write sink c = none := by
  rcases h with hc | hp
  · simp [WritableStream.write, WritableStream.closeQueuedOrInFlight, hc]
  · simp [WritableStream.write, hp]

theorem not_close (h : Ended s) : s.close sink = none := by
  rcases h with hc | hp
  · unfold WritableStream.close
    split <;> simp [WritableStream.closeQueuedOrInFlight, hc]
  · simp [WritableStream.close, hp]

theorem abort (h : Ended s) : Ended s.abort := by
  unfold WritableStream.abort
  split
  · exact h
  · exact h
  all_goals
    rename_i hp
    have hc : s.closing = some (.returned true) := h.resolve_right (by simp [hp])
    split
    · exact h
  · exact .inl hc
  · exact .inl (by simp [WritableStream.startErroring, hc])

theorem start (h : Ended s) (hs : s.Sound) (hno : s.started = false) : Ended (s.start sink) := by
  obtain ⟨hq, hreq, hw, -⟩ := h.facts hs
  obtain ⟨-, hc⟩ := hs.idle hno
  have hp : s.phase = .closed := h.resolve_left (by simp [hc])
  exact .inr (by simp [WritableStream.start, WritableStream.advance, hw, hp, hq, hreq])

end Ended

/-! ### The invariant -/

/-- What the process has received and what is in the pipe are the bytes that were sent, as long as the process reads;
    and the process is told of an end only when all is sent, or when the stream was aborted. -/
structure Input.Inv (contents : π → Bytes) (closed : π → Bool) (s : Input π) : Prop where
  flow : Flow s.stream s.submitted s.sent
  passed : s.readerClosed = false → s.received ++ contents s.pipe = s.sent
  received : s.received <+: s.sent
  shut : s.readerClosed = false → closed s.pipe → s.stream.sinkAborted ∨ Ended s.stream
  eof : s.eof → s.stream.sinkAborted ∨ Ended s.stream ∧ s.received = s.submitted.flatten

section Invariant

variable {P : VirtualPipe π} {contents : π → Bytes} {closed : π → Bool} {s t : Input π}

namespace Input.Inv

theorem init (hP : P.Lawful contents closed) : Inv contents closed (Input.init P) where
  flow := .init
  passed _ := hP.channel.1
  received := List.prefix_rfl
  shut _ h := by
    rw [Input.init, hP.channel.2] at h
    cases h
  eof h := by cases h

/-- An operation on the stream by which nothing is sent. -/
theorem moved (hP : P.Lawful contents closed) (h : Inv contents closed s) {stream : InputChunks}
    {submitted : List Bytes} (hflow : Flow stream submitted s.sent)
    (habort : s.stream.sinkAborted → stream.sinkAborted)
    (hend : Ended s.stream → Ended stream ∧ submitted = s.submitted) :
    Inv contents closed { s.withStream P stream with submitted } := by
  have hcontents : contents (s.withStream P stream).pipe = contents s.pipe := by
    simp only [Input.withStream]
    split
    · exact (hP.close s.pipe).1
    · rfl
  refine ⟨hflow, fun hr => ?_, h.received, fun hr hcl => ?_, fun he => ?_⟩
  · rw [hcontents]
    exact h.passed hr
  · by_cases hto : stream.sinkAborted && !s.stream.sinkAborted
    · exact .inl (Bool.and_eq_true_iff.mp hto).1
    · simp only [Input.withStream, hto, Bool.false_eq_true, if_false] at hcl
      exact (h.shut hr hcl).imp habort fun hen => (hend hen).1
  · rcases h.eof he with ha | ⟨hen, hall⟩
    · exact .inl (habort ha)
    · obtain ⟨hstream, hsame⟩ := hend hen
      exact .inr ⟨hstream, hall.trans (by rw [hsame])⟩

/-- The pipe was read from or written to, and the stream of its sink knows it. -/
theorem piped (h : Inv contents closed s) (stream : InputChunks) {pipe : π} {d : Bytes}
    (hflow : Flow stream s.submitted (s.sent ++ d)) (hcontents : contents pipe = contents s.pipe ++ d)
    (habort : s.stream.sinkAborted → stream.sinkAborted) (hend : Ended s.stream → Ended stream)
    (hshut : closed pipe → closed s.pipe ∨ Ended stream) :
    Inv contents closed { s with stream, pipe, sent := s.sent ++ d } where
  flow := hflow
  passed hr := by rw [hcontents, ← List.append_assoc, h.passed hr]
  received := h.received.trans (List.prefix_append _ _)
  shut hr hcl := by
    rcases hshut hcl with hcl | hen
    · exact (h.shut hr hcl).imp habort hend
    · exact .inr hen
  eof he := by
    rcases h.eof he with ha | ⟨hen, hall⟩
    · exact .inl (habort ha)
    · exact .inr ⟨hend hen, hall⟩

theorem not_ended_of_writing (hw : s.stream.writing.isSome) (h : Inv contents closed s) : ¬ Ended s.stream :=
  fun hen => by
    have hnone := (hen.facts h.flow.sound).2.2.1
    simp [hnone] at hw

theorem sinkWrites (hP : P.Lawful contents closed) (h : Inv contents closed s) {rest : Bytes}
    (hw : s.stream.writing = some (.writing rest)) : Inv contents closed (s.sinkWrites P rest) := by
  have hnot := h.not_ended_of_writing (by simp [hw])
  unfold Input.sinkWrites
  split
  · rename_i hnil
    subst hnil
    have hflow := h.flow.progress (d := []) hw (.returned true) (.inr (.inr ⟨rfl, rfl⟩))
    simpa using h.piped (d := []) _ hflow (List.append_nil _).symm id (fun hen => absurd hen hnot) .inl
  · obtain ⟨hcontents, hclosed⟩ := hP.write s.pipe rest
    generalize P.write s.pipe rest = r at hcontents hclosed
    obtain ⟨answer, pipe⟩ := r
    dsimp only at hcontents hclosed ⊢
    have hpiped : ∀ {op : SinkOp} {d : Bytes} (rest' : Bytes), d = acceptedBy rest answer → rest = d ++ rest' →
        (op = .writing rest' ∨ op = .returned false) →
        Inv contents closed { s with
          pipe, sent := s.sent ++ d, stream := { s.stream with writing := some op } } := by
      rintro op d rest' rfl hsplit hop
      refine h.piped _ (h.flow.progress (hsplit ▸ hw) op (hop.imp_right .inl)) hcontents id
        (fun hen => absurd hen hnot) ?_
      exact fun hcl => .inl (hclosed ▸ hcl)
    split
    · exact h.piped s.stream (by simpa [acceptedBy] using h.flow) hcontents id id
        fun hcl => .inl (hclosed ▸ hcl)
    · exact hpiped rest rfl rfl (.inr rfl)
    · exact hpiped rest rfl rfl (.inr rfl)
    · rename_i n
      exact hpiped _ rfl (List.take_append_drop (n + 1) rest).symm (.inl rfl)

theorem sinkCloses (hP : P.Lawful contents closed) (h : Inv contents closed s)
    (hc : s.stream.closing = some .flushing) : Inv contents closed (s.sinkCloses P) := by
  have hsome : s.stream.closing.isSome := by simp [hc]
  obtain ⟨hq, hreq⟩ := h.flow.sound.closing hsome
  have hw := h.flow.sound.writing_eq_none_of_closing hsome
  have hnot : ¬ Ended s.stream := by
    rintro (hen | hp)
    · simp [hc] at hen
    · have hnone := (h.flow.sound.ended (.inl hp)).2.2.2
      simp [hc] at hnone
  have hflow (op : SinkOp) : Flow { s.stream with closing := some op } s.submitted (s.sent ++ []) := by
    rw [List.append_nil]
    refine h.flow.of_eq ⟨fun hwr => ?_, fun _ => ⟨hq, hreq⟩, fun hend => ?_, fun hs => ?_⟩ rfl rfl rfl id
    · simp [hw] at hwr
    · have hnone := (h.flow.sound.ended hend).2.2.2
      simp [hc] at hnone
    · have hnone := (h.flow.sound.idle hs).2
      simp [hc] at hnone
  obtain ⟨hcontents, hclosed⟩ := hP.flush s.pipe
  unfold Input.sinkCloses
  generalize P.flush s.pipe = r at hcontents hclosed
  obtain ⟨answer, pipe⟩ := r
  dsimp only at hcontents hclosed ⊢
  split
  · simpa using h.piped (d := []) s.stream (by simpa using h.flow) (by simpa using hcontents) id id
      fun hcl => .inl (hclosed ▸ hcl)
  · simpa using h.piped (d := []) _ (hflow (.returned false)) (by simpa using hcontents) id
      (fun hen => absurd hen hnot) fun hcl => .inl (hclosed ▸ hcl)
  · have hclose := (hP.close pipe).1
    simpa using h.piped (d := []) _ (hflow (.returned true)) (by simpa [hclose] using hcontents) id
      (fun hen => absurd hen hnot) fun _ => .inr (.inl rfl)

theorem readBytes (hP : P.Lawful contents closed) (h : Inv contents closed s) (hr : s.readerClosed = false) (len : Nat) :
    Inv contents closed (s.readBytes P len) := by
  have hpassed := h.passed hr
  have hstays := hP.stays s.pipe len
  unfold Input.readBytes
  have hkeep (hno : ∀ d, (P.read s.pipe len).1 ≠ some (.ok d)) :
      Inv contents closed { s with pipe := (P.read s.pipe len).2 } := by
    have hcontents := hP.keep s.pipe len hno
    simpa using h.piped (d := []) s.stream (by simpa using h.flow) (by simpa using hcontents) id id
      fun hcl => .inl (hstays ▸ hcl)
  dsimp only
  split
  · rename_i d hd
    obtain ⟨-, hcontents⟩ := hP.read s.pipe len hd
    have hsent : s.received ++ d ++ contents (P.read s.pipe len).2 = s.sent := by
      rw [List.append_assoc, ← hcontents, hpassed]
    refine ⟨h.flow, fun _ => hsent, ⟨_, hsent⟩, fun _ hcl => h.shut hr (hstays ▸ hcl), fun he => ?_⟩
    rcases Bool.or_eq_true_iff.mp he with he | he
    · rcases h.eof he with ha | ⟨hen, hall⟩
      · exact .inl ha
      · -- Everything had been received, so nothing is left to read.
        have hnil : d = [] := by
          have hall' := hen.sent_eq h.flow
          rw [← hpassed, ← hall, hcontents] at hall'
          have hboth : d = [] ∧ contents (P.read s.pipe len).2 = [] := by simpa using hall'
          exact hboth.1
        exact .inr ⟨hen, by simpa [hnil] using hall⟩
    · obtain ⟨hnil, hlen⟩ := Bool.and_eq_true_iff.mp he
      obtain rfl : d = [] := List.isEmpty_iff.mp hnil
      obtain ⟨hempty, hcl⟩ := hP.eof s.pipe (of_decide_eq_true hlen) hd
      rcases h.shut hr hcl with ha | hen
      · exact .inl ha
      · refine .inr ⟨hen, ?_⟩
        rw [List.append_nil, ← hen.sent_eq h.flow, ← hpassed, hempty, List.append_nil]
  · rename_i e hd
    exact hkeep (by simp [hd])
  · rename_i hd
    exact hkeep (by simp [hd])

theorem sinkReturns (hP : P.Lawful contents closed) (h : Inv contents closed s)
    (hs : inputStep P s .sinkReturns = some t) : Inv contents closed t := by
  simp only [inputStep] at hs
  split at hs
  · rename_i ok hw
    have hsome : s.stream.writing.isSome := by simp [hw]
    have hnot := h.not_ended_of_writing hsome
    cases hs
    cases ok with
    | true =>
      exact h.moved hP (h.flow.writeFulfilled hw) WritableStream.sinkAborted_writeFulfilled fun hen => absurd hen hnot
    | false =>
      exact h.moved hP (h.flow.writeRejected hsome)
        (fun ha => WritableStream.sinkAborted_dealWithRejection (s := { s.stream with writing := none }) ha)
        fun hen => absurd hen hnot
  · cases hs
  · cases hs
  · rename_i ok hw hc
    have hsome : s.stream.closing.isSome := by simp [hc]
    cases hs
    cases ok with
    | true => exact h.moved hP (h.flow.closeFulfilled hsome) id fun _ => ⟨.inr rfl, rfl⟩
    | false =>
      refine h.moved hP (h.flow.closeRejected hsome) (fun ha => ?_) fun hen => ?_
      · exact WritableStream.sinkAborted_dealWithRejection
          (s := { s.stream with closing := none, pendingAbort := none }) ha
      · rcases hen with hen | hp
        · simp [hc] at hen
        · have hnone := (h.flow.sound.ended (.inl hp)).2.2.2
          simp [hc] at hnone
  all_goals cases hs

theorem step (hP : P.Lawful contents closed) (h : Inv contents closed s) {e : InputEvent}
    (hs : inputStep P s e = some t) : Inv contents closed t := by
  cases e with
  | getWriter =>
    obtain ⟨stream, ht, rfl⟩ := Option.map_eq_some_iff.mp hs
    unfold WritableStream.getWriter at ht
    split at ht
    · cases ht
      refine h.moved hP (h.flow.of_eq ?_ rfl rfl rfl id) id fun hen => ⟨hen, rfl⟩
      exact ⟨h.flow.sound.writing, h.flow.sound.closing, h.flow.sound.ended, h.flow.sound.idle⟩
    · cases ht
  | releaseLock =>
    cases hs
    exact h.moved hP (h.flow.of_eq h.flow.sound.releaseLock rfl rfl rfl id) id fun hen => ⟨hen, rfl⟩
  | write chunk =>
    obtain ⟨stream, ht, rfl⟩ := Option.map_eq_some_iff.mp hs
    refine h.moved hP (h.flow.write ht) (fun ha => ?_) fun hen => ?_
    · obtain ⟨-, -, -, rfl⟩ := WritableStream.write_inv ht
      exact WritableStream.sinkAborted_advance (s := { s.stream with queue := s.stream.queue ++ [chunk] }) ha
    · rw [hen.not_write] at ht
      cases ht
  | close =>
    obtain ⟨stream, ht, rfl⟩ := Option.map_eq_some_iff.mp hs
    refine h.moved hP (h.flow.close ht) (fun ha => ?_) fun hen => ?_
    · obtain ⟨-, -, -, rfl⟩ := WritableStream.close_inv ht
      exact WritableStream.sinkAborted_advance (s := { s.stream with closeRequested := true }) ha
    · rw [hen.not_close] at ht
      cases ht
  | abort =>
    cases hs
    exact h.moved hP h.flow.abort WritableStream.sinkAborted_abort fun hen => ⟨hen.abort, rfl⟩
  | start =>
    simp only [inputStep] at hs
    split at hs
    · cases hs
    · rename_i hno
      have hno : s.stream.started = false := by simpa using hno
      cases hs
      exact h.moved hP (h.flow.start hno)
        (fun ha => WritableStream.sinkAborted_advance (s := { s.stream with started := true }) ha)
        fun hen => ⟨hen.start h.flow.sound hno, rfl⟩
  | sinkWrites =>
    simp only [inputStep] at hs
    split at hs
    · rename_i rest hw
      cases hs
      exact h.sinkWrites hP hw
    all_goals cases hs
  | sinkCloses =>
    simp only [inputStep] at hs
    split at hs
    · rename_i hc
      cases hs
      exact h.sinkCloses hP hc
    all_goals cases hs
  | sinkReturns => exact h.sinkReturns hP hs
  | read len =>
    simp only [inputStep] at hs
    split at hs
    · cases hs
    · rename_i hr
      cases hs
      exact h.readBytes hP (by simpa using hr) len
  | closeReader =>
    cases hs
    exact ⟨h.flow, nofun, h.received, nofun, h.eof⟩

end Input.Inv

theorem Input.Inv.of_reach (hP : P.Lawful contents closed) (hr : Reach (inputStep P) (Input.init P) s) :
    Inv contents closed s :=
  hr.invariant (Inv.init hP) fun h _ hs => h.step hP hs

/-- What the process reads is what JavaScript has written, in that order, as far as the stream has come with it; every
    write that was acknowledged is in the pipe or with the process; and a process that is told of the end has got all
    of it, unless the stream was aborted. -/
theorem stdin_in_order (hP : P.Lawful contents closed) (hr : Reach (inputStep P) (Input.init P) s) :
    s.received <+: s.submitted.flatten ∧ s.stream.acknowledged.flatten <+: s.sent ∧
      (s.readerClosed = false → s.received ++ contents s.pipe = s.sent) ∧
      (s.stream.phase ≠ .errored → s.stream.acknowledged ++ s.stream.queue = s.submitted) ∧
      (s.eof → s.stream.sinkAborted = false → s.received = s.submitted.flatten) := by
  have h := Input.Inv.of_reach hP hr
  obtain ⟨p, hsent, -⟩ := h.flow.part
  refine ⟨h.received.trans h.flow.sent, ⟨p, hsent.symm⟩, h.passed, h.flow.order, fun he ha => ?_⟩
  rcases h.eof he with habort | ⟨-, hall⟩
  · simp [ha] at habort
  · exact hall

end Invariant

/-- Two chunks are written and the stream is closed, and the process reads up to the end. -/
theorem stdin_in_order_hello :
    ∃ s, Reach (inputStep queuePipe) (Input.init queuePipe) s ∧ s.eof = true ∧ s.received = [1, 2, 3] := by
  obtain ⟨s, hr, heof, habort, hsubmitted⟩ : ∃ s, Reach (inputStep queuePipe) (Input.init queuePipe) s ∧
      s.eof = true ∧ s.stream.sinkAborted = false ∧ s.submitted = [[1, 2], [3]] :=
    exists_reach [.write [1, 2], .start, .write [3], .sinkWrites, .read 1, .sinkWrites, .sinkReturns, .close,
      .sinkWrites, .read 5, .sinkWrites, .sinkReturns, .sinkCloses, .read 5, .sinkReturns] _ (by decide)
  refine ⟨s, hr, heof, ?_⟩
  rw [(stdin_in_order queuePipe_lawful hr).2.2.2.2 heof habort, hsubmitted]
  rfl

end Stream
end WasmerJs
