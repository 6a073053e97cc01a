import WasmerJs.Stream.Input
import WasmerJs.Stream.Output

/-! The standard input of an interactive command, which a task copies from the user's stream to the TTY (`src/wasmer.rs`:
    `setup_tty`, `copy_stdin_to_tty`). The TTY is not part of the repository: it is known by what an event does to it. -/

namespace WasmerJs
namespace Stream

open Transition

/-- The TTY and the end of the pipe that the runtime reads its input from. -/
structure Tty (τ : Type) where
  new : τ
  onEvent : τ → Bytes → τ
  -- `stdin_pipe.close()`
  closeStdin : τ → τ

/-- Where `copy_stdin_to_tty` is: it waits for bytes, it waits for the TTY to have taken some, or it is over. -/
inductive TtyCopy where
  | reading
  | feeding (data : Bytes)
  | ended
  deriving DecidableEq

/-- The user's input, and the task that copies it. `events` are the `InputEvent::Raw` that the TTY has taken. -/
structure Interactive (π τ : Type) where
  input : Input π
  copy : TtyCopy
  events : List Bytes
  tty : τ

inductive TtyEvent where
  -- JavaScript, the stream and its sink.
  | input (e : InputEvent)
  -- The task, or what becomes of it when its future is dropped.
  | reads
  | fed
  | dropped
  deriving DecidableEq

/-- What the owner of the reading end does. -/
def InputEvent.ofProcess : InputEvent → Bool
  | .read _ | .closeReader => true
  | .getWriter | .releaseLock | .write _ | .close | .abort | .start | .sinkWrites | .sinkCloses | .sinkReturns => false

/-- The room that `read_buf` finds in a buffer that was cleared. -/
def copyRoom : Nat := bufferRoom 0

variable {π τ : Type}

namespace Interactive

def init (P : VirtualPipe π) (T : Tty τ) : Interactive π τ :=
  { input := .init P, copy := .reading, events := [], tty := T.new }

/-- The task is over: its guard closes the runtime's input, and the user's pipe has no reader any more. -/
def finish (P : VirtualPipe π) (T : Tty τ) (s : Interactive π τ) : Interactive π τ :=
  { s with
    input := { s.input with pipe := P.closeReader s.input.pipe, readerClosed := true }
    copy := .ended
    tty := T.closeStdin s.tty }

/-- One turn of the loop, as far as the read goes. -/
def reads (P : VirtualPipe π) (T : Tty τ) (s : Interactive π τ) : Interactive π τ :=
  let next := { s with input := s.input.readBytes P copyRoom }
  match (P.read s.input.pipe copyRoom).1 with
  | none => next
  | some (.ok []) => next.finish P T
  | some (.ok (b :: data)) => { next with copy := .feeding (b :: data) }
  | some (.error _) => next.finish P T

def step (P : VirtualPipe π) (T : Tty τ) (s : Interactive π τ) : TtyEvent → Option (Interactive π τ)
  | .input e => if e.ofProcess then none else (inputStep P s.input e).map fun input => { s with input }
  | .reads =>
    match s.copy with
    | .reading => some (s.reads P T)
    | .feeding _ | .ended => none
  | .fed =>
    match s.copy with
    | .feeding data =>
      some { s with copy := .reading, events := s.events ++ [data], tty := T.onEvent s.tty data }
    | .reading | .ended => none
  | .dropped =>
    match s.copy with
    | .reading | .feeding _ => some (s.finish P T)
    | .ended => none

end Interactive

/-! ### The invariant -/

/-- The bytes that were read and are on the way to the TTY. -/
def TtyCopy.pending : TtyCopy → Bytes
  | .feeding data => data
  | .reading | .ended => []

/-- The TTY has taken the events in turn, and the runtime's input is closed exactly if the task is over. While it is
    not, all that was read is with the TTY or on the way to it; the end of the input is what it was told last. -/
structure Interactive.Inv (contents : π → Bytes) (closed : π → Bool) (T : Tty τ) (s : Interactive π τ) : Prop where
  input : s.input.Inv contents closed
  tty : s.tty = if s.copy = .ended then T.closeStdin (s.events.foldl T.onEvent T.new) else s.events.foldl T.onEvent T.new
  reads : s.copy ≠ .ended → s.input.readerClosed = false ∧ s.input.eof = false
  read : s.copy ≠ .ended ∨ s.input.eof → s.events.flatten ++ s.copy.pending = s.input.received
  events : s.events.flatten <+: s.input.received
  small : ∀ d ∈ s.events, d ≠ [] ∧ d.length ≤ copyRoom
  feeding : ∀ d, s.copy = .feeding d → d ≠ [] ∧ d.length ≤ copyRoom

section Invariant

variable {P : VirtualPipe π} {contents : π → Bytes} {closed : π → Bool} {T : Tty τ} {s t : Interactive π τ}

/-- What JavaScript and the sink do is nothing that the process notices. -/
theorem inputStep_others {i i' : Input π} {e : InputEvent} (he : e.ofProcess = false) (hs : inputStep P i e = some i') :
    i'.received = i.received ∧ i'.eof = i.eof ∧ i'.readerClosed = i.readerClosed := by
  cases e with
  | getWriter =>
    obtain ⟨stream, -, rfl⟩ := Option.map_eq_some_iff.mp hs
    exact ⟨rfl, rfl, rfl⟩
  | releaseLock =>
    cases hs
    exact ⟨rfl, rfl, rfl⟩
  | write chunk =>
    obtain ⟨stream, -, rfl⟩ := Option.map_eq_some_iff.mp hs
    exact ⟨rfl, rfl, rfl⟩
  | close =>
    obtain ⟨stream, -, rfl⟩ := Option.map_eq_some_iff.mp hs
    exact ⟨rfl, rfl, rfl⟩
  | abort =>
    cases hs
    exact ⟨rfl, rfl, rfl⟩
  | start =>
    simp only [inputStep] at hs
    split at hs
    · cases hs
    · cases hs
      exact ⟨rfl, rfl, rfl⟩
  | sinkWrites =>
    simp only [inputStep] at hs
    split at hs
    · cases hs
      unfold Input.sinkWrites
      split
      · exact ⟨rfl, rfl, rfl⟩
      · dsimp only
        split <;> exact ⟨rfl, rfl, rfl⟩
    all_goals cases hs
  | sinkCloses =>
    simp only [inputStep] at hs
    split at hs
    · cases hs
      unfold Input.sinkCloses
      dsimp only
      split <;> exact ⟨rfl, rfl, rfl⟩
    all_goals cases hs
  | sinkReturns =>
    simp only [inputStep] at hs
    split at hs
    all_goals cases hs
    all_goals exact ⟨rfl, rfl, rfl⟩
  | read len => cases he
  | closeReader => cases he

namespace Interactive.Inv

theorem init (hP : P.Lawful contents closed) : Inv contents closed T (Interactive.init P T) where
  input := .init hP
  tty := rfl
  reads _ := ⟨rfl, rfl⟩
  read _ := rfl
  events := List.prefix_rfl
  small d hd := by cases hd
  feeding d hd := by cases hd

/-- The task ends; what was on its way to the TTY is dropped with it, which a task that was told of the end has not. -/
theorem finish (hP : P.Lawful contents closed) (h : Inv contents closed T s) (hc : s.copy ≠ .ended)
    {input : Input π} (hs : inputStep P s.input (.read copyRoom) = some input ∨ input = s.input)
    (heof : input.eof → s.copy = .reading ∧ input.received = s.input.received) :
    Inv contents closed T ({ s with input }.finish P T) := by
  have hread := h.read (.inl hc)
  have hprefix : s.input.received <+: input.received := by
    rcases hs with hs | rfl
    · simp only [inputStep, (h.reads hc).1, Bool.false_eq_true, if_false, Option.some.injEq] at hs
      subst hs
      unfold Input.readBytes
      dsimp only
      split
      · exact List.prefix_append _ _
      · exact List.prefix_rfl
      · exact List.prefix_rfl
    · exact List.prefix_rfl
  have hinput : input.Inv contents closed := by
    rcases hs with hs | rfl
    · exact h.input.step hP hs
    · exact h.input
  refine ⟨hinput.step hP (e := .closeReader) rfl, ?_, fun hnot => absurd rfl hnot, fun hend => ?_, ?_, h.small, ?_⟩
  · have htty := h.tty
    rw [if_neg hc] at htty
    simp only [Interactive.finish, if_true, htty]
  · obtain ⟨hcopy, hreceived⟩ := heof (hend.resolve_left fun hnot => hnot rfl)
    rw [hcopy] at hread
    exact hread.trans hreceived.symm
  · exact h.events.trans hprefix
  · rintro d ⟨⟩

theorem reads_step (hP : P.Lawful contents closed) (h : Inv contents closed T s) (hc : s.copy = .reading) :
    Inv contents closed T (s.reads P T) := by
  have hnot : s.copy ≠ .ended := by
    rw [hc]
    exact TtyCopy.noConfusion
  obtain ⟨hreader, heof⟩ := h.reads hnot
  have hread := h.read (.inl hnot)
  rw [hc] at hread
  have hstep : inputStep P s.input (.read copyRoom) = some (s.input.readBytes P copyRoom) := by
    simp [inputStep, hreader]
  have hinput := h.input.step hP hstep
  have htty := h.tty
  rw [if_neg hnot] at htty
  unfold Interactive.reads
  dsimp only
  split
  · rename_i hnone
    have hsame : s.input.readBytes P copyRoom = { s.input with pipe := (P.read s.input.pipe copyRoom).2 } := by
      simp [Input.readBytes, hnone]
    refine ⟨hinput, h.tty, fun _ => ?_, fun _ => ?_, ?_, h.small, h.feeding⟩
    · rw [hsame]
      exact ⟨hreader, heof⟩
    · rw [hsame, hc]
      exact hread
    · rw [hsame]
      exact h.events
  · rename_i hend
    refine h.finish hP hnot (.inl hstep) fun _ => ⟨hc, ?_⟩
    simp [Input.readBytes, hend]
  · rename_i b data hdata
    have hsame : s.input.readBytes P copyRoom =
        { s.input with
          pipe := (P.read s.input.pipe copyRoom).2, received := s.input.received ++ b :: data } := by
      simp [Input.readBytes, hdata]
    have hsmall : (b :: data).length ≤ copyRoom := (hP.read s.input.pipe copyRoom hdata).1
    refine ⟨hinput, ?_, fun _ => ?_, fun _ => ?_, ?_, h.small, ?_⟩
    · rw [if_neg TtyCopy.noConfusion]
      exact htty
    · rw [hsame]
      exact ⟨hreader, heof⟩
    · rw [hsame]
      show s.events.flatten ++ b :: data = s.input.received ++ b :: data
      rw [← hread, TtyCopy.pending, List.append_nil]
    · rw [hsame]
      exact h.events.trans (List.prefix_append _ _)
    · rintro d ⟨⟩
      exact ⟨List.cons_ne_nil b data, hsmall⟩
  · rename_i herror
    have hsame : s.input.readBytes P copyRoom = { s.input with pipe := (P.read s.input.pipe copyRoom).2 } := by
      simp [Input.readBytes, herror]
    refine h.finish hP hnot (.inl hstep) fun hend => ?_
    rw [hsame] at hend
    rw [show s.input.eof = true from hend] at heof
    cases heof

theorem step (hP : P.Lawful contents closed) (h : Inv contents closed T s) {e : TtyEvent}
    (hs : Interactive.step P T s e = some t) : Inv contents closed T t := by
  cases e with
  | input e =>
    simp only [Interactive.step] at hs
    split at hs
    · cases hs
    · rename_i he
      obtain ⟨input, hi, rfl⟩ := Option.map_eq_some_iff.mp hs
      obtain ⟨hreceived, heof, hreader⟩ := inputStep_others (by simpa using he) hi
      refine ⟨h.input.step hP hi, h.tty, fun hc => ?_, fun hc => ?_, ?_, h.small, h.feeding⟩
      · exact ⟨hreader.trans (h.reads hc).1, heof.trans (h.reads hc).2⟩
      · exact (h.read (hc.imp_right heof.symm.trans)).trans hreceived.symm
      · exact hreceived.symm ▸ h.events
  | reads =>
    simp only [Interactive.step] at hs
    split at hs
    · cases hs
      exact h.reads_step hP ‹_›
    all_goals cases hs
  | fed =>
    simp only [Interactive.step] at hs
    split at hs
    · rename_i data hc
      cases hs
      have hnot : s.copy ≠ .ended := by
        rw [hc]
        exact TtyCopy.noConfusion
      have hread := h.read (.inl hnot)
      rw [hc, TtyCopy.pending] at hread
      have htty := h.tty
      rw [if_neg hnot] at htty
      refine ⟨h.input, ?_, fun _ => h.reads hnot, fun _ => ?_, ?_, ?_, ?_⟩
      · rw [if_neg TtyCopy.noConfusion, List.foldl_append, ← htty]
        rfl
      · simpa [TtyCopy.pending] using hread
      · simp [hread]
      · intro d hd
        rcases List.mem_append.mp hd with hd | hd
        · exact h.small d hd
        · obtain rfl := List.mem_singleton.mp hd
          exact h.feeding d hc
      · rintro d ⟨⟩
    all_goals cases hs
  | dropped =>
    have hdropped : s.copy ≠ .ended → Inv contents closed T (s.finish P T) := fun hnot => by
      refine h.finish hP hnot (.inr rfl) fun heof => ?_
      rw [(h.reads hnot).2] at heof
      cases heof
    simp only [Interactive.step] at hs
    split at hs
    · rename_i hc
      cases hs
      exact hdropped (by simp [hc])
    · rename_i hc
      cases hs
      exact hdropped (by simp [hc])
    · cases hs

theorem of_reach (hP : P.Lawful contents closed)
    (hr : Reach (Interactive.step P T) (Interactive.init P T) s) : Inv contents closed T s :=
  hr.invariant (init hP) fun h _ hs => h.step hP hs

end Interactive.Inv

/-- The TTY takes what the user has written, in that order and in pieces of at most 64 bytes, and the runtime's input is
    closed after the last of them, exactly if the task is over. A task that has come to the end of a stream that was not
    aborted has handed over all of it. -/
theorem tty_copy_in_order (hP : P.Lawful contents closed)
    (hr : Reach (Interactive.step P T) (Interactive.init P T) s) :
    s.events.flatten <+: s.input.submitted.flatten ∧
      (∀ d ∈ s.events, d ≠ [] ∧ d.length ≤ 64) ∧
      (s.copy ≠ .ended → s.tty = s.events.foldl T.onEvent T.new ∧
        s.events.flatten ++ s.copy.pending ++ contents s.input.pipe = s.input.sent) ∧
      (s.copy = .ended → s.tty = T.closeStdin (s.events.foldl T.onEvent T.new)) ∧
      (s.input.eof → s.copy = .ended ∧
        (s.input.stream.sinkAborted = false → s.events.flatten = s.input.submitted.flatten)) := by
  have h : s.Inv contents closed T := .of_reach hP hr
  have hreceived : s.input.received <+: s.input.submitted.flatten := h.input.received.trans h.input.flow.sent
  have htty := h.tty
  refine ⟨h.events.trans hreceived, h.small, fun hc => ⟨?_, ?_⟩, fun hc => ?_, fun heof => ?_⟩
  · rwa [if_neg hc] at htty
  · rw [h.read (.inl hc)]
    exact h.input.passed (h.reads hc).1
  · rwa [if_pos hc] at htty
  · have hnot : s.copy = .ended := by
      by_contra hc
      rw [(h.reads hc).2] at heof
      cases heof
    refine ⟨hnot, fun habort => ?_⟩
    have hread := h.read (.inr heof)
    rw [hnot, TtyCopy.pending, List.append_nil] at hread
    rcases h.input.eof heof with hab | ⟨-, hall⟩
    · rw [habort] at hab
      cases hab
    · exact hread.trans hall

/-- What the task does by itself. -/
def TtyEvent.ofCopy : TtyEvent → Bool
  | .reads | .fed => true
  | .input _ | .dropped => false

/-- The task has come to the end of the input, and the rest of what was sent is with the TTY. -/
def Interactive.Copied (T : Tty τ) (s t : Interactive π τ) : Prop :=
  t.copy = .ended ∧ t.input.eof ∧ t.input.submitted = s.input.submitted ∧ t.events.flatten = s.input.sent ∧
    t.tty = T.closeStdin (t.events.foldl T.onEvent T.new)

/-- By induction on the bytes in the pipe. -/
theorem Interactive.leads_copied (hP : P.Lawful contents closed) (hready : P.Prompt closed)
    (h : s.Inv contents closed T) (hc : s.copy = .reading) (hclosed : closed s.input.pipe) :
    Leads (Interactive.step P T) (fun _ e => e.ofCopy) s (Interactive.Copied T s) := by
  induction hn : (contents s.input.pipe).length using Nat.strongRecOn generalizing s with
  | _ n ih =>
    have hroom : 0 < copyRoom := by decide
    have hstep : Interactive.step P T s .reads = some (s.reads P T) := by simp [Interactive.step, hc]
    have hnot : s.copy ≠ .ended := by simp [hc]
    have hnext := h.step hP hstep
    obtain ⟨d, hd⟩ := hready s.input.pipe copyRoom hroom hclosed
    obtain ⟨-, hcontents⟩ := hP.read s.input.pipe copyRoom hd
    cases d with
    | nil =>
      refine .first .reads rfl hstep (.refl ?_)
      obtain ⟨hempty, -⟩ := hP.eof s.input.pipe hroom hd
      have hreads : s.reads P T = ({ s with input := s.input.readBytes P copyRoom } : Interactive π τ).finish P T := by
        simp [Interactive.reads, hd]
      have heof : (s.reads P T).input.eof := by
        simp [hreads, Interactive.finish, Input.readBytes, hd, hroom]
      have hcopy : (s.reads P T).copy = .ended := by rw [hreads]; rfl
      have hread := hnext.read (.inr heof)
      have htty := hnext.tty
      rw [hcopy, TtyCopy.pending, List.append_nil] at hread
      rw [if_pos hcopy] at htty
      have hpassed := h.input.passed (h.reads hnot).1
      rw [hempty, List.append_nil] at hpassed
      refine ⟨hcopy, heof, ?_, hread.trans ?_, htty⟩
      · simp [hreads, Interactive.finish, Input.readBytes, hd]
      · simp [hreads, Interactive.finish, Input.readBytes, hd, hpassed]
    | cons b data =>
      have hreads : s.reads P T =
          { s with input := s.input.readBytes P copyRoom, copy := .feeding (b :: data) } := by
        simp [Interactive.reads, hd]
      have hinput : s.input.readBytes P copyRoom =
          { s.input with
            pipe := (P.read s.input.pipe copyRoom).2, received := s.input.received ++ b :: data } := by
        simp [Input.readBytes, hd]
      rw [hreads, hinput] at hstep hnext
      have hfed := hnext.step hP (e := .fed) rfl
      refine .first .reads rfl hstep (.first .fed rfl rfl ?_)
      refine ih _ ?_ hfed rfl ((hP.stays _ _).trans hclosed) rfl
      show (contents (P.read s.input.pipe copyRoom).2).length < n
      rw [← hn, hcontents, List.length_append, List.length_cons]
      omega

/-- Once the user's pipe is closed, the task comes to its end when the TTY takes what it is given: all that was sent goes
    through the TTY before the runtime's input is closed, wherever the task was. -/
theorem tty_copy_ends (hP : P.Lawful contents closed) (hready : P.Prompt closed)
    (hr : Reach (Interactive.step P T) (Interactive.init P T) s) (hc : s.copy ≠ .ended)
    (hclosed : closed s.input.pipe) :
    Leads (Interactive.step P T) (fun _ e => e.ofCopy) s (Interactive.Copied T s) := by
  have h : s.Inv contents closed T := .of_reach hP hr
  cases hcopy : s.copy with
  | reading => exact Interactive.leads_copied hP hready h hcopy hclosed
  | feeding data =>
    have hstep : Interactive.step P T s .fed =
        some { s with copy := .reading, events := s.events ++ [data], tty := T.onEvent s.tty data } := by
      simp [Interactive.step, hcopy]
    exact .first .fed rfl hstep (Interactive.leads_copied hP hready (h.step hP hstep) rfl hclosed)
  | ended => exact absurd hcopy hc

end Invariant

/-- A TTY that hands on what it takes. -/
def plainTty : Tty (Bytes × Bool) where
  new := ([], false)
  onEvent t data := (t.1 ++ data, t.2)
  closeStdin t := (t.1, true)

/-- Three bytes are written and the stream is closed, and the task copies them and ends. -/
theorem tty_copy_in_order_hello :
    ∃ s, Reach (Interactive.step queuePipe plainTty) (Interactive.init queuePipe plainTty) s ∧ s.copy = .ended ∧
      s.events.flatten = [1, 2, 3] := by
  obtain ⟨s, hr, heof, habort, hsubmitted⟩ :
      ∃ s, Reach (Interactive.step queuePipe plainTty) (Interactive.init queuePipe plainTty) s ∧
        s.input.eof = true ∧ s.input.stream.sinkAborted = false ∧ s.input.submitted.flatten = [1, 2, 3] :=
    exists_reach [.input .start, .input (.write [1, 2]), .input .sinkWrites, .reads, .input .sinkWrites,
      .input .sinkReturns, .input (.write [3]), .input .close, .input .sinkWrites, .fed, .input .sinkWrites,
      .input .sinkReturns, .input .sinkCloses, .reads, .fed, .reads] _ (by decide)
  obtain ⟨hended, hall⟩ := (tty_copy_in_order queuePipe_lawful hr).2.2.2.2 heof
  exact ⟨s, hr, hended, (hall habort).trans hsubmitted⟩

/-- The stream is closed while the TTY takes the first two bytes. -/
theorem tty_copy_ends_hello :
    ∃ s, Reach (Interactive.step queuePipe plainTty) (Interactive.init queuePipe plainTty) s ∧
      s.input.sent = [1, 2, 3] ∧
      Leads (Interactive.step queuePipe plainTty) (fun _ e => e.ofCopy) s (Interactive.Copied plainTty s) := by
  obtain ⟨s, hr, hc, hclosed, hsent⟩ :
      ∃ s, Reach (Interactive.step queuePipe plainTty) (Interactive.init queuePipe plainTty) s ∧
        s.copy ≠ .ended ∧ s.input.pipe.2 = true ∧ s.input.sent = [1, 2, 3] :=
    exists_reach [.input .start, .input (.write [1, 2]), .input .sinkWrites, .reads, .input .sinkWrites,
      .input .sinkReturns, .input (.write [3]), .input .close, .input .sinkWrites, .input .sinkWrites,
      .input .sinkReturns, .input .sinkCloses] _ (by decide)
  exact ⟨s, hr, hsent, tty_copy_ends queuePipe_lawful queuePipe_prompt hr hc hclosed⟩

end Stream
end WasmerJs
