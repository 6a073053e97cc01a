import WasmerJs.Stream.Collect
import WasmerJs.Stream.Input

/-! A running instance and `Instance::wait` (`src/instance.rs`): the process with its three streams, the user who may
    use each of them, and the one call of `wait`, which consumes the instance. -/

namespace WasmerJs
namespace Stream

open Transition

/-- What `wait` fails with: the rejection of `stdin.close()`, the error of an output that it reads, or the exit channel,
    whose sender was dropped. -/
inductive WaitError where
  | stdin
  | output
  | canceled
  deriving DecidableEq

/-- `Output` of `src/instance.rs`. -/
structure WaitOutput where
  code : Int
  ok : Bool
  stdout : Bytes
  stderr : Bytes
  deriving DecidableEq

inductive WaitPhase where
  | notCalled
  -- `stdin.close()` is awaited.
  | closingStdin
  | collecting
  | returned (r : Except WaitError WaitOutput)
  deriving DecidableEq

/-- What is in the channel of the exit condition. -/
inductive Exit where
  | pending
  | sent (code : Int)
  | dropped
  deriving DecidableEq

def Exit.code? : Exit → Option Int
  | .sent code => some code
  | .pending | .dropped => none

def Copy.result? : Copy → Option Bytes
  | .finished buffer => some buffer
  | .idle | .reading _ _ _ | .failed => none

theorem Exit.code?_eq_some {x : Exit} {code : Int} : x.code? = some code ↔ x = .sent code := by
  cases x <;> simp [Exit.code?]

theorem Copy.result?_eq_some {c : Copy} {buffer : Bytes} : c.result? = some buffer ↔ c = .finished buffer := by
  cases c <;> simp [Copy.result?]

structure Instance (π : Type) where
  stdin : Option (Input π)
  stdout : Collecting π
  stderr : Collecting π
  exit : Exit
  wait : WaitPhase
  -- `wait` has found `stdin` locked.
  stdinLocked : Bool

inductive InstanceEvent where
  -- The process, the streams and the user.
  | stdin (e : InputEvent)
  | stdout (e : Event)
  | stderr (e : Event)
  | exited (code : Int)
  | exitDropped
  -- `wait`
  | call
  | stdinSettled (typeError : Bool)
  | askStdout
  | receiveStdout
  | askStderr
  | receiveStderr
  | join
  deriving DecidableEq

variable {π : Type}

namespace Instance

/-- An instance whose standard input is a stream or not. -/
def init (P : VirtualPipe π) (stdin : Bool) : Instance π :=
  { stdin := if stdin then some (.init P) else none, stdout := .init P, stderr := .init P, exit := .pending,
    wait := .notCalled, stdinLocked := false }

/-- Both streams are read from now on. -/
def collect (s : Instance π) : Instance π :=
  { s with stdout := s.stdout.begin, stderr := s.stderr.begin, wait := .collecting }

/-- `wait` begins with `stdin`: a stream that is locked is left alone, and one that cannot be closed because it is
    closed already is no error. -/
def call (P : VirtualPipe π) (s : Instance π) : Instance π :=
  match s.stdin with
  | none => s.collect
  | some input =>
    if input.stream.writer.isSome then { s.collect with stdinLocked := true }
    else
      match input.stream.close sink with
      | none => s.collect
      | some stream => { s with stdin := some (input.withStream P stream), wait := .closingStdin }

/-- The promise of `stdin.close()` is settled. -/
def stdinSettled (s : Instance π) (typeError : Bool) : Option (Instance π) :=
  s.stdin.bind fun input =>
    match input.stream.phase with
    | .closed => some s.collect
    | .errored => some (if typeError then s.collect else { s with wait := .returned (.error .stdin) })
    | .writable => none
    | .erroring => none

/-- `wait` gives up. -/
def fail (s : Instance π) (e : WaitError) : Instance π :=
  { s with stdout := s.stdout.drop, stderr := s.stderr.drop, wait := .returned (.error e) }

/-- `try_join!` of the two outputs and the exit condition: the first error ends it. -/
def join (s : Instance π) : Option (Instance π) :=
  if s.stdout.copy = .failed ∨ s.stderr.copy = .failed then some (s.fail .output)
  else if s.exit = .dropped then some (s.fail .canceled)
  else do
    let stdout ← s.stdout.copy.result?
    let stderr ← s.stderr.copy.result?
    let code ← s.exit.code?
    some { s with wait := .returned (.ok { code, ok := code == 0, stdout, stderr }) }

def step (P : VirtualPipe π) (s : Instance π) : InstanceEvent → Option (Instance π)
  | .stdin e => s.stdin.bind fun input => (inputStep P input e).map fun input => { s with stdin := some input }
  | .stdout e => (s.stdout.step P (.other e)).map fun stdout => { s with stdout }
  | .stderr e => (s.stderr.step P (.other e)).map fun stderr => { s with stderr }
  | .exited code => if s.exit = .pending then some { s with exit := .sent code } else none
  | .exitDropped => if s.exit = .pending then some { s with exit := .dropped } else none
  | .call => if s.wait = .notCalled then some (s.call P) else none
  | .stdinSettled typeError => if s.wait = .closingStdin then s.stdinSettled typeError else none
  | .askStdout => if s.wait = .collecting then (s.stdout.step P .ask).map fun stdout => { s with stdout } else none
  | .receiveStdout =>
    if s.wait = .collecting then (s.stdout.step P .receive).map fun stdout => { s with stdout } else none
  | .askStderr => if s.wait = .collecting then (s.stderr.step P .ask).map fun stderr => { s with stderr } else none
  | .receiveStderr =>
    if s.wait = .collecting then (s.stderr.step P .receive).map fun stderr => { s with stderr } else none
  | .join => if s.wait = .collecting then s.join else none

end Instance

/-! ### The invariant -/

/-- The phases of `wait`, with what each of them has found. -/
def PhaseOk (s : Instance π) : Prop :=
  match s.wait with
  | .notCalled | .closingStdin => s.stdout.copy = .idle ∧ s.stderr.copy = .idle
  | .collecting => s.stdout.copy ≠ .idle ∧ s.stderr.copy ≠ .idle
  | .returned (.error _) => True
  | .returned (.ok o) =>
    s.exit = .sent o.code ∧ o.ok = (o.code == 0) ∧ s.stdout.copy = .finished o.stdout ∧ s.stderr.copy = .finished o.stderr

structure Instance.Inv (contents : π → Bytes) (closed : π → Bool) (s : Instance π) : Prop where
  stdin : ∀ input, s.stdin = some input → input.Inv contents closed
  stdout : s.stdout.Inv contents closed
  stderr : s.stderr.Inv contents closed
  phase : PhaseOk s

namespace Instance.Inv

variable {P : VirtualPipe π} {contents : π → Bytes} {closed : π → Bool} {s t : Instance π}

theorem init (hP : P.Lawful contents closed) (stdin : Bool) : Inv contents closed (Instance.init P stdin) where
  stdin input hi := by
    cases stdin with
    | true =>
      cases hi
      exact .init hP
    | false => cases hi
  stdout := .init hP
  stderr := .init hP
  phase := ⟨rfl, rfl⟩

theorem begin_copy (c : Collecting π) : c.begin.copy ≠ .idle := by
  unfold Collecting.begin
  split <;> nofun

theorem begun (h : Inv contents closed s) (hw : s.wait = .collecting) :
    s.stdout.copy ≠ .idle ∧ s.stderr.copy ≠ .idle := by
  have hphase := h.phase
  unfold PhaseOk at hphase
  rwa [hw] at hphase

theorem collect (hP : P.Lawful contents closed) (h : Inv contents closed s)
    (hidle : s.stdout.copy = .idle ∧ s.stderr.copy = .idle) : Inv contents closed s.collect :=
  ⟨h.stdin, h.stdout.begin hP hidle.1, h.stderr.begin hP hidle.2, begin_copy s.stdout, begin_copy s.stderr⟩

theorem call (hP : P.Lawful contents closed) (h : Inv contents closed s) (hw : s.wait = .notCalled) :
    Inv contents closed (s.call P) := by
  have hidle : s.stdout.copy = .idle ∧ s.stderr.copy = .idle := by
    have hphase := h.phase
    unfold PhaseOk at hphase
    rwa [hw] at hphase
  have hcollect := h.collect hP hidle
  unfold Instance.call
  split
  · exact hcollect
  · rename_i input hi
    split
    · exact ⟨hcollect.stdin, hcollect.stdout, hcollect.stderr, hcollect.phase⟩
    · split
      · exact hcollect
      · rename_i stream ht
        refine ⟨fun input' hi' => ?_, h.stdout, h.stderr, hidle⟩
        cases hi'
        exact (h.stdin input hi).step hP (e := .close) (by simp [inputStep, ht])

theorem fail (hP : P.Lawful contents closed) (h : Inv contents closed s) (e : WaitError) :
    Inv contents closed (s.fail e) := ⟨h.stdin, h.stdout.drop hP, h.stderr.drop hP, trivial⟩

theorem join (hP : P.Lawful contents closed) (h : Inv contents closed s) (hs : s.join = some t) :
    Inv contents closed t := by
  unfold Instance.join at hs
  split at hs
  · cases hs
    exact h.fail hP _
  · split at hs
    · cases hs
      exact h.fail hP _
    · obtain ⟨stdout, hout, hs⟩ := Option.bind_eq_some_iff.mp hs
      obtain ⟨stderr, herr, hs⟩ := Option.bind_eq_some_iff.mp hs
      obtain ⟨code, hcode, hs⟩ := Option.bind_eq_some_iff.mp hs
      cases hs
      exact ⟨h.stdin, h.stdout, h.stderr, Exit.code?_eq_some.mp hcode, rfl, Copy.result?_eq_some.mp hout,
        Copy.result?_eq_some.mp herr⟩

/-- Only what `wait` found counts. -/
theorem phase_of_eq {s t : Instance π} (h : PhaseOk s) (hw : t.wait = s.wait) (hout : t.stdout.copy = s.stdout.copy)
    (herr : t.stderr.copy = s.stderr.copy) (hexit : s.exit = .pending ∨ t.exit = s.exit) : PhaseOk t := by
  unfold PhaseOk at h ⊢
  rw [hw, hout, herr]
  split
  all_goals
    rename_i hwait
    rw [hwait] at h
  · exact h
  · exact h
  · exact h
  · trivial
  · rcases hexit with hexit | hexit
    · rw [hexit] at h
      cases h.1
    · rw [hexit]
      exact h

theorem copy_other {c c' : Collecting π} {e : Event} (hs : c.step P (.other e) = some c') : c'.copy = c.copy := by
  simp only [Collecting.step] at hs
  split at hs
  · cases hs
  · obtain ⟨out, -, rfl⟩ := Option.map_eq_some_iff.mp hs
    rfl

/-- A collecting goes on once it has begun. -/
theorem copy_own {c c' : Collecting π} {e : CollectEvent} (he : e = .ask ∨ e = .receive) (hs : c.step P e = some c') :
    c'.copy ≠ .idle := by
  rcases he with rfl | rfl
  · simp only [Collecting.step] at hs
    split at hs
    · obtain ⟨stream, -, rfl⟩ := Option.map_eq_some_iff.mp hs
      simp
    all_goals cases hs
  · simp only [Collecting.step] at hs
    split at hs
    · obtain ⟨r, -, rfl⟩ := Option.map_eq_some_iff.mp hs
      cases r <;> simp [Collecting.receive]
    all_goals cases hs

theorem step (hP : P.Lawful contents closed) (h : Inv contents closed s) {e : InstanceEvent}
    (hs : Instance.step P s e = some t) : Inv contents closed t := by
  have hcollecting : ∀ {t : Instance π}, t.wait = .collecting → t.stdout.copy ≠ .idle → t.stderr.copy ≠ .idle →
      PhaseOk t := fun hw hout herr => by
    unfold PhaseOk
    rw [hw]
    exact ⟨hout, herr⟩
  cases e with
  | stdin e =>
    obtain ⟨input, hi, hs⟩ := Option.bind_eq_some_iff.mp hs
    obtain ⟨input', hi', rfl⟩ := Option.map_eq_some_iff.mp hs
    refine ⟨fun _ heq => ?_, h.stdout, h.stderr, h.phase⟩
    cases heq
    exact (h.stdin input hi).step hP hi'
  | stdout e =>
    obtain ⟨stdout, ht, rfl⟩ := Option.map_eq_some_iff.mp hs
    exact ⟨h.stdin, h.stdout.step hP ht, h.stderr, phase_of_eq h.phase rfl (copy_other ht) rfl (.inr rfl)⟩
  | stderr e =>
    obtain ⟨stderr, ht, rfl⟩ := Option.map_eq_some_iff.mp hs
    exact ⟨h.stdin, h.stdout, h.stderr.step hP ht, phase_of_eq h.phase rfl rfl (copy_other ht) (.inr rfl)⟩
  | exited code =>
    simp only [Instance.step] at hs
    split at hs
    · cases hs
      exact ⟨h.stdin, h.stdout, h.stderr, phase_of_eq h.phase rfl rfl rfl (.inl ‹_›)⟩
    · cases hs
  | exitDropped =>
    simp only [Instance.step] at hs
    split at hs
    · cases hs
      exact ⟨h.stdin, h.stdout, h.stderr, phase_of_eq h.phase rfl rfl rfl (.inl ‹_›)⟩
    · cases hs
  | call =>
    simp only [Instance.step] at hs
    split at hs
    · cases hs
      exact h.call hP ‹_›
    · cases hs
  | stdinSettled typeError =>
    simp only [Instance.step] at hs
    split at hs
    · rename_i hw
      have hidle : s.stdout.copy = .idle ∧ s.stderr.copy = .idle := by
        have hphase := h.phase
        unfold PhaseOk at hphase
        rwa [hw] at hphase
      obtain ⟨input, hi, hs⟩ := Option.bind_eq_some_iff.mp hs
      split at hs
      · cases hs
        exact h.collect hP hidle
      · cases hs
        cases typeError with
        | true => exact h.collect hP hidle
        | false => exact ⟨h.stdin, h.stdout, h.stderr, trivial⟩
      · cases hs
      · cases hs
    · cases hs
  | askStdout =>
    simp only [Instance.step] at hs
    split at hs
    · obtain ⟨stdout, ht, rfl⟩ := Option.map_eq_some_iff.mp hs
      exact ⟨h.stdin, h.stdout.step hP ht, h.stderr, hcollecting ‹_› (copy_own (by simp) ht) (h.begun ‹_›).2⟩
    · cases hs
  | receiveStdout =>
    simp only [Instance.step] at hs
    split at hs
    · obtain ⟨stdout, ht, rfl⟩ := Option.map_eq_some_iff.mp hs
      exact ⟨h.stdin, h.stdout.step hP ht, h.stderr, hcollecting ‹_› (copy_own (by simp) ht) (h.begun ‹_›).2⟩
    · cases hs
  | askStderr =>
    simp only [Instance.step] at hs
    split at hs
    · obtain ⟨stderr, ht, rfl⟩ := Option.map_eq_some_iff.mp hs
      exact ⟨h.stdin, h.stdout, h.stderr.step hP ht, hcollecting ‹_› (h.begun ‹_›).1 (copy_own (by simp) ht)⟩
    · cases hs
  | receiveStderr =>
    simp only [Instance.step] at hs
    split at hs
    · obtain ⟨stderr, ht, rfl⟩ := Option.map_eq_some_iff.mp hs
      exact ⟨h.stdin, h.stdout, h.stderr.step hP ht, hcollecting ‹_› (h.begun ‹_›).1 (copy_own (by simp) ht)⟩
    · cases hs
  | join =>
    simp only [Instance.step] at hs
    split at hs
    · exact h.join hP hs
    · cases hs

theorem of_reach (hP : P.Lawful contents closed) {stdin : Bool}
    (hr : Reach (Instance.step P) (Instance.init P stdin) s) : Inv contents closed s :=
  hr.invariant (init hP stdin) fun h _ hs => h.step hP hs

end Instance.Inv

/-! ### What `wait` returns -/

/-- An output that was collected: everything that the process has written and that the user had not read before, if
    the stream was not locked, and nothing otherwise. -/
def Collected (closed : π → Bool) (c : Collecting π) (bytes : Bytes) : Prop :=
  match c.taken with
  | none => bytes = []
  | some before => c.out.cancelled = false → before ++ bytes = c.out.written ∧ closed c.out.pipe

section Wait

variable {P : VirtualPipe π} {contents : π → Bytes} {closed : π → Bool} {s : Instance π} {stdin : Bool}

theorem Collecting.Inv.collected {c : Collecting π} (h : c.Inv contents closed) {buffer : Bytes}
    (hc : c.copy = .finished buffer) : Collected closed c buffer := by
  have hcopy := h.copy
  unfold CopyOk at hcopy
  rw [hc] at hcopy
  obtain ⟨-, hcopy⟩ := hcopy
  unfold Collected
  split
  · rename_i htaken
    rw [htaken] at hcopy
    exact hcopy
  · rename_i before htaken
    rw [htaken] at hcopy
    obtain ⟨hp, hd⟩ := hcopy
    intro hlive
    obtain ⟨hwritten, hcl⟩ := h.out.drained hlive hp
    exact ⟨hd.symm.trans hwritten, hcl⟩

/-- When `wait` returns an output, it has the code that the process exited with, and all that the process has written to
    the two streams, but for what the user had read before, or whose reader the user has left locked. -/
theorem wait_output (hP : P.Lawful contents closed) (hr : Reach (Instance.step P) (Instance.init P stdin) s)
    {o : WaitOutput} (hw : s.wait = .returned (.ok o)) :
    s.exit = .sent o.code ∧ (o.ok = true ↔ o.code = 0) ∧ Collected closed s.stdout o.stdout ∧
      Collected closed s.stderr o.stderr := by
  have h : s.Inv contents closed := .of_reach hP hr
  have hphase := h.phase
  unfold PhaseOk at hphase
  rw [hw] at hphase
  obtain ⟨hexit, hok, hout, herr⟩ := hphase
  exact ⟨hexit, by simp [hok], h.stdout.collected hout, h.stderr.collected herr⟩

end Wait

/-- The process writes two bytes to its output and exits, and `wait` closes its input and collects both streams. -/
theorem wait_output_hello :
    ∃ s o, Reach (Instance.step queuePipe) (Instance.init queuePipe true) s ∧ s.wait = .returned (.ok o) ∧
      o.code = 3 ∧ o.ok = false ∧ Collected Prod.snd s.stdout o.stdout := by
  let o : WaitOutput := { code := 3, ok := false, stdout := [1, 2], stderr := [] }
  obtain ⟨s, hr, hw, hexit⟩ : ∃ s, Reach (Instance.step queuePipe) (Instance.init queuePipe true) s ∧
      s.wait = .returned (.ok o) ∧ s.exit = .sent 3 :=
    exists_reach [.stdout (.write [1, 2]), .stdout .start, .stderr .start, .stdin .start, .call, .stdin .sinkCloses,
      .stdin .sinkReturns, .stdinSettled false, .askStdout, .stdout .pullBegins, .stdout .pullReads, .receiveStdout,
      .stdout .close, .stderr .close, .exited 3, .askStdout, .stdout .pullReturns, .stdout .pullBegins,
      .stdout .pullReads, .receiveStdout, .askStderr, .stderr .pullBegins, .stderr .pullReads, .receiveStderr, .join] _
      (by decide)
  obtain ⟨hcode, hok, hout, -⟩ := wait_output queuePipe_lawful hr hw
  exact ⟨s, o, hr, hw, rfl, rfl, hout⟩

end Stream
end WasmerJs
