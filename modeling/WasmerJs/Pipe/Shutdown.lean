import WasmerJs.Pipe.Calls

/-! The transmit ends of one pipe, and the two ways in which one of them comes to its end (`src/pipes/mod.rs`). A drop
    counts the transmit ends, and closes the pipe if there is no other one. `poll_shutdown` of `AsyncWrite` closes it
    whatever the count is. -/

namespace WasmerJs
namespace Pipe

open Transition

namespace Memory

/-- `Drop for SharedPipeTx` -/
def dropTx (m : Memory) : Memory :=
  let prevCount := m.txCount
  let m := { m with txCount := prevCount - 1 }
  if prevCount = 1 then m.close else m

/-- `SharedPipeTx::from_pool_offset` -/
def txFromPoolOffset (m : Memory) : Memory := { m with txCount := m.txCount + 1 }

end Memory

variable {C : Nat} {m : Memory} {data : Bytes}

theorem closed_run {r : TxResult} : TxRun C m (.storeClosed r) m.close (.returned r) [] :=
  .quiet rfl (.last rfl)

/-- A drop is the run of its accesses. -/
theorem dropTx_run : TxRun C m (TxCall.start .drop) m.dropTx (.returned .dropped) [] := by
  by_cases hlast : m.txCount = 1
  · have hsub : TxPc.access C m .subTxCount =
        some ({ m with txCount := m.txCount - 1 }, .storeClosed .dropped, []) := by
      simp [TxPc.access, hlast]
    rw [Memory.dropTx, if_pos hlast]
    exact .quiet hsub closed_run
  · rw [Memory.dropTx, if_neg hlast]
    exact .last (by simp [TxPc.access, TxCall.start, hlast])

theorem txFromPoolOffset_run : TxRun C m (TxCall.start .fromPoolOffset) m.txFromPoolOffset (.returned .created) [] :=
  .last rfl

/-- A pipe and its transmit ends: those that were neither shut down nor dropped, and those that were only shut down. -/
structure Shared (ι : Type) where
  mem : Memory
  opened : Finset ι
  shut : Finset ι

namespace Shared

variable {ι : Type} {s : Shared ι} {i₀ : ι} {bytes : Nat → UInt8}

/-- `SharedPipe::with_capacity`, split: handle `i₀` is the transmit end. -/
def init (i₀ : ι) (bytes : Nat → UInt8) : Shared ι := { mem := .withCapacity bytes, opened := {i₀}, shut := ∅ }

/-- As long as a handle was neither shut down nor dropped, its writes do not fail with a broken pipe and the reader is
    not told that the stream has ended; when there is no such handle and the buffer is empty, the reader is told. -/
structure EndsTogether (C : Nat) (s : Shared ι) : Prop where
  writes : ∀ i ∈ s.opened, ∀ data m', s.mem.writeData C data ≠ some (.error .brokenPipe, m')
  reads : s.opened.Nonempty → ∀ len > 0, ∀ m', s.mem.tryRead C len ≠ some (some [], m')
  ends : s.opened = ∅ → s.mem.dataAvailable C = some 0 → ∀ len, ∃ m', s.mem.tryRead C len = some (some [], m')

/-- The counter counts the handles, and the flag is clear as long as one of them is open. -/
structure Inv (s : Shared ι) : Prop where
  txCount : s.mem.txCount = s.opened.card + s.shut.card
  closed : s.mem.closed = 0 ↔ s.opened.Nonempty
  either : s.opened = ∅ ∨ s.shut = ∅

theorem Inv.init : Inv (Shared.init i₀ bytes) :=
  ⟨by simp [Shared.init, Memory.withCapacity], by simp [Shared.init, Memory.withCapacity], .inr rfl⟩

/-! ### What the flag decides -/

theorem Inv.open (h : s.Inv) (ho : s.opened.Nonempty) : ¬ s.mem.isClosed := by
  simpa [Memory.isClosed] using h.closed.mpr ho

theorem Inv.isClosed (h : s.Inv) (ho : s.opened = ∅) : s.mem.isClosed := by
  have hne : s.mem.closed ≠ 0 := fun hz => Finset.not_nonempty_iff_eq_empty.mpr ho (h.closed.mp hz)
  simpa [Memory.isClosed] using hne

theorem Inv.shut_eq (h : s.Inv) (ho : s.opened.Nonempty) : s.shut = ∅ := h.either.resolve_left ho.ne_empty

theorem Inv.endsTogether (h : s.Inv) : s.EndsTogether C where
  writes i hi data m' hw := h.open ⟨i, hi⟩ (Memory.isClosed_of_brokenPipe hw)
  reads ho len hlen m' hr := h.open ho (Memory.isClosed_of_eof hlen hr)
  ends ho hempty len := ⟨s.mem, by rw [Memory.tryRead_empty hempty, if_pos (h.isClosed ho)]⟩

/-- A closed pipe cuts an open handle off. -/
theorem not_endsTogether (ho : s.opened.Nonempty) (hc : s.mem.isClosed) : ¬ s.EndsTogether C := by
  intro h
  obtain ⟨i, hi⟩ := ho
  exact h.writes i hi [] s.mem (Memory.writeData_closed hc)

/-! ### Calls on the handles -/

inductive Event (ι : Type) where
  | writeData (i : ι) (data : Bytes)
  | pollShutdown (i : ι)
  | drop (i : ι)
  | fromPoolOffset (i : ι)
  | tryRead (len : Nat)
  deriving DecidableEq

variable [DecidableEq ι] {t : Shared ι} {e : Event ι}

/-- A call on one of the handles that are there, a new handle, or a read. -/
def step (C : Nat) (s : Shared ι) : Event ι → Option (Shared ι)
  | .writeData i data =>
    if i ∈ s.opened ∪ s.shut then (s.mem.writeData C data).map fun (_, mem) => { s with mem } else none
  | .pollShutdown i =>
    if i ∈ s.opened ∪ s.shut then
      some { mem := s.mem.close, opened := s.opened.erase i, shut := insert i s.shut }
    else none
  | .drop i =>
    if i ∈ s.opened ∪ s.shut then
      some { mem := s.mem.dropTx, opened := s.opened.erase i, shut := s.shut.erase i }
    else none
  | .fromPoolOffset i =>
    if i ∉ s.opened ∪ s.shut then some { s with mem := s.mem.txFromPoolOffset, opened := insert i s.opened } else none
  | .tryRead len => (s.mem.tryRead C len).map fun (_, mem) => { s with mem }

/-- A handle is shut down only while no other one is open, and made only while some handle is. -/
def OneRule (s : Shared ι) : Event ι → Prop
  | .pollShutdown i => s.opened.erase i = ∅
  | .fromPoolOffset _ => s.opened.Nonempty
  | _ => True

instance : ∀ (s : Shared ι) e, Decidable (OneRule s e)
  | s, .pollShutdown i => inferInstanceAs (Decidable (s.opened.erase i = ∅))
  | s, .fromPoolOffset _ => inferInstanceAs (Decidable s.opened.Nonempty)
  | _, .writeData .. | _, .drop _ | _, .tryRead _ => inferInstanceAs (Decidable True)

theorem Inv.pollShutdown (h : s.Inv) {i : ι} (hi : i ∈ s.opened ∪ s.shut) (hok : s.opened.erase i = ∅) :
    Inv { mem := s.mem.close, opened := s.opened.erase i, shut := insert i s.shut } := by
  refine ⟨?_, by simp [Memory.close, hok], .inl hok⟩
  have hcount : s.mem.close.txCount = s.opened.card + s.shut.card := h.txCount
  rw [hcount, hok, Finset.card_empty, Nat.zero_add]
  by_cases ho : i ∈ s.opened
  · have hone := Finset.card_erase_add_one ho
    rw [hok, Finset.card_empty] at hone
    rw [h.shut_eq ⟨i, ho⟩, ← hone]
    rfl
  · have hshut : i ∈ s.shut := (Finset.mem_union.mp hi).resolve_left ho
    rw [Finset.erase_eq_of_notMem ho] at hok
    rw [hok, Finset.insert_eq_of_mem hshut, Finset.card_empty, Nat.zero_add]

theorem dropTx_txCount : m.dropTx.txCount = m.txCount - 1 := by
  simp only [Memory.dropTx]
  split <;> rfl

theorem dropTx_closed : m.dropTx.closed = if m.txCount = 1 then 1 else m.closed := by
  simp only [Memory.dropTx]
  split <;> rfl

theorem Inv.drop (h : s.Inv) {i : ι} (hi : i ∈ s.opened ∪ s.shut) :
    Inv { mem := s.mem.dropTx, opened := s.opened.erase i, shut := s.shut.erase i } := by
  have hcount := h.txCount
  by_cases ho : i ∈ s.opened
  · have hshut := h.shut_eq ⟨i, ho⟩
    have hone := Finset.card_erase_add_one ho
    rw [hshut, Finset.card_empty] at hcount
    refine ⟨?_, ?_, .inr (by rw [hshut, Finset.erase_empty])⟩
    · simp only [dropTx_txCount, hshut, Finset.erase_empty, Finset.card_empty]
      omega
    · rw [dropTx_closed, ← Finset.card_pos]
      split
      · simp only [Nat.one_ne_zero, false_iff]
        omega
      · rw [h.closed, ← Finset.card_pos]
        simp only
        omega
  · have hshut : i ∈ s.shut := (Finset.mem_union.mp hi).resolve_left ho
    have hnone : s.opened = ∅ := h.either.resolve_right (Finset.ne_empty_of_mem hshut)
    have hone := Finset.card_erase_add_one hshut
    rw [hnone, Finset.card_empty] at hcount
    refine ⟨?_, ?_, .inl (by rw [hnone, Finset.erase_empty])⟩
    · simp only [dropTx_txCount, hnone, Finset.erase_empty, Finset.card_empty]
      omega
    · rw [dropTx_closed]
      have hclosed : s.mem.closed ≠ 0 := fun hz => (hnone ▸ h.closed.mp hz).ne_empty rfl
      split <;> simp [hnone, hclosed]

theorem Inv.fromPoolOffset (h : s.Inv) {i : ι} (hi : i ∉ s.opened ∪ s.shut) (hok : s.opened.Nonempty) :
    Inv { s with mem := s.mem.txFromPoolOffset, opened := insert i s.opened } := by
  have hnew : i ∉ s.opened := fun ho => hi (Finset.mem_union_left _ ho)
  refine ⟨?_, ?_, .inr (h.shut_eq hok)⟩
  · have hcount := h.txCount
    simp only [Memory.txFromPoolOffset, Finset.card_insert_of_notMem hnew]
    omega
  · have hclosed := h.closed.mpr hok
    simp [Memory.txFromPoolOffset, hclosed]

theorem Inv.step (h : s.Inv) (hok : s.OneRule e) (hs : s.step C e = some t) : t.Inv := by
  cases e with
  | writeData i data =>
    simp only [Shared.step] at hs
    split at hs
    · obtain ⟨⟨r, m⟩, hw, rfl⟩ := Option.map_eq_some_iff.mp hs
      obtain ⟨hc, -, htx, -⟩ := writeData_frame hw
      exact ⟨htx.trans h.txCount, hc ▸ h.closed, h.either⟩
    · cases hs
  | tryRead len =>
    obtain ⟨⟨r, m⟩, hr, rfl⟩ := Option.map_eq_some_iff.mp hs
    obtain ⟨hc, -, htx⟩ := tryRead_frame hr
    exact ⟨htx.trans h.txCount, hc ▸ h.closed, h.either⟩
  | pollShutdown i =>
    simp only [Shared.step] at hs
    split at hs
    · cases hs
      exact h.pollShutdown ‹_› hok
    · cases hs
  | drop i =>
    simp only [Shared.step] at hs
    split at hs
    · cases hs
      exact h.drop ‹_›
    · cases hs
  | fromPoolOffset i =>
    simp only [Shared.step] at hs
    split at hs
    · cases hs
      exact h.fromPoolOffset ‹_› hok
    · cases hs

/-- A handle that is shut down while another one is open cuts that one off, and one that is made too late is cut off
    from the start. -/
theorem Inv.break (h : s.Inv) (hok : ¬ s.OneRule e) (hs : s.step C e = some t) : ¬ t.EndsTogether C := by
  cases e with
  | pollShutdown i =>
    simp only [Shared.step] at hs
    split at hs
    · cases hs
      exact not_endsTogether (Finset.nonempty_iff_ne_empty.mpr hok) rfl
    · cases hs
  | fromPoolOffset i =>
    simp only [Shared.step] at hs
    split at hs
    · cases hs
      exact not_endsTogether ⟨i, Finset.mem_insert_self ..⟩ (h.isClosed (Finset.not_nonempty_iff_eq_empty.mp hok))
    · cases hs
  | writeData | drop | tryRead => exact absurd trivial hok

/-! ### Runs -/

/-- Over a sequence of calls on the handles of a pipe, the transmit ends end together exactly as long as no handle is
    shut down while another one is open, and none is made when none is open. -/
theorem endsTogether_iff {es : List (Event ι)} (hr : run (step C) (init i₀ bytes) es = some s) :
    RunAll (step C) (EndsTogether C) (init i₀ bytes) es ↔ RunOk (step C) OneRule (init i₀ bytes) es :=
  runAll_iff_runOk (I := Inv) Inv.endsTogether (fun h hok hs => h.step hok hs) (fun h hok hs => h.break hok hs) .init hr

/-- Two handles, of which the first one is dropped and the second one is shut down. -/
theorem endsTogether_drop_first :
    let es : List (Event Nat) := [.fromPoolOffset 1, .writeData 0 [1], .drop 0, .writeData 1 [2], .tryRead 1,
      .pollShutdown 1, .writeData 1 [3], .tryRead 4, .tryRead 4]
    (run (step 8) (init 0 fun _ => 0) es).isSome ∧ RunAll (step 8) (EndsTogether 8) (init 0 fun _ => 0) es := by
  intro es
  obtain ⟨s, hs⟩ := Option.isSome_iff_exists.mp (by decide : (run (step 8) (init 0 fun _ => 0) es).isSome = true)
  exact ⟨by simp [hs], (endsTogether_iff hs).mpr (by decide)⟩

/-- The first of two handles is shut down, and the second one cannot write any more. -/
theorem shutdown_cuts_other_off : ¬ ∀ s : Shared Nat, Reach (step 8) (init 0 fun _ => 0) s → s.EndsTogether 8 := by
  intro hall
  obtain ⟨s, hr, ho, hc⟩ : ∃ s : Shared Nat, Reach (step 8) (init 0 fun _ => 0) s ∧ 1 ∈ s.opened ∧ s.mem.isClosed :=
    exists_reach [.fromPoolOffset 1, .pollShutdown 0] _ (by decide)
  exact not_endsTogether ⟨1, ho⟩ hc (hall s hr)

end Shared
end Pipe
end WasmerJs
