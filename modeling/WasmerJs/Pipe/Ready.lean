import WasmerJs.Pipe.Calls

/-! When a pipe says that it is ready (`VirtualFile` in `src/pipes/mod.rs`). `poll_read_ready` looks at the positions and
    the closed flag in the order in which `try_read` does. `poll_write_ready` looks at the free space first, and
    `write_data` at the flag. -/

namespace WasmerJs
namespace Pipe

open Transition

/-- The types of the handles that `VirtualFile` is implemented for. -/
inductive FileType where
  | sharedPipe
  | sharedPipeTx
  | sharedPipeRx
  deriving DecidableEq

/-- An `io::Error`, its kind or, where the kind is `InvalidInput`, its message. -/
inductive IoError where
  | pipe (kind : ErrorKind)
  | invalidInput (message : String)
  deriving DecidableEq

inductive Poll (α : Type) where
  | ready (r : α)
  | pending
  deriving DecidableEq

namespace Memory

/-- `poll_write_ready` of a handle that can be written. -/
def pollWriteReady (C : Nat) (m : Memory) : Option (Poll (Except IoError Nat)) := do
  let free ← m.freeSpace C
  if free > 0 then some (.ready (.ok free))
  else if m.isClosed then some (.ready (.error (.pipe .brokenPipe)))
  else some .pending

/-- The first check of `poll_read_ready` of a handle that can be read; where it is pending, the loop waits. -/
def pollReadReady (C : Nat) (m : Memory) : Option (Poll (Except IoError Nat)) := do
  let available ← m.dataAvailable C
  if available > 0 then some (.ready (.ok available))
  else if m.isClosed then some (.ready (.ok 0))
  else some .pending

end Memory

namespace FileType

def pollWriteReady (C : Nat) (m : Memory) : FileType → Option (Poll (Except IoError Nat))
  | .sharedPipe | .sharedPipeTx => m.pollWriteReady C
  | .sharedPipeRx => some (.ready (.error (.invalidInput "Read-only pipe")))

def pollReadReady (C : Nat) (m : Memory) : FileType → Option (Poll (Except IoError Nat))
  | .sharedPipe | .sharedPipeRx => m.pollReadReady C
  | .sharedPipeTx => some (.ready (.error (.invalidInput "Write-only pipe")))

/-- `write_data`; all that a `SharedPipeRx` has is a `poll_write`. -/
def writeData (C : Nat) (m : Memory) (data : Bytes) : FileType → Option (Except IoError Nat × Memory)
  | .sharedPipe | .sharedPipeTx => (m.writeData C data).map fun (r, m) => (r.mapError .pipe, m)
  | .sharedPipeRx => some (.error (.invalidInput "Read-only pipe cannot be written"), m)

/-- `try_read`; all that a `SharedPipeTx` has is a `poll_read`. -/
def tryRead (C : Nat) (m : Memory) (len : Nat) : FileType → Option (Except IoError (Option Bytes) × Memory)
  | .sharedPipe | .sharedPipeRx => (m.tryRead C len).map fun (r, m) => (.ok r, m)
  | .sharedPipeTx => some (.error (.invalidInput "Write-only pipe cannot be read"), m)

end FileType

/-! ### What agreement is -/

/-- `poll_write_ready` announces what a write would do now. -/
structure WriteAgrees (C : Nat) (m : Memory) (f : FileType) : Prop where
  ready : ∀ data ≠ [],
    ((∃ n > 0, f.pollWriteReady C m = some (.ready (.ok n))) ↔ ∃ n m', f.writeData C m data = some (.ok n, m'))
  accepts : ∀ n > 0, f.pollWriteReady C m = some (.ready (.ok n)) →
    ∀ data : Bytes, n ≤ data.length → ∃ m', f.writeData C m data = some (.ok n, m')
  brokenPipe : ∀ data, f.pollWriteReady C m = some (.ready (.error (.pipe .brokenPipe))) ↔
    ∃ m', f.writeData C m data = some (.error (.pipe .brokenPipe), m')
  pending : ∀ data ≠ [], (f.pollWriteReady C m = some .pending ↔
    ∃ m', f.writeData C m data = some (.error (.pipe .wouldBlock), m'))

/-- The first check of `poll_read_ready` announces what a read with a buffer as large as the pipe would do now. -/
structure ReadAgrees (C : Nat) (m : Memory) (f : FileType) : Prop where
  ready : ∀ len ≥ C, ∀ n, (f.pollReadReady C m = some (.ready (.ok n)) ↔
    ∃ buf m', f.tryRead C m len = some (.ok (some buf), m') ∧ buf.length = n)

/-- Where the writer's position stands when it cannot write any more. -/
def Memory.isFull (C : Nat) (m : Memory) : Bool := (m.writePos + 1) % C = m.readPos

variable {C n : Nat} {m m' : Memory} {f : FileType} {data : Bytes}

/-! ### The positions -/

/-- Both positions are in the buffer, or at its start when it has no room for a byte. -/
structure Placed (C : Nat) (m : Memory) : Prop where
  writePos_lt : m.writePos < max C 1
  readPos_lt : m.readPos < max C 1

theorem Placed.writePos_le (h : Placed C m) : m.writePos ≤ C := by
  have := h.writePos_lt
  omega

theorem Placed.readPos_le (h : Placed C m) : m.readPos ≤ C := by
  have := h.readPos_lt
  omega

theorem Placed.isFull (h : Placed C m) : m.isFull C ↔ m.freeSpace C = some 0 := by
  obtain ⟨hw, hr⟩ := h
  rw [Memory.isFull, decide_eq_true_eq, Memory.freeSpace]
  rcases Nat.eq_zero_or_pos C with rfl | hC
  · obtain ⟨hw, hr⟩ : m.writePos = 0 ∧ m.readPos = 0 := by omega
    rw [hw, hr]
    exact ⟨fun h => by simp at h, fun h => by simp [Pipe.freeSpace, checkedSub] at h⟩
  · have hw : m.writePos < C := by omega
    have hr : m.readPos < C := by omega
    rw [freeSpace_eq hw hr, Ring.add_mod hw hC, Option.some.injEq]
    unfold Ring.index Ring.dist
    split <;> split <;> omega

theorem chunkSizes_of_le {pos : Nat} (h : pos ≤ C) :
    chunkSizes C pos n = some (min (C - pos) n, n - min (C - pos) n) := by
  simp [chunkSizes, checkedSub, h]

/-- A transmit end has taken the position that its copy starts from, or is about to. -/
def TxPc.HasRoom : TxPc → Prop
  | .reloadWritePos .. | .copy .. => True
  | _ => False

/-- What the receive end has seen of a buffer that has no room for a byte. -/
def RxPc.SeesNothing : RxPc → Prop
  | .loadReadPos _ _ writePos => writePos = 0
  | .reloadReadPos _ | .copy .. => False
  | _ => True

section Reach

variable {ι : Type} [DecidableEq ι] {s t : State ι} {i₀ : ι} {e : Event ι} {bytes : Nat → UInt8}

/-- The positions stay where they belong, because nobody gets to move them in a buffer without room for a byte. -/
structure InPlace (C : Nat) (s : State ι) : Prop where
  mem : Placed C s.mem
  tx : C = 0 → ∀ i, ¬ (s.tx i).HasRoom
  rx : C = 0 → s.rx.SeesNothing

theorem freeSpace_zero {writePos readPos : Nat} (hr : readPos = 0) : freeSpace 0 writePos readPos = none := by
  subst hr
  by_cases hw : writePos = 0
  · simp [freeSpace, checkedSub, hw]
  · simp [freeSpace, checkedSub, hw]

theorem TxStep.hasRoom {pc pc' : TxPc} {p : List Bytes} (h : TxStep 0 m pc m' pc' p) (hr : m.readPos = 0)
    (hpc : ¬ pc.HasRoom) : ¬ pc'.HasRoom ∧ m'.writePos = m.writePos := by
  cases h with
  | room hfree =>
    rw [freeSpace_zero hr] at hfree
    cases hfree
  | reload | store | publish => exact absurd trivial hpc
  | _ => exact ⟨id, rfl⟩

theorem TxStep.placed {pc pc' : TxPc} {p : List Bytes} (h : TxStep C m pc m' pc' p) (hm : Placed C m)
    (hpc : C = 0 → ¬ pc.HasRoom) : Placed C m' := by
  have hreadPos : m'.readPos = m.readPos := by cases h <;> rfl
  refine ⟨?_, hreadPos ▸ hm.readPos_lt⟩
  rcases Nat.eq_zero_or_pos C with rfl | hC
  · have := hm.readPos_lt
    exact (h.hasRoom (by omega) (hpc rfl)).2 ▸ hm.writePos_lt
  · cases h with
    | publish => exact Nat.lt_of_lt_of_le (Nat.mod_lt _ hC) (Nat.le_max_left ..)
    | _ => exact hm.writePos_lt

theorem RxCall.stillOpen_seesNothing (c : RxCall) (left : Nat) : (c.stillOpen left).SeesNothing := by
  cases c <;> trivial

theorem RxCall.again_seesNothing (c : RxCall) (left : Nat) : (c.again left).SeesNothing := by
  cases c with
  | tryRead | readBlocking => trivial
  | pollRead | pollReadReady =>
    simp only [again]
    split <;> trivial

theorem RxStep.seesNothing {pc pc' : RxPc} {p : List Bytes} (h : RxStep 0 m pc m' pc' p) (hm : Placed 0 m)
    (hpc : pc.SeesNothing) : pc'.SeesNothing ∧ m'.readPos = m.readPos := by
  cases h with
  | loadWritePos =>
    have := hm.writePos_lt
    exact ⟨show m.writePos = 0 by omega, rfl⟩
  | sawSome h hn =>
    have := hm.readPos_lt
    obtain rfl := hpc
    simp [dataAvailable, checkedSub, show m.readPos = 0 by omega] at h
    exact absurd h.symm hn
  | reload | load | publish => exact absurd hpc id
  | @stillOpen c left => exact ⟨c.stillOpen_seesNothing left, rfl⟩
  | @wait c left => exact ⟨c.again_seesNothing left, rfl⟩
  | _ => exact ⟨trivial, rfl⟩

theorem RxStep.placed {pc pc' : RxPc} {p : List Bytes} (h : RxStep C m pc m' pc' p) (hm : Placed C m)
    (hpc : C = 0 → pc.SeesNothing) : Placed C m' := by
  have hwritePos : m'.writePos = m.writePos := by cases h <;> rfl
  refine ⟨hwritePos ▸ hm.writePos_lt, ?_⟩
  rcases Nat.eq_zero_or_pos C with rfl | hC
  · exact (h.seesNothing hm (hpc rfl)).2 ▸ hm.readPos_lt
  · cases h with
    | publish => exact Nat.lt_of_lt_of_le (Nat.mod_lt _ hC) (Nat.le_max_left ..)
    | _ => exact hm.readPos_lt

namespace InPlace

theorem init : InPlace C (State.init i₀ bytes) where
  mem := ⟨by simp [State.init, Memory.withCapacity], by simp [State.init, Memory.withCapacity]⟩
  tx _ _ := id
  rx _ := trivial

theorem step (h : InPlace C s) (hs : Pipe.step C s e = some t) : InPlace C t := by
  cases e with
  | txCall i c =>
    obtain ⟨r, -, -, rfl⟩ := step_txCall_inv hs
    refine ⟨h.mem, fun hC j => ?_, h.rx⟩
    by_cases hj : j = i
    · subst hj
      simp only [Function.update_self]
      cases c <;> exact id
    · simp only [Function.update_of_ne hj]
      exact h.tx hC j
  | txStep i =>
    obtain ⟨m, pc, published, hstep, rfl⟩ := step_txStep_inv hs
    refine ⟨hstep.placed h.mem fun hC => h.tx hC i, fun hC j => ?_, h.rx⟩
    by_cases hj : j = i
    · subst hj hC
      simp only [Function.update_self]
      have := h.mem.readPos_lt
      exact (hstep.hasRoom (by omega) (h.tx rfl j)).1
    · simp only [Function.update_of_ne hj]
      exact h.tx hC j
  | rxCall c =>
    obtain ⟨r, -, rfl⟩ := step_rxCall_inv hs
    refine ⟨h.mem, h.tx, fun _ => ?_⟩
    cases c <;> trivial
  | rxStep =>
    obtain ⟨m, pc, published, hstep, rfl⟩ := step_rxStep_inv hs
    refine ⟨hstep.placed h.mem h.rx, h.tx, fun hC => ?_⟩
    subst hC
    exact (hstep.seesNothing h.mem (h.rx rfl)).1

theorem of_reach (hr : Reach (Pipe.step C) (State.init i₀ bytes) s) : InPlace C s :=
  hr.invariant init fun h _ hs => h.step hs

end InPlace

end Reach

/-! ### What the operations do -/

/-- A write to an open pipe gives what the free space allows. -/
theorem Memory.writeData_open (hw : m.writePos ≤ C) (hc : ¬ m.isClosed) (hd : data ≠ []) :
    (m.writeData C data).map Prod.fst =
      (m.freeSpace C).map fun free => if free = 0 then .error .wouldBlock else .ok (min data.length free) := by
  cases hfree : m.freeSpace C with
  | none => simp [Memory.writeData, hc, hd, hfree]
  | some free =>
    by_cases hf : free = 0
    · simp [Memory.writeData, hc, hd, hfree, hf]
    · simp [Memory.writeData, hc, hd, hfree, hf, chunkSizes_of_le hw]

/-- What a read with a buffer as large as the pipe returns. -/
theorem Memory.tryRead_large (hm : Placed C m) (hn : C ≤ n) :
    ∃ available, m.dataAvailable C = some available ∧ ∃ buf m', buf.length = available ∧
      m.tryRead C n = some (if available = 0 then if m.isClosed then some [] else none else some buf, m') := by
  have hw := hm.writePos_le
  have hr := hm.readPos_le
  obtain ⟨available, havail, hle⟩ : ∃ available, m.dataAvailable C = some available ∧ available ≤ C := by
    unfold Memory.dataAvailable Pipe.dataAvailable
    split
    · exact ⟨_, checkedSub_eq ‹_›, by omega⟩
    · exact ⟨_, by rw [checkedSub_eq hr]; rfl, by omega⟩
  refine ⟨available, havail, ?_⟩
  by_cases hz : available = 0
  · exact ⟨[], m, by simp [hz], by simp [Memory.tryRead, havail, hz]⟩
  · refine ⟨Memory.getIndices m.data m.readPos (min (C - m.readPos) (min n available)) ++
      Memory.getIndices m.data 0 (min n available - min (C - m.readPos) (min n available)), _, ?_,
      by simp [Memory.tryRead, havail, hz, chunkSizes_of_le hr]; rfl⟩
    simp [Memory.getIndices]
    omega

/-- The first check of `poll_read_ready` is the run of its first accesses, up to the result or to the wait. -/
theorem pollReadReady_run {p : Poll (Except IoError Nat)} (h : m.pollReadReady C = some p) :
    (∃ k, p = .ready (.ok k) ∧ RxRun C m (RxCall.start .pollReadReady) m (.returned (.ready (some k))) []) ∨
      p = .pending ∧ RxRun C m (RxCall.start .pollReadReady) m (.loadNotify .pollReadReady maxWaitIterations) [] := by
  obtain ⟨available, havail, h⟩ := Option.bind_eq_some_iff.mp h
  have havail : dataAvailable C m.writePos m.readPos = some available := havail
  by_cases hpos : available > 0
  · simp only [hpos, if_true, Option.some.injEq] at h
    refine .inl ⟨available, h.symm, .quiet rfl (.last ?_)⟩
    simp [RxPc.access, havail, Nat.pos_iff_ne_zero.mp hpos, RxCall.someAvailable]
  · obtain rfl : available = 0 := by omega
    have hempty : RxPc.access C m (.loadReadPos .pollReadReady maxWaitIterations m.writePos) =
        some (m, .loadClosed .pollReadReady maxWaitIterations, []) := by
      simp [RxPc.access, havail]
    by_cases hc : m.closed = 0
    · simp only [hpos, if_false, Memory.isClosed, hc, ne_eq, not_true, decide_false, Bool.false_eq_true,
        Option.some.injEq] at h
      exact .inr ⟨h.symm, .quiet rfl (.quiet hempty (.last (by simp [RxPc.access, hc, RxCall.stillOpen])))⟩
    · simp only [hpos, if_false, Memory.isClosed, hc, ne_eq, not_false_eq_true, decide_true, if_true,
        Option.some.injEq] at h
      exact .inl ⟨0, h.symm, .quiet rfl (.quiet hempty (.last (by simp [RxPc.access, hc, RxCall.atEof])))⟩

/-! ### Agreement -/

theorem readAgrees (hm : Placed C m) (f : FileType) : ReadAgrees C m f := by
  cases f with
  | sharedPipeTx => exact ⟨fun len _ n => by simp [FileType.pollReadReady, FileType.tryRead]⟩
  | sharedPipe | sharedPipeRx =>
    refine ⟨fun len hlen n => ?_⟩
    obtain ⟨available, havail, buf, m', hbuf, hread⟩ := Memory.tryRead_large hm hlen
    by_cases hz : available = 0
    · by_cases hc : m.isClosed
      · simp [FileType.pollReadReady, FileType.tryRead, Memory.pollReadReady, havail, hread, hz, hc]
      · simp [FileType.pollReadReady, FileType.tryRead, Memory.pollReadReady, havail, hread, hz, hc]
    · simp [FileType.pollReadReady, FileType.tryRead, Memory.pollReadReady, havail, hread, hz, hbuf,
        Nat.pos_of_ne_zero hz]

/-- What a write to a `SharedPipeTx` returns. -/
theorem tx_writeData {r : Except IoError Nat} :
    (∃ m', FileType.sharedPipeTx.writeData C m data = some (r, m')) ↔
      ∃ r', (m.writeData C data).map Prod.fst = some r' ∧ r'.mapError .pipe = r := by
  rw [FileType.writeData]
  cases m.writeData C data with
  | none => simp
  | some x => simp

theorem tx_writeAgrees_closed (hm : Placed C m) (hc : m.isClosed) (hf : m.isFull C) :
    WriteAgrees C m .sharedPipeTx := by
  have hpoll : FileType.sharedPipeTx.pollWriteReady C m = some (.ready (.error (.pipe .brokenPipe))) := by
    simp [FileType.pollWriteReady, Memory.pollWriteReady, hm.isFull.mp hf, hc]
  constructor <;> simp [hpoll, FileType.writeData, Memory.writeData_closed hc, Except.mapError]

/-- What a write to an open `SharedPipeTx` returns. -/
theorem tx_writeData_open {r : Except IoError Nat} (hm : Placed C m) (hc : ¬ m.isClosed) (hd : data ≠ []) :
    (∃ m', FileType.sharedPipeTx.writeData C m data = some (r, m')) ↔ ∃ free, m.freeSpace C = some free ∧
      r = if free = 0 then .error (.pipe .wouldBlock) else .ok (min data.length free) := by
  rw [tx_writeData, Memory.writeData_open hm.writePos_le hc hd]
  constructor
  · rintro ⟨r', hr', rfl⟩
    obtain ⟨free, hfree, rfl⟩ := Option.map_eq_some_iff.mp hr'
    exact ⟨free, hfree, apply_ite (Except.mapError IoError.pipe) ..⟩
  · rintro ⟨free, hfree, rfl⟩
    refine ⟨if free = 0 then .error .wouldBlock else .ok (min data.length free), by rw [hfree]; rfl, ?_⟩
    split <;> rfl

/-- What a poll of an open `SharedPipeTx` returns. -/
theorem tx_pollWriteReady_open (hc : ¬ m.isClosed) : FileType.sharedPipeTx.pollWriteReady C m =
    (m.freeSpace C).map fun free => if free = 0 then .pending else .ready (.ok free) := by
  cases hfree : m.freeSpace C with
  | none => simp [FileType.pollWriteReady, Memory.pollWriteReady, hfree]
  | some free =>
    by_cases hf : free = 0
    · simp [FileType.pollWriteReady, Memory.pollWriteReady, hfree, hf, hc]
    · simp [FileType.pollWriteReady, Memory.pollWriteReady, hfree, hf, Nat.pos_of_ne_zero hf]

theorem tx_writeAgrees_open (hm : Placed C m) (hc : ¬ m.isClosed) : WriteAgrees C m .sharedPipeTx where
  ready data hd := by
    simp only [tx_pollWriteReady_open hc, Option.map_eq_some_iff, tx_writeData_open hm hc hd]
    constructor
    · rintro ⟨n, hn, free, hfree, hp⟩
      split at hp
      · cases hp
      · exact ⟨_, free, hfree, by rw [if_neg ‹_›]⟩
    · rintro ⟨n, free, hfree, hr⟩
      split at hr
      · cases hr
      · exact ⟨free, Nat.pos_of_ne_zero ‹_›, free, hfree, by rw [if_neg ‹_›]⟩
  accepts n hn hp data hlen := by
    have hd : data ≠ [] := List.length_pos_iff.mp (by omega)
    obtain ⟨free, hfree, hp⟩ := Option.map_eq_some_iff.mp (tx_pollWriteReady_open hc ▸ hp)
    split at hp
    · cases hp
    · cases hp
      refine (tx_writeData_open hm hc hd).mpr ⟨n, hfree, ?_⟩
      rw [if_neg ‹_›, Nat.min_eq_right hlen]
  brokenPipe data := by
    constructor
    · intro hp
      obtain ⟨free, -, hp⟩ := Option.map_eq_some_iff.mp (tx_pollWriteReady_open hc ▸ hp)
      split at hp <;> cases hp
    · intro hw
      by_cases hd : data = []
      · simp [FileType.writeData, Memory.writeData, hc, hd, Except.mapError] at hw
      · obtain ⟨free, -, hr⟩ := (tx_writeData_open hm hc hd).mp hw
        split at hr <;> cases hr
  pending data hd := by
    rw [tx_pollWriteReady_open hc, Option.map_eq_some_iff, tx_writeData_open hm hc hd]
    refine exists_congr fun free => and_congr_right fun _ => ?_
    split <;> simp

/-- A closed pipe with room for a byte is announced to be ready. -/
theorem tx_not_writeAgrees (hm : Placed C m) (hc : m.isClosed) (hf : ¬ m.isFull C) :
    ¬ WriteAgrees C m .sharedPipeTx := by
  intro h
  have hp := (h.brokenPipe []).mpr ⟨m, by simp [FileType.writeData, Memory.writeData_closed hc, Except.mapError]⟩
  rw [hm.isFull] at hf
  cases hfree : m.freeSpace C with
  | none => simp [FileType.pollWriteReady, Memory.pollWriteReady, hfree] at hp
  | some free =>
    have hpos : 0 < free := Nat.pos_of_ne_zero fun hz => hf (hz ▸ hfree)
    simp [FileType.pollWriteReady, Memory.pollWriteReady, hfree, hpos] at hp

theorem tx_writeAgrees_iff (hm : Placed C m) : WriteAgrees C m .sharedPipeTx ↔ m.closed = 0 ∨ m.isFull C := by
  have hclosed : m.isClosed ↔ m.closed ≠ 0 := by simp [Memory.isClosed]
  constructor
  · intro h
    by_contra hno
    obtain ⟨hc, hf⟩ := not_or.mp hno
    exact tx_not_writeAgrees hm (hclosed.mpr hc) hf h
  · intro h
    by_cases hc : m.closed = 0
    · exact tx_writeAgrees_open hm (by simpa [hclosed] using hc)
    · exact tx_writeAgrees_closed hm (hclosed.mpr hc) (h.resolve_left hc)

/-- Both handles that can be written do the same. -/
theorem pipe_writeAgrees : WriteAgrees C m .sharedPipe ↔ WriteAgrees C m .sharedPipeTx :=
  ⟨fun h => ⟨h.ready, h.accepts, h.brokenPipe, h.pending⟩, fun h => ⟨h.ready, h.accepts, h.brokenPipe, h.pending⟩⟩

theorem rx_writeAgrees : WriteAgrees C m .sharedPipeRx := by
  constructor <;> simp [FileType.pollWriteReady, FileType.writeData]

/-- In every state that a pipe of any capacity reaches, with any number of transmit ends, polling agrees with the
    operations exactly if the handle cannot be written, or the pipe is open, or its buffer is full. -/
theorem readiness_agrees_iff {ι : Type} [DecidableEq ι] {s : State ι} {i₀ : ι} {bytes : Nat → UInt8}
    (hr : Reach (step C) (State.init i₀ bytes) s) (f : FileType) :
    WriteAgrees C s.mem f ∧ ReadAgrees C s.mem f ↔ f = .sharedPipeRx ∨ s.mem.closed = 0 ∨ s.mem.isFull C := by
  have hm := (InPlace.of_reach hr).mem
  rw [and_iff_left (readAgrees hm f)]
  cases f with
  | sharedPipe => simpa [pipe_writeAgrees] using tx_writeAgrees_iff hm
  | sharedPipeTx => simpa using tx_writeAgrees_iff hm
  | sharedPipeRx => simp [rx_writeAgrees]

/-- The pipe is closed when its buffer of four bytes is full, and its writer is told so. -/
theorem readiness_agrees_full :
    ∃ s, Reach (step 4) (State.init () fun _ => 0) s ∧ s.mem.closed = 1 ∧
      WriteAgrees 4 s.mem .sharedPipeTx ∧ ReadAgrees 4 s.mem .sharedPipeTx := by
  obtain ⟨s, hr, hclosed, hfull⟩ : ∃ s, Reach (step 4) (State.init () fun _ => 0) s ∧
      s.mem.closed = 1 ∧ s.mem.isFull 4 :=
    exists_reach (Event.tx () (.writeData [1, 2, 3]) 9 ++ Event.tx () .close 2) _ (by decide)
  exact ⟨s, hr, hclosed, (readiness_agrees_iff hr .sharedPipeTx).mpr (.inr (.inr hfull))⟩

/-- The pipe is closed when it is empty, and its writer is told that seven bytes can be written. -/
theorem closed_pipe_polls_ready : ¬ ∀ s, Reach (step 8) (State.init () fun _ => 0) s → ∀ f, WriteAgrees 8 s.mem f := by
  intro hall
  obtain ⟨s, hr, hp, hw⟩ : ∃ s, Reach (step 8) (State.init () fun _ => 0) s ∧
      FileType.sharedPipeTx.pollWriteReady 8 s.mem = some (.ready (.ok 7)) ∧
      (FileType.sharedPipeTx.writeData 8 s.mem [1]).map Prod.fst = some (.error (.pipe .brokenPipe)) :=
    exists_reach (Event.tx () .close 2) _ (by decide)
  obtain ⟨⟨r, m'⟩, hw, rfl⟩ := Option.map_eq_some_iff.mp hw
  have hbroken := ((hall s hr .sharedPipeTx).brokenPipe [1]).mpr ⟨m', hw⟩
  rw [hp] at hbroken
  cases hbroken

end Pipe
end WasmerJs
