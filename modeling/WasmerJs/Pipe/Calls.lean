import WasmerJs.Pipe.Access

/-! The calls on the two ends of a pipe, each of them as a whole (`src/pipes/mod.rs`). A call that nobody interrupts is
    the run of its accesses to the shared memory. -/

namespace WasmerJs
namespace Pipe

open Transition

namespace Memory

/-- `free_space` -/
def freeSpace (C : Nat) (m : Memory) : Option Nat := Pipe.freeSpace C m.writePos m.readPos

/-- `data_available` -/
def dataAvailable (C : Nat) (m : Memory) : Option Nat := Pipe.dataAvailable C m.writePos m.readPos

/-- `is_closed` -/
def isClosed (m : Memory) : Bool := m.closed ≠ 0

/-- `close`, of either end. -/
def close (m : Memory) : Memory := { m with closed := 1 }

/-- `n` bytes of `data` from index `from` on are stored from index `pos` on. -/
def setIndices (bytes : Nat → UInt8) (pos : Nat) (data : Bytes) (start n : Nat) : Nat → UInt8 :=
  (List.range n).foldl (fun bytes i => Function.update bytes (pos + i) (data.getD (start + i) 0)) bytes

/-- `n` bytes from index `pos` on. -/
def getIndices (bytes : Nat → UInt8) (pos n : Nat) : Bytes := (List.range n).map fun i => bytes (pos + i)

/-- `SharedPipeTx::write_data`; there is no result where a subtraction underflows. -/
def writeData (C : Nat) (m : Memory) (data : Bytes) : Option (Except ErrorKind Nat × Memory) :=
  if m.isClosed then some (.error .brokenPipe, m)
  else if data.isEmpty then some (.ok 0, m)
  else do
    let free ← m.freeSpace C
    if free = 0 then some (.error .wouldBlock, m)
    else do
      let toWrite := min data.length free
      let (first, second) ← chunkSizes C m.writePos toWrite
      -- In two chunks, when the buffer wraps around.
      let bytes := setIndices m.data m.writePos data 0 first
      let bytes := setIndices bytes 0 data first second
      some (.ok toWrite, { m with data := bytes, writePos := (m.writePos + toWrite) % C })

/-- `SharedPipeRx::try_read` with a buffer of `len` bytes: the bytes that it puts there, or `None`. -/
def tryRead (C : Nat) (m : Memory) (len : Nat) : Option (Option Bytes × Memory) := do
  let available ← m.dataAvailable C
  if available = 0 then some (if m.isClosed then some [] else none, m)
  else do
    let toRead := min len available
    let (first, second) ← chunkSizes C m.readPos toRead
    let buf := getIndices m.data m.readPos first ++ getIndices m.data 0 second
    some (some buf, { m with readPos := (m.readPos + toRead) % C })

end Memory

/-- The bytes that a write has taken of its data. -/
def acceptedBy (data : Bytes) : Except ErrorKind Nat → Bytes
  | .ok n => data.take n
  | .error _ => []

/-! ### Accesses in a row -/

/-- A transmit end makes accesses, and nobody else makes any. -/
inductive TxRun (C : Nat) : Memory → TxPc → Memory → TxPc → List Bytes → Prop where
  | refl {m pc} : TxRun C m pc m pc []
  | access {m m₁ m' pc pc₁ pc' p q} (h : pc.access C m = some (m₁, pc₁, p)) (hr : TxRun C m₁ pc₁ m' pc' q) :
      TxRun C m pc m' pc' (p ++ q)

/-- The receive end makes accesses, and nobody else makes any. -/
inductive RxRun (C : Nat) : Memory → RxPc → Memory → RxPc → List Bytes → Prop where
  | refl {m pc} : RxRun C m pc m pc []
  | access {m m₁ m' pc pc₁ pc' p q} (h : pc.access C m = some (m₁, pc₁, p)) (hr : RxRun C m₁ pc₁ m' pc' q) :
      RxRun C m pc m' pc' (p ++ q)

variable {C : Nat} {m m₁ m' : Memory} {data : Bytes} {n : Nat} {p : List Bytes}

theorem TxRun.quiet {pc pc₁ pc' : TxPc} (h : pc.access C m = some (m₁, pc₁, [])) (hr : TxRun C m₁ pc₁ m' pc' p) :
    TxRun C m pc m' pc' p :=
  .access h hr

theorem TxRun.last {pc pc' : TxPc} (h : pc.access C m = some (m', pc', p)) : TxRun C m pc m' pc' p := by
  simpa using TxRun.access h .refl

theorem RxRun.quiet {pc pc₁ pc' : RxPc} (h : pc.access C m = some (m₁, pc₁, [])) (hr : RxRun C m₁ pc₁ m' pc' p) :
    RxRun C m pc m' pc' p :=
  .access h hr

theorem RxRun.last {pc pc' : RxPc} (h : pc.access C m = some (m', pc', p)) : RxRun C m pc m' pc' p := by
  simpa using RxRun.access h .refl

section Reach

variable {ι : Type} [DecidableEq ι] {s : State ι} {i : ι}

theorem TxRun.reach {pc pc' : TxPc} (h : TxRun C m pc m' pc' p) (hm : s.mem = m) (hi : s.tx i = pc) :
    Reach (step C) s { s with mem := m', tx := Function.update s.tx i pc', accepted := s.accepted ++ p } := by
  induction h generalizing s with
  | refl =>
    subst hm hi
    simpa using ReachVia.refl
  | @access m m₁ m' pc pc₁ pc' p q h hr ih =>
    subst hm hi
    have hs : step C s (.txStep i) =
        some { s with mem := m₁, tx := Function.update s.tx i pc₁, accepted := s.accepted ++ p } := by
      simp [step, h]
    have hrest := ih (s := { s with mem := m₁, tx := Function.update s.tx i pc₁, accepted := s.accepted ++ p })
      rfl (by simp)
    simp only [Function.update_idem, List.append_assoc] at hrest
    exact (ReachVia.step (.txStep i) .refl trivial hs).trans hrest

theorem RxRun.reach {pc pc' : RxPc} (h : RxRun C m pc m' pc' p) (hm : s.mem = m) (hrx : s.rx = pc) :
    Reach (step C) s { s with mem := m', rx := pc', returned := s.returned ++ p } := by
  induction h generalizing s with
  | refl =>
    subst hm hrx
    simpa using ReachVia.refl
  | @access m m₁ m' pc pc₁ pc' p q h hr ih =>
    subst hm hrx
    have hs : step C s .rxStep = some { s with mem := m₁, rx := pc₁, returned := s.returned ++ p } := by
      simp [step, h]
    have hrest := ih (s := { s with mem := m₁, rx := pc₁, returned := s.returned ++ p }) rfl rfl
    simp only [List.append_assoc] at hrest
    exact (ReachVia.step .rxStep .refl trivial hs).trans hrest

end Reach

/-! ### The copies -/

/-- The data area when the first `k` bytes of a copy are stored. -/
def copied (pos first : Nat) (data : Bytes) (bytes : Nat → UInt8) (k : Nat) : Nat → UInt8 :=
  (List.range k).foldl (fun bytes k => Function.update bytes (chunkIndex pos first k) (data.getD k 0)) bytes

/-- The two chunks of a write are one loop over its bytes, in which the index wraps around. -/
theorem setIndices_chunks {bytes : Nat → UInt8} {pos first second : Nat} :
    Memory.setIndices (Memory.setIndices bytes pos data 0 first) 0 data first second =
      copied pos first data bytes (first + second) := by
  have hfirst : Memory.setIndices bytes pos data 0 first = copied pos first data bytes first := by
    refine List.foldl_ext _ _ _ fun bytes k hk => ?_
    rw [chunkIndex, if_pos (List.mem_range.mp hk), Nat.zero_add]
  rw [hfirst, copied, copied, List.range_add, List.foldl_append, List.foldl_map]
  refine List.foldl_ext _ _ _ fun bytes k _ => ?_
  rw [chunkIndex, if_neg (by omega), Nat.add_sub_cancel_left, Nat.zero_add]

/-- Only the bytes that are copied matter. -/
theorem copied_take {bytes : Nat → UInt8} {pos first k : Nat} (hk : k ≤ n) :
    copied pos first (data.take n) bytes k = copied pos first data bytes k := by
  refine List.foldl_ext _ _ _ fun bytes j hj => ?_
  have hj : j < n := Nat.lt_of_lt_of_le (List.mem_range.mp hj) hk
  rw [List.getD_eq_getElem?_getD, List.getD_eq_getElem?_getD, List.getElem?_take_of_lt hj]

theorem getIndices_chunks {bytes : Nat → UInt8} {pos first second : Nat} :
    Memory.getIndices bytes pos first ++ Memory.getIndices bytes 0 second =
      (List.range (first + second)).map fun k => bytes (chunkIndex pos first k) := by
  have hfirst : Memory.getIndices bytes pos first = (List.range first).map fun k => bytes (chunkIndex pos first k) := by
    refine List.map_congr_left fun k hk => ?_
    rw [chunkIndex, if_pos (List.mem_range.mp hk)]
  rw [hfirst, List.range_add, List.map_append, List.map_map]
  congr 1
  refine List.map_congr_left fun k _ => ?_
  rw [Function.comp_apply, chunkIndex, if_neg (by omega), Nat.add_sub_cancel_left, Nat.zero_add]

/-- The loop over the bytes of a chunk, from byte `k` on, and what follows it. -/
theorem TxRun.copy (m : Memory) (bytes : Nat → UInt8) (chunk : Bytes) (writePos first : Nat) {k : Nat}
    (hk : k ≤ chunk.length) :
    TxRun C { m with data := copied writePos first chunk bytes k } (.copy chunk writePos first k)
      { m with
        data := copied writePos first chunk bytes chunk.length
        writePos := (writePos + chunk.length) % C }
      (.returned (.wrote (.ok chunk.length))) [chunk] := by
  obtain ⟨d, hd⟩ := Nat.exists_eq_add_of_le hk
  induction d generalizing k with
  | zero =>
    obtain rfl : k = chunk.length := hd.symm
    have hpublish : TxPc.access C { m with data := copied writePos first chunk bytes chunk.length }
        (.copy chunk writePos first chunk.length) = some ({ m with
          data := copied writePos first chunk bytes chunk.length
          writePos := (writePos + chunk.length) % C }, .notifyReaders chunk.length, [chunk]) := by
      simp [TxPc.access]
    simpa using TxRun.access hpublish (.last rfl)
  | succ d ih =>
    have hlt : k < chunk.length := by omega
    refine .quiet ?_ (ih (k := k + 1) (by omega) (by omega))
    simp [TxPc.access, copied, List.getElem?_eq_getElem hlt, List.range_succ]

theorem RxRun.copy (m : Memory) (toRead readPos first : Nat) {k : Nat} (hk : k ≤ toRead) :
    RxRun C m (.copy toRead readPos first ((List.range k).map fun k => m.data (chunkIndex readPos first k)))
      { m with readPos := (readPos + toRead) % C }
      (.returned (.read (some ((List.range toRead).map fun k => m.data (chunkIndex readPos first k)))))
      [(List.range toRead).map fun k => m.data (chunkIndex readPos first k)] := by
  obtain ⟨d, hd⟩ := Nat.exists_eq_add_of_le hk
  induction d generalizing k with
  | zero =>
    obtain rfl : k = toRead := hd.symm
    exact .last (by simp [RxPc.access])
  | succ d ih =>
    have hlt : k < toRead := by omega
    refine .quiet ?_ (ih (k := k + 1) (by omega) (by omega))
    simp [RxPc.access, hlt, List.range_succ]

/-! ### Calls -/

theorem chunkSizes_add {pos first second : Nat} (h : chunkSizes C pos n = some (first, second)) :
    first + second = n := by
  unfold chunkSizes checkedSub at h
  split at h
  · simp only [Option.bind_eq_bind, Option.bind_some] at h
    split at h
    · cases h
      omega
    · cases h
  · cases h

/-- A write leaves the flag, the counter and the reader's position alone, and everything when it fails. -/
theorem writeData_frame {r : Except ErrorKind Nat} (h : m.writeData C data = some (r, m')) :
    m'.closed = m.closed ∧ m'.readPos = m.readPos ∧ m'.txCount = m.txCount ∧ ∀ e, r = .error e → m' = m := by
  unfold Memory.writeData at h
  split at h
  · cases h
    exact ⟨rfl, rfl, rfl, fun _ _ => rfl⟩
  split at h
  · cases h
    exact ⟨rfl, rfl, rfl, fun _ _ => rfl⟩
  obtain ⟨free, -, h⟩ := Option.bind_eq_some_iff.mp h
  split at h
  · cases h
    exact ⟨rfl, rfl, rfl, fun _ _ => rfl⟩
  obtain ⟨⟨first, second⟩, -, h⟩ := Option.bind_eq_some_iff.mp h
  cases h
  exact ⟨rfl, rfl, rfl, fun e he => by cases he⟩

/-- A read moves the reader's position, if anything. -/
theorem tryRead_frame {r : Option Bytes} (h : m.tryRead C n = some (r, m')) :
    m'.closed = m.closed ∧ m'.writePos = m.writePos ∧ m'.txCount = m.txCount := by
  obtain ⟨available, -, h⟩ := Option.bind_eq_some_iff.mp h
  split at h
  · cases h
    exact ⟨rfl, rfl, rfl⟩
  obtain ⟨⟨first, second⟩, -, h⟩ := Option.bind_eq_some_iff.mp h
  cases h
  exact ⟨rfl, rfl, rfl⟩

theorem Memory.writeData_closed (hc : m.isClosed) : m.writeData C data = some (.error .brokenPipe, m) := by
  simp [Memory.writeData, hc]

/-- Only a closed pipe fails a write with a broken pipe. -/
theorem Memory.isClosed_of_brokenPipe (h : m.writeData C data = some (.error .brokenPipe, m')) : m.isClosed := by
  by_contra hc
  rw [Memory.writeData, if_neg hc] at h
  split at h
  · cases h
  obtain ⟨free, -, h⟩ := Option.bind_eq_some_iff.mp h
  split at h
  · cases h
  obtain ⟨⟨first, second⟩, -, h⟩ := Option.bind_eq_some_iff.mp h
  cases h

theorem Memory.tryRead_empty (h : m.dataAvailable C = some 0) :
    m.tryRead C n = some (if m.isClosed then some [] else none, m) := by
  simp [Memory.tryRead, h]

/-- Only a closed pipe tells a reader with a buffer that the stream has ended. -/
theorem Memory.isClosed_of_eof (hn : 0 < n) (h : m.tryRead C n = some (some [], m')) : m.isClosed := by
  obtain ⟨available, -, h⟩ := Option.bind_eq_some_iff.mp h
  split at h
  · by_contra hc
    rw [if_neg hc] at h
    cases h
  obtain ⟨⟨first, second⟩, hchunks, h⟩ := Option.bind_eq_some_iff.mp h
  simp only [Option.some.injEq, Prod.mk.injEq] at h
  have hlen := congrArg List.length h.1
  have hadd := chunkSizes_add hchunks
  simp only [Memory.getIndices, List.length_append, List.length_map, List.length_range, List.length_nil] at hlen
  omega

/-- `write_data` is the run of its accesses. -/
theorem writeData_run {r : Except ErrorKind Nat} (h : m.writeData C data = some (r, m')) :
    ∃ p, TxRun C m (.loadClosed data) m' (.returned (.wrote r)) p ∧ p.flatten = acceptedBy data r := by
  unfold Memory.writeData at h
  split at h
  · rename_i hc
    have hc : m.closed ≠ 0 := by simpa [Memory.isClosed] using hc
    cases h
    exact ⟨[], .last (by simp [TxPc.access, hc]), rfl⟩
  rename_i hc
  have hopen : m.closed = 0 := by simpa [Memory.isClosed] using hc
  split at h
  · rename_i hd
    obtain rfl : data = [] := by simpa using hd
    cases h
    exact ⟨[], .last (by simp [TxPc.access, hopen]), rfl⟩
  rename_i hd
  have hne : data ≠ [] := by simpa using hd
  obtain ⟨free, hfree, h⟩ := Option.bind_eq_some_iff.mp h
  have hfree : freeSpace C m.writePos m.readPos = some free := hfree
  -- The accesses up to the check of the free space.
  have hopened : TxPc.access C m (.loadClosed data) = some (m, .loadWritePos data, []) := by
    simp [TxPc.access, hopen, hne]
  have hcheck : ∀ {m' pc p}, TxRun C m (.loadReadPos data m.writePos) m' pc p → TxRun C m (.loadClosed data) m' pc p :=
    fun hr => .quiet hopened (.quiet rfl hr)
  split at h
  · subst free
    cases h
    exact ⟨[], hcheck (.last (by simp [TxPc.access, hfree])), rfl⟩
  rename_i hpos
  obtain ⟨⟨first, second⟩, hchunks, h⟩ := Option.bind_eq_some_iff.mp h
  cases h
  have hroom : TxPc.access C m (.loadReadPos data m.writePos) =
      some (m, .reloadWritePos data (min data.length free), []) := by
    simp [TxPc.access, hfree, hpos]
  have hreload : TxPc.access C m (.reloadWritePos data (min data.length free)) =
      some (m, .copy (data.take (min data.length free)) m.writePos first 0, []) := by
    simp [TxPc.access, hchunks]
  have hlen : (data.take (min data.length free)).length = min data.length free := by simp
  have hcopy := TxRun.copy (C := C) m m.data (data.take (min data.length free)) m.writePos first (Nat.zero_le _)
  rw [hlen, copied_take (Nat.le_refl _)] at hcopy
  rw [setIndices_chunks, chunkSizes_add hchunks]
  exact ⟨[data.take (min data.length free)], hcheck (.quiet hroom (.quiet hreload hcopy)), by simp [acceptedBy]⟩

/-- `try_read` is the run of its accesses. -/
theorem tryRead_run {r : Option Bytes} (h : m.tryRead C n = some (r, m')) :
    ∃ p, RxRun C m (RxCall.start (.tryRead n)) m' (.returned (.read r)) p ∧ p.flatten = r.getD [] := by
  obtain ⟨available, havail, h⟩ := Option.bind_eq_some_iff.mp h
  have havail : dataAvailable C m.writePos m.readPos = some available := havail
  have hcheck : ∀ {m' pc p}, RxRun C m (.loadReadPos (.tryRead n) 1 m.writePos) m' pc p →
      RxRun C m (RxCall.start (.tryRead n)) m' pc p := fun hr => .quiet rfl hr
  split at h
  · subst available
    cases h
    have hempty : RxPc.access C m (.loadReadPos (.tryRead n) 1 m.writePos) =
        some (m, .loadClosed (.tryRead n) 1, []) := by
      simp [RxPc.access, havail]
    refine ⟨[], hcheck (.quiet hempty (.last ?_)), ?_⟩
    · by_cases hc : m.closed = 0 <;> simp [RxPc.access, RxCall.atEof, RxCall.stillOpen, Memory.isClosed, hc]
    · split <;> rfl
  rename_i hpos
  obtain ⟨⟨first, second⟩, hchunks, h⟩ := Option.bind_eq_some_iff.mp h
  cases h
  have hsome : RxPc.access C m (.loadReadPos (.tryRead n) 1 m.writePos) =
      some (m, .reloadReadPos (min n available), []) := by
    simp [RxPc.access, havail, hpos, RxCall.someAvailable]
  have hreload : RxPc.access C m (.reloadReadPos (min n available)) =
      some (m, .copy (min n available) m.readPos first [], []) := by
    simp [RxPc.access, hchunks]
  have hcopy := RxRun.copy (C := C) m (min n available) m.readPos first (Nat.zero_le _)
  rw [getIndices_chunks, chunkSizes_add hchunks]
  exact ⟨_, hcheck (.quiet hsome (.quiet hreload hcopy)), by simp⟩

end Pipe
end WasmerJs
