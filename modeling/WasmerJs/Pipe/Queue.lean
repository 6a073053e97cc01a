import WasmerJs.Lib.Calls
import WasmerJs.Pipe.Calls
import WasmerJs.Pipe.Single

/-! What a pipe is for: a queue of bytes that takes a bounded number of them, hands them out in the order in which it
    got them, and tells its reader when there are no more to come. Taken one call at a time, the ring buffer is one,
    with a slot less than the buffer has. -/

namespace WasmerJs
namespace Pipe

/-- The bytes that wait for the reader, and whether more may come. -/
structure Queue where
  bytes : Bytes
  closed : Bool

/-- A call on an end of a pipe. Both ends have a `close`, which does the same. -/
inductive Call where
  | writeData (data : Bytes)
  | tryRead (len : Nat)
  | close
  deriving DecidableEq

inductive CallResult where
  | wrote (r : Except ErrorKind Nat)
  | read (r : Option Bytes)
  | closed
  deriving DecidableEq

namespace Queue

def empty : Queue := { bytes := [], closed := false }

/-- As much of the data as there is room for is taken; a queue that is full or closed refuses. -/
def write (capacity : Nat) (q : Queue) (data : Bytes) : Except ErrorKind Nat × Queue :=
  if q.closed then (.error .brokenPipe, q)
  else if data = [] then (.ok 0, q)
  else if q.bytes.length = capacity then (.error .wouldBlock, q)
  else
    let n := min data.length (capacity - q.bytes.length)
    (.ok n, { q with bytes := q.bytes ++ data.take n })

/-- The oldest bytes are taken out; an empty queue says whether it has ended. -/
def read (q : Queue) (len : Nat) : Option Bytes × Queue :=
  if q.bytes = [] then (if q.closed then some [] else none, q)
  else (some (q.bytes.take len), { q with bytes := q.bytes.drop len })

def call (capacity : Nat) (q : Queue) : Call → CallResult × Queue
  | .writeData data =>
    let (r, q) := q.write capacity data
    (.wrote r, q)
  | .tryRead len =>
    let (r, q) := q.read len
    (.read r, q)
  | .close => (.closed, { q with closed := true })

end Queue

def Memory.call (C : Nat) (m : Memory) : Call → Option (CallResult × Memory)
  | .writeData data => (m.writeData C data).map fun (r, m) => (.wrote r, m)
  | .tryRead len => (m.tryRead C len).map fun (r, m) => (.read r, m)
  | .close => some (.closed, m.close)

/-- The queue is what lies between the positions. -/
structure Represents (C : Nat) (m : Memory) (q : Queue) : Prop where
  writePos_lt : m.writePos < C
  readPos_lt : m.readPos < C
  bytes : q.bytes = m.buffered C
  closed : q.closed = m.isClosed

variable {C : Nat} {m m' : Memory} {q : Queue} {data : Bytes} {n : Nat}

/-! ### What a call does to the bytes in the buffer -/

/-- A write puts the bytes that it takes behind those that are there. -/
theorem writeData_buffered {r : Except ErrorKind Nat} (hw : m.writePos < C) (hr : m.readPos < C)
    (h : m.writeData C data = some (r, m')) :
    m'.writePos < C ∧ m'.buffered C = m.buffered C ++ acceptedBy data r := by
  obtain ⟨p, hrun, hp⟩ := writeData_run h
  let s : State Unit :=
    { mem := m, tx := fun _ => .loadClosed data, rx := .returned (.read none), accepted := [m.buffered C]
      returned := [] }
  have hs : Solo C s := ⟨⟨⟨hw, hr, by simp [s]⟩, fun _ => trivial, trivial, fun _ _ h => absurd h id⟩, trivial⟩
  have ht := (hrun.reach (s := s) (i := ()) rfl rfl).invariant (I := Solo C) hs fun h _ hs => h.step hs
  have hstream := ht.inv.stored.stream
  simp only [s, List.flatten_append, List.flatten_singleton, List.flatten_nil, List.nil_append, hp] at hstream
  exact ⟨ht.inv.stored.writePos_lt, hstream.symm⟩

/-- A read takes what it returns from the front. -/
theorem tryRead_buffered {r : Option Bytes} (hw : m.writePos < C) (hr : m.readPos < C)
    (h : m.tryRead C n = some (r, m')) : m'.readPos < C ∧ m.buffered C = r.getD [] ++ m'.buffered C := by
  obtain ⟨p, hrun, hp⟩ := tryRead_run h
  let s : State Unit :=
    { mem := m, tx := fun _ => .returned .created, rx := RxCall.start (.tryRead n), accepted := [m.buffered C],
      returned := [] }
  have hs : Solo C s := ⟨⟨⟨hw, hr, by simp [s]⟩, fun _ => trivial, trivial, fun _ _ h => absurd h id⟩, trivial⟩
  have ht := (hrun.reach (s := s) rfl rfl).invariant (I := Solo C) hs fun h _ hs => h.step hs
  have hstream := ht.inv.stored.stream
  simp only [s, List.flatten_singleton, List.nil_append, hp] at hstream
  exact ⟨ht.inv.stored.readPos_lt, hstream⟩

namespace Represents

theorem init (hC : 1 ≤ C) (bytes : Nat → UInt8) : Represents C (.withCapacity bytes) .empty where
  writePos_lt := hC
  readPos_lt := hC
  bytes := by simp [Queue.empty, Memory.buffered, Memory.occupied, Memory.withCapacity]
  closed := rfl

theorem length_eq (h : Represents C m q) : q.bytes.length = m.occupied C := by
  rw [h.bytes, Memory.buffered, Ring.contents_length]

theorem freeSpace (h : Represents C m q) : m.freeSpace C = some (C - 1 - q.bytes.length) := by
  rw [h.length_eq]
  exact freeSpace_eq h.writePos_lt h.readPos_lt

theorem dataAvailable (h : Represents C m q) : m.dataAvailable C = some q.bytes.length := by
  rw [h.length_eq]
  exact dataAvailable_eq h.readPos_lt

theorem length_lt (h : Represents C m q) : q.bytes.length < C := by
  rw [h.length_eq]
  exact Ring.dist_lt h.readPos_lt h.writePos_lt

theorem writeData (h : Represents C m q) (data : Bytes) :
    ∃ m', m.writeData C data = some ((q.write (C - 1) data).1, m') ∧ Represents C m' (q.write (C - 1) data).2 := by
  have hlt := h.length_lt
  obtain ⟨m', hm'⟩ : ∃ m', m.writeData C data = some ((q.write (C - 1) data).1, m') := by
    unfold Memory.writeData Queue.write
    rw [h.closed, h.freeSpace]
    by_cases hc : m.isClosed
    · exact ⟨m, by simp [hc]⟩
    by_cases hd : data = []
    · exact ⟨m, by simp [hc, hd]⟩
    by_cases hf : q.bytes.length = C - 1
    · exact ⟨m, by simp [hc, hd, hf]⟩
    · have hpos : C - 1 - q.bytes.length ≠ 0 := by omega
      simp [hc, hd, hf, hpos, chunkSizes_eq h.writePos_lt]
  obtain ⟨hw, hbytes⟩ := writeData_buffered h.writePos_lt h.readPos_lt hm'
  obtain ⟨hcl, hrp, -, -⟩ := writeData_frame hm'
  refine ⟨m', hm', hw, hrp ▸ h.readPos_lt, ?_, ?_⟩
  · rw [hbytes, ← h.bytes]
    unfold Queue.write
    split
    · simp [acceptedBy]
    split
    · simp [acceptedBy]
    split <;> simp [acceptedBy]
  · rw [Memory.isClosed, hcl]
    unfold Queue.write
    split
    · exact h.closed
    split
    · exact h.closed
    split <;> exact h.closed

theorem tryRead (h : Represents C m q) (len : Nat) :
    ∃ m', m.tryRead C len = some ((q.read len).1, m') ∧ Represents C m' (q.read len).2 := by
  have havail := h.dataAvailable
  by_cases hnil : q.bytes = []
  · rw [hnil, List.length_nil] at havail
    refine ⟨m, ?_, ?_⟩
    · simp [Memory.tryRead, havail, Queue.read, hnil, h.closed]
    · simpa [Queue.read, hnil] using h
  · have hpos : q.bytes.length ≠ 0 := by simpa using hnil
    obtain ⟨buf, m', hm', hlen⟩ : ∃ buf m', m.tryRead C len = some (some buf, m') ∧
        buf.length = min len q.bytes.length := by
      simp only [Memory.tryRead, havail, Option.bind_eq_bind, Option.bind_some, if_neg hpos,
        chunkSizes_eq h.readPos_lt]
      refine ⟨_, _, rfl, ?_⟩
      simp [Memory.getIndices]
    obtain ⟨hrp, hbytes⟩ := tryRead_buffered h.writePos_lt h.readPos_lt hm'
    obtain ⟨hcl, hwp, -⟩ := tryRead_frame hm'
    rw [← h.bytes, Option.getD_some] at hbytes
    have htake : q.bytes.take len = buf := by
      rw [List.take_eq_take_min, ← hlen, hbytes, List.take_left]
    have hdrop : q.bytes.drop len = m'.buffered C := by
      have hsplit := List.take_append_drop len q.bytes
      rw [htake] at hsplit
      exact List.append_cancel_left (hsplit.trans hbytes)
    refine ⟨m', ?_, ?_⟩
    · simp [hm', Queue.read, hnil, htake]
    · simp only [Queue.read, if_neg hnil]
      exact ⟨hwp ▸ h.writePos_lt, hrp, hdrop, by rw [Memory.isClosed, hcl]; exact h.closed⟩

end Represents

/-- A pipe implements the queue that it stands for. -/
theorem implements_queue : Calls.Implements (Memory.call C) (Queue.call (C - 1)) (Represents C) := by
  intro m q h k
  cases k with
  | writeData data =>
    obtain ⟨m', hm', h'⟩ := h.writeData data
    exact ⟨m', by simp [Memory.call, Queue.call, hm'], h'⟩
  | tryRead len =>
    obtain ⟨m', hm', h'⟩ := h.tryRead len
    exact ⟨m', by simp [Memory.call, Queue.call, hm'], h'⟩
  | close => exact ⟨m.close, rfl, h.writePos_lt, h.readPos_lt, h.bytes, rfl⟩

/-! ### Runs -/

/-- Whatever calls are made on a new pipe, one after the other, their results are those of a queue that takes one byte
    less than the buffer has, and the free space and the bytes in the buffer are always that many together. -/
theorem bounded_fifo (hC : 1 ≤ C) (bytes : Nat → UInt8) (ks : List Call) :
    ∃ m free available,
      Calls.results (Memory.call C) (.withCapacity bytes) ks =
        some ((Calls.specified (Queue.call (C - 1)) .empty ks).1, m) ∧
      m.freeSpace C = some free ∧ m.dataAvailable C = some available ∧ free + available = C - 1 := by
  obtain ⟨m, hm, h⟩ := implements_queue.results (.init hC bytes) ks
  have hlt := h.length_lt
  exact ⟨m, _, _, hm, h.freeSpace, h.dataAvailable, by omega⟩

/-- A write and a read that wrap around in a buffer of four bytes, and the end of the stream. -/
theorem bounded_fifo_wrapping :
    ∃ m free available,
      Calls.results (Memory.call 4) (.withCapacity fun _ => 0)
        [.writeData [1, 2], .tryRead 1, .writeData [3, 4, 5], .writeData [6], .tryRead 9, .close, .tryRead 9,
          .writeData []] =
        some ([.wrote (.ok 2), .read (some [1]), .wrote (.ok 2), .wrote (.error .wouldBlock), .read (some [2, 3, 4]),
          .closed, .read (some []), .wrote (.error .brokenPipe)], m) ∧
      m.freeSpace 4 = some free ∧ m.dataAvailable 4 = some available ∧ free + available = 3 :=
  bounded_fifo (by decide) (fun _ => 0) _

end Pipe
end WasmerJs
