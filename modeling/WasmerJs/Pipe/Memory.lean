import WasmerJs.Lib.Ring

/-! The shared memory of one `SharedPipe` and the arithmetic that its two ends do on the positions they load
    (`src/pipes/mod.rs`). -/

namespace WasmerJs

/-- A byte string: a `Vec<u8>`, a slice, or the bytes of a typed array. -/
abbrev Bytes := List UInt8

namespace Pipe

/-- The part of the pool that one pipe owns: the header words, as the `usize` that the code makes of them,
    and the ring buffer behind the header. -/
structure Memory where
  writePos : Nat
  readPos : Nat
  closed : Nat
  notify : Nat
  txCount : Nat
  data : Nat → UInt8

/-- The header that `SharedPipe::with_capacity` writes, over whatever bytes the pool holds behind it. -/
def Memory.withCapacity (data : Nat → UInt8) : Memory :=
  { writePos := 0, readPos := 0, closed := 0, notify := 0, txCount := 1, data }

/-- The kinds of `io::Error` that a write fails with. -/
inductive ErrorKind where
  | brokenPipe
  | wouldBlock
  deriving DecidableEq, Repr

def ErrorKind.message : ErrorKind → String
  | .brokenPipe => "Pipe is closed"
  | .wouldBlock => "Pipe buffer is full"

/-- Subtraction of two `usize`; there is no result when it would underflow. -/
def checkedSub (a b : Nat) : Option Nat := if b ≤ a then some (a - b) else none

/-- `SharedPipeTx::free_space`, from the positions it loads. -/
def freeSpace (capacity writePos readPos : Nat) : Option Nat :=
  if writePos ≥ readPos then do
    let used ← checkedSub writePos readPos
    let rest ← checkedSub capacity used
    checkedSub rest 1
  else do
    let gap ← checkedSub readPos writePos
    checkedSub gap 1

/-- `SharedPipeRx::data_available`, from the positions it loads. -/
def dataAvailable (capacity writePos readPos : Nat) : Option Nat :=
  if writePos ≥ readPos then checkedSub writePos readPos
  else do
    let rest ← checkedSub capacity readPos
    some (rest + writePos)

/-- The sizes of the two chunks that a copy of `n` bytes from position `pos` on is made in: up to the end of
    the buffer, and from its start. -/
def chunkSizes (capacity pos n : Nat) : Option (Nat × Nat) := do
  let rest ← checkedSub capacity pos
  let first := min rest n
  let second ← checkedSub n first
  some (first, second)

/-- The index that byte `i` of the copy goes to: the first chunk starts at `pos`, the second one at 0. -/
def chunkIndex (pos first i : Nat) : Nat := if i < first then pos + i else i - first

/-! ### The arithmetic in terms of the ring -/

/-- The number of bytes between the two positions. -/
def Memory.occupied (C : Nat) (m : Memory) : Nat := Ring.dist C m.readPos m.writePos

variable {C w r n i : Nat}

theorem checkedSub_eq {a b : Nat} (h : b ≤ a) : checkedSub a b = some (a - b) := by simp [checkedSub, h]

theorem freeSpace_eq (hw : w < C) (hr : r < C) : freeSpace C w r = some (C - 1 - Ring.dist C r w) := by
  unfold freeSpace Ring.dist
  split
  · rw [checkedSub_eq (by omega), Option.bind_eq_bind, Option.bind_some, checkedSub_eq (by omega),
      Option.bind_some, checkedSub_eq (by omega)]
    congr 1
    omega
  · rw [checkedSub_eq (by omega), Option.bind_eq_bind, Option.bind_some, checkedSub_eq (by omega)]
    congr 1
    omega

theorem dataAvailable_eq (hr : r < C) : dataAvailable C w r = some (Ring.dist C r w) := by
  unfold dataAvailable Ring.dist
  split
  · rw [checkedSub_eq (by omega)]
  · rw [checkedSub_eq (by omega)]
    rfl

theorem chunkSizes_eq (hw : w < C) : chunkSizes C w n = some (min (C - w) n, n - min (C - w) n) := by
  unfold chunkSizes
  rw [checkedSub_eq (by omega)]
  simp only [Option.bind_eq_bind, Option.bind_some]
  rw [checkedSub_eq (by omega)]
  rfl

theorem chunkIndex_eq (hw : w < C) (hi : i < n) : chunkIndex w (min (C - w) n) i = Ring.index C w i := by
  unfold chunkIndex Ring.index
  split <;> split <;> omega

end Pipe
end WasmerJs
