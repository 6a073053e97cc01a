import WasmerJs.Lib.Transition
import WasmerJs.Pipe.Memory

/-! The two ends of a `SharedPipe` as threads that run at the same time (`src/pipes/mod.rs`). Each step is one
    access to the shared memory; memory is sequentially consistent, so the steps of the ends interleave in any
    order. A program counter names the next access of a call and carries the locals that the rest of the call
    reads. -/

namespace WasmerJs
namespace Pipe

/-! ### The transmit end -/

/-- What the owner of a `SharedPipeTx` does with it. -/
inductive TxCall where
  | writeData (data : Bytes)
  | close
  | drop
  | fromPoolOffset
  deriving DecidableEq

/-- How a call on a `SharedPipeTx` ended. After `dropped` there is no handle until `fromPoolOffset`. -/
inductive TxResult where
  | wrote (r : Except ErrorKind Nat)
  | closed
  | dropped
  | created
  deriving DecidableEq

/-- The next access of a transmit end. -/
inductive TxPc where
  | returned (r : TxResult)
  -- `write_data`: `is_closed`.
  | loadClosed (data : Bytes)
  -- `free_space`: the two positions.
  | loadWritePos (data : Bytes)
  | loadReadPos (data : Bytes) (writePos : Nat)
  -- `write_data` loads the position again; its copy starts there.
  | reloadWritePos (data : Bytes) (toWrite : Nat)
  -- Byte `i` of the copy; after the last byte the store that publishes the new position.
  | copy (chunk : Bytes) (writePos first i : Nat)
  | notifyReaders (written : Nat)
  -- `close`.
  | storeClosed (r : TxResult)
  | notifyClosed (r : TxResult)
  -- `drop` and `from_pool_offset` count the transmit ends.
  | subTxCount
  | addTxCount
  -- A `usize` subtraction underflowed.
  | overflow
  deriving DecidableEq

/-- The call has read the position that its copy starts from, and has not published the new position yet. -/
def TxPc.Copying : TxPc → Prop
  | .copy .. => True
  | _ => False

/-- The next access is the load of the position that the copy starts from. -/
def TxPc.reloading : TxPc → Bool
  | .reloadWritePos .. => true
  | _ => false

def TxCall.start : TxCall → TxPc
  | .writeData data => .loadClosed data
  | .close => .storeClosed .closed
  | .drop => .subTxCount
  | .fromPoolOffset => .addTxCount

/-- A dropped handle can only be made anew, and only a dropped one. -/
def TxCall.allowed : TxCall → TxResult → Bool
  | .fromPoolOffset, r => r == .dropped
  | _, r => r != .dropped

/-! ### The receive end -/

/-- The entry points through which a reader takes bytes or learns that some are there; `len` is the length
    of the buffer it passes. -/
inductive RxCall where
  | tryRead (len : Nat)
  | readBlocking (len : Nat)
  | pollRead (len : Nat)
  | pollReadReady
  deriving DecidableEq

/-- How a call on a `SharedPipeRx` ended: the bytes it returned, `none` for "would block" and "pending", or
    the number of bytes that are ready. -/
inductive RxResult where
  | read (r : Option Bytes)
  | ready (r : Option Nat)
  deriving DecidableEq

/-- The reader is told that the stream has ended: zero bytes for a buffer that has room. -/
def RxResult.eof : RxResult → Bool
  | .read (some buf) => buf.isEmpty
  | .ready (some n) => n == 0
  | _ => false

/-- The next access of a receive end; `left` counts the iterations that a polling loop may still make. -/
inductive RxPc where
  | returned (r : RxResult)
  -- `data_available`: the two positions.
  | loadWritePos (c : RxCall) (left : Nat)
  | loadReadPos (c : RxCall) (left writePos : Nat)
  -- Nothing was available: `is_closed`.
  | loadClosed (c : RxCall) (left : Nat)
  -- `try_read` loads the position again; its copy starts there.
  | reloadReadPos (toRead : Nat)
  -- The next byte of the copy; after the last byte the store that publishes the new position.
  | copy (toRead readPos first : Nat) (buf : Bytes)
  -- `read_blocking` and `poll_read` ask `is_closed` again after `try_read` returned `None`.
  | recheckClosed (c : RxCall) (left : Nat)
  | loadNotify (c : RxCall) (left : Nat)
  | wait (c : RxCall) (left current : Nat)
  | overflow
  deriving DecidableEq

/-- The number of waits that the polling functions make before they give up. -/
def maxWaitIterations : Nat := 200

def RxCall.start : RxCall → RxPc
  | .tryRead len => .loadWritePos (.tryRead len) 1
  | .readBlocking len => .loadWritePos (.readBlocking len) 1
  | .pollRead len => .loadWritePos (.pollRead len) maxWaitIterations
  | .pollReadReady => .loadWritePos .pollReadReady maxWaitIterations

/-- The check of the two positions found `available > 0` bytes. -/
def RxCall.someAvailable (available : Nat) : RxCall → RxPc
  | .tryRead len | .readBlocking len | .pollRead len => .reloadReadPos (min len available)
  | .pollReadReady => .returned (.ready (some available))

/-- Nothing was available and the pipe is closed. -/
def RxCall.atEof : RxCall → RxResult
  | .tryRead _ | .readBlocking _ | .pollRead _ => .read (some [])
  | .pollReadReady => .ready (some 0)

/-- Nothing was available and the first check of the closed flag found it clear. -/
def RxCall.stillOpen (left : Nat) : RxCall → RxPc
  | .tryRead _ => .returned (.read none)
  | .readBlocking len => .recheckClosed (.readBlocking len) left
  | .pollRead len => .recheckClosed (.pollRead len) left
  | .pollReadReady => .loadNotify .pollReadReady left

/-- The wait is over: `read_blocking` loops for ever, the polling functions while iterations are left. -/
def RxCall.again (left : Nat) : RxCall → RxPc
  | .tryRead len => .loadWritePos (.tryRead len) left
  | .readBlocking len => .loadWritePos (.readBlocking len) left
  | .pollRead len => if left ≤ 1 then .returned (.read none) else .loadWritePos (.pollRead len) (left - 1)
  | .pollReadReady => if left ≤ 1 then .returned (.ready none) else .loadWritePos .pollReadReady (left - 1)

/-- One access by a transmit end: the memory and the program counter after it, and the chunks it publishes. -/
def TxPc.access (C : Nat) (m : Memory) : TxPc → Option (Memory × TxPc × List Bytes)
  | .returned _ | .overflow => none
  | .loadClosed data =>
    if m.closed ≠ 0 then some (m, .returned (.wrote (.error .brokenPipe)), [])
    else if data = [] then some (m, .returned (.wrote (.ok 0)), [])
    else some (m, .loadWritePos data, [])
  | .loadWritePos data => some (m, .loadReadPos data m.writePos, [])
  | .loadReadPos data writePos =>
    match freeSpace C writePos m.readPos with
    | none => some (m, .overflow, [])
    | some free =>
      if free = 0 then some (m, .returned (.wrote (.error .wouldBlock)), [])
      else some (m, .reloadWritePos data (min data.length free), [])
  | .reloadWritePos data toWrite =>
    match chunkSizes C m.writePos toWrite with
    | none => some (m, .overflow, [])
    | some (first, _) => some (m, .copy (data.take toWrite) m.writePos first 0, [])
  | .copy chunk writePos first k =>
    match chunk[k]? with
    | some b =>
      let data := Function.update m.data (chunkIndex writePos first k) b
      some ({ m with data }, .copy chunk writePos first (k + 1), [])
    | none =>
      let writePos := (writePos + chunk.length) % C
      some ({ m with writePos }, .notifyReaders chunk.length, [chunk])
  | .notifyReaders written => some (m, .returned (.wrote (.ok written)), [])
  | .storeClosed r => some ({ m with closed := 1 }, .notifyClosed r, [])
  | .notifyClosed r => some (m, .returned r, [])
  | .subTxCount =>
    -- Only the last transmit end closes the pipe.
    some ({ m with txCount := m.txCount - 1 },
      if m.txCount = 1 then .storeClosed .dropped else .returned .dropped, [])
  | .addTxCount => some ({ m with txCount := m.txCount + 1 }, .returned .created, [])

/-- One access by the receive end: the memory and the program counter after it, and the reads it publishes. -/
def RxPc.access (C : Nat) (m : Memory) : RxPc → Option (Memory × RxPc × List Bytes)
  | .returned _ | .overflow => none
  | .loadWritePos c left => some (m, .loadReadPos c left m.writePos, [])
  | .loadReadPos c left writePos =>
    match dataAvailable C writePos m.readPos with
    | none => some (m, .overflow, [])
    | some available =>
      if available = 0 then some (m, .loadClosed c left, []) else some (m, c.someAvailable available, [])
  | .loadClosed c left =>
    if m.closed ≠ 0 then some (m, .returned c.atEof, []) else some (m, c.stillOpen left, [])
  | .reloadReadPos toRead =>
    match chunkSizes C m.readPos toRead with
    | none => some (m, .overflow, [])
    | some (first, _) => some (m, .copy toRead m.readPos first [], [])
  | .copy toRead readPos first buf =>
    if buf.length < toRead then
      some (m, .copy toRead readPos first (buf ++ [m.data (chunkIndex readPos first buf.length)]), [])
    else
      let readPos := (readPos + toRead) % C
      some ({ m with readPos }, .returned (.read (some buf)), [buf])
  | .recheckClosed c left =>
    if m.closed ≠ 0 then some (m, .returned c.atEof, []) else some (m, .loadNotify c left, [])
  | .loadNotify c left => some (m, .wait c left m.notify, [])
  | .wait c left _ => some (m, c.again left, [])

/-! ### The system -/

/-- A pipe with its transmit ends `ι` and one receive end. `accepted` and `returned` record what each write
    accepted and what each read returned, in the order in which they published their positions. -/
structure State (ι : Type) where
  mem : Memory
  tx : ι → TxPc
  rx : RxPc
  accepted : List Bytes
  returned : List Bytes

inductive Event (ι : Type) where
  | txCall (i : ι) (c : TxCall)
  | txStep (i : ι)
  | rxCall (c : RxCall)
  | rxStep
  deriving DecidableEq

/-- A call by a transmit end and its first `n` accesses. -/
def Event.tx {ι : Type} (i : ι) (c : TxCall) (n : Nat) : List (Event ι) := .txCall i c :: .replicate n (.txStep i)

/-- A call by the receive end and its first `n` accesses. -/
def Event.rx {ι : Type} (c : RxCall) (n : Nat) : List (Event ι) := .rxCall c :: .replicate n .rxStep

variable {ι : Type} [DecidableEq ι]

def step (C : Nat) (s : State ι) : Event ι → Option (State ι)
  | .txCall i c =>
    match s.tx i with
    | .returned r => if c.allowed r then some { s with tx := Function.update s.tx i c.start } else none
    | _ => none
  | .txStep i =>
    ((s.tx i).access C s.mem).map fun (mem, pc, published) =>
      { s with mem, tx := Function.update s.tx i pc, accepted := s.accepted ++ published }
  | .rxCall c =>
    match s.rx with
    | .returned _ => some { s with rx := c.start }
    | _ => none
  | .rxStep =>
    (s.rx.access C s.mem).map fun (mem, rx, published) =>
      { s with mem, rx, returned := s.returned ++ published }

/-- A new pipe: handle `i₀` holds its transmit end, and there are no other handles yet. -/
def State.init (i₀ : ι) (data : Nat → UInt8) : State ι :=
  { mem := .withCapacity data
    tx := fun i => .returned (if i = i₀ then .created else .dropped)
    rx := .returned (.read none)
    accepted := []
    returned := [] }

end Pipe
end WasmerJs
