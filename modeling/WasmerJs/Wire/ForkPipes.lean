import WasmerJs.Lib.Numbered
import WasmerJs.Wire.Interop

/-! The pipes of a forked process in a message (`src/tasks/scheduler_message.rs`,
    `src/tasks/post_message_payload.rs`): their number, and four fields for each of them, all in the object of the
    message itself. -/

namespace WasmerJs
namespace Wire

variable {P : Platform}

/-- `(fd, is_tx, pool_offset, buffer_size)` -/
abbrev ForkPipe := BitVec 32 × Bool × BitVec 32 × BitVec 32

/-- As many tuples of 16 bytes as `isize::MAX` bytes hold. -/
def MAX_FORK_PIPES : Nat := (2 ^ 31 - 1) / 16

structure ForkPipeBuffers where
  buffers : List ForkPipe
  -- They are in a `Vec`.
  fits : buffers.length ≤ MAX_FORK_PIPES
  allFdsDebug : String
  deriving DecidableEq

def ForkPipeBuffers.forgetDebug (pipes : ForkPipeBuffers) : ForkPipeBuffers := { pipes with allFdsDebug := "" }

inductive PipeField where
  | fd
  | isTx
  | offset
  | size

def PipeField.all : List PipeField := [fd, isTx, offset, size]

/-- The constants for the keys of the pipes; each of the two codecs has its own. -/
structure ForkPipeKeys where
  count : String
  stem : PipeField → String
  count_trailing : Numbered.trailing count = []
  stem_trailing : ∀ f, Numbered.trailing (stem f) = []
  stem_injective : Function.Injective stem

namespace ForkPipeKeys

/-- The key of a field of pipe `i`. -/
def slot (keys : ForkPipeKeys) (f : PipeField) (i : Nat) : String := Numbered.key (keys.stem f) i

variable (keys : ForkPipeKeys)

end ForkPipeKeys

/-! ### Writing -/

section Read

variable (b : Bindings P) (keys : ForkPipeKeys) (de : Deserializer P)

def readPipe (i : Nat) : Except Failure ForkPipe := do
  let fd ← de.serde (keys.slot .fd i) b.fromValueU32
  let isTx ← de.serde (keys.slot .isTx i) b.fromValueBool
  let poolOffset ← de.serde (keys.slot .offset i) b.fromValueU32
  let bufferSize ← de.serde (keys.slot .size i) b.fromValueU32
  return (fd, isTx, poolOffset, bufferSize)

/-- The loop over the pipes; `n` are to be read, the first of them has the number `i`. -/
def readPipes (i : Nat) : (n : Nat) → Except Failure { pipes : List ForkPipe // pipes.length = n }
  | 0 => .ok ⟨[], rfl⟩
  | n + 1 => do
    let pipe ← readPipe b keys de i
    let ⟨pipes, hlen⟩ ← readPipes (i + 1) n
    return ⟨pipe :: pipes, congrArg (· + 1) hlen⟩

/-- There are pipes if there is a number of pipes. -/
def readForkPipes : Except Failure (Option ForkPipeBuffers) :=
  match de.serde keys.count b.fromValueU32 with
  | .error _ => .ok none
  | .ok count =>
    if hcount : count.toNat ≤ MAX_FORK_PIPES then do
      let ⟨buffers, hlen⟩ ← readPipes b keys de 0 count.toNat
      return some { buffers, fits := hlen ▸ hcount, allFdsDebug := "" }
    else
      -- `Vec::with_capacity`
      .error (.panic "capacity overflow")

end Read

/-! ### Round trip -/

variable {b : Bindings P} {keys : ForkPipeKeys} {obj : String → JsValue P} {ser : Serializer P} {i : Nat}

end Wire
end WasmerJs
