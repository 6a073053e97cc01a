import WasmerJs.Pipe.Memory

/-! The pipes between a process and JavaScript. `Pipe` of `virtual_fs` is not part of the repository: its operations
    are parameters, known by what they do to the bytes in the pipe. -/

namespace WasmerJs
namespace Stream

/-- One direction of the two ends that `Pipe::channel` returns, in the states `π`. Whatever a call waits for, the pipe
    may note; `none` is a call that is pending. -/
structure VirtualPipe (π : Type) where
  channel : π
  -- `poll_write`: the number of bytes taken.
  write : π → Bytes → Option (Except Unit Nat) × π
  -- `poll_read` into a buffer with room for some bytes.
  read : π → Nat → Option (Except Unit Bytes) × π
  -- `poll_flush`
  flush : π → Option (Except Unit Unit) × π
  -- `close` of the end that is written to, and of the end that is read.
  close : π → π
  closeReader : π → π

/-- The bytes that a write has taken of its data. -/
def acceptedBy (data : Bytes) : Option (Except Unit Nat) → Bytes
  | some (.ok n) => data.take n
  | some (.error _) | none => []

variable {π : Type}

/-- A pipe hands out its bytes in the order in which it took them, takes no more once it is closed, and says that it
    has ended when it is closed and empty. Nothing is known of what the reader's `close` does to it. -/
structure VirtualPipe.Lawful (P : VirtualPipe π) (contents : π → Bytes) (closed : π → Bool) : Prop where
  channel : contents P.channel = [] ∧ closed P.channel = false
  write (p : π) (data : Bytes) :
    contents (P.write p data).2 = contents p ++ acceptedBy data (P.write p data).1 ∧
      closed (P.write p data).2 = closed p
  refuse (p : π) (data : Bytes) : closed p → acceptedBy data (P.write p data).1 = []
  read (p : π) (n : Nat) {d : Bytes} : (P.read p n).1 = some (.ok d) →
    d.length ≤ n ∧ contents p = d ++ contents (P.read p n).2
  keep (p : π) (n : Nat) : (∀ d, (P.read p n).1 ≠ some (.ok d)) → contents (P.read p n).2 = contents p
  stays (p : π) (n : Nat) : closed (P.read p n).2 = closed p
  eof (p : π) {n : Nat} : 0 < n → (P.read p n).1 = some (.ok []) → contents p = [] ∧ closed p
  flush (p : π) : contents (P.flush p).2 = contents p ∧ closed (P.flush p).2 = closed p
  close (p : π) : contents (P.close p) = contents p ∧ closed (P.close p)

/-- A closed pipe keeps no reader waiting. -/
def VirtualPipe.Prompt (P : VirtualPipe π) (closed : π → Bool) : Prop :=
  ∀ p n, 0 < n → closed p → ∃ d, (P.read p n).1 = some (.ok d)

/-- A queue of bytes that may be closed. -/
def queuePipe : VirtualPipe (Bytes × Bool) where
  channel := ([], false)
  write p data := if p.2 then (some (.error ()), p) else (some (.ok data.length), (p.1 ++ data, false))
  read p n :=
    if p.1 = [] then (if p.2 then some (.ok []) else none, p) else (some (.ok (p.1.take n)), (p.1.drop n, p.2))
  flush p := (some (.ok ()), p)
  close p := (p.1, true)
  closeReader _ := ([], true)

theorem queuePipe_lawful : queuePipe.Lawful Prod.fst Prod.snd where
  channel := ⟨rfl, rfl⟩
  write p data := by
    cases hc : p.2 <;> simp [queuePipe, hc, acceptedBy]
  refuse p data hc := by simp [queuePipe, hc, acceptedBy]
  read p n d h := by
    by_cases hp : p.1 = []
    · cases hc : p.2 with
      | true =>
        have hd : [] = d := by simpa [queuePipe, hp, hc] using h
        simp [queuePipe, hp, ← hd]
      | false => simp [queuePipe, hp, hc] at h
    · obtain rfl : p.1.take n = d := by simpa [queuePipe, hp] using h
      simp [queuePipe, hp]
  keep p n h := by
    by_cases hp : p.1 = []
    · simp [queuePipe, hp]
    · simp [queuePipe, hp] at h
  stays p n := by
    by_cases hp : p.1 = [] <;> simp [queuePipe, hp]
  eof p n hn h := by
    by_cases hp : p.1 = []
    · cases hc : p.2 <;> simp [queuePipe, hp, hc] at h ⊢
    · simp [queuePipe, hp] at h
      omega
  flush p := ⟨rfl, rfl⟩
  close p := ⟨rfl, rfl⟩

theorem queuePipe_prompt : queuePipe.Prompt Prod.snd := by
  intro p n _ hc
  by_cases hp : p.1 = [] <;> simp [queuePipe, hp, hc]

end Stream
end WasmerJs
