import WasmerJs.Pipe.Memory

/-! The copy that a forked process gets of the memory of its parent (`copy_memory`, `src/tasks/task_wasm.rs`). The copy
    is made with the minimum of the type, and then it grows by all the pages of the source. -/

namespace WasmerJs
namespace Task

/-! ### Memories -/

def wasmPageSize : Nat := 65536

/-- The pages that a memory has at most when its type gives no maximum. -/
def maxPages : Nat := 65536

structure MemoryType where
  minimum : Nat
  maximum : Option Nat
  shared : Bool
  deriving DecidableEq

namespace MemoryType

def limit (ty : MemoryType) : Nat := ty.maximum.getD maxPages

/-- What the constructor of a `WebAssembly.Memory` takes as a descriptor. -/
def Valid (ty : MemoryType) : Prop :=
  ty.minimum ≤ ty.limit ∧ ty.limit ≤ maxPages ∧ (ty.shared = true → ty.maximum.isSome = true)

instance (ty : MemoryType) : Decidable ty.Valid := by unfold Valid; infer_instance

end MemoryType

/-- A `WebAssembly.Memory`, with the type that it was created with. -/
structure WebAssemblyMemory where
  ty : MemoryType
  pages : Nat
  buffer : Bytes
  valid : ty.Valid
  minimum_le : ty.minimum ≤ pages
  le_limit : pages ≤ ty.limit
  length_buffer : buffer.length = pages * wasmPageSize

namespace WebAssemblyMemory

def new (descriptor : MemoryType) : Option WebAssemblyMemory :=
  if h : descriptor.Valid then
    some {
      ty := descriptor
      pages := descriptor.minimum
      buffer := List.replicate (descriptor.minimum * wasmPageSize) 0
      valid := h
      minimum_le := le_rfl
      le_limit := h.1
      length_buffer := List.length_replicate }
  else none

/-- A memory that cannot grow any more throws. -/
def grow (memory : WebAssemblyMemory) (delta : Nat) : Option WebAssemblyMemory :=
  if h : memory.pages + delta ≤ memory.ty.limit then
    some {
      ty := memory.ty
      pages := memory.pages + delta
      buffer := memory.buffer ++ List.replicate (delta * wasmPageSize) 0
      valid := memory.valid
      minimum_le := memory.minimum_le.trans (Nat.le_add_right _ _)
      le_limit := h
      length_buffer := by rw [List.length_append, List.length_replicate, memory.length_buffer, Nat.add_mul] }
  else none

/-- `byteLength`, as the `u32` that it is returned as. -/
def byteLength (memory : WebAssemblyMemory) : Nat := memory.buffer.length % 2 ^ 32

def subarray (memory : WebAssemblyMemory) (start stop : Nat) : Bytes := (memory.buffer.take stop).drop start

/-- The memory after a chunk was copied to where it fits. -/
def set (memory : WebAssemblyMemory) (offset : Nat) (chunk : Bytes)
    (h : offset + chunk.length ≤ memory.buffer.length) : WebAssemblyMemory where
  ty := memory.ty
  pages := memory.pages
  buffer := memory.buffer.take offset ++ chunk ++ memory.buffer.drop (offset + chunk.length)
  valid := memory.valid
  minimum_le := memory.minimum_le
  le_limit := memory.le_limit
  length_buffer := by
    rw [← memory.length_buffer, List.length_append, List.length_append, List.length_take, List.length_drop]
    omega

end WebAssemblyMemory

/-! ### The copy -/

/-- How a copy ends that gives no memory. -/
inductive CopyFailure where
  | memoryCreateFailed (message : String)
  -- What `grow` throws is not caught.
  | thrown
  | panic
  deriving DecidableEq

def chunkSize : Nat := 40960

/-- `u32::try_from(..).unwrap()` -/
def toU32 (n : Nat) : Except CopyFailure Nat := if n < 2 ^ 32 then .ok n else .error .panic

/-- A chunk goes through a buffer of the stack. The views that it is copied with must have its length. -/
def copyChunk (src dst : WebAssemblyMemory) (offset sublen : Nat) : Except CopyFailure WebAssemblyMemory := do
  let start ← toU32 offset
  let stop ← toU32 (offset + sublen)
  let chunk := src.subarray start stop
  if chunk.length = sublen ∧ (dst.subarray start stop).length = sublen then
    if h : start + chunk.length ≤ dst.buffer.length then .ok (dst.set start chunk h) else .error .panic
  else .error .panic

def copyLoop (src : WebAssemblyMemory) (srcSize offset : Nat) (dst : WebAssemblyMemory) :
    Except CopyFailure WebAssemblyMemory :=
  if offset < srcSize then do
    let sublen := min (srcSize - offset) chunkSize
    let dst ← copyChunk src dst offset sublen
    copyLoop src srcSize (offset + sublen) dst
  else .ok dst
termination_by srcSize - offset
decreasing_by
  have : 0 < chunkSize := by decide
  omega

/-- A `usize` has 32 bits, and the subtraction wraps. -/
def pagesOfSize (srcSize : Nat) : Nat := (srcSize + 2 ^ 32 - 1) % 2 ^ 32 / wasmPageSize + 1

def copyMemory (memory : WebAssemblyMemory) (ty : MemoryType) : Except CopyFailure WebAssemblyMemory :=
  match WebAssemblyMemory.new ty with
  | none => .error (.memoryCreateFailed "Error while creating the memory")
  | some newMemory =>
    match newMemory.grow (pagesOfSize memory.byteLength) with
    | none => .error .thrown
    | some newMemory => copyLoop memory memory.byteLength 0 newMemory

/-! ### The loop -/

/-- What the loop has done up to an offset: the bytes below are those of the source, all others are kept. -/
structure CopiedTo (src dst : WebAssemblyMemory) (offset : Nat) (copy : WebAssemblyMemory) : Prop where
  pages : copy.pages = dst.pages
  below : copy.buffer.take offset = src.buffer.take offset
  above : copy.buffer.drop offset = dst.buffer.drop offset

theorem CopiedTo.start (src dst : WebAssemblyMemory) : CopiedTo src dst 0 dst where
  pages := rfl
  below := rfl
  above := rfl

theorem CopiedTo.length {src dst copy : WebAssemblyMemory} {offset : Nat} (h : CopiedTo src dst offset copy) :
    copy.buffer.length = dst.buffer.length := by
  rw [copy.length_buffer, dst.length_buffer, h.pages]

theorem length_subarray {memory : WebAssemblyMemory} {start n : Nat} (h : start + n ≤ memory.buffer.length) :
    (memory.subarray start (start + n)).length = n := by
  rw [WebAssemblyMemory.subarray, List.length_drop, List.length_take]
  omega

/-- A chunk that lies within both buffers is copied. -/
theorem copyChunk_ok {src dst copy : WebAssemblyMemory} {offset n : Nat} (hsrc : offset + n ≤ src.buffer.length)
    (hdst : offset + n ≤ dst.buffer.length) (hn : offset + n < 2 ^ 32) (h : CopiedTo src dst offset copy) :
    ∃ copy', copyChunk src copy offset n = .ok copy' ∧ CopiedTo src dst (offset + n) copy' := by
  have hcopy : offset + n ≤ copy.buffer.length := h.length ▸ hdst
  have hlen := length_subarray hsrc
  have hfit : offset + (src.subarray offset (offset + n)).length ≤ copy.buffer.length := by
    rw [hlen]
    exact hcopy
  have hoffset : toU32 offset = .ok offset := if_pos (by omega)
  have hstop : toU32 (offset + n) = .ok (offset + n) := if_pos hn
  refine ⟨copy.set offset (src.subarray offset (offset + n)) hfit, ?_, ?_⟩
  · rw [copyChunk, hoffset, hstop]
    show (if _ then _ else _) = _
    rw [if_pos ⟨hlen, length_subarray hcopy⟩, dif_pos hfit]
  · have htake : (copy.buffer.take offset ++ src.subarray offset (offset + n)).length = offset + n := by
      rw [List.length_append, List.length_take, hlen, Nat.min_eq_left (by omega)]
    refine ⟨h.pages, ?_, ?_⟩
    · show (_ ++ _ ++ _ : Bytes).take _ = _
      have hbelow : src.buffer.take offset = (src.buffer.take (offset + n)).take offset := by
        rw [List.take_take, Nat.min_eq_left (Nat.le_add_right _ _)]
      rw [List.take_left' htake, h.below, hbelow, WebAssemblyMemory.subarray, List.take_append_drop]
    · show (_ ++ _ ++ _ : Bytes).drop _ = _
      rw [List.drop_left' htake, hlen, ← List.drop_drop, h.above, List.drop_drop]

/-- The loop ends, and it never leaves the two buffers. -/
theorem copyLoop_ok (src dst : WebAssemblyMemory) {srcSize : Nat} (hsrc : srcSize ≤ src.buffer.length)
    (hdst : srcSize ≤ dst.buffer.length) (hsize : srcSize < 2 ^ 32) (offset : Nat) (copy : WebAssemblyMemory)
    (hle : offset ≤ srcSize) (h : CopiedTo src dst offset copy) :
    ∃ copy', copyLoop src srcSize offset copy = .ok copy' ∧ CopiedTo src dst srcSize copy' := by
  induction hrest : srcSize - offset using Nat.strong_induction_on generalizing offset copy with
  | h rest ih =>
    rw [copyLoop]
    by_cases hlt : offset < srcSize
    · rw [if_pos hlt]
      have hpos : 0 < chunkSize := by decide
      obtain ⟨copy', hchunk, h'⟩ := copyChunk_ok (n := min (srcSize - offset) chunkSize)
        (by omega) (by omega) (by omega) h
      simp only [hchunk]
      exact ih _ (by omega) _ _ (by omega) h' rfl
    · rw [if_neg hlt]
      obtain rfl : offset = srcSize := by omega
      exact ⟨copy, rfl, h⟩

/-! ### The size of the copy -/

/-- The memory is copied exactly. -/
def ExactCopy (memory : WebAssemblyMemory) (result : Except CopyFailure WebAssemblyMemory) : Prop :=
  ∃ copy, result = .ok copy ∧ copy.pages = memory.pages ∧ copy.buffer = memory.buffer

theorem WebAssemblyMemory.pages_le (memory : WebAssemblyMemory) : memory.pages ≤ 65536 :=
  memory.le_limit.trans memory.valid.2.1

theorem byteLength_of_lt {memory : WebAssemblyMemory} (h : memory.pages < 65536) :
    memory.byteLength = memory.buffer.length := by
  have hlen := memory.length_buffer
  unfold wasmPageSize at hlen
  exact Nat.mod_eq_of_lt (by omega)

/-- The pages are those of the source, also those of the largest memory, whose length is returned as zero. -/
theorem pagesOfSize_byteLength {memory : WebAssemblyMemory} (h : 1 ≤ memory.pages) :
    pagesOfSize memory.byteLength = memory.pages := by
  have hle := memory.pages_le
  unfold pagesOfSize WebAssemblyMemory.byteLength
  rw [memory.length_buffer]
  unfold wasmPageSize
  rcases Nat.lt_or_ge memory.pages 65536 with hlt | hge
  · omega
  · rw [Nat.le_antisymm hle hge]
    decide

theorem new_of_valid {ty : MemoryType} (h : ty.Valid) :
    ∃ memory, WebAssemblyMemory.new ty = some memory ∧ memory.ty = ty ∧ memory.pages = ty.minimum :=
  ⟨_, dif_pos h, rfl, rfl⟩

/-- With room for the pages of the source on top of the minimum, the copy has all of them. Its first pages are those of
    the source. -/
theorem copyMemory_of_le (memory : WebAssemblyMemory) (hminimum : 1 ≤ memory.ty.minimum)
    (h : memory.ty.minimum + memory.pages ≤ memory.ty.limit) :
    ∃ copy, copyMemory memory memory.ty = .ok copy ∧ copy.pages = memory.ty.minimum + memory.pages ∧
      copy.buffer.take (memory.pages * wasmPageSize) = memory.buffer := by
  have hpages := hminimum.trans memory.minimum_le
  have hlimit := memory.valid.2.1
  obtain ⟨new, hnew, hty, hnewPages⟩ := new_of_valid memory.valid
  have hgrow : new.pages + memory.pages ≤ new.ty.limit := by rw [hty, hnewPages]; exact h
  have hsize : memory.byteLength = memory.buffer.length :=
    byteLength_of_lt (by unfold maxPages at hlimit; omega)
  have hlen := memory.length_buffer
  unfold copyMemory
  rw [hnew, pagesOfSize_byteLength hpages, hsize]
  simp only [WebAssemblyMemory.grow, dif_pos hgrow]
  generalize hdst : WebAssemblyMemory.mk _ _ _ _ _ _ _ = dst
  have hdstPages : dst.pages = memory.ty.minimum + memory.pages := by rw [← hdst, ← hnewPages]
  have hdstLen := dst.length_buffer
  rw [hdstPages, Nat.add_mul] at hdstLen
  obtain ⟨copy, hcopy, hcopied⟩ := copyLoop_ok memory dst le_rfl (by omega)
    (by unfold maxPages wasmPageSize at *; omega) 0 dst (Nat.zero_le _) (.start memory dst)
  refine ⟨copy, hcopy, hcopied.pages.trans hdstPages, ?_⟩
  rw [← hlen, hcopied.below, List.take_length]

/-- Without that room, nothing is copied. -/
theorem copyMemory_of_lt {memory : WebAssemblyMemory} (hminimum : 1 ≤ memory.ty.minimum)
    (h : memory.ty.limit < memory.ty.minimum + memory.pages) : copyMemory memory memory.ty = .error .thrown := by
  obtain ⟨new, hnew, hty, hnewPages⟩ := new_of_valid memory.valid
  have hgrow : ¬new.pages + memory.pages ≤ new.ty.limit := by rw [hty, hnewPages]; omega
  unfold copyMemory
  rw [hnew, pagesOfSize_byteLength (hminimum.trans memory.minimum_le)]
  simp only [WebAssemblyMemory.grow, dif_neg hgrow]

/-- No copy is exact: it has the minimum of the type on top of the pages of the source, or it is not made at all. -/
theorem copyMemory_not_exact (memory : WebAssemblyMemory) (hminimum : 1 ≤ memory.ty.minimum) :
    ¬ExactCopy memory (copyMemory memory memory.ty) := by
  rintro ⟨copy, hcopy, hpages, -⟩
  rcases Nat.lt_or_ge memory.ty.limit (memory.ty.minimum + memory.pages) with hlt | hle
  · rw [copyMemory_of_lt hminimum hlt] at hcopy
    cases hcopy
  · obtain ⟨copy', hcopy', hpages', -⟩ := copyMemory_of_le memory hminimum hle
    rw [hcopy'] at hcopy
    cases hcopy
    omega

/-- A memory of one page that may have two. -/
def onePage : WebAssemblyMemory where
  ty := { minimum := 1, maximum := some 2, shared := true }
  pages := 1
  buffer := List.replicate wasmPageSize 0
  valid := by decide
  minimum_le := le_rfl
  le_limit := by decide
  length_buffer := by rw [List.length_replicate, Nat.one_mul]

theorem copyMemory_not_exact_one : 1 ≤ onePage.ty.minimum ∧ ¬ExactCopy onePage (copyMemory onePage onePage.ty) :=
  ⟨by decide, copyMemory_not_exact onePage (by decide)⟩

/-- The copy of one page has two. -/
theorem one_page_doubled : 1 ≤ onePage.ty.minimum ∧ onePage.pages = 1 ∧
    (∃ copy, copyMemory onePage onePage.ty = .ok copy ∧ copy.pages = 2) ∧
      ¬ExactCopy onePage (copyMemory onePage onePage.ty) := by
  obtain ⟨copy, hcopy, hpages, -⟩ := copyMemory_of_le onePage (by decide) (by decide)
  refine ⟨by decide, rfl, ⟨copy, hcopy, hpages⟩, ?_⟩
  rintro ⟨copy', hcopy', hpages', -⟩
  rw [hcopy] at hcopy'
  cases hcopy'
  rw [hpages] at hpages'
  exact absurd hpages' (by decide)

end Task
end WasmerJs
