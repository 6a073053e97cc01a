import WasmerJs.Lib.Bump
import WasmerJs.Pipe.Ends

/-! The allocation of regions from the pool, on all workers at the same time (`src/pipes/pool.rs`). The first word of the
    pool is where the next region goes. A worker loads it, checks that there is room, and claims the room with a
    `compare_exchange`; when another worker was faster, it starts again. -/

namespace WasmerJs
namespace Pipe

open Transition

/-- `u32::checked_add` -/
def checkedAdd (a b : UInt32) : Option UInt32 := if a.toNat + b.toNat < UInt32.size then some (a + b) else none

/-- The next access of a call of `allocate_from_pool(size)`. -/
inductive AllocatePc where
  | idle
  | load (size : UInt32)
  | compareExchange (size currentOffset newOffset : UInt32)
  | returned (size : UInt32) (offset : Option UInt32)
  deriving DecidableEq

/-- The call has loaded the word. -/
def AllocatePc.loaded (size currentOffset : UInt32) : AllocatePc :=
  match checkedAdd currentOffset size with
  | none => .returned size none
  | some newOffset =>
    if newOffset.toNat > PIPE_POOL_SIZE then .returned size none
    else .compareExchange size currentOffset newOffset

/-- The pool, the workers `ι`, and the regions of the calls that have succeeded, the last one first. -/
structure Allocator (ι : Type) where
  word : Int32
  pc : ι → AllocatePc
  allocated : List Bump.Region

namespace Allocator

variable {ι : Type}

/-- `create_pipe_pool` -/
def init : Allocator ι :=
  { word := (UInt32.ofNat POOL_HEADER_SIZE).toInt32, pc := fun _ => .idle, allocated := [] }

/-- Where the next region goes. -/
def nextOffset (s : Allocator ι) : Nat := s.word.toUInt32.toNat

inductive Event (ι : Type) where
  | call (i : ι) (size : UInt32)
  | access (i : ι)
  deriving DecidableEq

def step [DecidableEq ι] (s : Allocator ι) : Event ι → Option (Allocator ι)
  | .call i size =>
    match s.pc i with
    | .idle | .returned .. => some { s with pc := Function.update s.pc i (.load size) }
    | _ => none
  | .access i =>
    match s.pc i with
    | .idle | .returned .. => none
    | .load size => some { s with pc := Function.update s.pc i (.loaded size s.word.toUInt32) }
    | .compareExchange size currentOffset newOffset =>
      if s.word = currentOffset.toInt32 then
        some {
          word := newOffset.toInt32
          pc := Function.update s.pc i (.returned size (some currentOffset))
          allocated := { offset := currentOffset.toNat, size := size.toNat } :: s.allocated }
      else some { s with pc := Function.update s.pc i (.load size) }

/-- What one step does: only the call that gets a region changes the pool, and it gets the one that it would get if it
    were alone; a call that gets none could not get one. -/
structure Atomic (s : Allocator ι) (e : Event ι) (t : Allocator ι) : Prop where
  quiet : (t.word = s.word ∧ t.allocated = s.allocated) ∨ ∃ i size offset,
    e = .access i ∧ t.pc i = .returned size (some offset) ∧ offset.toNat = s.nextOffset ∧
    Bump.reserve PIPE_POOL_SIZE s.nextOffset size.toNat = some t.nextOffset ∧
    t.allocated = { offset := offset.toNat, size := size.toNat } :: s.allocated
  refused : ∀ i size, e = .access i → t.pc i = .returned size none →
    t.word = s.word ∧ t.allocated = s.allocated ∧ PIPE_POOL_SIZE - s.nextOffset < size.toNat

/-- The regions do not overlap and lie behind the word, which says how much of the pool they take; each call that has
    got a region got one of them. -/
structure Separate (s : Allocator ι) : Prop where
  disjoint : s.allocated.Pairwise fun r r' => Disjoint r.bytes r'.bytes
  inside : ∀ r ∈ s.allocated, POOL_HEADER_SIZE ≤ r.offset ∧ r.offset + r.size ≤ PIPE_POOL_SIZE
  word : s.nextOffset = POOL_HEADER_SIZE + (s.allocated.map (·.size)).sum
  returned : ∀ i size offset, s.pc i = .returned size (some offset) →
    { offset := offset.toNat, size := size.toNat } ∈ s.allocated

variable {s t : Allocator ι} {e : Event ι}

/-! ### The invariant -/

/-- What a call knows: the sum that it is about to store, the region that it got, or that there was no room. -/
def PcOk (s : Allocator ι) : AllocatePc → Prop
  | .compareExchange size currentOffset newOffset =>
    newOffset.toNat = currentOffset.toNat + size.toNat ∧ newOffset.toNat ≤ PIPE_POOL_SIZE
  | .returned size none => PIPE_POOL_SIZE < s.nextOffset + size.toNat
  | .returned size (some offset) => { offset := offset.toNat, size := size.toNat } ∈ s.allocated
  | _ => True

structure Inv (s : Allocator ι) : Prop where
  laid : Bump.Laid POOL_HEADER_SIZE s.allocated s.nextOffset
  le : s.nextOffset ≤ PIPE_POOL_SIZE
  pc : ∀ i, s.PcOk (s.pc i)

theorem Inv.init : Inv (Allocator.init : Allocator ι) := ⟨.nil, (by decide : 4 ≤ PIPE_POOL_SIZE), fun _ => trivial⟩

theorem checkedAdd_inv {a b c : UInt32} (h : checkedAdd a b = some c) : c.toNat = a.toNat + b.toNat := by
  unfold checkedAdd at h
  split at h
  · cases h
    rw [UInt32.toNat_add]
    exact Nat.mod_eq_of_lt ‹_›
  · cases h

theorem checkedAdd_none {a b : UInt32} (h : checkedAdd a b = none) : PIPE_POOL_SIZE < a.toNat + b.toNat := by
  unfold checkedAdd at h
  split at h
  · cases h
  · have : PIPE_POOL_SIZE < UInt32.size := by decide
    omega

/-- A call that has just loaded the word knows what it has to. -/
theorem loaded_ok (s : Allocator ι) (size : UInt32) : s.PcOk (.loaded size s.word.toUInt32) := by
  unfold AllocatePc.loaded
  split
  · exact checkedAdd_none ‹_›
  · have hsum := checkedAdd_inv ‹_›
    split
    · exact Nat.lt_of_lt_of_eq ‹_› hsum
    · exact ⟨hsum, by omega⟩

/-- What a call knows stays true while regions are taken. -/
theorem PcOk.mono {pc : AllocatePc} (h : s.PcOk pc) (hn : s.nextOffset ≤ t.nextOffset)
    (ha : s.allocated ⊆ t.allocated) : t.PcOk pc := by
  cases pc with
  | returned size offset =>
    cases offset with
    | none => exact Nat.lt_of_lt_of_le h (Nat.add_le_add_right hn _)
    | some offset => exact ha h
  | _ => exact h

/-- One worker goes on, and the pool is as it was or has one region more. -/
theorem Inv.update [DecidableEq ι] (h : s.Inv) {i : ι} {pc : AllocatePc} (hpc : t.pc = Function.update s.pc i pc)
    (hok : t.PcOk pc) (hlaid : Bump.Laid POOL_HEADER_SIZE t.allocated t.nextOffset) (hle : t.nextOffset ≤ PIPE_POOL_SIZE)
    (hn : s.nextOffset ≤ t.nextOffset) (ha : s.allocated ⊆ t.allocated) : t.Inv := by
  refine ⟨hlaid, hle, fun j => ?_⟩
  by_cases hj : j = i
  · subst hj
    rw [hpc, Function.update_self]
    exact hok
  · rw [hpc, Function.update_of_ne hj]
    exact (h.pc j).mono hn ha

/-- The word is what the call has loaded: it gets the region that starts there. -/
theorem Inv.claim (h : s.Inv) {i : ι} {size currentOffset newOffset : UInt32}
    (hpc : s.pc i = .compareExchange size currentOffset newOffset) (hword : s.word = currentOffset.toInt32) :
    currentOffset.toNat = s.nextOffset ∧
      Bump.reserve PIPE_POOL_SIZE s.nextOffset size.toNat = some newOffset.toNat := by
  have hnext : s.nextOffset = currentOffset.toNat := by rw [nextOffset, hword, UInt32.toUInt32_toInt32]
  obtain ⟨hsum, hle⟩ : s.PcOk (.compareExchange size currentOffset newOffset) := hpc ▸ h.pc i
  exact ⟨hnext.symm, Bump.reserve_eq_some.mpr ⟨by omega, by omega⟩⟩

theorem Inv.step [DecidableEq ι] (h : s.Inv) (hs : Allocator.step s e = some t) : t.Inv := by
  cases e with
  | call i size =>
    simp only [Allocator.step] at hs
    split at hs
    · cases hs
      exact h.update rfl trivial h.laid h.le (Nat.le_refl _) (List.Subset.refl _)
    · cases hs
      exact h.update rfl trivial h.laid h.le (Nat.le_refl _) (List.Subset.refl _)
    · cases hs
  | access i =>
    simp only [Allocator.step] at hs
    split at hs
    · cases hs
    · cases hs
    · cases hs
      exact h.update rfl (loaded_ok s _) h.laid h.le (Nat.le_refl _) (List.Subset.refl _)
    · rename_i size currentOffset newOffset hpc
      split at hs
      · rename_i hword
        obtain ⟨hcur, hres⟩ := h.claim hpc hword
        obtain ⟨hle, hsum⟩ := Bump.reserve_eq_some.mp hres
        cases hs
        refine h.update rfl (List.mem_cons_self ..) ?_ (Nat.le_trans (Nat.le_of_eq hsum) hle) ?_
          (List.subset_cons_self ..)
        · rw [hcur]
          exact h.laid.reserve hres
        · exact Nat.le_trans (Nat.le_add_right ..) (Nat.le_of_eq hsum.symm)
      · cases hs
        exact h.update rfl trivial h.laid h.le (Nat.le_refl _) (List.Subset.refl _)

theorem Inv.of_reach [DecidableEq ι] (hr : Reach Allocator.step (Allocator.init : Allocator ι) s) : s.Inv :=
  hr.invariant .init fun h _ hs => h.step hs

/-! ### What a step does -/

theorem Inv.atomic [DecidableEq ι] (h : s.Inv) (hs : Allocator.step s e = some t) : s.Atomic e t := by
  have ht := h.step hs
  cases e with
  | call i size =>
    have hquiet : t.word = s.word ∧ t.allocated = s.allocated := by
      simp only [Allocator.step] at hs
      split at hs <;> cases hs <;> exact ⟨rfl, rfl⟩
    exact ⟨.inl hquiet, fun _ _ he => by cases he⟩
  | access i =>
    -- A call that gets nothing has left the pool alone, and what it knows is what it has found.
    have hnone (hquiet : t.word = s.word ∧ t.allocated = s.allocated) : s.Atomic (.access i) t := by
      refine ⟨.inl hquiet, fun j size he hpc => ⟨hquiet.1, hquiet.2, ?_⟩⟩
      have hfull : t.PcOk (.returned size none) := hpc ▸ ht.pc j
      have hnext : t.nextOffset = s.nextOffset := by rw [nextOffset, hquiet.1, nextOffset]
      have hle := h.le
      have hfull : PIPE_POOL_SIZE < t.nextOffset + size.toNat := hfull
      omega
    simp only [Allocator.step] at hs
    split at hs
    · cases hs
    · cases hs
    · cases hs
      exact hnone ⟨rfl, rfl⟩
    · rename_i size currentOffset newOffset hpc
      split at hs
      · rename_i hword
        obtain ⟨hcur, hres⟩ := h.claim hpc hword
        cases hs
        refine ⟨.inr ⟨i, size, currentOffset, rfl, Function.update_self .., hcur, hres, rfl⟩, fun j size' he hpc' => ?_⟩
        cases he
        simp only [Function.update_self] at hpc'
        cases hpc'
      · cases hs
        exact hnone ⟨rfl, rfl⟩

theorem Inv.separate (h : s.Inv) : s.Separate where
  disjoint := h.laid.disjoint
  inside r hr := ⟨(h.laid.bounds hr).1, Nat.le_trans (h.laid.bounds hr).2 h.le⟩
  word := h.laid.next_eq
  returned i size offset hpc := by
    have hok := h.pc i
    rw [hpc] at hok
    exact hok

/-- However the accesses of any number of workers interleave, the regions that they get never overlap, and each call
    takes effect at one of its accesses, or has none. -/
theorem allocations_separate [DecidableEq ι] (hr : Reach step (init : Allocator ι) s) :
    s.Separate ∧ ∀ e t, step s e = some t → s.Atomic e t :=
  ⟨(Inv.of_reach hr).separate, fun _ _ hs => (Inv.of_reach hr).atomic hs⟩

/-- Two workers load the same word; the second one to store has to start again, and a third call finds no room. -/
theorem allocations_separate_contended :
    ∃ s : Allocator Nat, Reach step init s ∧
      s.allocated = [{ offset := 65540, size := 100 }, { offset := 4, size := 65536 }] ∧
      s.pc 2 = .returned 16777215 none ∧ s.Separate ∧ ∀ e t, step s e = some t → s.Atomic e t := by
  obtain ⟨s, hr, halloc, hpc⟩ : ∃ s : Allocator Nat, Reach step init s ∧
      s.allocated = [{ offset := 65540, size := 100 }, { offset := 4, size := 65536 }] ∧
      s.pc 2 = .returned 16777215 none :=
    exists_reach [.call 0 65536, .access 0, .call 1 100, .access 1, .access 0, .access 1, .access 1, .access 1,
      .call 2 16777215, .access 2] _ (by decide)
  exact ⟨s, hr, halloc, hpc, allocations_separate hr⟩

end Allocator
end Pipe
end WasmerJs
