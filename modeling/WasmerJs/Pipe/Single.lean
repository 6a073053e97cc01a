import WasmerJs.Pipe.Invariant

/-! A pipe with one transmit end. The position that `free_space` loads is still current when the copy loads it
    again, because no other end moves it, so the copies never overlap and the pipe is safe in every run. -/

namespace WasmerJs
namespace Pipe

open Transition

/-- The index in the data area that the next access stores to. -/
def TxPc.storeIndex : TxPc → Option Nat
  | .copy chunk writePos first k => if k < chunk.length then some (chunkIndex writePos first k) else none
  | _ => none

/-- The index in the data area that the next access loads from. -/
def RxPc.loadIndex : RxPc → Option Nat
  | .copy toRead readPos first buf =>
    if buf.length < toRead then some (chunkIndex readPos first buf.length) else none
  | _ => none

/-- What a pipe with one transmit end never gives up. -/
structure Safe (C : Nat) (s : State Unit) : Prop where
  writePos_lt : s.mem.writePos < C
  readPos_lt : s.mem.readPos < C
  tx_no_underflow : s.tx () ≠ .overflow
  rx_no_underflow : s.rx ≠ .overflow
  store_lt : ∀ k, (s.tx ()).storeIndex = some k → k < C
  load_lt : ∀ k, s.rx.loadIndex = some k → k < C
  -- The bytes accepted and not yet returned are the ones between the positions ...
  unread : s.accepted.flatten = s.returned.flatten ++ s.mem.buffered C
  -- ... and none of them is stored over.
  store_free : ∀ k, (s.tx ()).storeIndex = some k → ∀ j < s.mem.occupied C, k ≠ Ring.index C s.mem.readPos j
  returned_prefix : s.returned.flatten <+: s.accepted.flatten

/-- What the only transmit end knows besides: nobody else moves the write position, so the free space that it
    computed can only have grown. -/
def SoloOk (C : Nat) (m : Memory) : TxPc → Prop
  | .loadReadPos _ writePos => writePos = m.writePos
  | .reloadWritePos _ toWrite => m.occupied C + toWrite < C
  | .copy chunk .. => m.occupied C + chunk.length < C
  | _ => True

structure Solo (C : Nat) (s : State Unit) : Prop where
  inv : Inv C s
  tx : SoloOk C s.mem (s.tx ())

variable {C : Nat} {m m' : Memory} {a r p : List Bytes} {pc pc' : TxPc} {s t : State Unit} {e : Event Unit}
  {data : Nat → UInt8}

theorem SoloOk.of_quiet (h : SoloOk C m pc) (hq : Quiet C m m') : SoloOk C m' pc := by
  cases pc with
  | loadReadPos data writePos => exact Eq.trans h hq.writePos.symm
  | reloadWritePos data toWrite => exact Nat.lt_of_le_of_lt (Nat.add_le_add_right hq.occupied _) h
  | copy chunk writePos first k => exact Nat.lt_of_le_of_lt (Nat.add_le_add_right hq.occupied _) h
  | _ => trivial

theorem TxStep.soloOk (h : TxStep C m pc m' pc' p) (hs : Stored C m a r) (hok : SoloOk C m pc) :
    SoloOk C m' pc' := by
  cases h with
  | loadWritePos => exact rfl
  | @room data writePos free hfree =>
    obtain rfl : writePos = m.writePos := hok
    rw [freeSpace_eq hs.writePos_lt hs.readPos_lt] at hfree
    have hlt := hs.occupied_lt
    show m.occupied C + min data.length free < C
    unfold Memory.occupied at *
    cases hfree
    omega
  | @reload data toWrite first second h =>
    have hlen : (data.take toWrite).length ≤ toWrite := List.length_take_le _ _
    exact Nat.lt_of_le_of_lt (Nat.add_le_add_left hlen _) hok
  | store => exact hok
  | _ => trivial

namespace Solo

theorem init (hC : 0 < C) : Solo C (State.init () data) := ⟨Inv.init hC, trivial⟩

theorem room (h : Solo C s) : TxRoom C s.mem (s.tx ()) := by
  have hok := h.inv.tx ()
  have hsolo := h.tx
  generalize s.tx () = pc at hok hsolo
  cases pc with
  | copy chunk writePos first k =>
    obtain ⟨-, -, -, hk, -, -⟩ := hok
    exact Nat.lt_of_le_of_lt (Nat.add_le_add_left hk _) hsolo
  | _ => trivial

theorem exclusive (h : Solo C s) : Exclusive C s e := by
  cases e with
  | txStep i =>
    refine ⟨fun hre j hj => ?_, h.room⟩
    generalize s.tx () = pc at hre hj
    cases pc with
    | copy => cases hre
    | _ => exact hj
  | _ => trivial

theorem step (h : Solo C s) (hs : Pipe.step C s e = some t) : Solo C t := by
  refine ⟨h.inv.step h.exclusive hs, ?_⟩
  cases e with
  | txCall i c =>
    obtain ⟨_, -, -, rfl⟩ := step_txCall_inv hs
    cases c <;> trivial
  | txStep i =>
    obtain ⟨m, pc, published, hstep, rfl⟩ := step_txStep_inv hs
    exact hstep.soloOk h.inv.stored h.tx
  | rxCall c =>
    obtain ⟨_, -, rfl⟩ := step_rxCall_inv hs
    exact h.tx
  | rxStep =>
    obtain ⟨m, pc, published, hstep, rfl⟩ := step_rxStep_inv hs
    exact h.tx.of_quiet (hstep.quiet h.inv.stored h.inv.rx)

theorem of_reach (hC : 0 < C) (hr : Reach (Pipe.step C) (State.init () data) s) : Solo C s :=
  hr.invariant (init hC) fun h _ hs => h.step hs

end Solo

/-! ### Safety -/

theorem Solo.store_index (h : Solo C s) {k : Nat} (hk : (s.tx ()).storeIndex = some k) :
    ∃ j, s.mem.occupied C ≤ j ∧ j < C ∧ k = Ring.index C s.mem.readPos j := by
  have hok := h.inv.tx ()
  have hroom := h.room
  generalize s.tx () = pc at hk hok hroom
  cases pc with
  | copy chunk writePos first i =>
    simp only [TxPc.storeIndex] at hk
    split at hk
    · have hroom : s.mem.occupied C + i < C := hroom
      have hidx := hok.next_index h.inv.stored hroom ‹_›
      cases hk
      exact ⟨s.mem.occupied C + i, by omega, by omega, hidx⟩
    · cases hk
  | _ => cases hk

theorem Inv.load_index (h : Inv C s) {k : Nat} (hk : s.rx.loadIndex = some k) : k < C := by
  have hok := h.rx
  generalize s.rx = pc at hk hok
  cases pc with
  | copy toRead readPos first buf =>
    simp only [RxPc.loadIndex] at hk
    split at hk
    · obtain ⟨rfl, rfl, hn, -, -⟩ := hok
      have := h.stored.occupied_lt
      rw [chunkIndex_eq h.stored.readPos_lt ‹_›] at hk
      cases hk
      exact Ring.index_lt h.stored.readPos_lt (by omega)
    · cases hk
  | _ => cases hk

theorem Solo.safe (h : Solo C s) : Safe C s where
  writePos_lt := h.inv.stored.writePos_lt
  readPos_lt := h.inv.stored.readPos_lt
  tx_no_underflow hpc := by
    have hok := h.inv.tx ()
    rw [hpc] at hok
    exact hok
  rx_no_underflow hpc := by
    have hok := h.inv.rx
    rw [hpc] at hok
    exact hok
  store_lt k hk := by
    obtain ⟨j, -, hj, rfl⟩ := h.store_index hk
    exact Ring.index_lt h.inv.stored.readPos_lt (by omega)
  load_lt k hk := h.inv.load_index hk
  unread := h.inv.stored.stream
  store_free k hk j hj heq := by
    obtain ⟨i, hi, hiC, rfl⟩ := h.store_index hk
    have := Ring.index_inj hiC (by omega) heq
    omega
  returned_prefix := ⟨_, h.inv.stored.stream.symm⟩

/-- However the accesses of the two ends interleave, a pipe with one transmit end is safe. -/
theorem single_producer_single_consumer (hC : 1 ≤ C) (hr : Reach (Pipe.step C) (State.init () data) s) : Safe C s :=
  (Solo.of_reach hC hr).safe

/-- The reader looks at an empty buffer while the writer is copying, and its next call finds two bytes. -/
def overlappingRun : List (Event Unit) :=
  Event.tx () (.writeData [1, 2, 3]) 5 ++ Event.rx (.tryRead 4) 3 ++ List.replicate 3 (.txStep ()) ++
    Event.rx (.tryRead 4) 6

theorem single_producer_single_consumer_overlapping :
    ∃ s, Reach (step 3) (State.init () fun _ => 0) s ∧ s.returned = [[1, 2]] ∧ Safe 3 s := by
  obtain ⟨s, hr, hp⟩ : ∃ s, Reach (step 3) (State.init () fun _ => 0) s ∧ s.returned = [[1, 2]] :=
    exists_reach overlappingRun _ (by decide)
  exact ⟨s, hr, hp, single_producer_single_consumer (by decide) hr⟩

end Pipe
end WasmerJs
