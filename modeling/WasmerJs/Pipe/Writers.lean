import WasmerJs.Lib.Interleave
import WasmerJs.Pipe.Invariant

/-! A pipe with several transmit ends. Between the load of the write position and the store that publishes the new
    one, `write_data` holds nothing that keeps other ends out. Copies that do not overlap deliver every chunk;
    two that overlap start from the same position, and one chunk is lost. -/

namespace WasmerJs
namespace Pipe

open Transition

variable {ι : Type} {C : Nat} {m : Memory} {s : State ι} {i₀ : ι} {data : Nat → UInt8}

/-- What the reader has and what it can still read is an interleaving of the chunks that the writes accepted, and
    at most `C - 1` bytes wait in the buffer. -/
structure Delivered (C : Nat) (s : State ι) : Prop where
  interleaving : Interleaving s.accepted (s.returned.flatten ++ s.mem.buffered C)
  bounded : s.accepted.flatten.length < s.returned.flatten.length + C

theorem Inv.delivered (h : Inv C s) : Delivered C s where
  interleaving := h.stored.stream ▸ Interleaving.flatten s.accepted
  bounded := by
    have hlt := h.stored.occupied_lt
    rw [h.stored.stream, List.length_append, Memory.buffered, Ring.contents_length]
    omega

variable [DecidableEq ι]

/-- In every run in which no copy starts while another one is under way, and no copy stores or publishes without
    room, every chunk is delivered. -/
theorem delivered_of_exclusive (hC : 1 ≤ C) (hr : ReachVia (step C) (Exclusive C) (State.init i₀ data) s) :
    Delivered C s :=
  (inv_of_reachVia hC hr).delivered

/-! ### Overlapping copies -/

instance : DecidablePred TxPc.Copying
  | .copy .. => isTrue trivial
  | .returned _ | .loadClosed _ | .loadWritePos _ | .loadReadPos .. | .reloadWritePos .. | .notifyReaders _
  | .storeClosed _ | .notifyClosed _ | .subTxCount | .addTxCount | .overflow => isFalse id

instance : DecidablePred (TxRoom C m)
  | .copy _ _ _ k => inferInstanceAs (Decidable (m.occupied C + k < C))
  | .returned _ | .loadClosed _ | .loadWritePos _ | .loadReadPos .. | .reloadWritePos .. | .notifyReaders _
  | .storeClosed _ | .notifyClosed _ | .subTxCount | .addTxCount | .overflow => isTrue trivial

instance [Fintype ι] (s : State ι) : ∀ e, Decidable (Exclusive C s e)
  | .txStep i => inferInstanceAs (Decidable (((s.tx i).reloading → ∀ j, ¬ (s.tx j).Copying) ∧ TxRoom C s.mem (s.tx i)))
  | .txCall .. | .rxCall _ | .rxStep => isTrue trivial

/-- A second end is made for the pipe, and each end writes a byte while the other one rests. -/
def turnsRun : List (Event Bool) :=
  Event.tx true .fromPoolOffset 1 ++ Event.tx true (.writeData [1]) 7 ++ Event.tx false (.writeData [2]) 7 ++
    Event.rx (.tryRead 4) 6

theorem delivered_of_exclusive_turns :
    ∃ s, ReachVia (step 8) (Exclusive 8) (State.init false fun _ => 0) s ∧ s.returned = [[1, 2]] ∧
      Delivered 8 s := by
  obtain ⟨s, hr, hp⟩ :
      ∃ s, ReachVia (step 8) (Exclusive 8) (State.init false fun _ => 0) s ∧ s.returned = [[1, 2]] :=
    exists_reachVia turnsRun _ (by decide) (by decide)
  exact ⟨s, hr, hp, delivered_of_exclusive (by decide) hr⟩

/-- Both ends load the same position before either of them publishes. -/
def overlappingCopies : List (Event Bool) :=
  Event.tx true .fromPoolOffset 1 ++ Event.tx true (.writeData [1]) 4 ++ Event.tx false (.writeData [2]) 7 ++
    .replicate 3 (.txStep true)

theorem overlapping_copies_lose_bytes :
    ¬ ∀ s, Reach (step 8) (State.init false fun _ => 0) s → Delivered 8 s := by
  intro h
  obtain ⟨s, hr, hacc, hret, hocc⟩ :
      ∃ s, Reach (step 8) (State.init false fun _ => 0) s ∧
        s.accepted = [[2], [1]] ∧ s.returned = [] ∧ s.mem.occupied 8 = 1 :=
    exists_reach overlappingCopies _ (by decide)
  have hlen := (h s hr).interleaving.length_eq
  simp [hacc, hret, Memory.buffered, hocc] at hlen

end Pipe
end WasmerJs
