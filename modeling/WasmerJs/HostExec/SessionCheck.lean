import WasmerJs.HostExec.Codec
import WasmerJs.HostExec.Isolation

/-! The session id in an answer. The scheduler stores the lower 32 bits of it, and `host_exec_read` compares what it
    loads, widened again with the sign, with all 64 bits of its session (`src/runtime.rs`). -/

namespace WasmerJs
namespace HostExec

open Transition

variable {W R F : Type}

/-! ### One answer -/

/-- A worker that reads session `s` takes what is in its buffer for an answer to another session. -/
def Buffer.Rejected (b : Buffer) (s : SessionId) : Prop :=
  ∃ actual, Decodes b (Query.hostExecRead s).loads (.sessionMismatch s actual)

/-- The check of worker `w` for session `s`: an answer to the session is never rejected, and one to another session
    that is live always is. -/
structure SessionChecked [DecidableEq W] (F : Type) (w : W) (live : Set SessionId) (s : SessionId) : Prop where
  own : ∀ b t v data, ¬ (Buffer.answered b w (.readResponse w s t v data : Effect W F)).Rejected s
  other : ∀ s' ∈ live, s' ≠ s → ∀ b t v data,
    (Buffer.answered b w (.readResponse w s' t v data : Effect W F)).Rejected s

theorem answered_session [DecidableEq W] (b : Buffer) (w : W) (s : SessionId) (t : MsgType) (v : BitVec 32)
    (data : Option Bytes) :
    (b.answered w (.readResponse w s t v data : Effect W F)).session = s.setWidth 32 := by
  cases data with
  | none => simp [Buffer.answered, Effect.stores, Store.apply]
  | some data => rw [answered_readResponse]

theorem loadMessage_not_mismatch {b : Buffer} {pc : Pc} {t : MsgType} {v : BitVec 32} {s actual : SessionId}
    (hpc : pc.access b = some (b, loadMessage t v)) : ¬ Decodes b pc (.sessionMismatch s actual) := by
  unfold loadMessage at hpc
  intro hd
  split at hpc
  · cases (decodes_done hpc).mp hd
  · cases (decodes_loadData rfl hpc).mp hd

/-- The id that is loaded is compared with the whole id. -/
theorem rejected_iff {b : Buffer} {s : SessionId} : b.Rejected s ↔ b.session.signExtend 64 ≠ s := by
  have hloads : ∀ r, Decodes b (Query.hostExecRead s).loads r ↔
      Decodes b (.loadSession s b.msgType b.dataLenOrExitCode) r := by
    intro r
    rw [Query.loads, decodes_access rfl, decodes_access rfl]
  by_cases heq : b.session.signExtend 64 = s
  · refine iff_of_false ?_ (not_not.mpr heq)
    rintro ⟨actual, hd⟩
    have hpc : Pc.access b (.loadSession s b.msgType b.dataLenOrExitCode) =
        some (b, loadMessage b.msgType b.dataLenOrExitCode) := by
      simp [Pc.access, heq]
    exact loadMessage_not_mismatch hpc ((hloads _).mp hd)
  · have hpc : Pc.access b (.loadSession s b.msgType b.dataLenOrExitCode) =
        some (b, .inl (.sessionMismatch s (b.session.signExtend 64))) := by
      simp [Pc.access, heq]
    exact iff_of_true ⟨b.session.signExtend 64, (hloads _).mpr (.done hpc)⟩ heq

/-- What is stored is the lower 32 bits of what is loaded. -/
theorem setWidth_signExtend (v : BitVec 32) : (v.signExtend 64).setWidth 32 = v := by
  ext i hi
  rw [BitVec.getElem_setWidth, BitVec.getLsbD_signExtend, if_pos hi, BitVec.getLsbD_eq_getElem hi]
  simp
  omega

/-- The check does what it is for exactly for the ids that are the sign extension of their lower 32 bits, while no
    session is live whose id has the same lower 32 bits. -/
theorem session_check_iff [DecidableEq W] {w : W} {live : Set SessionId} {s : SessionId} :
    SessionChecked F w live s ↔
      (s.toNat < 2 ^ 31 ∨ 2 ^ 64 - 2 ^ 31 ≤ s.toNat) ∧ ∀ s' ∈ live, s' ≠ s → s'.setWidth 32 ≠ s.setWidth 32 := by
  rw [← signExtend_setWidth_eq_iff]
  constructor
  · rintro ⟨hown, hother⟩
    have hs : (s.setWidth 32).signExtend 64 = s := by
      by_contra hs
      exact hown .init 0 0 none (rejected_iff.mpr (by rwa [answered_session]))
    refine ⟨hs, fun s' hlive hne heq => ?_⟩
    have hrej := rejected_iff.mp (hother s' hlive hne .init 0 0 none)
    rw [answered_session, heq] at hrej
    exact hrej hs
  · rintro ⟨hs, hlive⟩
    refine ⟨fun b t v data hrej => ?_, fun s' hmem hne b t v data => rejected_iff.mpr ?_⟩
    · rw [rejected_iff, answered_session] at hrej
      exact hrej hs
    · rw [answered_session]
      intro heq
      apply hlive s' hmem hne
      rw [← heq, setWidth_signExtend]

/-! ### The counter -/

variable [DecidableEq W] [DecidableEq R]

/-- Starts alone take the counter of a runtime to every value. -/
theorem reach_nextSessionId (parse : Bytes → Except String Unit) (c : Caller W R) (n : Nat) :
    ∃ p : Page W R F, Reach (Page.step parse) .init p ∧ p.nextSessionId c.runtime = BitVec.ofNat 64 n := by
  induction n with
  | zero => exact ⟨.init, .refl, rfl⟩
  | succ n ih =>
    obtain ⟨p, hr, hn⟩ := ih
    refine ⟨_, .step (.call c (.hostExecStart [])) hr trivial rfl, ?_⟩
    simp [hn, BitVec.ofNat_add]

/-- Every id is the id of a session in some run. -/
theorem reach_session (parse : Bytes → Except String Unit) (c : Caller W R) (s : SessionId) :
    ∃ p : Page W R F, Reach (Page.step parse) .init p ∧ (c.runtime, s) ∈ p.sessions := by
  obtain ⟨p, hr, hn⟩ := reach_nextSessionId (F := F) parse c s.toNat
  refine ⟨_, .step (.call c (.hostExecStart [])) hr trivial rfl, ?_⟩
  simp [hn, Request.isStart, Request.session?]

/-- The session with id 2 ^ 31. -/
theorem large_session_rejected :
    ¬ ∀ p : Page Nat Nat Nat, Reach (Page.step fun _ => .ok ()) .init p → ∀ x ∈ p.sessions,
      SessionChecked Nat 0 {s' | s' ∈ p.sessions.map Prod.snd} x.2 := by
  intro hall
  obtain ⟨p, hr, hmem⟩ := reach_session (F := Nat) (fun _ => .ok ()) (⟨0, 0⟩ : Caller Nat Nat) (2 ^ 31)
  have hsmall := (session_check_iff.mp (hall p hr _ hmem)).1
  exact absurd hsmall (by decide)

end HostExec
end WasmerJs
