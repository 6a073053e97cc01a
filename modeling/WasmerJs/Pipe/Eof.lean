import WasmerJs.Pipe.Single

/-! When the reader of a pipe with one transmit end is told that the stream has ended. All four entry points look
    at the positions first and at the closed flag afterwards; a write and a close between the two looks make the
    reader report the end over bytes that it never read. -/

namespace WasmerJs
namespace Pipe

open Transition

/-- The end of the stream is reported only when every accepted byte has been returned. -/
def EofAtEnd (s : State Unit) : Prop :=
  ∀ r, s.rx = .returned r → r.eof = true → s.returned.flatten = s.accepted.flatten

/-- The buffer that the caller passes has room for a byte. -/
def RxCall.Roomy : RxCall → Prop
  | .tryRead len | .readBlocking len | .pollRead len => 0 < len
  | .pollReadReady => True

instance : DecidablePred RxCall.Roomy
  | .tryRead len | .readBlocking len | .pollRead len => inferInstanceAs (Decidable (0 < len))
  | .pollReadReady => inferInstanceAs (Decidable True)

def RoomyReads (_ : State Unit) : Event Unit → Prop
  | .rxCall c => c.Roomy
  | _ => True

instance : ∀ s e, Decidable (RoomyReads s e)
  | _, .rxCall c => inferInstanceAs (Decidable c.Roomy)
  | _, .txCall .. | _, .txStep _ | _, .rxStep => inferInstanceAs (Decidable True)

/-- The reader has found the buffer empty, or its snapshot of the write position will make it so, and it has not
    looked at the closed flag since. -/
def RxPc.sawEmpty (readPos : Nat) : RxPc → Bool
  | .loadReadPos _ _ writePos => writePos == readPos
  | .loadClosed .. | .recheckClosed .. => true
  | _ => false

def TxPc.closing : TxPc → Bool
  | .storeClosed _ => true
  | _ => false

/-- The flag is set only when the buffer is empty or the reader is not about to look at the flag, and reads pass
    buffers that have room. -/
def ClosesDrained (s : State Unit) : Event Unit → Prop
  | .txStep i => (s.tx i).closing → s.rx.sawEmpty s.mem.readPos → s.mem.writePos = s.mem.readPos
  | e => RoomyReads s e

instance : ∀ s e, Decidable (ClosesDrained s e)
  | s, .txStep i =>
    inferInstanceAs (Decidable ((s.tx i).closing → s.rx.sawEmpty s.mem.readPos → s.mem.writePos = s.mem.readPos))
  | s, .rxCall c => inferInstanceAs (Decidable (RoomyReads s (.rxCall c)))
  | _, .txCall .. | _, .rxStep => inferInstanceAs (Decidable True)

/-! ### What the ends know about the flag -/

/-- A write that found the pipe open and has not published its position yet. -/
def TxPc.Writing : TxPc → Prop
  | .loadWritePos _ | .loadReadPos .. | .reloadWritePos .. | .copy .. => True
  | _ => False

def RxPc.Roomy : RxPc → Prop
  | .loadWritePos c _ | .loadReadPos c _ _ | .loadClosed c _ | .recheckClosed c _ | .loadNotify c _ | .wait c _ _ =>
    c.Roomy
  | .reloadReadPos toRead | .copy toRead .. => 0 < toRead
  | .returned _ | .overflow => True

structure Closing (m : Memory) (tx : TxPc) (rx : RxPc) : Prop where
  writing : tx.Writing → m.closed = 0
  sawEmpty : m.closed ≠ 0 → rx.sawEmpty m.readPos → m.writePos = m.readPos
  eof : ∀ r, rx = .returned r → r.eof → m.closed ≠ 0 ∧ m.writePos = m.readPos
  roomy : rx.Roomy

variable {C : Nat} {m m' : Memory} {a r p : List Bytes} {tx tx' : TxPc} {rx rx' : RxPc} {s t : State Unit}
  {e : Event Unit} {data : Nat → UInt8}

theorem TxStep.writing (h : TxStep C m tx m' tx' p) (hw : tx.Writing → m.closed = 0) :
    tx'.Writing → m'.closed = 0 := by
  cases h with
  | opened h => exact fun _ => h
  | loadWritePos | room | reload | store => exact fun _ => hw trivial
  | _ => exact fun h => absurd h id

theorem TxStep.closed_eq (h : TxStep C m tx m' tx' p) (hc : ¬ tx.closing) : m'.closed = m.closed := by
  cases h with
  | storeClosed => exact absurd rfl hc
  | _ => rfl

theorem TxStep.writePos_eq (h : TxStep C m tx m' tx' p) (hn : ¬ tx.Writing) : m'.writePos = m.writePos := by
  cases h with
  | publish => exact absurd trivial hn
  | _ => rfl

theorem Closing.txStep (h : Closing m tx rx) (hs : TxStep C m tx m' tx' p)
    (hd : tx.closing → rx.sawEmpty m.readPos → m.writePos = m.readPos) : Closing m' tx' rx := by
  have hr : m'.readPos = m.readPos := hs.readPos_eq
  have hw := hs.writing h.writing
  by_cases hc : tx.closing
  · have hwp : m'.writePos = m.writePos := by
      cases hs with
      | storeClosed => rfl
      | _ => cases hc
    refine ⟨hw, fun _ he => ?_, fun r hrx he => ?_, h.roomy⟩
    · rw [hr] at he ⊢
      exact hwp.trans (hd hc he)
    · obtain ⟨-, heq⟩ := h.eof r hrx he
      refine ⟨?_, by rw [hwp, hr, heq]⟩
      cases hs with
      | storeClosed => exact Nat.one_ne_zero
      | _ => cases hc
  · have hcl := hs.closed_eq hc
    -- Once the flag is set, no write is on its way, so the position stays.
    have hwp : m.closed ≠ 0 → m'.writePos = m.writePos := fun hne => hs.writePos_eq fun hwr => hne (h.writing hwr)
    refine ⟨hw, fun hne he => ?_, fun r hrx he => ?_, h.roomy⟩
    · rw [hcl] at hne
      rw [hr] at he
      rw [hwp hne, hr, h.sawEmpty hne he]
    · obtain ⟨hne, heq⟩ := h.eof r hrx he
      exact ⟨hcl ▸ hne, by rw [hwp hne, hr, heq]⟩

theorem RxCall.Roomy.someAvailable {c : RxCall} (h : c.Roomy) {n : Nat} (hn : n ≠ 0) :
    (c.someAvailable n).Roomy := by
  cases c with
  | pollReadReady => trivial
  | tryRead len | readBlocking len | pollRead len =>
    have : 0 < len := h
    show 0 < min len n
    omega

theorem RxCall.Roomy.again {c : RxCall} (h : c.Roomy) {left : Nat} : (c.again left).Roomy := by
  cases c with
  | pollRead | pollReadReady =>
    simp only [RxCall.again]
    split
    · trivial
    · exact h
  | _ => exact h

theorem RxStep.roomy (hs : RxStep C m rx m' rx' p) (h : rx.Roomy) : rx'.Roomy := by
  cases hs with
  | sawSome _ hn => exact RxCall.Roomy.someAvailable h hn
  | @stillOpen c left =>
    cases c with
    | tryRead len => trivial
    | _ => exact h
  | wait => exact RxCall.Roomy.again h
  | availableOverflow | eof | chunkOverflow | publish | eofAgain => trivial
  | _ => exact h

/-- Only a look at the flag ends a call with the end of the stream. -/
theorem RxStep.eof_inv (hs : RxStep C m rx m' rx' p) (h : rx.Roomy) {r : RxResult} (hrx : rx' = .returned r)
    (he : r.eof) : m' = m ∧ m.closed ≠ 0 ∧ rx.sawEmpty m.readPos := by
  cases hs with
  | @sawSome c left writePos n h' hn =>
    cases c <;> cases hrx
    simp [RxResult.eof, hn] at he
  | eof h' | eofAgain h' => exact ⟨rfl, h', rfl⟩
  | @stillOpen c left =>
    cases c <;> cases hrx
    cases he
  | @publish toRead readPos first buf hle =>
    cases hrx
    have hpos : 0 < toRead := h
    have : buf = [] := by simpa [RxResult.eof] using he
    subst this
    simp at hle
    omega
  | @wait c left current =>
    cases c with
    | pollRead len | pollReadReady =>
      simp only [RxCall.again] at hrx
      split at hrx <;> cases hrx
      cases he
    | _ => cases hrx
  | _ => cases hrx

theorem RxStep.sawEmpty_inv (hs : RxStep C m rx m' rx' p) (hr : m.readPos < C) (hne : m.closed ≠ 0)
    (he : rx'.sawEmpty m'.readPos) : m' = m ∧ (rx.sawEmpty m.readPos ∨ m.writePos = m.readPos) := by
  cases hs with
  | loadWritePos => exact ⟨rfl, .inr (by simpa [RxPc.sawEmpty] using he)⟩
  | @sawEmpty c left writePos h =>
    rw [dataAvailable_eq hr] at h
    have := (Ring.dist_eq_zero hr).mp (Option.some.inj h)
    exact ⟨rfl, .inl (by simp [RxPc.sawEmpty, this])⟩
  | @sawSome c left writePos n h hn => cases c <;> cases he
  | stillOpen h | openAgain h => exact absurd h hne
  | @wait c left current =>
    cases c with
    | pollRead len | pollReadReady =>
      simp only [RxCall.again] at he
      split at he <;> cases he
    | _ => cases he
  | _ => cases he

theorem Closing.rxStep (h : Closing m tx rx) (hs : RxStep C m rx m' rx' p) (hst : Stored C m a r) :
    Closing m' tx rx' := by
  have hcl : m'.closed = m.closed := by cases hs <;> rfl
  refine ⟨hcl ▸ h.writing, fun hne he => ?_, fun r hrx he => ?_, hs.roomy h.roomy⟩
  · rw [hcl] at hne
    obtain ⟨rfl, he | heq⟩ := hs.sawEmpty_inv hst.readPos_lt hne he
    · exact h.sawEmpty hne he
    · exact heq
  · obtain ⟨rfl, hne, hse⟩ := hs.eof_inv h.roomy hrx he
    exact ⟨hne, h.sawEmpty hne hse⟩

theorem Closing.init : Closing (.withCapacity data) (.returned .created) (.returned (.read none)) where
  writing h := absurd h id
  sawEmpty h := absurd rfl h
  eof r hrx he := by
    cases hrx
    cases he
  roomy := trivial

theorem Closing.step (hsolo : Solo C s) (h : Closing s.mem (s.tx ()) s.rx) (ho : ClosesDrained s e)
    (hs : Pipe.step C s e = some t) : Closing t.mem (t.tx ()) t.rx := by
  cases e with
  | txCall i c =>
    obtain ⟨_, -, -, rfl⟩ := step_txCall_inv hs
    refine ⟨fun hw => ?_, h.sawEmpty, h.eof, h.roomy⟩
    cases c <;> exact absurd hw id
  | txStep i =>
    obtain ⟨m, pc, published, hstep, rfl⟩ := step_txStep_inv hs
    exact h.txStep hstep ho
  | rxCall c =>
    obtain ⟨_, -, rfl⟩ := step_rxCall_inv hs
    refine ⟨h.writing, fun _ he => ?_, fun r hrx _ => ?_, ?_⟩
    · cases c <;> cases he
    · cases c <;> cases hrx
    · cases c <;> exact ho
  | rxStep =>
    obtain ⟨m, pc, published, hstep, rfl⟩ := step_rxStep_inv hs
    exact h.rxStep hstep hsolo.inv.stored

/-! ### The end of the stream -/

/-- In every run that sets the flag only while the buffer is empty or the reader is not about to look at the
    flag, the end of the stream is reported only at its end. -/
theorem eof_at_end (hC : 1 ≤ C) (hr : ReachVia (Pipe.step C) ClosesDrained (State.init () data) s) : EofAtEnd s := by
  have h : Solo C s ∧ Closing s.mem (s.tx ()) s.rx :=
    hr.invariant (I := fun s => Solo C s ∧ Closing s.mem (s.tx ()) s.rx) ⟨.init hC, .init⟩
      fun h ho hs => ⟨h.1.step hs, h.2.step h.1 ho hs⟩
  intro r hrx he
  have hstored := h.1.inv.stored
  obtain ⟨-, hpos⟩ := h.2.eof r hrx he
  have hempty : s.mem.buffered C = [] := by simp [Memory.buffered, Memory.occupied, hpos]
  rw [hstored.stream, hempty, List.append_nil]

/-- The writer closes after the reader has taken the byte. -/
def drainedRun : List (Event Unit) :=
  Event.tx () (.writeData [7]) 7 ++ Event.rx (.readBlocking 4) 5 ++ Event.tx () .close 2 ++ Event.rx (.readBlocking 4) 3

theorem eof_at_end_drained :
    ∃ s, ReachVia (step 8) ClosesDrained (State.init () fun _ => 0) s ∧ s.rx = .returned (.read (some [])) ∧
      EofAtEnd s := by
  obtain ⟨s, hr, hp⟩ :
      ∃ s, ReachVia (step 8) ClosesDrained (State.init () fun _ => 0) s ∧ s.rx = .returned (.read (some [])) :=
    exists_reachVia drainedRun _ (by decide) (by decide)
  exact ⟨s, hr, hp, eof_at_end (by decide) hr⟩

theorem RxCall.atEof_eof (c : RxCall) : c.atEof.eof := by cases c <;> rfl

theorem not_eofAtEnd (h : Solo C s) (hne : s.mem.writePos ≠ s.mem.readPos) {c : RxCall}
    (hrx : t.rx = .returned c.atEof) (hret : t.returned = s.returned) (hacc : t.accepted = s.accepted) :
    ¬ EofAtEnd t := by
  intro hend
  have heq := hend _ hrx c.atEof_eof
  have hstored := h.inv.stored
  rw [hret, hacc, hstored.stream, List.self_eq_append_right] at heq
  have hlen := congrArg List.length heq
  simp only [Memory.buffered, Ring.contents_length, List.length_nil] at hlen
  exact hne ((Ring.dist_eq_zero hstored.readPos_lt).mp hlen).symm

/-- A close that does not meet the condition is reported too early: at most two accesses later the reader is told
    that the stream has ended. -/
theorem early_close_reports_eof (h : Solo C s) (hc : (s.tx ()).closing) (he : s.rx.sawEmpty s.mem.readPos)
    (hne : s.mem.writePos ≠ s.mem.readPos) :
    ∃ n ≤ 2, ∃ t, run (step C) s (.txStep () :: .replicate n .rxStep) = some t ∧ ¬ EofAtEnd t := by
  obtain ⟨r, htx⟩ : ∃ r, s.tx () = .storeClosed r := by
    generalize s.tx () = tx at hc
    cases tx with
    | storeClosed r => exact ⟨r, rfl⟩
    | _ => cases hc
  -- The state once the reader has looked at the flag.
  let final (c : RxCall) : State Unit :=
    { s with
      mem := { s.mem with closed := 1 }, tx := Function.update s.tx () (.notifyClosed r), rx := .returned c.atEof }
  have hfinal (c : RxCall) : ¬ EofAtEnd (final c) := not_eofAtEnd h hne rfl rfl rfl
  cases hrx : s.rx with
  | loadReadPos c left writePos =>
    rw [hrx] at he
    obtain rfl : writePos = s.mem.readPos := by simpa [RxPc.sawEmpty] using he
    refine ⟨2, Nat.le_refl _, final c, ?_, hfinal c⟩
    simp [step, htx, hrx, TxPc.access, RxPc.access, dataAvailable_eq h.inv.stored.readPos_lt, final,
      List.replicate_succ]
  | loadClosed c left | recheckClosed c left =>
    refine ⟨1, by decide, final c, ?_, hfinal c⟩
    simp [step, htx, hrx, TxPc.access, RxPc.access, final]
  | _ =>
    rw [hrx] at he
    cases he

/-- The reader finds the buffer empty, the writer writes a byte and closes, and the reader looks at the flag. -/
def racingClose : List (Event Unit) :=
  Event.rx (.tryRead 4) 2 ++ Event.tx () (.writeData [7]) 7 ++ Event.tx () .close 1 ++ [.rxStep]

theorem racing_close_reports_eof :
    ¬ ∀ s, ReachVia (step 8) RoomyReads (State.init () fun _ => 0) s → EofAtEnd s := by
  intro h
  obtain ⟨s, hr, hrx, hret, hacc⟩ :
      ∃ s, ReachVia (step 8) RoomyReads (State.init () fun _ => 0) s ∧
        s.rx = .returned (.read (some [])) ∧ s.returned = [] ∧ s.accepted = [[7]] :=
    exists_reachVia racingClose _ (by decide) (by decide)
  have := h s hr _ hrx rfl
  simp [hret, hacc] at this

end Pipe
end WasmerJs
