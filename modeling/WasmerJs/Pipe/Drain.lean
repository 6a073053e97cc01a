import WasmerJs.Pipe.Eof
import WasmerJs.Pipe.Progress

/-! A closed pipe is drained. Whatever the transmit end still does, a reader that goes on to read gets everything that
    was accepted and is then told that the stream has ended, after a bounded number of accesses. -/

namespace WasmerJs
namespace Pipe

open Transition

/-- The calls that take bytes out of the pipe. -/
def RxCall.reads : RxCall → Bool
  | .tryRead _ | .readBlocking _ | .pollRead _ => true
  | .pollReadReady => false

/-- The flag is set as in `ClosesDrained`, and the reader only reads. -/
def Reading (s : State Unit) : Event Unit → Prop
  | .rxCall c => ClosesDrained s (.rxCall c) ∧ c.reads
  | e => ClosesDrained s e

instance : ∀ s e, Decidable (Reading s e)
  | s, .rxCall c => inferInstanceAs (Decidable (ClosesDrained s (.rxCall c) ∧ c.reads))
  | s, .txCall i c => inferInstanceAs (Decidable (ClosesDrained s (.txCall i c)))
  | s, .txStep i => inferInstanceAs (Decidable (ClosesDrained s (.txStep i)))
  | s, .rxStep => inferInstanceAs (Decidable (ClosesDrained s .rxStep))

/-- The events of the reader. -/
def Event.isRx {ι : Type} : Event ι → Bool
  | .rxCall _ | .rxStep => true
  | .txCall .. | .txStep _ => false

/-- A reader in one of the calls that take bytes. -/
def RxPc.Reads : RxPc → Prop
  | .loadWritePos c _ | .loadReadPos c _ _ | .loadClosed c _ | .recheckClosed c _ | .loadNotify c _ | .wait c _ _ =>
    c.reads
  | .reloadReadPos _ | .copy .. | .returned _ | .overflow => True

instance : DecidablePred RxPc.Reads
  | .loadWritePos c _ | .loadReadPos c _ _ | .loadClosed c _ | .recheckClosed c _ | .loadNotify c _ | .wait c _ _ =>
    inferInstanceAs (Decidable (c.reads = true))
  | .reloadReadPos _ | .copy .. | .returned _ | .overflow => isTrue trivial

/-- How many events of the reader are left on a closed pipe until it is told of the end: seven for each of the `n`
    bytes in the buffer, which covers a call that returns only that byte, and those of the last call. -/
def RxPc.drain (n : Nat) : RxPc → Nat
  | .returned r => if r.eof then 0 else 7 * n + 4
  | .loadWritePos .. => 7 * n + 3
  | .loadReadPos .. => 7 * n + 2
  | .loadClosed .. | .recheckClosed .. => 7 * n + 1
  | .loadNotify .. => 7 * n + 6
  | .wait .. => 7 * n + 5
  | .reloadReadPos toRead => 7 * (n - toRead) + toRead + 6
  | .copy toRead _ _ buf => 7 * (n - toRead) + (toRead - buf.length) + 5
  | .overflow => 0

variable {C : Nat} {m m' : Memory} {rx rx' : RxPc} {tx : TxPc} {a r p : List Bytes} {s t : State Unit}
  {e : Event Unit} {es : List (Event Unit)} {data : Nat → UInt8}

theorem Reading.closesDrained (h : Reading s e) : ClosesDrained s e := by
  cases e with
  | rxCall => exact h.1
  | _ => exact h

/-! ### Accesses -/

theorem RxStep.reads (h : RxStep C m rx m' rx' p) (hc : rx.Reads) : rx'.Reads := by
  cases h with
  | @sawSome c left writePos n h' hn => cases c <;> trivial
  | @stillOpen c left => cases c <;> trivial
  | @wait c left current =>
    cases c with
    | pollReadReady => cases hc
    | tryRead | readBlocking => exact hc
    | pollRead =>
      simp only [RxCall.again]
      split <;> trivial
  | availableOverflow | eof | chunkOverflow | publish | eofAgain => trivial
  | _ => exact hc

theorem RxPc.drain_le {n : Nat} (h : ∀ toRead, rx = .reloadReadPos toRead → toRead ≤ n)
    (hcopy : ∀ toRead readPos first buf, rx = .copy toRead readPos first buf → toRead ≤ n) :
    rx.drain n ≤ 7 * n + 6 := by
  cases rx with
  | returned r =>
    simp only [drain]
    split <;> omega
  | reloadReadPos toRead =>
    have := h toRead rfl
    simp only [drain]
    omega
  | copy toRead readPos first buf =>
    have := hcopy toRead readPos first buf rfl
    simp only [drain]
    omega
  | _ =>
    simp only [drain]
    omega

/-- Each access of the reader brings it closer to the end, unless it has been told. -/
theorem RxStep.drain_lt (h : RxStep C m rx m' rx' p) (hst : Stored C m a r) (hok : RxOk C m rx)
    (hcl : Closing m tx rx) (hne : m.closed ≠ 0) (hc : rx.Reads) :
    rx'.drain (m'.occupied C) < rx.drain (m.occupied C) := by
  have hroomy := hcl.roomy
  cases h with
  | loadWritePos | loadNotify =>
    simp only [RxPc.drain]
    omega
  | availableOverflow h => simp [dataAvailable_eq hst.readPos_lt] at h
  | sawEmpty =>
    simp only [RxPc.drain]
    omega
  | @sawSome c left writePos n h hn =>
    rw [dataAvailable_eq hst.readPos_lt] at h
    obtain ⟨-, hle⟩ := hok
    obtain rfl := Option.some.inj h
    cases c with
    | pollReadReady => cases hc
    | tryRead len | readBlocking len | pollRead len =>
      have hlen : 0 < len := hroomy
      simp only [RxCall.someAvailable, RxPc.drain]
      omega
  | eof h | eofAgain h =>
    simp only [RxPc.drain, RxCall.atEof_eof, if_true]
    omega
  | stillOpen h | openAgain h => exact absurd h hne
  | chunkOverflow h => simp [chunkSizes_eq hst.readPos_lt] at h
  | reload =>
    simp only [RxPc.drain, List.length_nil]
    omega
  | load h =>
    simp only [RxPc.drain, List.length_append, List.length_singleton]
    omega
  | @publish toRead readPos first buf h =>
    obtain ⟨-, hocc⟩ := hok.publish_occupied hst
    simp only [RxPc.drain, hocc]
    split <;> omega
  | @wait c left current =>
    cases c with
    | pollReadReady => cases hc
    | tryRead | readBlocking =>
      simp only [RxPc.drain, RxCall.again]
      omega
    | pollRead =>
      simp only [RxCall.again]
      split
      · simp [RxPc.drain, RxResult.eof]
      · simp only [RxPc.drain]
        omega

/-! ### Runs -/

/-- What holds while the reader only reads. -/
structure Consuming (C : Nat) (s : State Unit) : Prop where
  solo : Solo C s
  closing : Closing s.mem (s.tx ()) s.rx
  reads : s.rx.Reads

/-- The reader has been told of the end and has got everything. -/
def Drained (s : State Unit) : Prop :=
  (∃ r, s.rx = .returned r ∧ r.eof) ∧ s.returned.flatten = s.accepted.flatten

theorem closed_ne (hs : step C s e = some t) (hne : s.mem.closed ≠ 0) : t.mem.closed ≠ 0 := by
  cases e with
  | txCall =>
    obtain ⟨r, -, -, rfl⟩ := step_txCall_inv hs
    exact hne
  | txStep =>
    obtain ⟨m, pc, published, hstep, rfl⟩ := step_txStep_inv hs
    exact hstep.closed_ne hne
  | rxCall =>
    obtain ⟨r, -, rfl⟩ := step_rxCall_inv hs
    exact hne
  | rxStep =>
    obtain ⟨m, pc, published, hstep, rfl⟩ := step_rxStep_inv hs
    exact hstep.closed_eq ▸ hne

namespace Consuming

/-- A reader that does not ask only whether there is something is in a state from which reading drains the pipe. -/
theorem of_reach (hC : 1 ≤ C) (hs : ReachVia (Pipe.step C) ClosesDrained (State.init () data) s) (hrx : s.rx.Reads) :
    Consuming C s := by
  have h : Solo C s ∧ Closing s.mem (s.tx ()) s.rx :=
    hs.invariant (I := fun s => Solo C s ∧ Closing s.mem (s.tx ()) s.rx) ⟨.init hC, .init⟩
      fun h ho hs => ⟨h.1.step hs, h.2.step h.1 ho hs⟩
  exact ⟨h.1, h.2, hrx⟩

theorem step (h : Consuming C s) (ho : Reading s e) (hs : Pipe.step C s e = some t) : Consuming C t := by
  refine ⟨h.solo.step hs, h.closing.step h.solo ho.closesDrained hs, ?_⟩
  cases e with
  | txCall =>
    obtain ⟨r, -, -, rfl⟩ := step_txCall_inv hs
    exact h.reads
  | txStep =>
    obtain ⟨m, pc, published, -, rfl⟩ := step_txStep_inv hs
    exact h.reads
  | rxCall c =>
    obtain ⟨r, -, rfl⟩ := step_rxCall_inv hs
    have hc := ho.2
    cases c with
    | pollReadReady => cases hc
    | tryRead | readBlocking | pollRead => rfl
  | rxStep =>
    obtain ⟨m, pc, published, hstep, rfl⟩ := step_rxStep_inv hs
    exact hstep.reads h.reads

theorem drained (h : Consuming C s) {r : RxResult} (hrx : s.rx = .returned r) (he : r.eof) : Drained s := by
  have hstored := h.solo.inv.stored
  obtain ⟨-, hpos⟩ := h.closing.eof r hrx he
  have hempty : s.mem.buffered C = [] := by simp [Memory.buffered, Memory.occupied, hpos]
  exact ⟨⟨r, hrx, he⟩, by rw [hstored.stream, hempty, List.append_nil]⟩

theorem drain_le (h : Consuming C s) : s.rx.drain (s.mem.occupied C) ≤ 7 * s.mem.occupied C + 6 := by
  have hok := h.solo.inv.rx
  refine RxPc.drain_le (fun toRead hrx => ?_) fun toRead readPos first buf hrx => ?_
  · rw [hrx] at hok
    exact hok
  · rw [hrx] at hok
    exact hok.2.2.1

theorem done (h : Consuming C s) (hzero : s.rx.drain (s.mem.occupied C) = 0) : Drained s := by
  cases hrx : s.rx with
  | returned r =>
    rw [hrx] at hzero
    refine h.drained hrx ?_
    by_contra he
    simp only [RxPc.drain, if_neg he] at hzero
    omega
  | overflow =>
    have hok := h.solo.inv.rx
    rw [hrx] at hok
    cases hok
  | _ =>
    rw [hrx] at hzero
    simp only [RxPc.drain] at hzero
    omega

/-- Nobody brings the reader farther away from the end, and its own events bring it closer. -/
theorem rank_le (h : Consuming C s) (hclosed : s.mem.closed ≠ 0) (hp : ¬ Drained s) (ho : Reading s e)
    (hs : Pipe.step C s e = some t) :
    t.rx.drain (t.mem.occupied C) ≤ s.rx.drain (s.mem.occupied C) ∧
      (e.isRx → t.rx.drain (t.mem.occupied C) < s.rx.drain (s.mem.occupied C)) := by
  cases e with
  | txCall =>
    obtain ⟨r, -, -, rfl⟩ := step_txCall_inv hs
    exact ⟨Nat.le_refl _, fun hown => by cases hown⟩
  | txStep =>
    obtain ⟨m, pc, published, hstep, rfl⟩ := step_txStep_inv hs
    -- No write is on its way any more, so both positions stay.
    have hw := hstep.writePos_eq fun hwr => hclosed (h.closing.writing hwr)
    have hr : m.readPos = s.mem.readPos := hstep.readPos_eq
    have hocc : m.occupied C = s.mem.occupied C := by simp [Memory.occupied, hw, hr]
    exact ⟨Nat.le_of_eq (by rw [hocc]), fun hown => by cases hown⟩
  | rxCall c =>
    obtain ⟨r, hret, rfl⟩ := step_rxCall_inv hs
    have he : r.eof ≠ true := fun he => hp (h.drained hret he)
    have hlt : (RxCall.start c).drain (s.mem.occupied C) < s.rx.drain (s.mem.occupied C) := by
      rw [hret]
      cases c <;> simp only [RxCall.start, RxPc.drain, if_neg he] <;> omega
    exact ⟨Nat.le_of_lt hlt, fun _ => hlt⟩
  | rxStep =>
    obtain ⟨m, pc, published, hstep, rfl⟩ := step_rxStep_inv hs
    have hlt := hstep.drain_lt h.solo.inv.stored h.solo.inv.rx h.closing hclosed h.reads
    exact ⟨Nat.le_of_lt hlt, fun _ => hlt⟩

end Consuming

/-- From every state of a closed pipe that is reached without a racing close, the reader not being in the middle of
    `poll_read_ready`, and in every such run from there in which the reader only reads: with seven events of the reader
    for each byte that is left and six more, the reader gets all the bytes that were accepted and is told that the
    stream has ended. -/
theorem closed_pipe_drains (hC : 1 ≤ C) (hs : ReachVia (step C) ClosesDrained (State.init () data) s)
    (hrx : s.rx.Reads) (hclosed : s.mem.closed ≠ 0) (ho : RunOk (step C) Reading s es) (hr : run (step C) s es = some t)
    (hlen : 7 * s.mem.occupied C + 6 ≤ es.countP Event.isRx) : Passes (step C) Drained s es := by
  have h : Consuming C s := .of_reach hC hs hrx
  exact Passes.of_rank (I := fun s => Consuming C s ∧ s.mem.closed ≠ 0) (fun s => s.rx.drain (s.mem.occupied C))
    Event.isRx (fun h => h.1.done)
    (fun h hp ho hs => ⟨⟨h.1.step ho hs, closed_ne hs h.2⟩, h.1.rank_le h.2 hp ho hs⟩) ⟨h, hclosed⟩ ho hr
    (Nat.le_trans h.drain_le hlen)

/-- The transmit end writes three bytes and closes the pipe, and the reader asks in between whether it may read. -/
def fullRun : List (Event Unit) :=
  Event.tx () (.writeData [1, 2, 3]) 9 ++ Event.rx .pollReadReady 2 ++ Event.tx () .close 2

/-- The reader takes a byte at a time. -/
def drainRun : List (Event Unit) :=
  Event.rx (.readBlocking 1) 5 ++ Event.rx (.tryRead 1) 5 ++ Event.rx (.pollRead 1) 5 ++ Event.rx (.tryRead 1) 3 ++
    Event.rx (.tryRead 1) 3 ++ [.rxCall (.tryRead 1)]

theorem closed_pipe_drains_full :
    ∃ s, ReachVia (step 8) ClosesDrained (State.init () fun _ => 0) s ∧ s.rx.Reads ∧ s.mem.closed ≠ 0 ∧
      Passes (step 8) Drained s drainRun := by
  obtain ⟨s, hs, hrx, hclosed, hok, hsome, hlen⟩ :
      ∃ s, ReachVia (step 8) ClosesDrained (State.init () fun _ => 0) s ∧ s.rx.Reads ∧ s.mem.closed ≠ 0 ∧
        RunOk (step 8) Reading s drainRun ∧ (run (step 8) s drainRun).isSome ∧
        7 * s.mem.occupied 8 + 6 ≤ drainRun.countP Event.isRx :=
    exists_reachVia fullRun _ (by decide) (by decide)
  obtain ⟨t, hr⟩ := Option.isSome_iff_exists.mp hsome
  exact ⟨s, hs, hrx, hclosed, closed_pipe_drains (by decide) hs hrx hclosed hok hr hlen⟩

end Pipe
end WasmerJs
