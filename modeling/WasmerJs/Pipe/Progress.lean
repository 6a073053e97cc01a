import WasmerJs.Pipe.Writers

/-! How long the calls on a pipe take. Whatever the other ends do in between, a call comes to its end after a bounded
    number of its own accesses; `read_blocking` does from the moment on when there are bytes to read, or the pipe is
    closed, because its wait ends by itself. -/

namespace WasmerJs
namespace Pipe

open Transition

/-! ### Bounds -/

/-- How many accesses a transmit end still makes at most. -/
def TxPc.accesses : TxPc → Nat
  | .returned _ | .overflow => 0
  | .loadClosed data => data.length + 6
  | .loadWritePos data => data.length + 5
  | .loadReadPos data _ => data.length + 4
  | .reloadWritePos _ toWrite => toWrite + 3
  | .copy chunk _ _ i => chunk.length - i + 2
  | .notifyReaders _ => 1
  | .storeClosed _ => 2
  | .notifyClosed _ => 1
  | .subTxCount => 3
  | .addTxCount => 1

/-- The length of the buffer that the reader passes. -/
def RxCall.len : RxCall → Nat
  | .tryRead len | .readBlocking len | .pollRead len => len
  | .pollReadReady => 0

def RxCall.isBlocking : RxCall → Bool
  | .readBlocking _ => true
  | .tryRead _ | .pollRead _ | .pollReadReady => false

/-- The calls that wait, but not for ever. -/
def RxCall.polls : RxCall → Bool
  | .pollRead _ | .pollReadReady => true
  | .tryRead _ | .readBlocking _ => false

/-- How many accesses a reader still makes at most that does not block: six in each iteration, the load and the store
    of the position, and the bytes. -/
def RxPc.accesses : RxPc → Nat
  | .returned _ | .overflow => 0
  | .loadWritePos c left => c.len + 6 * (left - 1) + 8
  | .loadReadPos c left _ => c.len + 6 * (left - 1) + 7
  | .loadClosed c left => c.len + 6 * (left - 1) + 6
  | .recheckClosed c left => c.len + 6 * (left - 1) + 5
  | .loadNotify c left => c.len + 6 * (left - 1) + 4
  | .wait c left _ => c.len + 6 * (left - 1) + 3
  | .reloadReadPos toRead => toRead + 2
  | .copy toRead _ _ buf => toRead - buf.length + 1

/-- The call of a reader that does not block. -/
def RxPc.Bounded : RxPc → Prop
  | .loadWritePos c _ | .loadReadPos c _ _ | .loadClosed c _ => c.isBlocking = false
  | .recheckClosed c _ | .loadNotify c _ | .wait c _ _ => c.polls
  | .reloadReadPos _ | .copy .. | .returned _ | .overflow => True

/-- Bytes are there, or the pipe is closed. -/
def Memory.Ready (C : Nat) (m : Memory) : Prop := m.occupied C ≠ 0 ∨ m.closed ≠ 0

/-- How many accesses `read_blocking` still makes at most while the memory is ready. Only a look at the positions from
    before that makes it wait once more. -/
def RxPc.accessesReady (C : Nat) (m : Memory) : RxPc → Nat
  | .returned _ | .overflow => 0
  | .loadReadPos c _ writePos => if Ring.dist C m.readPos writePos = 0 ∧ m.closed = 0 then c.len + 9 else c.len + 3
  | .loadClosed c _ => if m.closed = 0 then c.len + 8 else 1
  | .recheckClosed c _ => if m.closed = 0 then c.len + 7 else 1
  | .loadNotify c _ => c.len + 6
  | .wait c _ _ => c.len + 5
  | .loadWritePos c _ => c.len + 4
  | .reloadReadPos toRead => toRead + 2
  | .copy toRead _ _ buf => toRead - buf.length + 1

/-- `read_blocking` has not found any bytes yet. -/
def RxPc.Looks : RxPc → Prop
  | .loadWritePos c _ | .loadReadPos c _ _ | .loadClosed c _ | .recheckClosed c _ | .loadNotify c _ | .wait c _ _ =>
    c.isBlocking
  | .reloadReadPos _ | .copy .. | .returned _ | .overflow => False

/-- A reader that is on the way to its end: it has found bytes, or there are some, or the pipe is closed. -/
def RxPc.Ending (C : Nat) (m : Memory) : RxPc → Prop
  | .reloadReadPos _ | .copy .. | .returned _ | .overflow => True
  | pc => pc.Looks ∧ m.Ready C

/-! ### Accesses -/

section Accesses

variable {C : Nat} {m m' : Memory} {tx tx' : TxPc} {rx rx' : RxPc} {p : List Bytes}

theorem TxStep.accesses_lt (h : TxStep C m tx m' tx' p) : tx'.accesses < tx.accesses := by
  cases h with
  | room =>
    simp only [TxPc.accesses]
    omega
  | reload =>
    simp only [TxPc.accesses, List.length_take]
    omega
  | store h =>
    have := (List.getElem?_eq_some_iff.mp h).1
    simp only [TxPc.accesses]
    omega
  | _ => simp [TxPc.accesses]

theorem RxCall.someAvailable_accesses (c : RxCall) (n : Nat) : (c.someAvailable n).accesses ≤ c.len + 2 := by
  cases c <;> simp [someAvailable, RxPc.accesses, len]

theorem RxStep.accesses_lt (h : RxStep C m rx m' rx' p) (hb : rx.Bounded) :
    rx'.Bounded ∧ rx'.accesses < rx.accesses := by
  cases h with
  | loadWritePos => exact ⟨hb, by simp [RxPc.accesses]⟩
  | availableOverflow | eof | chunkOverflow | publish | eofAgain => exact ⟨trivial, by simp [RxPc.accesses]⟩
  | sawEmpty => exact ⟨hb, by simp [RxPc.accesses]⟩
  | @sawSome c left writePos n =>
    refine ⟨by cases c <;> trivial, Nat.lt_of_le_of_lt (c.someAvailable_accesses n) ?_⟩
    simp only [RxPc.accesses]
    omega
  | @stillOpen c left =>
    cases c with
    | readBlocking => cases hb
    | tryRead => exact ⟨trivial, by simp [RxCall.stillOpen, RxPc.accesses]⟩
    | pollRead | pollReadReady => exact ⟨rfl, by simp [RxCall.stillOpen, RxPc.accesses, RxCall.len]⟩
  | reload => exact ⟨trivial, by simp [RxPc.accesses]⟩
  | load h =>
    refine ⟨trivial, ?_⟩
    simp only [RxPc.accesses, List.length_append, List.length_singleton]
    omega
  | openAgain => exact ⟨hb, by simp [RxPc.accesses]⟩
  | loadNotify => exact ⟨hb, by simp [RxPc.accesses]⟩
  | @wait c left current =>
    cases c with
    | tryRead | readBlocking => cases hb
    | pollRead | pollReadReady =>
      simp only [RxCall.again]
      split
      · exact ⟨trivial, by simp [RxPc.accesses]⟩
      · refine ⟨rfl, ?_⟩
        simp only [RxPc.accesses]
        omega

theorem RxCall.len_of_blocking {c : RxCall} (hc : c.isBlocking) : c = .readBlocking c.len := by
  cases c <;> first | rfl | cases hc

/-- While the memory is ready, `read_blocking` comes closer to its end with each access. -/
theorem RxStep.accessesReady_lt {a r : List Bytes} (h : RxStep C m rx m' rx' p) (hst : Stored C m a r)
    (he : rx.Ending C m) :
    rx'.Ending C m' ∧ (rx'.accessesReady C m' < rx.accessesReady C m) := by
  cases h with
  | @loadWritePos c left =>
    refine ⟨he, ?_⟩
    simp only [RxPc.accessesReady]
    rw [if_neg fun hd => he.2.elim (absurd hd.1) (absurd hd.2)]
    omega
  | availableOverflow h => simp [dataAvailable_eq hst.readPos_lt] at h
  | @sawEmpty c left writePos h =>
    rw [dataAvailable_eq hst.readPos_lt] at h
    refine ⟨he, ?_⟩
    simp only [RxPc.accessesReady, Option.some.inj h, true_and]
    split <;> omega
  | @sawSome c left writePos n h hn =>
    obtain ⟨hc, -⟩ := he
    rw [dataAvailable_eq hst.readPos_lt] at h
    rw [RxCall.len_of_blocking hc]
    refine ⟨trivial, ?_⟩
    simp only [RxPc.accessesReady, RxCall.someAvailable, Option.some.inj h, hn, false_and, if_false, RxCall.len]
    omega
  | eof h | eofAgain h => exact ⟨trivial, by simp [RxPc.accessesReady, h]⟩
  | @stillOpen c left h =>
    obtain ⟨hc, hm⟩ := he
    rw [RxCall.len_of_blocking hc]
    exact ⟨⟨rfl, hm⟩, by simp [RxPc.accessesReady, RxCall.stillOpen, RxCall.len, h]⟩
  | chunkOverflow h => simp [chunkSizes_eq hst.readPos_lt] at h
  | reload => exact ⟨trivial, by simp [RxPc.accessesReady]⟩
  | load h =>
    refine ⟨trivial, ?_⟩
    simp only [RxPc.accessesReady, List.length_append, List.length_singleton]
    omega
  | publish => exact ⟨trivial, by simp [RxPc.accessesReady]⟩
  | openAgain h => exact ⟨he, by simp [RxPc.accessesReady, h]⟩
  | loadNotify => exact ⟨he, by simp [RxPc.accessesReady]⟩
  | @wait c left current =>
    obtain ⟨hc, hm⟩ := he
    rw [RxCall.len_of_blocking hc]
    exact ⟨⟨rfl, hm⟩, by simp [RxPc.accessesReady, RxCall.again, RxCall.len]⟩

/-- Nobody opens a pipe again. -/
theorem TxStep.closed_ne (h : TxStep C m tx m' tx' p) (hne : m.closed ≠ 0) : m'.closed ≠ 0 := by
  cases h with
  | storeClosed => exact Nat.one_ne_zero
  | _ => exact hne

theorem RxStep.closed_eq (h : RxStep C m rx m' rx' p) : m'.closed = m.closed := by
  cases h <;> rfl

/-- The accesses of a transmit end keep the memory ready, and a reader as close to its end as it was. -/
theorem TxStep.ending {a r : List Bytes} (h : TxStep C m tx m' tx' p) (hst : Stored C m a r) (hok : TxOk C m tx)
    (hroom : TxRoom C m tx) (he : rx.Ending C m) :
    rx.Ending C m' ∧ rx.accessesReady C m' ≤ rx.accessesReady C m := by
  have hread : m'.readPos = m.readPos := h.readPos_eq
  have hclosed : m.closed ≠ 0 → m'.closed ≠ 0 := h.closed_ne
  have hready : m.Ready C → m'.Ready C := by
    have hocc := h.occupied_le hst hok hroom
    exact Or.imp (fun h => by omega) hclosed
  have hopen : m'.closed = 0 → m.closed = 0 := not_imp_not.mp hclosed
  cases rx with
  | reloadReadPos | copy | returned | overflow => exact ⟨trivial, Nat.le_refl _⟩
  | loadReadPos c left writePos =>
    refine ⟨⟨he.1, hready he.2⟩, ?_⟩
    simp only [RxPc.accessesReady, hread]
    split <;> split <;> omega
  | loadClosed | recheckClosed =>
    refine ⟨⟨he.1, hready he.2⟩, ?_⟩
    simp only [RxPc.accessesReady]
    split <;> split <;> omega
  | loadWritePos | loadNotify | wait => exact ⟨⟨he.1, hready he.2⟩, Nat.le_refl _⟩

end Accesses

/-! ### Calls -/

section Calls

variable {ι : Type} [DecidableEq ι] {C : Nat} {s t u : State ι} {i i₀ : ι} {e : Event ι} {es : List (Event ι)}
  {data : Nat → UInt8}

theorem step_tx_eq (hs : step C s e = some t) (hc : ∀ r, s.tx i ≠ .returned r) (he : e ≠ .txStep i) :
    t.tx i = s.tx i := by
  cases e with
  | txCall j c =>
    obtain ⟨r, hret, -, rfl⟩ := step_txCall_inv hs
    by_cases hj : i = j
    · subst hj
      exact absurd hret (hc r)
    · exact Function.update_of_ne hj ..
  | txStep j =>
    obtain ⟨m, pc, published, -, rfl⟩ := step_txStep_inv hs
    have hj : i ≠ j := fun hij => he (by rw [hij])
    exact Function.update_of_ne hj ..
  | rxCall =>
    obtain ⟨r, -, rfl⟩ := step_rxCall_inv hs
    rfl
  | rxStep =>
    obtain ⟨m, pc, published, -, rfl⟩ := step_rxStep_inv hs
    rfl

theorem step_rx_eq (hs : step C s e = some t) (hc : ∀ r, s.rx ≠ .returned r) (he : e ≠ .rxStep) : t.rx = s.rx := by
  cases e with
  | txCall =>
    obtain ⟨r, -, -, rfl⟩ := step_txCall_inv hs
    rfl
  | txStep =>
    obtain ⟨m, pc, published, -, rfl⟩ := step_txStep_inv hs
    rfl
  | rxCall c =>
    obtain ⟨r, hret, -⟩ := step_rxCall_inv hs
    exact absurd hret (hc r)
  | rxStep => exact absurd rfl he

theorem tx_returns (hi : Inv C s) (ho : RunOk (step C) (Exclusive C) s es) (hr : run (step C) s es = some t)
    (hlen : (s.tx i).accesses ≤ es.count (.txStep i)) : Passes (step C) (fun u => ∃ r, u.tx i = .returned r) s es := by
  refine Passes.of_rank (fun s => (s.tx i).accesses) (· == .txStep i) (fun {s} hi hzero => ?_)
    (fun {s t e} hi hp hok hs => ?_) hi ho hr hlen
  · have hok := hi.tx i
    cases htx : s.tx i with
    | returned r => exact ⟨r, rfl⟩
    | overflow =>
      rw [htx] at hok
      cases hok
    | _ =>
      rw [htx] at hzero
      cases hzero
  · refine ⟨hi.step hok hs, ?_⟩
    by_cases he : e = .txStep i
    · subst he
      obtain ⟨m, pc, published, hstep, rfl⟩ := step_txStep_inv hs
      have hlt := hstep.accesses_lt
      rw [← Function.update_self (f := s.tx) i pc] at hlt
      exact ⟨Nat.le_of_lt hlt, fun _ => hlt⟩
    · rw [step_tx_eq hs (fun r hret => hp ⟨r, hret⟩) he]
      exact ⟨Nat.le_refl _, fun hown => absurd (eq_of_beq hown) he⟩

omit [DecidableEq ι] in
theorem Inv.rx_returned (hi : Inv C s) (hzero : s.rx.accesses = 0 ∨ s.rx.accessesReady C s.mem = 0) :
    ∃ r, s.rx = .returned r := by
  have hok := hi.rx
  cases hrx : s.rx with
  | returned r => exact ⟨r, rfl⟩
  | overflow =>
    rw [hrx] at hok
    cases hok
  | _ =>
    rw [hrx] at hzero
    simp only [RxPc.accesses, RxPc.accessesReady] at hzero
    first | omega | (split at hzero <;> omega)

/-- A call of the reader that does not block. -/
theorem rx_returns (hi : Inv C s) (ho : RunOk (step C) (Exclusive C) s es) (hr : run (step C) s es = some t)
    (hb : s.rx.Bounded) (hlen : s.rx.accesses ≤ es.count .rxStep) :
    Passes (step C) (fun u => ∃ r, u.rx = .returned r) s es := by
  refine Passes.of_rank (I := fun s => Inv C s ∧ s.rx.Bounded) (fun s => s.rx.accesses) (· == (.rxStep : Event ι))
    (fun hi hzero => hi.1.rx_returned (.inl hzero)) (fun {s t e} hi hp hok hs => ?_) ⟨hi, hb⟩ ho hr hlen
  obtain ⟨hinv, hb⟩ := hi
  by_cases he : e = .rxStep
  · subst he
    obtain ⟨m, pc, published, hstep, rfl⟩ := step_rxStep_inv hs
    obtain ⟨hb', hlt⟩ := hstep.accesses_lt hb
    exact ⟨⟨hinv.step hok hs, hb'⟩, Nat.le_of_lt hlt, fun _ => hlt⟩
  · have hrx := step_rx_eq hs (fun r hret => hp ⟨r, hret⟩) he
    exact ⟨⟨hinv.step hok hs, hrx ▸ hb⟩, Nat.le_of_eq (congrArg _ hrx), fun hown => absurd (eq_of_beq hown) he⟩

/-- `read_blocking`, once there is something to return. -/
theorem rx_returns_ready (hi : Inv C s) (ho : RunOk (step C) (Exclusive C) s es) (hr : run (step C) s es = some t)
    (he : s.rx.Ending C s.mem) (hlen : s.rx.accessesReady C s.mem ≤ es.count .rxStep) :
    Passes (step C) (fun u => ∃ r, u.rx = .returned r) s es := by
  refine Passes.of_rank (I := fun s => Inv C s ∧ s.rx.Ending C s.mem) (fun s => s.rx.accessesReady C s.mem)
    (· == (.rxStep : Event ι)) (fun hi hzero => hi.1.rx_returned (.inr hzero)) (fun {s t e} hi hp hok hs => ?_) ⟨hi, he⟩ ho hr hlen
  obtain ⟨hinv, hending⟩ := hi
  have hinv' := hinv.step hok hs
  cases e with
  | txCall =>
    obtain ⟨r, -, -, rfl⟩ := step_txCall_inv hs
    exact ⟨⟨hinv', hending⟩, Nat.le_refl _, fun hown => by cases hown⟩
  | txStep i =>
    obtain ⟨m, pc, published, hstep, rfl⟩ := step_txStep_inv hs
    obtain ⟨hending', hle⟩ := hstep.ending hinv.stored (hinv.tx i) hok.2 hending
    exact ⟨⟨hinv', hending'⟩, hle, fun hown => by cases hown⟩
  | rxCall =>
    obtain ⟨r, hret, -⟩ := step_rxCall_inv hs
    exact absurd ⟨r, hret⟩ hp
  | rxStep =>
    obtain ⟨m, pc, published, hstep, rfl⟩ := step_rxStep_inv hs
    obtain ⟨hending', hlt⟩ := hstep.accessesReady_lt hinv.stored hending
    exact ⟨⟨hinv', hending'⟩, Nat.le_of_lt hlt, fun _ => hlt⟩

/-- From every state that is reached without overlapping copies and in every such run from there: each transmit end
    comes to the end of its call within the accesses that are left to it, and so does a reader that does not block;
    `read_blocking` does once it has found bytes, or there are some, or the pipe is closed. -/
theorem calls_return (hC : 1 ≤ C) (hs : ReachVia (step C) (Exclusive C) (State.init i₀ data) s)
    (ho : RunOk (step C) (Exclusive C) s es) (hr : run (step C) s es = some t) :
    (∀ i, (s.tx i).accesses ≤ es.count (.txStep i) → Passes (step C) (fun u => ∃ r, u.tx i = .returned r) s es) ∧
    (s.rx.Bounded → s.rx.accesses ≤ es.count .rxStep → Passes (step C) (fun u => ∃ r, u.rx = .returned r) s es) ∧
    (s.rx.Ending C s.mem → s.rx.accessesReady C s.mem ≤ es.count .rxStep →
      Passes (step C) (fun u => ∃ r, u.rx = .returned r) s es) := by
  have hi := inv_of_reachVia hC hs
  exact ⟨fun i hlen => tx_returns hi ho hr hlen, fun hb hlen => rx_returns hi ho hr hb hlen,
    fun he hlen => rx_returns_ready hi ho hr he hlen⟩

/-- A byte is there when the reader starts to wait, and the transmit end closes the pipe while the reader takes it. -/
def closingRun : List (Event Unit) := Event.tx () (.writeData [7]) 7 ++ [.rxCall (.readBlocking 4), .txCall () .close]

def closingRest : List (Event Unit) :=
  .replicate 5 .rxStep ++ .replicate 2 (.txStep ()) ++ Event.rx (.readBlocking 4) 3

theorem calls_return_closing :
    ∃ s, ReachVia (step 8) (Exclusive 8) (State.init () fun _ => 0) s ∧
      Passes (step 8) (fun u => ∃ r, u.tx () = .returned r) s closingRest ∧
      Passes (step 8) (fun u => ∃ r, u.rx = .returned r) s closingRest := by
  obtain ⟨s, hs, hok, hsome, htx, hrx, hocc⟩ :
      ∃ s, ReachVia (step 8) (Exclusive 8) (State.init () fun _ => 0) s ∧
        RunOk (step 8) (Exclusive 8) s closingRest ∧ (run (step 8) s closingRest).isSome ∧
        s.tx () = .storeClosed .closed ∧ s.rx = .loadWritePos (.readBlocking 4) 1 ∧ s.mem.occupied 8 = 1 :=
    exists_reachVia closingRun _ (by decide) (by decide)
  obtain ⟨t, hr⟩ := Option.isSome_iff_exists.mp hsome
  obtain ⟨htxs, -, hready⟩ := calls_return (by decide) hs hok hr
  refine ⟨s, hs, htxs () (by rw [htx]; decide), hready ?_ (by rw [hrx]; exact (by decide : 8 ≤ closingRest.count .rxStep))⟩
  rw [hrx]
  exact ⟨rfl, .inl (by rw [hocc]; decide)⟩

end Calls

end Pipe
end WasmerJs
