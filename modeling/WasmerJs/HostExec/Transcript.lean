import WasmerJs.HostExec.Output
import WasmerJs.HostExec.Transport

/-! What a worker reads of a session, from the callbacks of the handler to the worker's responses: the messages that
    the callbacks produced, in their order, and the exit code after all that came before the promise settled. -/

namespace WasmerJs
namespace HostExec

open Transition

variable {W F : Type}

/-! ### Reads of one session -/

def Query.isReadOf (s : SessionId) : Query → Bool
  | hostExecRead s' | hostExecTryRead s' => s' = s
  | hostExecPoll _ => false

/-- An answer to a read or a try-read of session `s`. -/
def Effect.isAnswerOn (s : SessionId) : Effect W F → Bool
  | readResponse _ s' _ _ _ | noData _ s' => s' = s
  | startResponse .. | pollResponse .. | call .. => false

/-- What an answer says: the exit code or a message. -/
def Effect.outcome? : Effect W F → Option HostExecOutput
  | readResponse _ _ t v data => if t = MSG_TYPE_EXIT then some (.exit v) else data.map (outputOf t)
  | startResponse .. | noData .. | pollResponse .. | call .. => none

def Response.output? : Response → Option HostExecOutput
  | output o => some o
  | noData | ready _ | sessionMismatch .. => none

def HostExecOutput.isExit : HostExecOutput → Bool
  | exit _ => true
  | stdout _ | stderr _ | raw .. => false

/-- What the worker reads of session `s`: the outputs among its responses to reads of `s`. -/
def transcript (s : SessionId) (queries : List Query) (responses : List Response) : List HostExecOutput :=
  (queries.zip responses).filterMap fun (q, r) => if q.isReadOf s then r.output? else none

section Answers

variable {w : W} {s : SessionId} {q : Query} {x : Effect W F} {m : SchedulerMessage W} {v : Slot W F}

theorem Query.AnsweredBy.isAnswerOn (h : q.AnsweredBy w x) : x.isAnswerOn s = q.isReadOf s := by
  cases h with
  | output hq | exit hq => rcases hq with rfl | rfl <;> rfl
  | noData | poll => rfl

theorem Effect.isAnswer_of_on (h : x.isAnswerOn s) : x.isAnswer := by
  cases x <;> first | rfl | cases h

theorem Effect.isAnswer_of_output {p : MsgType × Bytes} (h : x.output? = some p) : x.isAnswer := by
  cases x <;> first | rfl | cases h

theorem outputOf_isExit (t : MsgType) (data : Bytes) : (outputOf t data).isExit = false := by
  unfold outputOf
  repeat' split
  all_goals rfl

/-- Without the exit code, an answer says what its message is. -/
theorem Effect.outcome_filter (x : Effect W F) :
    x.outcome?.filter (!·.isExit) = x.output?.map fun p => outputOf p.1 p.2 := by
  cases x with
  | readResponse w s t v data =>
    by_cases ht : t = MSG_TYPE_EXIT
    · subst ht
      cases data <;> rfl
    · cases data <;> simp [outcome?, output?, ht, outputOf_isExit]
  | startResponse | noData | pollResponse | call => rfl

theorem Effect.isExit_of_outcome {o : HostExecOutput} (h : x.outcome? = some o) (ho : o.isExit) : x.isExit := by
  cases x with
  | readResponse w s t v data =>
    by_cases ht : t = MSG_TYPE_EXIT
    · simp [isExit, ht]
    · obtain ⟨data, -, rfl⟩ := Option.map_eq_some_iff.mp (by simpa [outcome?, ht] using h)
      rw [outputOf_isExit] at ho
      cases ho
  | startResponse | noData | pollResponse | call => cases h

/-- The answers to reads that a message leads to are for its worker and its session. -/
theorem Slot.execute_about [DecidableEq W] (hx : x ∈ (v.execute m).2) (ha : x.isAnswer) :
    m.isWaiting ∧ x.isReplyTo m.worker ∧ ∀ s, x.isAnswerOn s ↔ m.session? = some s := by
  cases m with
  | hostExecRead | hostExecTryRead =>
    simp only [execute] at hx
    split at hx
    · obtain rfl := List.mem_singleton.mp hx
      cases ‹Answer› <;> simp [Answer.effect, Effect.isAnswerOn, Effect.isReplyTo, SchedulerMessage.isWaiting,
        SchedulerMessage.session?, SchedulerMessage.worker]
    · simp_all [Effect.isAnswerOn, Effect.isReplyTo, SchedulerMessage.isWaiting, SchedulerMessage.session?,
        SchedulerMessage.worker]
  | hostExecReadComplete =>
    simp only [execute] at hx
    split at hx <;> simp_all [Effect.isAnswerOn, Effect.isReplyTo, SchedulerMessage.isWaiting,
      SchedulerMessage.session?, SchedulerMessage.worker]
  | hostExecPoll =>
    obtain rfl := List.mem_singleton.mp hx
    cases ha
  | hostExecWrite | hostExecCloseStdin | hostExecSignal =>
    simp only [execute] at hx
    split at hx
    · obtain rfl := List.mem_singleton.mp hx
      cases ha
    · cases hx
  | hostExecStart | hostExecChildOutput => cases hx

end Answers

/-! ### The log of the session -/

section Host

variable [DecidableEq W] {parse : Bytes → Except String Unit} {w : W} {s : SessionId} {h h' : State W F}

omit [DecidableEq W] in
theorem childOutput_not_answer (childId : ChildId) (t : MsgType) (data : Bytes) :
    ∀ x ∈ h.childOutput childId t data, x.isAnswer = false := by
  unfold State.childOutput
  repeat' split
  all_goals simp [Effect.isAnswer]

theorem execute_about {m : SchedulerMessage W} {r : HandlerResult} {es : List (Effect W F)} {x : Effect W F}
    (hx : h.execute parse m r = (h', es)) (hmem : x ∈ es) (ha : x.isAnswer) :
    m.isWaiting ∧ x.isReplyTo m.worker ∧ ∀ s, x.isAnswerOn s ↔ m.session? = some s := by
  cases m with
  | hostExecStart =>
    cases hx
    obtain rfl := List.mem_singleton.mp hmem
    cases ha
  | hostExecChildOutput =>
    cases hx
    rw [childOutput_not_answer _ _ _ x hmem] at ha
    cases ha
  | _ =>
    cases hx
    exact Slot.execute_about hmem ha

omit [DecidableEq W] in
theorem query?_isReadOf {m : SchedulerMessage W} :
    (∃ q, m.query? = some q ∧ q.isReadOf s) ↔ m.isRead ∧ m.session? = some s := by
  cases m <;> simp [SchedulerMessage.query?, SchedulerMessage.isRead, SchedulerMessage.session?, Query.isReadOf]

/-- One more entry in the log, which asks of `s` when it is a read of `w`. -/
theorem asked_concat {log : List (Entry W F)} {e : Entry W F}
    (ha : asked (log.filter (·.session? = some s)) = (queriesOf w log).countP (Query.isReadOf s))
    (he : (e.session? = some s ∧ e.isAsk) ↔ ∃ q, e.query? w = some q ∧ q.isReadOf s) :
    asked ((log ++ [e]).filter (·.session? = some s)) = (queriesOf w (log ++ [e])).countP (Query.isReadOf s) := by
  rw [queriesOf_append, List.countP_append, ← ha, List.filter_append]
  by_cases hs : e.session? = some s <;> cases hq : e.query? w <;> simp_all

/-- One more entry in the log, which answers a read of `s` when it answers one of `w`. -/
theorem replies_concat {log : List (Entry W F)} {e : Entry W F}
    (ha : (effects (log.filter (·.session? = some s))).filter Effect.isAnswer =
      (repliesTo w log).filter (Effect.isAnswerOn s))
    (he : ∀ x ∈ e.effects, (e.session? = some s ∧ x.isAnswer) ↔ (x.isReplyTo w ∧ x.isAnswerOn s)) :
    (effects ((log ++ [e]).filter (·.session? = some s))).filter Effect.isAnswer =
      (repliesTo w (log ++ [e])).filter (Effect.isAnswerOn s) := by
  rw [repliesTo_append, List.filter_append, List.filter_append, ← ha, List.filter_filter]
  by_cases hs : e.session? = some s
  · have hfilter : ([e].filter fun e : Entry W F => decide (e.session? = some s)) = [e] := by simp [hs]
    rw [hfilter, effects_append, List.filter_append]
    refine congrArg _ (List.filter_congr fun x hx => ?_)
    rw [Bool.eq_iff_iff]
    simpa [hs, and_comm] using he x hx
  · have hfilter : ([e].filter fun e : Entry W F => decide (e.session? = some s)) = [] := by simp [hs]
    have hnone : e.effects.filter (fun x => x.isAnswerOn s && x.isReplyTo w) = [] :=
      List.filter_eq_nil_iff.mpr fun x hx hxs => hs ((he x hx).mpr (by simpa [and_comm] using hxs)).1
    rw [hfilter, hnone, List.append_nil, List.append_nil]

/-- Worker `w` alone reads session `s`, and what was asked and answered there was asked by it, and answered to it. -/
structure State.ReadBy (w : W) (s : SessionId) (h : State W F) : Prop where
  mail : ∀ m ∈ h.mailbox, m.isWaiting → m.session? = some s → m.worker = w
  parked : ∀ w' s', (h.slots s).pending = some (w', s') → w' = w
  asked : asked (h.lane s).log = (queriesOf w h.log).countP (Query.isReadOf s)
  replies : (effects (h.lane s).log).filter Effect.isAnswer = (repliesTo w h.log).filter (Effect.isAnswerOn s)

/-- Another worker does not read session `s`. -/
def Event.ReadBy (w : W) (s : SessionId) : Event W F → Prop
  | post m => m.isRead → m.session? = some s → m.worker = w
  | setHandler _ | process .. | callback .. | settle .. => True

instance (w : W) (s : SessionId) : DecidablePred (Event.ReadBy w s : Event W F → Prop)
  | .post m => inferInstanceAs (Decidable (m.isRead → m.session? = some s → m.worker = w))
  | .setHandler _ | .process .. | .callback .. | .settle .. => inferInstanceAs (Decidable True)

namespace State.ReadBy

theorem init : (State.init : State W F).ReadBy w s where
  mail _ hm := absurd hm List.not_mem_nil
  parked _ _ hp := by cases hp
  asked := rfl
  replies := rfl

theorem post (hr : h.ReadBy w s) {m : SchedulerMessage W} (hc : m.isComplete = false)
    (hm : m.isRead → m.session? = some s → m.worker = w) :
    State.ReadBy w s { h with mailbox := h.mailbox ++ [m], log := h.log ++ [.posted m] } where
  mail m' hm' hwait hs := by
    rcases List.mem_append.mp hm' with hm' | hm'
    · exact hr.mail m' hm' hwait hs
    · obtain rfl := List.mem_singleton.mp hm'
      exact hm (isWaiting_of_not_complete hc ▸ hwait) hs
  parked := hr.parked
  asked := by
    refine asked_concat hr.asked ?_
    simp only [Entry.posted_session?, Entry.isAsk, Entry.query?]
    constructor
    · rintro ⟨hs, hread⟩
      rw [if_pos (hm hread hs)]
      exact query?_isReadOf.mpr ⟨hread, hs⟩
    · split
      · exact fun hq => (query?_isReadOf.mp hq).symm
      · rintro ⟨q, hq, -⟩
        cases hq
  replies := replies_concat hr.replies fun x hx => by cases hx

/-- A callback or a settlement, on the slot of any session. -/
theorem update (hr : h.ReadBy w s) (hown : ParkedOwn h.slots) {t : SessionId} {v : Slot W F}
    {ms : List (SchedulerMessage W)} {e : Entry W F} (hmoved : (h.slots t).Moved v ms)
    (hslots : h'.slots = Function.update h.slots t v) (hmail : h'.mailbox = h.mailbox ++ ms)
    (hlog : h'.log = h.log ++ [e]) (hask : e.isAsk = false) (hquery : e.query? w = none) (heffects : e.effects = []) :
    h'.ReadBy w s where
  mail m hm hwait hs := by
    rw [hmail] at hm
    rcases List.mem_append.mp hm with hm | hm
    · exact hr.mail m hm hwait hs
    · rcases hmoved with ⟨-, rfl⟩ | ⟨-, w', s', hpend, rfl | ⟨t', data, rfl⟩⟩
      · cases hm
      · cases hm
      · obtain rfl := List.mem_singleton.mp hm
        obtain rfl := Option.some.inj hs
        obtain rfl := hown t w' s' hpend
        exact hr.parked w' s' hpend
  parked w' s' hp := by
    rw [hslots] at hp
    by_cases hst : s = t
    · subst hst
      rw [Function.update_self] at hp
      rcases hmoved with ⟨hv, -⟩ | ⟨hv, -⟩
      · exact hr.parked w' s' (hv ▸ hp)
      · rw [hv] at hp
        cases hp
    · rw [Function.update_of_ne hst] at hp
      exact hr.parked w' s' hp
  asked := by
    simp only [State.lane, hlog]
    refine asked_concat hr.asked ?_
    simp [hask, hquery]
  replies := by
    simp only [State.lane, hlog]
    refine replies_concat hr.replies fun x hx => ?_
    rw [heffects] at hx
    cases hx

theorem step (hr : h.ReadBy w s) (hown : ParkedOwn h.slots) {e : HostExec.Event W F} (ho : e.ReadBy w s)
    (hs : HostExec.step parse h e = some h') : h'.ReadBy w s := by
  cases e with
  | setHandler =>
    cases hs
    exact ⟨hr.mail, hr.parked, hr.asked, hr.replies⟩
  | post m =>
    obtain ⟨hc, rfl⟩ := step_post_inv hs
    exact hr.post hc ho
  | process m r =>
    obtain ⟨mail, h₁, es, hmail, hx, rfl⟩ := step_process_inv hs
    obtain ⟨hlog, hmailbox⟩ := execute_keeps hx
    simp only at hlog hmailbox
    refine ⟨fun m' hm' => hr.mail m' ?_, fun w' s' hp => ?_, ?_, ?_⟩
    · rw [hmail]
      exact List.mem_cons_of_mem _ (hmailbox ▸ hm')
    · rcases execute_inv hx with ⟨w₁, id, json, rfl⟩ | ⟨-, rfl⟩ | ⟨t, v, ht, -, hv, rfl⟩
      · cases hx
        exact hr.parked w' s' hp
      · exact hr.parked w' s' hp
      · by_cases hst : s = t
        · subst hst
          simp only [Function.update_self] at hp
          have hpend := (h.slots s).execute_pending m
          rw [hv] at hpend
          rcases hpend with hpend | ⟨w₁, s₁, rfl, hpend⟩
          · exact hr.parked w' s' (hpend ▸ hp)
          · obtain ⟨rfl, rfl⟩ : w₁ = w' ∧ s₁ = s' := by simpa [hp] using hpend.symm
            exact hr.mail _ (hmail ▸ List.mem_cons_self ..) rfl ht
        · simp only [Function.update_of_ne hst] at hp
          exact hr.parked w' s' hp
    · simp only [State.lane, hlog]
      exact asked_concat hr.asked (by simp [Entry.isAsk, Entry.query?])
    · simp only [State.lane, hlog]
      refine replies_concat hr.replies fun x hx' => ?_
      constructor
      · rintro ⟨hsess, ha⟩
        obtain ⟨hwait, hreply, hon⟩ := execute_about hx hx' ha
        obtain rfl := hr.mail m (hmail ▸ List.mem_cons_self ..) hwait hsess
        exact ⟨hreply, (hon s).mpr hsess⟩
      · rintro ⟨-, hon⟩
        have ha := Effect.isAnswer_of_on hon
        exact ⟨((execute_about hx hx' ha).2.2 s).mp hon, ha⟩
  | callback w' t c =>
    obtain ⟨-, v, ms, hv, rfl⟩ := step_callback_inv hs
    have hmoved := Slot.callback_moved (v := h.slots t) c
    rw [hv] at hmoved
    exact hr.update hown hmoved rfl rfl rfl rfl rfl rfl
  | settle w' t r =>
    obtain ⟨-, v, ms, hv, rfl⟩ := step_settle_inv hs
    have hmoved := Slot.settle_moved (v := h.slots t) r
    rw [hv] at hmoved
    exact hr.update hown hmoved rfl rfl rfl rfl rfl rfl

end State.ReadBy

end Host

/-! ### What the worker makes of an answer -/

section Decoding

variable [DecidableEq W] {w : W} {s : SessionId} {q : Query} {b : Buffer} {r : Response} {x : Effect W F}

theorem decodes_exit (hs : s.toNat < 2 ^ 31) (hq : q = .hostExecRead s ∨ q = .hostExecTryRead s) {code : ExitCode} :
    Decodes (b.answered w (.readResponse w s MSG_TYPE_EXIT code none : Effect W F)) q.loads r ↔
      r = .output (.exit code) := by
  have hbuf : b.answered w (.readResponse w s MSG_TYPE_EXIT code none : Effect W F) =
      { status := 1, msgType := MSG_TYPE_EXIT, dataLenOrExitCode := code, session := s.setWidth 32, data := b.data } := by
    simp [Buffer.answered, Effect.stores, Store.apply]
  generalize b.answered w (.readResponse w s MSG_TYPE_EXIT code none : Effect W F) = b' at hbuf ⊢
  rcases hq with rfl | rfl
  · have hload : Pc.access b' (.loadSession s b'.msgType b'.dataLenOrExitCode) =
        some (b', .inl (.output (.exit code))) := by
      simp [hbuf, Pc.access, loadMessage, signExtend_setWidth hs]
    rw [Query.loads, decodes_access rfl, decodes_access rfl, decodes_done hload]
  · have hstatus : Pc.access b' (.loadStatus (.hostExecTryRead s)) =
        some (b', .inr (.loadMsgType (.hostExecTryRead s))) := by
      simp [hbuf, Pc.access]
    have hload : Pc.access b' (.loadDataLen (.hostExecTryRead s) b'.msgType) =
        some (b', .inl (.output (.exit code))) := by
      simp [hbuf, Pc.access, loadMessage]
    rw [Query.loads, decodes_access hstatus, decodes_access rfl, decodes_done hload]

theorem decodes_noData : Decodes (b.answered w (.noData w s : Effect W F)) (Query.hostExecTryRead s).loads r ↔
    r = .noData := by
  have hbuf : b.answered w (.noData w s : Effect W F) = { b with session := s.setWidth 32, status := 2 } := by
    simp [Buffer.answered, Effect.stores, Store.apply]
  rw [hbuf]
  exact decodes_done rfl

/-- A message that fits in the buffer. -/
def Fits (m : MsgType × Bytes) : Prop := m.2.length ≤ HOST_EXEC_BUFFER_SIZE - 16

theorem received_of_fits {t : MsgType} {data : Bytes} (ht : t ≠ MSG_TYPE_EXIT) (h : Fits (t, data)) :
    received t data = outputOf t data := by
  have hlen : data.length ≤ HOST_EXEC_BUFFER_SIZE - 16 := h
  rw [received, if_neg ht, ← take_stored_eq.mpr ⟨?_, ?_⟩]
  · exact lt_of_le_of_lt hlen (by decide)
  · rw [List.drop_eq_nil_of_le hlen]
    exact fun v hv => absurd hv List.not_mem_nil

/-- The worker's response to a read says what the answer says. -/
theorem Reply.output (h : Reply w (q, x) r) (hs : s.toNat < 2 ^ 31) (hans : q.AnsweredBy w x) (hq : q.isReadOf s)
    (hfit : ∀ m, x.output? = some m → Fits m) : r.output? = x.outcome? := by
  obtain ⟨b, hd⟩ := h
  cases hans with
  | @output _ s' hq' t data =>
    obtain rfl : s' = s := by rcases hq' with rfl | rfl <;> simpa [Query.isReadOf] using hq
    rw [(decodes_answered hs hq').mp hd]
    by_cases ht : t = MSG_TYPE_EXIT
    · simp [Response.output?, Effect.outcome?, received, ht]
    · simp [Response.output?, Effect.outcome?, ht, received_of_fits ht (hfit (t, data) (by simp [Effect.output?, ht]))]
  | @exit _ s' hq' code =>
    obtain rfl : s' = s := by rcases hq' with rfl | rfl <;> simpa [Query.isReadOf] using hq
    rw [(decodes_exit hs hq').mp hd]
    simp [Response.output?, Effect.outcome?]
  | noData =>
    rw [decodes_noData.mp hd]
    rfl
  | poll => cases hq

/-- What the worker reads, from the answers that it was given. -/
theorem transcript_eq {answered : List (Query × Effect W F)} {responses : List Response} {rest : List Query}
    (hread : List.Forall₂ (Reply w) answered responses) (hs : s.toNat < 2 ^ 31)
    (hans : ∀ p ∈ answered, p.1.AnsweredBy w p.2)
    (hfit : ∀ p ∈ answered, p.1.isReadOf s → ∀ m, p.2.output? = some m → Fits m) :
    transcript s (answered.map Prod.fst ++ rest) responses =
      ((answered.map Prod.snd).filter (Effect.isAnswerOn s)).filterMap Effect.outcome? := by
  induction hread with
  | nil => simp [transcript]
  | @cons p r answered responses hreply _ ih =>
    obtain ⟨q, x⟩ := p
    have hrest := ih (fun p hp => hans p (List.mem_cons_of_mem _ hp)) fun p hp => hfit p (List.mem_cons_of_mem _ hp)
    have hx := hans _ (List.mem_cons_self ..)
    have hon := hx.isAnswerOn (s := s)
    simp only [transcript, List.map_cons, List.cons_append, List.zip_cons_cons, List.filterMap_cons,
      List.filter_cons, hon]
    by_cases hq : q.isReadOf s
    · rw [if_pos hq, if_pos hq, hreply.output hs hx hq (hfit _ (List.mem_cons_self ..) hq), List.filterMap_cons]
      cases x.outcome? with
      | none => exact hrest
      | some o => exact congrArg _ hrest
    · rw [if_neg hq, if_neg hq]
      exact hrest

end Decoding

/-! ### The worker and the session -/

namespace Exchange

/-- Another worker does not read session `s`. -/
def Event.ReadBy [DecidableEq W] (w : W) (s : SessionId) : Exchange.Event W F → Prop
  | host e => e.ReadBy w s
  | request _ | emit _ | access | receive | answer => True

instance [DecidableEq W] (w : W) (s : SessionId) : DecidablePred (Event.ReadBy w s : Exchange.Event W F → Prop)
  | .host e => inferInstanceAs (Decidable (e.ReadBy w s))
  | .request _ | .emit _ | .access | .receive | .answer => inferInstanceAs (Decidable True)

variable [DecidableEq W] {parse : Bytes → Except String Unit} {w : W} {s : SessionId} {x x' : Exchange W F}

/-- A worker that alone reads session `s` does so in order. -/
structure Reading (parse : Bytes → Except String Unit) (w : W) (s : SessionId) (x : Exchange W F) : Prop where
  carried : ∃ done due held out, x.Carried w done due held out
  read : x.host.ReadBy w s
  ordered : ReachVia (HostExec.step parse) (OnLane s OneReadAtATime) State.init x.host

theorem reading_init : (Exchange.init (State.init : State W F)).Reading parse w s where
  carried := ⟨_, _, _, _, carried_init⟩
  read := .init
  ordered := .refl

/-- When all of its requests are answered, so are the reads of the session. -/
theorem Carried.balanced {done : List (Query × Effect W F)} {due : Option (Query × Effect W F)} {out : Option Query}
    (hc : x.Carried w done due none out) (hr : x.host.ReadBy w s) :
    asked (x.host.lane s).log = HostExec.answered (x.host.lane s).log := by
  have hanswers : HostExec.answered (x.host.lane s).log = (repliesTo w x.host.log).countP (Effect.isAnswerOn s) := by
    rw [HostExec.answered, List.countP_eq_length_filter, hr.replies, List.countP_eq_length_filter]
  rw [hr.asked, hanswers, hc.queries, hc.replies, Option.toList_none, List.append_nil, List.countP_map, List.countP_map]
  exact List.countP_congr fun p hp => by simp [(hc.answered p hp).isAnswerOn]

theorem Reading.step (hx : x.Reading parse w s) {e : Exchange.Event W F} (hh : x.Heard e) (ho : e.ReadBy w s)
    (hs : Exchange.step parse w x e = some x') : x'.Reading parse w s := by
  obtain ⟨done, due, held, out, hc⟩ := hx.carried
  have hc' := hc.step hh hs
  cases e with
  | request | emit | access =>
    simp only [Exchange.step] at hs
    split at hs <;> cases hs <;> exact ⟨hc', hx.read, hx.ordered⟩
  | answer =>
    simp only [Exchange.step] at hs
    split at hs <;> cases hs
    exact ⟨hc', hx.read, hx.ordered⟩
  | receive =>
    simp only [Exchange.step] at hs
    split at hs
    · rename_i m transit _ htr
      obtain ⟨h, hpost, rfl⟩ := Option.map_eq_some_iff.mp hs
      obtain ⟨hw, hawaited⟩ := hc.transit m (htr ▸ List.mem_cons_self ..)
      refine ⟨hc', hx.read.step hc.own (e := .post m) (fun _ _ => hw) hpost, .step _ hx.ordered ?_ hpost⟩
      -- A read is sent only when there is an answer to every one before it.
      intro _ hread
      obtain ⟨q, rfl⟩ := hawaited (by cases m <;> first | rfl | cases hread)
      obtain ⟨rfl, -, -⟩ := hc.of_transit htr
      exact hc.balanced hx.read
    · cases hs
  | host e =>
    simp only [Exchange.step] at hs
    split at hs
    · obtain ⟨h, hstep, rfl⟩ := Option.map_eq_some_iff.mp hs
      obtain ⟨-, he⟩ := ‹_ ∧ _›
      refine ⟨hc', hx.read.step hc.own ho hstep, .step _ hx.ordered ?_ hstep⟩
      cases e with
      | post m =>
        intro habout hread
        have hw : m.worker ≠ w := by simpa [Event.isPostOf] using he
        exact absurd (ho hread habout) hw
      | _ => exact fun _ => trivial
    · cases hs

theorem reading (hr : ReachVia (Exchange.step parse w) (fun x e => x.Heard e ∧ e.ReadBy w s) (.init .init) x) :
    x.Reading parse w s :=
  hr.invariant (I := Reading parse w s) reading_init fun hx ho hs => hx.step ho.1 ho.2 hs

end Exchange

/-! ### The log up to an answer -/

section Split

variable {log : List (Entry W F)} {x : Effect W F} {pre post : List (Effect W F)}

theorem filterMap_answers (es : List (Effect W F)) :
    (es.filter Effect.isAnswer).filterMap Effect.output? = es.filterMap Effect.output? := by
  rw [List.filterMap_filter]
  refine List.filterMap_congr fun x _ => ?_
  cases hx : x.output? with
  | none => simp
  | some p => rw [if_pos (Effect.isAnswer_of_output hx)]

theorem effects_split (h : effects log = pre ++ x :: post) :
    ∃ logPre e logPost, log = logPre ++ e :: logPost ∧ x ∈ e.effects ∧ effects logPre <+: pre := by
  induction log generalizing pre with
  | nil => simp [effects] at h
  | cons e log ih =>
    rw [effects, List.flatMap_cons, ← effects] at h
    rcases List.append_eq_append_iff.mp h with ⟨mid, rfl, hrest⟩ | ⟨mid, he, hmid⟩
    · obtain ⟨logPre, e', logPost, rfl, hx, hpre⟩ := ih hrest
      refine ⟨e :: logPre, e', logPost, rfl, hx, ?_⟩
      rw [effects, List.flatMap_cons, ← effects]
      exact (List.prefix_append_right_inj _).mpr hpre
    · cases mid with
      | nil =>
        obtain ⟨logPre, e', logPost, rfl, hx, hpre⟩ := ih (show effects log = [] ++ x :: post from hmid.symm)
        refine ⟨e :: logPre, e', logPost, rfl, hx, ?_⟩
        rw [effects, List.flatMap_cons, ← effects, List.prefix_nil.mp hpre, he]
        simp
      | cons y mid =>
        obtain ⟨rfl, -⟩ := List.cons.inj hmid
        exact ⟨[], e, log, rfl, by simp [he], List.nil_prefix⟩

/-- An answer among those to the reads of a session is in one place of the log. -/
theorem answers_split (h : (effects log).filter Effect.isAnswer = pre ++ x :: post) :
    ∃ logPre e logPost, log = logPre ++ e :: logPost ∧ x ∈ e.effects ∧
      outputs logPre <+: pre.filterMap Effect.output? := by
  obtain ⟨es₁, es₂, heffects, rfl, hes₂⟩ := List.filter_eq_append_iff.mp h
  obtain ⟨es₃, es₄, rfl, hes₃, -, -⟩ := List.filter_eq_cons_iff.mp hes₂
  obtain ⟨logPre, e, logPost, hlog, hx, hpre⟩ := effects_split (heffects.trans (List.append_assoc ..).symm)
  refine ⟨logPre, e, logPost, hlog, hx, ?_⟩
  have hnone : es₃.filter Effect.isAnswer = [] := List.filter_eq_nil_iff.mpr hes₃
  have hpre := hpre.filterMap Effect.output?
  rwa [← filterMap_answers (es₁ ++ es₃), List.filter_append, hnone, List.append_nil] at hpre

theorem producedBefore_of_settled {logPre logPost : List (Entry W F)} (h : 0 < settlements logPre) :
    producedBefore (logPre ++ logPost) = producedBefore logPre := by
  induction logPost using List.reverseRecOn with
  | nil => rw [List.append_nil]
  | append_singleton logPost e ih =>
    rw [← List.append_assoc, producedBefore_append, ih]
    rw [settlements, List.countP_append]
    exact Nat.add_pos_left h _

end Split

/-! ### Runs -/

namespace Exchange

variable [DecidableEq W] {parse : Bytes → Except String Unit} {w : W} {s : SessionId} {x : Exchange W F}

/-- The lane of a session that is read in order keeps the order of the output. -/
theorem Reading.streamed (hx : x.Reading parse w s) : (x.host.lane s).Streamed := by
  have h0 : (Lane.init : Lane W F).OneReader ∧ (Lane.init : Lane W F).Streamed :=
    ⟨⟨rfl, Nat.zero_le _⟩, rfl, fun hres => absurd rfl hres, fun _ _ _ hm => absurd hm List.not_mem_nil, .nil⟩
  exact (lane_invariant (I := fun l => l.OneReader ∧ l.Streamed) h0
    (fun hp ht hi ho hs => ⟨hs.oneReader hi.1 ho, hs.streamed hp ht hi.1 hi.2⟩) hx.ordered).2.2

/-- What a worker reads of a session that no other worker reads: the messages that the callbacks of the handler
    produced, from the first one on, in their order, whole, none left out and none twice; and the exit code only after
    the promise has settled and after every message from before that. -/
theorem transcript_in_order
    (hr : ReachVia (Exchange.step parse w) (fun x e => x.Heard e ∧ e.ReadBy w s) (.init .init) x)
    (hs : s.toNat < 2 ^ 31) (hfit : ∀ m ∈ produced (x.host.lane s).log, Fits m) :
    let read := transcript s (queriesOf w x.host.log) x.responses
    read.filter (!·.isExit) <+: (produced (x.host.lane s).log).map (fun m => outputOf m.1 m.2) ∧
      ∀ pre code post, read = pre ++ .exit code :: post → 0 < settlements (x.host.lane s).log ∧
        (producedBefore (x.host.lane s).log).map (fun m => outputOf m.1 m.2) <+: pre.filter (!·.isExit) := by
  intro read
  have hx := reading hr
  have hstreamed := hx.streamed
  obtain ⟨done, due, held, out, hc⟩ := hx.carried
  have houtputs : outputs (x.host.lane s).log <+: produced (x.host.lane s).log := by
    rw [hstreamed.stream, List.append_assoc]
    exact List.prefix_append _ _
  -- The answers with a response are the first ones to the reads of the session.
  have hanswers : (done.map Prod.snd).filter (Effect.isAnswerOn s) <+:
      (effects (x.host.lane s).log).filter Effect.isAnswer := by
    rw [hx.read.replies, hc.replies, List.map_append]
    exact (List.prefix_append _ _).filter _
  have hread : read = ((done.map Prod.snd).filter (Effect.isAnswerOn s)).filterMap Effect.outcome? := by
    have hqueries : queriesOf w x.host.log = done.map Prod.fst ++ (due.toList.map Prod.fst ++ held.toList) := by
      rw [hc.queries, List.map_append, List.append_assoc]
    have hans : ∀ p ∈ done, p.1.AnsweredBy w p.2 := fun p hp => hc.answered p (List.mem_append_left _ hp)
    simp only [read, hqueries]
    refine transcript_eq hc.read hs hans fun p hp hq m hm => hfit m (houtputs.subset ?_)
    have hmem : p.2 ∈ (done.map Prod.snd).filter (Effect.isAnswerOn s) :=
      List.mem_filter.mpr ⟨List.mem_map_of_mem hp, (hans p hp).isAnswerOn.trans hq⟩
    exact List.mem_filterMap.mpr ⟨_, (List.mem_filter.mp (hanswers.subset hmem)).1, hm⟩
  have houtcome : ∀ es : List (Effect W F), (es.filterMap Effect.outcome?).filter (!·.isExit) =
      (es.filterMap Effect.output?).map fun m => outputOf m.1 m.2 := by
    intro es
    rw [List.filter_filterMap, List.map_filterMap]
    exact List.filterMap_congr fun x _ => x.outcome_filter
  refine ⟨?_, fun pre code post hsplit => ?_⟩
  · rw [hread, houtcome]
    refine List.IsPrefix.map _ (List.IsPrefix.trans ?_ houtputs)
    have hprefix := hanswers.filterMap Effect.output?
    rwa [filterMap_answers] at hprefix
  · rw [hread] at hsplit
    obtain ⟨as₁, as₂, has, rfl, has₂⟩ := List.filterMap_eq_append_iff.mp hsplit
    obtain ⟨as₃, a, as₄, rfl, hnone, ha, -⟩ := List.filterMap_eq_cons_iff.mp has₂
    obtain ⟨rest, hrest⟩ := hanswers
    rw [has] at hrest
    have hlast : (effects (x.host.lane s).log).filter Effect.isAnswer = (as₁ ++ as₃) ++ a :: (as₄ ++ rest) := by
      simpa using hrest.symm
    obtain ⟨logPre, e, logPost, hlog, hmem, hout⟩ := answers_split hlast
    obtain ⟨hsettled, hbefore⟩ :=
      hstreamed.exitsLast logPre e logPost hlog ⟨a, hmem, Effect.isExit_of_outcome ha rfl⟩
    have hpre : as₁.filterMap Effect.outcome? = (as₁ ++ as₃).filterMap Effect.outcome? := by
      rw [List.filterMap_append, List.filterMap_eq_nil_iff.mpr hnone, List.append_nil]
    rw [hpre, houtcome, hlog, producedBefore_of_settled hsettled]
    refine ⟨?_, (hbefore.trans hout).map _⟩
    rw [settlements, List.countP_append]
    exact Nat.add_pos_left hsettled _

/-- A message that waits for its read, and an exit code. -/
theorem transcript_in_order_exit :
    let parse : Bytes → Except String Unit := fun _ => .ok ()
    ∃ x : Exchange Nat Nat,
      ReachVia (Exchange.step parse 0) (fun x e => x.Heard e ∧ e.ReadBy 0 7) (.init .init) x ∧
        transcript 7 (queriesOf 0 x.host.log) x.responses = [.stdout [1], .exit 5] ∧
        (producedBefore (x.host.lane 7).log).map (fun m => outputOf m.1 m.2) <+: [.stdout [1]] := by
  intro parse
  obtain ⟨x, hr, hread, hproduced⟩ : ∃ x,
      ReachVia (Exchange.step parse 0) (fun x e => x.Heard e ∧ e.ReadBy 0 7) (.init (.init : State Nat Nat)) x ∧
        transcript 7 (queriesOf 0 x.host.log) x.responses = [.stdout [1], .exit 5] ∧
        produced (x.host.lane 7).log = [(MSG_TYPE_STDOUT, [1])] :=
    exists_reachVia
      [.host (.setHandler true), .emit (.hostExecStart 0 7 []), .receive,
        .host (.process (.hostExecStart 0 7 []) .promise), .host (.callback 0 7 (.onStdout [1])),
        .request (.hostExecRead 7), .access, .access, .receive, .host (.process (.hostExecRead 0 7) .promise),
        .answer, .answer, .answer, .answer, .answer, .answer, .access, .access, .access, .access,
        .host (.settle 0 7 (.resolved 5)), .request (.hostExecTryRead 7), .access, .access, .receive,
        .host (.process (.hostExecTryRead 0 7) .promise), .answer, .answer, .answer, .answer, .answer,
        .access, .access, .access]
      _ (by decide) (by decide)
  have hfit : ∀ m ∈ produced (x.host.lane 7).log, Fits m := by
    rw [hproduced]
    rintro m hm
    obtain rfl := List.mem_singleton.mp hm
    exact Nat.le_of_ble_eq_true rfl
  obtain ⟨-, hexit⟩ := transcript_in_order hr (by decide) hfit
  obtain ⟨-, hbefore⟩ := hexit [.stdout [1]] 5 [] hread
  exact ⟨x, hr, hread, hbefore⟩

end Exchange

end HostExec
end WasmerJs
