import WasmerJs.HostExec.Exchange
import WasmerJs.HostExec.Lane

/-! The request of a worker on the main thread. A worker has one request at a time; it waits in the mailbox, it is
    parked, or its end travels in a `HostExecReadComplete`, until the scheduler answers it once
    (`src/tasks/scheduler.rs`). -/

namespace WasmerJs
namespace HostExec

open Transition

variable {W F : Type}

/-! ### Requests and replies -/

def SchedulerMessage.query? : SchedulerMessage W → Option Query
  | hostExecRead _ s => some (.hostExecRead s)
  | hostExecTryRead _ s => some (.hostExecTryRead s)
  | hostExecPoll _ s => some (.hostExecPoll s)
  | hostExecStart .. | hostExecReadComplete .. | hostExecWrite .. | hostExecCloseStdin .. | hostExecSignal ..
  | hostExecChildOutput .. => none

/-- The messages that request `q` of worker `w` is answered from: the request, or the end of a read that was parked. -/
inductive Query.From (w : W) : Query → SchedulerMessage W → Prop where
  | request (q : Query) : From w q (q.message w)
  | complete (s : SessionId) (t : MsgType) (data : Bytes) : From w (.hostExecRead s) (.hostExecReadComplete w s t data)

/-- The answers to request `q` of worker `w`. -/
inductive Query.AnsweredBy (w : W) : Query → Effect W F → Prop where
  | output {q : Query} {s : SessionId} (hq : q = .hostExecRead s ∨ q = .hostExecTryRead s) (t : MsgType) (data : Bytes) :
      AnsweredBy w q (.readResponse w s t (BitVec.ofNat 32 data.length) (some data))
  | exit {q : Query} {s : SessionId} (hq : q = .hostExecRead s ∨ q = .hostExecTryRead s) (code : ExitCode) :
      AnsweredBy w q (.readResponse w s MSG_TYPE_EXIT code none)
  | noData (s : SessionId) : AnsweredBy w (.hostExecTryRead s) (.noData w s)
  | poll (s : SessionId) (isReady : Bool) : AnsweredBy w (.hostExecPoll s) (.pollResponse w s isReady)

section Replies

variable [DecidableEq W]

def Effect.isReplyTo (w : W) : Effect W F → Bool
  | readResponse w' _ _ _ _ | noData w' _ | pollResponse w' _ _ => w' = w
  | startResponse .. | call .. => false

/-- The answers that worker `w` was given, in order. -/
def repliesTo (w : W) (log : List (Entry W F)) : List (Effect W F) := (effects log).filter (Effect.isReplyTo w)

def Entry.query? (w : W) : Entry W F → Option Query
  | posted m => if m.worker = w then m.query? else none
  | executed .. | called .. | settled .. => none

/-- The requests of worker `w` that came in, in order. -/
def queriesOf (w : W) (log : List (Entry W F)) : List Query := log.filterMap (Entry.query? w)

/-- The messages in the mailbox that worker `w` will be answered from. -/
def State.awaited (w : W) (h : State W F) : List (SchedulerMessage W) :=
  h.mailbox.filter fun m => m.worker = w ∧ m.isAwaited

/-- Of worker `w` there is at most the request `q?`, in one place. -/
structure State.Holds (w : W) (h : State W F) (q? : Option Query) : Prop where
  parked : ∀ s, (h.slots s).ParkedBy w → q? = some (.hostExecRead s) ∧ h.awaited w = []
  mail : ∀ m ∈ h.awaited w, ∃ q, q? = some q ∧ q.From w m
  one : (h.awaited w).length ≤ 1

variable {w : W} {log : List (Entry W F)} {e : Entry W F} {q : Query}

@[simp] theorem repliesTo_append :
    repliesTo w (log ++ [e]) = repliesTo w log ++ e.effects.filter (Effect.isReplyTo w) := by
  simp [repliesTo]

@[simp] theorem queriesOf_append : queriesOf w (log ++ [e]) = queriesOf w log ++ (e.query? w).toList := by
  cases h : e.query? w <;> simp [queriesOf, h]

omit [DecidableEq W] in
theorem Query.From.awaited {m : SchedulerMessage W} (h : q.From w m) : m.worker = w ∧ m.isAwaited := by
  cases h with
  | request => cases q <;> exact ⟨rfl, rfl⟩
  | complete => exact ⟨rfl, rfl⟩

theorem Query.AnsweredBy.isReplyTo {x : Effect W F} (h : q.AnsweredBy w x) : x.isReplyTo w := by
  cases h <;> simp [Effect.isReplyTo]

end Replies

/-! ### What the scheduler does with it -/

section Slots

variable {v : Slot W F} {w : W} {m : SchedulerMessage W} {q : Query}

theorem Slot.nextAnswer_pending {answer : Slot.Answer} {v' : Slot W F} (h : v.nextAnswer = some (answer, v')) :
    v'.pending = v.pending := by
  rcases nextAnswer_inv h with ⟨_, _, -, -, hv⟩ | ⟨_, -, -, -, hv⟩ <;> rw [hv]

theorem Slot.Answer.answers (answer : Slot.Answer) {s : SessionId}
    (hq : q = .hostExecRead s ∨ q = .hostExecTryRead s) : q.AnsweredBy w (answer.effect w s : Effect W F) := by
  cases answer with
  | output t data => exact .output hq t data
  | exit code => exact .exit hq code

/-- The request is answered once, or it is a read that parks. -/
theorem Slot.execute_from (hq : q.From w m) :
    (∃ x, (v.execute m).2 = [x] ∧ q.AnsweredBy w x ∧ (v.execute m).1.pending = v.pending) ∨
      ∃ s, q = .hostExecRead s ∧ (v.execute m).2 = [] ∧ m = .hostExecRead w s ∧
        (v.execute m).1.pending = some (w, s) := by
  cases hq with
  | request =>
    cases q with
    | hostExecRead s =>
      simp only [Query.message, execute]
      split
      · exact .inl ⟨_, rfl, Answer.answers _ (.inl rfl), nextAnswer_pending ‹_›⟩
      · exact .inr ⟨s, rfl, rfl, rfl, rfl⟩
    | hostExecTryRead s =>
      simp only [Query.message, execute]
      split
      · exact .inl ⟨_, rfl, Answer.answers _ (.inr rfl), nextAnswer_pending ‹_›⟩
      · exact .inl ⟨_, rfl, .noData s, rfl⟩
    | hostExecPoll s => exact .inl ⟨_, rfl, .poll s _, rfl⟩
  | complete s t data =>
    simp only [execute]
    split
    · exact .inl ⟨_, rfl, .exit (.inl rfl) _, rfl⟩
    · exact .inl ⟨_, rfl, .output (.inl rfl) t data, rfl⟩

/-- A message that the worker does not await is no answer to it. -/
theorem Slot.execute_not_reply [DecidableEq W] (hm : ¬ (m.worker = w ∧ m.isAwaited)) :
    ∀ x ∈ (v.execute m).2, x.isReplyTo w = false := by
  cases m with
  | hostExecRead w' s | hostExecTryRead w' s =>
    have hw : w' ≠ w := fun h => hm ⟨h, rfl⟩
    simp only [execute]
    split
    · intro x hx
      obtain rfl := List.mem_singleton.mp hx
      cases ‹Answer› <;> simp [Answer.effect, Effect.isReplyTo, hw]
    · simp [Effect.isReplyTo, hw]
  | hostExecReadComplete w' s t data =>
    have hw : w' ≠ w := fun h => hm ⟨h, rfl⟩
    simp only [execute]
    split <;> simp [Effect.isReplyTo, hw]
  | hostExecPoll w' s =>
    have hw : w' ≠ w := fun h => hm ⟨h, rfl⟩
    simp [execute, Effect.isReplyTo, hw]
  | hostExecWrite | hostExecCloseStdin | hostExecSignal =>
    simp only [execute]
    split <;> simp [Effect.isReplyTo]
  | hostExecStart | hostExecChildOutput => simp [execute]

/-- A callback leaves a parked read alone, or takes it out, and then all that it sends is for that read. -/
def Slot.Moved (v v' : Slot W F) (ms : List (SchedulerMessage W)) : Prop :=
  v'.pending = v.pending ∧ ms = [] ∨
    v'.pending = none ∧ ∃ w s, v.pending = some (w, s) ∧ (ms = [] ∨ ∃ t data, ms = [.hostExecReadComplete w s t data])

theorem Slot.deliver_moved (x : MsgType × Bytes) : v.Moved (v.deliver x).1 (v.deliver x).2 := by
  unfold deliver
  split
  · exact .inr ⟨rfl, _, _, ‹_›, .inr ⟨_, _, rfl⟩⟩
  · exact .inl ⟨rfl, rfl⟩

theorem Slot.enqueue_moved (x : MsgType × Bytes) : v.Moved (v.enqueue x).1 (v.enqueue x).2 := by
  unfold enqueue
  split
  · rename_i w s hp
    split
    · rename_i hpop
      refine .inr ⟨?_, _, _, hp, .inr ⟨_, _, rfl⟩⟩
      rw [(popFront_inv hpop).2]
    · exact .inr ⟨rfl, _, _, hp, .inl rfl⟩
  · exact .inl ⟨rfl, rfl⟩

theorem Slot.callback_moved (c : Callback F) : v.Moved (v.callback c).1 (v.callback c).2 := by
  cases c with
  | onStdout | onStderr => exact deliver_moved _
  | requestSpawn | spawnWriteStdin | spawnCloseStdin | spawnKill => exact enqueue_moved _
  | setStdinWriter | setKillFunction | setChildOutputHandlers => exact .inl ⟨rfl, rfl⟩

theorem Slot.settle_moved (r : Settlement) : v.Moved (v.settle r).1 (v.settle r).2 := by
  unfold settle
  split
  · exact .inr ⟨rfl, _, _, ‹_›, .inr ⟨_, _, rfl⟩⟩
  · exact .inl ⟨rfl, rfl⟩

end Slots

/-! ### Steps of the main thread -/

section Host

variable [DecidableEq W] {parse : Bytes → Except String Unit} {w : W} {h h' : State W F} {q? : Option Query}

theorem childOutput_not_reply (childId : ChildId) (t : MsgType) (data : Bytes) :
    ∀ x ∈ h.childOutput childId t data, x.isReplyTo w = false := by
  unfold State.childOutput
  repeat' split
  all_goals simp [Effect.isReplyTo]

/-- A message that the worker does not await is taken up. -/
theorem execute_not_reply {m : SchedulerMessage W} {r : HandlerResult} {es : List (Effect W F)}
    (hm : ¬ (m.worker = w ∧ m.isAwaited)) (hx : h.execute parse m r = (h', es)) : ∀ x ∈ es, x.isReplyTo w = false := by
  cases m with
  | hostExecStart w' id json =>
    cases hx
    simp [Effect.isReplyTo]
  | hostExecChildOutput =>
    cases hx
    exact childOutput_not_reply _ _ _
  | _ =>
    cases hx
    exact Slot.execute_not_reply hm

namespace State.Holds

/-- With nothing in the mailbox. -/
theorem of_nil (hnil : h.awaited w = []) (hp : ∀ s, (h.slots s).ParkedBy w → q? = some (.hostExecRead s)) :
    h.Holds w q? where
  parked s hs := ⟨hp s hs, hnil⟩
  mail m hm := by
    rw [hnil] at hm
    cases hm
  one := by
    rw [hnil]
    exact Nat.zero_le 1

theorem awaited_of_none (hh : h.Holds w none) : h.awaited w = [] := by
  refine List.eq_nil_iff_forall_not_mem.mpr fun m hm => ?_
  obtain ⟨q, hq, -⟩ := hh.mail m hm
  cases hq

theorem init : (State.init : State W F).Holds w none := .of_nil rfl fun s hp => by cases hp

/-- Nobody else's message counts. -/
theorem post (hh : h.Holds w q?) {m : SchedulerMessage W} (hm : ¬ (m.worker = w ∧ m.isAwaited)) :
    State.Holds w { h with mailbox := h.mailbox ++ [m], log := h.log ++ [.posted m] } q? := by
  have hsame : State.awaited w { h with mailbox := h.mailbox ++ [m], log := h.log ++ [.posted m] } = h.awaited w := by
    simp only [State.awaited, List.filter_append, List.filter_cons, decide_eq_true_eq, if_neg hm, List.filter_nil,
      List.append_nil]
  exact ⟨hsame ▸ hh.parked, hsame ▸ hh.mail, hsame ▸ hh.one⟩

/-- The request arrives. -/
theorem request (hh : h.Holds w none) {q : Query} :
    State.Holds w { h with mailbox := h.mailbox ++ [q.message w], log := h.log ++ [.posted (q.message w)] }
      (some q) := by
  have hnone := hh.awaited_of_none
  have hawaited := (Query.From.request (w := w) q).awaited
  have hone : State.awaited w { h with mailbox := h.mailbox ++ [q.message w], log := h.log ++ [.posted (q.message w)] } =
      [q.message w] := by
    rw [State.awaited, List.filter_append, ← State.awaited, hnone]
    simp [hawaited]
  refine ⟨fun s hp => ?_, fun m hm => ?_, by rw [hone, List.length_singleton]⟩
  · cases (hh.parked s hp).1
  · rw [hone] at hm
    exact ⟨q, rfl, List.mem_singleton.mp hm ▸ .request q⟩

/-- A step on one slot in which nothing new parks. -/
theorem update (hh : h.Holds w q?) (hown : ParkedOwn h.slots) {s : SessionId} {v : Slot W F}
    {ms : List (SchedulerMessage W)} (hmoved : (h.slots s).Moved v ms) (hslots : h'.slots = Function.update h.slots s v)
    (hmail : h'.mailbox = h.mailbox ++ ms) : h'.Holds w q? := by
  have hsplit : h'.awaited w = h.awaited w ++ ms.filter fun m => m.worker = w ∧ m.isAwaited := by
    rw [State.awaited, hmail, List.filter_append]
    rfl
  rcases hmoved with ⟨hp, rfl⟩ | ⟨hp, w', s', hpend, hms⟩
  · rw [List.filter_nil, List.append_nil] at hsplit
    refine ⟨fun t ht => ?_, hsplit ▸ hh.mail, hsplit ▸ hh.one⟩
    rw [hsplit]
    refine hh.parked t ?_
    rw [hslots] at ht
    by_cases hts : t = s
    · subst hts
      rwa [Function.update_self, Slot.ParkedBy, hp] at ht
    · rwa [Function.update_of_ne hts] at ht
  · obtain rfl : s' = s := hown s w' s' hpend
    by_cases hw : w' = w
    · -- The parked read is the request.
      subst hw
      obtain ⟨hq, hnil⟩ := hh.parked s' (by simp [Slot.ParkedBy, hpend])
      rw [hnil, List.nil_append] at hsplit
      refine ⟨fun t ht => ?_, fun m hm => ?_, ?_⟩
      · rw [hslots] at ht
        by_cases hts : t = s'
        · subst hts
          rw [Function.update_self, Slot.ParkedBy, hp] at ht
          cases ht
        · rw [Function.update_of_ne hts] at ht
          obtain ⟨hq', -⟩ := hh.parked t ht
          rw [hq] at hq'
          cases hq'
          exact absurd rfl hts
      · rw [hsplit] at hm
        rcases hms with rfl | ⟨t, data, rfl⟩
        · cases hm
        · obtain rfl := List.mem_singleton.mp (List.mem_filter.mp hm).1
          exact ⟨_, hq, .complete s' t data⟩
      · rw [hsplit]
        rcases hms with rfl | ⟨t, data, rfl⟩
        · exact Nat.zero_le 1
        · exact List.length_filter_le _ _
    · have hnone : ms.filter (fun m => m.worker = w ∧ m.isAwaited) = [] := by
        rcases hms with rfl | ⟨t, data, rfl⟩
        · rfl
        · simp [SchedulerMessage.worker, hw]
      rw [hnone, List.append_nil] at hsplit
      refine ⟨fun t ht => ?_, hsplit ▸ hh.mail, hsplit ▸ hh.one⟩
      rw [hsplit]
      refine hh.parked t ?_
      rw [hslots] at ht
      by_cases hts : t = s'
      · subst hts
        rw [Function.update_self, Slot.ParkedBy, hp] at ht
        cases ht
      · rwa [Function.update_of_ne hts] at ht

/-- The worker's request is taken up: it is answered once, or it parks. Any other message leaves it where it is, unless
    another worker's read takes the place of one that is parked. -/
theorem process (hh : h.Holds w q?) {m : SchedulerMessage W} {mail : List (SchedulerMessage W)} {r : HandlerResult}
    {h₁ : State W F} {es : List (Effect W F)} (hmail : h.mailbox = m :: mail)
    (hx : ({ h with mailbox := mail } : State W F).execute parse m r = (h₁, es)) :
    (h₁.Holds w q? ∧ es.filter (Effect.isReplyTo w) = []) ∨
      ∃ q x, q? = some q ∧ h₁.Holds w none ∧ es = [x] ∧ q.AnsweredBy w x := by
  have hmailbox : h₁.mailbox = mail := (execute_keeps hx).2
  have hawaited₁ : h₁.awaited w = mail.filter fun m => m.worker = w ∧ m.isAwaited := by rw [State.awaited, hmailbox]
  by_cases hm : m.worker = w ∧ m.isAwaited
  · have hawaited : h.awaited w = m :: h₁.awaited w := by
      rw [State.awaited, hmail, hawaited₁, List.filter_cons, if_pos (by simpa using hm)]
    have hnil : h₁.awaited w = [] := by
      have hone := hh.one
      rw [hawaited, List.length_cons] at hone
      exact List.length_eq_zero_iff.mp (by omega)
    obtain ⟨q, hq, hfrom⟩ := hh.mail m (hawaited ▸ List.mem_cons_self ..)
    have hfree : ∀ s, ¬ (h.slots s).ParkedBy w := fun s hp => by
      have hempty := (hh.parked s hp).2
      rw [hawaited] at hempty
      cases hempty
    rcases execute_inv hx with ⟨w', id, json, rfl⟩ | ⟨hnone, -⟩ | ⟨s, v, hs, -, hv, rfl⟩
    · cases hm.2
    · cases hfrom with
      | request => cases q <;> cases hnone
      | complete => cases hnone
    · have hslot := Slot.execute_from (v := h.slots s) hfrom
      rw [hv] at hslot
      rcases hslot with ⟨x, hes, hans, hp⟩ | ⟨s', rfl, hes, rfl, hp⟩
      · refine .inr ⟨q, x, hq, .of_nil hnil fun t ht => absurd ?_ (hfree t), hes, hans⟩
        by_cases hts : t = s
        · subst hts
          simp only [Function.update_self] at ht
          rwa [Slot.ParkedBy, hp] at ht
        · simpa only [Function.update_of_ne hts] using ht
      · obtain rfl : s' = s := Option.some.inj hs
        have hes : es = [] := hes
        refine .inl ⟨.of_nil hnil fun t ht => ?_, by rw [hes, List.filter_nil]⟩
        by_cases hts : t = s'
        · rw [hts, hq]
        · refine absurd ?_ (hfree t)
          simpa only [Function.update_of_ne hts] using ht
  · have hawaited : h₁.awaited w = h.awaited w := by
      rw [hawaited₁, State.awaited, hmail, List.filter_cons, if_neg (by simpa using hm)]
    refine .inl ⟨⟨fun t ht => ?_, hawaited ▸ hh.mail, hawaited ▸ hh.one⟩,
      List.filter_eq_nil_iff.mpr fun x hx' => by simp [execute_not_reply hm hx x hx']⟩
    rw [hawaited]
    refine hh.parked t ?_
    rcases execute_inv hx with ⟨w', id, json, rfl⟩ | ⟨-, rfl⟩ | ⟨s, v, -, -, hv, rfl⟩
    · cases hx
      exact ht
    · exact ht
    · by_cases hts : t = s
      · subst hts
        simp only [Function.update_self] at ht
        have hpend := (h.slots t).execute_pending m
        rw [hv] at hpend
        rcases hpend with hpend | ⟨w', s', rfl, hpend⟩
        · rwa [Slot.ParkedBy, hpend] at ht
        · have hpend : v.pending = some (w', s') := hpend
          obtain rfl : w' = w := by simpa [Slot.ParkedBy, hpend] using ht
          exact absurd ⟨rfl, rfl⟩ hm
      · simpa only [Function.update_of_ne hts] using ht

end State.Holds

theorem stores_of_not_reply {x : Effect W F} (hx : x.isReplyTo w = false) : x.stores w = [] := by
  cases x <;> simp_all [Effect.isReplyTo, Effect.stores]

theorem storesSince_append {log : List (Entry W F)} {e : Entry W F} :
    storesSince w log (log ++ [e]) = e.effects.flatMap (Effect.stores w) := by
  simp [storesSince, effects]

/-- A step of anybody but the worker. Its request is answered once, or nothing is done for it. -/
theorem State.Holds.step (hh : h.Holds w q?) (hown : ParkedOwn h.slots) {e : Event W F}
    (hs : HostExec.step parse h e = some h') (hpost : e.isPostOf w = false) :
    queriesOf w h'.log = queriesOf w h.log ∧
      ((h'.Holds w q? ∧ repliesTo w h'.log = repliesTo w h.log ∧ storesSince w h.log h'.log = []) ∨
        ∃ q x, q? = some q ∧ h'.Holds w none ∧ q.AnsweredBy w x ∧ repliesTo w h'.log = repliesTo w h.log ++ [x] ∧
          storesSince w h.log h'.log = x.stores w) := by
  cases e with
  | setHandler =>
    cases hs
    exact ⟨rfl, .inl ⟨⟨hh.parked, hh.mail, hh.one⟩, rfl, by simp [storesSince, effects]⟩⟩
  | post m =>
    obtain ⟨-, rfl⟩ := step_post_inv hs
    have hw : m.worker ≠ w := by simpa [Event.isPostOf] using hpost
    refine ⟨?_, .inl ⟨hh.post fun hm => hw hm.1, ?_, ?_⟩⟩
    · simp [Entry.query?, hw]
    · simp [Entry.effects]
    · rw [storesSince_append]
      rfl
  | process m r =>
    obtain ⟨mail, h₁, es, hmail, hx, rfl⟩ := step_process_inv hs
    have hlog : h₁.log = h.log := (execute_keeps hx).1
    refine ⟨by simp [hlog, Entry.query?], ?_⟩
    simp only [hlog, repliesTo_append, storesSince_append, Entry.effects]
    rcases hh.process hmail hx with ⟨hh₁, hes⟩ | ⟨q, x, hq, hh₁, rfl, hans⟩
    · refine .inl ⟨⟨hh₁.parked, hh₁.mail, hh₁.one⟩, by rw [hes, List.append_nil],
        List.flatMap_eq_nil_iff.mpr fun x hx => ?_⟩
      exact stores_of_not_reply (by simpa using List.filter_eq_nil_iff.mp hes x hx)
    · refine .inr ⟨q, x, hq, ⟨hh₁.parked, hh₁.mail, hh₁.one⟩, hans, ?_, List.flatMap_singleton ..⟩
      rw [List.filter_cons, if_pos hans.isReplyTo, List.filter_nil]
  | callback w' s c =>
    obtain ⟨-, v, ms, hv, rfl⟩ := step_callback_inv hs
    have hmoved := Slot.callback_moved (v := h.slots s) c
    rw [hv] at hmoved
    refine ⟨by simp [Entry.query?], .inl ⟨hh.update hown hmoved rfl rfl, by simp [Entry.effects], ?_⟩⟩
    rw [storesSince_append]
    rfl
  | settle w' s r =>
    obtain ⟨-, v, ms, hv, rfl⟩ := step_settle_inv hs
    have hmoved := Slot.settle_moved (v := h.slots s) r
    rw [hv] at hmoved
    refine ⟨by simp [Entry.query?], .inl ⟨hh.update hown hmoved rfl rfl, by simp [Entry.effects], ?_⟩⟩
    rw [storesSince_append]
    rfl

end Host

end HostExec
end WasmerJs
