import WasmerJs.HostExec.Buffer
import WasmerJs.HostExec.Log

/-! A worker and the scheduler exchange requests and answers. The worker sends its request before it clears the
    status cell, so an answer that comes quickly is erased by the worker itself, which then waits for good. -/

namespace WasmerJs
namespace HostExec

open Transition

variable {W F : Type}

/-- The main thread, and the worker with its buffer. -/
structure Exchange (W F : Type) where
  host : State W F
  -- The messages that the worker has emitted and the main thread has not received yet.
  transit : List (SchedulerMessage W)
  -- What is left to do of the answer that the scheduler is giving to the worker.
  answering : List Store
  buffer : Buffer
  pc : Pc
  responses : List Response

def Exchange.init (host : State W F) : Exchange W F :=
  { host, transit := [], answering := [], buffer := .init, pc := .idle, responses := [] }

inductive Exchange.Event (W F : Type) where
  -- The worker emits a request, which it will wait for.
  | request (q : Query)
  -- The worker emits a message that it does not wait for.
  | emit (m : SchedulerMessage W)
  | access
  | receive
  | answer
  | host (e : HostExec.Event W F)

/-- The messages that an answer to the worker comes from. -/
def SchedulerMessage.isAwaited : SchedulerMessage W → Bool
  | hostExecRead .. | hostExecTryRead .. | hostExecPoll .. | hostExecReadComplete .. => true
  | _ => false

def Event.isPostOf [DecidableEq W] (w : W) : Event W F → Bool
  | post m => m.worker = w
  | setHandler _ | process .. | callback .. | settle .. => false

/-- What the newest entries of the log mean for the buffer of worker `w`. -/
def storesSince [DecidableEq W] (w : W) (before after : List (Entry W F)) : List Store :=
  (effects (after.drop before.length)).flatMap (Effect.stores w)

/-- The steps of worker `w` and of the main thread, which does nothing else while it answers the worker. -/
def Exchange.step [DecidableEq W] (parse : Bytes → Except String Unit) (w : W) (x : Exchange W F) :
    Exchange.Event W F → Option (Exchange W F)
  | .request q =>
    if x.pc = .idle then some { x with transit := x.transit ++ [q.message w], pc := .reset q } else none
  | .emit m =>
    if x.pc = .idle ∧ m.worker = w ∧ m.isAwaited = false then some { x with transit := x.transit ++ [m] } else none
  | .access =>
    match x.pc.access x.buffer with
    | some (buffer, .inr pc) => some { x with buffer, pc }
    | some (buffer, .inl response) => some { x with buffer, pc := .idle, responses := x.responses ++ [response] }
    | none => none
  | .receive =>
    match x.answering, x.transit with
    | [], m :: transit => (HostExec.step parse x.host (.post m)).map fun host => { x with host, transit }
    | _, _ => none
  | .answer =>
    match x.answering with
    | [] => none
    | op :: answering =>
      some { x with answering, buffer := op.apply x.buffer, pc := if op = .notify then x.pc.notified else x.pc }
  | .host e =>
    if x.answering = [] ∧ e.isPostOf w = false then
      (HostExec.step parse x.host e).map fun host =>
        { x with host, answering := storesSince w x.host.log host.log }
    else none

/-! ### What the worker waits for -/

def Slot.ParkedBy (w : W) (v : Slot W F) : Prop := v.pending.map Prod.fst = some w

/-- A request of worker `w` is in the mailbox or parked, or the answer to one is in the mailbox. -/
def State.Awaits (w : W) (h : State W F) : Prop :=
  (∃ m ∈ h.mailbox, m.worker = w ∧ m.isAwaited) ∨ ∃ s, (h.slots s).ParkedBy w

namespace Exchange

/-- A request of the worker is under way, and the scheduler has not taken it up yet. -/
def Waiting (w : W) (x : Exchange W F) : Prop := (∃ m ∈ x.transit, m.isAwaited) ∨ x.host.Awaits w

/-- A request of the worker is under way, or is being answered. -/
def Outstanding (w : W) (x : Exchange W F) : Prop := x.answering ≠ [] ∨ x.Waiting w

/-- The worker sleeps, and nothing is under way that would wake it. -/
def Lost (w : W) (x : Exchange W F) : Prop := (∃ q, x.pc = .sleeping q) ∧ x.buffer.status = 0 ∧ ¬ x.Outstanding w

/-- The notification of an answer does not come between a request and its wait, unless another request is under way;
    and no read of another worker takes the place of a parked read of worker `w`. -/
def NotifiesWaiting (w : W) (x : Exchange W F) : Exchange.Event W F → Prop
  | .answer => x.answering = [.notify] → x.pc.Early x.buffer.status → x.Waiting w
  | .host (.process (.hostExecRead w' s) _) => w' ≠ w → ¬ (x.host.slots s).ParkedBy w
  | _ => True

end Exchange

/-! ### Answers -/

section Answers

variable [DecidableEq W] {w : W}

/-- What is done to the buffer for an answer ends with the notification. -/
def EndsNotify (ops : List Store) : Prop := ∀ op, ops.getLast? = some op → op = .notify

theorem EndsNotify.nil : EndsNotify [] := by
  intro op h
  cases h

theorem EndsNotify.append {ops ops' : List Store} (h : EndsNotify ops) (h' : EndsNotify ops') :
    EndsNotify (ops ++ ops') := by
  intro op hop
  rw [List.getLast?_append] at hop
  cases hlast : ops'.getLast? with
  | none => exact h op (by simpa [hlast] using hop)
  | some op' => exact h' op (by simpa [hlast] using hop)

theorem EndsNotify.cons {op : Store} {ops : List Store} (h : EndsNotify (op :: ops)) :
    EndsNotify ops ∧ (ops = [] → op = .notify) := by
  refine ⟨fun op' hop => ?_, ?_⟩
  · cases ops with
    | nil => cases hop
    | cons op'' ops => exact h op' (by rwa [List.getLast?_cons_cons])
  · rintro rfl
    exact h op rfl

theorem Effect.stores_endsNotify (e : Effect W F) : EndsNotify (e.stores w) := by
  intro op hop
  cases e with
  | readResponse =>
    simp only [stores] at hop
    split at hop
    · rw [List.getLast?_append] at hop
      exact (Option.some.inj hop).symm
    · cases hop
  | noData | pollResponse =>
    simp only [stores] at hop
    split at hop
    · exact (Option.some.inj hop).symm
    · cases hop
  | startResponse | call => cases hop

theorem endsNotify_flatMap (es : List (Effect W F)) : EndsNotify (es.flatMap (Effect.stores w)) := by
  induction es with
  | nil => exact .nil
  | cons e es ih => exact e.stores_endsNotify.append ih

theorem Slot.Answer.stores_ne_nil {answer : Slot.Answer} {s : SessionId} :
    [(answer.effect w s : Effect W F)].flatMap (Effect.stores w) ≠ [] := by
  cases answer <;> simp [Slot.Answer.effect, Effect.stores]

/-- A request that is taken up is answered, or parked. -/
theorem Slot.execute_awaited {v : Slot W F} {m : SchedulerMessage W} (ha : m.isAwaited) :
    (v.execute m).2.flatMap (Effect.stores m.worker) ≠ [] ∨ ∃ s, (v.execute m).1.pending = some (m.worker, s) := by
  cases m with
  | hostExecRead w s =>
    simp only [execute]
    split
    · exact .inl Slot.Answer.stores_ne_nil
    · exact .inr ⟨s, rfl⟩
  | hostExecTryRead w s =>
    simp only [execute]
    split
    · exact .inl Slot.Answer.stores_ne_nil
    · exact .inl (by simp [Effect.stores, SchedulerMessage.worker])
  | hostExecPoll => exact .inl (by simp [execute, Effect.stores, SchedulerMessage.worker])
  | hostExecReadComplete =>
    simp only [execute]
    split <;> exact .inl (by simp [Effect.stores, SchedulerMessage.worker])
  | _ => cases ha

end Answers

/-! ### Steps of the main thread -/

section Host

variable {parse : Bytes → Except String Unit} {w : W} {h h' : State W F}

theorem Slot.deliver_awaits {v : Slot W F} {m : MsgType × Bytes} (hp : v.ParkedBy w) :
    ∃ m' ∈ (v.deliver m).2, m'.worker = w ∧ m'.isAwaited := by
  obtain ⟨⟨w, s⟩, hpend, rfl⟩ := Option.map_eq_some_iff.mp hp
  simp [deliver, hpend, SchedulerMessage.worker, SchedulerMessage.isAwaited]

theorem Slot.enqueue_awaits {v : Slot W F} {m : MsgType × Bytes} (hp : v.ParkedBy w) :
    ∃ m' ∈ (v.enqueue m).2, m'.worker = w ∧ m'.isAwaited := by
  obtain ⟨⟨w, s⟩, hpend, rfl⟩ := Option.map_eq_some_iff.mp hp
  simp only [enqueue, hpend]
  split
  · simp [SchedulerMessage.worker, SchedulerMessage.isAwaited]
  · have hout := popFront_eq_none.mp ‹_›
    simp [output, pushBack] at hout

theorem Slot.callback_awaits {v : Slot W F} (c : Callback F) (hp : v.ParkedBy w) :
    (v.callback c).1.ParkedBy w ∨ ∃ m ∈ (v.callback c).2, m.worker = w ∧ m.isAwaited := by
  cases c with
  | onStdout | onStderr => exact .inr (deliver_awaits hp)
  | requestSpawn | spawnWriteStdin | spawnCloseStdin | spawnKill => exact .inr (enqueue_awaits hp)
  | setStdinWriter | setKillFunction | setChildOutputHandlers => exact .inl hp

theorem Slot.settle_awaits {v : Slot W F} (r : Settlement) (hp : v.ParkedBy w) :
    ∃ m ∈ (v.settle r).2, m.worker = w ∧ m.isAwaited := by
  obtain ⟨⟨w, s⟩, hpend, rfl⟩ := Option.map_eq_some_iff.mp hp
  simp [settle, hpend, SchedulerMessage.worker, SchedulerMessage.isAwaited]

/-- A step that works on one slot, and leaves a read that is parked there where it is, or sends it a message. -/
theorem State.Awaits.update (ha : h.Awaits w) {s : SessionId} {v : Slot W F} {ms : List (SchedulerMessage W)}
    (hslots : h'.slots = Function.update h.slots s v) (hm : h'.mailbox = h.mailbox ++ ms)
    (hv : (h.slots s).ParkedBy w → v.ParkedBy w ∨ ∃ m ∈ ms, m.worker = w ∧ m.isAwaited) : h'.Awaits w := by
  rcases ha with ⟨m, hmem, hma⟩ | ⟨s', hp⟩
  · exact .inl ⟨m, by simp [hm, hmem], hma⟩
  · by_cases hs : s' = s
    · subst hs
      rcases hv hp with hv | ⟨m, hmem, hma⟩
      · exact .inr ⟨s', by simpa [hslots] using hv⟩
      · exact .inl ⟨m, by simp [hm, hmem], hma⟩
    · exact .inr ⟨s', by simpa [hslots, Function.update_of_ne hs] using hp⟩

theorem execute_keeps {m : SchedulerMessage W} {r : HandlerResult} {effects : List (Effect W F)}
    (hx : h.execute parse m r = (h', effects)) : h'.log = h.log ∧ h'.mailbox = h.mailbox := by
  rcases execute_inv hx with ⟨c, id, json, rfl⟩ | ⟨-, rfl⟩ | ⟨s, v, -, -, -, rfl⟩
  · cases hx
    exact ⟨rfl, rfl⟩
  · exact ⟨rfl, rfl⟩
  · exact ⟨rfl, rfl⟩

variable [DecidableEq W]

/-- A message is taken up. If the worker awaits it, it is answered or parked; if not, what is parked stays parked,
    unless another worker's read takes its place. -/
theorem execute_awaits {m : SchedulerMessage W} {r : HandlerResult} {effects : List (Effect W F)}
    (hx : h.execute parse m r = (h', effects)) (ha : m.worker = w ∧ m.isAwaited ∨ h.Awaits w)
    (hread : ∀ w' s, m = .hostExecRead w' s → w' ≠ w → ¬ (h.slots s).ParkedBy w) :
    h'.Awaits w ∨ effects.flatMap (Effect.stores w) ≠ [] := by
  rcases execute_inv hx with ⟨c, id, json, rfl⟩ | ⟨hnone, rfl⟩ | ⟨s, v, hs, -, hv, rfl⟩
  · rcases ha with ⟨-, ha⟩ | ha
    · cases ha
    · cases hx
      exact .inl ha
  · rcases ha with ⟨-, ha⟩ | ha
    · cases m with
      | hostExecChildOutput => cases ha
      | _ => cases hnone
    · exact .inl ha
  · rcases ha with ⟨rfl, ha⟩ | ha
    · have hx := (h.slots s).execute_awaited ha
      rw [hv] at hx
      refine hx.symm.imp_left fun ⟨t, hp⟩ => .inr ⟨s, ?_⟩
      simp only at hp
      simp [Slot.ParkedBy, hp]
    · refine .inl (ha.update rfl (List.append_nil _).symm fun hp => .inl ?_)
      have hpend := (h.slots s).execute_pending m
      rw [hv] at hpend
      rcases hpend with hpend | ⟨w', s', rfl, hpend⟩
      · simpa [Slot.ParkedBy, ← hpend] using hp
      · -- A read that parks takes the place of the one before it.
        obtain rfl := Option.some.inj hs
        by_cases hw : w' = w
        · have hpend : v.pending = some (w', s') := hpend
          simp [Slot.ParkedBy, hpend, hw]
        · exact absurd hp (hread w' s' rfl hw)

theorem State.Awaits.step (ha : h.Awaits w) {e : Event W F} (hs : HostExec.step parse h e = some h')
    (hread : ∀ w' s r, e = .process (.hostExecRead w' s) r → w' ≠ w → ¬ (h.slots s).ParkedBy w) :
    h'.Awaits w ∨ storesSince w h.log h'.log ≠ [] := by
  cases e with
  | setHandler =>
    cases hs
    exact .inl ha
  | post m =>
    obtain ⟨-, rfl⟩ := step_post_inv hs
    exact .inl (ha.imp_left fun ⟨m, hm, hma⟩ => ⟨m, List.mem_append_left _ hm, hma⟩)
  | process m r =>
    obtain ⟨mailbox, h₁, effects, hmail, hx, rfl⟩ := step_process_inv hs
    have ha : m.worker = w ∧ m.isAwaited ∨ State.Awaits w { h with mailbox } := by
      rcases ha with ⟨m', hm', hma⟩ | hp
      · rw [hmail] at hm'
        rcases List.mem_cons.mp hm' with rfl | hm'
        · exact .inl hma
        · exact .inr (.inl ⟨m', hm', hma⟩)
      · exact .inr (.inr hp)
    have hlog : h₁.log = h.log := (execute_keeps hx).1
    refine (execute_awaits hx ha fun w' s hm => hread w' s r (hm ▸ rfl)).imp id fun hne => ?_
    simpa [storesSince, hlog, HostExec.effects, Entry.effects] using hne
  | callback w' s c =>
    obtain ⟨-, v, ms, hv, rfl⟩ := step_callback_inv hs
    refine .inl (ha.update rfl rfl fun hp => ?_)
    have hc := Slot.callback_awaits c hp
    rwa [hv] at hc
  | settle w' s r =>
    obtain ⟨-, v, ms, hv, rfl⟩ := step_settle_inv hs
    refine .inl (ha.update rfl rfl fun hp => .inr ?_)
    have hr := Slot.settle_awaits r hp
    rwa [hv] at hr

end Host

/-! ### Steps of the exchange -/

namespace Exchange

/-- Wherever the worker would block, a request of it is under way or is being answered. -/
structure Inv (w : W) (x : Exchange W F) : Prop where
  transit : ∀ m ∈ x.transit, m.worker = w
  ends : EndsNotify x.answering
  seen : x.pc.Blocks x.buffer.status → x.Outstanding w

variable [DecidableEq W] {parse : Bytes → Except String Unit} {w : W} {x x' : Exchange W F}

theorem Inv.step (hi : x.Inv w) {e : Exchange.Event W F} (ho : x.NotifiesWaiting w e)
    (hs : Exchange.step parse w x e = some x') : x'.Inv w := by
  obtain ⟨htransit, hends, hseen⟩ := hi
  cases e with
  | request q =>
    simp only [Exchange.step] at hs
    split at hs <;> cases hs
    refine ⟨fun m hm => ?_, hends, fun _ => .inr (.inl ⟨q.message w, by simp, ?_⟩)⟩
    · rcases List.mem_append.mp hm with hm | hm
      · exact htransit m hm
      · rw [List.mem_singleton.mp hm]
        cases q <;> rfl
    · cases q <;> rfl
  | emit m =>
    simp only [Exchange.step] at hs
    split at hs <;> cases hs
    obtain ⟨hpc, hw, -⟩ := ‹_ ∧ _›
    refine ⟨fun m' hm' => ?_, hends, fun hb => ?_⟩
    · rcases List.mem_append.mp hm' with hm' | hm'
      · exact htransit m' hm'
      · exact List.mem_singleton.mp hm' ▸ hw
    · simp only [hpc] at hb
      cases hb
  | access =>
    simp only [Exchange.step] at hs
    split at hs <;> cases hs
    · exact ⟨htransit, hends, fun hb => hseen (Pc.access_blocks ‹_› hb)⟩
    · exact ⟨htransit, hends, fun hb => nomatch hb⟩
  | receive =>
    simp only [Exchange.step] at hs
    split at hs
    · rename_i m transit hans htr
      obtain ⟨host, hh, rfl⟩ := Option.map_eq_some_iff.mp hs
      obtain ⟨-, rfl⟩ := step_post_inv hh
      rw [htr] at htransit
      refine ⟨fun m' hm' => htransit m' (List.mem_cons_of_mem m hm'), hends, fun hb => ?_⟩
      rcases hseen hb with hne | ⟨m', hm', ha⟩ | ⟨m', hm', ha⟩ | hp
      · exact absurd hans hne
      · rw [htr] at hm'
        rcases List.mem_cons.mp hm' with rfl | hm'
        · exact .inr (.inr (.inl ⟨m', by simp, htransit m' (List.mem_cons_self ..), ha⟩))
        · exact .inr (.inl ⟨m', hm', ha⟩)
      · exact .inr (.inr (.inl ⟨m', List.mem_append_left _ hm', ha⟩))
      · exact .inr (.inr (.inr hp))
    · cases hs
  | answer =>
    simp only [Exchange.step] at hs
    split at hs
    · cases hs
    · rename_i op answering hans
      cases hs
      rw [hans] at hends
      obtain ⟨hends', hlast⟩ := hends.cons
      refine ⟨htransit, hends', fun hb => ?_⟩
      cases answering with
      | cons => exact .inl (by simp)
      | nil =>
        -- The answer ends with the notification: a worker that sleeps goes on, and one that does not yet sleep has
        -- another request under way.
        obtain rfl := hlast rfl
        refine .inr (ho hans ?_)
        exact Pc.early_of_notified hb
  | host e =>
    simp only [Exchange.step] at hs
    split at hs
    · obtain ⟨host, hh, rfl⟩ := Option.map_eq_some_iff.mp hs
      obtain ⟨hans, -⟩ := ‹_ ∧ _›
      refine ⟨htransit, endsNotify_flatMap _, fun hb => ?_⟩
      rcases hseen hb with hne | ht | ha
      · exact absurd hans hne
      · exact .inr (.inl ht)
      · rcases ha.step hh (fun w' s r he => by subst he; exact ho) with ha | hne
        · exact .inr (.inr ha)
        · exact .inl hne
    · cases hs

/-! ### Runs -/

/-- Whatever the main thread holds at first: when no notification comes between a request and its wait, and no other
    worker's read displaces a read of the worker, the worker never sleeps with nothing under way that would wake it. -/
theorem never_lost {host : State W F} (hr : ReachVia (Exchange.step parse w) (NotifiesWaiting w) (.init host) x) :
    ¬ x.Lost w := by
  have h0 : (Exchange.init host).Inv w := ⟨fun _ hm => absurd hm List.not_mem_nil, .nil, fun hb => nomatch hb⟩
  have hi : x.Inv w := hr.invariant h0 fun hi ho hs => hi.step ho hs
  rintro ⟨⟨q, hq⟩, hstatus, hout⟩
  exact hout (hi.seen (by rw [hq]; exact hstatus))

/-- A notification that does come too early leaves the worker to block for good. -/
theorem lost_of_early (hans : x.answering = [.notify]) (hearly : x.pc.Early x.buffer.status) (hw : ¬ x.Waiting w) :
    ∃ x', Reach (Exchange.step parse w) x x' ∧ x'.Lost w := by
  obtain ⟨host, transit, answering, buffer, pc, responses⟩ := x
  subst hans
  cases pc with
  | reset q => exact ⟨_, reach_of_run [.answer, .access, .access] rfl, ⟨q, rfl⟩, rfl, fun h => h.elim (absurd rfl) hw⟩
  | wait q =>
    have hstatus : buffer.status = 0 := hearly
    refine ⟨{ host, transit, answering := [], buffer, pc := .sleeping q, responses },
      reach_of_run [.answer, .access] ?_, ⟨q, rfl⟩, hstatus, fun h => h.elim (absurd rfl) hw⟩
    simp [Exchange.step, Pc.access, Pc.notified, Store.apply, hstatus]
  | _ => cases hearly

/-- A parked read whose output comes after the worker has gone to sleep. -/
theorem never_lost_slow :
    let parse : Bytes → Except String Unit := fun _ => .ok ()
    ∃ x : Exchange Nat Nat, ReachVia (Exchange.step parse 0) (NotifiesWaiting 0) (.init .init) x ∧
      x.responses = [.output (.stdout [5])] ∧ ¬ x.Lost 0 := by
  intro parse
  -- The worker is alone, and each of its answers finds it asleep.
  let asleep : Exchange Nat Nat → Exchange.Event Nat Nat → Bool := fun x e =>
    match e with
    | .answer => x.answering ≠ [.notify] ∨ x.pc = .sleeping (.hostExecRead 7)
    | .host (.process m _) => m.worker = 0
    | _ => true
  have hok : ∀ x e, asleep x e = true → NotifiesWaiting 0 x e := by
    intro x e h
    cases e with
    | answer =>
      intro hans hearly
      rcases of_decide_eq_true h with hne | hpc
      · exact absurd hans hne
      · rw [hpc] at hearly
        cases hearly
    | host e =>
      cases e with
      | process m r =>
        cases m with
        | hostExecRead w' s => exact fun hw => absurd (of_decide_eq_true h) hw
        | _ => trivial
      | _ => trivial
    | _ => trivial
  obtain ⟨x, hr, hx⟩ : ∃ x, ReachVia (Exchange.step parse 0) (asleep · ·) (.init (.init : State Nat Nat)) x ∧
      x.responses = [.output (.stdout [5])] :=
    exists_reachVia
      [.host (.setHandler true), .emit (.hostExecStart 0 7 []), .receive,
        .host (.process (.hostExecStart 0 7 []) .promise), .request (.hostExecRead 7), .access, .access, .receive,
        .host (.process (.hostExecRead 0 7) .promise), .host (.callback 0 7 (.onStdout [5])),
        .host (.process (.hostExecReadComplete 0 7 MSG_TYPE_STDOUT [5]) .promise),
        .answer, .answer, .answer, .answer, .answer, .answer, .access, .access, .access, .access]
      _ (by decide) (by decide)
  have hr := hr.mono hok
  exact ⟨x, hr, hx, never_lost hr⟩

/-- The worker polls its session, and the answer is there before the worker clears the status. -/
theorem early_poll_answer_lost :
    let parse : Bytes → Except String Unit := fun _ => .ok ()
    ∃ x : Exchange Nat Nat, Reach (Exchange.step parse 0) (.init .init) x ∧ x.Lost 0 := by
  intro parse
  refine ⟨_, reach_of_run
    [.host (.setHandler true), .emit (.hostExecStart 0 7 []), .receive,
      .host (.process (.hostExecStart 0 7 []) .promise), .request (.hostExecPoll 7), .receive,
      .host (.process (.hostExecPoll 0 7) .promise), .answer, .answer, .answer, .access, .access] rfl,
    ⟨_, rfl⟩, rfl, ?_⟩
  rintro (hans | ⟨m, hm, -⟩ | ⟨m, hm, -⟩ | ⟨s, hp⟩)
  · exact hans rfl
  · cases hm
  · cases hm
  · by_cases hs : s = 7
    · subst hs
      cases hp
    · simp only [Function.update_of_ne hs] at hp
      cases hp

end Exchange

end HostExec
end WasmerJs
