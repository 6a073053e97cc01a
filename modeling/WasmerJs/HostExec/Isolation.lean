import WasmerJs.HostExec.Lane
import WasmerJs.HostExec.Log

/-! The sessions of a page. Each `Runtime` counts its requests from 0, and a session is known by the count at its
    start (`src/runtime.rs`), while the maps of the scheduler are shared by all of them. Sessions are kept apart as
    long as no start draws the id of an earlier session. -/

namespace WasmerJs
namespace HostExec

open Transition

variable {W R F : Type}

/-- Who calls: a worker, for a program of a runtime. The scheduler gets to know the worker id; the runtime is only
    there to tell the sessions apart. -/
structure Caller (W R : Type) where
  worker : W
  runtime : R
  deriving DecidableEq

inductive Request where
  | hostExecStart (requestJson : Bytes)
  | hostExecRead (session : SessionId)
  | hostExecWrite (session : SessionId) (data : Bytes)
  | hostExecCloseStdin (session : SessionId)
  | hostExecTryRead (session : SessionId)
  | hostExecPoll (session : SessionId)
  | hostExecSignal (session : SessionId) (signal : BitVec 32)
  | hostExecChildOutput (session : SessionId) (childId : ChildId) (msgType : MsgType) (data : Bytes)
  deriving DecidableEq

namespace Request

/-- The session that a call works on; a start makes a new one. -/
def session? : Request → Option SessionId
  | hostExecStart _ => none
  | hostExecRead s | hostExecWrite s _ | hostExecCloseStdin s | hostExecTryRead s | hostExecPoll s
  | hostExecSignal s _ | hostExecChildOutput s _ _ _ => some s

def isStart (q : Request) : Bool := q.session?.isNone

def message (w : W) (requestId : SessionId) : Request → SchedulerMessage W
  | hostExecStart requestJson => .hostExecStart w requestId requestJson
  | hostExecRead s => .hostExecRead w s
  | hostExecWrite s data => .hostExecWrite w s data
  | hostExecCloseStdin s => .hostExecCloseStdin w s
  | hostExecTryRead s => .hostExecTryRead w s
  | hostExecPoll s => .hostExecPoll w s
  | hostExecSignal s signal => .hostExecSignal w s signal
  | hostExecChildOutput s childId msgType data => .hostExecChildOutput w s childId msgType data

end Request

/-- The main thread together with the counters of the runtimes. -/
structure Page (W R F : Type) where
  -- `next_session_id` of each runtime; one that is created late in the life of the page begins at 0 as well.
  nextSessionId : R → SessionId
  -- The sessions that were started, with their runtimes.
  sessions : List (R × SessionId)
  -- The messages that each worker has emitted and the main thread has not received yet.
  transit : W → List (SchedulerMessage (Caller W R))
  host : State (Caller W R) F
  -- What has happened on the main thread.
  trace : List (Event (Caller W R) F)

def Page.init : Page W R F :=
  { nextSessionId := fun _ => 0, sessions := [], transit := fun _ => [], host := .init, trace := [] }

inductive Page.Event (W R F : Type) where
  | call (c : Caller W R) (q : Request)
  | receive (w : W)
  | host (e : HostExec.Event (Caller W R) F)

/-- The messages of the workers arrive by `receive` alone. -/
def Event.isPost : Event W F → Bool
  | post _ => true
  | setHandler _ | process .. | callback .. | settle .. => false

section Steps

variable [DecidableEq W] [DecidableEq R]

/-- A call draws a request id, whatever it is for. A start gives the id to its session; the other calls are about
    sessions of their own runtime. -/
def Page.step (parse : Bytes → Except String Unit) (p : Page W R F) : Page.Event W R F → Option (Page W R F)
  | .call c q =>
    let requestId := p.nextSessionId c.runtime
    if q.session?.all fun s => (c.runtime, s) ∈ p.sessions then
      some { p with
        nextSessionId := Function.update p.nextSessionId c.runtime (requestId + 1)
        sessions := if q.isStart then p.sessions ++ [(c.runtime, requestId)] else p.sessions
        transit := Function.update p.transit c.worker (p.transit c.worker ++ [q.message c requestId]) }
    else none
  | .receive w =>
    match p.transit w with
    | [] => none
    | m :: ms =>
      (HostExec.step parse p.host (.post m)).map fun host =>
        { p with transit := Function.update p.transit w ms, host, trace := p.trace ++ [.post m] }
  | .host e =>
    if e.isPost then none
    else (HostExec.step parse p.host e).map fun host => { p with host, trace := p.trace ++ [e] }

/-- A start draws an id that no session has. -/
def FreshIds (p : Page W R F) : Page.Event W R F → Prop
  | .call c q => q.isStart → p.nextSessionId c.runtime ∉ p.sessions.map Prod.snd
  | .receive _ | .host _ => True

instance (p : Page W R F) (e : Page.Event W R F) : Decidable (FreshIds p e) :=
  match e with
  | .call .. => inferInstanceAs (Decidable (_ → _))
  | .receive _ | .host _ => inferInstanceAs (Decidable True)

end Steps

/-- The events of one session; the registration of the handler is for every one. -/
def Event.OfSession (r : R) (s : SessionId) : Event (Caller W R) F → Prop
  | .setHandler _ => True
  | .post m | .process m _ => m.session? = some s ∧ m.worker.runtime = r
  | .callback c s' _ | .settle c s' _ => s' = s ∧ c.runtime = r

instance [DecidableEq R] (r : R) (s : SessionId) :
    DecidablePred (Event.OfSession r s : Event (Caller W R) F → Prop)
  | .setHandler _ => inferInstanceAs (Decidable True)
  | .post m | .process m _ => inferInstanceAs (Decidable (m.session? = some s ∧ m.worker.runtime = r))
  | .callback c s' _ | .settle c s' _ => inferInstanceAs (Decidable (s' = s ∧ c.runtime = r))

/-! ### Everything belongs to a session -/

variable {sessions sessions' : List (R × SessionId)}

/-- A message is about a session of the runtime it comes from. -/
def SchedulerMessage.OwnedIn (sessions : List (R × SessionId)) (m : SchedulerMessage (Caller W R)) : Prop :=
  ∀ s, m.session? = some s → (m.worker.runtime, s) ∈ sessions

def Event.OwnedIn (sessions : List (R × SessionId)) : Event (Caller W R) F → Prop
  | .setHandler _ => True
  | .post m | .process m _ => m.OwnedIn sessions
  | .callback c s _ | .settle c s _ => (c.runtime, s) ∈ sessions

structure State.OwnedIn (sessions : List (R × SessionId)) (h : State (Caller W R) F) : Prop where
  mailbox : ∀ m ∈ h.mailbox, m.OwnedIn sessions
  pending : ∀ s c s', (h.slots s).pending = some (c, s') → (c.runtime, s') ∈ sessions
  contexts : ∀ x ∈ h.contexts, (x.1.runtime, x.2) ∈ sessions
  promises : ∀ x ∈ h.promises, (x.1.runtime, x.2) ∈ sessions

theorem State.OwnedIn.mono {h : State (Caller W R) F} (hs : sessions ⊆ sessions') (ho : h.OwnedIn sessions) :
    h.OwnedIn sessions' where
  mailbox m hm s hs' := hs (ho.mailbox m hm s hs')
  pending s c s' hp := hs (ho.pending s c s' hp)
  contexts x hx := hs (ho.contexts x hx)
  promises x hx := hs (ho.promises x hx)

theorem Event.OwnedIn.mono {e : Event (Caller W R) F} (hs : sessions ⊆ sessions') (ho : e.OwnedIn sessions) :
    e.OwnedIn sessions' := by
  cases e with
  | setHandler => trivial
  | post | process => exact fun s h => hs (ho s h)
  | callback | settle => exact hs ho

namespace State.OwnedIn

variable {h h' : State (Caller W R) F} {parse : Bytes → Except String Unit}

theorem init : (State.init : State (Caller W R) F).OwnedIn sessions where
  mailbox _ hm := absurd hm List.not_mem_nil
  pending _ _ _ hp := nomatch hp
  contexts _ hx := absurd hx List.not_mem_nil
  promises _ hx := absurd hx List.not_mem_nil

/-- The messages for a parked read come from its caller. -/
theorem forParked (ho : h.OwnedIn sessions) {s : SessionId} {ms : List (SchedulerMessage (Caller W R))}
    (hms : (h.slots s).ForParked ms) : ∀ m ∈ h.mailbox ++ ms, m.OwnedIn sessions := by
  intro m hm
  rcases List.mem_append.mp hm with hm | hm
  · exact ho.mailbox m hm
  · obtain ⟨s', hp, hs'⟩ := hms m hm
    intro s'' hs''
    obtain rfl := Option.some.inj (hs'.symm.trans hs'')
    exact ho.pending s m.worker s' hp

theorem update (ho : h.OwnedIn sessions) {s : SessionId} {v : Slot (Caller W R) F}
    (hv : v.pending = (h.slots s).pending ∨ v.pending = none ∨
      ∃ c, v.pending = some (c, s) ∧ (c.runtime, s) ∈ sessions) :
    ∀ s' c t, (Function.update h.slots s v s').pending = some (c, t) → (c.runtime, t) ∈ sessions := by
  intro s' c t hp
  by_cases hs : s' = s
  · subst hs
    rw [Function.update_self] at hp
    rcases hv with hv | hv | ⟨c', hv, hc⟩
    · exact ho.pending s' c t (hv ▸ hp)
    · rw [hv] at hp
      cases hp
    · rw [hv] at hp
      cases hp
      exact hc
  · rw [Function.update_of_ne hs] at hp
    exact ho.pending s' c t hp

theorem execute (ho : h.OwnedIn sessions) {m : SchedulerMessage (Caller W R)} (hm : m.OwnedIn sessions)
    {r : HandlerResult} {effects : List (Effect (Caller W R) F)} (hx : h.execute parse m r = (h', effects)) :
    h'.OwnedIn sessions := by
  rcases execute_inv hx with ⟨c, id, json, rfl⟩ | ⟨-, rfl⟩ | ⟨s, v, hs, -, hv, rfl⟩
  · have hc : (c.runtime, id) ∈ sessions := hm id rfl
    have happend : ∀ {xs : List (Caller W R × SessionId)}, (∀ x ∈ xs, (x.1.runtime, x.2) ∈ sessions) →
        ∀ b : Bool, ∀ x ∈ if b then xs ++ [(c, id)] else xs, (x.1.runtime, x.2) ∈ sessions := by
      intro xs hxs b x hx
      split at hx
      · rcases List.mem_append.mp hx with hx | hx
        · exact hxs x hx
        · obtain rfl := List.mem_singleton.mp hx
          exact hc
      · exact hxs x hx
    cases hx
    exact ⟨ho.mailbox, ho.pending, happend ho.contexts _, happend ho.promises _⟩
  · exact ho
  · refine ⟨ho.mailbox, ho.update ?_, ho.contexts, ho.promises⟩
    have hp := (h.slots s).execute_pending m
    rw [hv] at hp
    rcases hp with hp | ⟨c, s', rfl, hp⟩
    · exact .inl hp
    · obtain rfl := Option.some.inj hs
      exact .inr (.inr ⟨c, hp, hm s' rfl⟩)

/-- Each step is about a session that its caller started, when the messages that arrive are. -/
theorem step [DecidableEq W] [DecidableEq R] (ho : h.OwnedIn sessions) {e : Event (Caller W R) F}
    (he : ∀ m, e = .post m → m.OwnedIn sessions) (hs : HostExec.step parse h e = some h') :
    e.OwnedIn sessions ∧ h'.OwnedIn sessions := by
  cases e with
  | setHandler =>
    cases hs
    exact ⟨trivial, ho.mailbox, ho.pending, ho.contexts, ho.promises⟩
  | post m =>
    obtain ⟨-, rfl⟩ := step_post_inv hs
    have hm := he m rfl
    refine ⟨hm, fun m' hm' => ?_, ho.pending, ho.contexts, ho.promises⟩
    rcases List.mem_append.mp hm' with hm' | hm'
    · exact ho.mailbox m' hm'
    · exact List.mem_singleton.mp hm' ▸ hm
  | process m r =>
    obtain ⟨mailbox, h₁, effects, hmail, hx, rfl⟩ := step_process_inv hs
    have hm : m.OwnedIn sessions := ho.mailbox m (by simp [hmail])
    have hrest : ({ h with mailbox } : State (Caller W R) F).OwnedIn sessions :=
      ⟨fun m' hm' => ho.mailbox m' (hmail ▸ List.mem_cons_of_mem m hm'), ho.pending, ho.contexts, ho.promises⟩
    have h₁o := hrest.execute hm hx
    exact ⟨hm, h₁o.mailbox, h₁o.pending, h₁o.contexts, h₁o.promises⟩
  | callback c s f =>
    obtain ⟨hc, v, ms, hv, rfl⟩ := step_callback_inv hs
    obtain ⟨hms, hp⟩ := (h.slots s).callback_pending f
    rw [hv] at hms hp
    exact ⟨ho.contexts _ hc, ho.forParked hms, ho.update (hp.imp_right .inl), ho.contexts, ho.promises⟩
  | settle c s r =>
    obtain ⟨hc, v, ms, hv, rfl⟩ := step_settle_inv hs
    obtain ⟨hms, hp⟩ := (h.slots s).settle_pending r
    rw [hv] at hms hp
    exact ⟨ho.promises _ hc, ho.forParked hms, ho.update (hp.imp_right .inl), ho.contexts,
      fun x hx => ho.promises x (List.mem_of_mem_erase hx)⟩

end State.OwnedIn

/-! ### A host with a single session -/

section Alone

variable [DecidableEq W] {parse : Bytes → Except String Unit} {s : SessionId}

/-- Where every message is about `s`, the host can do what the lane of `s` can. -/
theorem exists_step_of_lane {h : State W F} {l : Lane W F} {e : Event W F} (hm : ∀ m ∈ h.mailbox, m.session? = some s)
    (ha : e.About s) (hs : Lane.step parse (h.lane s) e = some l) : ∃ h', step parse h e = some h' := by
  have hmail : (h.lane s).mail = h.mailbox := List.filter_eq_self.mpr fun m hm' => decide_eq_true (hm m hm')
  cases e with
  | setHandler => exact ⟨_, rfl⟩
  | post m =>
    simp only [Lane.step] at hs
    split at hs
    · cases hs
    · exact ⟨_, if_neg ‹_›⟩
  | process m r =>
    simp only [Lane.step, hmail] at hs
    split at hs
    · cases hs
    · rename_i hhead
      split at hs
      · exact Option.isSome_iff_exists.mp (by simp [step, hhead, ‹_ = m›])
      · cases hs
  | callback w s' c =>
    obtain rfl : s' = s := ha
    simp only [Lane.step] at hs
    split at hs
    · exact ⟨_, if_pos (List.mem_filter.mp ‹_›).1⟩
    · cases hs
  | settle w s' r =>
    obtain rfl : s' = s := ha
    simp only [Lane.step] at hs
    split at hs
    · exact ⟨_, if_pos (List.mem_filter.mp ‹_›).1⟩
    · cases hs

theorem mailbox_about {h h' : State W F} {e : Event W F} (hp : ParkedOwn h.slots)
    (hm : ∀ m ∈ h.mailbox, m.session? = some s) (ha : e.About s) (hs : step parse h e = some h') :
    ∀ m ∈ h'.mailbox, m.session? = some s := by
  cases e with
  | setHandler =>
    cases hs
    exact hm
  | post m =>
    obtain ⟨-, rfl⟩ := step_post_inv hs
    intro m' hm'
    rcases List.mem_append.mp hm' with hm' | hm'
    · exact hm m' hm'
    · exact List.mem_singleton.mp hm' ▸ ha
  | process m r =>
    obtain ⟨mailbox, h₁, effects, hmail, hx, rfl⟩ := step_process_inv hs
    have hkeep : h₁.mailbox = mailbox := by
      rcases execute_inv hx with ⟨w, id, json, rfl⟩ | ⟨-, rfl⟩ | ⟨s', v, -, -, -, rfl⟩
      · cases hx
        rfl
      · rfl
      · rfl
    intro m' hm'
    exact hm m' (hmail ▸ List.mem_cons_of_mem m (hkeep ▸ hm'))
  | callback w s' c =>
    obtain rfl : s' = s := ha
    obtain ⟨-, v, ms, hv, rfl⟩ := step_callback_inv hs
    have hms := ((h.slots s').callback_pending c).1
    rw [hv] at hms
    intro m hm'
    exact (List.mem_append.mp hm').elim (hm m) (hp.mail hms m)
  | settle w s' r =>
    obtain rfl : s' = s := ha
    obtain ⟨-, v, ms, hv, rfl⟩ := step_settle_inv hs
    have hms := ((h.slots s').settle_pending r).1
    rw [hv] at hms
    intro m hm'
    exact (List.mem_append.mp hm').elim (hm m) (hp.mail hms m)

/-- A run of the lane of `s` is a run of a host where nothing but `s` happens. -/
theorem exists_run_of_lane {h : State W F} {l : Lane W F} {es : List (Event W F)} (hp : ParkedOwn h.slots)
    (hm : ∀ m ∈ h.mailbox, m.session? = some s) (ha : ∀ e ∈ es, e.About s)
    (hr : run (Lane.step parse) (h.lane s) es = some l) : ∃ h', run (step parse) h es = some h' ∧ h'.lane s = l := by
  induction es generalizing h with
  | nil => exact ⟨h, rfl, Option.some.inj hr⟩
  | cons e es ih =>
    obtain ⟨l₁, hs, hr⟩ := Option.bind_eq_some_iff.mp hr
    have hae := ha e (List.mem_cons_self ..)
    obtain ⟨h₁, hs₁⟩ := exists_step_of_lane hm hae hs
    obtain rfl : h₁.lane s = l₁ := Option.some.inj (((lane_projects s).on hp hae hs₁).symm.trans hs)
    obtain ⟨h', hr', hl⟩ := ih (hp.step hs₁) (mailbox_about hp hm hae hs₁)
      (fun e he => ha e (List.mem_cons_of_mem _ he)) hr
    exact ⟨h', by simp [hs₁, hr'], hl⟩

end Alone

/-! ### Pages -/

/-- Everything on the page belongs to a session of its runtime, and no two sessions have the same id. -/
structure Page.Owned [DecidableEq W] [DecidableEq R] (parse : Bytes → Except String Unit) (p : Page W R F) : Prop where
  transit : ∀ w, ∀ m ∈ p.transit w, m.OwnedIn p.sessions
  host : p.host.OwnedIn p.sessions
  trace : ∀ e ∈ p.trace, e.OwnedIn p.sessions
  ids : ∀ a ∈ p.sessions, ∀ b ∈ p.sessions, a.2 = b.2 → a = b
  run : Transition.run (HostExec.step parse) State.init p.trace = some p.host

theorem Request.session?_message {w : W} {requestId : SessionId} {q : Request} {s : SessionId}
    (h : (q.message w requestId).session? = some s) : q.session? = some s ∨ q.isStart ∧ requestId = s := by
  cases q <;> first | exact .inl h | exact .inr ⟨rfl, Option.some.inj h⟩ | cases h

theorem Request.worker_message {w : W} {requestId : SessionId} {q : Request} :
    (q.message w requestId).worker = w := by
  cases q <;> rfl

section Pages

variable [DecidableEq W] [DecidableEq R] {parse : Bytes → Except String Unit} {p p' : Page W R F}

namespace Page.Owned

theorem host_step (hp : p.Owned parse) {e : HostExec.Event (Caller W R) F} {host : State (Caller W R) F}
    {transit : W → List (SchedulerMessage (Caller W R))} (he : ∀ m, e = .post m → m.OwnedIn p.sessions)
    (ht : ∀ w, ∀ m ∈ transit w, m ∈ p.transit w) (hs : HostExec.step parse p.host e = some host) :
    Page.Owned parse { p with transit, host, trace := p.trace ++ [e] } where
  transit w m hm := hp.transit w m (ht w m hm)
  host := (hp.host.step he hs).2
  trace e' he' := by
    rcases List.mem_append.mp he' with he' | he'
    · exact hp.trace e' he'
    · exact List.mem_singleton.mp he' ▸ (hp.host.step he hs).1
  ids := hp.ids
  run := by simp [run_concat, hp.run, hs]

theorem call (hp : p.Owned parse) {c : Caller W R} {q : Request}
    (hq : q.session?.all (fun s => (c.runtime, s) ∈ p.sessions) = true)
    (hfresh : q.isStart → p.nextSessionId c.runtime ∉ p.sessions.map Prod.snd) {nextSessionId : R → SessionId}
    {sessions : List (R × SessionId)}
    (hsessions : sessions =
      if q.isStart then p.sessions ++ [(c.runtime, p.nextSessionId c.runtime)] else p.sessions) :
    Page.Owned parse { p with
      nextSessionId, sessions
      transit := Function.update p.transit c.worker
        (p.transit c.worker ++ [q.message c (p.nextSessionId c.runtime)]) } := by
  have hsub : p.sessions ⊆ sessions := by
    rw [hsessions]
    split
    · exact List.subset_append_left _ _
    · exact List.Subset.refl _
  have hmsg : (q.message c (p.nextSessionId c.runtime)).OwnedIn sessions := by
    intro s hs
    rw [Request.worker_message]
    rcases Request.session?_message hs with hs | ⟨hstart, rfl⟩
    · rw [hs] at hq
      exact hsub (of_decide_eq_true hq)
    · simp [hsessions, hstart]
  refine ⟨fun w m hm => ?_, hp.host.mono hsub, fun e he => (hp.trace e he).mono hsub, ?_, hp.run⟩
  · dsimp only at hm
    by_cases hw : w = c.worker
    · subst hw
      rw [Function.update_self] at hm
      rcases List.mem_append.mp hm with hm | hm
      · exact fun s hs => hsub (hp.transit c.worker m hm s hs)
      · exact List.mem_singleton.mp hm ▸ hmsg
    · rw [Function.update_of_ne hw] at hm
      exact fun s hs => hsub (hp.transit w m hm s hs)
  · simp only [hsessions]
    split
    · -- The id of the new session is none of the others'.
      have hnew := hfresh ‹_›
      intro a ha b hb hab
      rcases List.mem_append.mp ha with ha | ha <;> rcases List.mem_append.mp hb with hb | hb
      · exact hp.ids a ha b hb hab
      · obtain rfl := List.mem_singleton.mp hb
        exact absurd (List.mem_map.mpr ⟨a, ha, hab⟩) hnew
      · obtain rfl := List.mem_singleton.mp ha
        exact absurd (List.mem_map.mpr ⟨b, hb, hab.symm⟩) hnew
      · rw [List.mem_singleton.mp ha, List.mem_singleton.mp hb]
    · exact hp.ids

theorem step (hp : p.Owned parse) {e : Page.Event W R F} (hf : FreshIds p e) (hs : Page.step parse p e = some p') :
    p'.Owned parse := by
  cases e with
  | call c q =>
    simp only [Page.step] at hs
    split at hs
    · cases hs
      exact hp.call ‹_› hf rfl
    · cases hs
  | receive w =>
    simp only [Page.step] at hs
    split at hs
    · cases hs
    · rename_i m ms hm
      obtain ⟨host, hh, rfl⟩ := Option.map_eq_some_iff.mp hs
      refine hp.host_step (fun m' hm' => ?_) (fun w' m' hm' => ?_) hh
      · cases hm'
        exact hp.transit w m (by simp [hm])
      · by_cases hw : w' = w
        · subst hw
          rw [Function.update_self] at hm'
          exact hm ▸ List.mem_cons_of_mem m hm'
        · rwa [Function.update_of_ne hw] at hm'
  | host e =>
    simp only [Page.step] at hs
    split at hs
    · cases hs
    · obtain ⟨host, hh, rfl⟩ := Option.map_eq_some_iff.mp hs
      refine hp.host_step (fun m hm => ?_) (fun _ _ => id) hh
      subst hm
      exact absurd rfl ‹_›

theorem init : (Page.init : Page W R F).Owned parse where
  transit _ _ hm := absurd hm List.not_mem_nil
  host := .init
  trace _ he := absurd he List.not_mem_nil
  ids _ ha := absurd ha List.not_mem_nil
  run := rfl

/-- The events about the id of a session are the events of the session. -/
theorem about_iff (hp : p.Owned parse) {r : R} {s : SessionId} (hσ : (r, s) ∈ p.sessions)
    {e : HostExec.Event (Caller W R) F} (he : e ∈ p.trace) : e.About s ↔ e.OfSession r s := by
  have hown := hp.trace e he
  have hr : ∀ r', (r', s) ∈ p.sessions → r' = r := fun r' h => congrArg Prod.fst (hp.ids _ h _ hσ rfl)
  cases e with
  | setHandler => exact Iff.rfl
  | post m | process m => exact ⟨fun h => ⟨h, hr _ (hown s h)⟩, And.left⟩
  | callback c s' | settle c s' =>
    refine ⟨fun h => ?_, And.left⟩
    obtain rfl : s' = s := h
    exact ⟨rfl, hr _ hown⟩

end Page.Owned

/-! ### Runs -/

/-- As long as every start draws an id that no session has, sessions do not see each other: with the events of a
    session alone, a host comes to hold for it, to answer it and to call for it just what it does among all others. -/
theorem isolated (hr : ReachVia (Page.step parse) FreshIds Page.init p) {r : R} {s : SessionId}
    (hσ : (r, s) ∈ p.sessions) :
    ∃ h, run (step parse) State.init (p.trace.filter (fun e => e.OfSession r s)) = some h ∧ h.lane s = p.host.lane s := by
  have hp : p.Owned parse := hr.invariant .init fun hp hf hs => hp.step hf hs
  have hlane := (lane_projects s).run ParkedOwn.init hp.run
  have hfilter : p.trace.filter (fun e => e.About s) = p.trace.filter (fun e => e.OfSession r s) :=
    List.filter_congr fun e he => by simp [hp.about_iff hσ he]
  rw [hfilter] at hlane
  refine exists_run_of_lane ParkedOwn.init (fun _ hm => absurd hm List.not_mem_nil) (fun e he => ?_) hlane
  obtain ⟨hmem, hs⟩ := List.mem_filter.mp he
  exact (hp.about_iff hσ hmem).mpr (of_decide_eq_true hs)

end Pages

/-- Two sessions of one runtime. -/
theorem isolated_sessions :
    let parse : Bytes → Except String Unit := fun _ => .ok ()
    ∃ p : Page Nat Nat Nat, ReachVia (Page.step parse) FreshIds Page.init p ∧ p.sessions = [(0, 0), (0, 2)] ∧
      outputs (p.host.lane 0).log = [(MSG_TYPE_STDOUT, [1])] ∧ outputs (p.host.lane 2).log = [(MSG_TYPE_STDERR, [2])] ∧
      ∃ h, run (step parse) State.init (p.trace.filter (fun e => e.OfSession 0 2)) = some h ∧
        h.lane 2 = p.host.lane 2 := by
  intro parse
  obtain ⟨p, hr, hsessions, hout⟩ : ∃ p : Page Nat Nat Nat, ReachVia (Page.step parse) FreshIds Page.init p ∧
      p.sessions = [(0, 0), (0, 2)] ∧
        outputs (p.host.lane 0).log = [(MSG_TYPE_STDOUT, [1])] ∧
          outputs (p.host.lane 2).log = [(MSG_TYPE_STDERR, [2])] :=
    exists_reachVia
      [.host (.setHandler true),
        .call ⟨0, 0⟩ (.hostExecStart []), .receive 0, .host (.process (.hostExecStart ⟨0, 0⟩ 0 []) .promise),
        .call ⟨0, 0⟩ (.hostExecRead 0), .call ⟨1, 0⟩ (.hostExecStart []), .receive 1, .receive 0,
        .host (.process (.hostExecStart ⟨1, 0⟩ 2 []) .promise), .host (.process (.hostExecRead ⟨0, 0⟩ 0) .promise),
        .host (.callback ⟨1, 0⟩ 2 (.onStderr [2])), .host (.callback ⟨0, 0⟩ 0 (.onStdout [1])),
        .host (.process (.hostExecReadComplete ⟨0, 0⟩ 0 MSG_TYPE_STDOUT [1]) .promise),
        .call ⟨1, 0⟩ (.hostExecRead 2), .receive 1, .host (.process (.hostExecRead ⟨1, 0⟩ 2) .promise)]
      _ (by decide) (by decide)
  exact ⟨p, hr, hsessions, hout.1, hout.2, isolated hr (by simp [hsessions])⟩

/-- Two runtimes that start a session each get the same id. The program of runtime 0 reads what the handler has
    written for the program of runtime 1; on its own, it would have read nothing. -/
theorem runtimes_share_session :
    let parse : Bytes → Except String Unit := fun _ => .ok ()
    ∃ p : Page Nat Nat Nat, Reach (Page.step parse) Page.init p ∧ p.sessions = [(0, 0), (1, 0)] ∧
      .called ⟨1, 1⟩ 0 (.onStdout [5]) ∈ p.host.log ∧
      .executed (.hostExecRead ⟨0, 0⟩ 0) [.readResponse ⟨0, 0⟩ 0 MSG_TYPE_STDOUT 1 (some [5])] ∈ p.host.log ∧
      ((run (step parse) State.init (p.trace.filter (fun e => e.OfSession 0 0))).any fun h =>
        outputs (h.lane 0).log = []) = true := by
  intro parse
  exact exists_reach
    [.host (.setHandler true),
      .call ⟨0, 0⟩ (.hostExecStart []), .receive 0, .host (.process (.hostExecStart ⟨0, 0⟩ 0 []) .promise),
      .call ⟨1, 1⟩ (.hostExecStart []), .receive 1, .host (.process (.hostExecStart ⟨1, 1⟩ 0 []) .promise),
      .host (.callback ⟨1, 1⟩ 0 (.onStdout [5])),
      .call ⟨0, 0⟩ (.hostExecRead 0), .receive 0, .host (.process (.hostExecRead ⟨0, 0⟩ 0) .promise)] _ (by decide)

end HostExec
end WasmerJs
