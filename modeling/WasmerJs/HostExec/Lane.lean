import WasmerJs.HostExec.Host

/-! One session id seen on its own. Apart from the functions for the output of child processes, every entry of the
    global maps, every message and every context object belongs to one session id. What belongs to an id is its
    lane: a machine of its own, which moves only with the events of that id. -/

namespace WasmerJs
namespace HostExec

open Transition

variable {W F : Type}

/-- What the main thread holds for one session id. -/
structure Lane (W F : Type) where
  handler : Bool
  slot : Slot W F
  mail : List (SchedulerMessage W)
  contexts : List (W × SessionId)
  promises : List (W × SessionId)
  log : List (Entry W F)

def Lane.init : Lane W F :=
  { handler := false, slot := .empty, mail := [], contexts := [], promises := [], log := [] }

def State.lane (h : State W F) (s : SessionId) : Lane W F :=
  { handler := h.handler
    slot := h.slots s
    mail := h.mailbox.filter (·.session? = some s)
    contexts := h.contexts.filter (·.2 = s)
    promises := h.promises.filter (·.2 = s)
    log := h.log.filter (·.session? = some s) }

/-- The session id that an event is about; the registration of the handler is about every one. -/
def Event.About (s : SessionId) : Event W F → Prop
  | .setHandler _ => True
  | .post m | .process m _ => m.session? = some s
  | .callback _ s' _ | .settle _ s' _ => s' = s

instance (s : SessionId) : DecidablePred (Event.About s : Event W F → Prop)
  | .setHandler _ => inferInstanceAs (Decidable True)
  | .post m | .process m _ => inferInstanceAs (Decidable (m.session? = some s))
  | .callback _ s' _ | .settle _ s' _ => inferInstanceAs (Decidable (s' = s))

namespace Lane

def execute (parse : Bytes → Except String Unit) (l : Lane W F) (m : SchedulerMessage W) (r : HandlerResult) :
    Lane W F × List (Effect W F) :=
  match m with
  | .hostExecStart w id json =>
    let result := startResult parse l.handler json r
    let contexts := if result.hasContext then l.contexts ++ [(w, id)] else l.contexts
    let promises := if result.hasPromise then l.promises ++ [(w, id)] else l.promises
    ({ l with contexts, promises }, [.startResponse w id (result.response id)])
  | m =>
    let (slot, effects) := l.slot.execute m
    ({ l with slot }, effects)

def step [DecidableEq W] (parse : Bytes → Except String Unit) (l : Lane W F) : Event W F → Option (Lane W F)
  | .setHandler handler => some { l with handler }
  | .post m => if m.isComplete then none else some { l with mail := l.mail ++ [m], log := l.log ++ [.posted m] }
  | .process m r =>
    match l.mail with
    | [] => none
    | head :: mail =>
      if head = m then
        let (l, effects) := { l with mail }.execute parse m r
        some { l with log := l.log ++ [.executed m effects] }
      else none
  | .callback w s c =>
    if (w, s) ∈ l.contexts then
      let (slot, ms) := l.slot.callback c
      some { l with slot, mail := l.mail ++ ms, log := l.log ++ [.called w s c] }
    else none
  | .settle w s r =>
    if (w, s) ∈ l.promises then
      let (slot, ms) := l.slot.settle r
      some { l with
        slot, promises := l.promises.erase (w, s), mail := l.mail ++ ms, log := l.log ++ [.settled w s r] }
    else none

end Lane

/-! ### The host and its lanes -/

/-- A read is parked under its own session id. -/
def ParkedOwn (slots : SessionId → Slot W F) : Prop := ∀ s w s', (slots s).pending = some (w, s') → s' = s

theorem Lane.execute_eq {parse : Bytes → Except String Unit} {l : Lane W F} {m : SchedulerMessage W}
    {r : HandlerResult} (hm : m.isStart = false) :
    l.execute parse m r = ({ l with slot := (l.slot.execute m).1 }, (l.slot.execute m).2) := by
  cases m with
  | hostExecStart => cases hm
  | _ => rfl

namespace ParkedOwn

variable {slots : SessionId → Slot W F} {s : SessionId}

theorem init : ParkedOwn (State.init : State W F).slots := by
  intro s w s' h
  cases h

theorem update (hp : ParkedOwn slots) {v : Slot W F}
    (hv : v.pending = (slots s).pending ∨ v.pending = none ∨ ∃ w, v.pending = some (w, s)) :
    ParkedOwn (Function.update slots s v) := by
  intro s' w t hpend
  by_cases hs : s' = s
  · subst hs
    rw [Function.update_self] at hpend
    rcases hv with hv | hv | ⟨u, hv⟩
    · exact hp s' w t (hv ▸ hpend)
    · rw [hv] at hpend
      cases hpend
    · rw [hv] at hpend
      cases hpend
      rfl
  · rw [Function.update_of_ne hs] at hpend
    exact hp s' w t hpend

/-- The messages for a reader parked in slot `s` belong to the lane of `s`. -/
theorem mail (hp : ParkedOwn slots) {ms : List (SchedulerMessage W)} (hms : (slots s).ForParked ms) :
    ∀ m ∈ ms, m.session? = some s := by
  intro m hm
  obtain ⟨s', hpend, hs'⟩ := hms m hm
  rw [hs', hp s m.worker s' hpend]

end ParkedOwn

theorem filter_mail {ms : List (SchedulerMessage W)} {s : SessionId} (hms : ∀ m ∈ ms, m.session? = some s)
    (s' : SessionId) : ms.filter (·.session? = some s') = if s = s' then ms else [] := by
  split
  · subst_vars
    exact List.filter_eq_self.mpr fun m hm => decide_eq_true (hms m hm)
  · refine List.filter_eq_nil_iff.mpr fun m hm => ?_
    simp [hms m hm, ‹s ≠ s'›]

section Projection

variable {parse : Bytes → Except String Unit} {h h' : State W F} {e : Event W F} {s : SessionId}

theorem ParkedOwn.execute (hp : ParkedOwn h.slots) {m : SchedulerMessage W} {r : HandlerResult}
    {effects : List (Effect W F)} (hx : h.execute parse m r = (h', effects)) : ParkedOwn h'.slots := by
  rcases execute_inv hx with ⟨w, id, json, rfl⟩ | ⟨-, rfl⟩ | ⟨s, v, hm, -, hv, rfl⟩
  · cases hx
    exact hp
  · exact hp
  · refine hp.update ?_
    have hpend := (h.slots s).execute_pending m
    rw [hv] at hpend
    rcases hpend with hpend | ⟨w, s', rfl, hpend⟩
    · exact .inl hpend
    · obtain rfl := Option.some.inj hm
      exact .inr (.inr ⟨w, hpend⟩)

/-- Handling a message about `s` is the same for the host and for the lane of `s`. -/
theorem execute_lane {m : SchedulerMessage W} {r : HandlerResult} {effects : List (Effect W F)}
    (hm : m.session? = some s) (hx : h.execute parse m r = (h', effects)) :
    (h.lane s).execute parse m r = (h'.lane s, effects) := by
  rcases execute_inv hx with ⟨w, id, json, rfl⟩ | ⟨hnone, -⟩ | ⟨s', v, hm', hstart, hv, rfl⟩
  · obtain rfl : id = s := Option.some.inj hm
    cases hx
    cases hres : startResult parse h.handler json r <;>
      simp [Lane.execute, State.lane, hres, StartResult.hasContext, StartResult.hasPromise]
  · rw [hnone] at hm
    cases hm
  · obtain rfl := Option.some.inj (hm.symm.trans hm')
    have hslot : (h.lane s).slot = h.slots s := rfl
    rw [Lane.execute_eq hstart, hslot, hv]
    simp [State.lane]

/-- Handling a message about another session id leaves the lane of `s` alone. -/
theorem execute_lane_of_ne {m : SchedulerMessage W} {r : HandlerResult} {effects : List (Effect W F)}
    (hm : m.session? ≠ some s) (hx : h.execute parse m r = (h', effects)) : h'.lane s = h.lane s := by
  rcases execute_inv hx with ⟨w, id, json, rfl⟩ | ⟨-, rfl⟩ | ⟨s', v, hm', -, -, rfl⟩
  · have hid : id ≠ s := fun hid => hm (congrArg some hid)
    cases hx
    cases hres : startResult parse h.handler json r <;>
      simp [State.lane, hid, StartResult.hasContext, StartResult.hasPromise]
  · rfl
  · have hs : s ≠ s' := fun hs => hm (hs ▸ hm')
    simp [State.lane, Function.update_of_ne hs]

variable [DecidableEq W]

theorem ParkedOwn.step (hp : ParkedOwn h.slots) (hs : HostExec.step parse h e = some h') : ParkedOwn h'.slots := by
  cases e with
  | setHandler =>
    cases hs
    exact hp
  | post m =>
    obtain ⟨-, rfl⟩ := step_post_inv hs
    exact hp
  | process m r =>
    obtain ⟨mailbox, h₁, effects, -, hx, rfl⟩ := step_process_inv hs
    have hp : ParkedOwn h₁.slots := ParkedOwn.execute (h := { h with mailbox }) hp hx
    exact hp
  | callback w s c =>
    obtain ⟨-, v, ms, hv, rfl⟩ := step_callback_inv hs
    have hpend := ((h.slots s).callback_pending c).2
    rw [hv] at hpend
    exact hp.update (hpend.imp_right .inl)
  | settle w s r =>
    obtain ⟨-, v, ms, hv, rfl⟩ := step_settle_inv hs
    have hpend := ((h.slots s).settle_pending r).2
    rw [hv] at hpend
    exact hp.update (hpend.imp_right .inl)

/-- The lane of a session id takes the steps of the host that are about the id, and no others. -/
theorem lane_projects (s : SessionId) :
    Projects (step parse) (Lane.step parse) (fun h : State W F => h.lane s) (Event.About s)
      (fun h => ParkedOwn h.slots) where
  keep hp hs := hp.step hs
  on {h h' e} hp ha hs := by
    cases e with
    | setHandler =>
      cases hs
      rfl
    | post m =>
      have ha : m.session? = some s := ha
      obtain ⟨hm, rfl⟩ := step_post_inv hs
      simp [Lane.step, State.lane, hm, ha]
    | process m r =>
      have ha : m.session? = some s := ha
      obtain ⟨mailbox, h₁, effects, hm, hx, rfl⟩ := step_process_inv hs
      have hlane : ({ h.lane s with mail := mailbox.filter (·.session? = some s) } : Lane W F).execute parse m r =
          (h₁.lane s, effects) := execute_lane ha hx
      have hmail : (h.lane s).mail = m :: mailbox.filter (·.session? = some s) := by simp [State.lane, hm, ha]
      simp only [Lane.step, hmail, ↓reduceIte, hlane]
      simp [State.lane, ha]
    | callback w s' c =>
      obtain rfl : s' = s := ha
      obtain ⟨hc, v, ms, hv, rfl⟩ := step_callback_inv hs
      have hms := ((h.slots s').callback_pending c).1
      rw [hv] at hms
      have hmail := filter_mail (hp.mail hms) s'
      simp [Lane.step, State.lane, hc, hv, hmail]
    | settle w s' r =>
      obtain rfl : s' = s := ha
      obtain ⟨hc, v, ms, hv, rfl⟩ := step_settle_inv hs
      have hms := ((h.slots s').settle_pending r).1
      rw [hv] at hms
      have hmail := filter_mail (hp.mail hms) s'
      simp [Lane.step, State.lane, hc, hv, hmail, List.erase_filter]
  off {h h' e} hp ha hs := by
    cases e with
    | setHandler => exact absurd trivial ha
    | post m =>
      have ha : m.session? ≠ some s := ha
      obtain ⟨-, rfl⟩ := step_post_inv hs
      simp [State.lane, ha]
    | process m r =>
      have ha : m.session? ≠ some s := ha
      obtain ⟨mailbox, h₁, effects, hm, hx, rfl⟩ := step_process_inv hs
      have hlane : h₁.lane s = ({ h with mailbox } : State W F).lane s := execute_lane_of_ne ha hx
      simp only [State.lane, Lane.mk.injEq] at hlane
      simp [State.lane, ha, hm, hlane]
    | callback w s' c =>
      have ha : s' ≠ s := ha
      obtain ⟨-, v, ms, hv, rfl⟩ := step_callback_inv hs
      have hms := ((h.slots s').callback_pending c).1
      rw [hv] at hms
      have hmail := filter_mail (hp.mail hms) s
      simp [State.lane, hmail, ha, Function.update_of_ne (Ne.symm ha)]
    | settle w s' r =>
      have ha : s' ≠ s := ha
      obtain ⟨-, v, ms, hv, rfl⟩ := step_settle_inv hs
      have hms := ((h.slots s').settle_pending r).1
      rw [hv] at hms
      have hmail := filter_mail (hp.mail hms) s
      have hpromises : (h.promises.erase (w, s')).filter (·.2 = s) = h.promises.filter (·.2 = s) := by
        rw [← List.erase_filter, List.erase_of_not_mem (by simp [ha])]
      simp [State.lane, hmail, ha, hpromises, Function.update_of_ne (Ne.symm ha)]

end Projection

end HostExec
end WasmerJs
