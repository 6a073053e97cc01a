import WasmerJs.HostExec.Log

/-! The output of child processes (`HostExecChildOutput` in `src/tasks/scheduler.rs`). The functions for it are kept in
    one table for all sessions: under the child id that a handler passed to `requestSpawn`, and under the session id by
    `setChildOutputHandlers`. The scheduler looks up the child id and does not look at the session. -/

namespace WasmerJs
namespace HostExec

open Transition

variable {W F : Type}

/-! ### What the log says -/

/-- Functions for the output of child processes, as a session registered them: for one child, or for all of its. -/
structure ChildHandlers (F : Type) where
  session : SessionId
  child? : Option ChildId
  handlers : F × F × F
  deriving DecidableEq

namespace ChildHandlers

/-- The key in `CHILD_OUTPUT_HANDLERS`. -/
def key (r : ChildHandlers F) : ChildId := r.child?.getD r.session

def functions (r : ChildHandlers F) : List F := [r.handlers.1, r.handlers.2.1, r.handlers.2.2]

/-- The output of child `c` of session `s` is for `r`: the session registered it for the child, or for all children
    while it registered nothing for this one. -/
def For (rs : List (ChildHandlers F)) (s : SessionId) (c : ChildId) (r : ChildHandlers F) : Prop :=
  r.session = s ∧ (r.child? = some c ∨ r.child? = none ∧ ∀ r' ∈ rs, r'.session = s → r'.child? ≠ some c)

instance (rs : List (ChildHandlers F)) (s : SessionId) (c : ChildId) (r : ChildHandlers F) : Decidable (r.For rs s c) :=
  inferInstanceAs (Decidable (_ ∧ (_ ∨ _ ∧ _)))

end ChildHandlers

def Callback.childHandlers? (s : SessionId) : Callback F → Option (ChildHandlers F)
  | requestSpawn c (some handlers) _ => some { session := s, child? := some c, handlers }
  | setChildOutputHandlers handlers => some { session := s, child? := none, handlers }
  | _ => none

def Entry.childHandlers? : Entry W F → Option (ChildHandlers F)
  | called _ s c => c.childHandlers? s
  | posted _ | executed .. | settled .. => none

/-- The session and the child whose output is taken up. -/
def Entry.childOutput? : Entry W F → Option (SessionId × ChildId)
  | executed (.hostExecChildOutput _ s c _ _) _ => some (s, c)
  | _ => none

def childHandlers (log : List (Entry W F)) : List (ChildHandlers F) := log.filterMap Entry.childHandlers?

/-- What was registered last under a key. -/
def lastUnder (c : ChildId) (rs : List (ChildHandlers F)) : Option (ChildHandlers F) :=
  (rs.filter (·.key = c)).getLast?

/-- The output of a child is given only to functions that its session registered for it. -/
def ChildCallsOwn (log : List (Entry W F)) : Prop :=
  ∀ pre x post, log = pre ++ x :: post → ∀ s c, x.childOutput? = some (s, c) → ∀ f arg, .call f arg ∈ x.effects →
    ∃ r ∈ childHandlers pre, r.For (childHandlers pre) s c ∧ f ∈ r.functions

/-- The output of a child is given to no function that another session registered. -/
def ChildCallsNoOther (log : List (Entry W F)) : Prop :=
  ∀ pre x post, log = pre ++ x :: post → ∀ s c, x.childOutput? = some (s, c) → ∀ f arg, .call f arg ∈ x.effects →
    ∀ r ∈ childHandlers pre, f ∈ r.functions → r.session = s

def IsChildOutput (msgType : MsgType) : Prop :=
  msgType = MSG_TYPE_CHILD_STDOUT ∨ msgType = MSG_TYPE_CHILD_STDERR ∨ msgType = MSG_TYPE_CHILD_EXIT

instance : DecidablePred IsChildOutput := fun _ => inferInstanceAs (Decidable (_ ∨ _ ∨ _))

/-- When output of child `c` of session `s` is taken up, the last functions under the key `c` were registered for
    it. -/
def OwnLast (h : State W F) : Event W F → Prop
  | .process (.hostExecChildOutput _ s c msgType _) _ =>
    IsChildOutput msgType → ∀ r ∈ lastUnder c (childHandlers h.log), r.For (childHandlers h.log) s c
  | .process .. | .setHandler _ | .post _ | .callback .. | .settle .. => True

instance (h : State W F) : ∀ e, Decidable (OwnLast h e)
  | .process (.hostExecChildOutput ..) _ => inferInstanceAs (Decidable (_ → _))
  | .process (.hostExecStart ..) _ | .process (.hostExecRead ..) _ | .process (.hostExecReadComplete ..) _
  | .process (.hostExecWrite ..) _ | .process (.hostExecCloseStdin ..) _ | .process (.hostExecTryRead ..) _
  | .process (.hostExecPoll ..) _ | .process (.hostExecSignal ..) _
  | .setHandler _ | .post _ | .callback .. | .settle .. => inferInstanceAs (Decidable True)

/-- Each function that is registered belongs to one session, and to one child or to all of the session's. -/
def Event.RegistersOwned (owner : F → SessionId × Option ChildId) : Event W F → Prop
  | .callback _ s c => ∀ r ∈ c.childHandlers? s, ∀ f ∈ r.functions, owner f = (r.session, r.child?)
  | .setHandler _ | .post _ | .process .. | .settle .. => True

instance (owner : F → SessionId × Option ChildId) (e : Event W F) : Decidable (e.RegistersOwned owner) :=
  match e with
  | .callback .. => inferInstanceAs (Decidable (∀ _ ∈ (_ : Option _), _))
  | .setHandler _ | .post _ | .process .. | .settle .. => inferInstanceAs (Decidable True)

/-! ### The table -/

section Table

variable {log : List (Entry W F)} {x : Entry W F} {rs : List (ChildHandlers F)} {r : ChildHandlers F} {c : ChildId}

theorem childHandlers_append : childHandlers (log ++ [x]) = childHandlers log ++ x.childHandlers?.toList := by
  cases hx : x.childHandlers? <;> simp [childHandlers, hx]

theorem lastUnder_append : lastUnder c (rs ++ [r]) = if r.key = c then some r else lastUnder c rs := by
  by_cases hc : r.key = c <;> simp [lastUnder, hc]

theorem mem_of_lastUnder (h : lastUnder c rs = some r) : r ∈ rs :=
  (List.mem_filter.mp (List.mem_of_getLast? h)).1

/-- A callback registers what the log says. -/
theorem registered_eq {h : State W F} {s : SessionId} (cb : Callback F) :
    h.registered s cb = match cb.childHandlers? s with
      | some r => Function.update h.childOutputHandlers r.key (some r.handlers)
      | none => h.childOutputHandlers := by
  cases cb with
  | requestSpawn childId handlers json => cases handlers <;> rfl
  | _ => rfl

/-- Output is given to one of the functions that are found. -/
theorem childOutput_call {h : State W F} {msgType : MsgType} {data : Bytes} {f : F} {arg : Arg}
    (hc : .call f arg ∈ h.childOutput c msgType data) :
    IsChildOutput msgType ∧ ∃ p, h.childOutputHandlers c = some p ∧ f ∈ [p.1, p.2.1, p.2.2] := by
  unfold State.childOutput at hc
  split at hc
  · rename_i stdout stderr exit hp
    unfold IsChildOutput
    split at hc
    · cases List.mem_singleton.mp hc
      exact ⟨.inl ‹_›, _, hp, by simp⟩
    · split at hc
      · cases List.mem_singleton.mp hc
        exact ⟨.inr (.inl ‹_›), _, hp, by simp⟩
      · split at hc
        · cases List.mem_singleton.mp hc
          exact ⟨.inr (.inr ‹_›), _, hp, by simp⟩
        · cases hc
  · cases hc

theorem exists_childOutput_call {h : State W F} {msgType : MsgType} {p : F × F × F} (ht : IsChildOutput msgType)
    (hp : h.childOutputHandlers c = some p) (data : Bytes) :
    ∃ f ∈ [p.1, p.2.1, p.2.2], ∃ arg, .call f arg ∈ h.childOutput c msgType data := by
  unfold State.childOutput
  rw [hp]
  rcases ht with rfl | rfl | rfl
  · exact ⟨p.1, by simp, _, List.mem_singleton.mpr rfl⟩
  · exact ⟨p.2.1, by simp, _, List.mem_singleton.mpr rfl⟩
  · exact ⟨p.2.2, by simp, _, List.mem_singleton.mpr rfl⟩

end Table

/-! ### What a step does with the output of children -/

section Steps

/-- A step, as far as the output of child processes goes. -/
inductive ChildStep (h h' : State W F) : Event W F → Prop where
  | handler {registered} (hlog : h'.log = h.log) (ht : h'.childOutputHandlers = h.childOutputHandlers) :
      ChildStep h h' (.setHandler registered)
  | other {e} (ho : OwnLast h e) (x : Entry W F) (hx : x.childHandlers? = none) (hc : x.childOutput? = none)
      (hlog : h'.log = h.log ++ [x]) (ht : h'.childOutputHandlers = h.childOutputHandlers) : ChildStep h h' e
  | registered {w s c r} (hc : c.childHandlers? s = some r) (hlog : h'.log = h.log ++ [.called w s c])
      (ht : h'.childOutputHandlers = Function.update h.childOutputHandlers r.key (some r.handlers)) :
      ChildStep h h' (.callback w s c)
  | output {w s c msgType data r}
      (hlog : h'.log = h.log ++
        [.executed (.hostExecChildOutput w s c msgType data) (h.childOutput c msgType data)])
      (ht : h'.childOutputHandlers = h.childOutputHandlers) :
      ChildStep h h' (.process (.hostExecChildOutput w s c msgType data) r)

variable {parse : Bytes → Except String Unit} {h h' : State W F} {e : Event W F}

theorem execute_childOutputHandlers {m : SchedulerMessage W} {r : HandlerResult} {effects : List (Effect W F)}
    (hx : h.execute parse m r = (h', effects)) : h'.childOutputHandlers = h.childOutputHandlers := by
  rcases execute_inv hx with ⟨w, id, json, rfl⟩ | ⟨-, rfl⟩ | ⟨s, v, -, -, -, rfl⟩
  · cases hx
    rfl
  · rfl
  · rfl

theorem step_childOutput [DecidableEq W] (hs : step parse h e = some h') : ChildStep h h' e := by
  cases e with
  | setHandler =>
    cases hs
    exact .handler rfl rfl
  | post m =>
    obtain ⟨-, rfl⟩ := step_post_inv hs
    exact .other trivial (.posted m) rfl rfl rfl rfl
  | process m r =>
    obtain ⟨mailbox, h₁, effects, -, hx, rfl⟩ := step_process_inv hs
    have hlog := (execute_frame hx).2
    have ht := execute_childOutputHandlers hx
    cases m with
    | hostExecChildOutput w s c msgType data =>
      cases hx
      exact .output rfl rfl
    | _ => exact .other trivial (.executed _ effects) rfl rfl (by rw [hlog]) ht
  | callback w s c =>
    obtain ⟨-, v, ms, -, rfl⟩ := step_callback_inv hs
    have hreg := registered_eq (h := h) (s := s) c
    cases hc : c.childHandlers? s with
    | none =>
      rw [hc] at hreg
      exact .other trivial (.called w s c) hc rfl rfl hreg
    | some r =>
      rw [hc] at hreg
      exact .registered hc rfl hreg
  | settle w s r =>
    obtain ⟨-, v, ms, -, rfl⟩ := step_settle_inv hs
    exact .other trivial (.settled w s r) rfl rfl rfl rfl

/-! ### Whose functions are called -/

/-- The table holds what was registered last under each key, and so far each call was for its session. -/
structure ChildInv (h : State W F) : Prop where
  table : ∀ c, h.childOutputHandlers c = (lastUnder c (childHandlers h.log)).map ChildHandlers.handlers
  own : ChildCallsOwn h.log

theorem ChildInv.init : ChildInv (State.init : State W F) where
  table _ := rfl
  own pre x post hlog := by simp [State.init] at hlog

theorem ChildCallsOwn.append {log : List (Entry W F)} {x : Entry W F} (hl : ChildCallsOwn log)
    (hx : ∀ s c, x.childOutput? = some (s, c) → ∀ f arg, .call f arg ∈ x.effects →
      ∃ r ∈ childHandlers log, r.For (childHandlers log) s c ∧ f ∈ r.functions) : ChildCallsOwn (log ++ [x]) :=
  forall_entry_concat.mpr ⟨hl, hx⟩

theorem ChildStep.inv (hs : ChildStep h h' e) (hi : ChildInv h) (ho : OwnLast h e) : ChildInv h' := by
  obtain ⟨htable, hown⟩ := hi
  cases hs with
  | handler hlog ht => exact ⟨by rwa [hlog, ht], by rwa [hlog]⟩
  | other _ x hx hc hlog ht =>
    refine ⟨?_, ?_⟩
    · rw [hlog, ht, childHandlers_append, hx]
      simpa using htable
    · rw [hlog]
      exact hown.append (by simp [hc])
  | @registered w s cb r hc hlog ht =>
    have hx : (Entry.called w s cb : Entry W F).childHandlers? = some r := hc
    refine ⟨fun c => ?_, ?_⟩
    · rw [hlog, ht, childHandlers_append, hx, Option.toList_some, lastUnder_append]
      by_cases hk : r.key = c
      · subst hk
        simp
      · rw [Function.update_of_ne (Ne.symm hk), if_neg hk]
        exact htable c
    · rw [hlog]
      exact hown.append (by simp [Entry.childOutput?])
  | @output w s c msgType data _ hlog ht =>
    refine ⟨?_, ?_⟩
    · rw [hlog, ht, childHandlers_append]
      simpa [Entry.childHandlers?] using htable
    · rw [hlog]
      refine hown.append fun s' c' hsc f arg hf => ?_
      cases hsc
      obtain ⟨htype, p, hp, hmem⟩ := childOutput_call hf
      rw [htable c] at hp
      obtain ⟨r, hr, rfl⟩ := Option.map_eq_some_iff.mp hp
      exact ⟨r, mem_of_lastUnder hr, ho htype r hr, hmem⟩

/-- Each function in the log has the owner that registered it. -/
def Owned (owner : F → SessionId × Option ChildId) (log : List (Entry W F)) : Prop :=
  ∀ r ∈ childHandlers log, ∀ f ∈ r.functions, owner f = (r.session, r.child?)

variable {owner : F → SessionId × Option ChildId}

theorem ChildStep.owned (hs : ChildStep h h' e) (hi : Owned owner h.log) (he : e.RegistersOwned owner) :
    Owned owner h'.log := by
  cases hs with
  | handler hlog => rwa [hlog]
  | other _ x hx _ hlog =>
    rw [hlog, Owned, childHandlers_append, hx]
    simpa [Owned] using hi
  | @registered w s cb r hc hlog =>
    have hx : (Entry.called w s cb : Entry W F).childHandlers? = some r := hc
    rw [hlog, Owned, childHandlers_append, hx]
    intro r' hr'
    rcases List.mem_append.mp hr' with hr' | hr'
    · exact hi r' hr'
    · obtain rfl := List.mem_singleton.mp hr'
      exact he r' hc
  | output hlog =>
    rw [hlog, Owned, childHandlers_append]
    simpa [Owned, Entry.childHandlers?] using hi

/-- A function that belongs to the session was registered by no other. -/
theorem ChildCallsOwn.noOther {log : List (Entry W F)} (hl : ChildCallsOwn log) (ho : Owned owner log) :
    ChildCallsNoOther log := by
  intro pre x post hlog s c hsc f arg hf r hr hmem
  obtain ⟨r', hr', hfor, hmem'⟩ := hl pre x post hlog s c hsc f arg hf
  have hsub : ∀ r ∈ childHandlers pre, r ∈ childHandlers log := by
    intro r hr
    rw [hlog, childHandlers, List.filterMap_append]
    exact List.mem_append_left _ hr
  have heq := (ho r (hsub r hr) f hmem).symm.trans (ho r' (hsub r' hr') f hmem')
  exact (Prod.mk.inj heq).1.trans hfor.1

/-- Functions that were registered last by another session, or for something else, are called all the same. -/
theorem ChildStep.foreign (hs : ChildStep h h' e) (hi : ChildInv h) (how : Owned owner h.log) (ho : ¬ OwnLast h e) :
    ¬ ChildCallsOwn h'.log := by
  intro hl
  cases hs with
  | @output w s c msgType data _ hlog ht =>
    obtain ⟨htype, r, hr, hfor⟩ : IsChildOutput msgType ∧
        ∃ r ∈ lastUnder c (childHandlers h.log), ¬ r.For (childHandlers h.log) s c := by
      simpa [OwnLast, and_assoc] using ho
    have hp := (hi.table c).trans (congrArg (Option.map ChildHandlers.handlers) hr)
    obtain ⟨f, hmem, arg, hf⟩ := exists_childOutput_call htype hp data
    rw [hlog] at hl
    obtain ⟨r', hr', hfor', hmem'⟩ := hl h.log _ [] rfl s c rfl f arg hf
    have heq := (how r (mem_of_lastUnder hr) f hmem).symm.trans (how r' hr' f hmem')
    obtain ⟨hsession, hchild⟩ := Prod.mk.inj heq
    exact hfor ⟨hsession.trans hfor'.1, hchild ▸ hfor'.2⟩
  | other hf => exact ho hf
  | handler | registered => exact ho trivial

end Steps

/-! ### Runs -/

variable [DecidableEq W] {parse : Bytes → Except String Unit}

/-- Along a run the output of each child goes to its own session's functions if the last functions under the child's
    id are always the session's. Where each function was registered by one session and for one child, it does so only
    then, and is given to no function of another session. -/
theorem child_output_own {h : State W F} {es : List (Event W F)} (hr : run (step parse) .init es = some h) :
    (RunOk (step parse) OwnLast .init es → RunAll (step parse) (fun h => ChildCallsOwn h.log) .init es) ∧
      ∀ owner : F → SessionId × Option ChildId, (∀ e ∈ es, e.RegistersOwned owner) →
        (RunAll (step parse) (fun h => ChildCallsOwn h.log ∧ ChildCallsNoOther h.log) .init es ↔
          RunOk (step parse) OwnLast .init es) := by
  refine ⟨RunOk.runAll ChildInv.own (fun hi ho hs => (step_childOutput hs).inv hi ho) .init, fun owner hes => ?_⟩
  refine runAll_iff_runOk_of (I := fun h => ChildInv h ∧ Owned owner h.log)
    (fun ⟨hi, how⟩ => ⟨hi.own, hi.own.noOther how⟩) ?_ ?_ ⟨.init, ?_⟩ hes hr
  · intro h h' e ⟨hi, how⟩ he ho hs
    have hstep := step_childOutput hs
    exact ⟨hstep.inv hi ho, hstep.owned how he⟩
  · intro h h' e ⟨hi, how⟩ ho hs hown
    exact (step_childOutput hs).foreign hi how ho hown.1
  · intro r hr
    cases hr

/-- Two sessions with children under ids of their own; session 7 registers functions for all its children, too. -/
theorem child_output_own_two :
    let parse : Bytes → Except String Unit := fun _ => .ok ()
    let es : List (Event Nat Nat) := List.flatten [
      Event.started 0 7, Event.started 1 8,
      [.callback 0 7 (.setChildOutputHandlers (1, 2, 3)), .callback 0 7 (.requestSpawn 11 (some (10, 11, 12)) []),
        .callback 1 8 (.requestSpawn 12 (some (20, 21, 22)) [])],
      Event.handled (.hostExecChildOutput 0 7 11 MSG_TYPE_CHILD_STDOUT [5]),
      Event.handled (.hostExecChildOutput 1 8 12 MSG_TYPE_CHILD_EXIT [0, 0, 0, 0]),
      Event.handled (.hostExecChildOutput 0 7 7 MSG_TYPE_CHILD_STDERR [6])]
    (run (step parse) .init es).isSome ∧
      RunAll (step parse) (fun h => ChildCallsOwn h.log ∧ ChildCallsNoOther h.log) .init es := by
  intro parse es
  obtain ⟨h, hr⟩ := Option.isSome_iff_exists.mp (by decide : (run (step parse) .init es).isSome = true)
  let owner (f : Nat) : SessionId × Option ChildId :=
    if f < 10 then (7, none) else if f < 20 then (7, some 11) else (8, some 12)
  exact ⟨by simp [hr], ((child_output_own hr).2 owner (by decide)).mpr (by decide)⟩

/-- Two handlers number their children from 1, and the output of the first one's child goes to the second. -/
theorem same_child_id_other_session :
    let parse : Bytes → Except String Unit := fun _ => .ok ()
    ¬ ∀ h : State Nat Nat, Reach (step parse) .init h → ChildCallsOwn h.log := by
  intro parse hall
  obtain ⟨h, hr, hlast, hregs⟩ : ∃ h : State Nat Nat, Reach (step parse) .init h ∧
      h.log.getLast? = some (.executed (.hostExecChildOutput 0 7 1 MSG_TYPE_CHILD_STDOUT [5]) [.call 20 (.bytes [5])]) ∧
      childHandlers h.log.dropLast = [{ session := 7, child? := some 1, handlers := (10, 11, 12) },
        { session := 8, child? := some 1, handlers := (20, 21, 22) }] :=
    exists_reach
      (List.flatten [
        Event.started 0 7, Event.started 1 8,
        [.callback 0 7 (.requestSpawn 1 (some (10, 11, 12)) []),
          .callback 1 8 (.requestSpawn 1 (some (20, 21, 22)) [])],
        Event.handled (.hostExecChildOutput 0 7 1 MSG_TYPE_CHILD_STDOUT [5])])
      _ (by decide)
  have hsplit := List.dropLast_append_getLast? _ hlast
  obtain ⟨r, hmem, hfor, hf⟩ := hall h hr _ _ [] hsplit.symm 7 1 rfl 20 _ (List.mem_singleton.mpr rfl)
  rw [hregs] at hmem
  rcases List.mem_pair.mp hmem with rfl | rfl
  · revert hf
    decide
  · cases hfor.1

end HostExec
end WasmerJs
