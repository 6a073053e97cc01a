import WasmerJs.HostExec.Output

/-! The exit code of a session. A read takes it out of the map where the settled promise left it, so it is answered
    once. A promise that settles while a read is parked sends the code to that read as well, and leaves it in the
    map: the next read finds it there again. -/

namespace WasmerJs
namespace HostExec

open Transition

variable {W F : Type}

/-- The promise settles for the first time under this session id, and no read is parked then. Once the exit code has
    been answered, no blocking read of the session is handled and no callback brings a message for it. -/
def SettlesUnread (l : Lane W F) : Event W F → Prop
  | .settle .. => l.slot.pending = none ∧ settlements l.log = 0
  | .process m _ => m.isBlockingRead → exits l.log = 0
  | .callback _ _ c => c.message.isSome → exits l.log = 0
  | .setHandler _ | .post _ => True

instance (l : Lane W F) (e : Event W F) : Decidable (SettlesUnread l e) :=
  match e with
  | .settle .. => inferInstanceAs (Decidable (l.slot.pending = none ∧ settlements l.log = 0))
  | .process .. | .callback .. => inferInstanceAs (Decidable (_ → _))
  | .setHandler _ | .post _ => inferInstanceAs (Decidable True)

def SchedulerMessage.isExit : SchedulerMessage W → Bool
  | hostExecReadComplete _ _ msgType _ => msgType = MSG_TYPE_EXIT
  | _ => false

/-- The exit code is in the map, or was answered, or neither, and it was answered last. -/
structure Lane.ExitsOnce (l : Lane W F) : Prop where
  mail : l.mail.countP SchedulerMessage.isExit = 0
  settled : exits l.log + (if l.slot.result.isSome then 1 else 0) ≤ settlements l.log
  once : settlements l.log ≤ 1
  ended : exits l.log ≠ 0 → l.slot.result = none ∧ l.slot.pending = none ∧ l.slot.queue = none

/-- A step that neither answers with the exit code nor settles the promise, and leaves the map of results alone. -/
theorem Lane.ExitsOnce.append {l l' : Lane W F} {e : Entry W F} (hl : l.ExitsOnce) (hlog : l'.log = l.log ++ [e])
    (he : e.effects.countP Effect.isExit = 0) (hs : e.isSettled = false)
    (hmail : l'.mail.countP SchedulerMessage.isExit = 0) (hres : l'.slot.result = l.slot.result)
    (hended : exits l.log ≠ 0 → l'.slot.pending = none ∧ l'.slot.queue = none) : l'.ExitsOnce where
  mail := hmail
  settled := by
    have := hl.settled
    simpa [hlog, he, hs, hres]
  once := by
    have := hl.once
    simpa [hlog, hs]
  ended h := by
    rw [hlog, exits_append, he] at h
    exact ⟨hres.trans (hl.ended h).1, hended h⟩

section Steps

variable [DecidableEq W] {parse : Bytes → Except String Unit} {l l' : Lane W F} {e : Event W F}

theorem LaneStep.exitsOnce (h : LaneStep parse l e l') (hp : l.Parked) (ht : l.Typed) (hl : l.ExitsOnce)
    (ho : SettlesUnread l e) : l'.ExitsOnce := by
  have hmail := hl.mail
  have hsettled := hl.settled
  have honce := hl.once
  have hended : exits l.log ≠ 0 → l.slot.pending = none ∧ l.slot.queue = none := fun h => (hl.ended h).2
  cases h with
  | setHandler => exact ⟨hmail, hsettled, honce, hl.ended⟩
  | @post m hc =>
    have hm : m.isExit = false := by cases m <;> first | rfl | cases hc
    exact hl.append rfl rfl rfl (by simp [hmail, hm]) rfl hended
  | start hm | noData hm | poll hm =>
    simp only [hm, List.countP_cons] at hmail
    exact hl.append rfl (by simp [Entry.effects, Effect.isExit]) rfl (by simp only; omega) rfl hended
  | park hm =>
    simp only [hm, List.countP_cons] at hmail
    exact hl.append rfl rfl rfl (by simp only; omega) rfl fun h => absurd (ho rfl) h
  | @output m s r mail msgType data rest hm _ _ hout =>
    have hne : msgType ≠ MSG_TYPE_EXIT := ht.output (msgType, data) (by simp [hout])
    simp only [hm, List.countP_cons] at hmail
    refine hl.append rfl (by simp [Entry.effects, Effect.isExit, hne]) rfl (by simp only; omega) rfl fun h => ?_
    simp [Slot.output, (hended h).2] at hout
  | @exit m s r mail code hm _ _ _ hres =>
    simp only [hm, List.countP_cons] at hmail
    simp only [hres, Option.isSome_some, ↓reduceIte] at hsettled
    have hpend : l.slot.pending = none := Decidable.not_not.mp fun hne => by simpa [hres] using (hp hne).2
    refine ⟨by simp only; omega, ?_, ?_, fun _ => ⟨rfl, hpend, rfl⟩⟩
    · simpa [Entry.effects, Entry.isSettled, Effect.isExit]
    · simpa [Entry.isSettled]
  | completeExit hm => simp [hm, SchedulerMessage.isExit] at hmail
  | @completeOutput w s msgType data r mail hm =>
    simp only [hm, List.countP_cons, SchedulerMessage.isExit] at hmail
    have hne : msgType ≠ MSG_TYPE_EXIT := by
      rintro rfl
      simp at hmail
    exact hl.append rfl (by simp [Entry.effects, Effect.isExit, hne]) rfl (by simp only; omega) rfl hended
  | @control m r mail v effects hm hc he hr hpv hq =>
    have hexit : effects.countP Effect.isExit = 0 :=
      List.countP_eq_zero.mpr fun x hx => by simp [(calls_not_answers he).2.2 x hx]
    simp only [hm, List.countP_cons] at hmail
    exact hl.append rfl hexit rfl (by simp only; omega) hr fun h => ⟨hpv.trans (hended h).1, hq.trans (hended h).2⟩
  | called hc hv =>
    cases hv with
    | quiet hc hr hpv hq =>
      exact hl.append rfl rfl rfl (by simpa using hmail) hr fun h => ⟨hpv.trans (hended h).1, hq.trans (hended h).2⟩
    | queued hc => exact hl.append rfl rfl rfl (by simpa using hmail) rfl fun h => absurd (ho (by simp [hc])) h
    | handed hc _ _ hr =>
      have hne := Callback.message_ne_exit hc
      exact hl.append rfl rfl rfl (by simp [hmail, SchedulerMessage.isExit, hne]) hr
        fun h => absurd (ho (by simp [hc])) h
  | settle =>
    obtain ⟨-, h0⟩ := ho
    have hexit : exits l.log = 0 := by omega
    refine ⟨hmail, ?_, ?_, ?_⟩ <;> simp [Entry.effects, Entry.isSettled, hexit, h0]
  | settleParked _ hpend =>
    rw [ho.1] at hpend
    cases hpend

end Steps

/-! ### Which code is answered -/

/-- A promise has settled with the exit code `c`. -/
def SettledWith (log : List (Entry W F)) (c : ExitCode) : Prop := ∃ w s r, .settled w s r ∈ log ∧ r.code = c

/-- Exit codes come from settled promises, wherever they are. -/
structure Lane.CodesSettled (l : Lane W F) : Prop where
  result : ∀ c, l.slot.result = some c → SettledWith l.log c
  mail : ∀ w s data, .hostExecReadComplete w s MSG_TYPE_EXIT data ∈ l.mail →
    ∃ c, SettledWith l.log c ∧ data = toLeBytes (n := 4) c
  answers : ∀ w s c data, .readResponse w s MSG_TYPE_EXIT c data ∈ effects l.log → SettledWith l.log c

theorem SettledWith.append {log : List (Entry W F)} {c : ExitCode} {e : Entry W F} (h : SettledWith log c) :
    SettledWith (log ++ [e]) c := by
  obtain ⟨w, s, r, hm, hr⟩ := h
  exact ⟨w, s, r, List.mem_append_left _ hm, hr⟩

theorem Lane.CodesSettled.append {l l' : Lane W F} {e : Entry W F} (hl : l.CodesSettled) (hlog : l'.log = l.log ++ [e])
    (hres : ∀ c, l'.slot.result = some c → l.slot.result = some c ∨ SettledWith l'.log c)
    (hmail : ∀ w s data, .hostExecReadComplete w s MSG_TYPE_EXIT data ∈ l'.mail →
      .hostExecReadComplete w s MSG_TYPE_EXIT data ∈ l.mail ∨ ∃ c, SettledWith l'.log c ∧ data = toLeBytes (n := 4) c)
    (hans : ∀ w s c data, .readResponse w s MSG_TYPE_EXIT c data ∈ e.effects → SettledWith l.log c) :
    l'.CodesSettled where
  result c hc := by
    rcases hres c hc with hc | hc
    · exact hlog ▸ (hl.result c hc).append
    · exact hc
  mail w s data hm := by
    rcases hmail w s data hm with hm | hm
    · obtain ⟨c, hc, hd⟩ := hl.mail w s data hm
      exact ⟨c, hlog ▸ hc.append, hd⟩
    · exact hm
  answers w s c data hx := by
    rw [hlog, effects_append] at hx
    rw [hlog]
    rcases List.mem_append.mp hx with hx | hx
    · exact (hl.answers w s c data hx).append
    · exact (hans w s c data hx).append

theorem LaneStep.codesSettled [DecidableEq W] {parse : Bytes → Except String Unit} {l l' : Lane W F} {e : Event W F}
    (h : LaneStep parse l e l') (ht : l.Typed) (hl : l.CodesSettled) : l'.CodesSettled := by
  cases h with
  | setHandler => exact ⟨hl.result, hl.mail, hl.answers⟩
  | @post m hc =>
    refine hl.append rfl (fun _ => .inl) (fun w s data hd => ?_) (by simp [Entry.effects])
    rcases List.mem_append.mp hd with hd | hd
    · exact .inl hd
    · obtain rfl := List.mem_singleton.mp hd
      cases hc
  | start hm | park hm | noData hm | poll hm =>
    exact hl.append rfl (fun _ => .inl) (fun w s data hd => .inl (hm ▸ List.mem_cons_of_mem _ hd))
      (by simp [Entry.effects])
  | @output m s r mail msgType data rest hm _ _ hout =>
    have hne : msgType ≠ MSG_TYPE_EXIT := ht.output (msgType, data) (by simp [hout])
    refine hl.append rfl (fun _ => .inl) (fun w s data hd => .inl (hm ▸ List.mem_cons_of_mem _ hd)) ?_
    simp [Entry.effects, Ne.symm hne]
  | exit hm _ _ _ hres =>
    refine hl.append rfl (fun c hc => absurd hc (by simp)) (fun w s data hd => .inl (hm ▸ List.mem_cons_of_mem _ hd)) ?_
    intro w s c data hx
    cases List.mem_singleton.mp hx
    exact hl.result _ hres
  | @completeExit w s data r mail hm hd =>
    refine hl.append rfl (fun _ => .inl) (fun w s data hd => .inl (hm ▸ List.mem_cons_of_mem _ hd)) ?_
    intro w' s' c data' hx
    cases List.mem_singleton.mp hx
    obtain ⟨c, hc, rfl⟩ := hl.mail w s data (by simp [hm])
    rwa [fromLeBytes_toLeBytes]
  | @completeOutput w s msgType data r mail hm hd =>
    have hne : msgType ≠ MSG_TYPE_EXIT := by
      rintro rfl
      exact hd ⟨rfl, (ht.mail w s data (by simp [hm])).ge⟩
    refine hl.append rfl (fun _ => .inl) (fun w s data hd => .inl (hm ▸ List.mem_cons_of_mem _ hd)) ?_
    simp [Entry.effects, Ne.symm hne]
  | control hm _ he hr =>
    refine hl.append rfl (fun c hc => .inl (hr ▸ hc)) (fun w s data hd => .inl (hm ▸ List.mem_cons_of_mem _ hd)) ?_
    intro w s c data hx
    obtain ⟨f, arg, heq⟩ := he _ hx
    cases heq
  | called hc hv =>
    cases hv with
    | quiet _ hr =>
      exact hl.append rfl (fun c hc => .inl (hr ▸ hc)) (fun w s data hd => .inl (by simpa using hd))
        (by simp [Entry.effects])
    | queued =>
      exact hl.append rfl (fun _ => .inl) (fun w s data hd => .inl (by simpa using hd)) (by simp [Entry.effects])
    | handed hm _ _ hr =>
      have hne := Callback.message_ne_exit hm
      exact hl.append rfl (fun c hc => .inl (hr ▸ hc)) (fun w s data hd => .inl (by simpa [Ne.symm hne] using hd))
        (by simp [Entry.effects])
  | @settle w s r =>
    have hs : SettledWith (l.log ++ [.settled w s r]) r.code := ⟨w, s, r, by simp, rfl⟩
    exact hl.append rfl (fun c hc => .inr (Option.some.inj hc ▸ hs)) (fun _ _ _ => .inl) (by simp [Entry.effects])
  | @settleParked w s r =>
    have hs : SettledWith (l.log ++ [.settled w s r]) r.code := ⟨w, s, r, by simp, rfl⟩
    refine hl.append rfl (fun c hc => .inr (Option.some.inj hc ▸ hs)) (fun w s data hd => ?_) (by simp [Entry.effects])
    rcases List.mem_append.mp hd with hd | hd
    · exact .inl hd
    · cases List.mem_singleton.mp hd
      exact .inr ⟨r.code, hs, rfl⟩

/-- In every run, the exit code that a read is answered with is one that a promise of its session has settled with. -/
theorem exit_code_settled [DecidableEq W] {parse : Bytes → Except String Unit} {s : SessionId} {h : State W F}
    (hr : Reach (step parse) State.init h) {w : W} {s' : SessionId} {c : ExitCode} {data : Option Bytes}
    (hx : .readResponse w s' MSG_TYPE_EXIT c data ∈ effects (h.lane s).log) : SettledWith (h.lane s).log c := by
  have h0 : (Lane.init : Lane W F).CodesSettled :=
    { result := fun _ hc => nomatch hc
      mail := fun _ _ _ hm => absurd hm List.not_mem_nil
      answers := fun _ _ _ _ hx => absurd hx List.not_mem_nil }
  have hr : ReachVia (step parse) (OnLane s fun _ _ => True) State.init h := hr.mono fun _ _ _ _ => trivial
  obtain ⟨-, hl⟩ := lane_invariant (I := Lane.CodesSettled) h0 (fun _ ht hi _ hs => hs.codesSettled ht hi) hr
  exact hl.answers w s' c data hx

/-! ### Runs -/

/-- When its promise settles while no read is parked, the exit code of a session is answered at most once, and then
    no map holds anything for the session any more; a poll finds nothing. -/
theorem exit_once [DecidableEq W] {parse : Bytes → Except String Unit} {s : SessionId} {h : State W F}
    (hr : ReachVia (step parse) (OnLane s SettlesUnread) State.init h) :
    exits (h.lane s).log + (h.lane s).mail.countP SchedulerMessage.isExit ≤ 1 ∧
      (exits (h.lane s).log ≠ 0 →
        (h.slots s).result = none ∧ (h.slots s).pending = none ∧ (h.slots s).queue = none ∧
          ∀ w, ((h.slots s).execute (.hostExecPoll w s)).2 = [.pollResponse w s false]) := by
  have h0 : (Lane.init : Lane W F).ExitsOnce := ⟨rfl, Nat.zero_le _, Nat.zero_le _, fun h => absurd rfl h⟩
  obtain ⟨-, hl⟩ := lane_invariant (I := Lane.ExitsOnce) h0 (fun hp ht hi ho hs => hs.exitsOnce hp ht hi ho) hr
  refine ⟨?_, fun he => ?_⟩
  · have hm := hl.mail
    have hs := hl.settled
    have h1 := hl.once
    omega
  · obtain ⟨hres, hpend, hq⟩ : (h.slots s).result = none ∧ (h.slots s).pending = none ∧ (h.slots s).queue = none :=
      hl.ended he
    exact ⟨hres, hpend, hq, fun w => by simp [Slot.execute, Slot.output, hres, hq]⟩

/-- A session that is read after its promise has settled. -/
theorem exit_once_read_late :
    let parse : Bytes → Except String Unit := fun _ => .ok ()
    ∃ h : State Nat Nat, ReachVia (step parse) (OnLane 7 SettlesUnread) State.init h ∧
      outputs (h.lane 7).log = [(MSG_TYPE_STDOUT, [1])] ∧ exits (h.lane 7).log = 1 ∧ (h.slots 7).queue = none := by
  intro parse
  obtain ⟨h, hr, hout, he⟩ : ∃ h, ReachVia (step parse) (OnLane 7 SettlesUnread) (State.init : State Nat Nat) h ∧
      outputs (h.lane 7).log = [(MSG_TYPE_STDOUT, [1])] ∧ exits (h.lane 7).log = 1 :=
    exists_reachVia
      (List.flatten [
        Event.started 0 7,
        [.callback 0 7 (.onStdout [1]), .settle 0 7 (.resolved 5)],
        Event.handled (.hostExecRead 0 7),
        Event.handled (.hostExecRead 0 7)])
      _ (by decide) (by decide)
  obtain ⟨-, hend⟩ := exit_once hr
  exact ⟨h, hr, hout, he, (hend (by omega)).2.2.1⟩

/-- The promise settles while a read is parked. The read gets the exit code, and so does the next one; in between
    a poll says that the session is ready. -/
theorem parked_exit_twice :
    let parse : Bytes → Except String Unit := fun _ => .ok ()
    ∃ h : State Nat Nat, ReachVia (step parse) (OnLane 7 OneReadAtATime) State.init h ∧
      settlements (h.lane 7).log = 1 ∧ .pollResponse 0 7 true ∈ effects (h.lane 7).log ∧ exits (h.lane 7).log = 2 := by
  intro parse
  exact exists_reachVia
    (List.flatten [
      Event.started 0 7,
      Event.handled (.hostExecRead 0 7),
      [.settle 0 7 (.resolved 5), .process (.hostExecReadComplete 0 7 MSG_TYPE_EXIT [5, 0, 0, 0]) .promise],
      Event.handled (.hostExecPoll 0 7),
      Event.handled (.hostExecRead 0 7)])
    _ (by decide) (by decide)

end HostExec
end WasmerJs
