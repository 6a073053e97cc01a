import WasmerJs.Lib.Transition
import WasmerJs.Pool.Scheduler

/-! How the scheduler shuts down. Its loop takes the messages of its channel one after the other. When it takes up a
    `Close`, it handles what is left in the channel and stops; the handles that it holds are dropped, and a handle
    that is dropped terminates its worker with all that the worker has not started (`src/tasks/scheduler.rs`,
    `src/tasks/worker_handle.rs`). -/

namespace WasmerJs
namespace Pool

open Transition

variable {H T : Type}

inductive ChannelMessage (H T : Type) where
  | close
  | message (msg : SchedulerMessage H T)

def ChannelMessage.isTask : ChannelMessage H T → Bool
  | close => false
  | message msg => msg.payload?.isSome

def PostMessagePayload.isTask : PostMessagePayload H T → Bool
  | .async _ | .blocking _ => true
  | .cacheModule _ => false

/-- A worker as its handle's owner sees it: the tasks that were posted to it and that it has not started. -/
structure Inbox (H T : Type) where
  live : Bool
  tasks : List (PostMessagePayload H T)

def Inbox.receive (v : Inbox H T) (msg : PostMessagePayload H T) : Inbox H T :=
  if msg.isTask then { v with tasks := v.tasks ++ [msg] } else v

def Inbox.start (v : Inbox H T) (k : Nat) : Option (Inbox H T) :=
  if v.live ∧ k < v.tasks.length then some { v with tasks := v.tasks.eraseIdx k } else none

theorem Inbox.start_inv {v v' : Inbox H T} {k : Nat} (h : v.start k = some v') :
    (v.live ∧ k < v.tasks.length) ∧ v' = { v with tasks := v.tasks.eraseIdx k } := by
  simp only [start] at h
  split at h
  · exact ⟨‹_›, (Option.some.inj h).symm⟩
  · cases h

/-- An effect of a handler reaches the worker that it is about. -/
def Inbox.apply (ws : WorkerId → Inbox H T) : Effect H T → WorkerId → Inbox H T
  | .spawned w => Function.update ws w { ws w with live := true }
  | .posted w msg => Function.update ws w ((ws w).receive msg)
  | .terminated w => Function.update ws w { ws w with live := false }

inductive LoopPhase where
  | receiving
  | draining
  | stopped
  deriving DecidableEq

structure Loop (H T : Type) where
  phase : LoopPhase
  channel : List (ChannelMessage H T)
  sched : SchedulerState H
  workers : WorkerId → Inbox H T

def Loop.init : Loop H T :=
  { phase := .receiving, channel := [], sched := .new, workers := fun _ => { live := false, tasks := [] } }

/-- A message is sent, the loop takes its next step, or a worker starts task `k` of those in its inbox. Workers run
    beside the main thread, also while it drains the channel. -/
inductive LoopEvent (H T : Type) where
  | send (m : ChannelMessage H T)
  | receive (b : Browser H T)
  | start (w : WorkerId) (k : Nat)

namespace Loop

variable (s : Loop H T)

def held : List WorkerId := s.sched.idle ++ s.sched.busy

/-- `drop(scheduler)` -/
def drop : Loop H T :=
  { s with
    phase := .stopped
    sched := { s.sched with idle := [], busy := [] }
    workers := s.held.foldl (fun ws w => Function.update ws w { ws w with live := false }) s.workers }

variable [LinearOrder H]

def execute (b : Browser H T) (msg : SchedulerMessage H T) : Loop H T :=
  let (sched, effects) := s.sched.execute b msg
  { s with sched, workers := effects.foldl Inbox.apply s.workers }

def step (s : Loop H T) : LoopEvent H T → Option (Loop H T)
  | .send m => if s.phase = .stopped then none else some { s with channel := s.channel ++ [m] }
  | .receive b =>
    match s.phase, s.channel with
    | .stopped, _ | .receiving, [] => none
    | .receiving, .close :: channel => some { s with phase := .draining, channel }
    | .draining, .close :: channel => some { s with channel }
    | .receiving, .message msg :: channel | .draining, .message msg :: channel =>
      some ({ s with channel }.execute b msg)
    | .draining, [] => some s.drop
  | .start w k =>
    ((s.workers w).start k).map fun v => { s with workers := Function.update s.workers w v }

end Loop

/-! ### What is held -/

/-- The workers that the scheduler has a handle of are those that run, and one that does not run has started all that
    was posted to it. -/
structure Held (ids : List WorkerId) (nextId : WorkerId) (ws : WorkerId → Inbox H T) : Prop where
  nodup : ids.Nodup
  live : ∀ w, (ws w).live ↔ w ∈ ids
  fresh : ∀ w ∈ ids, w < nextId
  started : ∀ w ∉ ids, (ws w).tasks = []

namespace Held

variable {ids ids' : List WorkerId} {n w : WorkerId} {ws : WorkerId → Inbox H T} {msg : PostMessagePayload H T}

theorem perm (h : Held ids n ws) (hp : ids'.Perm ids) : Held ids' n ws where
  nodup := hp.nodup_iff.mpr h.nodup
  live u := (h.live u).trans hp.mem_iff.symm
  fresh u hu := h.fresh u (hp.mem_iff.mp hu)
  started u hu := h.started u fun hi => hu (hp.mem_iff.mpr hi)

theorem draw (h : Held ids n ws) : Held ids (n + 1) ws :=
  { h with fresh := fun u hu => Nat.lt_succ_of_lt (h.fresh u hu) }

theorem spawn (h : Held ids n ws) : Held (n :: ids) (n + 1) (Function.update ws n { ws n with live := true }) := by
  have hn : n ∉ ids := fun hn => Nat.lt_irrefl n (h.fresh n hn)
  refine ⟨List.nodup_cons.mpr ⟨hn, h.nodup⟩, fun u => ?_, fun u hu => ?_, fun u hu => ?_⟩
  · by_cases hu : u = n
    · simp [hu]
    · simpa [Function.update_of_ne hu, hu] using h.live u
  · rcases List.mem_cons.mp hu with rfl | hu
    · exact Nat.lt_succ_self _
    · exact Nat.lt_succ_of_lt (h.fresh u hu)
  · obtain ⟨hne, hu⟩ := not_or.mp (mt List.mem_cons.mpr hu)
    rw [Function.update_of_ne hne]
    exact h.started u hu

/-- What happens to the inbox of a worker that runs is no concern of the others. -/
theorem change (h : Held ids n ws) (hw : w ∈ ids) {v : Inbox H T} (hv : v.live = (ws w).live) :
    Held ids n (Function.update ws w v) := by
  refine ⟨h.nodup, fun u => ?_, h.fresh, fun u hu => ?_⟩
  · by_cases huw : u = w
    · subst huw
      rw [Function.update_self, hv]
      exact h.live u
    · rw [Function.update_of_ne huw]
      exact h.live u
  · have huw : u ≠ w := fun huw => hu (huw ▸ hw)
    rw [Function.update_of_ne huw]
    exact h.started u hu

theorem receive (h : Held ids n ws) (hw : w ∈ ids) : Held ids n (Function.update ws w ((ws w).receive msg)) := by
  refine h.change hw ?_
  unfold Inbox.receive
  split <;> rfl

theorem terminate (h : Held (w :: ids) n ws) (hs : (ws w).tasks = []) :
    Held ids n (Function.update ws w { ws w with live := false }) := by
  obtain ⟨hw, hnodup⟩ := List.nodup_cons.mp h.nodup
  refine ⟨hnodup, fun u => ?_, fun u hu => h.fresh u (List.mem_cons_of_mem _ hu), fun u hu => ?_⟩
  · by_cases huw : u = w
    · simp [huw, hw]
    · simpa [Function.update_of_ne huw, huw] using h.live u
  · by_cases huw : u = w
    · subst huw
      simpa using hs
    · rw [Function.update_of_ne huw]
      exact h.started u fun hmem => (List.mem_cons.mp hmem).elim huw hu

end Held

/-- Notifications leave the inboxes alone. -/
theorem Inbox.apply_cacheModule (ws : WorkerId → Inbox H T) (w : WorkerId) (hash : H) :
    Inbox.apply ws (.posted w (.cacheModule hash)) = ws :=
  Function.update_eq_self w ws

namespace Held

theorem post {s s' : SchedulerState H} {ws : WorkerId → Inbox H T} {msg : PostMessagePayload H T}
    {effects : List (Effect H T)} (h : Held (s.idle ++ s.busy) s.nextId ws) (hp : Post s msg (s', effects))
    (hf : ∀ w, .terminated w ∈ effects → w ∈ s.idle → (ws w).tasks = []) :
    Held (s'.idle ++ s'.busy) s'.nextId (effects.foldl Inbox.apply ws) := by
  cases hp with
  | @idleBlocking w idle hi =>
    rw [hi] at h
    have hperm : (idle ++ (s.busy ++ [w])).Perm (w :: (idle ++ s.busy)) := by
      rw [← List.append_assoc]
      exact List.perm_append_singleton w (idle ++ s.busy)
    exact (h.receive (List.mem_cons_self ..)).perm hperm
  | @idleAsync w idle hi =>
    rw [hi] at h
    exact (h.receive (List.mem_cons_self ..)).perm ((List.perm_append_singleton w idle).append_right s.busy)
  | @idleFailed w idle hi =>
    rw [hi] at h
    exact h.terminate (hf w (by simp) (by simp [hi]))
  | notSpawned => exact h.draw
  | newFailed hi hp =>
    rw [foldl_spawned Inbox.apply_cacheModule hp]
    refine h.spawn.terminate ?_
    have hn : s.nextId ∉ s.idle ++ s.busy := fun hn => Nat.lt_irrefl _ (h.fresh _ hn)
    simpa using h.started _ hn
  | newBlocking hi hp =>
    rw [foldl_spawned Inbox.apply_cacheModule hp]
    have hperm : (s.idle ++ (s.busy ++ [s.nextId])).Perm (s.nextId :: (s.idle ++ s.busy)) := by
      rw [← List.append_assoc]
      exact List.perm_append_singleton _ (s.idle ++ s.busy)
    exact (h.spawn.receive (List.mem_cons_self ..)).perm hperm
  | newAsync hi hp =>
    rw [foldl_spawned Inbox.apply_cacheModule hp]
    rw [hi] at h
    exact h.spawn.receive (List.mem_cons_self ..)

end Held

/-- A handle is given up only when the message for an idle worker cannot be posted. -/
theorem SchedulerState.not_posted {b : Browser H T} {s : SchedulerState H} {msg : PostMessagePayload H T}
    {w : WorkerId} (ht : .terminated w ∈ (s.postMessage b msg).2) (hw : w ∈ s.idle) :
    s.idle.head? = some w ∧ b.post w msg = false := by
  cases hi : s.idle with
  | nil =>
    rw [hi] at hw
    cases hw
  | cons v idle =>
    rw [postMessage_idle hi] at ht
    split at ht
    · simp at ht
    · obtain rfl : w = v := by simpa using ht
      exact ⟨rfl, Bool.eq_false_iff.mpr ‹_›⟩

theorem moveWorker_perm (w : WorkerId) (src dst : List WorkerId) :
    ((moveWorker w src dst).1 ++ (moveWorker w src dst).2).Perm (src ++ dst) := by
  unfold moveWorker
  split
  · rename_i hw
    calc (src.erase w ++ (dst ++ [w])).Perm (w :: (src.erase w ++ dst)) := by
          rw [← List.append_assoc]
          exact List.perm_append_singleton ..
      _ |>.Perm (src ++ dst) := (List.perm_cons_erase hw).symm.append_right dst
  · exact .refl _

/-! ### A close that loses nothing -/

namespace Loop

/-- When a `Close` is taken up, no task is left in the channel or in an inbox. A worker that a message cannot be
    posted to has started all that was posted to it before. -/
def RestsAt (s : Loop H T) (b : Browser H T) : List (ChannelMessage H T) → Prop
  | .close :: channel =>
    s.phase = .receiving → (∀ m ∈ channel, m.isTask = false) ∧ ∀ w ∈ s.held, (s.workers w).tasks = []
  | .message msg :: _ => ∀ p ∈ msg.payload?, ∀ w ∈ s.sched.idle.head?, b.post w p = false → (s.workers w).tasks = []
  | [] => True

/-- The loop rests at the message that it takes up, and no task is sent while it drains the channel. -/
def ClosesAtRest (s : Loop H T) : LoopEvent H T → Prop
  | .send m => s.phase = .draining → m.isTask = false
  | .receive b => s.RestsAt b s.channel
  | .start .. => True

instance (s : Loop H T) (b : Browser H T) (channel : List (ChannelMessage H T)) : Decidable (s.RestsAt b channel) :=
  match channel with
  | .close :: _ => inferInstanceAs (Decidable (_ → _ ∧ _))
  | .message msg :: _ => inferInstanceAs (Decidable (∀ p ∈ msg.payload?, _))
  | [] => inferInstanceAs (Decidable True)

instance (s : Loop H T) (e : LoopEvent H T) : Decidable (s.ClosesAtRest e) :=
  match e with
  | .send _ => inferInstanceAs (Decidable (_ → _))
  | .receive b => inferInstanceAs (Decidable (s.RestsAt b s.channel))
  | .start .. => inferInstanceAs (Decidable True)

/-- No handle was dropped while its worker had not started all that was posted to it. -/
def NoneLost (s : Loop H T) : Prop := ∀ w, (s.workers w).live = false → (s.workers w).tasks = []

structure Inv (s : Loop H T) : Prop where
  held : Held s.held s.sched.nextId s.workers
  drained : s.phase = .draining → (∀ m ∈ s.channel, m.isTask = false) ∧ ∀ w, (s.workers w).tasks = []

theorem terminated_apply {ids : List WorkerId} {ws : WorkerId → Inbox H T} {w : WorkerId} :
    ids.foldl (fun ws w => Function.update ws w { ws w with live := false }) ws w =
      if w ∈ ids then { ws w with live := false } else ws w := by
  induction ids generalizing ws with
  | nil => rfl
  | cons u ids ih =>
    rw [List.foldl_cons, ih]
    by_cases hw : w = u
    · subst hw
      simp
    · simp [hw]

theorem step_receive_inv [LinearOrder H] {s t : Loop H T} {b : Browser H T} (hs : s.step (.receive b) = some t) :
    (∃ channel, s.phase = .receiving ∧ s.channel = .close :: channel ∧ t = { s with phase := .draining, channel }) ∨
      (∃ channel, s.phase = .draining ∧ s.channel = .close :: channel ∧ t = { s with channel }) ∨
      (∃ msg channel, s.phase ≠ .stopped ∧ s.channel = .message msg :: channel ∧
        t = { s with channel }.execute b msg) ∨
      s.phase = .draining ∧ s.channel = [] ∧ t = s.drop := by
  simp only [step] at hs
  split at hs <;> cases hs
  · rename_i channel hp hc
    exact .inl ⟨channel, hp, hc, rfl⟩
  · rename_i channel hp hc
    exact .inr (.inl ⟨channel, hp, hc, rfl⟩)
  · rename_i msg channel hp hc
    exact .inr (.inr (.inl ⟨msg, channel, by simp [hp], hc, rfl⟩))
  · rename_i msg channel hp hc
    exact .inr (.inr (.inl ⟨msg, channel, by simp [hp], hc, rfl⟩))
  · exact .inr (.inr (.inr ⟨‹_›, ‹_›, rfl⟩))

section Execute

variable [LinearOrder H] {s : Loop H T} {b : Browser H T} {msg : SchedulerMessage H T}

/-- Messages that are no tasks reach no inbox. -/
theorem execute_other (h : Held s.held s.sched.nextId s.workers) (hm : msg.payload? = none) :
    (s.execute b msg).workers = s.workers ∧ Held (s.execute b msg).held (s.execute b msg).sched.nextId s.workers := by
  cases msg with
  | cacheModule hash => exact ⟨foldl_notified Inbox.apply_cacheModule (SchedulerState.sendAll_notifies _ _ _) _, h⟩
  | workerBusy w => exact ⟨rfl, h.perm (moveWorker_perm w ..)⟩
  | workerIdle w =>
    exact ⟨rfl, h.perm (List.perm_append_comm.trans ((moveWorker_perm w ..).trans List.perm_append_comm))⟩
  | _ => cases hm

theorem execute_task (h : Held s.held s.sched.nextId s.workers) {p : PostMessagePayload H T}
    (hm : msg.payload? = some p) (hf : ∀ w ∈ s.sched.idle.head?, b.post w p = false → (s.workers w).tasks = []) :
    Held (s.execute b msg).held (s.execute b msg).sched.nextId (s.execute b msg).workers := by
  simp only [Loop.held, Loop.execute, SchedulerState.execute_task hm]
  refine h.post (SchedulerState.postMessage_inv b s.sched p) fun w ht hw => ?_
  obtain ⟨hhead, hpost⟩ := SchedulerState.not_posted ht hw
  exact hf w hhead hpost

/-- A browser that does what it is asked to leaves every task in an inbox. -/
theorem execute_willing {p : PostMessagePayload H T} (hm : msg.payload? = some p) :
    ∃ w, ((s.execute .willing msg).workers w).tasks ≠ [] := by
  have htask : p.isTask := by cases msg <;> cases hm <;> rfl
  have hreceive : ∀ v : Inbox H T, (v.receive p).tasks ≠ [] := fun v => by simp [Inbox.receive, htask]
  simp only [Loop.execute, SchedulerState.execute_task hm, SchedulerState.postMessage,
    SchedulerState.nextAvailableWorker]
  cases hi : s.sched.idle with
  | cons w idle =>
    refine ⟨w, ?_⟩
    cases p.wouldBlock <;> simp [Browser.willing, Inbox.apply, hreceive]
  | nil =>
    refine ⟨s.sched.nextId, ?_⟩
    have hp := SchedulerState.prime_effects .willing s.sched.nextId s.sched.cachedModules (T := T)
    have hok : (SchedulerState.prime .willing s.sched.nextId s.sched.cachedModules (T := T)).2 = true := by
      induction s.sched.cachedModules with
      | nil => rfl
      | cons hash rest ih => simpa [SchedulerState.prime, Browser.willing] using ih
    rcases hprime : SchedulerState.prime .willing s.sched.nextId s.sched.cachedModules (T := T) with ⟨primed, ok⟩
    rw [hprime] at hp hok
    cases hok
    have hspawn : (Browser.willing : Browser H T).spawn = true := rfl
    have hpost : ∀ u m, (Browser.willing : Browser H T).post u m = true := fun _ _ => rfl
    cases p.wouldBlock <;>
      simp only [SchedulerState.startWorker, hspawn, hprime, hpost, ↓reduceIte, foldl_spawned Inbox.apply_cacheModule hp] <;>
      simp [Inbox.apply, hreceive]

end Execute

namespace Inv

variable {s t : Loop H T} {e : LoopEvent H T} {b : Browser H T} {msg : SchedulerMessage H T}

theorem init : (Loop.init : Loop H T).Inv where
  held := ⟨List.nodup_nil, fun w => by simp [Loop.init, Loop.held, SchedulerState.new], fun _ hw => (nomatch hw),
    fun _ _ => rfl⟩
  drained := fun hp => (nomatch hp)

theorem noneLost (h : s.Inv) : s.NoneLost := by
  intro w hw
  refine h.held.started w fun hh => ?_
  rw [(h.held.live w).mpr hh] at hw
  cases hw

theorem drop (h : s.Inv) (ht : ∀ w, (s.workers w).tasks = []) : s.drop.Inv where
  held := by
    refine ⟨List.nodup_nil, fun w => ?_, fun w hw => (nomatch hw), fun w _ => ?_⟩
    · simp only [Loop.drop, Loop.held, List.append_nil, List.not_mem_nil, iff_false, terminated_apply]
      split
      · simp
      · exact mt (h.held.live w).mp ‹_›
    · simp only [Loop.drop, terminated_apply]
      split <;> exact ht w
  drained hp := nomatch hp

variable [LinearOrder H]

theorem step (h : s.Inv) (ho : s.ClosesAtRest e) (hs : s.step e = some t) : t.Inv := by
  cases e with
  | send m =>
    simp only [Loop.step] at hs
    split at hs
    · cases hs
    · cases hs
      refine ⟨h.held, fun hp => ⟨fun m' hm' => ?_, (h.drained hp).2⟩⟩
      rcases List.mem_append.mp hm' with hm' | hm'
      · exact (h.drained hp).1 m' hm'
      · obtain rfl := List.mem_singleton.mp hm'
        exact ho hp
  | start w k =>
    obtain ⟨v, hv, rfl⟩ := Option.map_eq_some_iff.mp hs
    obtain ⟨⟨hlive, hk⟩, rfl⟩ := Inbox.start_inv hv
    refine ⟨h.held.change ((h.held.live w).mp hlive) rfl, fun hp => ?_⟩
    rw [(h.drained hp).2 w] at hk
    cases hk
  | receive b =>
    rcases step_receive_inv hs with ⟨channel, hp, hc, rfl⟩ | ⟨channel, hp, hc, rfl⟩ | ⟨msg, channel, hp, hc, rfl⟩ |
      ⟨hp, hc, rfl⟩
    · simp only [ClosesAtRest, hc, RestsAt] at ho
      obtain ⟨hch, hrest⟩ := ho hp
      refine ⟨h.held, fun _ => ⟨hch, fun w => ?_⟩⟩
      by_cases hw : w ∈ s.held
      · exact hrest w hw
      · exact h.held.started w hw
    · obtain ⟨hch, hrest⟩ := h.drained hp
      exact ⟨h.held, fun _ => ⟨fun m hm => hch m (hc ▸ List.mem_cons_of_mem _ hm), hrest⟩⟩
    · have h' : { s with channel }.Inv :=
        ⟨h.held, fun hp => ⟨fun m hm => (h.drained hp).1 m (hc ▸ List.mem_cons_of_mem _ hm), (h.drained hp).2⟩⟩
      simp only [ClosesAtRest, hc, RestsAt] at ho
      cases hm : msg.payload? with
      | none =>
        obtain ⟨hws, hheld⟩ := execute_other (b := b) h'.held hm
        refine ⟨by rwa [hws], fun hp => ?_⟩
        rw [hws]
        exact h'.drained hp
      | some p =>
        refine ⟨execute_task h'.held hm (ho p hm), fun hp => ?_⟩
        have hidle := (h.drained hp).1 _ (hc ▸ List.mem_cons_self ..)
        simp [ChannelMessage.isTask, hm] at hidle
    · exact h.drop (h.drained hp).2

end Inv

/-! ### A close that is not at rest -/

/-- The loop is draining, and a task is still in the channel or in the inbox of a worker. -/
structure Doomed (s : Loop H T) : Prop where
  phase : s.phase = .draining
  held : Held s.held s.sched.nextId s.workers
  task : (∃ m ∈ s.channel, m.isTask) ∨ ∃ w ∈ s.held, (s.workers w).tasks ≠ []

variable [LinearOrder H] {s : Loop H T}

theorem Doomed.next {m : ChannelMessage H T} {channel : List (ChannelMessage H T)} (h : s.Doomed)
    (hc : s.channel = m :: channel) :
    ∃ t, s.step (.receive .willing) = some t ∧ t.channel = channel ∧ t.Doomed := by
  cases m with
  | close =>
    refine ⟨{ s with channel }, by simp [Loop.step, h.phase, hc], rfl, h.phase, h.held, ?_⟩
    rcases h.task with ⟨m, hm, ht⟩ | hw
    · rcases List.mem_cons.mp (hc ▸ hm) with rfl | hm
      · cases ht
      · exact .inl ⟨m, hm, ht⟩
    · exact .inr hw
  | message msg =>
    refine ⟨{ s with channel }.execute .willing msg, by simp [Loop.step, h.phase, hc], rfl, ?_⟩
    cases hm : msg.payload? with
    | none =>
      obtain ⟨hws, hheld⟩ := execute_other (s := { s with channel }) (b := .willing) h.held hm
      refine ⟨h.phase, by rwa [hws], ?_⟩
      rcases h.task with ⟨m, hmem, ht⟩ | ⟨w, hw, ht⟩
      · rcases List.mem_cons.mp (hc ▸ hmem) with rfl | hmem
        · simp [ChannelMessage.isTask, hm] at ht
        · exact .inl ⟨m, hmem, ht⟩
      · refine .inr ⟨w, (hheld.live w).mp ((h.held.live w).mpr hw), ?_⟩
        rwa [hws]
    | some p =>
      have hheld := execute_task (s := { s with channel }) (b := .willing) h.held hm fun _ _ hp => nomatch hp
      obtain ⟨w, ht⟩ := execute_willing (s := { s with channel }) hm
      refine ⟨h.phase, hheld, .inr ⟨w, ?_, ht⟩⟩
      by_contra hw
      exact ht (hheld.started w hw)

theorem Doomed.lost (h : s.Doomed) : ∃ t, Reach Loop.step s t ∧ ¬ t.NoneLost := by
  induction hc : s.channel generalizing s with
  | nil =>
    rcases h.task with ⟨m, hm, -⟩ | ⟨w, hw, ht⟩
    · rw [hc] at hm
      cases hm
    · have hs : s.step (.receive .willing) = some s.drop := by simp [Loop.step, h.phase, hc]
      refine ⟨s.drop, .step _ .refl trivial hs, fun hn => ht ?_⟩
      have hlost := hn w
      simp only [Loop.drop, terminated_apply, if_pos hw] at hlost
      exact hlost trivial
  | cons m channel ih =>
    obtain ⟨t, hs, ht, hd⟩ := h.next hc
    obtain ⟨u, hr, hu⟩ := ih hd ht
    exact ⟨u, (ReachVia.step _ .refl trivial hs).trans hr, hu⟩

/-- When a `Close` is taken up while a task is left in the channel or in an inbox, the task is lost if its worker
    does not start it before the loop stops. -/
theorem lost_at_close {channel : List (ChannelMessage H T)} {b : Browser H T}
    (hr : ReachVia Loop.step ClosesAtRest Loop.init s)
    (hc : s.channel = .close :: channel) (hn : ¬ s.ClosesAtRest (.receive b)) :
    ∃ t, Reach Loop.step s t ∧ ¬ t.NoneLost := by
  have h : s.Inv := hr.invariant (I := Inv) .init fun h ho hs => h.step ho hs
  simp only [ClosesAtRest, hc, RestsAt, Classical.not_imp, not_and_or, not_forall] at hn
  obtain ⟨hp, htask⟩ := hn
  have hs : s.step (.receive b) = some { s with phase := .draining, channel } := by simp [Loop.step, hp, hc]
  have hd : Doomed { s with phase := .draining, channel } := by
    refine ⟨rfl, h.held, htask.imp ?_ ?_⟩
    · rintro ⟨m, hm, ht⟩
      exact ⟨m, hm, by simpa using ht⟩
    · rintro ⟨w, hw, ht⟩
      exact ⟨w, hw, ht⟩
  obtain ⟨t, ht, hlost⟩ := hd.lost
  exact ⟨t, (ReachVia.step _ .refl trivial hs).trans ht, hlost⟩

/-! ### Runs -/

/-- In every run in which the loop closes at rest, no handle is dropped while a task posted to its worker is not
    started. -/
theorem none_lost (hr : ReachVia Loop.step ClosesAtRest Loop.init s) : s.NoneLost :=
  (hr.invariant (I := Inv) .init fun h ho hs => h.step ho hs).noneLost

/-- A worker starts its task before the loop closes. -/
theorem none_lost_started :
    ∃ s : Loop Nat Unit, ReachVia Loop.step ClosesAtRest Loop.init s ∧ s.phase = .stopped ∧ s.NoneLost := by
  obtain ⟨s, hr, hp⟩ : ∃ s : Loop Nat Unit, ReachVia Loop.step ClosesAtRest Loop.init s ∧ s.phase = .stopped :=
    exists_reachVia
      [.send (.message (.spawnBlocking ())), .receive .willing, .start 1 0, .send .close, .receive .willing,
        .receive .willing] _ (by decide) (by decide)
  exact ⟨s, hr, hp, none_lost hr⟩

/-- The loop closes before the new worker has started its task. -/
theorem task_lost_at_close : ∃ s : Loop Nat Unit, Reach Loop.step Loop.init s ∧ ¬ s.NoneLost := by
  obtain ⟨s, hr, hlive, htasks⟩ : ∃ s : Loop Nat Unit, Reach Loop.step Loop.init s ∧
      (s.workers 1).live = false ∧ (s.workers 1).tasks.length = 1 :=
    exists_reach
      [.send (.message (.spawnBlocking ())), .receive .willing, .send .close, .receive .willing, .receive .willing]
      _ (by decide)
  refine ⟨s, hr, fun hn => ?_⟩
  rw [hn 1 hlive] at htasks
  cases htasks

end Loop
end Pool
end WasmerJs
