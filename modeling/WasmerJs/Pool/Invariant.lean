import WasmerJs.Pool.Workers

/-! Which of the two queues of the scheduler a worker is in. A worker is in `busy` from the post of a blocking job
    until the scheduler has handled the `WorkerIdle` that closes it, wherever the job and its two notifications are
    in between; in `idle` there are only workers with nothing on the way. -/

namespace WasmerJs
namespace Pool

open Transition

variable {H T : Type}

namespace Worker

/-- Nothing that belongs to a blocking job is left. -/
structure Quiet (v : Worker H T) : Prop where
  inbox : v.inbox = []
  running : v.running = 0
  outbox : v.outbox = []
  closed : v.posted = v.closed

/-- Where the only unclosed job is: posted, running with its first notification delivered or not, or over with
    the second one not delivered. -/
inductive Phase : List (BlockingJob H T) → Nat → List Note → Prop where
  | posted {job} : Phase [job] 0 []
  | running : Phase [] 1 [.markBusy]
  | known : Phase [] 1 []
  | ended : Phase [] 0 [.markBusy, .markIdle]
  | closing : Phase [] 0 [.markIdle]

structure Working (v : Worker H T) : Prop where
  phase : Phase v.inbox v.running v.outbox
  closed : v.posted = v.closed + 1

variable {v v' : Worker H T} {k : Nat} {note : Note}

theorem Quiet.unborn : (unborn : Worker H T).Quiet := ⟨rfl, rfl, rfl, rfl⟩

theorem Quiet.receive (h : v.Quiet) {msg : PostMessagePayload H T} (hb : msg.wouldBlock) :
    (v.receive msg).Working := by
  cases msg with
  | blocking job =>
    refine ⟨?_, congrArg (· + 1) h.closed⟩
    simp only [Worker.receive, h.inbox, h.running, h.outbox]
    exact .posted
  | _ => cases hb

theorem receive_eq {msg : PostMessagePayload H T} (hb : msg.wouldBlock = false) : v.receive msg = v := by
  cases msg with
  | blocking job => cases hb
  | _ => rfl

theorem Quiet.begin (h : v.Quiet) (hs : v.begin k = some v') : False := by
  simp [Worker.begin, h.inbox] at hs

theorem Quiet.finish (h : v.Quiet) (hs : v.finish = some v') : False := by
  simp [Worker.finish, h.running] at hs

theorem Quiet.takeNote (h : v.Quiet) (hs : v.takeNote = some (note, v')) : False := by
  simp [Worker.takeNote, h.outbox] at hs

theorem Working.begin (h : v.Working) (hs : v.begin k = some v') : v'.Working ∧ v'.live = v.live := by
  obtain ⟨live, inbox, running, outbox, posted, closed⟩ := v
  obtain ⟨hphase, hclosed⟩ := h
  cases hphase with
  | posted =>
    simp only [Worker.begin] at hs
    split at hs
    · cases hs
      obtain rfl : k = 0 := Nat.lt_one_iff.mp ‹_›
      exact ⟨⟨.running, hclosed⟩, rfl⟩
    · cases hs
  | _ => simp [Worker.begin] at hs

theorem Working.finish (h : v.Working) (hs : v.finish = some v') : v'.Working ∧ v'.live = v.live := by
  obtain ⟨live, inbox, running, outbox, posted, closed⟩ := v
  obtain ⟨hphase, hclosed⟩ := h
  cases hphase with
  | running =>
    cases hs
    exact ⟨⟨.ended, hclosed⟩, rfl⟩
  | known =>
    cases hs
    exact ⟨⟨.closing, hclosed⟩, rfl⟩
  | _ => cases hs

/-- A delivered `WorkerBusy` leaves the job open, a delivered `WorkerIdle` closes it. -/
theorem Working.takeNote (h : v.Working) (hs : v.takeNote = some (note, v')) :
    v'.live = v.live ∧ (note = .markBusy ∧ v'.Working ∨ note = .markIdle ∧ v'.Quiet) := by
  obtain ⟨live, inbox, running, outbox, posted, closed⟩ := v
  obtain ⟨hphase, hclosed⟩ := h
  cases hphase with
  | posted | known => cases hs
  | running =>
    cases hs
    exact ⟨rfl, .inl ⟨rfl, .known, hclosed⟩⟩
  | ended =>
    cases hs
    exact ⟨rfl, .inl ⟨rfl, .closing, hclosed⟩⟩
  | closing =>
    cases hs
    exact ⟨rfl, .inr ⟨rfl, rfl, rfl, rfl, hclosed⟩⟩

end Worker

/-- The invariant, over the two queues and the next id of the scheduler. -/
structure Inv (idle busy : List WorkerId) (nextId : WorkerId) (ws : WorkerId → Worker H T) : Prop where
  nodup : (idle ++ busy).Nodup
  live : ∀ w, (ws w).live ↔ w ∈ idle ++ busy
  fresh : ∀ w ∈ idle ++ busy, w < nextId
  quiet : ∀ w, w ∉ busy → (ws w).Quiet
  working : ∀ w ∈ busy, (ws w).Working

abbrev State.Inv (s : State H T) : Prop := Pool.Inv s.sched.idle s.sched.busy s.sched.nextId s.workers

/-! ### What happens to one worker -/

namespace Inv

variable {idle idle' busy : List WorkerId} {n w : WorkerId} {ws : WorkerId → Worker H T} {v : Worker H T}
  {msg : PostMessagePayload H T}

theorem perm (h : Inv idle busy n ws) (hp : idle'.Perm idle) : Inv idle' busy n ws where
  nodup := (hp.append_right busy).nodup_iff.mpr h.nodup
  live u := (h.live u).trans (hp.append_right busy).mem_iff.symm
  fresh u hu := h.fresh u ((hp.append_right busy).mem_iff.mp hu)
  quiet := h.quiet
  working := h.working

theorem idle_quiet (h : Inv idle busy n ws) (hw : w ∈ idle) : (ws w).Quiet :=
  h.quiet w fun hb => (List.nodup_append.mp h.nodup).2.2 w hw w hb rfl

theorem draw (h : Inv idle busy n ws) : Inv idle busy (n + 1) ws :=
  { h with fresh := fun u hu => Nat.lt_succ_of_lt (h.fresh u hu) }

theorem spawn (h : Inv [] busy n ws) :
    Inv [n] busy (n + 1) (Function.update ws n { ws n with live := true }) := by
  have hn : n ∉ busy := fun hb => Nat.lt_irrefl n (h.fresh n hb)
  refine ⟨List.nodup_cons.mpr ⟨hn, h.nodup⟩, fun u => ?_, fun u hu => ?_, fun u hu => ?_, fun u hu => ?_⟩
  · by_cases hun : u = n
    · simp [hun]
    · simpa [Function.update_of_ne hun, hun] using h.live u
  · rcases List.mem_cons.mp hu with rfl | hu
    · exact Nat.lt_succ_self _
    · exact Nat.lt_succ_of_lt (h.fresh u hu)
  · by_cases hun : u = n
    · subst hun
      rw [Function.update_self]
      exact ⟨(h.quiet u hn).inbox, (h.quiet u hn).running, (h.quiet u hn).outbox, (h.quiet u hn).closed⟩
    · rw [Function.update_of_ne hun]
      exact h.quiet u hu
  · have hun : u ≠ n := fun hun => hn (hun ▸ hu)
    rw [Function.update_of_ne hun]
    exact h.working u hu

/-- An idle worker whose message could not be sent is given up. -/
theorem terminate (h : Inv (w :: idle) busy n ws) :
    Inv idle busy n (Function.update ws w { ws w with live := false }) := by
  have hnodup : (w :: (idle ++ busy)).Nodup := h.nodup
  obtain ⟨hw, hnodup⟩ := List.nodup_cons.mp hnodup
  have hq := h.idle_quiet (List.mem_cons_self ..)
  refine ⟨hnodup, fun u => ?_, fun u hu => h.fresh u (List.mem_cons_of_mem _ hu), fun u hu => ?_, fun u hu => ?_⟩
  · by_cases huw : u = w
    · subst huw
      simpa using hw
    · simpa [Function.update_of_ne huw, huw] using h.live u
  · by_cases huw : u = w
    · subst huw
      rw [Function.update_self]
      exact ⟨hq.inbox, hq.running, hq.outbox, hq.closed⟩
    · rw [Function.update_of_ne huw]
      exact h.quiet u hu
  · have huw : u ≠ w := fun huw => hw (List.mem_append_right _ (huw ▸ hu))
    rw [Function.update_of_ne huw]
    exact h.working u hu

/-- An idle worker takes a blocking job. -/
theorem employ (h : Inv (w :: idle) busy n ws) (hb : msg.wouldBlock) :
    Inv idle (busy ++ [w]) n (Function.update ws w ((ws w).receive msg)) := by
  have hq := h.idle_quiet (List.mem_cons_self ..)
  have hperm : (idle ++ (busy ++ [w])).Perm (w :: (idle ++ busy)) := by
    rw [← List.append_assoc]
    exact List.perm_append_singleton w (idle ++ busy)
  have hlive : (ws w).live := (h.live w).mpr (List.mem_cons_self ..)
  refine ⟨hperm.nodup_iff.mpr h.nodup, fun u => ?_, fun u hu => h.fresh u (hperm.mem_iff.mp hu), fun u hu => ?_,
    fun u hu => ?_⟩
  · rw [hperm.mem_iff]
    by_cases huw : u = w
    · subst huw
      have : ((ws u).receive msg).live = (ws u).live := by cases msg <;> rfl
      simp [this, hlive]
    · rw [Function.update_of_ne huw]
      exact h.live u
  · have huw : u ≠ w := fun huw => hu (by simp [huw])
    rw [Function.update_of_ne huw]
    exact h.quiet u fun hub => hu (List.mem_append_left _ hub)
  · by_cases huw : u = w
    · subst huw
      rw [Function.update_self]
      exact hq.receive hb
    · rw [Function.update_of_ne huw]
      exact h.working u (by simpa [huw] using hu)

theorem proceed (h : Inv idle busy n ws) (hw : w ∈ busy) (hv : v.Working) (hl : v.live = (ws w).live) :
    Inv idle busy n (Function.update ws w v) := by
  refine ⟨h.nodup, fun u => ?_, h.fresh, fun u hu => ?_, fun u hu => ?_⟩
  · by_cases huw : u = w
    · subst huw
      rw [Function.update_self, hl]
      exact h.live u
    · rw [Function.update_of_ne huw]
      exact h.live u
  · have huw : u ≠ w := fun huw => hu (huw ▸ hw)
    rw [Function.update_of_ne huw]
    exact h.quiet u hu
  · by_cases huw : u = w
    · subst huw
      rwa [Function.update_self]
    · rw [Function.update_of_ne huw]
      exact h.working u hu

/-- The `WorkerIdle` of a busy worker is handled. -/
theorem release (h : Inv idle busy n ws) (hw : w ∈ busy) (hv : v.Quiet) (hl : v.live = (ws w).live) :
    Inv (idle ++ [w]) (busy.erase w) n (Function.update ws w v) := by
  have hperm : (idle ++ [w] ++ busy.erase w).Perm (idle ++ busy) := by
    rw [List.append_assoc]
    exact (List.perm_cons_erase hw).symm.append_left idle
  have hnodup : busy.Nodup := (List.nodup_append.mp h.nodup).2.1
  refine ⟨hperm.nodup_iff.mpr h.nodup, fun u => ?_, fun u hu => h.fresh u (hperm.mem_iff.mp hu), fun u hu => ?_,
    fun u hu => ?_⟩
  · rw [hperm.mem_iff]
    by_cases huw : u = w
    · subst huw
      rw [Function.update_self, hl]
      exact h.live u
    · rw [Function.update_of_ne huw]
      exact h.live u
  · by_cases huw : u = w
    · subst huw
      rwa [Function.update_self]
    · rw [Function.update_of_ne huw]
      exact h.quiet u fun hub => hu ((List.mem_erase_of_ne huw).mpr hub)
  · have huw : u ≠ w := fun huw => hnodup.not_mem_erase (huw ▸ hu)
    rw [Function.update_of_ne huw]
    exact h.working u (List.mem_of_mem_erase hu)

end Inv

/-! ### Events -/

theorem applyEffect_cacheModule (ws : WorkerId → Worker H T) (w : WorkerId) (hash : H) :
    applyEffect ws (.posted w (.cacheModule hash)) = ws :=
  Function.update_eq_self w ws

theorem Inv.post {s : SchedulerState H} {ws : WorkerId → Worker H T} {msg : PostMessagePayload H T}
    {s' : SchedulerState H} {effects : List (Effect H T)} (h : Inv s.idle s.busy s.nextId ws)
    (hp : Post s msg (s', effects)) : Inv s'.idle s'.busy s'.nextId (effects.foldl applyEffect ws) := by
  cases hp with
  | idleBlocking hi hb =>
    rw [hi] at h
    exact h.employ hb
  | @idleAsync w idle hi hb =>
    rw [hi] at h
    have hws : Function.update ws w ((ws w).receive msg) = ws := by
      rw [Worker.receive_eq hb, Function.update_eq_self]
    simpa [applyEffect, hws] using h.perm (List.perm_append_singleton w idle)
  | idleFailed hi =>
    rw [hi] at h
    exact h.terminate
  | notSpawned hi => exact h.draw
  | newFailed hi hp =>
    rw [hi] at h
    rw [foldl_spawned applyEffect_cacheModule hp, hi]
    exact h.spawn.terminate
  | newBlocking hi hp hb =>
    rw [hi] at h
    rw [foldl_spawned applyEffect_cacheModule hp, hi]
    exact h.spawn.employ hb
  | newAsync hi hp hb =>
    rw [hi] at h
    rw [foldl_spawned applyEffect_cacheModule hp]
    simpa [applyEffect, Worker.receive_eq hb] using h.spawn

namespace State.Inv

variable {s t : State H T} {e : Event H T} {b : Browser H T}

theorem init : (State.init : State H T).Inv where
  nodup := List.nodup_nil
  live w := by simp [State.init, Worker.unborn, SchedulerState.new]
  fresh w hw := by cases hw
  quiet w _ := .unborn
  working w hw := by cases hw

theorem begin (h : s.Inv) {w : WorkerId} {k : Nat} {v : Worker H T} (hb : (s.workers w).begin k = some v) :
    (s.setWorker w v).Inv := by
  have hw : w ∈ s.sched.busy := by
    by_contra hw
    exact (h.quiet w hw).begin hb
  obtain ⟨hv, hlive⟩ := (h.working w hw).begin hb
  exact h.proceed hw hv hlive

theorem finish (h : s.Inv) {w : WorkerId} {v : Worker H T} (hf : (s.workers w).finish = some v) :
    (s.setWorker w v).Inv := by
  have hw : w ∈ s.sched.busy := by
    by_contra hw
    exact (h.quiet w hw).finish hf
  obtain ⟨hv, hlive⟩ := (h.working w hw).finish hf
  exact h.proceed hw hv hlive

variable [LinearOrder H]

theorem handle (h : s.Inv) {msg : SchedulerMessage H T} (hm : msg.isNotification = false) : (s.handle b msg).Inv := by
  cases msg with
  | spawnAsync | spawnBlocking | spawnWithModule | spawnWithModuleAndMemory =>
    exact h.post (SchedulerState.postMessage_inv ..)
  | cacheModule hash =>
    show Pool.Inv s.sched.idle s.sched.busy s.sched.nextId (List.foldl applyEffect s.workers _)
    rw [foldl_notified applyEffect_cacheModule (SchedulerState.sendAll_notifies _ _ _)]
    exact h
  | workerBusy | workerIdle => cases hm

theorem deliver (h : s.Inv) {w : WorkerId} {note : Note} {v : Worker H T}
    (hn : (s.workers w).takeNote = some (note, v)) : ((s.setWorker w v).handle b (note.message w)).Inv := by
  have hw : w ∈ s.sched.busy := by
    by_contra hw
    exact (h.quiet w hw).takeNote hn
  have hi : w ∉ s.sched.idle := fun hi => (List.nodup_append.mp h.nodup).2.2 w hi w hw rfl
  obtain ⟨hlive, ⟨rfl, hv⟩ | ⟨rfl, hv⟩⟩ := (h.working w hw).takeNote hn
  · -- The worker is in `busy` already, since the job was posted to it.
    simpa [State.handle, SchedulerState.execute, Note.message, moveWorker, hi, setWorker] using h.proceed hw hv hlive
  · simpa [State.handle, SchedulerState.execute, Note.message, moveWorker, hw, setWorker] using h.release hw hv hlive

theorem step (h : s.Inv) (hs : Pool.step s e = some t) : t.Inv := by
  cases e with
  | message b msg =>
    simp only [Pool.step] at hs
    split at hs
    · cases hs
    · cases hs
      exact h.handle (Bool.eq_false_iff.mpr ‹_›)
  | deliver b w =>
    obtain ⟨⟨note, v⟩, hn, rfl⟩ := Option.map_eq_some_iff.mp hs
    exact h.deliver hn
  | begin w k =>
    obtain ⟨v, hb, rfl⟩ := Option.map_eq_some_iff.mp hs
    exact h.begin hb
  | finish w =>
    obtain ⟨v, hf, rfl⟩ := Option.map_eq_some_iff.mp hs
    exact h.finish hf

theorem of_reach (hr : Reach Pool.step State.init s) : s.Inv := hr.invariant init fun h _ hs => h.step hs

end State.Inv

/-! ### Posts to busy workers -/

def Effect.worker : Effect H T → WorkerId
  | .spawned w | .posted w _ | .terminated w => w

theorem foldl_of_ne {w : WorkerId} {effects : List (Effect H T)} (hne : ∀ e ∈ effects, e.worker ≠ w)
    (ws : WorkerId → Worker H T) : effects.foldl applyEffect ws w = ws w := by
  induction effects generalizing ws with
  | nil => rfl
  | cons e effects ih =>
    have hw : w ≠ e.worker := fun hw => hne e (List.mem_cons_self ..) hw.symm
    rw [List.foldl_cons, ih fun e he => hne e (List.mem_cons_of_mem _ he)]
    cases e <;> exact Function.update_of_ne hw _ _

theorem Post.worker {s s' : SchedulerState H} {msg : PostMessagePayload H T} {effects : List (Effect H T)}
    (hp : Post s msg (s', effects)) : ∀ e ∈ effects, e.worker ∈ s.idle ∨ e.worker = s.nextId := by
  intro e he
  cases hp with
  | idleBlocking hi _ | idleAsync hi _ | idleFailed hi =>
    obtain rfl := List.mem_singleton.mp he
    exact .inl (hi ▸ List.mem_cons_self ..)
  | notSpawned => cases he
  | newFailed _ hp | newBlocking _ hp _ | newAsync _ hp _ =>
    right
    rcases List.mem_append.mp he with he | he
    · rcases List.mem_cons.mp he with rfl | he
      · rfl
      · obtain ⟨hash, rfl⟩ := hp e he
        rfl
    · obtain rfl := List.mem_singleton.mp he
      rfl

/-- A post leaves the workers alone that are not idle. -/
theorem foldl_postMessage {s : SchedulerState H} {w : WorkerId} (hi : w ∉ s.idle) (hn : w ≠ s.nextId)
    (b : Browser H T) (p : PostMessagePayload H T) (ws : WorkerId → Worker H T) :
    (s.postMessage b p).2.foldl applyEffect ws w = ws w := by
  refine foldl_of_ne (fun e he hew => ?_) ws
  rcases (SchedulerState.postMessage_inv b s p).worker e he with hidle | hnew
  · exact hi (hew ▸ hidle)
  · exact hn (hew.symm.trans hnew)

theorem Worker.begin_posted {v v' : Worker H T} {k : Nat} (h : v.begin k = some v') : v'.posted = v.posted := by
  simp only [Worker.begin] at h
  split at h <;> cases h
  rfl

theorem Worker.finish_posted {v v' : Worker H T} (h : v.finish = some v') : v'.posted = v.posted := by
  simp only [Worker.finish] at h
  split at h <;> cases h
  rfl

theorem Worker.takeNote_posted {v v' : Worker H T} {note : Note} (h : v.takeNote = some (note, v')) :
    v'.posted = v.posted := by
  simp only [Worker.takeNote] at h
  split at h <;> cases h <;> rfl

theorem setWorker_posted {s : State H T} {u : WorkerId} {v : Worker H T} (hv : v.posted = (s.workers u).posted)
    (w : WorkerId) : ((s.setWorker u v).workers w).posted = (s.workers w).posted := by
  by_cases hw : w = u
  · subst hw
    simpa [State.setWorker] using hv
  · simp [State.setWorker, Function.update_of_ne hw]

variable [LinearOrder H] {s t : State H T} {e : Event H T} {w : WorkerId}

theorem State.Inv.posted_eq (h : s.Inv) (hw : w ∈ s.sched.busy) (hs : Pool.step s e = some t) :
    (t.workers w).posted = (s.workers w).posted := by
  cases e with
  | message b msg =>
    simp only [Pool.step] at hs
    split at hs
    · cases hs
    · cases hs
      have hi : w ∉ s.sched.idle := fun hi => (List.nodup_append.mp h.nodup).2.2 w hi w hw rfl
      have hn : w ≠ s.sched.nextId := Nat.ne_of_lt (h.fresh w (List.mem_append_right _ hw))
      cases msg with
      | spawnAsync | spawnBlocking | spawnWithModule | spawnWithModuleAndMemory =>
        exact congrArg Worker.posted (foldl_postMessage hi hn b _ s.workers)
      | cacheModule hash =>
        show ((List.foldl applyEffect s.workers _) w).posted = _
        rw [foldl_notified applyEffect_cacheModule (SchedulerState.sendAll_notifies _ _ _)]
      | workerBusy | workerIdle => rfl
  | deliver b u =>
    obtain ⟨⟨note, v⟩, hn, rfl⟩ := Option.map_eq_some_iff.mp hs
    have := setWorker_posted (Worker.takeNote_posted hn) w
    cases note <;> exact this
  | begin u k =>
    obtain ⟨v, hb, rfl⟩ := Option.map_eq_some_iff.mp hs
    exact setWorker_posted (Worker.begin_posted hb) w
  | finish u =>
    obtain ⟨v, hf, rfl⟩ := Option.map_eq_some_iff.mp hs
    exact setWorker_posted (Worker.finish_posted hf) w

/-! ### One blocking job at a time -/

/-- What the queues say about the workers, and what it means for the next post. -/
structure OneJobEach (s : State H T) : Prop where
  queued : ∀ w, (s.workers w).live → (s.sched.idle ++ s.sched.busy).count w = 1
  busy_iff : ∀ w, (s.workers w).live → (w ∈ s.sched.busy ↔ (s.workers w).posted = (s.workers w).closed + 1)
  idle_iff : ∀ w, (s.workers w).live → (w ∈ s.sched.idle ↔ (s.workers w).posted = (s.workers w).closed)
  -- A worker that a blocking job is posted to has finished all earlier ones.
  posted : ∀ e t w, step s e = some t → (t.workers w).posted ≠ (s.workers w).posted →
    (s.workers w).posted = (s.workers w).closed ∧ (s.workers w).inbox = [] ∧ (s.workers w).running = 0

theorem State.Inv.oneJobEach (h : s.Inv) : OneJobEach s where
  queued w hw := List.count_eq_one_of_mem h.nodup ((h.live w).mp hw)
  busy_iff w _ := by
    refine ⟨fun hb => (h.working w hb).closed, fun hc => ?_⟩
    by_contra hb
    have := (h.quiet w hb).closed
    omega
  idle_iff w hw := by
    refine ⟨fun hi => (h.idle_quiet hi).closed, fun hc => ?_⟩
    rcases List.mem_append.mp ((h.live w).mp hw) with hi | hb
    · exact hi
    · have := (h.working w hb).closed
      omega
  posted e t w hs hne := by
    have hb : w ∉ s.sched.busy := fun hb => hne (h.posted_eq hb hs)
    exact ⟨(h.quiet w hb).closed, (h.quiet w hb).inbox, (h.quiet w hb).running⟩

/-- In every state that the pool reaches, a blocking job is never given to a worker that still has one. Two workers of
    the pool have the same `u32` id only after `2 ^ 32` events (`ids_lt`). -/
theorem one_job_each (hr : Reach step State.init s) : OneJobEach s := (State.Inv.of_reach hr).oneJobEach

/-- Worker 1 takes a blocking job, the next message starts worker 2, and worker 1 comes back to `idle`. -/
def busyRun : List (Event Nat Unit) :=
  [.message .willing (.spawnBlocking ()), .begin 1 0, .message .willing (.spawnAsync ()), .deliver .willing 1,
    .finish 1, .deliver .willing 1]

theorem one_job_each_busy :
    ∃ s : State Nat Unit, Reach step State.init s ∧ (s.sched.idle = [2, 1] ∧ s.sched.busy = []) ∧ OneJobEach s := by
  obtain ⟨s, hr, hq⟩ : ∃ s : State Nat Unit, Reach step State.init s ∧ s.sched.idle = [2, 1] ∧ s.sched.busy = [] :=
    exists_reach busyRun _ (by decide)
  exact ⟨s, hr, hq, one_job_each hr⟩

/-! ### The counter of ids -/

theorem execute_nextId (s : SchedulerState H) (b : Browser H T) (msg : SchedulerMessage H T) :
    (s.execute b msg).1.nextId ≤ s.nextId + 1 := by
  have hpost : ∀ p : PostMessagePayload H T, (s.postMessage b p).1.nextId ≤ s.nextId + 1 := by
    intro p
    have hp := SchedulerState.postMessage_inv b s p
    generalize s.postMessage b p = r at hp
    cases hp <;> simp
  cases msg with
  | spawnAsync | spawnBlocking | spawnWithModule | spawnWithModuleAndMemory => exact hpost _
  | _ => exact Nat.le_succ _

theorem execute_nextId_le (s : SchedulerState H) (b : Browser H T) (msg : SchedulerMessage H T) :
    s.nextId ≤ (s.execute b msg).1.nextId := by
  cases hm : msg.payload? with
  | some p =>
    rw [SchedulerState.execute_task hm]
    have hp := SchedulerState.postMessage_inv b s p
    generalize s.postMessage b p = r at hp
    cases hp <;> simp
  | none =>
    cases msg with
    | cacheModule | workerBusy | workerIdle => exact Nat.le_refl _
    | _ => cases hm

/-- Every event draws at most one id. -/
theorem nextId_le {es : List (Event H T)} (hr : run step s es = some t) :
    t.sched.nextId ≤ s.sched.nextId + es.length := by
  induction es generalizing s with
  | nil =>
    cases hr
    exact Nat.le_refl _
  | cons e es ih =>
    obtain ⟨u, hs, hr⟩ := Option.bind_eq_some_iff.mp hr
    have hu : u.sched.nextId ≤ s.sched.nextId + 1 := by
      cases e with
      | message b msg =>
        simp only [step] at hs
        split at hs <;> cases hs
        exact execute_nextId ..
      | deliver b w =>
        obtain ⟨⟨note, v⟩, -, rfl⟩ := Option.map_eq_some_iff.mp hs
        exact execute_nextId ..
      | begin w k =>
        obtain ⟨v, -, rfl⟩ := Option.map_eq_some_iff.mp hs
        exact Nat.le_succ _
      | finish w =>
        obtain ⟨v, -, rfl⟩ := Option.map_eq_some_iff.mp hs
        exact Nat.le_succ _
    calc t.sched.nextId ≤ u.sched.nextId + es.length := ih hr
      _ ≤ s.sched.nextId + 1 + es.length := Nat.add_le_add_right hu _
      _ = s.sched.nextId + (e :: es).length := by rw [List.length_cons, Nat.add_assoc, Nat.add_comm 1]

/-- The `u32` counter does not wrap around in a run of fewer than `2 ^ 32` events. -/
theorem ids_lt {es : List (Event H T)} (hr : run step State.init es = some s) (hlen : es.length < 2 ^ 32) :
    ∀ w ∈ s.sched.idle ++ s.sched.busy, w < 2 ^ 32 := by
  intro w hw
  have hfresh := (State.Inv.of_reach (reach_of_run es hr)).fresh w hw
  calc w < s.sched.nextId := hfresh
    _ ≤ 1 + es.length := nextId_le hr
    _ = es.length + 1 := Nat.add_comm ..
    _ ≤ 2 ^ 32 := hlen

end Pool
end WasmerJs
