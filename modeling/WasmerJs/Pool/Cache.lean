import WasmerJs.Pool.Closing
import WasmerJs.Pool.Workers

/-! The modules that the scheduler caches (`src/tasks/scheduler.rs`): a new module is announced to every worker, and a
    new worker is told of all modules before it gets its first task. -/

namespace WasmerJs
namespace Pool

open Transition

variable {H T : Type}

/-! ### What was sent -/

/-- A message that was posted to a worker, and the modules that the scheduler knew before the event that caused it. -/
structure Sent (H T : Type) where
  msg : PostMessagePayload H T
  cached : List H

/-- What the effects of a handler send to a worker, in order. -/
def postsTo (w : WorkerId) (effects : List (Effect H T)) : List (PostMessagePayload H T) :=
  effects.filterMap fun
    | .posted v msg => if v = w then some msg else none
    | .spawned _ | .terminated _ => none

/-- The pool, with all that its workers were sent. -/
structure Announcer (H T : Type) where
  pool : State H T
  sent : WorkerId → List (Sent H T)

namespace Announcer

def init : Announcer H T := { pool := .init, sent := fun _ => [] }

/-- The workers that the scheduler holds. -/
def held (s : Announcer H T) : List WorkerId := s.pool.sched.idle ++ s.pool.sched.busy

variable [LinearOrder H]

/-- What an event of the pool makes the scheduler send. -/
def effects (s : Announcer H T) : Event H T → List (Effect H T)
  | .message b msg => (s.pool.sched.execute b msg).2
  | .deliver .. | .begin .. | .finish _ => []

def step (s : Announcer H T) (e : Event H T) : Option (Announcer H T) :=
  (Pool.step s.pool e).map fun pool =>
    { pool, sent := fun w => s.sent w ++ (postsTo w (s.effects e)).map fun msg => ⟨msg, s.pool.sched.cachedModules⟩ }

end Announcer

/-- The message tells of the module with this hash. -/
def PostMessagePayload.names [DecidableEq H] (hash : H) : PostMessagePayload H T → Bool
  | .cacheModule hash' => hash' = hash
  | .async _ | .blocking _ => false

theorem PostMessagePayload.names_iff [DecidableEq H] {hash : H} {msg : PostMessagePayload H T} :
    msg.names hash ↔ msg = .cacheModule hash := by
  cases msg <;> simp [names]

/-- The messages say which module is meant by a hash. -/
def Knows (l : List (Sent H T)) (hash : H) : Prop := .cacheModule hash ∈ l.map Sent.msg

instance [DecidableEq H] (l : List (Sent H T)) (hash : H) : Decidable (Knows l hash) :=
  decidable_of_iff (∃ x ∈ l, x.msg.names hash) (by simp [Knows, PostMessagePayload.names_iff])

/-- Before each task come the messages about all modules that were known when it was sent. -/
def Primed (l : List (Sent H T)) : Prop :=
  ∀ before x after, l = before ++ x :: after → x.msg.isTask → ∀ hash ∈ x.cached, Knows before hash

namespace Announcer

/-- Every worker that the scheduler holds has been told of every module that is cached. -/
def Informed (s : Announcer H T) : Prop :=
  ∀ w ∈ s.held, ∀ hash ∈ s.pool.sched.cachedModules, Knows (s.sent w) hash

/-- The announcement gets to every worker that was not told of the module before: a message can be posted to it, and
    to the workers that come before it in the queues. -/
def Announces (s : Announcer H T) : Event H T → Prop
  | .message b (.cacheModule hash) => ∀ w ∈ s.held,
    (∀ v ∈ s.held.takeWhile (· ≠ w) ++ [w], b.post v (.cacheModule hash)) ∨ Knows (s.sent w) hash
  | _ => True

instance [DecidableEq H] (s : Announcer H T) : ∀ e, Decidable (s.Announces e)
  | .message b (.cacheModule hash) => inferInstanceAs (Decidable (∀ w ∈ s.held,
    (∀ v ∈ s.held.takeWhile (· ≠ w) ++ [w], b.post v (.cacheModule hash)) ∨ Knows (s.sent w) hash))
  | .message _ (.spawnAsync _) | .message _ (.spawnBlocking _) | .message _ (.spawnWithModule ..)
  | .message _ (.spawnWithModuleAndMemory ..) | .message _ (.workerBusy _) | .message _ (.workerIdle _)
  | .deliver .. | .begin .. | .finish _ => isTrue trivial

end Announcer

/-! ### Lists of messages -/

theorem Knows.append {l l' : List (Sent H T)} {hash : H} (h : Knows l hash) : Knows (l ++ l') hash := by
  rw [Knows, List.map_append]
  exact List.mem_append_left _ h

theorem Knows.of_mem {l : List (Sent H T)} {msgs : List (PostMessagePayload H T)} {cached : List H} {hash : H}
    (h : .cacheModule hash ∈ msgs) : Knows (l ++ msgs.map fun msg => ⟨msg, cached⟩) hash := by
  rw [Knows, List.map_append, List.map_map]
  exact List.mem_append_right _ (List.mem_map.mpr ⟨_, h, rfl⟩)

theorem Primed.nil : Primed ([] : List (Sent H T)) := by
  intro before x after h
  cases before <;> cases h

theorem Primed.concat {l : List (Sent H T)} {x : Sent H T} (h : Primed l)
    (hx : x.msg.isTask → ∀ hash ∈ x.cached, Knows l hash) : Primed (l ++ [x]) := by
  intro before y after heq
  rcases List.eq_nil_or_concat after with rfl | ⟨after, z, rfl⟩
  · obtain ⟨rfl, hlast⟩ := List.append_inj' heq rfl
    cases hlast
    exact hx
  · rw [List.concat_eq_append, ← List.cons_append, ← List.append_assoc] at heq
    obtain ⟨rfl, -⟩ := List.append_inj' heq rfl
    exact h before y after rfl

/-- By induction on the messages, the last one first. -/
theorem Primed.append {l : List (Sent H T)} {msgs : List (PostMessagePayload H T)} {cached : List H} (h : Primed l)
    (hn : ∀ msg ∈ msgs, msg.isTask = false) : Primed (l ++ msgs.map fun msg => ⟨msg, cached⟩) := by
  induction msgs using List.reverseRecOn with
  | nil => simpa using h
  | append_singleton msgs msg ih =>
    rw [List.map_append, ← List.append_assoc]
    have hmsg := hn msg (List.mem_append_right _ (List.mem_singleton_self msg))
    refine (ih fun m hm => hn m (List.mem_append_left _ hm)).concat fun ht => ?_
    rw [hmsg] at ht
    cases ht

section Posts

variable {w v : WorkerId} {b : Browser H T}

theorem postsTo_append {es es' : List (Effect H T)} : postsTo w (es ++ es') = postsTo w es ++ postsTo w es' :=
  List.filterMap_append ..

theorem postsTo_posted {msg : PostMessagePayload H T} {es : List (Effect H T)} :
    postsTo w (.posted v msg :: es) = if v = w then msg :: postsTo w es else postsTo w es := by
  rw [postsTo, List.filterMap_cons]
  by_cases h : v = w
  · simp [h, postsTo]
  · simp [h, postsTo]

theorem postsTo_modules {hashes : List H} :
    postsTo w (hashes.map fun hash => (.posted v (.cacheModule hash) : Effect H T)) =
      if v = w then hashes.map .cacheModule else [] := by
  induction hashes with
  | nil => simp [postsTo]
  | cons hash hashes ih =>
    rw [List.map_cons, postsTo_posted, ih]
    split <;> rfl

/-- A new worker is told of all modules, and then gets the task. -/
theorem postsTo_new {hashes : List H} {msg : PostMessagePayload H T} :
    postsTo w (.spawned v :: (hashes.map fun hash => .posted v (.cacheModule hash)) ++ [.posted v msg]) =
      if v = w then hashes.map .cacheModule ++ [msg] else [] := by
  have hspawned : postsTo w [(.spawned v : Effect H T)] = [] := rfl
  rw [List.cons_append, ← List.singleton_append, postsTo_append, hspawned, List.nil_append, postsTo_append,
    postsTo_modules, postsTo_posted]
  split <;> rfl

/-- What is told of modules is no task. -/
theorem postsTo_notices {es : List (Effect H T)} (h : ∀ e ∈ es, ∀ v msg, e = .posted v msg → msg.isTask = false) :
    ∀ msg ∈ postsTo w es, msg.isTask = false := by
  intro msg hmsg
  obtain ⟨e, he, heq⟩ := List.mem_filterMap.mp hmsg
  cases e with
  | posted v msg' =>
    simp only at heq
    split at heq
    · cases heq
      exact h _ he v msg rfl
    · cases heq
  | spawned | terminated => cases heq

/-- A worker gets the message when the posts to it and to those before it succeed. -/
theorem mem_postsTo_sendAll {hash : H} {ids : List WorkerId} (hw : w ∈ ids) :
    .cacheModule hash ∈ postsTo w (SchedulerState.sendAll b (.cacheModule hash) ids) ↔
      ∀ v ∈ ids.takeWhile (· ≠ w) ++ [w], b.post v (.cacheModule hash) := by
  induction ids with
  | nil => cases hw
  | cons v ids ih =>
    rw [SchedulerState.sendAll]
    by_cases hpost : b.post v (.cacheModule hash)
    · rw [if_pos hpost, postsTo_posted]
      by_cases hv : v = w
      · subst v
        simp [hpost]
      · have hrest := ih ((List.mem_cons.mp hw).resolve_left (Ne.symm hv))
        simpa [hv, hpost] using hrest
    · rw [if_neg hpost]
      refine iff_of_false (fun hmem => by cases hmem) fun hall => hpost (hall v ?_)
      by_cases hv : v = w
      · subst v
        exact List.mem_append_right _ (List.mem_singleton_self w)
      · simp [hv]

end Posts

/-! ### Where a task goes -/

/-- What becomes of a task: it is lost with nothing but messages about modules sent, or it is the only message to an
    idle worker, or it is posted to a new worker after all modules. -/
inductive Dispatched (s : SchedulerState H) (msg : PostMessagePayload H T) :
    SchedulerState H × List (Effect H T) → Prop where
  | lost {t effects} (hc : t.cachedModules = s.cachedModules)
      (hw : ∀ w ∈ t.idle ++ t.busy, w ∈ s.idle ++ s.busy)
      (hn : ∀ e ∈ effects, ∀ v m, e = .posted v m → m.isTask = false) : Dispatched s msg (t, effects)
  | idle {t w} (hc : t.cachedModules = s.cachedModules) (hw : ∀ v ∈ t.idle ++ t.busy, v ∈ s.idle ++ s.busy)
      (hi : w ∈ s.idle) : Dispatched s msg (t, [.posted w msg])
  | new {t} (hc : t.cachedModules = s.cachedModules)
      (hw : ∀ v ∈ t.idle ++ t.busy, v = s.nextId ∨ v ∈ s.idle ++ s.busy) :
      Dispatched s msg (t, .spawned s.nextId ::
        (s.cachedModules.map fun hash => .posted s.nextId (.cacheModule hash)) ++ [.posted s.nextId msg])

namespace SchedulerState

variable {b : Browser H T} {s : SchedulerState H} {msg : PostMessagePayload H T}

/-- A worker whose cache is primed has been sent every module. -/
theorem prime_ok {id : WorkerId} {hashes : List H} (h : (prime b id hashes).2) :
    (prime b id hashes).1 = hashes.map fun hash => .posted id (.cacheModule hash) := by
  induction hashes with
  | nil => rfl
  | cons hash rest ih =>
    rw [prime] at h ⊢
    split at h
    · rw [if_pos ‹_›, List.map_cons, ← ih h]
    · cases h

theorem startWorker_some {t : SchedulerState H} {effects : List (Effect H T)} {w : WorkerId}
    (h : s.startWorker b = (t, effects, some w)) : w = s.nextId ∧ t = { s with nextId := s.nextId + 1 } ∧
      effects = .spawned s.nextId :: s.cachedModules.map fun hash => .posted s.nextId (.cacheModule hash) := by
  unfold startWorker at h
  simp only at h
  split at h
  · split at h
    · rename_i hok
      cases h
      exact ⟨rfl, rfl, by rw [prime_ok hok]⟩
    · cases h
  · cases h

theorem startWorker_none {t : SchedulerState H} {effects : List (Effect H T)}
    (h : s.startWorker b = (t, effects, none)) : t = { s with nextId := s.nextId + 1 } ∧
      ∀ e ∈ effects, ∀ v m, e = .posted v m → m.isTask = false := by
  rcases s.startWorker_inv (b := b) with hs | ⟨primed, hp, hs | hs⟩
  · rw [h] at hs
    cases hs
    exact ⟨rfl, fun e he => by cases he⟩
  · rw [h] at hs
    cases hs
  · rw [h] at hs
    cases hs
    refine ⟨rfl, fun e he v m heq => ?_⟩
    subst heq
    have hmem : .posted v m ∈ primed := by simpa using he
    obtain ⟨hash, hposted⟩ := hp _ hmem
    cases hposted
    rfl

/-- A worker is put back at the end of one of the queues. -/
theorem mem_pushed {v w : WorkerId} {idle busy : List WorkerId}
    (h : v ∈ idle ++ [w] ++ busy ∨ v ∈ idle ++ (busy ++ [w])) : v = w ∨ v ∈ idle ++ busy := by
  simp only [List.mem_append, List.mem_singleton] at h ⊢
  tauto

theorem postMessage_dispatched (b : Browser H T) (s : SchedulerState H) (msg : PostMessagePayload H T) :
    Dispatched s msg (s.postMessage b msg) := by
  unfold postMessage nextAvailableWorker
  cases hi : s.idle with
  | cons w idle =>
    have hw : w ∈ s.idle := hi ▸ List.mem_cons_self ..
    simp only
    split
    · split
      · refine .idle rfl (fun v hv => ?_) hw
        rw [hi]
        exact List.mem_cons.mpr (mem_pushed (.inr hv))
      · refine .idle rfl (fun v hv => ?_) hw
        rw [hi]
        exact List.mem_cons.mpr (mem_pushed (.inl hv))
    · refine .lost rfl (fun v hv => ?_) fun e he v m heq => ?_
      · rw [hi]
        exact List.mem_cons_of_mem _ hv
      · subst heq
        simp at he
  | nil =>
    rcases hs : s.startWorker b with ⟨t, effects, _ | w⟩
    · obtain ⟨rfl, hn⟩ := startWorker_none hs
      exact .lost rfl (fun w hw => hw) hn
    · obtain ⟨rfl, rfl, rfl⟩ := startWorker_some hs
      simp only
      split
      · split
        · exact .new rfl fun v hv => mem_pushed (.inr hv)
        · exact .new rfl fun v hv => mem_pushed (.inl hv)
      · refine .lost rfl (fun w hw => hw) fun e he v m heq => ?_
        subst heq
        have hmem : .posted v m ∈
            s.cachedModules.map fun hash => (.posted s.nextId (.cacheModule hash) : Effect H T) := by
          simpa using he
        obtain ⟨hash, -, hposted⟩ := List.mem_map.mp hmem
        cases hposted
        rfl

end SchedulerState

/-! ### Runs -/

namespace Announcer

/-- Every worker that is held was told of every module, and no task overtakes the modules. -/
structure Inv (s : Announcer H T) : Prop where
  knows : s.Informed
  primed : ∀ w, Primed (s.sent w)

namespace Inv

variable {s t : Announcer H T}

theorem init : (init : Announcer H T).Inv := by
  refine ⟨fun w hw => ?_, fun w => .nil⟩
  cases hw

theorem quiet (h : s.Inv) (hsent : t.sent = s.sent) (hheld : t.held.Perm s.held)
    (hc : t.pool.sched.cachedModules = s.pool.sched.cachedModules) : t.Inv := by
  constructor
  · intro w hw hash hhash
    rw [hsent]
    exact h.knows w (hheld.mem_iff.mp hw) hash (hc ▸ hhash)
  · intro w
    rw [hsent]
    exact h.primed w

/-- A task. -/
theorem task (h : s.Inv) {p : PostMessagePayload H T} {r : SchedulerState H × List (Effect H T)}
    (hr : Dispatched s.pool.sched p r) (ht : t.pool.sched = r.1)
    (hsent : ∀ w, t.sent w = s.sent w ++ (postsTo w r.2).map fun msg => ⟨msg, s.pool.sched.cachedModules⟩) : t.Inv := by
  cases hr with
  | lost hc hw hn =>
    constructor
    · intro w hheld hash hhash
      rw [held, ht] at hheld
      rw [ht, hc] at hhash
      rw [hsent]
      exact (h.knows w (hw w hheld) hash hhash).append
    · intro w
      rw [hsent]
      exact (h.primed w).append (postsTo_notices hn)
  | @idle t' v hc hw hi =>
    constructor
    · intro w hheld hash hhash
      rw [held, ht] at hheld
      rw [ht, hc] at hhash
      rw [hsent]
      exact (h.knows w (hw w hheld) hash hhash).append
    · intro w
      rw [hsent, postsTo_posted]
      split
      · subst w
        exact (h.primed v).concat fun _ hash hhash => h.knows v (List.mem_append_left _ hi) hash hhash
      · simpa [postsTo] using h.primed w
  | new hc hw =>
    constructor
    · intro w hheld hash hhash
      rw [held, ht] at hheld
      rw [ht, hc] at hhash
      rw [hsent]
      rcases hw w hheld with rfl | hold
      · rw [postsTo_new, if_pos rfl]
        exact .of_mem (List.mem_append_left _ (List.mem_map_of_mem hhash))
      · exact (h.knows w hold hash hhash).append
    · intro w
      rw [hsent, postsTo_new]
      split
      · rw [List.map_append, ← List.append_assoc]
        -- The task comes last, after all modules.
        have hmodules : ∀ msg ∈ s.pool.sched.cachedModules.map fun hash => (.cacheModule hash : PostMessagePayload H T),
            msg.isTask = false := by
          intro msg hmsg
          obtain ⟨hash, -, rfl⟩ := List.mem_map.mp hmsg
          rfl
        exact ((h.primed w).append hmodules).concat fun _ hash hhash => .of_mem (List.mem_map_of_mem hhash)
      · simpa using h.primed w

end Inv

variable [LinearOrder H]

theorem step_inv {s t : Announcer H T} {e : Event H T} (hs : s.step e = some t) : Pool.step s.pool e = some t.pool ∧
    ∀ w, t.sent w = s.sent w ++ (postsTo w (s.effects e)).map fun msg => ⟨msg, s.pool.sched.cachedModules⟩ := by
  obtain ⟨pool, hpool, rfl⟩ := Option.map_eq_some_iff.mp hs
  exact ⟨hpool, fun _ => rfl⟩

/-- What an announcement comes to. -/
theorem cacheModule_inv {s t : Announcer H T} {b : Browser H T} {hash : H}
    (hs : s.step (.message b (.cacheModule hash)) = some t) : t.held = s.held ∧
      (∀ hash', hash' ∈ t.pool.sched.cachedModules ↔ hash' = hash ∨ hash' ∈ s.pool.sched.cachedModules) ∧
      ∀ w, t.sent w = s.sent w ++ (postsTo w (SchedulerState.sendAll b (.cacheModule hash) s.held)).map fun msg =>
        ⟨msg, s.pool.sched.cachedModules⟩ := by
  obtain ⟨hpool, hsent⟩ := step_inv hs
  obtain ⟨-, hpool⟩ := step_message_inv hpool
  refine ⟨by rw [held, hpool]; rfl, fun hash' => ?_, hsent⟩
  rw [hpool]
  change hash' ∈ (if hash ∈ s.pool.sched.cachedModules then s.pool.sched.cachedModules
    else s.pool.sched.cachedModules.orderedInsert (· ≤ ·) hash) ↔ _
  split
  · refine ⟨.inr, fun h => h.elim (fun heq => ?_) id⟩
    rwa [heq]
  · exact List.mem_orderedInsert _

/-- A notification moves a worker between the queues, and nothing else. -/
theorem notified (s : State H T) (b : Browser H T) (w : WorkerId) (note : Note) :
    ((s.handle b (note.message w)).sched.idle ++ (s.handle b (note.message w)).sched.busy).Perm
        (s.sched.idle ++ s.sched.busy) ∧
      (s.handle b (note.message w)).sched.cachedModules = s.sched.cachedModules := by
  cases note with
  | markBusy => exact ⟨moveWorker_perm w s.sched.idle s.sched.busy, rfl⟩
  | markIdle =>
    refine ⟨?_, rfl⟩
    have hperm := moveWorker_perm w s.sched.busy s.sched.idle
    exact List.perm_append_comm.trans (hperm.trans List.perm_append_comm)

/-- Only the messages of the scheduler's own channel make it send anything, or hold other workers. -/
theorem step_quiet {s t : Announcer H T} {e : Event H T} (he : ∀ b msg, e ≠ .message b msg) (hs : s.step e = some t) :
    t.sent = s.sent ∧ t.held.Perm s.held ∧ t.pool.sched.cachedModules = s.pool.sched.cachedModules := by
  obtain ⟨hpool, hsent⟩ := step_inv hs
  cases e with
  | message b msg => exact absurd rfl (he b msg)
  | deliver b w =>
    refine ⟨funext fun v => (hsent v).trans (List.append_nil _), ?_⟩
    obtain ⟨⟨note, v⟩, -, heq⟩ := Option.map_eq_some_iff.mp hpool
    rw [held, ← heq]
    exact notified (s.pool.setWorker w v) b w note
  | begin w k =>
    refine ⟨funext fun v => (hsent v).trans (List.append_nil _), ?_⟩
    obtain ⟨v, -, heq⟩ := Option.map_eq_some_iff.mp hpool
    rw [held, ← heq]
    exact ⟨.refl _, rfl⟩
  | finish w =>
    refine ⟨funext fun v => (hsent v).trans (List.append_nil _), ?_⟩
    obtain ⟨v, -, heq⟩ := Option.map_eq_some_iff.mp hpool
    rw [held, ← heq]
    exact ⟨.refl _, rfl⟩

namespace Inv

variable {s t : Announcer H T} {b : Browser H T}

/-- A new module: all workers that are held are told of it. -/
theorem cached (h : s.Inv) {hash : H} (hs : s.step (.message b (.cacheModule hash)) = some t)
    (ho : s.Announces (.message b (.cacheModule hash))) : t.Inv := by
  obtain ⟨hheld, hcached, hsent⟩ := cacheModule_inv hs
  constructor
  · intro w hw hash' hhash
    rw [hheld] at hw
    rw [hsent]
    rcases (hcached hash').mp hhash with rfl | hold
    · rcases ho w hw with hreached | htold
      · exact .of_mem ((mem_postsTo_sendAll hw).mpr hreached)
      · exact htold.append
    · exact (h.knows w hw hash' hold).append
  · intro w
    rw [hsent]
    refine (h.primed w).append (postsTo_notices fun e he v m heq => ?_)
    obtain ⟨u, hash', rfl⟩ := SchedulerState.sendAll_notifies b hash s.held e he
    cases heq
    rfl

theorem step (h : s.Inv) {e : Event H T} (ho : s.Announces e) (hs : s.step e = some t) : t.Inv := by
  cases e with
  | message b msg =>
    obtain ⟨hpool, hsent⟩ := step_inv hs
    obtain ⟨hmsg, hpool⟩ := step_message_inv hpool
    cases hp : msg.payload? with
    | some p =>
      have hexecute := SchedulerState.execute_task (b := b) (s := s.pool.sched) hp
      refine h.task (s.pool.sched.postMessage_dispatched b p) ?_ fun w => ?_
      · rw [hpool, ← hexecute]
        rfl
      · rw [hsent, ← hexecute]
        rfl
    | none =>
      cases msg with
      | cacheModule hash => exact h.cached hs ho
      | workerBusy | workerIdle => cases hmsg
      | spawnAsync | spawnBlocking | spawnWithModule | spawnWithModuleAndMemory => cases hp
  | deliver | begin | finish =>
    obtain ⟨hsent, hheld, hc⟩ := step_quiet (fun b msg heq => by cases heq) hs
    exact h.quiet hsent hheld hc

end Inv

/-- A worker that an announcement does not get to is not told of the module. -/
theorem not_informed {s t : Announcer H T} {e : Event H T} (ho : ¬ s.Announces e) (hs : s.step e = some t) :
    ¬ t.Informed := by
  intro hi
  refine ho ?_
  cases e with
  | message b msg =>
    cases msg with
    | cacheModule hash =>
      obtain ⟨hheld, hcached, hsent⟩ := cacheModule_inv hs
      intro w hw
      have hknows := hi w (hheld ▸ hw) hash ((hcached hash).mpr (.inl rfl))
      rw [hsent, Knows, List.map_append, List.mem_append, List.map_map] at hknows
      rcases hknows with htold | hnew
      · exact .inr htold
      · obtain ⟨msg, hmem, rfl⟩ := List.mem_map.mp hnew
        exact .inl ((mem_postsTo_sendAll hw).mp hmem)
    | _ => trivial
  | _ => trivial

end Announcer

open Announcer in
/-- The workers that are held have been told of all cached modules at all times exactly if every announcement gets to
    every worker that was not told before. In these runs no worker ever gets a task before the modules that the
    scheduler knew when it sent the task. -/
theorem modules_before_tasks [LinearOrder H] {es : List (Event H T)} {s : Announcer H T}
    (hr : run Announcer.step Announcer.init es = some s) :
    (RunAll Announcer.step Informed Announcer.init es ↔ RunOk Announcer.step Announces Announcer.init es) ∧
      (RunOk Announcer.step Announces Announcer.init es → ∀ w, Primed (s.sent w)) := by
  constructor
  · exact runAll_iff_runOk Inv.knows (fun hi ho hs => hi.step ho hs) (fun _ ho hs => not_informed ho hs) Inv.init hr
  · intro ho
    have h := (reachVia_of_run ho hr).invariant Inv.init fun hi ho hs => hi.step ho hs
    exact h.primed

def twoModules : List (Event Nat Unit) :=
  [.message .willing (.cacheModule 7), .message .willing (.spawnBlocking ()), .message .willing (.cacheModule 9),
    .message .willing (.spawnAsync ())]

/-- The first worker is told of the second module while it works; the second worker starts with both. -/
theorem modules_before_tasks_two : ∃ s : Announcer Nat Unit,
    run Announcer.step Announcer.init twoModules = some s ∧
      ((s.sent 1).map fun x => (x.msg.isTask, x.cached)) = [(false, [7]), (true, [7]), (false, [7])] ∧
      ((s.sent 2).map fun x => (x.msg.isTask, x.cached)) = [(false, [7, 9]), (false, [7, 9]), (true, [7, 9])] ∧
      RunAll Announcer.step Announcer.Informed Announcer.init twoModules ∧ ∀ w, Primed (s.sent w) := by
  have hok : RunOk Announcer.step Announcer.Announces Announcer.init twoModules := by decide
  have hrun : (run Announcer.step Announcer.init twoModules).any fun s =>
      ((s.sent 1).map fun x => (x.msg.isTask, x.cached)) = [(false, [7]), (true, [7]), (false, [7])] ∧
      ((s.sent 2).map fun x => (x.msg.isTask, x.cached)) = [(false, [7, 9]), (false, [7, 9]), (true, [7, 9])] := by
    decide
  obtain ⟨s, hr, hsent⟩ := (Option.any_eq_true _ _).mp hrun
  obtain ⟨hone, htwo⟩ := of_decide_eq_true hsent
  obtain ⟨hall, hprimed⟩ := modules_before_tasks hr
  exact ⟨s, hr, hone, htwo, hall.mpr hok, hprimed hok⟩

-- The idle worker comes first in the queues. When it cannot be posted to, the busy one is not told either.
example : ¬ RunOk Announcer.step Announcer.Announces (Announcer.init : Announcer Nat Unit)
    [.message .willing (.spawnBlocking ()), .message .willing (.spawnAsync ()),
      .message { spawn := true, post := fun w _ => w ≠ 2 } (.cacheModule 7)] := by decide

end Pool
end WasmerJs
