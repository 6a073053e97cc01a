import WasmerJs.Lib.Transition

/-! The class `Worker` for Node (`src-js/node.ts`). A loop creates the `NodeWorker`s one at a time, after a delay each;
    until there is one, the class keeps the messages that are posted to it. -/

namespace WasmerJs
namespace Node
open Transition

variable {Message : Type}

/-! ### Workers -/

/-- An element of `workerCreationQueue`. Its `resolve` settles the promise `_ready` of the worker with this number. -/
structure Request where
  url : String
  name : Option String
  worker : Nat
  deriving DecidableEq

structure NodeWorker (Message : Type) where
  url : String
  name : Option String
  -- What its `postMessage` was called with.
  received : List Message := []
  terminated : Bool := false

/-- What is to be done once `_ready` is resolved, besides what `then` calls in the constructor. -/
inductive Reaction where
  | setUp
  | terminate
  deriving DecidableEq

/-- `Worker`. The worker in `_worker` is the one that `_ready` was resolved with. -/
structure Worker (Message : Type) where
  ready : Option (NodeWorker Message) := none
  reactions : List Reaction := [.setUp]
  hasWorker : Bool := false
  messageQueue : List Message := []
  -- The messages that `postMessage` has taken, in order.
  posted : List Message := []

structure State (Message : Type) where
  workerCreationQueue : List Request := []
  isCreatingWorker : Bool := false
  -- The timers that will call `processWorkerCreationQueue`, and the calls that wait for `WORKER_CREATION_DELAY`.
  timers : Nat := 0
  loops : Nat := 0
  made : Nat := 0
  workers : Nat → Worker Message := fun _ => {}
  -- The workers whose requests were taken from the queue, in order.
  taken : List Nat := []

/-- A worker is constructed. A timer fires, or the delay of a loop is over, which then creates a `NodeWorker` or throws.
    A reaction runs, or a method is called. -/
inductive Event (Message : Type) where
  | construct (url : String) (name : Option String)
  | timer
  | delayed (created : Bool)
  | react (k : Nat)
  | postMessage (k : Nat) (m : Message)
  | terminate (k : Nat)
  deriving DecidableEq

variable (pathToFileURL : String → String) (cloneable : Message → Bool)

/-- `NodeWorker.postMessage`, which throws for what cannot be cloned. -/
def NodeWorker.postMessage (node : NodeWorker Message) (m : Message) : Option (NodeWorker Message) :=
  if cloneable m then some { node with received := node.received ++ [m] } else none

/-- The messages are sent up to the first that cannot be. -/
def NodeWorker.postAll (node : NodeWorker Message) : List Message → NodeWorker Message × Bool
  | [] => (node, true)
  | m :: messages =>
    match node.postMessage cloneable m with
    | some node => node.postAll messages
    | none => (node, false)

namespace Worker

/-- The first reaction in the constructor. An error leaves the queue as it is. -/
def setUp (w : Worker Message) (node : NodeWorker Message) : Worker Message :=
  let (node, sent) := node.postAll cloneable w.messageQueue
  { w with hasWorker := true, ready := some node, messageQueue := if sent then [] else w.messageQueue }

def react (w : Worker Message) : Option (Worker Message) :=
  match w.ready, w.reactions with
  | some node, .setUp :: reactions => some ({ w with reactions }.setUp cloneable node)
  | some node, .terminate :: reactions => some { w with reactions, ready := some { node with terminated := true } }
  | some _, [] => none
  | none, _ => none

def postMessage (w : Worker Message) (m : Message) : Worker Message :=
  if w.hasWorker then
    match w.ready.bind fun node => node.postMessage cloneable m with
    | some node => { w with ready := some node, posted := w.posted ++ [m] }
    | none => w
  else { w with messageQueue := w.messageQueue ++ [m], posted := w.posted ++ [m] }

def terminate (w : Worker Message) : Worker Message :=
  if w.hasWorker then { w with ready := w.ready.map fun node => { node with terminated := true } }
  else { w with reactions := w.reactions ++ [.terminate] }

end Worker

namespace State

/-- The head of the loop in `processWorkerCreationQueue`, up to its `await`. -/
def loop (s : State Message) : State Message :=
  match s.workerCreationQueue with
  | [] => { s with isCreatingWorker := false }
  | _ :: _ => { s with loops := s.loops + 1 }

def processWorkerCreationQueue (s : State Message) : State Message :=
  if s.isCreatingWorker then s else ({ s with isCreatingWorker := true } : State Message).loop

/-- `request.resolve`, which has an effect once. -/
def resolve (s : State Message) (request : Request) : State Message :=
  let url := if request.url.startsWith "file://" then request.url else pathToFileURL request.url
  let w := s.workers request.worker
  let w := { w with ready := w.ready.or (some { url, name := request.name }) }
  { s with workers := Function.update s.workers request.worker w }

/-- The loop after its `await`. An error leaves `isCreatingWorker` as it is. -/
def delayed (s : State Message) (created : Bool) : State Message :=
  match s.workerCreationQueue with
  | [] => s
  | request :: requests =>
    let s := { s with workerCreationQueue := requests, taken := s.taken ++ [request.worker] }
    if created then (s.resolve pathToFileURL request).loop else s

def construct (s : State Message) (url : String) (name : Option String) : State Message :=
  { s with
    workerCreationQueue := s.workerCreationQueue ++ [{ url, name, worker := s.made }]
    timers := s.timers + 1
    made := s.made + 1
    workers := Function.update s.workers s.made {} }

def step (s : State Message) : Event Message → Option (State Message)
  | .construct url name => some (s.construct url name)
  | .timer =>
    if 0 < s.timers then some (({ s with timers := s.timers - 1 } : State Message).processWorkerCreationQueue) else none
  | .delayed created =>
    if 0 < s.loops then some ({ s with loops := s.loops - 1 }.delayed pathToFileURL created) else none
  | .react k =>
    if k < s.made then
      ((s.workers k).react cloneable).map fun w => { s with workers := Function.update s.workers k w }
    else none
  | .postMessage k m =>
    if k < s.made then some { s with workers := Function.update s.workers k ((s.workers k).postMessage cloneable m) }
    else none
  | .terminate k =>
    if k < s.made then some { s with workers := Function.update s.workers k (s.workers k).terminate } else none

end State

/-! ### What is expected -/

/-- A worker that is there has received what was posted, in order, and until then everything is kept. -/
structure Worker.Delivered (w : Worker Message) : Prop where
  received : w.hasWorker = true → ∃ node, w.ready = some node ∧ node.received = w.posted
  kept : w.hasWorker = false → w.messageQueue = w.posted ∧ ∀ node, w.ready = some node → node.received = []

/-- The flag is only set while a loop runs, of which there is at most one. All requests are taken once and in order, and
    one that waits has a timer or a loop. -/
structure State.Delivers (s : State Message) : Prop where
  creating : s.isCreatingWorker = true → 0 < s.loops
  oneLoop : s.loops ≤ 1
  inOrder : s.taken ++ s.workerCreationQueue.map Request.worker = List.range s.made
  notStuck : s.workerCreationQueue ≠ [] → 0 < s.timers ∨ 0 < s.loops
  workers : ∀ k, (s.workers k).Delivered

/-- No `NodeWorker` fails to be created, and what is kept for it until it is there can be sent. -/
structure State.Proper (s : State Message) (e : Event Message) : Prop where
  created : e ≠ .delayed false
  sent : ∀ k, e = .react k → (s.workers k).reactions.head? = some .setUp →
    ∀ m ∈ (s.workers k).messageQueue, cloneable m = true

/-! ### One worker -/

section Worker

variable {cloneable} {w w' : Worker Message}

theorem postAll_received (node : NodeWorker Message) (messages : List Message) :
    (node.postAll cloneable messages).1.received = node.received ++ messages.takeWhile cloneable := by
  induction messages generalizing node with
  | nil => rw [NodeWorker.postAll, List.takeWhile_nil, List.append_nil]
  | cons m messages ih =>
    rw [NodeWorker.postAll, NodeWorker.postMessage, List.takeWhile_cons]
    by_cases hm : cloneable m = true
    · simp only [hm, if_true, ih, List.append_assoc, List.singleton_append]
    · simp only [hm, Bool.false_eq_true, if_false, List.append_nil]

/-- Before the worker is set up, nothing is sent, and afterwards all that was posted. -/
inductive Worker.Stage (w : Worker Message) : Prop where
  | waiting {reactions : List Reaction} (hworker : w.hasWorker = false) (hqueue : w.messageQueue = w.posted)
      (hnode : ∀ node, w.ready = some node → node.received = []) (hreactions : w.reactions = .setUp :: reactions)
      (hrest : .setUp ∉ reactions) : Stage w
  | ready {node : NodeWorker Message} (hworker : w.hasWorker = true) (hready : w.ready = some node)
      (hreceived : node.received = w.posted) (hreactions : .setUp ∉ w.reactions) : Stage w

namespace Worker

theorem stage_new : ({} : Worker Message).Stage :=
  .waiting rfl rfl (fun _ h => by cases h) rfl List.not_mem_nil

theorem Stage.delivered (h : w.Stage) : w.Delivered := by
  cases h with
  | waiting hworker hqueue hnode _ _ => exact ⟨fun h => by simp [hworker] at h, fun _ => ⟨hqueue, hnode⟩⟩
  | ready hworker hready hreceived _ => exact ⟨fun _ => ⟨_, hready, hreceived⟩, fun h => by simp [hworker] at h⟩

theorem Stage.resolve (h : w.Stage) {node : NodeWorker Message} (hnew : node.received = []) :
    ({ w with ready := w.ready.or (some node) } : Worker Message).Stage := by
  cases h with
  | waiting hworker hqueue hnode hreactions hrest =>
    refine .waiting hworker hqueue (fun node' h => ?_) hreactions hrest
    cases hready : w.ready with
    | none =>
      simp only [hready, Option.none_or, Option.some.injEq] at h
      exact h ▸ hnew
    | some node₁ =>
      simp only [hready, Option.some_or] at h
      exact hnode node' (hready.trans h)
  | ready hworker hready hreceived hreactions =>
    exact .ready hworker (by simp [hready]) hreceived hreactions

theorem Stage.postMessage (h : w.Stage) (m : Message) : (w.postMessage cloneable m).Stage := by
  unfold Worker.postMessage
  cases h with
  | waiting hworker hqueue hnode hreactions hrest =>
    rw [if_neg (by simp [hworker])]
    exact .waiting hworker (congrArg (· ++ [m]) hqueue) hnode hreactions hrest
  | @ready node hworker hready hreceived hreactions =>
    rw [if_pos hworker, hready, Option.bind_some, NodeWorker.postMessage]
    by_cases hm : cloneable m = true
    · rw [if_pos hm]
      exact .ready hworker rfl (congrArg (· ++ [m]) hreceived) hreactions
    · rw [if_neg hm]
      exact .ready hworker hready hreceived hreactions

theorem Stage.terminate (h : w.Stage) : w.terminate.Stage := by
  unfold Worker.terminate
  cases h with
  | waiting hworker hqueue hnode hreactions hrest =>
    rw [if_neg (by simp [hworker])]
    refine .waiting hworker hqueue hnode (congrArg (· ++ [.terminate]) hreactions) ?_
    simp [hrest]
  | @ready node hworker hready hreceived hreactions =>
    rw [if_pos hworker]
    have hready' : w.ready.map (fun node => { node with terminated := true }) =
        some { node with terminated := true } := by
      rw [hready, Option.map_some]
    exact .ready hworker hready' hreceived hreactions

/-- The reaction that sets the worker up sends what was kept, as far as it can be. -/
theorem react_setUp {reactions : List Reaction} (hreactions : w.reactions = .setUp :: reactions)
    (hs : w.react cloneable = some w') : ∃ node, w.ready = some node ∧ w'.hasWorker = true ∧ w'.posted = w.posted ∧
      w'.reactions = reactions ∧ ∃ node', w'.ready = some node' ∧
        node'.received = node.received ++ w.messageQueue.takeWhile cloneable := by
  unfold react at hs
  cases hready : w.ready with
  | none =>
    rw [hready] at hs
    cases hs
  | some node =>
    simp only [hready, hreactions, Option.some.injEq] at hs
    subst hs
    exact ⟨node, rfl, rfl, rfl, rfl, _, rfl, postAll_received node w.messageQueue⟩

theorem Stage.react (h : w.Stage) (hs : w.react cloneable = some w')
    (hsent : w.reactions.head? = some .setUp → ∀ m ∈ w.messageQueue, cloneable m = true) : w'.Stage := by
  cases h with
  | waiting hworker hqueue hnode hreactions hrest =>
    obtain ⟨node, hready, hworker', hposted, hreactions', node', hready', hreceived⟩ := react_setUp hreactions hs
    refine .ready hworker' hready' ?_ (hreactions' ▸ hrest)
    have hall := hsent (by rw [hreactions]; rfl)
    rw [hreceived, hnode node hready, List.nil_append, List.takeWhile_eq_self_iff.mpr hall, hqueue, hposted]
  | @ready node hworker hready hreceived hreactions =>
    unfold Worker.react at hs
    cases hrs : w.reactions with
    | nil =>
      simp only [hready, hrs] at hs
      cases hs
    | cons r reactions =>
      rw [hrs] at hreactions
      cases r with
      | setUp => exact absurd List.mem_cons_self hreactions
      | terminate =>
        simp only [hready, hrs, Option.some.injEq] at hs
        subst hs
        exact .ready hworker rfl hreceived fun h => hreactions (List.mem_cons_of_mem _ h)

/-- What cannot be sent is missing afterwards. -/
theorem Stage.not_delivered (h : w.Stage) (hs : w.react cloneable = some w')
    (hhead : w.reactions.head? = some .setUp) (hsent : ¬ ∀ m ∈ w.messageQueue, cloneable m = true) :
    ¬ w'.Delivered := by
  cases h with
  | waiting hworker hqueue hnode hreactions _ =>
    obtain ⟨node, hready, hworker', hposted, -, node', hready', hreceived⟩ := react_setUp hreactions hs
    intro hd
    obtain ⟨node₂, hready₂, hreceived₂⟩ := hd.received hworker'
    cases hready'.symm.trans hready₂
    rw [hreceived, hnode node hready, List.nil_append, hposted, ← hqueue] at hreceived₂
    exact hsent (List.takeWhile_eq_self_iff.mp hreceived₂)
  | ready _ _ _ hreactions => exact absurd (List.mem_of_head? hhead) hreactions

end Worker

end Worker

/-! ### The loop -/

section Loop

variable {pathToFileURL : String → String} {cloneable : Message → Bool} {s t : State Message}

namespace State

/-- The flag is set exactly while the one loop runs, which waits for a request. -/
structure Inv (s : State Message) : Prop where
  running : s.isCreatingWorker = true ↔ s.loops = 1
  oneLoop : s.loops ≤ 1
  waits : 0 < s.loops → s.workerCreationQueue ≠ []
  inOrder : s.taken ++ s.workerCreationQueue.map Request.worker = List.range s.made
  notStuck : s.workerCreationQueue ≠ [] → 0 < s.timers ∨ 0 < s.loops
  workers : ∀ k, (s.workers k).Stage

theorem inv_start : ({} : State Message).Inv where
  running := by simp
  oneLoop := Nat.zero_le 1
  waits := fun h => absurd h (Nat.lt_irrefl 0)
  inOrder := rfl
  notStuck := fun h => absurd rfl h
  workers := fun _ => Worker.stage_new

theorem Inv.delivers (h : s.Inv) : s.Delivers where
  creating hcreating := by
    rw [h.running.mp hcreating]
    exact Nat.one_pos
  oneLoop := h.oneLoop
  inOrder := h.inOrder
  notStuck := h.notStuck
  workers k := (h.workers k).delivered

theorem stage_resolve {request : Request} (h : ∀ k, (s.workers k).Stage) (k : Nat) :
    ((s.resolve pathToFileURL request).workers k).Stage := by
  show (Function.update s.workers request.worker _ k).Stage
  by_cases hk : k = request.worker
  · rw [hk, Function.update_self]
    exact (h request.worker).resolve rfl
  · rw [Function.update_of_ne hk]
    exact h k

/-- At its head, the loop ends or waits for the next request. -/
theorem inv_loop (hcreating : s.isCreatingWorker = true) (hloops : s.loops = 0)
    (horder : s.taken ++ s.workerCreationQueue.map Request.worker = List.range s.made)
    (hworkers : ∀ k, (s.workers k).Stage) : s.loop.Inv := by
  unfold loop
  split
  · rename_i hqueue
    exact ⟨by simp [hloops], by simp [hloops], by simp [hloops], horder, fun h => absurd hqueue h, hworkers⟩
  · rename_i request requests hqueue
    exact ⟨by simp [hloops, hcreating], by simp [hloops], fun _ => by simp [hqueue], horder,
      fun _ => .inr (Nat.succ_pos _), hworkers⟩

theorem Inv.timer (h : s.Inv) : ({ s with timers := s.timers - 1 } : State Message).processWorkerCreationQueue.Inv := by
  unfold processWorkerCreationQueue
  split
  · rename_i hcreating
    have hone := h.running.mp hcreating
    exact ⟨h.running, h.oneLoop, h.waits, h.inOrder, fun _ => .inr (by simp [hone]), h.workers⟩
  · rename_i hcreating
    have hzero : s.loops = 0 := by
      have := h.oneLoop
      have : s.loops ≠ 1 := fun hone => hcreating (h.running.mpr hone)
      omega
    exact inv_loop rfl hzero h.inOrder h.workers

theorem Inv.construct (h : s.Inv) (url : String) (name : Option String) : (s.construct url name).Inv where
  running := h.running
  oneLoop := h.oneLoop
  waits _ := by simp [State.construct]
  inOrder := by
    have horder := h.inOrder
    simp only [State.construct, List.map_append, List.map_singleton, ← List.append_assoc, horder, List.range_succ]
  notStuck _ := .inl (Nat.succ_pos _)
  workers k := by
    by_cases hk : k = s.made
    · subst hk
      simpa [State.construct] using Worker.stage_new
    · simpa [State.construct, hk] using h.workers k

/-- Something happened to one worker. -/
theorem Inv.update (h : s.Inv) (k : Nat) {w : Worker Message} (hw : w.Stage) :
    ({ s with workers := Function.update s.workers k w } : State Message).Inv :=
  ⟨h.running, h.oneLoop, h.waits, h.inOrder, h.notStuck, fun j => by
    by_cases hj : j = k
    · subst hj
      simpa using hw
    · simpa [hj] using h.workers j⟩

/-- While the loop runs, its flag is set and there is a request. -/
theorem Inv.delayed_inv (h : s.Inv) (hloops : 0 < s.loops) : s.isCreatingWorker = true ∧ s.loops - 1 = 0 ∧
    ∃ request requests, s.workerCreationQueue = request :: requests := by
  have hone : s.loops = 1 := by
    have := h.oneLoop
    omega
  exact ⟨h.running.mpr hone, by omega, List.exists_cons_of_ne_nil (h.waits hloops)⟩

theorem Inv.delayed (h : s.Inv) (hloops : 0 < s.loops) :
    (({ s with loops := s.loops - 1 } : State Message).delayed pathToFileURL true).Inv := by
  obtain ⟨hcreating, hzero, request, requests, hqueue⟩ := h.delayed_inv hloops
  simp only [State.delayed, hqueue, if_true]
  refine inv_loop hcreating hzero ?_ (stage_resolve h.workers)
  have horder := h.inOrder
  rw [hqueue] at horder
  exact (List.append_assoc _ _ _).trans horder

theorem Inv.step {e : Event Message} (h : s.Inv) (hok : s.Proper cloneable e)
    (hs : s.step pathToFileURL cloneable e = some t) : t.Inv := by
  cases e with
  | construct url name =>
    cases hs
    exact h.construct url name
  | timer =>
    simp only [State.step] at hs
    split at hs
    · cases hs
      exact h.timer
    · cases hs
  | delayed created =>
    simp only [State.step] at hs
    split at hs
    · rename_i hloops
      cases created with
      | true =>
        cases hs
        exact h.delayed hloops
      | false => exact absurd rfl hok.created
    · cases hs
  | react k =>
    simp only [State.step] at hs
    split at hs
    · obtain ⟨w, hw, rfl⟩ := Option.map_eq_some_iff.mp hs
      exact h.update k ((h.workers k).react hw (hok.sent k rfl))
    · cases hs
  | postMessage k m =>
    simp only [State.step] at hs
    split at hs
    · cases hs
      exact h.update k ((h.workers k).postMessage m)
    · cases hs
  | terminate k =>
    simp only [State.step] at hs
    split at hs
    · cases hs
      exact h.update k (h.workers k).terminate
    · cases hs

/-- A creation that fails leaves the flag set, without a loop. -/
theorem Inv.not_delivers_of_failed (h : s.Inv) (hs : s.step pathToFileURL cloneable (.delayed false) = some t) :
    ¬ t.Delivers := by
  simp only [State.step] at hs
  split at hs
  · rename_i hloops
    obtain ⟨hcreating, hzero, request, requests, hqueue⟩ := h.delayed_inv hloops
    simp only [State.delayed, hqueue, Bool.false_eq_true, if_false, Option.some.injEq] at hs
    subst hs
    intro hd
    have hpos := hd.creating hcreating
    simp [hzero] at hpos
  · cases hs

theorem Inv.not_delivers {e : Event Message} (h : s.Inv) (hok : ¬ s.Proper cloneable e)
    (hs : s.step pathToFileURL cloneable e = some t) : ¬ t.Delivers := by
  by_cases hcreated : e = .delayed false
  · subst hcreated
    exact h.not_delivers_of_failed hs
  obtain ⟨k, rfl, hhead, hsent⟩ : ∃ k, e = .react k ∧ (s.workers k).reactions.head? = some .setUp ∧
      ¬ ∀ m ∈ (s.workers k).messageQueue, cloneable m = true := by
    by_contra hnot
    exact hok ⟨hcreated, fun k he hhead => by_contra fun hsent => hnot ⟨k, he, hhead, hsent⟩⟩
  simp only [State.step] at hs
  split at hs
  · obtain ⟨w, hw, rfl⟩ := Option.map_eq_some_iff.mp hs
    intro hd
    refine (h.workers k).not_delivered hw hhead hsent ?_
    simpa using hd.workers k
  · cases hs

/-- The loop takes one request. -/
theorem Inv.takes (h : s.Inv) (hloops : 0 < s.loops) {request : Request} {requests : List Request}
    (hqueue : s.workerCreationQueue = request :: requests) :
    ∃ t, s.step pathToFileURL cloneable (.delayed true) = some t ∧ t.workerCreationQueue = requests ∧
      t.made = s.made ∧ (requests ≠ [] → 0 < t.loops) ∧ t.Inv := by
  have hloop : ∀ u : State Message, u.loop.workerCreationQueue = u.workerCreationQueue ∧ u.loop.made = u.made ∧
      (u.workerCreationQueue ≠ [] → 0 < u.loop.loops) := by
    intro u
    unfold loop
    split
    · rename_i hnil
      exact ⟨rfl, rfl, fun hne => absurd hnil hne⟩
    · exact ⟨rfl, rfl, fun _ => Nat.succ_pos _⟩
  let u : State Message := ({ s with
    loops := s.loops - 1
    workerCreationQueue := requests
    taken := s.taken ++ [request.worker] } : State Message).resolve pathToFileURL request
  have hu : ({ s with loops := s.loops - 1 } : State Message).delayed pathToFileURL true = u.loop := by
    simp only [State.delayed, hqueue, if_true, u]
  obtain ⟨hrest, hmade, hpos⟩ := hloop u
  exact ⟨u.loop, (if_pos hloops).trans (congrArg some hu), hrest, hmade, hpos, hu ▸ h.delayed hloops⟩

/-- A loop that runs takes all requests that wait. -/
theorem Inv.drains (h : s.Inv) (hloops : 0 < s.loops) :
    ∃ n t, run (State.step pathToFileURL cloneable) s (.replicate n (.delayed true)) = some t ∧
      t.workerCreationQueue = [] ∧ t.made = s.made ∧ t.Inv := by
  obtain ⟨-, -, request, requests, hqueue⟩ := h.delayed_inv hloops
  induction requests generalizing s request with
  | nil =>
    obtain ⟨t, hs, hnil, hmade, -, ht⟩ := h.takes hloops hqueue
    exact ⟨1, t, by rw [List.replicate_one, run_cons, hs]; rfl, hnil, hmade, ht⟩
  | cons request' requests ih =>
    obtain ⟨t, hs, hrest, hmade, hpos, ht⟩ := h.takes hloops hqueue
    obtain ⟨n, u, hr, hnil, hmade', hu⟩ := ih ht (hpos (List.cons_ne_nil _ _)) request' hrest
    refine ⟨n + 1, u, ?_, hnil, hmade'.trans hmade, hu⟩
    rw [List.replicate_succ, run_cons, hs]
    exact hr

/-- As long as no creation fails, timers and delays alone make the loop take all requests, in order. -/
theorem requests_taken (h : s.Inv) : ∃ es t, (∀ e ∈ es, e = .timer ∨ e = .delayed true) ∧
    run (State.step pathToFileURL cloneable) s es = some t ∧ t.taken = List.range s.made := by
  have htaken : ∀ {u : State Message}, u.Inv → u.workerCreationQueue = [] → u.made = s.made →
      u.taken = List.range s.made := by
    intro u hu hnil hmade
    have horder := hu.inOrder
    rwa [hnil, List.map_nil, List.append_nil, hmade] at horder
  have hdelays : ∀ n, ∀ e ∈ List.replicate n (Event.delayed true : Event Message), e = .timer ∨ e = .delayed true :=
    fun n e he => .inr (List.eq_of_mem_replicate he)
  by_cases hqueue : s.workerCreationQueue = []
  · exact ⟨[], s, by simp, rfl, htaken h hqueue rfl⟩
  rcases Nat.eq_zero_or_pos s.loops with hzero | hloops
  · have htimers : 0 < s.timers := (h.notStuck hqueue).resolve_right (by omega)
    have hcreating : s.isCreatingWorker = false := by
      rw [Bool.eq_false_iff]
      intro hcreating
      have := h.running.mp hcreating
      omega
    obtain ⟨request, requests, hcons⟩ := List.exists_cons_of_ne_nil hqueue
    have hs : s.step pathToFileURL cloneable .timer =
        some { s with timers := s.timers - 1, isCreatingWorker := true, loops := s.loops + 1 } := by
      simp [State.step, htimers, processWorkerCreationQueue, hcreating, loop, hcons]
    have hu := h.step ⟨by simp, fun _ h => by cases h⟩ hs
    obtain ⟨n, t, hr, hnil, hmade, ht⟩ := hu.drains (Nat.succ_pos _)
    refine ⟨.timer :: .replicate n (.delayed true), t, ?_, ?_, htaken ht hnil hmade⟩
    · exact List.forall_mem_cons.mpr ⟨.inl rfl, hdelays n⟩
    · rw [run_cons, hs]
      exact hr
  · obtain ⟨n, t, hr, hnil, hmade, ht⟩ := h.drains hloops
    exact ⟨_, t, hdelays n, hr, htaken ht hnil hmade⟩

end State

end Loop

/-- The class delivers everything in exactly the runs in which no creation fails and what is kept can be sent. -/
theorem worker_delivers_iff {pathToFileURL : String → String} {cloneable : Message → Bool} {es : List (Event Message)}
    {s : State Message} (hr : run (State.step pathToFileURL cloneable) {} es = some s) :
    RunAll (State.step pathToFileURL cloneable) State.Delivers {} es ↔
      RunOk (State.step pathToFileURL cloneable) (State.Proper cloneable) {} es :=
  runAll_iff_runOk State.Inv.delivers State.Inv.step State.Inv.not_delivers State.inv_start hr

/-- Messages that are posted before the worker is there, while it is set up, and afterwards. -/
def threeMessages : List (Event Nat) :=
  [.construct "worker.mjs" (some "worker"), .postMessage 0 1, .timer, .delayed true, .postMessage 0 2, .react 0,
    .postMessage 0 3]

theorem three_messages_delivered :
    RunAll (State.step (fun path => path) fun _ => true) State.Delivers {} threeMessages := by
  have hother : ∀ {s : State Nat} {e : Event Nat}, e ≠ .delayed false → (∀ k, e ≠ .react k) →
      s.Proper (fun _ => true) e := fun hcreated hreact => ⟨hcreated, fun k he => absurd he (hreact k)⟩
  have hsent : ∀ {s : State Nat} {k : Nat}, s.Proper (fun _ => true) (.react k) :=
    ⟨by simp, fun _ _ _ _ _ => rfl⟩
  refine (worker_delivers_iff rfl).mpr ⟨?_, ?_, ?_, ?_, ?_, hsent, ?_, trivial⟩ <;> exact hother (by simp) (by simp)

/-- The first of two creations fails. -/
def failedCreation : List (Event Nat) :=
  [.construct "a.mjs" none, .construct "b.mjs" none, .timer, .delayed false, .timer]

theorem failed_creation_blocks : ¬ ∀ (pathToFileURL : String → String) (cloneable : Nat → Bool) (es : List (Event Nat))
    (s : State Nat), run (State.step pathToFileURL cloneable) {} es = some s →
      RunAll (State.step pathToFileURL cloneable) State.Delivers {} es := by
  intro h
  have hlast := (h (fun path => path) (fun _ => true) failedCreation _ rfl).last rfl
  exact absurd (hlast.creating rfl) (Nat.lt_irrefl 0)

end Node
end WasmerJs
