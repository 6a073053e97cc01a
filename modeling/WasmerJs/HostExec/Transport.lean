import WasmerJs.HostExec.Codec
import WasmerJs.HostExec.Held

/-! The shared buffer as a channel from the scheduler to a worker. As long as no answer comes before the worker has
    cleared its status, and no notification so late that it ends the next wait, each request of the worker gets the
    answer that the scheduler gave it, complete and once (`src/runtime.rs`, `src/tasks/scheduler.rs`). -/

namespace WasmerJs
namespace HostExec

open Transition

variable {W F : Type}

def Pc.isReset : Pc → Bool
  | reset _ => true
  | idle | wait _ | sleeping _ | loadStatus _ | loadMsgType _ | loadDataLen _ _ | loadSession _ _ _
  | loadByte _ _ _ => false

def Pc.isSleeping : Pc → Bool
  | sleeping _ => true
  | idle | reset _ | wait _ | loadStatus _ | loadMsgType _ | loadDataLen _ _ | loadSession _ _ _
  | loadByte _ _ _ => false

/-- A store that the worker hears, where it stands and with this status. -/
def Store.Heard (pc : Pc) (v : BitVec 32) : Store → Prop
  | status _ => pc.isReset = false
  | notify => pc.isSleeping → v ≠ 0
  | msgType _ | dataLenOrExitCode _ | session _ | byte _ _ => True

instance (pc : Pc) (v : BitVec 32) : DecidablePred (Store.Heard pc v)
  | .status _ => inferInstanceAs (Decidable (pc.isReset = false))
  | .notify => inferInstanceAs (Decidable (pc.isSleeping → v ≠ 0))
  | .msgType _ | .dataLenOrExitCode _ | .session _ | .byte _ _ => inferInstanceAs (Decidable True)

/-- The status of an answer is not stored before the worker has cleared its cell, and no notification is left over
    when the worker sleeps again. -/
def Exchange.Heard (x : Exchange W F) : Exchange.Event W F → Prop
  | .answer => ∀ op ∈ x.answering.head?, op.Heard x.pc x.buffer.status
  | .request _ | .emit _ | .access | .receive | .host _ => True

instance (x : Exchange W F) : DecidablePred x.Heard
  | .answer => inferInstanceAs (Decidable (∀ op ∈ x.answering.head?, op.Heard x.pc x.buffer.status))
  | .request _ | .emit _ | .access | .receive | .host _ => inferInstanceAs (Decidable True)

/-- What the worker makes of an answer to its request: what it loads when the answer is all that was stored last. -/
def Reply [DecidableEq W] (w : W) (p : Query × Effect W F) (r : Response) : Prop :=
  ∃ b : Buffer, Decodes (b.answered w p.2) p.1.loads r

/-! ### The stores of an answer -/

/-- A store of neither the status nor a notification. -/
def Store.isPlain : Store → Bool
  | status _ | notify => false
  | msgType _ | dataLenOrExitCode _ | session _ | byte _ _ => true

section Stores

variable {w : W} {b : Buffer} {ops : List Store}

theorem stores_split [DecidableEq W] {q : Query} {x : Effect W F} (h : q.AnsweredBy w x) :
    ∃ ops v, x.stores w = ops ++ [.status v, .notify] ∧ v ≠ 0 ∧ ∀ op ∈ ops, op.isPlain := by
  cases h with
  | output hq t data =>
    refine ⟨_, 1, if_pos rfl, by decide, fun op hop => ?_⟩
    simp only [Option.getD_some, List.mem_append, List.mem_map, List.mem_cons, List.not_mem_nil, or_false] at hop
    rcases hop with (rfl | rfl | rfl) | ⟨p, -, rfl⟩ <;> rfl
  | exit hq code =>
    refine ⟨_, 1, if_pos rfl, by decide, fun op hop => ?_⟩
    simp only [Option.getD_none, List.mem_append, List.mem_map, List.zipIdx_nil, List.mem_cons, List.not_mem_nil,
      or_false, false_and, exists_const] at hop
    rcases hop with rfl | rfl | rfl <;> rfl
  | noData s => exact ⟨[.session (s.setWidth 32)], 2, by simp [Effect.stores], by decide, by simp [Store.isPlain]⟩
  | poll s isReady =>
    refine ⟨[.session (s.setWidth 32)], if isReady then 1 else 2, by simp [Effect.stores], ?_, by simp [Store.isPlain]⟩
    cases isReady <;> decide

/-- Stores that are not of the status leave it, and do not depend on it. -/
theorem foldl_plain (h : ∀ op ∈ ops, op.isPlain) (v : BitVec 32) :
    ops.foldl Store.apply { b with status := v } = { ops.foldl Store.apply b with status := v } := by
  induction ops generalizing b with
  | nil => rfl
  | cons op ops ih =>
    have hop : Store.apply { b with status := v } op = { op.apply b with status := v } := by
      cases op with
      | status => cases h _ (List.mem_cons_self ..)
      | notify => cases h _ (List.mem_cons_self ..)
      | byte i c =>
        simp only [Store.apply]
        split <;> rfl
      | msgType | dataLenOrExitCode | session => rfl
    rw [List.foldl_cons, List.foldl_cons, hop, ih fun op hop => h op (List.mem_cons_of_mem _ hop)]

end Stores

/-! ### Where the worker is -/

/-- The worker has sent request `q` and has seen no answer; `v` is the status. -/
inductive Pc.Awaits (q : Query) (v : BitVec 32) : Pc → Prop where
  | reset : Awaits q v (.reset q)
  | wait (hv : v = 0) : Awaits q v (.wait q)
  | sleeping (hv : v = 0) : Awaits q v (.sleeping q)

/-- The worker goes on to load, or loads, an answer. -/
inductive Pc.Loads (v : BitVec 32) : Pc → Prop where
  | wait (q : Query) (hv : v ≠ 0) : Loads v (.wait q)
  | status (q : Query) : Loads v (.loadStatus q)
  | msgType (q : Query) : Loads v (.loadMsgType q)
  | dataLen (q : Query) (t : MsgType) : Loads v (.loadDataLen q t)
  | session (s : SessionId) (t : MsgType) (n : BitVec 32) : Loads v (.loadSession s t n)
  | byte (t : MsgType) (n : Nat) (data : Bytes) : Loads v (.loadByte t n data)

namespace Pc.Loads

variable {b b' : Buffer} {pc pc' : Pc} {next : Next} {v : BitVec 32}

theorem of_query (q : Query) : q.loads.Loads v := by
  cases q with
  | hostExecRead => exact .msgType _
  | hostExecTryRead => exact .status _
  | hostExecPoll => exact .status _

theorem of_loadData {t : MsgType} {n : Nat} {data : Bytes} (h : loadData t n data = .inr pc) : pc.Loads v := by
  unfold loadData at h
  split at h <;> cases h
  exact .byte _ _ _

theorem of_loadMessage {t : MsgType} {n : BitVec 32} (h : loadMessage t n = .inr pc) : pc.Loads v := by
  unfold loadMessage at h
  split at h
  · cases h
  · exact of_loadData h

/-- Loading changes nothing. -/
theorem access (h : pc.Loads b.status) (ha : pc.access b = some (b', next)) :
    b' = b ∧ ∀ pc', next = .inr pc' → pc'.Loads b.status := by
  cases h with
  | wait q hv =>
    simp only [Pc.access, if_neg hv, Option.some.injEq, Prod.mk.injEq] at ha
    obtain ⟨rfl, rfl⟩ := ha
    refine ⟨rfl, ?_⟩
    rintro pc' ⟨⟩
    exact of_query q
  | status q =>
    cases q with
    | hostExecPoll =>
      cases ha
      exact ⟨rfl, fun pc' h => by cases h⟩
    | hostExecRead | hostExecTryRead =>
      obtain ⟨rfl, rfl⟩ := Prod.mk.inj (Option.some.inj ha)
      refine ⟨rfl, fun pc' h => ?_⟩
      split at h <;> cases h
      exact .msgType _
  | msgType q =>
    cases ha
    refine ⟨rfl, ?_⟩
    rintro pc' ⟨⟩
    exact .dataLen q _
  | dataLen q t =>
    cases q with
    | hostExecRead =>
      cases ha
      refine ⟨rfl, ?_⟩
      rintro pc' ⟨⟩
      exact .session _ _ _
    | hostExecTryRead | hostExecPoll =>
      obtain ⟨rfl, rfl⟩ := Prod.mk.inj (Option.some.inj ha)
      exact ⟨rfl, fun pc' h => of_loadMessage h⟩
  | session s t n =>
    obtain ⟨rfl, rfl⟩ := Prod.mk.inj (Option.some.inj ha)
    refine ⟨rfl, fun pc' h => ?_⟩
    split at h
    · exact of_loadMessage h
    · cases h
  | byte t n data =>
    obtain ⟨rfl, rfl⟩ := Prod.mk.inj (Option.some.inj ha)
    exact ⟨rfl, fun pc' h => of_loadData h⟩

theorem notified (h : pc.Loads v) : pc.notified = pc := by cases h <;> rfl

end Pc.Loads

theorem decodes_wait {b : Buffer} {q : Query} {r : Response} (hv : b.status ≠ 0) :
    Decodes b (.wait q) r ↔ Decodes b q.loads r := by
  refine decodes_access ?_
  rw [Pc.access, if_neg hv]

/-- Between a request and its response: the worker, its buffer, and what is left to do of an answer. `out` is the request
    that the scheduler has not answered, `due` the one that it has, with the answer. -/
inductive Stage [DecidableEq W] (w : W) (pc : Pc) (buffer : Buffer) (ops : List Store) :
    Option Query → Option (Query × Effect W F) → Prop where
  | idle (hpc : pc = .idle) (ho : ops = [] ∨ ops = [.notify]) : Stage w pc buffer ops none none
  | asking {q} (hpc : pc.Awaits q buffer.status) (ho : ops = [] ∨ ops = [.notify]) : Stage w pc buffer ops (some q) none
  | answering {q x b stored rest v} (hpc : pc.Awaits q buffer.status)
      (hx : Effect.stores w x = stored ++ rest ++ [.status v, .notify]) (hv : v ≠ 0)
      (hp : ∀ op ∈ stored ++ rest, op.isPlain) (hb : buffer = stored.foldl Store.apply b)
      (ho : ops = rest ++ [.status v, .notify]) : Stage w pc buffer ops none (some (q, x))
  | woken {q x b} (hpc : pc = .sleeping q) (hb : buffer = Buffer.answered b w x) (hs : buffer.status ≠ 0)
      (ho : ops = [.notify]) : Stage w pc buffer ops none (some (q, x))
  | loading {q x b} (hpc : pc.Loads buffer.status)
      (hd : ∀ r, Decodes buffer pc r → Decodes (Buffer.answered b w x) q.loads r) (ho : ops = [] ∨ ops = [.notify]) :
      Stage w pc buffer ops none (some (q, x))

namespace Stage

variable [DecidableEq W] {w : W} {pc : Pc} {buffer buffer' : Buffer} {op : Store} {ops : List Store} {out : Option Query}
  {due : Option (Query × Effect W F)} {next : Next}

/-- The worker sends a request only when the one before has its response. -/
theorem of_idle (h : Stage w .idle buffer ops out due) :
    out = none ∧ due = none ∧ (ops = [] ∨ ops = [.notify]) := by
  cases h with
  | idle _ ho => exact ⟨rfl, rfl, ho⟩
  | asking hpc => cases hpc
  | answering hpc => cases hpc
  | woken hpc => cases hpc
  | loading hpc => cases hpc

/-- An access of the worker goes on with the same answer, or ends with what it makes of it. -/
theorem access (h : Stage w pc buffer ops out due) (ha : pc.access buffer = some (buffer', next)) :
    match next with
    | .inr pc' => Stage w pc' buffer' ops out due
    | .inl r => ∃ p, due = some p ∧ out = none ∧ Reply w p r ∧
        Stage w .idle buffer' ops none (none : Option (Query × Effect W F)) := by
  cases h with
  | idle hpc =>
    subst hpc
    cases ha
  | asking hpc ho =>
    cases hpc with
    | reset =>
      cases ha
      exact .asking (.wait rfl) ho
    | wait hv =>
      simp only [Pc.access, if_pos hv, Option.some.injEq, Prod.mk.injEq] at ha
      obtain ⟨rfl, rfl⟩ := ha
      exact .asking (.sleeping hv) ho
    | sleeping => cases ha
  | @answering q x b stored rest v hpc hx hv hp hb ho =>
    cases hpc with
    | reset =>
      cases ha
      refine .answering (b := { b with status := 0 }) (.wait rfl) hx hv hp ?_ ho
      rw [foldl_plain fun op hop => hp op (List.mem_append_left _ hop), ← hb]
    | wait hw =>
      simp only [Pc.access, if_pos hw, Option.some.injEq, Prod.mk.injEq] at ha
      obtain ⟨rfl, rfl⟩ := ha
      exact .answering (.sleeping hw) hx hv hp hb ho
    | sleeping => cases ha
  | woken hpc =>
    subst hpc
    cases ha
  | @loading q x b hpc hd ho =>
    obtain ⟨rfl, hnext⟩ := hpc.access ha
    cases next with
    | inl r => exact ⟨(q, x), rfl, rfl, ⟨b, hd r (.done ha)⟩, .idle rfl ho⟩
    | inr pc' => exact .loading (hnext pc' rfl) (fun r hr => hd r (.access ha hr)) ho

/-- A store of the scheduler. -/
theorem answer (h : Stage w pc buffer (op :: ops) out due) (hheard : op.Heard pc buffer.status) :
    Stage w (if op = .notify then pc.notified else pc) (op.apply buffer) ops out due := by
  -- The notification of an earlier answer.
  have hold : (op :: ops = [] ∨ op :: ops = [.notify]) → op = .notify ∧ ops = [] := by
    rintro (ho | ho)
    · cases ho
    · obtain ⟨rfl, rfl⟩ := List.cons.inj ho
      exact ⟨rfl, rfl⟩
  cases h with
  | idle hpc ho =>
    obtain ⟨rfl, rfl⟩ := hold ho
    subst hpc
    exact .idle rfl (.inl rfl)
  | asking hpc ho =>
    obtain ⟨rfl, rfl⟩ := hold ho
    cases hpc with
    | reset => exact .asking .reset (.inl rfl)
    | wait hv => exact .asking (.wait hv) (.inl rfl)
    | sleeping hv => exact absurd hv (hheard rfl)
  | @answering q x b stored rest v hpc hx hv hp hb ho =>
    cases rest with
    | nil =>
      obtain ⟨rfl, rfl⟩ := List.cons.inj ho
      have hbuffer : Store.apply buffer (.status v) = Buffer.answered b w x := by
        rw [Buffer.answered, hx, List.append_nil, List.foldl_append, ← hb]
        rfl
      rw [if_neg (by simp)]
      cases hpc with
      | reset => cases hheard
      | wait =>
        refine .loading (b := b) (.wait q hv) (fun r hr => ?_) (.inr rfl)
        rw [decodes_wait (by exact hv)] at hr
        rwa [hbuffer] at hr
      | sleeping => exact .woken rfl hbuffer hv rfl
    | cons op' rest =>
      obtain ⟨rfl, rfl⟩ := List.cons.inj ho
      have hplain := hp op (by simp)
      have hne : op ≠ .notify := by
        rintro rfl
        cases hplain
      have hkeep : (op.apply buffer).status = buffer.status := by
        cases op with
        | status => cases hplain
        | byte =>
          simp only [Store.apply]
          split <;> rfl
        | _ => rfl
      rw [if_neg hne]
      have hstored : op.apply buffer = (stored ++ [op]).foldl Store.apply b := by
        rw [List.foldl_append, ← hb]
        rfl
      exact .answering (by rwa [hkeep]) (by simpa using hx) hv (by simpa using hp) hstored rfl
  | @woken q x b hpc hb hs ho =>
    obtain ⟨rfl, rfl⟩ := List.cons.inj ho
    subst hpc
    exact .loading (b := b) (.of_query q) (fun r hr => hb ▸ hr) (.inl rfl)
  | loading hpc hd ho =>
    obtain ⟨rfl, rfl⟩ := hold ho
    rw [if_pos rfl, hpc.notified]
    exact .loading hpc hd (.inl rfl)

/-- A request that is not answered and an answer are not there together. -/
theorem one (h : Stage w pc buffer ops out due) : due.toList.length + out.toList.length ≤ 1 := by
  cases h <;> simp

/-- The scheduler answers the request. -/
theorem answered {q : Query} (h : Stage w pc buffer [] (some q) due) :
    due = none ∧ ∀ x : Effect W F, q.AnsweredBy w x → Stage w pc buffer (x.stores w) none (some (q, x)) := by
  cases h with
  | asking hpc =>
    refine ⟨rfl, fun x hans => ?_⟩
    obtain ⟨ops, v, hx, hv, hp⟩ := stores_split hans
    have hrest : Effect.stores w x = [] ++ ops ++ [.status v, .notify] := hx
    exact .answering (b := buffer) hpc hrest hv hp rfl hx

end Stage

/-! ### Runs -/

namespace Exchange

/-- Everything about the requests of worker `w`: those that have a response in `done`, with their answers; `due` the one
    that is answered and has no response yet, `held` the one that the main thread has not answered. -/
structure Carried [DecidableEq W] (w : W) (x : Exchange W F) (done : List (Query × Effect W F))
    (due : Option (Query × Effect W F)) (held out : Option Query) : Prop where
  own : ParkedOwn x.host.slots
  transit : ∀ m ∈ x.transit, m.worker = w ∧ (m.isAwaited → ∃ q : Query, m = q.message w)
  stage : Stage w x.pc x.buffer x.answering out due
  holds : x.host.Holds w held
  out : out.toList = held.toList ++ x.transit.filterMap SchedulerMessage.query?
  queries : queriesOf w x.host.log = (done ++ due.toList).map Prod.fst ++ held.toList
  replies : repliesTo w x.host.log = (done ++ due.toList).map Prod.snd
  answered : ∀ p ∈ done ++ due.toList, p.1.AnsweredBy w p.2
  read : List.Forall₂ (Reply w) done x.responses

variable [DecidableEq W] {parse : Bytes → Except String Unit} {w : W} {x x' : Exchange W F}
  {done : List (Query × Effect W F)} {due : Option (Query × Effect W F)} {held out : Option Query}

omit [DecidableEq W] in
@[simp] theorem query?_message (q : Query) : (q.message w).query? = some q := by cases q <;> rfl

omit [DecidableEq W] in
theorem query?_of_not_awaited {m : SchedulerMessage W} (hm : ¬ m.isAwaited) : m.query? = none := by
  cases m <;> first | rfl | exact absurd rfl hm

theorem carried_init : (Exchange.init (State.init : State W F)).Carried w [] none none none where
  own := .init
  transit _ hm := absurd hm List.not_mem_nil
  stage := .idle rfl (.inl rfl)
  holds := .init
  out := rfl
  queries := rfl
  replies := rfl
  answered _ hp := absurd hp List.not_mem_nil
  read := .nil

namespace Carried

theorem request (hc : x.Carried w done due held out) (hpc : x.pc = .idle) (q : Query) :
    Carried w { x with transit := x.transit ++ [q.message w], pc := .reset q } done due held (some q) := by
  have hstage := hc.stage
  rw [hpc] at hstage
  obtain ⟨rfl, rfl, ho⟩ := hstage.of_idle
  obtain ⟨hheld, htransit⟩ := List.append_eq_nil_iff.mp hc.out.symm
  refine { hc with transit := fun m hm => ?_, stage := .asking .reset ho, out := ?_ }
  · rcases List.mem_append.mp hm with hm | hm
    · exact hc.transit m hm
    · obtain rfl := List.mem_singleton.mp hm
      exact ⟨(Query.From.request q).awaited.1, fun _ => ⟨q, rfl⟩⟩
  · simp [hheld, htransit]

theorem emit (hc : x.Carried w done due held out) {m : SchedulerMessage W} (hw : m.worker = w)
    (hm : m.isAwaited = false) : Carried w { x with transit := x.transit ++ [m] } done due held out := by
  refine { hc with transit := fun m' hm' => ?_, out := ?_ }
  · rcases List.mem_append.mp hm' with hm' | hm'
    · exact hc.transit m' hm'
    · obtain rfl := List.mem_singleton.mp hm'
      exact ⟨hw, fun ha => by rw [hm] at ha; cases ha⟩
  · simp [hc.out, query?_of_not_awaited (Bool.eq_false_iff.mp hm)]

/-- While the request is under way, the main thread has none. -/
theorem of_transit (hc : x.Carried w done due held out) {q : Query} {transit : List (SchedulerMessage W)}
    (htr : x.transit = q.message w :: transit) :
    held = none ∧ out = some q ∧ transit.filterMap SchedulerMessage.query? = [] := by
  have hout := hc.out
  rw [htr, List.filterMap_cons_some (query?_message q)] at hout
  cases held <;> cases out <;> simp_all

/-- The main thread receives a message. -/
theorem receive (hc : x.Carried w done due held out) {m : SchedulerMessage W} {transit : List (SchedulerMessage W)}
    (htr : x.transit = m :: transit) :
    ∃ held', Carried w
      { x with
        host := { x.host with mailbox := x.host.mailbox ++ [m], log := x.host.log ++ [.posted m] }
        transit } done due held' out := by
  obtain ⟨hw, hawaited⟩ := hc.transit m (htr ▸ List.mem_cons_self ..)
  have htransit : ∀ m' ∈ transit, m'.worker = w ∧ (m'.isAwaited → ∃ q : Query, m' = q.message w) :=
    fun m' hm' => hc.transit m' (htr ▸ List.mem_cons_of_mem _ hm')
  by_cases ha : m.isAwaited
  · obtain ⟨q, rfl⟩ := hawaited ha
    obtain ⟨rfl, rfl, hrest⟩ := hc.of_transit htr
    refine ⟨some q, { hc with transit := htransit, holds := hc.holds.request, out := ?_, queries := ?_, replies := ?_ }⟩
    · simp [hrest]
    · simp [hc.queries, Entry.query?, hw]
    · simp [hc.replies, Entry.effects]
  · have hnone := query?_of_not_awaited ha
    have hout := hc.out
    rw [htr, List.filterMap_cons_none hnone] at hout
    refine ⟨held, { hc with
      transit := htransit, holds := hc.holds.post fun hm => ha hm.2, out := hout, queries := ?_, replies := ?_ }⟩
    · simp [hc.queries, Entry.query?, hnone]
    · simp [hc.replies, Entry.effects]

/-- The worker has a response. -/
theorem respond (hc : x.Carried w done due held out) {buffer : Buffer} {r : Response}
    (ha : x.pc.access x.buffer = some (buffer, .inl r)) :
    ∃ done', Carried w { x with buffer, pc := .idle, responses := x.responses ++ [r] } done' none held none := by
  obtain ⟨p, rfl, rfl, hreply, hstage⟩ := hc.stage.access ha
  refine ⟨done ++ [p], { hc with
    stage := hstage
    queries := ?_
    replies := ?_
    answered := ?_
    read := List.rel_append hc.read (.cons hreply .nil) }⟩
  · simpa using hc.queries
  · simpa using hc.replies
  · simpa using hc.answered

/-- Anything else that the main thread does. -/
theorem host (hc : x.Carried w done due held out) {e : HostExec.Event W F} {h : State W F} (ho : x.answering = [])
    (he : e.isPostOf w = false) (hs : HostExec.step parse x.host e = some h) :
    ∃ due' held' out',
      Carried w { x with host := h, answering := storesSince w x.host.log h.log } done due' held' out' := by
  have hown := hc.own.step hs
  obtain ⟨hqueries, ⟨hholds, hreplies, hstores⟩ | ⟨q, a, rfl, hholds, hans, hreplies, hstores⟩⟩ :=
    hc.holds.step hc.own hs he
  · refine ⟨due, held, out, { hc with own := hown, holds := hholds, stage := ?_, queries := ?_, replies := ?_ }⟩
    · simpa [hstores, ho] using hc.stage
    · rw [hqueries, hc.queries]
    · rw [hreplies, hc.replies]
  · -- The request is answered.
    have hout := hc.out
    obtain ⟨rfl, hrest⟩ : out = some q ∧ x.transit.filterMap SchedulerMessage.query? = [] := by
      cases out <;> simp_all
    have hstage := hc.stage
    rw [ho] at hstage
    obtain ⟨rfl, hanswered⟩ := hstage.answered
    refine ⟨some (q, a), none, none, { hc with
      own := hown, holds := hholds, stage := ?_, out := ?_, queries := ?_, replies := ?_, answered := ?_ }⟩
    · exact hstores ▸ hanswered a hans
    · exact hrest.symm
    · simpa [hqueries] using hc.queries
    · simpa [hreplies] using hc.replies
    · intro p hp
      rcases List.mem_append.mp hp with hp | hp
      · exact hc.answered p (by simpa using hp)
      · obtain rfl := List.mem_singleton.mp hp
        exact hans

theorem step (hc : x.Carried w done due held out) {e : Exchange.Event W F} (hh : x.Heard e)
    (hs : Exchange.step parse w x e = some x') : ∃ done' due' held' out', x'.Carried w done' due' held' out' := by
  cases e with
  | request q =>
    simp only [Exchange.step] at hs
    split at hs <;> cases hs
    exact ⟨_, _, _, _, hc.request ‹_› q⟩
  | emit m =>
    simp only [Exchange.step] at hs
    split at hs <;> cases hs
    obtain ⟨-, hw, hm⟩ := ‹_ ∧ _›
    exact ⟨_, _, _, _, hc.emit hw hm⟩
  | access =>
    simp only [Exchange.step] at hs
    split at hs <;> cases hs
    · exact ⟨_, _, _, _, { hc with stage := hc.stage.access ‹_› }⟩
    · obtain ⟨done', hc'⟩ := hc.respond ‹_›
      exact ⟨_, _, _, _, hc'⟩
  | receive =>
    simp only [Exchange.step] at hs
    split at hs
    · obtain ⟨h, hpost, rfl⟩ := Option.map_eq_some_iff.mp hs
      obtain ⟨-, rfl⟩ := step_post_inv hpost
      obtain ⟨held', hc'⟩ := hc.receive ‹_›
      exact ⟨_, _, _, _, hc'⟩
    · cases hs
  | answer =>
    simp only [Exchange.step] at hs
    split at hs
    · cases hs
    · rename_i op ops hans
      cases hs
      have hstage := hc.stage
      rw [hans] at hstage
      exact ⟨_, _, _, _, { hc with stage := hstage.answer (hh op (by rw [hans]; rfl)) }⟩
  | host e =>
    simp only [Exchange.step] at hs
    split at hs
    · obtain ⟨h, hstep, rfl⟩ := Option.map_eq_some_iff.mp hs
      obtain ⟨ho, he⟩ := ‹_ ∧ _›
      obtain ⟨due', held', out', hc'⟩ := hc.host ho he hstep
      exact ⟨_, _, _, _, hc'⟩
    · cases hs

end Carried

theorem carried (hr : ReachVia (Exchange.step parse w) Heard (.init .init) x) :
    ∃ done due held out, x.Carried w done due held out :=
  hr.invariant (I := fun x => ∃ done due held out, x.Carried w done due held out) ⟨_, _, _, _, carried_init⟩
    fun ⟨_, _, _, _, hc⟩ hh hs => hc.step hh hs

/-- Each response of the worker is what it makes of one answer, stored whole, and these are the answers that the
    scheduler gave to its requests, in the order of the requests, none left out and none twice. At most the last request
    has no answer yet, and at most the last answer no response. -/
theorem answers_arrive (hr : ReachVia (Exchange.step parse w) Heard (.init .init) x) :
    ∃ answered : List (Query × Effect W F),
      List.Forall₂ (Reply w) answered x.responses ∧ (∀ p ∈ answered, p.1.AnsweredBy w p.2) ∧
        answered.map Prod.fst <+: queriesOf w x.host.log ∧ answered.map Prod.snd <+: repliesTo w x.host.log ∧
          (queriesOf w x.host.log).length ≤ answered.length + 1 ∧
            (repliesTo w x.host.log).length ≤ answered.length + 1 := by
  obtain ⟨done, due, held, out, hc⟩ := carried hr
  refine ⟨done, hc.read, fun p hp => hc.answered p (List.mem_append_left _ hp), ?_, ?_, ?_, ?_⟩
  · rw [hc.queries, List.map_append, List.append_assoc]
    exact List.prefix_append _ _
  · rw [hc.replies, List.map_append]
    exact List.prefix_append _ _
  · have hone := hc.stage.one
    have hout := congrArg List.length hc.out
    have hqueries := congrArg List.length hc.queries
    simp only [List.length_append, List.length_map] at hout hqueries
    omega
  · have hone := hc.stage.one
    have hreplies := congrArg List.length hc.replies
    simp only [List.length_append, List.length_map] at hreplies
    omega

/-- A worker polls, and then reads what comes after it has gone to sleep. -/
theorem answers_arrive_polled :
    let parse : Bytes → Except String Unit := fun _ => .ok ()
    ∃ x : Exchange Nat Nat, ReachVia (Exchange.step parse 0) Heard (.init .init) x ∧
      x.responses = [.ready false, .output (.stdout [5])] ∧
      ∃ answered : List (Query × Effect Nat Nat), List.Forall₂ (Reply 0) answered x.responses ∧
        answered.map Prod.fst <+: [.hostExecPoll 7, .hostExecRead 7] := by
  intro parse
  obtain ⟨x, hr, hx, hq⟩ : ∃ x, ReachVia (Exchange.step parse 0) Heard (.init (.init : State Nat Nat)) x ∧
      x.responses = [.ready false, .output (.stdout [5])] ∧
      queriesOf 0 x.host.log = [.hostExecPoll 7, .hostExecRead 7] :=
    exists_reachVia
      [.host (.setHandler true), .emit (.hostExecStart 0 7 []), .receive,
        .host (.process (.hostExecStart 0 7 []) .promise), .request (.hostExecPoll 7), .access, .receive,
        .host (.process (.hostExecPoll 0 7) .promise), .answer, .answer, .answer, .access, .access,
        .request (.hostExecRead 7), .access, .access, .receive,
        .host (.process (.hostExecRead 0 7) .promise), .host (.callback 0 7 (.onStdout [5])),
        .host (.process (.hostExecReadComplete 0 7 MSG_TYPE_STDOUT [5]) .promise),
        .answer, .answer, .answer, .answer, .answer, .answer, .access, .access, .access, .access]
      _ (by decide) (by decide)
  obtain ⟨answered, hread, -, hqueries, -⟩ := answers_arrive hr
  exact ⟨x, hr, hx, answered, hread, hq ▸ hqueries⟩

end Exchange

end HostExec
end WasmerJs
