import WasmerJs.Lib.Transition

/-! The ends of the pipes in the pool, on all workers (`src/pipes/mod.rs`, `src/pipes/pool.rs`). The header of a pipe
    counts its transmit ends: a `SharedPipeTx` that is made for an existing pipe adds one, and each one that is dropped
    takes one away. A `SharedPipe` that is made for an existing pipe has a transmit end too, but adds nothing. -/

namespace WasmerJs
namespace Pipe

open Transition

def HEADER_SIZE : Nat := 20
def DEFAULT_PIPE_BUFFER_SIZE : Nat := 65536
def PIPE_POOL_SIZE : Nat := 16 * 1024 * 1024
def POOL_HEADER_SIZE : Nat := 4

/-- Where a `SharedPipeTx` or a `SharedPipeRx` finds its pipe. -/
structure End where
  poolOffset : Nat
  bufferSize : Nat
  deriving DecidableEq

/-- A value that holds ends of pipes: a `SharedPipeTx`, a `SharedPipeRx` or a `SharedPipe`. -/
inductive Handle where
  | tx (e : End)
  | rx (e : End)
  | pipe (tx rx : End)
  deriving DecidableEq

/-- The pipe of the transmit end that a value holds. -/
def Handle.txOffset? : Handle → Option Nat
  | tx e | pipe e _ => some e.poolOffset
  | rx _ => none

@[simp] theorem Handle.tx_txOffset? {e : End} : (tx e).txOffset? = some e.poolOffset := rfl

@[simp] theorem Handle.rx_txOffset? {e : End} : (rx e).txOffset? = none := rfl

@[simp] theorem Handle.pipe_txOffset? {e e' : End} : (pipe e e').txOffset? = some e.poolOffset := rfl

/-- The words `TX_COUNT` and `CLOSED` of a pipe's header. -/
structure Header where
  txCount : Int
  closed : Bool
  deriving DecidableEq

/-- What `Drop for SharedPipeTx` has done: `closes` when it goes on to close the pipe, and how many other transmit ends
    of the pipe there were. -/
structure Dropped where
  poolOffset : Nat
  closes : Bool
  remaining : Nat
  deriving DecidableEq

/-- The pool, and the values on all workers that refer to it. -/
structure Pool where
  -- The first word of the pool: where the next pipe goes.
  nextOffset : Nat
  headers : Nat → Option Header
  handles : List Handle
  -- Pipes that a drop has yet to close.
  closing : List Nat
  drops : List Dropped

namespace Pool

/-- `create_pipe_pool` -/
def init : Pool :=
  { nextOffset := POOL_HEADER_SIZE, headers := fun _ => none, handles := [], closing := [], drops := [] }

/-- The number of `SharedPipeTx` values that refer to a pipe. -/
def live (s : Pool) (o : Nat) : Nat := s.handles.countP (·.txOffset? = some o)

inductive Event where
  | withCapacity (size : Nat)
  | split (tx rx : End)
  | combine (tx rx : End)
  -- `SharedPipeTx::from_pool_offset`, `SharedPipeRx::from_pool_offset` and `SharedPipe::from_pool_offset`
  | txFromPoolOffset (e : End)
  | rxFromPoolOffset (e : End)
  | pipeFromPoolOffset (e : End)
  | drop (h : Handle)
  -- The last access of a drop that has found itself to be the last one.
  | storeClosed (poolOffset : Nat)
  deriving DecidableEq

/-- `Atomics::add` and `Atomics::sub` on `TX_COUNT`. -/
def addTxCount (s : Pool) (o : Nat) (h : Header) (n : Int) : Nat → Option Header :=
  Function.update s.headers o (some { h with txCount := h.txCount + n })

/-- The steps on all workers, each of which makes at most one access to a header. Offsets are those of pipes that were
    allocated. -/
def step (s : Pool) : Event → Option Pool
  | .withCapacity size =>
    if HEADER_SIZE ≤ size ∧ s.nextOffset + size ≤ PIPE_POOL_SIZE then
      let e : End := { poolOffset := s.nextOffset, bufferSize := size }
      some { s with
        nextOffset := s.nextOffset + size
        headers := Function.update s.headers s.nextOffset (some { txCount := 1, closed := false })
        handles := .pipe e e :: s.handles }
    else none
  | .split tx rx =>
    if .pipe tx rx ∈ s.handles then
      some { s with handles := .tx tx :: .rx rx :: s.handles.erase (.pipe tx rx) }
    else none
  | .combine tx rx =>
    if .tx tx ∈ s.handles ∧ .rx rx ∈ s.handles then
      some { s with handles := .pipe tx rx :: (s.handles.erase (.tx tx)).erase (.rx rx) }
    else none
  | .txFromPoolOffset e =>
    (s.headers e.poolOffset).map fun h =>
      { s with headers := s.addTxCount e.poolOffset h 1, handles := .tx e :: s.handles }
  | .rxFromPoolOffset e => (s.headers e.poolOffset).map fun _ => { s with handles := .rx e :: s.handles }
  | .pipeFromPoolOffset e => (s.headers e.poolOffset).map fun _ => { s with handles := .pipe e e :: s.handles }
  | .drop handle =>
    if handle ∈ s.handles then
      let s := { s with handles := s.handles.erase handle }
      match handle.txOffset? with
      | some o =>
        (s.headers o).map fun h =>
          let closes := decide (h.txCount = 1)
          { s with
            headers := s.addTxCount o h (-1)
            closing := if closes then o :: s.closing else s.closing
            drops := s.drops ++ [{ poolOffset := o, closes, remaining := s.live o }] }
      | none => some s
    else none
  | .storeClosed o =>
    if o ∈ s.closing then
      (s.headers o).map fun h =>
        { s with headers := Function.update s.headers o (some { h with closed := true }), closing := s.closing.erase o }
    else none

/-! ### The pipes of a subprocess -/

end Pool

/-- The three pipes of `SharedStdioPipes`; `tx` and `rx` of each are the same place. -/
structure SharedStdioPipes where
  stdin : End
  stdout : End
  stderr : End

namespace SharedStdioPipes

open Pool

/-- `parent_handles`; what is not returned is dropped at the end, the last one first. -/
def parentHandles (p : SharedStdioPipes) : List Event :=
  [.split p.stdin p.stdin, .split p.stdout p.stdout, .split p.stderr p.stderr,
    .drop (.tx p.stderr), .drop (.tx p.stdout), .drop (.rx p.stdin)]

def childFromOffsets (p : SharedStdioPipes) : List Event :=
  [.pipeFromPoolOffset p.stdin, .pipeFromPoolOffset p.stdout, .pipeFromPoolOffset p.stderr]

def childHandles (p : SharedStdioPipes) : List Event :=
  [.split p.stdin p.stdin, .split p.stdout p.stdout, .split p.stderr p.stderr,
    .drop (.rx p.stderr), .drop (.rx p.stdout), .drop (.tx p.stdin)]

end SharedStdioPipes

namespace Pool

/-! ### Counting -/

/-- `TX_COUNT` is the number of transmit ends, a drop closes the pipe if there is no other end, and a pipe is closed,
    or about to be, when a drop has done that. -/
structure Counted (s : Pool) : Prop where
  count : ∀ {o h}, s.headers o = some h → h.txCount = s.live o
  last : ∀ {d}, d ∈ s.drops → (d.closes ↔ d.remaining = 0)
  closed : ∀ {o h}, s.headers o = some h →
    (h.closed ∨ o ∈ s.closing ↔ ∃ d ∈ s.drops, d.poolOffset = o ∧ d.closes)

/-- The values that are made for a pipe are the ones that count themselves. -/
def Event.Counts : Event → Prop
  | .pipeFromPoolOffset _ => False
  | _ => True

instance : DecidablePred Event.Counts
  | .pipeFromPoolOffset _ => inferInstanceAs (Decidable False)
  | .withCapacity _ | .split .. | .combine .. | .txFromPoolOffset _ | .rxFromPoolOffset _ | .drop _ | .storeClosed _ =>
    inferInstanceAs (Decidable True)

variable {s t : Pool} {e : Event} {o : Nat}

/-! ### What a step does -/

/-- A step, as far as headers and the numbers of transmit ends go. -/
inductive PoolStep (s t : Pool) : Event → Prop where
  -- Ends are passed on, or it is about a receive end.
  | moved {e : Event} (hc : e.Counts) (hn : t.nextOffset = s.nextOffset) (hh : t.headers = s.headers)
      (hl : ∀ o, t.live o = s.live o) (hcl : t.closing = s.closing) (hd : t.drops = s.drops) : PoolStep s t e
  | made {size} (hsize : 0 < size) (hn : t.nextOffset = s.nextOffset + size)
      (hh : t.headers = Function.update s.headers s.nextOffset (some { txCount := 1, closed := false }))
      (hl : ∀ o, t.live o = s.live o + if s.nextOffset = o then 1 else 0) (hcl : t.closing = s.closing)
      (hd : t.drops = s.drops) : PoolStep s t (.withCapacity size)
  | added {e : End} {h : Header} (ho : s.headers e.poolOffset = some h) (hn : t.nextOffset = s.nextOffset)
      (hh : t.headers = s.addTxCount e.poolOffset h 1)
      (hl : ∀ o, t.live o = s.live o + if e.poolOffset = o then 1 else 0) (hcl : t.closing = s.closing)
      (hd : t.drops = s.drops) : PoolStep s t (.txFromPoolOffset e)
  | uncounted {e : End} {h : Header} (ho : s.headers e.poolOffset = some h) (hh : t.headers = s.headers)
      (hl : ∀ o, t.live o = s.live o + if e.poolOffset = o then 1 else 0) : PoolStep s t (.pipeFromPoolOffset e)
  | dropped {x p h} (ho : s.headers p = some h) (hn : t.nextOffset = s.nextOffset)
      (hh : t.headers = s.addTxCount p h (-1)) (hl : ∀ o, s.live o = t.live o + if p = o then 1 else 0)
      (hcl : t.closing = if h.txCount = 1 then p :: s.closing else s.closing)
      (hd : t.drops = s.drops ++ [{ poolOffset := p, closes := decide (h.txCount = 1), remaining := t.live p }]) :
      PoolStep s t (.drop x)
  | closed {p h} (hp : p ∈ s.closing) (ho : s.headers p = some h) (hn : t.nextOffset = s.nextOffset)
      (hh : t.headers = Function.update s.headers p (some { h with closed := true })) (hl : ∀ o, t.live o = s.live o)
      (hcl : t.closing = s.closing.erase p) (hd : t.drops = s.drops) : PoolStep s t (.storeClosed p)

theorem countP_erase {x : Handle} {handles : List Handle} (hx : x ∈ handles) :
    handles.countP (·.txOffset? = some o) =
      (handles.erase x).countP (·.txOffset? = some o) + if x.txOffset? = some o then 1 else 0 := by
  rw [(List.perm_cons_erase hx).countP_eq]
  simp [List.countP_cons]

theorem step_inv (hs : s.step e = some t) : PoolStep s t e := by
  cases e with
  | withCapacity size =>
    simp only [step] at hs
    split at hs
    · rename_i hsize
      cases hs
      have hpos : 0 < size := Nat.lt_of_lt_of_le (by decide) hsize.1
      exact .made hpos rfl rfl (fun o => by simp [live, List.countP_cons]) rfl rfl
    · cases hs
  | split tx rx =>
    simp only [step] at hs
    split at hs
    · rename_i hmem
      cases hs
      refine .moved trivial rfl rfl (fun o => ?_) rfl rfl
      simp [live, List.countP_cons, countP_erase (o := o) hmem]
    · cases hs
  | combine tx rx =>
    simp only [step] at hs
    split at hs
    · rename_i hmem
      cases hs
      have hrx : .rx rx ∈ s.handles.erase (.tx tx) := (List.mem_erase_of_ne (by simp)).mpr hmem.2
      refine .moved trivial rfl rfl (fun o => ?_) rfl rfl
      simp [live, List.countP_cons, countP_erase (o := o) hmem.1, countP_erase (o := o) hrx]
    · cases hs
  | txFromPoolOffset e =>
    obtain ⟨h, ho, rfl⟩ := Option.map_eq_some_iff.mp hs
    exact .added ho rfl rfl (fun o => by simp [live, List.countP_cons]) rfl rfl
  | rxFromPoolOffset e =>
    obtain ⟨h, ho, rfl⟩ := Option.map_eq_some_iff.mp hs
    exact .moved trivial rfl rfl (fun o => by simp [live]) rfl rfl
  | pipeFromPoolOffset e =>
    obtain ⟨h, ho, rfl⟩ := Option.map_eq_some_iff.mp hs
    exact .uncounted ho rfl fun o => by simp [live, List.countP_cons]
  | drop x =>
    simp only [step] at hs
    split at hs
    · rename_i hmem
      cases hx : x.txOffset? with
      | none =>
        simp only [hx, Option.some.injEq] at hs
        subst hs
        exact .moved trivial rfl rfl (fun o => by simp [live, countP_erase hmem, hx]) rfl rfl
      | some p =>
        simp only [hx] at hs
        obtain ⟨h, ho, rfl⟩ := Option.map_eq_some_iff.mp hs
        exact .dropped ho rfl rfl (fun o => by simp [live, countP_erase hmem, hx]) (by simp) rfl
    · cases hs
  | storeClosed p =>
    simp only [step] at hs
    split at hs
    · obtain ⟨h, ho, rfl⟩ := Option.map_eq_some_iff.mp hs
      exact .closed ‹_› ho rfl rfl (fun o => rfl) rfl rfl
    · cases hs

/-! ### The invariant -/

/-- Everything that is there refers to a pipe that was allocated. -/
structure Allocated (s : Pool) : Prop where
  header : ∀ {o}, (s.headers o).isSome → o < s.nextOffset
  live : ∀ {o}, 0 < s.live o → (s.headers o).isSome
  closing : ∀ {o}, o ∈ s.closing → (s.headers o).isSome
  drops : ∀ {d}, d ∈ s.drops → (s.headers d.poolOffset).isSome

theorem Allocated.next (hs : s.Allocated) : ¬ (s.headers s.nextOffset).isSome :=
  fun ho => Nat.lt_irrefl _ (hs.header ho)

theorem update_inv {headers : Nat → Option Header} {p : Nat} {h h' : Header}
    (ho : Function.update headers p (some h) o = some h') : o = p ∧ h' = h ∨ o ≠ p ∧ headers o = some h' := by
  by_cases hne : o = p
  · subst hne
    rw [Function.update_self] at ho
    exact .inl ⟨rfl, (Option.some.inj ho).symm⟩
  · rw [Function.update_of_ne hne] at ho
    exact .inr ⟨hne, ho⟩

theorem isSome_update {headers : Nat → Option Header} {p : Nat} {h : Header} :
    (Function.update headers p (some h) o).isSome ↔ o = p ∨ (headers o).isSome := by
  by_cases ho : o = p
  · simp [ho]
  · simp [ho]

structure Inv (s : Pool) : Prop where
  allocated : s.Allocated
  counted : s.Counted

theorem Inv.init : Pool.init.Inv where
  allocated := ⟨by simp [Pool.init], by simp [Pool.init, live], by simp [Pool.init], by simp [Pool.init]⟩
  counted := ⟨by simp [Pool.init], by simp [Pool.init], by simp [Pool.init]⟩

/-- One header is written, and nothing else is referred to than before. -/
theorem Allocated.write {p : Nat} {h : Header} (ha : s.Allocated) (hp : p < t.nextOffset)
    (hn : s.nextOffset ≤ t.nextOffset) (hh : t.headers = Function.update s.headers p (some h))
    (hl : ∀ o, 0 < t.live o → o = p ∨ 0 < s.live o) (hcl : ∀ o ∈ t.closing, o = p ∨ o ∈ s.closing)
    (hd : ∀ d ∈ t.drops, d.poolOffset = p ∨ d ∈ s.drops) : t.Allocated where
  header ho := by
    rw [hh, isSome_update] at ho
    rcases ho with rfl | ho
    · exact hp
    · exact Nat.lt_of_lt_of_le (ha.header ho) hn
  live ho := by
    rw [hh, isSome_update]
    exact (hl _ ho).imp_right ha.live
  closing ho := by
    rw [hh, isSome_update]
    exact (hcl _ ho).imp_right ha.closing
  drops hd' := by
    rw [hh, isSome_update]
    exact (hd _ hd').imp_right ha.drops

theorem Allocated.step (ha : s.Allocated) (hc : e.Counts) (hs : PoolStep s t e) : t.Allocated := by
  cases hs with
  | moved hc hn hh hl hcl hd =>
    obtain ⟨hheader, hlive, hclosing, hdrops⟩ := ha
    exact ⟨by rwa [hh, hn], by simpa only [hh, hl], by rwa [hh, hcl], by rwa [hh, hd]⟩
  | made hsize hn hh hl hcl hd =>
    refine ha.write (by omega) (by omega) hh (fun o ho => ?_) (fun o ho => .inr (hcl ▸ ho)) fun d hd' => .inr (hd ▸ hd')
    by_cases hne : s.nextOffset = o
    · exact .inl hne.symm
    · exact .inr (by simpa [hl, hne] using ho)
  | @added x h ho hn hh hl hcl hd =>
    have hp : x.poolOffset < t.nextOffset := hn ▸ ha.header (Option.isSome_iff_exists.mpr ⟨h, ho⟩)
    refine ha.write hp hn.ge hh (fun o ho => ?_) (fun o ho => .inr (hcl ▸ ho)) fun d hd' => .inr (hd ▸ hd')
    by_cases hne : x.poolOffset = o
    · exact .inl hne.symm
    · exact .inr (by simpa [hl, hne] using ho)
  | uncounted => cases hc
  | @dropped x p h ho hn hh hl hcl hd =>
    have hp : p < t.nextOffset := hn ▸ ha.header (Option.isSome_iff_exists.mpr ⟨h, ho⟩)
    refine ha.write hp hn.ge hh (fun o ho => ?_) (fun o ho => ?_) fun d hd' => ?_
    · have := hl o
      exact .inr (by omega)
    · rw [hcl] at ho
      split at ho
      · exact List.mem_cons.mp ho
      · exact .inr ho
    · rw [hd] at hd'
      rcases List.mem_append.mp hd' with hd' | hd'
      · exact .inr hd'
      · obtain rfl := List.mem_singleton.mp hd'
        exact .inl rfl
  | @closed p h hp ho hn hh hl hcl hd =>
    have hlt : p < t.nextOffset := hn ▸ ha.header (ha.closing hp)
    refine ha.write hlt hn.ge hh (fun o ho => ?_) (fun o ho => ?_) fun d hd' => .inr (hd ▸ hd')
    · exact .inr (hl o ▸ ho)
    · exact .inr (List.mem_of_mem_erase (hcl ▸ ho))

theorem Counted.step (ha : s.Allocated) (hi : s.Counted) (hc : e.Counts) (hs : PoolStep s t e) : t.Counted := by
  obtain ⟨hcount, hlast, hclosed⟩ := hi
  cases hs with
  | moved hc hn hh hl hcl hd => exact ⟨by simpa only [hh, hl], by rwa [hd], by simpa only [hh, hcl, hd]⟩
  | made hsize hn hh hl hcl hd =>
    refine ⟨fun {o h'} ho => ?_, by rwa [hd], fun {o h'} ho => ?_⟩
    · rw [hh] at ho
      rw [hl]
      rcases update_inv ho with ⟨rfl, rfl⟩ | ⟨hne, ho⟩
      · have hzero : s.live s.nextOffset = 0 := by
          by_contra hpos
          exact ha.next (ha.live (Nat.pos_of_ne_zero hpos))
        simp [hzero]
      · rw [if_neg hne.symm, hcount ho]
        rfl
    · rw [hh] at ho
      rw [hcl, hd]
      rcases update_inv ho with ⟨rfl, rfl⟩ | ⟨hne, ho⟩
      · refine ⟨?_, ?_⟩
        · rintro (hfalse | hmem)
          · cases hfalse
          · exact absurd (ha.closing hmem) ha.next
        · rintro ⟨d, hd', hnext, -⟩
          exact absurd (hnext ▸ ha.drops hd') ha.next
      · exact hclosed ho
  | @added x h hx hn hh hl hcl hd =>
    refine ⟨fun {o h'} ho => ?_, by rwa [hd], fun {o h'} ho => ?_⟩
    · rw [hh] at ho
      rw [hl]
      rcases update_inv ho with ⟨rfl, rfl⟩ | ⟨hne, ho⟩
      · simp [hcount hx]
      · simp [hcount ho, Ne.symm hne]
    · rw [hh] at ho
      rw [hcl, hd]
      rcases update_inv ho with ⟨rfl, rfl⟩ | ⟨-, ho⟩
      · exact (hclosed hx :)
      · exact hclosed ho
  | uncounted => cases hc
  | @dropped x p h hp hn hh hl hcl hd =>
    have hbefore : h.txCount = t.live p + 1 := by
      rw [hcount hp, hl, if_pos rfl]
      rfl
    refine ⟨fun {o h'} ho => ?_, fun {d} hd' => ?_, fun {o h'} ho => ?_⟩
    · rw [hh] at ho
      rcases update_inv ho with ⟨rfl, rfl⟩ | ⟨hne, ho⟩
      · simp [hbefore]
      · rw [hcount ho, hl, if_neg hne.symm]
        rfl
    · rw [hd] at hd'
      rcases List.mem_append.mp hd' with hd' | hd'
      · exact hlast hd'
      · obtain rfl := List.mem_singleton.mp hd'
        simp only [decide_eq_true_eq, hbefore]
        omega
    · rw [hh] at ho
      rw [hcl, hd]
      simp only [List.mem_append, List.mem_singleton, or_and_right, exists_or, exists_eq_left, decide_eq_true_eq]
      rcases update_inv ho with ⟨rfl, rfl⟩ | ⟨hne, ho⟩
      · rw [← hclosed hp]
        split <;> rename_i hone <;> simp [hone]
      · rw [← hclosed ho]
        split <;> simp [hne, Ne.symm hne]
  | @closed p h hp ho' hn hh hl hcl hd =>
    refine ⟨fun {o h'} ho => ?_, by rwa [hd], fun {o h'} ho => ?_⟩
    · rw [hh] at ho
      rw [hl]
      rcases update_inv ho with ⟨rfl, rfl⟩ | ⟨-, ho⟩
      · exact (hcount ho' :)
      · exact hcount ho
    · rw [hh] at ho
      rw [hcl, hd]
      rcases update_inv ho with ⟨rfl, rfl⟩ | ⟨hne, ho⟩
      · rw [← hclosed ho']
        simp [hp]
      · rw [← hclosed ho, List.mem_erase_of_ne hne]

theorem Inv.step (hi : s.Inv) (hc : e.Counts) (hs : s.step e = some t) : t.Inv :=
  ⟨hi.allocated.step hc (step_inv hs), hi.counted.step hi.allocated hc (step_inv hs)⟩

/-- A `SharedPipe` that is made for an existing pipe makes the count too low. -/
theorem not_counted (hi : s.Inv) (hc : ¬ e.Counts) (hs : s.step e = some t) : ¬ t.Counted := by
  intro ht
  cases step_inv hs with
  | moved hc' => exact hc hc'
  | uncounted ho hh hl =>
    have hbefore := hi.counted.count ho
    have hafter := ht.count (hh ▸ ho)
    rw [hl, if_pos rfl] at hafter
    omega
  | made | added | dropped | closed => exact hc trivial

/-! ### Histories -/

/-- Over a history on all workers, the counts are right and each drop closes its pipe if it is the last one, exactly as
    long as no `SharedPipe` is made for an existing pipe. -/
theorem counted_iff {es : List Event} (hr : run Pool.step Pool.init es = some s) :
    RunAll Pool.step Counted Pool.init es ↔ ∀ e ∈ es, e.Counts := by
  have hiff : RunAll Pool.step Counted Pool.init es ↔ RunOk Pool.step (fun _ e => e.Counts) Pool.init es :=
    runAll_iff_runOk (I := Inv) Inv.counted (fun hi hc hs => hi.step hc hs) (fun hi hc hs => not_counted hi hc hs)
      .init hr
  exact hiff.trans (runOk_iff_forall hr)

/-- A pipe is made, one of its ends is made anew on another worker, and both are dropped. -/
theorem counted_two_ends :
    let e : End := { poolOffset := 4, bufferSize := DEFAULT_PIPE_BUFFER_SIZE }
    let es : List Event := [.withCapacity DEFAULT_PIPE_BUFFER_SIZE, .split e e, .txFromPoolOffset e, .drop (.tx e),
      .drop (.tx e), .storeClosed 4, .drop (.rx e)]
    (run Pool.step Pool.init es).isSome ∧ RunAll Pool.step Counted Pool.init es := by
  intro e es
  obtain ⟨s, hs⟩ := Option.isSome_iff_exists.mp (by decide : (run Pool.step Pool.init es).isSome = true)
  exact ⟨by simp [hs], (counted_iff hs).mpr (by decide)⟩

/-- The parent has taken its handles, and the child has made its own: the child's end of the output is the only one,
    and its pipe is closed. -/
theorem child_output_closed : ¬ ∀ s, Reach Pool.step Pool.init s → s.Counted := by
  intro hall
  obtain ⟨s, hr, hlive, hhead⟩ : ∃ s, Reach Pool.step Pool.init s ∧ s.live 65540 = 1 ∧
      s.headers 65540 = some { txCount := 0, closed := true } :=
    exists_reach
      (let p : SharedStdioPipes := ⟨⟨4, 65536⟩, ⟨65540, 65536⟩, ⟨131076, 65536⟩⟩
      List.flatten [
        [.withCapacity 65536, .withCapacity 65536, .withCapacity 65536],
        p.childFromOffsets, p.parentHandles, [.storeClosed 65540, .storeClosed 131076], p.childHandles])
      _ (by decide)
  have hcount := (hall s hr).count hhead
  rw [hlive] at hcount
  exact absurd hcount (by decide)

end Pool
end Pipe
end WasmerJs
