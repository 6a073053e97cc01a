import WasmerJs.Lib.Entries
import WasmerJs.Pipe.Ends
import WasmerJs.Pipe.Steps

/-! The pipes of a forked process (`src/pipes/extract.rs`, `src/tasks/task_wasm.rs`). The file descriptors that lead to
    pipes are listed for the worker that will run the process, and this worker makes new handles for them. Each of
    them replaces a handle for the same pipe, which is dropped. -/

namespace WasmerJs
namespace Pipe

abbrev WasiFd := Nat

/-- What a `Box<dyn VirtualFile>` holds. The files that are no ends of pipes are told apart by a number. -/
inductive VirtualFile where
  | sharedPipeTx (e : End)
  | sharedPipeRx (e : End)
  | other (file : Nat)
  deriving DecidableEq

/-- A box, and where it is. -/
structure FileBox where
  address : Nat
  file : VirtualFile
  deriving DecidableEq

/-- The kind of an inode; those that are no pipes are told apart by a number. -/
inductive Kind where
  | virtualPipeTx (tx : FileBox)
  | virtualPipeRx (rx : FileBox)
  | other (kind : Nat)
  deriving DecidableEq

/-- The file descriptors of an environment and its inodes `I`, which several descriptors can share. -/
structure WasiEnv (I : Type) where
  fdMap : List (WasiFd × I)
  nodup : (fdMap.map Prod.fst).Nodup
  inodes : I → Kind

/-- `is_tx`, `pool_offset` and `buffer_size`. -/
abbrev PipeBuffer := Bool × Nat × Nat

/-- `PipeBufferMap::buffers` -/
abbrev PipeBufferMap := WasiFd → Option PipeBuffer

/-! ### Extracting -/

/-- The pipe that `extract_pipe_buffers` finds in an inode. -/
def Kind.buffer? : Kind → Option PipeBuffer
  | virtualPipeTx { file := .sharedPipeTx e, .. } => some (true, e.poolOffset, e.bufferSize)
  | virtualPipeRx { file := .sharedPipeRx e, .. } => some (false, e.poolOffset, e.bufferSize)
  | virtualPipeTx _ | virtualPipeRx _ | other _ => none

variable {I : Type}

def extractPipeBuffers (env : WasiEnv I) : PipeBufferMap :=
  env.fdMap.foldl
    (fun buffers (fd, inode) =>
      match (env.inodes inode).buffer? with
      | some buffer => Function.update buffers fd (some buffer)
      | none => buffers)
    Entries.empty

/-- `fork_pipes` in `to_scheduler_message`, from the entries of the map as `into_vec` gives them. -/
def forkPipes (buffers : List (WasiFd × PipeBuffer)) : Option (List (WasiFd × PipeBuffer)) :=
  if buffers.isEmpty then none else some buffers

/-! ### Reconnecting -/

/-- The inodes, the pipes in the pool, and what the pool was after each access to it. -/
structure Reconnect (I : Type) where
  inodes : I → Kind
  nextAddress : Nat
  pool : Nat → Memory
  trace : List (Nat → Memory)

/-- The memory after each access of a call of a transmit end; `drop` and `from_pool_offset` make at most three. -/
def TxPc.trace (C : Nat) : Nat → Memory → TxPc → List Memory
  | 0, _, _ => []
  | n + 1, m, pc =>
    match pc.access C m with
    | some (m, pc, _) => m :: trace C n m pc
    | none => []

namespace Reconnect

/-- A call of a transmit end on its pipe. -/
def call (s : Reconnect I) (e : End) (c : TxCall) : Reconnect I :=
  (c.start.trace (e.bufferSize - HEADER_SIZE) 3 (s.pool e.poolOffset)).foldl
    (fun s m =>
      let pool := Function.update s.pool e.poolOffset m
      { s with pool, trace := s.trace ++ [pool] })
    s

/-- A file is dropped. What a file does that is no end of a pipe is not known. -/
def dropFile (s : Reconnect I) : VirtualFile → Option (Reconnect I)
  | .sharedPipeTx e => some (s.call e .drop)
  | .sharedPipeRx _ => some s
  | .other _ => none

/-- A new box in an inode. -/
def setKind [DecidableEq I] (s : Reconnect I) (inode : I) (kind : FileBox → Kind) (file : VirtualFile) : Reconnect I :=
  { s with
    inodes := Function.update s.inodes inode (kind { address := s.nextAddress, file })
    nextAddress := s.nextAddress + 1 }

/-- `reconnect_pipe_buffers` for one entry of the map: the new end is made before the old one is dropped. -/
def entry [DecidableEq I] (fdMap : List (WasiFd × I)) (s : Reconnect I) :
    WasiFd × PipeBuffer → Option (Reconnect I)
  | (fd, isTx, poolOffset, bufferSize) =>
    match fdMap.lookup fd with
    | none => some s
    | some inode =>
      let e : End := { poolOffset, bufferSize }
      match s.inodes inode, isTx with
      | .virtualPipeTx tx, true => do
        let s := s.call e .fromPoolOffset
        let s ← s.dropFile tx.file
        some (s.setKind inode .virtualPipeTx (.sharedPipeTx e))
      | .virtualPipeRx rx, false => do
        let s ← s.dropFile rx.file
        some (s.setKind inode .virtualPipeRx (.sharedPipeRx e))
      | _, _ => some s

end Reconnect

/-- `reconnect_pipe_buffers`, where `buffers` are the entries of the map in the order of the iteration. -/
def reconnectPipeBuffers [DecidableEq I] (fdMap : List (WasiFd × I)) (s : Reconnect I)
    (buffers : List (WasiFd × PipeBuffer)) : Option (Reconnect I) :=
  buffers.foldlM (Reconnect.entry fdMap) s

/-- `SpawnWasm::reconnect_fork_pipes` builds a map from the list that it gets. -/
def reconnectForkPipes (buffers : List (WasiFd × PipeBuffer)) : PipeBufferMap :=
  Entries.insertAll Entries.empty buffers

def Reconnect.start (env : WasiEnv I) (pool : Nat → Memory) (nextAddress : Nat) : Reconnect I :=
  { inodes := env.inodes, nextAddress, pool, trace := [] }

/-- The whole way of the pipes of an environment to the worker that runs the process, with its result. The entries come
    out of each of the two maps in some order. -/
inductive HandedOver [DecidableEq I] (env : WasiEnv I) (s : Reconnect I) : Option (Reconnect I) → Prop where
  | none {intoVec} (hv : Entries.Of (extractPipeBuffers env) intoVec) (hf : forkPipes intoVec = none) :
      HandedOver env s (some s)
  | some {intoVec buffers entries} (hv : Entries.Of (extractPipeBuffers env) intoVec)
      (hf : forkPipes intoVec = some buffers) (he : Entries.Of (reconnectForkPipes buffers) entries) :
      HandedOver env s (reconnectPipeBuffers env.fdMap s entries)

/-! ### What changes -/

/-- Two kinds are the same, up to the handle for the same end of the same pipe. -/
inductive Kind.Reconnected : Kind → Kind → Prop where
  | same (k : Kind) : Reconnected k k
  | tx (a a' : Nat) (e : End) :
      Reconnected (.virtualPipeTx { address := a, file := .sharedPipeTx e })
        (.virtualPipeTx { address := a', file := .sharedPipeTx e })
  | rx (a a' : Nat) (e : End) :
      Reconnected (.virtualPipeRx { address := a, file := .sharedPipeRx e })
        (.virtualPipeRx { address := a', file := .sharedPipeRx e })

theorem Kind.Reconnected.buffer? {k k' : Kind} (h : k.Reconnected k') : k'.buffer? = k.buffer? := by
  cases h <;> rfl

/-- What a kind is that a pipe was found in. -/
theorem Kind.buffer?_inv {k : Kind} {isTx : Bool} {o n : Nat} (h : k.buffer? = some (isTx, o, n)) :
    (isTx = true ∧ ∃ a, k = .virtualPipeTx { address := a, file := .sharedPipeTx ⟨o, n⟩ }) ∨
      isTx = false ∧ ∃ a, k = .virtualPipeRx { address := a, file := .sharedPipeRx ⟨o, n⟩ } := by
  unfold buffer? at h
  split at h
  · cases h
    exact .inl ⟨rfl, _, rfl⟩
  · cases h
    exact .inr ⟨rfl, _, rfl⟩
  · cases h
  · cases h
  · cases h

/-- No pipe has been touched, but for a transmit end that was added to its count. -/
def PoolKept (before after : Nat → Memory) : Prop :=
  ∀ o, ∃ n, after o = { before o with txCount := n } ∧ (before o).txCount ≤ n

/-- The environment and the pool are what they were, up to the handles in the boxes; and they were so all along, apart
    from the ends that were counted twice while a handle was replaced. -/
structure Unchanged (env : WasiEnv I) (pool : Nat → Memory) (t : Reconnect I) : Prop where
  inodes : ∀ i, (env.inodes i).Reconnected (t.inodes i)
  kept : t.pool = pool
  trace : ∀ p ∈ t.trace, PoolKept pool p

/-- Each transmit end in an inode is counted. -/
def WasiEnv.TxCounted (env : WasiEnv I) (pool : Nat → Memory) : Prop :=
  ∀ fd i, (fd, i) ∈ env.fdMap → ∀ a e, env.inodes i = .virtualPipeTx { address := a, file := .sharedPipeTx e } →
    0 < (pool e.poolOffset).txCount

variable {env : WasiEnv I} {pool : Nat → Memory} {s t : Reconnect I} {fd : WasiFd} {buffer : PipeBuffer} {e : End}

theorem mem_extractPipeBuffers :
    extractPipeBuffers env fd = some buffer ↔ ∃ i, (fd, i) ∈ env.fdMap ∧ (env.inodes i).buffer? = some buffer := by
  have hfold : ∀ (fds : List (WasiFd × I)) (buffers : PipeBufferMap), (fds.map Prod.fst).Nodup →
      (fds.foldl
        (fun buffers (fd, inode) =>
          match (env.inodes inode).buffer? with
          | some buffer => Function.update buffers fd (some buffer)
          | none => buffers)
        buffers fd = some buffer ↔
          (∃ i, (fd, i) ∈ fds ∧ (env.inodes i).buffer? = some buffer) ∨
            (∀ i, (fd, i) ∈ fds → (env.inodes i).buffer? = none) ∧ buffers fd = some buffer) := by
    intro fds
    induction fds with
    | nil => simp
    | cons x fds ih =>
      intro buffers hn
      obtain ⟨fd', i'⟩ := x
      simp only [List.map_cons, List.nodup_cons] at hn
      rw [List.foldl_cons, ih _ hn.2]
      by_cases hfd : fd = fd'
      · subst hfd
        have hnot : ∀ i, (fd, i) ∉ fds := fun i hi => hn.1 (List.mem_map_of_mem hi)
        cases hb : (env.inodes i').buffer? <;> simp [hnot, hb]
      · cases hb : (env.inodes i').buffer? <;> simp [hfd, hb]
  rw [extractPipeBuffers, hfold _ _ env.nodup]
  simp [Entries.empty]

theorem call_fromPoolOffset (s : Reconnect I) (e : End) :
    s.call e .fromPoolOffset =
      let pool := Function.update s.pool e.poolOffset
        { s.pool e.poolOffset with txCount := (s.pool e.poolOffset).txCount + 1 }
      { s with pool, trace := s.trace ++ [pool] } := by
  simp [Reconnect.call, TxCall.start, TxPc.trace, TxPc.access]

theorem call_drop {s : Reconnect I} {e : End} (h : (s.pool e.poolOffset).txCount ≠ 1) :
    s.call e .drop =
      let pool := Function.update s.pool e.poolOffset
        { s.pool e.poolOffset with txCount := (s.pool e.poolOffset).txCount - 1 }
      { s with pool, trace := s.trace ++ [pool] } := by
  simp [Reconnect.call, TxCall.start, TxPc.trace, TxPc.access, h]

/-- The new end is counted before the old one is taken off: the count goes up and comes down again. -/
theorem call_replace {s : Reconnect I} {e : End} (h : 0 < (s.pool e.poolOffset).txCount) :
    (s.call e .fromPoolOffset).call e .drop =
      { s with
        trace := s.trace ++
          [Function.update s.pool e.poolOffset
            { s.pool e.poolOffset with txCount := (s.pool e.poolOffset).txCount + 1 }, s.pool] } := by
  rw [call_fromPoolOffset, call_drop (by simp; omega)]
  simp

theorem PoolKept.refl (pool : Nat → Memory) : PoolKept pool pool := fun o => ⟨(pool o).txCount, rfl, Nat.le_refl _⟩

theorem PoolKept.add (pool : Nat → Memory) (o : Nat) :
    PoolKept pool (Function.update pool o { pool o with txCount := (pool o).txCount + 1 }) := by
  intro o'
  by_cases ho : o' = o
  · subst ho
    exact ⟨(pool o').txCount + 1, Function.update_self .., Nat.le_succ _⟩
  · exact ⟨(pool o').txCount, Function.update_of_ne ho .., Nat.le_refl _⟩

section Reconnecting

variable [DecidableEq I]

theorem Unchanged.setKind (hu : Unchanged env pool s) {i : I} {kind : FileBox → Kind} {file : VirtualFile}
    (hk : ∀ a, (env.inodes i).Reconnected (kind { address := a, file })) :
    Unchanged env pool (s.setKind i kind file) where
  inodes j := by
    by_cases hj : j = i
    · subst hj
      simpa [Reconnect.setKind] using hk _
    · simpa [Reconnect.setKind, hj] using hu.inodes j
  kept := hu.kept
  trace := hu.trace

/-- The handle in an inode that a pipe was found in is replaced by one for the same pipe. -/
theorem entry_unchanged (hu : Unchanged env pool s) (hc : env.TxCounted pool)
    (hb : extractPipeBuffers env fd = some buffer) :
    ∃ t, Reconnect.entry env.fdMap s (fd, buffer) = some t ∧ Unchanged env pool t := by
  obtain ⟨isTx, o, n⟩ := buffer
  obtain ⟨i, hi, hbuf⟩ := mem_extractPipeBuffers.mp hb
  have hlook := Entries.lookup_of_mem env.nodup hi
  have hbuf' : (s.inodes i).buffer? = some (isTx, o, n) := (hu.inodes i).buffer?.trans hbuf
  rcases Kind.buffer?_inv hbuf with ⟨rfl, a, hk⟩ | ⟨rfl, a, hk⟩
  · obtain ⟨-, a', hk'⟩ | ⟨hfalse, -⟩ := Kind.buffer?_inv hbuf'
    · have hpos : 0 < (pool o).txCount := hc fd i hi a _ hk
      have hcalls := call_replace (s := s) (e := ⟨o, n⟩) (by simpa [hu.kept] using hpos)
      have hentry : Reconnect.entry env.fdMap s (fd, true, o, n) = some
          (((s.call ⟨o, n⟩ .fromPoolOffset).call ⟨o, n⟩ .drop).setKind i .virtualPipeTx (.sharedPipeTx ⟨o, n⟩)) := by
        simp only [Reconnect.entry, hlook, hk', Reconnect.dropFile]
        rfl
      refine ⟨_, hentry, Unchanged.setKind ?_ fun a' => hk ▸ .tx a a' _⟩
      rw [hcalls, hu.kept]
      refine ⟨hu.inodes, rfl, fun p hp => ?_⟩
      rcases List.mem_append.mp hp with hp | hp
      · exact hu.trace p hp
      · rcases List.mem_cons.mp hp with rfl | hp
        · exact .add pool o
        · obtain rfl := List.mem_singleton.mp hp
          exact .refl _
    · cases hfalse
  · obtain ⟨hfalse, -⟩ | ⟨-, a', hk'⟩ := Kind.buffer?_inv hbuf'
    · cases hfalse
    · have hentry : Reconnect.entry env.fdMap s (fd, false, o, n) =
          some (s.setKind i .virtualPipeRx (.sharedPipeRx ⟨o, n⟩)) := by
        simp only [Reconnect.entry, hlook, hk', Reconnect.dropFile]
        rfl
      exact ⟨_, hentry, hu.setKind fun a' => hk ▸ .rx a a' _⟩

/-- All entries, in whatever order. -/
theorem reconnect_unchanged {buffers : List (WasiFd × PipeBuffer)} (hu : Unchanged env pool s)
    (hc : env.TxCounted pool) (hb : ∀ x ∈ buffers, extractPipeBuffers env x.1 = some x.2) :
    ∃ t, reconnectPipeBuffers env.fdMap s buffers = some t ∧ Unchanged env pool t := by
  induction buffers generalizing s with
  | nil => exact ⟨s, rfl, hu⟩
  | cons x buffers ih =>
    obtain ⟨u, hx, hu⟩ := entry_unchanged hu hc (hb x List.mem_cons_self)
    obtain ⟨t, ht, hu⟩ := ih hu fun y hy => hb y (List.mem_cons_of_mem _ hy)
    refine ⟨t, ?_, hu⟩
    rw [reconnectPipeBuffers, List.foldlM_cons, hx]
    exact ht

/-- Whatever file descriptors there are and whatever they share, and in whatever order their pipes are listed: the
    forked process finds the same ends of the same pipes, and the pipes are as they were, at the end and on the way. -/
theorem hand_over_unchanged {nextAddress : Nat} {r : Option (Reconnect I)} (hc : env.TxCounted pool)
    (hr : HandedOver env (.start env pool nextAddress) r) : ∃ t, r = some t ∧ Unchanged env pool t := by
  have hstart : Unchanged env pool (.start env pool nextAddress) :=
    ⟨fun _ => .same _, rfl, fun p hp => by cases hp⟩
  cases hr with
  | none => exact ⟨_, rfl, hstart⟩
  | @some intoVec buffers entries hv hf he =>
    have hbuffers : buffers = intoVec := by
      unfold forkPipes at hf
      split at hf
      · cases hf
      · exact (Option.some.inj hf).symm
    have hmap : reconnectForkPipes buffers = extractPipeBuffers env := by
      rw [hbuffers]
      exact hv.insertAll
    obtain ⟨t, ht, hu⟩ := reconnect_unchanged hstart hc fun x hx => hmap ▸ (he.mem x.1 x.2).mp hx
    exact ⟨t, ht, hu⟩

end Reconnecting

/-- A write end under two descriptors, a read end of another pipe, and a file. -/
theorem hand_over_unchanged_shared :
    let env : WasiEnv Nat :=
      { fdMap := [(0, 0), (1, 1), (2, 1), (3, 2)]
        nodup := by decide
        inodes := fun i =>
          if i = 1 then .virtualPipeTx ⟨10, .sharedPipeTx ⟨4, 65536⟩⟩
          else if i = 2 then .virtualPipeRx ⟨11, .sharedPipeRx ⟨65540, 65536⟩⟩
          else .other i }
    let pool : Nat → Memory := fun _ => .withCapacity fun _ => 0
    ∃ r, HandedOver env (.start env pool 12) r ∧ ∃ t, r = some t ∧ Unchanged env pool t := by
  intro env pool
  let buffers : List (WasiFd × PipeBuffer) := [(1, true, 4, 65536), (2, true, 4, 65536), (3, false, 65540, 65536)]
  have hmap : extractPipeBuffers env = Entries.insertAll Entries.empty buffers := rfl
  have hv : Entries.Of (extractPipeBuffers env) buffers := hmap ▸ Entries.of_insertAll (by decide)
  have he : Entries.Of (reconnectForkPipes buffers) buffers.reverse :=
    (Entries.of_insertAll (by decide)).perm (List.reverse_perm buffers).symm
  have hr := HandedOver.some (s := .start env pool 12) hv rfl he
  exact ⟨_, hr, hand_over_unchanged (fun _ _ _ _ _ _ => by decide) hr⟩

end Pipe
end WasmerJs
