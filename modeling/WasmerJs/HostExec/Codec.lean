import WasmerJs.HostExec.Buffer

/-! An answer in the buffer of a worker, as `send_host_exec_read_response` lays it out and as the worker takes it
    apart. The length in the header is that of the whole message, but what does not fit in the buffer is not stored. -/

namespace WasmerJs
namespace HostExec

/-! ### The worker's loads -/

/-- The worker comes to a response from here, while nobody else works on its buffer. -/
inductive Decodes : Buffer → Pc → Response → Prop where
  | done {b b' : Buffer} {pc : Pc} {r : Response} (h : pc.access b = some (b', .inl r)) : Decodes b pc r
  | access {b b' : Buffer} {pc pc' : Pc} {r : Response} (h : pc.access b = some (b', .inr pc'))
      (hr : Decodes b' pc' r) : Decodes b pc r

variable {W F : Type} {b b' : Buffer} {pc pc' : Pc} {r r' : Response} {t : MsgType} {n k : Nat} {data : Bytes}

theorem decodes_done (h : pc.access b = some (b', .inl r)) : Decodes b pc r' ↔ r' = r := by
  constructor
  · rintro (h' | ⟨h', -⟩)
    · rw [h] at h'
      cases h'
      rfl
    · rw [h] at h'
      cases h'
  · rintro rfl
    exact .done h

theorem decodes_access (h : pc.access b = some (b', .inr pc')) : Decodes b pc r ↔ Decodes b' pc' r := by
  constructor
  · rintro (h' | ⟨h', hr⟩)
    · rw [h] at h'
      cases h'
    · rw [h] at h'
      cases h'
      exact hr
  · exact .access h

/-- The first `n` bytes that the worker finds behind the header. -/
def Buffer.read (b : Buffer) (n : Nat) : Bytes := (List.range n).map b.getIndex

@[simp] theorem Buffer.read_length : (b.read n).length = n := by simp [read]

theorem Buffer.read_succ : b.read (n + 1) = b.read n ++ [b.getIndex n] := by simp [read, List.range_succ]

/-- The loop over the bytes. -/
theorem decodes_loadByte (hk : k < n) :
    Decodes b (.loadByte t n (b.read k)) r ↔ r = .output (outputOf t (b.read n)) := by
  obtain ⟨d, rfl⟩ := Nat.exists_eq_add_of_lt hk
  induction d generalizing k with
  | zero =>
    have hload : Pc.access b (.loadByte t (k + 0 + 1) (b.read k)) =
        some (b, .inl (.output (outputOf t (b.read (k + 0 + 1))))) := by
      simp [Pc.access, loadData, ← Buffer.read_succ]
    exact decodes_done hload
  | succ d ih =>
    have hload : Pc.access b (.loadByte t (k + (d + 1) + 1) (b.read k)) =
        some (b, .inr (.loadByte t (k + (d + 1) + 1) (b.read (k + 1)))) := by
      simp [Pc.access, loadData, ← Buffer.read_succ]
    rw [decodes_access hload]
    have ih := ih (k := k + 1) (by omega)
    rwa [show k + 1 + d + 1 = k + (d + 1) + 1 by omega] at ih

theorem decodes_loadData {next : Next} (hl : loadData t n [] = next) (ha : pc.access b = some (b, next)) :
    Decodes b pc r ↔ r = .output (outputOf t (b.read n)) := by
  subst hl
  unfold loadData at ha
  split at ha
  · rename_i hn
    rw [decodes_access ha]
    exact decodes_loadByte (k := 0) hn
  · rename_i hn
    obtain rfl : n = 0 := by simpa using hn
    exact decodes_done ha

/-! ### What is stored -/

/-- The bytes of a message that fit in the buffer, and zeros, which the worker loads for the others. -/
def stored (data : Bytes) : Bytes :=
  data.take (HOST_EXEC_BUFFER_SIZE - 16) ++ List.replicate (data.length - (HOST_EXEC_BUFFER_SIZE - 16)) 0

@[simp] theorem stored_length : (stored data).length = data.length := by
  simp [stored]
  omega

theorem stored_getElem {i : Nat} (hi : i < (stored data).length) :
    (stored data)[i] = if 16 + i < HOST_EXEC_BUFFER_SIZE then data.getD i 0 else 0 := by
  have hi' : i < data.length := by simpa using hi
  simp only [stored, HOST_EXEC_BUFFER_SIZE, List.getElem_append, List.getElem_take, List.getElem_replicate,
    List.length_take, List.getD_eq_getElem _ _ hi']
  by_cases hfit : 16 + i < 65536
  · rw [dif_pos (by omega), if_pos hfit]
  · rw [dif_neg (by omega), if_neg hfit]

/-- The bytes go to their places one after the other. -/
theorem foldl_byte (data : Bytes) (k : Nat) (b : Buffer) :
    ((data.zipIdx k).map fun (v, i) => Store.byte i v).foldl Store.apply b =
      { b with
        data := fun j =>
          if k ≤ j ∧ j < k + data.length ∧ 16 + j < HOST_EXEC_BUFFER_SIZE then data.getD (j - k) 0 else b.data j } := by
  induction data generalizing k b with
  | nil =>
    have hlt : ∀ j, ¬ (k ≤ j ∧ j < k ∧ 16 + j < HOST_EXEC_BUFFER_SIZE) := by omega
    simp [hlt]
  | cons v data ih =>
    simp only [List.zipIdx_cons, List.map_cons, List.foldl_cons, ih, List.length_cons]
    have hstore : Store.apply b (.byte k v) = { b with
        data := fun j => if j = k ∧ 16 + j < HOST_EXEC_BUFFER_SIZE then v else b.data j } := by
      by_cases hk : 16 + k < HOST_EXEC_BUFFER_SIZE
      · simp only [Store.apply, if_pos hk]
        congr 1
        funext j
        by_cases hj : j = k <;> simp [hj, hk]
      · have hdata : (fun j => if j = k ∧ 16 + j < HOST_EXEC_BUFFER_SIZE then v else b.data j) = b.data := by
          funext j
          rw [if_neg]
          rintro ⟨rfl, hj⟩
          exact hk hj
        simp only [Store.apply, if_neg hk, hdata]
    rw [hstore]
    congr 1
    funext j
    dsimp only
    rcases Nat.lt_trichotomy j k with hj | rfl | hj
    · rw [if_neg (by omega), if_neg (by omega), if_neg (by omega)]
    · rw [if_neg (by omega)]
      simp
    · have hpred : j - k = (j - (k + 1)) + 1 := by omega
      have hne : ¬ (j = k ∧ 16 + j < HOST_EXEC_BUFFER_SIZE) := by omega
      have hiff : (k + 1 ≤ j ∧ j < k + 1 + data.length ∧ 16 + j < HOST_EXEC_BUFFER_SIZE) ↔
          k ≤ j ∧ j < k + (data.length + 1) ∧ 16 + j < HOST_EXEC_BUFFER_SIZE := by omega
      simp only [hpred, List.getD_cons_succ, if_neg hne, hiff]

/-- The buffer of worker `w` once the scheduler has done everything for an answer to it. -/
def Buffer.answered [DecidableEq W] (b : Buffer) (w : W) (e : Effect W F) : Buffer := (e.stores w).foldl Store.apply b

theorem answered_readResponse [DecidableEq W] (b : Buffer) (w : W) (s : SessionId) (t : MsgType) (v : BitVec 32)
    (data : Bytes) :
    b.answered w (.readResponse w s t v (some data) : Effect W F) =
      { status := 1
        msgType := t
        dataLenOrExitCode := v
        session := s.setWidth 32
        data := fun j =>
          if j < data.length ∧ 16 + j < HOST_EXEC_BUFFER_SIZE then data.getD j 0 else b.data j } := by
  simp only [Buffer.answered, Effect.stores, if_true, List.foldl_append, Option.getD_some, foldl_byte]
  simp [Store.apply]

theorem read_answered [DecidableEq W] {b : Buffer} {w : W} {s : SessionId} {t : MsgType} {v : BitVec 32} {data : Bytes}
    {n : Nat} (hn : n ≤ data.length) :
    (b.answered w (.readResponse w s t v (some data) : Effect W F)).read n = (stored data).take n := by
  rw [answered_readResponse]
  refine List.ext_getElem (by simp [hn]) fun i hi hi' => ?_
  have hlen : i < data.length := lt_of_lt_of_le (by simpa using hi) hn
  simp only [Buffer.read, List.getElem_map, List.getElem_range, Buffer.getIndex, List.getElem_take, stored_getElem,
    hlen, true_and]
  split <;> rfl

/-! ### Round trips -/

/-- The word that the session id travels in is sign-extended by the worker. -/
theorem signExtend_setWidth_eq_iff {s : SessionId} :
    (s.setWidth 32).signExtend 64 = s ↔ s.toNat < 2 ^ 31 ∨ 2 ^ 64 - 2 ^ 31 ≤ s.toNat := by
  have hs : s.toNat < 2 ^ 64 := s.isLt
  rw [← BitVec.toInt_inj, BitVec.toInt_signExtend_of_le (by decide), BitVec.toInt_setWidth,
    BitVec.toInt_eq_toNat_cond, Int.bmod_def]
  omega

theorem signExtend_setWidth {s : SessionId} (hs : s.toNat < 2 ^ 31) : (s.setWidth 32).signExtend 64 = s :=
  signExtend_setWidth_eq_iff.mpr (.inl hs)

/-- What the worker makes of a message with these data. -/
def received (t : MsgType) (data : Bytes) : HostExecOutput :=
  if t = MSG_TYPE_EXIT then .exit (BitVec.ofNat 32 data.length)
  else outputOf t ((stored data).take (data.length % 2 ^ 32))

variable [DecidableEq W] {w : W} {s : SessionId} {q : Query}

/-- The message of `send_host_exec_read_response`, with the length in place of an exit code. -/
def readResponse (w : W) (s : SessionId) (t : MsgType) (data : Bytes) : Effect W F :=
  .readResponse w s t (BitVec.ofNat 32 data.length) (some data)

omit [DecidableEq W] in
/-- Every answer of the scheduler that comes with data is such a message. -/
theorem Slot.execute_readResponse {v : Slot W F} {m : SchedulerMessage W} {n : BitVec 32}
    (he : .readResponse w s t n (some data) ∈ (v.execute m).2) : n = BitVec.ofNat 32 data.length := by
  cases m with
  | hostExecRead w s | hostExecTryRead w s =>
    simp only [execute] at he
    split at he
    · rename_i answer v' _
      cases answer <;> simp_all [Answer.effect]
    · simp at he
  | hostExecReadComplete =>
    simp only [execute] at he
    split at he <;> simp_all
  | hostExecWrite | hostExecCloseStdin | hostExecSignal =>
    simp only [execute] at he
    split at he <;> simp at he
  | hostExecStart | hostExecPoll | hostExecChildOutput => simp [execute] at he

theorem decodes_answered (hs : s.toNat < 2 ^ 31) (hq : q = .hostExecRead s ∨ q = .hostExecTryRead s) :
    Decodes (b.answered w (readResponse w s t data : Effect W F)) q.loads r ↔ r = .output (received t data) := by
  have hread := read_answered (F := F) (b := b) (w := w) (s := s) (t := t) (v := BitVec.ofNat 32 data.length)
    (Nat.mod_le data.length (2 ^ 32))
  have hbuf := answered_readResponse (F := F) b w s t (BitVec.ofNat 32 data.length) data
  unfold readResponse
  generalize b.answered w (.readResponse w s t (BitVec.ofNat 32 data.length) (some data) : Effect W F) = b' at *
  have hmsg : ∀ {pc : Pc}, pc.access b' = some (b', loadMessage t (BitVec.ofNat 32 data.length)) →
      (Decodes b' pc r ↔ r = .output (received t data)) := by
    intro pc hpc
    unfold loadMessage at hpc
    unfold received
    split at hpc
    · rw [if_pos ‹_›]
      exact decodes_done hpc
    · rw [if_neg ‹_›, decodes_loadData rfl hpc, BitVec.toNat_ofNat, hread]
  rcases hq with rfl | rfl
  · rw [Query.loads, decodes_access rfl, decodes_access rfl]
    apply hmsg
    simp [hbuf, Pc.access, signExtend_setWidth hs]
  · have hstatus : Pc.access b' (.loadStatus (.hostExecTryRead s)) =
        some (b', .inr (.loadMsgType (.hostExecTryRead s))) := by
      simp [hbuf, Pc.access]
    rw [Query.loads, decodes_access hstatus, decodes_access rfl]
    apply hmsg
    simp [hbuf, Pc.access]

theorem outputOf_inj {data' : Bytes} : outputOf t data = outputOf t data' ↔ data = data' := by
  unfold outputOf
  split
  · simp
  · split <;> simp

/-- The bytes that are stored are the whole message when it is not longer than a word can say and those that do not
    fit are zeros. -/
theorem take_stored_eq :
    data = (stored data).take (data.length % 2 ^ 32) ↔
      data.length < 2 ^ 32 ∧ ∀ v ∈ data.drop (HOST_EXEC_BUFFER_SIZE - 16), v = 0 := by
  have hsplit := List.take_append_drop (HOST_EXEC_BUFFER_SIZE - 16) data
  constructor
  · intro h
    have hlen : data.length = data.length % 2 ^ 32 := by
      have := congrArg List.length h
      simp at this
      omega
    have hlt : data.length < 2 ^ 32 := hlen ▸ Nat.mod_lt _ (by decide)
    rw [← hlen, List.take_of_length_le (by simp)] at h
    have hdrop := List.append_cancel_left (hsplit.trans h)
    exact ⟨hlt, (List.eq_replicate_iff.mp hdrop).2⟩
  · rintro ⟨hlt, hzero⟩
    have hdrop := List.eq_replicate_iff.mpr ⟨List.length_drop, hzero⟩
    rw [Nat.mod_eq_of_lt hlt, List.take_of_length_le (by simp), stored, ← hdrop, hsplit]

/-- The worker decodes what was written exactly when the message is not an exit, and the bytes that do not fit in the
    buffer are zeros. -/
theorem decodes_iff (hs : s.toNat < 2 ^ 31) (hq : q = .hostExecRead s ∨ q = .hostExecTryRead s) :
    Decodes (b.answered w (readResponse w s t data : Effect W F)) q.loads (.output (outputOf t data)) ↔
      t ≠ MSG_TYPE_EXIT ∧ data.length < 2 ^ 32 ∧ ∀ v ∈ data.drop (HOST_EXEC_BUFFER_SIZE - 16), v = 0 := by
  rw [decodes_answered hs hq, Response.output.injEq, received]
  split
  · rename_i ht
    subst ht
    simp [outputOf, MSG_TYPE_EXIT, MSG_TYPE_STDOUT, MSG_TYPE_STDERR]
  · rename_i ht
    rw [outputOf_inj, take_stored_eq]
    simp [ht]

/-- A message that fits. -/
theorem decodes_short :
    Decodes (Buffer.init.answered 0 (readResponse 0 7 MSG_TYPE_STDOUT [1, 2, 3] : Effect Nat Nat))
      (Query.hostExecRead 7).loads (.output (.stdout [1, 2, 3])) :=
  (decodes_iff (by decide) (.inl rfl)).mpr ⟨by decide, by decide, by simp [HOST_EXEC_BUFFER_SIZE]⟩

/-- One byte more than the buffer has room for. -/
theorem long_message_cut :
    ¬ ∀ (b : Buffer) (s : SessionId) (t : MsgType) (data : Bytes), s.toNat < 2 ^ 31 →
      (∃ c : Callback Nat, c.message = some (t, data)) →
      Decodes (b.answered 0 (readResponse 0 s t data : Effect Nat Nat)) (Query.hostExecRead s).loads
        (.output (outputOf t data)) := by
  intro hall
  have hdec := hall .init 7 MSG_TYPE_STDOUT (List.replicate 65521 1) (by decide) ⟨.onStdout _, rfl⟩
  rw [decodes_answered (by decide) (.inl rfl), received, if_neg (by decide), Response.output.injEq, outputOf_inj,
    take_stored_eq] at hdec
  have hlast : (1 : UInt8) ∈ (List.replicate 65521 1).drop (HOST_EXEC_BUFFER_SIZE - 16) := by
    rw [List.drop_replicate]
    exact List.mem_replicate.mpr ⟨by decide, rfl⟩
  exact absurd (hdec.2 1 hlast) (by decide)

end HostExec
end WasmerJs
