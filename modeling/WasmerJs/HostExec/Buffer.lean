import WasmerJs.HostExec.Host

/-! The shared buffer of a worker, over which the scheduler answers its requests, one access after the other. A
    worker that has sent a request clears the status cell, waits on it, and loads the answer (`src/runtime.rs`); the
    scheduler stores the answer, sets the status and notifies (`src/tasks/scheduler.rs`). -/

namespace WasmerJs
namespace HostExec

variable {W F : Type}

def HOST_EXEC_BUFFER_SIZE : Nat := 65536

/-- The four words at the front of the buffer, and the bytes behind them, counted from offset 16. -/
structure Buffer where
  status : BitVec 32
  msgType : BitVec 32
  dataLenOrExitCode : BitVec 32
  session : BitVec 32
  data : Nat → UInt8

/-- A new `SharedArrayBuffer` is filled with zeros. -/
def Buffer.init : Buffer :=
  { status := 0, msgType := 0, dataLenOrExitCode := 0, session := 0, data := fun _ => 0 }

/-! ### The scheduler -/

/-- What the scheduler does to the buffer of the worker that it answers. -/
inductive Store where
  | msgType (v : BitVec 32)
  | dataLenOrExitCode (v : BitVec 32)
  | session (v : BitVec 32)
  -- `set_index`; a typed array ignores what is stored behind its end.
  | byte (i : Nat) (b : UInt8)
  | status (v : BitVec 32)
  | notify
  deriving DecidableEq

def Store.apply (b : Buffer) : Store → Buffer
  | msgType v => { b with msgType := v }
  | dataLenOrExitCode v => { b with dataLenOrExitCode := v }
  | session v => { b with session := v }
  | byte i v => if 16 + i < HOST_EXEC_BUFFER_SIZE then { b with data := Function.update b.data i v } else b
  | status v => { b with status := v }
  | notify => b

/-- `send_host_exec_read_response`, `send_host_exec_try_read_no_data` and `send_host_exec_poll_response`, when they
    are for worker `w`: the status is set after everything else. -/
def Effect.stores [DecidableEq W] (w : W) : Effect W F → List Store
  | readResponse w' s msgType dataOrExitCode data =>
    if w' = w then
      [.msgType msgType, .dataLenOrExitCode dataOrExitCode, .session (s.setWidth 32)] ++
        ((data.getD []).zipIdx.map fun (b, i) => .byte i b) ++ [.status 1, .notify]
    else []
  | noData w' s => if w' = w then [.session (s.setWidth 32), .status 2, .notify] else []
  | pollResponse w' s isReady =>
    if w' = w then [.session (s.setWidth 32), .status (if isReady then 1 else 2), .notify] else []
  | startResponse .. | call .. => []

/-! ### The worker -/

/-- The requests that a worker waits for. -/
inductive Query where
  | hostExecRead (session : SessionId)
  | hostExecTryRead (session : SessionId)
  | hostExecPoll (session : SessionId)
  deriving DecidableEq

def Query.message (w : W) : Query → SchedulerMessage W
  | hostExecRead s => .hostExecRead w s
  | hostExecTryRead s => .hostExecTryRead w s
  | hostExecPoll s => .hostExecPoll w s

inductive HostExecOutput where
  | exit (code : ExitCode)
  | stdout (data : Bytes)
  | stderr (data : Bytes)
  | raw (msgType : MsgType) (data : Bytes)
  deriving DecidableEq

inductive Response where
  | output (o : HostExecOutput)
  | noData
  | ready (isReady : Bool)
  | sessionMismatch (expected actual : SessionId)
  deriving DecidableEq

/-- The next access of the worker, with what it has loaded so far. -/
inductive Pc where
  | idle
  | reset (q : Query)
  | wait (q : Query)
  | sleeping (q : Query)
  | loadStatus (q : Query)
  | loadMsgType (q : Query)
  | loadDataLen (q : Query) (msgType : MsgType)
  | loadSession (session : SessionId) (msgType : MsgType) (dataLen : BitVec 32)
  | loadByte (msgType : MsgType) (dataLen : Nat) (data : Bytes)
  deriving DecidableEq

/-- Where the worker goes on once it no longer waits. -/
def Query.loads : Query → Pc
  | q@(hostExecRead _) => .loadMsgType q
  | q@(hostExecTryRead _) | q@(hostExecPoll _) => .loadStatus q

/-- `get_index`, which finds 0 behind the end. -/
def Buffer.getIndex (b : Buffer) (i : Nat) : UInt8 := if 16 + i < HOST_EXEC_BUFFER_SIZE then b.data i else 0

def outputOf (msgType : MsgType) (data : Bytes) : HostExecOutput :=
  if msgType = MSG_TYPE_STDOUT then .stdout data
  else if msgType = MSG_TYPE_STDERR then .stderr data
  else .raw msgType data

abbrev Next := Response ⊕ Pc

def loadData (msgType : MsgType) (dataLen : Nat) (data : Bytes) : Next :=
  if data.length < dataLen then .inr (.loadByte msgType dataLen data)
  else .inl (.output (outputOf msgType data))

/-- An exit code is all there is to load of an exit message. -/
def loadMessage (msgType : MsgType) (dataLenOrExitCode : BitVec 32) : Next :=
  if msgType = MSG_TYPE_EXIT then .inl (.output (.exit dataLenOrExitCode))
  else loadData msgType dataLenOrExitCode.toNat []

/-- An access of the worker. It cannot go on while it is idle or asleep. -/
def Pc.access (b : Buffer) : Pc → Option (Buffer × Next)
  | idle | sleeping _ => none
  | reset q => some ({ b with status := 0 }, .inr (.wait q))
  | wait q => some (b, .inr (if b.status = 0 then .sleeping q else q.loads))
  | loadStatus q =>
    match q with
    | .hostExecPoll _ => some (b, .inl (.ready (b.status = 1)))
    | .hostExecRead _ | .hostExecTryRead _ =>
      some (b, if b.status = 2 then .inl .noData else .inr (.loadMsgType q))
  | loadMsgType q => some (b, .inr (.loadDataLen q b.msgType))
  | loadDataLen q msgType =>
    match q with
    | .hostExecRead s => some (b, .inr (.loadSession s msgType b.dataLenOrExitCode))
    | .hostExecTryRead _ | .hostExecPoll _ => some (b, loadMessage msgType b.dataLenOrExitCode)
  | loadSession s msgType dataLen =>
    let responseSession := b.session.signExtend 64
    some (b, if responseSession = s then loadMessage msgType dataLen else .inl (.sessionMismatch s responseSession))
  | loadByte msgType dataLen data => some (b, loadData msgType dataLen (data ++ [b.getIndex data.length]))

def Pc.notified : Pc → Pc
  | sleeping q => q.loads
  | pc => pc

/-- The worker would block here on status `v`, now or after it has cleared the status. -/
def Pc.Blocks (v : BitVec 32) : Pc → Prop
  | reset _ => True
  | wait _ | sleeping _ => v = 0
  | _ => False

/-- The worker would block here on status `v`, but does not sleep yet: a notification does not reach it. -/
def Pc.Early (v : BitVec 32) : Pc → Prop
  | reset _ => True
  | wait _ => v = 0
  | _ => False

theorem Query.loads_not_blocks {q : Query} {v : BitVec 32} : ¬ q.loads.Blocks v := by
  cases q <;> exact id

theorem loadData_not_blocks {t : MsgType} {n : Nat} {data : Bytes} {pc : Pc} {v : BitVec 32}
    (h : loadData t n data = .inr pc) : ¬ pc.Blocks v := by
  unfold loadData at h
  split at h <;> cases h
  exact id

theorem loadMessage_not_blocks {t : MsgType} {n : BitVec 32} {pc : Pc} {v : BitVec 32}
    (h : loadMessage t n = .inr pc) : ¬ pc.Blocks v := by
  unfold loadMessage at h
  split at h
  · cases h
  · exact loadData_not_blocks h

/-- A worker that would block after an access would have blocked before. -/
theorem Pc.access_blocks {b b' : Buffer} {pc pc' : Pc} (h : pc.access b = some (b', .inr pc'))
    (hb : pc'.Blocks b'.status) : pc.Blocks b.status := by
  cases pc with
  | reset => trivial
  | wait q =>
    cases h
    split at hb
    · assumption
    · exact absurd hb Query.loads_not_blocks
  | idle | sleeping => cases h
  | loadMsgType =>
    cases h
    cases hb
  | loadStatus q =>
    cases q with
    | hostExecPoll => cases h
    | hostExecRead | hostExecTryRead =>
      obtain ⟨-, h⟩ := Prod.mk.inj (Option.some.inj h)
      split at h <;> cases h
      cases hb
  | loadDataLen q =>
    cases q with
    | hostExecRead =>
      cases h
      cases hb
    | hostExecTryRead | hostExecPoll =>
      exact absurd hb (loadMessage_not_blocks (Prod.mk.inj (Option.some.inj h)).2)
  | loadSession =>
    obtain ⟨-, h⟩ := Prod.mk.inj (Option.some.inj h)
    split at h
    · exact absurd hb (loadMessage_not_blocks h)
    · cases h
  | loadByte => exact absurd hb (loadData_not_blocks (Prod.mk.inj (Option.some.inj h)).2)

/-- Where a notified worker would block, the notification has not reached it. -/
theorem Pc.early_of_notified {pc : Pc} {v : BitVec 32} (h : pc.notified.Blocks v) : pc.Early v := by
  cases pc with
  | sleeping => exact absurd h Query.loads_not_blocks
  | _ => exact h

end HostExec
end WasmerJs
