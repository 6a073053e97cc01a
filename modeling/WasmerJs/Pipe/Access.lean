import WasmerJs.Pipe.Steps

/-! What one access of a pipe end does, with everything it reads and the checks it passed. The invariants of the
    pipe are proved from these relations, one case for each kind of access. -/

namespace WasmerJs
namespace Pipe

/-- An access by a transmit end takes the memory and its program counter to new ones, and publishes chunks. -/
inductive TxStep (C : Nat) : Memory → TxPc → Memory → TxPc → List Bytes → Prop where
  | brokenPipe {m data} (h : m.closed ≠ 0) :
      TxStep C m (.loadClosed data) m (.returned (.wrote (.error .brokenPipe))) []
  | nothing {m} (h : m.closed = 0) : TxStep C m (.loadClosed []) m (.returned (.wrote (.ok 0))) []
  | opened {m data} (h : m.closed = 0) (hd : data ≠ []) : TxStep C m (.loadClosed data) m (.loadWritePos data) []
  | loadWritePos {m data} : TxStep C m (.loadWritePos data) m (.loadReadPos data m.writePos) []
  | freeOverflow {m data writePos} (h : freeSpace C writePos m.readPos = none) :
      TxStep C m (.loadReadPos data writePos) m .overflow []
  | full {m data writePos} (h : freeSpace C writePos m.readPos = some 0) :
      TxStep C m (.loadReadPos data writePos) m (.returned (.wrote (.error .wouldBlock))) []
  | room {m data writePos free} (h : freeSpace C writePos m.readPos = some free) (hf : free ≠ 0) :
      TxStep C m (.loadReadPos data writePos) m (.reloadWritePos data (min data.length free)) []
  | chunkOverflow {m data toWrite} (h : chunkSizes C m.writePos toWrite = none) :
      TxStep C m (.reloadWritePos data toWrite) m .overflow []
  | reload {m data toWrite first second} (h : chunkSizes C m.writePos toWrite = some (first, second)) :
      TxStep C m (.reloadWritePos data toWrite) m (.copy (data.take toWrite) m.writePos first 0) []
  | store {m chunk writePos first k b} (h : chunk[k]? = some b) :
      TxStep C m (.copy chunk writePos first k)
        { m with data := Function.update m.data (chunkIndex writePos first k) b }
        (.copy chunk writePos first (k + 1)) []
  | publish {m chunk writePos first k} (h : chunk.length ≤ k) :
      TxStep C m (.copy chunk writePos first k) { m with writePos := (writePos + chunk.length) % C }
        (.notifyReaders chunk.length) [chunk]
  | notifyReaders {m written} : TxStep C m (.notifyReaders written) m (.returned (.wrote (.ok written))) []
  | storeClosed {m r} : TxStep C m (.storeClosed r) { m with closed := 1 } (.notifyClosed r) []
  | notifyClosed {m r} : TxStep C m (.notifyClosed r) m (.returned r) []
  | subLast {m} (h : m.txCount = 1) :
      TxStep C m .subTxCount { m with txCount := m.txCount - 1 } (.storeClosed .dropped) []
  | sub {m} (h : m.txCount ≠ 1) :
      TxStep C m .subTxCount { m with txCount := m.txCount - 1 } (.returned .dropped) []
  | add {m} : TxStep C m .addTxCount { m with txCount := m.txCount + 1 } (.returned .created) []

/-- An access by the receive end takes the memory and its program counter to new ones, and publishes what it
    read. -/
inductive RxStep (C : Nat) : Memory → RxPc → Memory → RxPc → List Bytes → Prop where
  | loadWritePos {m c left} : RxStep C m (.loadWritePos c left) m (.loadReadPos c left m.writePos) []
  | availableOverflow {m c left writePos} (h : dataAvailable C writePos m.readPos = none) :
      RxStep C m (.loadReadPos c left writePos) m .overflow []
  | sawEmpty {m c left writePos} (h : dataAvailable C writePos m.readPos = some 0) :
      RxStep C m (.loadReadPos c left writePos) m (.loadClosed c left) []
  | sawSome {m c left writePos n} (h : dataAvailable C writePos m.readPos = some n) (hn : n ≠ 0) :
      RxStep C m (.loadReadPos c left writePos) m (c.someAvailable n) []
  | eof {m c left} (h : m.closed ≠ 0) : RxStep C m (.loadClosed c left) m (.returned c.atEof) []
  | stillOpen {m c left} (h : m.closed = 0) : RxStep C m (.loadClosed c left) m (c.stillOpen left) []
  | chunkOverflow {m toRead} (h : chunkSizes C m.readPos toRead = none) :
      RxStep C m (.reloadReadPos toRead) m .overflow []
  | reload {m toRead first second} (h : chunkSizes C m.readPos toRead = some (first, second)) :
      RxStep C m (.reloadReadPos toRead) m (.copy toRead m.readPos first []) []
  | load {m toRead readPos first buf} (h : buf.length < toRead) :
      RxStep C m (.copy toRead readPos first buf) m
        (.copy toRead readPos first (buf ++ [m.data (chunkIndex readPos first buf.length)])) []
  | publish {m toRead readPos first buf} (h : toRead ≤ buf.length) :
      RxStep C m (.copy toRead readPos first buf) { m with readPos := (readPos + toRead) % C }
        (.returned (.read (some buf))) [buf]
  | eofAgain {m c left} (h : m.closed ≠ 0) : RxStep C m (.recheckClosed c left) m (.returned c.atEof) []
  | openAgain {m c left} (h : m.closed = 0) : RxStep C m (.recheckClosed c left) m (.loadNotify c left) []
  | loadNotify {m c left} : RxStep C m (.loadNotify c left) m (.wait c left m.notify) []
  | wait {m c left current} : RxStep C m (.wait c left current) m (c.again left) []

theorem TxPc.access_inv {C : Nat} {m m' : Memory} {pc pc' : TxPc} {published : List Bytes}
    (h : pc.access C m = some (m', pc', published)) : TxStep C m pc m' pc' published := by
  cases pc with
  | returned r => cases h
  | overflow => cases h
  | loadClosed data =>
    simp only [access] at h
    split at h
    · cases h
      exact .brokenPipe ‹_›
    · split at h
      · subst data
        cases h
        exact .nothing (by omega)
      · cases h
        exact .opened (by omega) ‹_›
  | loadWritePos data =>
    cases h
    exact .loadWritePos
  | loadReadPos data writePos =>
    simp only [access] at h
    split at h
    · cases h
      exact .freeOverflow ‹_›
    · split at h
      · subst_vars
        cases h
        exact .full ‹_›
      · cases h
        exact .room ‹_› ‹_›
  | reloadWritePos data toWrite =>
    simp only [access] at h
    split at h
    · cases h
      exact .chunkOverflow ‹_›
    · cases h
      exact .reload ‹_›
  | copy chunk writePos first k =>
    simp only [access] at h
    split at h
    · cases h
      exact .store ‹_›
    · cases h
      exact .publish (List.getElem?_eq_none_iff.mp ‹_›)
  | notifyReaders written =>
    cases h
    exact .notifyReaders
  | storeClosed r =>
    cases h
    exact .storeClosed
  | notifyClosed r =>
    cases h
    exact .notifyClosed
  | subTxCount =>
    cases h
    split
    · exact .subLast ‹_›
    · exact .sub ‹_›
  | addTxCount =>
    cases h
    exact .add

theorem RxPc.access_inv {C : Nat} {m m' : Memory} {pc pc' : RxPc} {published : List Bytes}
    (h : pc.access C m = some (m', pc', published)) : RxStep C m pc m' pc' published := by
  cases pc with
  | returned r => cases h
  | overflow => cases h
  | loadWritePos c left =>
    cases h
    exact .loadWritePos
  | loadReadPos c left writePos =>
    simp only [access] at h
    split at h
    · cases h
      exact .availableOverflow ‹_›
    · split at h
      · subst_vars
        cases h
        exact .sawEmpty ‹_›
      · cases h
        exact .sawSome ‹_› ‹_›
  | loadClosed c left =>
    simp only [access] at h
    split at h
    · cases h
      exact .eof ‹_›
    · cases h
      exact .stillOpen (by omega)
  | reloadReadPos toRead =>
    simp only [access] at h
    split at h
    · cases h
      exact .chunkOverflow ‹_›
    · cases h
      exact .reload ‹_›
  | copy toRead readPos first buf =>
    simp only [access] at h
    split at h
    · cases h
      exact .load ‹_›
    · cases h
      exact .publish (by omega)
  | recheckClosed c left =>
    simp only [access] at h
    split at h
    · cases h
      exact .eofAgain ‹_›
    · cases h
      exact .openAgain (by omega)
  | loadNotify c left =>
    cases h
    exact .loadNotify
  | wait c left current =>
    cases h
    exact .wait

/-! ### Events -/

section Step

variable {ι : Type} [DecidableEq ι] {C : Nat} {s t : State ι} {i : ι}

theorem step_txCall_inv {c : TxCall} (hs : step C s (.txCall i c) = some t) :
    ∃ r, s.tx i = .returned r ∧ c.allowed r ∧ t = { s with tx := Function.update s.tx i c.start } := by
  simp only [step] at hs
  split at hs
  · split at hs
    · exact ⟨_, ‹_›, ‹_›, by simpa using hs.symm⟩
    · cases hs
  · cases hs

theorem step_txStep_inv (hs : step C s (.txStep i) = some t) :
    ∃ m pc published, TxStep C s.mem (s.tx i) m pc published ∧
      t = { s with mem := m, tx := Function.update s.tx i pc, accepted := s.accepted ++ published } := by
  obtain ⟨⟨m, pc, published⟩, h, rfl⟩ := Option.map_eq_some_iff.mp hs
  exact ⟨m, pc, published, TxPc.access_inv h, rfl⟩

theorem step_rxCall_inv {c : RxCall} (hs : step C s (.rxCall c) = some t) :
    ∃ r, s.rx = .returned r ∧ t = { s with rx := c.start } := by
  simp only [step] at hs
  split at hs
  · exact ⟨_, ‹_›, by simpa using hs.symm⟩
  · cases hs

theorem step_rxStep_inv (hs : step C s .rxStep = some t) :
    ∃ m pc published, RxStep C s.mem s.rx m pc published ∧
      t = { s with mem := m, rx := pc, returned := s.returned ++ published } := by
  obtain ⟨⟨m, pc, published⟩, h, rfl⟩ := Option.map_eq_some_iff.mp hs
  exact ⟨m, pc, published, RxPc.access_inv h, rfl⟩

end Step

end Pipe
end WasmerJs
