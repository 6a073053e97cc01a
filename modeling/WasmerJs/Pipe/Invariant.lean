import WasmerJs.Pipe.Access

/-! What the two ends of a pipe rely on between two accesses, and that every access keeps it as long as the
    copies of the transmit ends do not overlap. The stream is what the writes accepted; the bytes between the two
    positions are the part of it that no read has returned. -/

namespace WasmerJs
namespace Pipe

open Transition

/-- The bytes between the two positions. -/
def Memory.buffered (C : Nat) (m : Memory) : Bytes := Ring.contents C m.data m.readPos (m.occupied C)

/-- The positions lie in the buffer, and what is accepted and not returned yet lies between them. -/
structure Stored (C : Nat) (m : Memory) (accepted returned : List Bytes) : Prop where
  writePos_lt : m.writePos < C
  readPos_lt : m.readPos < C
  stream : accepted.flatten = returned.flatten ++ m.buffered C

/-- What a transmit end relies on before its next access. -/
def TxOk (C : Nat) (m : Memory) : TxPc → Prop
  | .loadWritePos data => data ≠ []
  | .loadReadPos data writePos => data ≠ [] ∧ writePos < C
  | .reloadWritePos data toWrite => 0 < toWrite ∧ toWrite ≤ data.length ∧ toWrite < C
  | .copy chunk writePos first k =>
    chunk ≠ [] ∧ writePos = m.writePos ∧ first = min (C - writePos) chunk.length ∧ k ≤ chunk.length ∧
      chunk.length < C ∧ Ring.contents C m.data writePos k = chunk.take k
  | .overflow => False
  | _ => True

/-- The slot of the byte that the next access stores is free, or one slot is left when it publishes. -/
def TxRoom (C : Nat) (m : Memory) : TxPc → Prop
  | .copy _ _ _ k => m.occupied C + k < C
  | _ => True

/-- What the receive end relies on before its next access. -/
def RxOk (C : Nat) (m : Memory) : RxPc → Prop
  | .loadReadPos _ _ writePos => writePos < C ∧ Ring.dist C m.readPos writePos ≤ m.occupied C
  | .reloadReadPos toRead => toRead ≤ m.occupied C
  | .copy toRead readPos first buf =>
    readPos = m.readPos ∧ first = min (C - readPos) toRead ∧ toRead ≤ m.occupied C ∧ buf.length ≤ toRead ∧
      buf = Ring.contents C m.data readPos buf.length
  | .overflow => False
  | _ => True

/-- The invariant of the pipe: at most one transmit end is copying. -/
structure Inv {ι : Type} (C : Nat) (s : State ι) : Prop where
  stored : Stored C s.mem s.accepted s.returned
  tx : ∀ i, TxOk C s.mem (s.tx i)
  rx : RxOk C s.mem s.rx
  one : ∀ i j, (s.tx i).Copying → (s.tx j).Copying → i = j

variable {C : Nat} {m m' : Memory} {a r p : List Bytes} {pc pc' q : TxPc} {rx rx' : RxPc}

namespace Stored

theorem capacity_pos (h : Stored C m a r) : 0 < C := by
  have := h.writePos_lt
  omega

theorem occupied_lt (h : Stored C m a r) : m.occupied C < C := Ring.dist_lt h.readPos_lt h.writePos_lt

/-- The slot `k` places after the write position lies `k` places after the bytes in the buffer. -/
theorem index_writePos (h : Stored C m a r) {k : Nat} (hk : m.occupied C + k < C) :
    Ring.index C m.writePos k = Ring.index C m.readPos (m.occupied C + k) := by
  rw [← Ring.index_index h.readPos_lt hk]
  congr 1
  exact (Ring.index_dist h.readPos_lt h.writePos_lt).symm

end Stored

/-! ### Accesses of a transmit end -/

/-- The memory that a transmit end relies on, apart from what its own copy changes. -/
structure Quiet (C : Nat) (m m' : Memory) : Prop where
  writePos : m'.writePos = m.writePos
  data : m'.data = m.data
  occupied : m'.occupied C ≤ m.occupied C

theorem TxOk.of_quiet (h : TxOk C m pc) (hq : Quiet C m m') : TxOk C m' pc := by
  cases pc with
  | copy chunk writePos first k =>
    obtain ⟨hc, hw, hf, hk, hlen, hcopied⟩ := h
    exact ⟨hc, hw.trans hq.writePos.symm, hf, hk, hlen, hq.data ▸ hcopied⟩
  | _ => exact h

theorem TxOk.of_not_copying (hn : ¬ pc.Copying) (h : TxOk C m pc) : TxOk C m' pc := by
  cases pc with
  | copy => exact absurd trivial hn
  | _ => exact h

theorem TxStep.ring_eq (h : TxStep C m pc m' pc' p) (hn : ¬ pc.Copying) :
    m'.writePos = m.writePos ∧ m'.readPos = m.readPos ∧ m'.data = m.data ∧ p = [] := by
  cases h with
  | store | publish => exact absurd trivial hn
  | _ => exact ⟨rfl, rfl, rfl, rfl⟩

theorem TxStep.readPos_eq (h : TxStep C m pc m' pc' p) : m'.readPos = m.readPos := by
  cases h <;> rfl

/-- A copy starts at the second load of the write position and nowhere else. -/
theorem TxStep.copying (h : TxStep C m pc m' pc' p) (hc : pc'.Copying) :
    pc.Copying ∨ pc.reloading := by
  cases h with
  | reload => exact .inr rfl
  | store => exact .inl trivial
  | _ => exact absurd hc id

/-- The index of the next byte lies beyond the bytes in the buffer. -/
theorem TxOk.next_index (hs : Stored C m a r) {chunk : Bytes} {writePos first k : Nat}
    (h : TxOk C m (.copy chunk writePos first k)) (hroom : m.occupied C + k < C) (hk : k < chunk.length) :
    chunkIndex writePos first k = Ring.index C m.readPos (m.occupied C + k) := by
  obtain ⟨-, rfl, rfl, -, -, -⟩ := h
  rw [chunkIndex_eq hs.writePos_lt hk, hs.index_writePos hroom]

theorem TxStep.txOk (h : TxStep C m pc m' pc' p) (hs : Stored C m a r) (hok : TxOk C m pc) : TxOk C m' pc' := by
  cases h with
  | opened _ hd => exact hd
  | loadWritePos => exact ⟨hok, hs.writePos_lt⟩
  | @freeOverflow data writePos h =>
    have := freeSpace_eq hok.2 hs.readPos_lt
    simp [this] at h
  | @room data writePos free hfree hf =>
    have := List.length_pos_iff.mpr hok.1
    have hC := hs.capacity_pos
    rw [freeSpace_eq hok.2 hs.readPos_lt] at hfree
    cases hfree
    exact ⟨by omega, by omega, by omega⟩
  | chunkOverflow h => simp [chunkSizes_eq hs.writePos_lt] at h
  | @reload data toWrite first second h =>
    obtain ⟨hpos, hlen, hlt⟩ := hok
    rw [chunkSizes_eq hs.writePos_lt] at h
    simp only [Option.some.injEq, Prod.mk.injEq] at h
    have hl : (data.take toWrite).length = toWrite := by simp [hlen]
    refine ⟨?_, rfl, ?_, by omega, by omega, rfl⟩
    · exact List.ne_nil_of_length_pos (by omega)
    · rw [hl]
      exact h.1.symm
  | @store chunk writePos first k b hb =>
    have hk : k < chunk.length := (List.getElem?_eq_some_iff.mp hb).1
    obtain ⟨hc, rfl, rfl, -, hlen, hcopied⟩ := hok
    refine ⟨hc, rfl, rfl, hk, hlen, ?_⟩
    -- The byte lands right behind the bytes copied before.
    rw [Ring.contents_succ, List.take_add_one, hb, ← hcopied, chunkIndex_eq hs.writePos_lt hk]
    rw [Ring.contents_update (Nat.le_refl k) (by omega)]
    simp only [Function.update_self]
    rfl
  | _ => trivial

theorem TxOk.publish_occupied (hs : Stored C m a r) {chunk : Bytes} {writePos first k : Nat}
    (h : TxOk C m (.copy chunk writePos first k)) (hroom : m.occupied C + chunk.length < C) :
    ({ m with writePos := (writePos + chunk.length) % C } : Memory).occupied C = m.occupied C + chunk.length := by
  obtain ⟨-, rfl, -, -, -, -⟩ := h
  have hw : (m.writePos + chunk.length) % C = Ring.index C m.writePos chunk.length :=
    Ring.add_mod hs.writePos_lt (by omega)
  simp only [Memory.occupied, hw]
  exact Ring.dist_index_right hs.readPos_lt hs.writePos_lt hroom

theorem TxStep.stored (h : TxStep C m pc m' pc' p) (hs : Stored C m a r) (hok : TxOk C m pc)
    (hroom : TxRoom C m pc) : Stored C m' (a ++ p) r := by
  by_cases hc : pc.Copying
  · cases h with
    | @store chunk writePos first k b hb =>
      have hk : k < chunk.length := (List.getElem?_eq_some_iff.mp hb).1
      have hroom : m.occupied C + k < C := hroom
      have hidx := hok.next_index hs hroom hk
      refine ⟨hs.writePos_lt, hs.readPos_lt, ?_⟩
      rw [List.append_nil, hs.stream, hidx]
      congr 1
      exact (Ring.contents_update (by omega) (by omega)).symm
    | @publish chunk writePos first k hk =>
      obtain rfl : k = chunk.length := Nat.le_antisymm hok.2.2.2.1 hk
      have hocc := hok.publish_occupied hs hroom
      obtain ⟨-, rfl, -, -, -, hcopied⟩ := hok
      refine ⟨Nat.mod_lt _ hs.capacity_pos, hs.readPos_lt, ?_⟩
      rw [List.take_length] at hcopied
      rw [List.flatten_append, hs.stream, Memory.buffered, Memory.buffered, hocc,
        Ring.contents_add hs.readPos_lt (Nat.le_of_lt hroom)]
      have hfront : Ring.index C m.readPos (m.occupied C) = m.writePos :=
        Ring.index_dist hs.readPos_lt hs.writePos_lt
      rw [hfront, hcopied]
      simp
    | _ => exact absurd hc id
  · obtain ⟨hw, hr, hd, rfl⟩ := h.ring_eq hc
    refine ⟨hw ▸ hs.writePos_lt, hr ▸ hs.readPos_lt, ?_⟩
    rw [List.append_nil, hs.stream, Memory.buffered, Memory.buffered, Memory.occupied, Memory.occupied, hw, hr, hd]

theorem TxStep.occupied_le (h : TxStep C m pc m' pc' p) (hs : Stored C m a r) (hok : TxOk C m pc)
    (hroom : TxRoom C m pc) : m.occupied C ≤ m'.occupied C := by
  by_cases hc : pc.Copying
  · cases h with
    | store => exact Nat.le_refl _
    | @publish chunk writePos first k hk =>
      obtain rfl : k = chunk.length := Nat.le_antisymm hok.2.2.2.1 hk
      have hocc := hok.publish_occupied hs hroom
      omega
    | _ => exact absurd hc id
  · obtain ⟨hw, hr, -, -⟩ := h.ring_eq hc
    simp [Memory.occupied, hw, hr]

theorem TxStep.contents_eq (h : TxStep C m pc m' pc' p) (hs : Stored C m a r) (hok : TxOk C m pc)
    (hroom : TxRoom C m pc) {n : Nat} (hn : n ≤ m.occupied C) :
    Ring.contents C m'.data m.readPos n = Ring.contents C m.data m.readPos n := by
  cases h with
  | @store chunk writePos first k b hb =>
    have hk : k < chunk.length := (List.getElem?_eq_some_iff.mp hb).1
    have hroom : m.occupied C + k < C := hroom
    have hidx := hok.next_index hs hroom hk
    simp only [hidx]
    exact Ring.contents_update (by omega) (by omega)
  | _ => rfl

theorem TxStep.rxOk (h : TxStep C m pc m' pc' p) (hs : Stored C m a r) (hok : TxOk C m pc)
    (hroom : TxRoom C m pc) (hrx : RxOk C m rx) : RxOk C m' rx := by
  have hle := h.occupied_le hs hok hroom
  cases rx with
  | loadReadPos c left writePos =>
    obtain ⟨hw, hd⟩ := hrx
    exact ⟨hw, by rw [h.readPos_eq]; omega⟩
  | reloadReadPos toRead => exact Nat.le_trans hrx hle
  | copy toRead readPos first buf =>
    obtain ⟨rfl, hf, hn, hb, hbuf⟩ := hrx
    refine ⟨h.readPos_eq.symm, hf, by omega, hb, ?_⟩
    rw [h.contents_eq hs hok hroom (by omega)]
    exact hbuf
  | _ => exact hrx

/-! ### Accesses of the receive end -/

theorem RxOk.someAvailable {c : RxCall} {n : Nat} (h : n ≤ m.occupied C) : RxOk C m (c.someAvailable n) := by
  cases c with
  | pollReadReady => trivial
  | _ => exact Nat.le_trans (Nat.min_le_right _ _) h

theorem RxOk.stillOpen {c : RxCall} {left : Nat} : RxOk C m (c.stillOpen left) := by
  cases c <;> trivial

theorem RxOk.again {c : RxCall} {left : Nat} : RxOk C m (c.again left) := by
  cases c with
  | pollRead | pollReadReady =>
    simp only [RxCall.again]
    split <;> trivial
  | _ => trivial

theorem RxOk.publish_occupied (hs : Stored C m a r) {toRead readPos first : Nat} {buf : Bytes}
    (h : RxOk C m (.copy toRead readPos first buf)) :
    (readPos + toRead) % C = Ring.index C m.readPos toRead ∧
      ({ m with readPos := (readPos + toRead) % C } : Memory).occupied C = m.occupied C - toRead := by
  obtain ⟨rfl, -, hn, -, -⟩ := h
  have hlt := hs.occupied_lt
  have hr : (m.readPos + toRead) % C = Ring.index C m.readPos toRead := Ring.add_mod hs.readPos_lt (by omega)
  refine ⟨hr, ?_⟩
  simp only [Memory.occupied, hr]
  exact Ring.dist_index_left hs.readPos_lt hs.writePos_lt hn

theorem RxStep.rxOk (h : RxStep C m rx m' rx' p) (hs : Stored C m a r) (hok : RxOk C m rx) : RxOk C m' rx' := by
  cases h with
  | loadWritePos => exact ⟨hs.writePos_lt, Nat.le_refl _⟩
  | availableOverflow h => simp [dataAvailable_eq hs.readPos_lt] at h
  | sawSome h =>
    rw [dataAvailable_eq hs.readPos_lt] at h
    cases h
    exact .someAvailable hok.2
  | stillOpen => exact .stillOpen
  | chunkOverflow h => simp [chunkSizes_eq hs.readPos_lt] at h
  | @reload toRead first second h =>
    rw [chunkSizes_eq hs.readPos_lt] at h
    cases h
    exact ⟨rfl, rfl, hok, Nat.zero_le _, rfl⟩
  | @load toRead readPos first buf h =>
    obtain ⟨rfl, rfl, hn, hb, hbuf⟩ := hok
    refine ⟨rfl, rfl, hn, by simp; omega, ?_⟩
    rw [chunkIndex_eq hs.readPos_lt h, List.length_append, List.length_singleton, Ring.contents_succ, ← hbuf]
  | wait => exact .again
  | _ => trivial

theorem RxStep.stored (h : RxStep C m rx m' rx' p) (hs : Stored C m a r) (hok : RxOk C m rx) :
    Stored C m' a (r ++ p) := by
  cases h with
  | @publish toRead readPos first buf h =>
    obtain ⟨hr, hocc⟩ := hok.publish_occupied hs
    obtain ⟨rfl, -, hn, hb, hbuf⟩ := hok
    obtain rfl : toRead = buf.length := by omega
    have hlt := hs.occupied_lt
    refine ⟨hs.writePos_lt, Nat.mod_lt _ hs.capacity_pos, ?_⟩
    rw [hs.stream, Memory.buffered, Memory.buffered, hocc]
    have hsplit : m.occupied C = buf.length + (m.occupied C - buf.length) := by omega
    rw [hsplit, Ring.contents_add hs.readPos_lt (by omega), ← hbuf, ← hr]
    simp
  | _ => simpa using hs

theorem RxStep.quiet (h : RxStep C m rx m' rx' p) (hs : Stored C m a r) (hok : RxOk C m rx) : Quiet C m m' := by
  cases h with
  | publish =>
    obtain ⟨-, hocc⟩ := hok.publish_occupied hs
    exact ⟨rfl, rfl, by omega⟩
  | _ => exact ⟨rfl, rfl, Nat.le_refl _⟩

/-! ### The invariant -/

section Step

variable {ι : Type} [DecidableEq ι] {s t : State ι} {e : Event ι} {i₀ : ι} {data : Nat → UInt8}

/-- No other transmit end is copying when this one loads the position that its copy starts from, and the copy
    stores and publishes only where the buffer has room at that moment. -/
def Exclusive (C : Nat) (s : State ι) : Event ι → Prop
  | .txStep i => ((s.tx i).reloading → ∀ j, ¬ (s.tx j).Copying) ∧ TxRoom C s.mem (s.tx i)
  | _ => True

theorem Inv.init (hC : 0 < C) : Inv C (State.init i₀ data) where
  stored :=
    { writePos_lt := hC
      readPos_lt := hC
      stream := by simp [State.init, Memory.buffered, Memory.occupied, Memory.withCapacity] }
  tx i := trivial
  rx := trivial
  one i j hi := absurd hi id

theorem TxCall.start_not_copying (c : TxCall) : ¬ c.start.Copying := by
  cases c <;> exact id

theorem Inv.txCall (h : Inv C s) {i : ι} {c : TxCall} (hs : step C s (.txCall i c) = some t) : Inv C t := by
  obtain ⟨r, -, -, rfl⟩ := step_txCall_inv hs
  refine ⟨h.stored, fun j => ?_, h.rx, fun j k hj hk => ?_⟩
  · by_cases hj : j = i
    · subst hj
      simp only [Function.update_self]
      cases c <;> trivial
    · simp only [Function.update_of_ne hj]
      exact h.tx j
  · have hne : ∀ l, (Function.update s.tx i c.start l).Copying → l ≠ i := by
      rintro l hl rfl
      simp only [Function.update_self] at hl
      exact c.start_not_copying hl
    have hji := hne j hj
    have hki := hne k hk
    simp only [Function.update_of_ne hji] at hj
    simp only [Function.update_of_ne hki] at hk
    exact h.one j k hj hk

theorem Inv.txStep (h : Inv C s) {i : ι} (ho : Exclusive C s (.txStep i)) (hs : step C s (.txStep i) = some t) :
    Inv C t := by
  obtain ⟨m, pc, published, hstep, rfl⟩ := step_txStep_inv hs
  obtain ⟨halone, hroom⟩ := ho
  refine ⟨hstep.stored h.stored (h.tx i) hroom, fun j => ?_, hstep.rxOk h.stored (h.tx i) hroom h.rx,
    fun j k hj hk => ?_⟩
  · by_cases hj : j = i
    · subst hj
      simp only [Function.update_self]
      exact hstep.txOk h.stored (h.tx j)
    · simp only [Function.update_of_ne hj]
      by_cases hc : (s.tx i).Copying
      · -- The other end is not copying, so the ring may change under it.
        exact (h.tx j).of_not_copying fun hcj => hj (h.one j i hcj hc)
      · obtain ⟨hw, hr, hd, -⟩ := hstep.ring_eq hc
        refine (h.tx j).of_quiet ⟨hw, hd, ?_⟩
        simp [Memory.occupied, hw, hr]
  · -- A new copy starts only while no other end is copying.
    have hnew : ∀ l, l ≠ i → (s.tx l).Copying → ¬ pc.Copying := by
      intro l hl hcl hc
      rcases hstep.copying hc with hci | hpc
      · exact hl (h.one l i hcl hci)
      · exact halone hpc l hcl
    by_cases hji : j = i <;> by_cases hki : k = i
    · rw [hji, hki]
    · subst hji
      simp only [Function.update_self, Function.update_of_ne hki] at hj hk
      exact absurd hj (hnew k hki hk)
    · subst hki
      simp only [Function.update_self, Function.update_of_ne hji] at hj hk
      exact absurd hk (hnew j hji hj)
    · simp only [Function.update_of_ne hji, Function.update_of_ne hki] at hj hk
      exact h.one j k hj hk

theorem Inv.rxCall (h : Inv C s) {c : RxCall} (hs : step C s (.rxCall c) = some t) : Inv C t := by
  obtain ⟨r, -, rfl⟩ := step_rxCall_inv hs
  refine ⟨h.stored, h.tx, ?_, h.one⟩
  cases c <;> trivial

theorem Inv.rxStep (h : Inv C s) (hs : step C s .rxStep = some t) : Inv C t := by
  obtain ⟨m, pc, published, hstep, rfl⟩ := step_rxStep_inv hs
  exact ⟨hstep.stored h.stored h.rx, fun i => (h.tx i).of_quiet (hstep.quiet h.stored h.rx),
    hstep.rxOk h.stored h.rx, h.one⟩

/-- Every event keeps the invariant while the copies of the transmit ends do not overlap. -/
theorem Inv.step (h : Inv C s) (ho : Exclusive C s e) (hs : step C s e = some t) : Inv C t := by
  cases e with
  | txCall => exact h.txCall hs
  | txStep => exact h.txStep ho hs
  | rxCall => exact h.rxCall hs
  | rxStep => exact h.rxStep hs

theorem inv_of_reachVia (hC : 0 < C) (hr : ReachVia (Pipe.step C) (Exclusive C) (State.init i₀ data) s) : Inv C s :=
  hr.invariant (Inv.init hC) Inv.step

end Step

end Pipe
end WasmerJs
