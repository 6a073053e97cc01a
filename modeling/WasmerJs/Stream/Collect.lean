import WasmerJs.Stream.Output

/-! How `Instance::wait` collects an output: `read_to_end` and `copy_to_buffer` over the stream
    (`src/streams.rs`, `src/instance.rs`). -/

namespace WasmerJs
namespace Stream

open Transition

/-- Where the collecting is. Between two chunks a read was asked for, or is about to be; `seen` are the reads whose
    results were looked at. -/
inductive Copy where
  | idle
  | reading (asked : Bool) (seen : Nat) (buffer : Bytes)
  | finished (buffer : Bytes)
  | failed
  deriving DecidableEq

/-- An output that is collected. `taken` is what had been delivered when the reader lock was taken, if it was. -/
structure Collecting (π : Type) where
  out : Output π
  copy : Copy
  taken : Option Bytes

inductive CollectEvent where
  -- The process, the source and the user.
  | other (e : Event)
  | begin
  | ask
  | receive
  | drop
  deriving DecidableEq

variable {π : Type}

/-- What `wait` does itself. -/
def Event.byWait (s : Chunks) : Event → Bool
  | .getReader i => i == .wait
  | .read | .releaseLock => s.reader == some .wait
  | .write _ | .close | .start | .pullBegins | .pullReads | .pullReturns | .cancel => false

/-- What a reader does, or the user with a stream. -/
def Event.ofReader : Event → Bool
  | .getReader _ | .read | .releaseLock | .cancel => true
  | .write _ | .close | .start | .pullBegins | .pullReads | .pullReturns => false

/-- The results of the reads of `wait`, in order. -/
def waitResults (s : Chunks) : List (ReadResult Bytes) := (s.results.filter fun r => r.1 = .wait).map (·.2)

namespace Collecting

def init (P : VirtualPipe π) : Collecting π := { out := .init P, copy := .idle, taken := none }

def withStream (s : Collecting π) (stream : Chunks) : Collecting π := { s with out := { s.out with stream } }

/-- `read_to_end` takes the lock; a stream that is locked is left to its reader. -/
def begin (s : Collecting π) : Collecting π :=
  match s.out.stream.getReader .wait with
  | none => { s with copy := .finished [] }
  | some stream =>
    { s.withStream stream with copy := .reading false 0 [], taken := some s.out.stream.delivered.flatten }

/-- The promise of the read is settled: one turn of the loop of `copy_to_buffer`. The guard of the reader releases the
    lock when the loop ends. -/
def receive (s : Collecting π) (seen : Nat) (buffer : Bytes) : ReadResult Bytes → Collecting π
  | .chunk c => { s with copy := .reading false (seen + 1) (buffer ++ c) }
  | .done => { s.withStream s.out.stream.releaseLock with copy := .finished buffer }
  | .failed => { s.withStream s.out.stream.releaseLock with copy := .failed }

/-- The collecting is given up. -/
def drop (s : Collecting π) : Collecting π :=
  match s.copy with
  | .reading _ _ _ => { s.withStream s.out.stream.releaseLock with copy := .failed }
  | .idle => s
  | .finished _ => s
  | .failed => s

def step (P : VirtualPipe π) (s : Collecting π) : CollectEvent → Option (Collecting π)
  | .other e =>
    if e.byWait s.out.stream then none else (Stream.step P s.out e).map fun out => { s with out }
  | .begin =>
    match s.copy with
    | .idle => some s.begin
    | .reading _ _ _ | .finished _ | .failed => none
  | .ask =>
    match s.copy with
    | .reading false seen buffer =>
      (s.out.stream.read strategy).map fun stream => { s.withStream stream with copy := .reading true seen buffer }
    | .reading true _ _ | .idle | .finished _ | .failed => none
  | .receive =>
    match s.copy with
    | .reading true seen buffer => (waitResults s.out.stream)[seen]?.map (s.receive seen buffer)
    | .reading false _ _ | .idle | .finished _ | .failed => none
  | .drop => some s.drop

end Collecting

/-! ### What the reads have given -/

/-- The reads of `wait` that were settled and not looked at. -/
def unseen (s : Chunks) (seen : Nat) : List (ReadResult Bytes) := (waitResults s).drop seen

/-- While `wait` reads, the chunks that come out are those in its buffer and at most one on the way there. -/
structure Reading (s : Chunks) (asked : Bool) (seen : Nat) (buffer before : Bytes) : Prop where
  reader : s.reader = some .wait
  counted : seen ≤ (waitResults s).length
  one : (unseen s seen).length + s.requests = asked.toNat
  delivered : s.delivered.flatten = before ++ buffer ++ ((unseen s seen).filterMap ReadResult.chunk?).flatten

/-- The invariant of the collecting. -/
def CopyOk (s : Collecting π) : Prop :=
  match s.copy with
  | .idle => s.out.stream.reader ≠ some .wait ∧ waitResults s.out.stream = [] ∧ s.taken = none
  | .reading asked seen buffer => ∃ before, s.taken = some before ∧ Reading s.out.stream asked seen buffer before
  | .finished buffer => s.out.stream.reader ≠ some .wait ∧
    match s.taken with
    | none => buffer = []
    | some before => s.out.stream.phase = .closed ∧ s.out.stream.delivered.flatten = before ++ buffer
  | .failed => s.out.stream.reader ≠ some .wait

variable {s t : Chunks} {asked : Bool} {seen : Nat} {buffer before : Bytes}

theorem waitResults_append {new : List (Reader × ReadResult Bytes)} (h : t.results = s.results ++ new) :
    waitResults t = waitResults s ++ (new.filter fun r => r.1 = .wait).map (·.2) := by
  rw [waitResults, h, List.filter_append, List.map_append]
  rfl

theorem delivered_append {new : List (Reader × ReadResult Bytes)} (h : t.results = s.results ++ new) :
    t.delivered = s.delivered ++ new.filterMap fun r => r.2.chunk? := by
  rw [ReadableStream.delivered, h, List.filterMap_append]
  rfl

/-- Other readers' results are none of `wait`'s. -/
theorem waitResults_of_others {new : List (Reader × ReadResult Bytes)} (h : t.results = s.results ++ new)
    (hnew : ∀ x ∈ new, x.1 ≠ .wait) : waitResults t = waitResults s := by
  have hnone : new.filter (fun r => r.1 = .wait) = [] :=
    List.filter_eq_nil_iff.mpr fun x hx => by simpa using hnew x hx
  rw [waitResults_append h, hnone, List.map_nil, List.append_nil]

/-- More of its reads are settled, or it asks for one. -/
theorem Reading.grows (h : Reading s asked seen buffer before) {asked' : Bool} (new : List (ReadResult Bytes))
    (hresults : t.results = s.results ++ new.map fun r => (.wait, r))
    (hrequests : t.requests + new.length + asked.toNat = s.requests + asked'.toNat) (hreader : t.reader = s.reader) :
    Reading t asked' seen buffer before := by
  have hwait : waitResults t = waitResults s ++ new := by
    rw [waitResults_append hresults, List.filter_map, List.filter_eq_self.mpr fun _ _ => by simp, List.map_map]
    simp
  have hunseen : unseen t seen = unseen s seen ++ new := by
    rw [unseen, hwait, List.drop_append_of_le_length h.counted]
    rfl
  have hdelivered : t.delivered = s.delivered ++ new.filterMap ReadResult.chunk? := by
    rw [delivered_append hresults, List.filterMap_map]
    rfl
  refine ⟨hreader.trans h.reader, ?_, ?_, ?_⟩
  · rw [hwait, List.length_append]
    exact Nat.le_add_right_of_le h.counted
  · have hone := h.one
    rw [hunseen, List.length_append]
    omega
  · rw [hdelivered, List.flatten_append, h.delivered, hunseen, List.filterMap_append, List.flatten_append]
    simp only [List.append_assoc]

theorem Reading.settles (h : Reading s asked seen buffer before) (ht : ReadableStream.Settles s t) :
    Reading t asked seen buffer before := by
  obtain ⟨new, hresults, hrequests, hreader⟩ := ht
  rw [h.reader, Option.toList_some, List.flatMap_singleton] at hresults
  exact h.grows new hresults (by omega) hreader

/-- `wait` asks for a chunk. -/
theorem Reading.asks (h : Reading s false seen buffer before) (ht : s.read strategy = some t) :
    Reading t true seen buffer before := by
  have hone := h.one
  obtain ⟨i, hi, hread⟩ := ReadableStream.read_inv ht
  obtain rfl : Reader.wait = i := by simpa [h.reader] using hi
  have hnone : s.requests = 0 := by
    rw [Bool.toNat_false] at hone
    omega
  cases hread with
  | closed hp => exact h.grows [.done] rfl (by simp) rfl
  | errored hp => exact h.grows [.failed] rfl (by simp) rfl
  | waits hp hq => exact h.grows [] (by simp) (by simp) rfl
  | @last c hp hq hc =>
    refine h.grows [.chunk c] ?_ (by simp [ReadableStream.closeStream, hnone]) rfl
    simp [ReadableStream.closeStream, ReadableStream.settle, hnone]
  | @taken c queue hp hq hc => exact h.grows [.chunk c] rfl (by simp) rfl

/-- The read that `wait` asked for is settled, and it is the only one. -/
theorem Reading.unseen_eq (h : Reading s true seen buffer before) {r : ReadResult Bytes}
    (hr : (waitResults s)[seen]? = some r) : unseen s seen = [r] ∧ s.requests = 0 := by
  have hcons : unseen s seen = r :: (waitResults s).drop (seen + 1) := by
    obtain ⟨hlt, hget⟩ := List.getElem?_eq_some_iff.mp hr
    rw [unseen, List.drop_eq_getElem_cons hlt, hget]
  have hone := h.one
  rw [hcons, List.length_cons, Bool.toNat_true] at hone
  have hnil : (waitResults s).drop (seen + 1) = [] := List.length_eq_zero_iff.mp (by omega)
  exact ⟨by rw [hcons, hnil], by omega⟩

theorem pullAnswered_settles (s : Chunks) (answer : Except Unit Bytes) :
    ReadableStream.Settles s (pullAnswered s answer) := by
  have hpulled : ∀ t : Option Chunks, (∀ t', t = some t' → ReadableStream.Settles s t') →
      ReadableStream.Settles s (pulled s t) := by
    intro t ht
    cases t with
    | none => exact .of_eq rfl rfl rfl
    | some t => exact (ht t rfl).withPull _
  unfold pullAnswered
  split
  · exact hpulled _ fun _ => .close
  · exact hpulled _ fun _ => .enqueue
  · exact ReadableStream.Settles.error.withPull _

section Steps

variable {P : VirtualPipe π} {o o' : Output π} {e : Event}

/-- The process and the source settle the reads of the present reader in turn. -/
theorem step_settles (he : e.ofReader = false) (hs : step P o e = some o') :
    ReadableStream.Settles o.stream o'.stream := by
  cases e with
  | write data =>
    cases hs
    exact .of_eq rfl rfl rfl
  | close =>
    cases hs
    exact .of_eq rfl rfl rfl
  | start =>
    simp only [step] at hs
    split at hs
    · cases hs
    · cases hs
      exact .of_eq rfl rfl rfl
  | pullBegins =>
    simp only [step] at hs
    split at hs
    · cases hs
      exact .of_eq rfl rfl rfl
    all_goals cases hs
  | pullReads =>
    simp only [step] at hs
    split at hs
    · split at hs
      · cases hs
        exact .of_eq rfl rfl rfl
      · cases hs
        exact pullAnswered_settles _ _
    all_goals cases hs
  | pullReturns =>
    simp only [step] at hs
    split at hs
    · rename_i ok hpull
      cases hs
      cases ok with
      | true => exact .pullFulfilled
      | false => exact ReadableStream.Settles.error (s := { o.stream with pull := none })
    all_goals cases hs
  | getReader i => cases he
  | read => cases he
  | releaseLock => cases he
  | cancel => cases he

/-- While `wait` holds the lock, nobody else reads. -/
theorem not_ofReader (hb : e.byWait o.stream = false) (hr : o.stream.reader = some .wait)
    (hs : step P o e = some o') : e.ofReader = false := by
  cases e with
  | getReader i =>
    obtain ⟨stream, ht, -⟩ := Option.map_eq_some_iff.mp hs
    simp [ReadableStream.getReader, hr] at ht
  | read => simp [Event.byWait, hr] at hb
  | releaseLock => simp [Event.byWait, hr] at hb
  | cancel => simp [step, hr] at hs
  | _ => rfl

/-- While it does not hold the lock, none of its reads is settled, and it does not get the lock. -/
theorem step_others (hb : e.byWait o.stream = false) (hr : o.stream.reader ≠ some .wait)
    (hs : step P o e = some o') : o'.stream.reader ≠ some .wait ∧ waitResults o'.stream = waitResults o.stream := by
  have hother : ∀ {n : Nat} {r : ReadResult Bytes}, ∀ x ∈ o.stream.reader.toList.flatMap fun i =>
      List.replicate n (i, r), x.1 ≠ .wait := by
    intro n r x hx
    obtain ⟨i, hi, hx⟩ := List.mem_flatMap.mp hx
    rw [List.eq_of_mem_replicate hx]
    rintro rfl
    exact hr (by simpa using hi)
  by_cases he : e.ofReader = false
  · obtain ⟨new, hresults, -, hreader⟩ := step_settles he hs
    refine ⟨hreader ▸ hr, waitResults_of_others hresults fun x hx => ?_⟩
    obtain ⟨i, hi, hx⟩ := List.mem_flatMap.mp hx
    obtain ⟨r, -, rfl⟩ := List.mem_map.mp hx
    rintro rfl
    exact hr (by simpa using hi)
  cases e with
  | getReader i =>
    obtain ⟨stream, ht, rfl⟩ := Option.map_eq_some_iff.mp hs
    unfold ReadableStream.getReader at ht
    split at ht
    · cases ht
      exact ⟨by simpa [Event.byWait] using hb, rfl⟩
    · cases ht
  | read =>
    obtain ⟨stream, ht, rfl⟩ := Option.map_eq_some_iff.mp hs
    obtain ⟨hreader, new, hresults, hnew⟩ := ReadableStream.results_read ht
    exact ⟨hreader ▸ hr, waitResults_of_others hresults fun x hx hw => hr (hw ▸ hnew x hx)⟩
  | releaseLock =>
    simp only [step] at hs
    split at hs
    · cases hs
      exact ⟨ReadableStream.reader_releaseLock, waitResults_of_others rfl hother⟩
    · cases hs
  | cancel =>
    simp only [step] at hs
    split at hs
    · cases hs
    · cases hs
      unfold ReadableStream.cancel
      split
      · exact ⟨hr, rfl⟩
      · exact ⟨hr, rfl⟩
      · exact ⟨hr, waitResults_of_others rfl hother⟩
  | _ => exact absurd rfl he

/-- A closed stream stays closed, and nothing more comes out of it. -/
theorem step_closed (hp : o.stream.phase = .closed) (hs : step P o e = some o') :
    o'.stream.phase = .closed ∧ o'.stream.delivered = o.stream.delivered := by
  have hcan : o.stream.canCloseOrEnqueue = false := by simp [ReadableStream.canCloseOrEnqueue, hp]
  have herror : ∀ {s : Chunks}, s.phase = .closed → s.error = s := fun h => if_neg (by simp [h])
  cases e with
  | write data =>
    cases hs
    exact ⟨hp, rfl⟩
  | close =>
    cases hs
    exact ⟨hp, rfl⟩
  | start =>
    simp only [step] at hs
    split at hs
    · cases hs
    · cases hs
      exact ⟨hp, rfl⟩
  | pullBegins =>
    simp only [step] at hs
    split at hs
    · cases hs
      exact ⟨hp, rfl⟩
    all_goals cases hs
  | pullReads =>
    simp only [step] at hs
    split at hs
    · split at hs
      · cases hs
        exact ⟨hp, rfl⟩
      · cases hs
        unfold pullAnswered
        split
        · rw [ReadableStream.close_eq_none_iff.mpr hcan]
          exact ⟨hp, rfl⟩
        · rw [ReadableStream.enqueue_eq_none_iff.mpr hcan]
          exact ⟨hp, rfl⟩
        · rw [herror hp]
          exact ⟨hp, rfl⟩
    all_goals cases hs
  | pullReturns =>
    simp only [step] at hs
    split at hs
    · rename_i ok hpull
      cases hs
      cases ok with
      | true =>
        obtain ⟨hphase, -, -, -⟩ := pullFulfilled_frame o.stream
        refine ⟨hphase.trans hp, ?_⟩
        simp only [if_true, ReadableStream.pullFulfilled]
        split <;> rfl
      | false =>
        have hsame : o.stream.pullRejected = { o.stream with pull := none } := herror hp
        simp only [Bool.false_eq_true, if_false, hsame]
        exact ⟨hp, rfl⟩
    all_goals cases hs
  | getReader i =>
    obtain ⟨stream, ht, rfl⟩ := Option.map_eq_some_iff.mp hs
    unfold ReadableStream.getReader at ht
    split at ht
    · cases ht
      exact ⟨hp, rfl⟩
    · cases ht
  | read =>
    obtain ⟨stream, ht, rfl⟩ := Option.map_eq_some_iff.mp hs
    obtain ⟨i, -, hread⟩ := ReadableStream.read_inv ht
    cases hread with
    | closed => exact ⟨hp, by simp [ReadableStream.delivered, ReadResult.chunk?]⟩
    | errored hp' => cases hp.symm.trans hp'
    | waits hp' => cases hp.symm.trans hp'
    | last hp' => cases hp.symm.trans hp'
    | taken hp' => cases hp.symm.trans hp'
  | releaseLock =>
    simp only [step] at hs
    split at hs
    · cases hs
      exact ⟨hp, ReadableStream.delivered_settle rfl⟩
    · cases hs
  | cancel =>
    simp only [step] at hs
    split at hs
    · cases hs
    · cases hs
      have hsame : o.stream.cancel = (o.stream, false) := by simp [ReadableStream.cancel, hp]
      rw [hsame]
      exact ⟨hp, rfl⟩

end Steps

/-! ### The invariant of the collecting -/

/-- The output keeps its invariant, and what was collected is what came out since the lock was taken. -/
structure Collecting.Inv (contents : π → Bytes) (closed : π → Bool) (s : Collecting π) : Prop where
  out : s.out.Inv contents closed
  copy : CopyOk s

namespace Collecting.Inv

variable {P : VirtualPipe π} {contents : π → Bytes} {closed : π → Bool} {s t : Collecting π}

theorem init (hP : P.Lawful contents closed) : Inv contents closed (Collecting.init P) where
  out := .init hP
  copy := ⟨nofun, rfl, rfl⟩

theorem other (hP : P.Lawful contents closed) (h : Inv contents closed s) {e : Event} {out : Output π}
    (hb : e.byWait s.out.stream = false) (hs : Stream.step P s.out e = some out) :
    Inv contents closed { s with out } := by
  refine ⟨h.out.step hP hs, ?_⟩
  have hcopy := h.copy
  unfold CopyOk at hcopy ⊢
  dsimp only
  split
  · rename_i hidle
    rw [hidle] at hcopy
    obtain ⟨hr, hw, htaken⟩ := hcopy
    obtain ⟨hr', hw'⟩ := step_others hb hr hs
    exact ⟨hr', hw'.trans hw, htaken⟩
  · rename_i asked seen buffer hreading
    rw [hreading] at hcopy
    obtain ⟨before, htaken, hr⟩ := hcopy
    exact ⟨before, htaken, hr.settles (step_settles (not_ofReader hb hr.reader hs) hs)⟩
  · rename_i buffer hfinished
    rw [hfinished] at hcopy
    obtain ⟨hr, hcopy⟩ := hcopy
    refine ⟨(step_others hb hr hs).1, ?_⟩
    split
    · rename_i htaken
      rw [htaken] at hcopy
      exact hcopy
    · rename_i before htaken
      rw [htaken] at hcopy
      obtain ⟨hp, hd⟩ := hcopy
      obtain ⟨hp', hd'⟩ := step_closed hp hs
      exact ⟨hp', hd' ▸ hd⟩
  · rename_i hfailed
    rw [hfailed] at hcopy
    exact (step_others hb hcopy hs).1

theorem begin (hP : P.Lawful contents closed) (h : Inv contents closed s) (hidle : s.copy = .idle) :
    Inv contents closed s.begin := by
  have hcopy := h.copy
  unfold CopyOk at hcopy
  rw [hidle] at hcopy
  obtain ⟨hr, hw, htaken⟩ := hcopy
  unfold Collecting.begin
  split
  · refine ⟨h.out, hr, ?_⟩
    rw [htaken]
  · rename_i stream ht
    refine ⟨h.out.step hP (e := .getReader .wait) (by simp [Stream.step, ht]; rfl), _, rfl, ?_⟩
    unfold ReadableStream.getReader at ht
    split at ht
    · rename_i hnone
      cases ht
      have hzero : s.out.stream.requests = 0 := by
        by_contra hpos
        have hsome := (h.out.sound.waiting (Nat.pos_of_ne_zero hpos)).2.2.2
        simp [hnone] at hsome
      have hunseen : unseen s.out.stream 0 = [] := by rw [unseen, hw, List.drop_nil]
      refine ⟨rfl, Nat.zero_le _, ?_, ?_⟩
      · show (unseen s.out.stream 0).length + s.out.stream.requests = 0
        rw [hunseen, hzero]
        rfl
      · show s.out.stream.delivered.flatten =
          s.out.stream.delivered.flatten ++ [] ++ ((unseen s.out.stream 0).filterMap ReadResult.chunk?).flatten
        rw [hunseen]
        simp
    · cases ht

theorem ask (hP : P.Lawful contents closed) (h : Inv contents closed s) {seen : Nat} {buffer : Bytes} {stream : Chunks}
    (hread : s.copy = .reading false seen buffer) (ht : s.out.stream.read strategy = some stream) :
    Inv contents closed { s.withStream stream with copy := .reading true seen buffer } := by
  have hcopy := h.copy
  unfold CopyOk at hcopy
  rw [hread] at hcopy
  obtain ⟨before, htaken, hr⟩ := hcopy
  exact ⟨h.out.step hP (e := .read) (by simp [Stream.step, ht]; rfl), before, htaken, hr.asks ht⟩

/-- The lock is released. -/
theorem released (hP : P.Lawful contents closed) (h : s.out.Inv contents closed)
    (hr : s.out.stream.reader = some .wait) :
    (s.withStream s.out.stream.releaseLock).out.Inv contents closed :=
  h.step hP (e := .releaseLock) (by simp [Stream.step, hr]; rfl)

theorem receive (hP : P.Lawful contents closed) (h : Inv contents closed s) {seen : Nat} {buffer : Bytes}
    {r : ReadResult Bytes} (hread : s.copy = .reading true seen buffer)
    (hr : (waitResults s.out.stream)[seen]? = some r) : Inv contents closed (s.receive seen buffer r) := by
  have hcopy := h.copy
  unfold CopyOk at hcopy
  rw [hread] at hcopy
  obtain ⟨before, htaken, hreading⟩ := hcopy
  obtain ⟨hunseen, hzero⟩ := hreading.unseen_eq hr
  have hd := hreading.delivered
  rw [hunseen] at hd
  cases r with
  | chunk c =>
    have hlt := (List.getElem?_eq_some_iff.mp hr).1
    have hnil : unseen s.out.stream (seen + 1) = [] := by
      rw [unseen, ← List.drop_drop, show (waitResults s.out.stream).drop seen = _ from hunseen]
      rfl
    have hnext : Reading s.out.stream false (seen + 1) (buffer ++ c) before := by
      refine ⟨hreading.reader, hlt, by simp [hnil, hzero], ?_⟩
      rw [hd, hnil]
      simp [ReadResult.chunk?]
    exact ⟨h.out, before, htaken, hnext⟩
  | done =>
    refine ⟨released hP h.out hreading.reader, ReadableStream.reader_releaseLock, ?_⟩
    dsimp only [Collecting.receive, Collecting.withStream]
    rw [htaken]
    have hmem : (.wait, .done) ∈ s.out.stream.results := by
      obtain ⟨x, hx, hx'⟩ := List.mem_map.mp (List.mem_of_getElem? hr)
      obtain ⟨hx, hw⟩ := List.mem_filter.mp hx
      obtain ⟨i, r⟩ := x
      obtain rfl : i = .wait := of_decide_eq_true hw
      obtain rfl : r = .done := hx'
      exact hx
    refine ⟨h.out.sound.told .wait hmem, ?_⟩
    rw [show s.out.stream.releaseLock.delivered = s.out.stream.delivered from ReadableStream.delivered_settle rfl, hd]
    simp [ReadResult.chunk?]
  | failed => exact ⟨released hP h.out hreading.reader, ReadableStream.reader_releaseLock⟩

theorem drop (hP : P.Lawful contents closed) (h : Inv contents closed s) : Inv contents closed s.drop := by
  have hcopy := h.copy
  unfold CopyOk at hcopy
  unfold Collecting.drop
  split
  · rename_i hread
    rw [hread] at hcopy
    obtain ⟨before, -, hr⟩ := hcopy
    exact ⟨released hP h.out hr.reader, ReadableStream.reader_releaseLock⟩
  all_goals exact h

theorem step (hP : P.Lawful contents closed) (h : Inv contents closed s) {e : CollectEvent}
    (hs : Collecting.step P s e = some t) : Inv contents closed t := by
  cases e with
  | other e =>
    simp only [Collecting.step] at hs
    split at hs
    · cases hs
    · rename_i hb
      obtain ⟨out, ho, rfl⟩ := Option.map_eq_some_iff.mp hs
      exact h.other hP (by simpa using hb) ho
  | begin =>
    simp only [Collecting.step] at hs
    split at hs
    · cases hs
      exact h.begin hP ‹_›
    all_goals cases hs
  | ask =>
    simp only [Collecting.step] at hs
    split at hs
    · obtain ⟨stream, ht, rfl⟩ := Option.map_eq_some_iff.mp hs
      exact h.ask hP ‹_› ht
    all_goals cases hs
  | receive =>
    simp only [Collecting.step] at hs
    split at hs
    · obtain ⟨r, hr, rfl⟩ := Option.map_eq_some_iff.mp hs
      exact h.receive hP ‹_› hr
    all_goals cases hs
  | drop =>
    cases hs
    exact h.drop hP

end Collecting.Inv

end Stream
end WasmerJs
