import WasmerJs.Lib.ReadableStream
import WasmerJs.Lib.Transition
import WasmerJs.Stream.VirtualPipe

/-! The standard output of a process, from its pipe to the `ReadableStream` that JavaScript reads
    (`src/streams.rs`: `output_pipe`, `ReadableStreamSource`). The process, the pull that is in flight and the readers
    take their steps in any order. -/

namespace WasmerJs
namespace Stream

open Transition

/-- Who reads a stream: the user, or `Instance::wait`. -/
inductive Reader where
  | user
  | wait
  deriving DecidableEq

/-- Where a `pull` is: not run yet, reading into a buffer, or over, with its promise fulfilled or rejected. -/
inductive Pull where
  | called
  | reading (room : Nat)
  | returned (ok : Bool)
  deriving DecidableEq

def Pull.Settled : Pull → Prop
  | .returned _ => True
  | .called | .reading _ => False

/-- The maximum buffer size that a pull allows. -/
def maxCapacity : Nat := 10000000

def strategy : Strategy Bytes Pull := { highWaterMark := 256, size := List.length, called := .called }

/-- The capacity of the buffer that a pull reads into. -/
def capacity : Option Int → Nat
  | some size => min size.toNat maxCapacity
  | none => 128

/-- A `BytesMut` without room makes some before it is read into. -/
def bufferRoom (capacity : Nat) : Nat := if capacity = 0 then 64 else capacity

abbrev Chunks := ReadableStream Reader Bytes Pull

/-- The two ends of an output, and the bytes that the process has written. -/
structure Output (π : Type) where
  pipe : π
  stream : Chunks
  cancelled : Bool
  written : Bytes

inductive Event where
  -- The process writes, or closes its end.
  | write (data : Bytes)
  | close
  -- The stream and its pull.
  | start
  | pullBegins
  | pullReads
  | pullReturns
  -- The readers; only the user cancels a stream.
  | getReader (i : Reader)
  | read
  | releaseLock
  | cancel
  deriving DecidableEq

variable {π : Type}

def Output.init (P : VirtualPipe π) : Output π :=
  { pipe := P.channel, stream := .init, cancelled := false, written := [] }

/-- The end of a pull that has called `enqueue` or `close`: its promise is rejected when the call has thrown. -/
def pulled (s : Chunks) : Option Chunks → Chunks
  | some t => { t with pull := some (.returned true) }
  | none => { s with pull := some (.returned false) }

/-- `ReadableStreamSource::pull`, once the pipe has answered. -/
def pullAnswered (s : Chunks) : Except Unit Bytes → Chunks
  | .ok [] => pulled s s.close
  | .ok (b :: data) => pulled s (s.enqueue strategy (b :: data))
  | .error _ => { s.error with pull := some (.returned true) }

def step (P : VirtualPipe π) (s : Output π) : Event → Option (Output π)
  | .write data =>
    let (taken, pipe) := P.write s.pipe data
    some { s with pipe, written := s.written ++ acceptedBy data taken }
  | .close => some { s with pipe := P.close s.pipe }
  | .start => if s.stream.started then none else some { s with stream := s.stream.start strategy }
  | .pullBegins =>
    match s.stream.pull with
    | some .called =>
      let room := bufferRoom (capacity (s.stream.desiredSize strategy))
      some { s with stream := { s.stream with pull := some (.reading room) } }
    | some (.reading _) | some (.returned _) | none => none
  | .pullReads =>
    match s.stream.pull with
    | some (.reading room) =>
      let (answer, pipe) := P.read s.pipe room
      match answer with
      | none => some { s with pipe }
      | some answer => some { s with pipe, stream := pullAnswered s.stream answer }
    | some .called | some (.returned _) | none => none
  | .pullReturns =>
    match s.stream.pull with
    | some (.returned ok) =>
      some { s with stream := if ok then s.stream.pullFulfilled strategy else s.stream.pullRejected }
    | some .called | some (.reading _) | none => none
  | .getReader i => (s.stream.getReader i).map fun stream => { s with stream }
  | .read => (s.stream.read strategy).map fun stream => { s with stream }
  | .releaseLock => if s.stream.reader.isSome then some { s with stream := s.stream.releaseLock } else none
  | .cancel =>
    if s.stream.reader = some .wait then none
    else
      let (stream, told) := s.stream.cancel
      some { s with
        stream, pipe := if told then P.closeReader s.pipe else s.pipe, cancelled := s.cancelled || told }

/-! ### What a pull may rely on -/

/-- A pull is called while there is room, and reads no more than fits. -/
def PullOk (s : Chunks) : Prop :=
  match s.pull with
  | none => True
  | some .called => s.closeRequested = false ∧ (s.phase = .readable → strategy.total s.queue < 256)
  | some (.reading room) =>
    0 < room ∧ s.closeRequested = false ∧ (s.phase = .readable → strategy.total s.queue + room ≤ 256)
  | some (.returned ok) => ok = false → s.phase ≠ .readable

variable {s t : Chunks}

theorem PullOk.of_le (h : PullOk s) (hpull : t.pull = s.pull) (hclose : t.closeRequested = s.closeRequested)
    (hphase : t.phase = .readable → s.phase = .readable) (htotal : strategy.total t.queue ≤ strategy.total s.queue) :
    PullOk t := by
  unfold PullOk at h ⊢
  rw [hpull]
  split
  · trivial
  · rename_i hp
    rw [hp] at h
    exact ⟨hclose.trans h.1, fun ht => Nat.lt_of_le_of_lt htotal (h.2 (hphase ht))⟩
  · rename_i room hp
    rw [hp] at h
    refine ⟨h.1, hclose.trans h.2.1, fun ht => ?_⟩
    exact Nat.le_trans (Nat.add_le_add_right htotal room) (h.2.2 (hphase ht))
  · rename_i ok hp
    rw [hp] at h
    exact fun hok ht => h hok (hphase ht)

theorem PullOk.callPullIfNeeded (h : PullOk s) (hw : 0 < s.requests → s.queue = []) :
    PullOk (s.callPullIfNeeded strategy) := by
  by_cases hneeded : s.shouldCallPull strategy ∧ s.pull = none
  · obtain ⟨hcall, hnone⟩ := hneeded
    have hpull : (s.callPullIfNeeded strategy).pull = some .called := by
      simp only [ReadableStream.callPullIfNeeded, hcall, hnone, if_true, Option.none_or]
      rfl
    obtain ⟨hclose, -, -, hroom⟩ := ReadableStream.shouldCallPull_iff.mp hcall
    unfold PullOk
    rw [hpull]
    refine ⟨hclose, fun _ => ?_⟩
    rcases hroom with hwaits | hroom
    · simp [hw hwaits, Strategy.total]
    · exact hroom
  · refine h.of_le ?_ rfl id (Nat.le_refl _)
    cases hp : s.pull with
    | none =>
      have hnot : s.shouldCallPull strategy = false := by simpa [hp] using hneeded
      simp [ReadableStream.callPullIfNeeded, hnot, hp]
    | some pull => simp [ReadableStream.callPullIfNeeded, hp]

theorem PullOk.read (h : PullOk s) (hs : s.Sound) (ht : s.read strategy = some t) : PullOk t := by
  obtain ⟨i, -, hread⟩ := ReadableStream.read_inv ht
  cases hread with
  | closed hp => exact h.of_le rfl rfl id (Nat.le_refl _)
  | errored hp => exact h.of_le rfl rfl id (Nat.le_refl _)
  | waits hp hq => exact PullOk.callPullIfNeeded (h.of_le rfl rfl id (Nat.le_refl _)) fun _ => hq
  | last hp hq hc => exact h.of_le rfl rfl nofun (Nat.zero_le _)
  | @taken c queue hp hq hc =>
    have hle : strategy.total queue ≤ strategy.total s.queue :=
      ReadableStream.total_le_of_suffix (hq ▸ List.suffix_cons c queue)
    refine PullOk.callPullIfNeeded (h.of_le rfl rfl id hle) fun hpos => ?_
    have hnil := (hs.waiting hpos).2.1
    cases hq.symm.trans hnil

theorem PullOk.start (h : PullOk s) (hs : s.Sound) : PullOk (s.start strategy) :=
  PullOk.callPullIfNeeded (h.of_le rfl rfl id (Nat.le_refl _)) fun hpos => (hs.waiting hpos).2.1

theorem PullOk.pullFulfilled (hs : s.Sound) : PullOk (s.pullFulfilled strategy) := by
  unfold ReadableStream.pullFulfilled
  split
  · exact PullOk.callPullIfNeeded trivial fun hpos => (hs.waiting hpos).2.1
  · exact trivial

/-- A pull that begins while the stream is open reads exactly as much as there is room for. -/
theorem room_eq (hp : s.phase = .readable) (hroom : strategy.total s.queue < 256) :
    bufferRoom (capacity (s.desiredSize strategy)) = 256 - strategy.total s.queue := by
  have hdesired : s.desiredSize strategy = some ((256 : Int) - strategy.total s.queue) := by
    simp [ReadableStream.desiredSize, hp, strategy]
  have hcapacity : capacity (s.desiredSize strategy) = 256 - strategy.total s.queue := by
    rw [hdesired, capacity, maxCapacity]
    omega
  rw [hcapacity, bufferRoom, if_neg (by omega)]

theorem bufferRoom_pos (n : Nat) : 0 < bufferRoom n := by
  unfold bufferRoom
  split <;> omega

theorem PullOk.begins (h : PullOk s) (hpull : s.pull = some .called) :
    PullOk { s with pull := some (.reading (bufferRoom (capacity (s.desiredSize strategy)))) } := by
  unfold PullOk at h
  rw [hpull] at h
  refine ⟨bufferRoom_pos _, h.1, fun hp => ?_⟩
  have hp : s.phase = .readable := hp
  have hroom := h.2 hp
  rw [room_eq hp hroom]
  exact Nat.le_of_eq (Nat.add_sub_cancel' (Nat.le_of_lt hroom))

theorem pullFulfilled_frame (s : Chunks) : (s.pullFulfilled strategy).phase = s.phase ∧
    (s.pullFulfilled strategy).queue = s.queue ∧ (s.pullFulfilled strategy).closeRequested = s.closeRequested ∧
    (s.pullFulfilled strategy).chunks = s.chunks := by
  unfold ReadableStream.pullFulfilled
  split <;> exact ⟨rfl, rfl, rfl, rfl⟩

/-! ### The invariant -/

/-- The bytes that have come out, those in the stream's queue and those in the pipe are what the process has written,
    as long as nobody throws any away; and the queue never holds more than its mark. -/
structure Output.Inv (contents : π → Bytes) (closed : π → Bool) (s : Output π) : Prop where
  sound : s.stream.Sound
  pull : PullOk s.stream
  bounded : strategy.total s.stream.queue ≤ 256
  kept : s.stream.chunks.flatten <+: s.written
  account : s.cancelled = false → s.stream.phase ≠ .errored →
    s.stream.chunks.flatten ++ contents s.pipe = s.written
  ended : s.cancelled = false → s.stream.phase ≠ .errored → s.stream.closeRequested →
    contents s.pipe = [] ∧ closed s.pipe
  closed : s.cancelled = false → s.stream.phase = .closed → s.stream.closeRequested
  stopped : s.cancelled → s.stream.phase ≠ .readable
  fed : s.stream.Fed strategy Pull.Settled

section Invariant

variable {P : VirtualPipe π} {contents : π → Bytes} {closed : π → Bool} {s t : Output π}

namespace Output.Inv

theorem init (hP : P.Lawful contents closed) : Inv contents closed (Output.init P) where
  sound := .init
  pull := trivial
  bounded := Nat.zero_le _
  kept := List.prefix_rfl
  account _ _ := hP.channel.1
  ended _ _ h := by cases h
  closed _ h := by cases h
  stopped h := by cases h
  fed h := by cases h

/-- An operation on the stream that neither adds chunks nor throws any away. -/
theorem moved (h : Inv contents closed s) {stream : Chunks} (hsound : stream.Sound) (hpull : PullOk stream)
    (hfed : stream.Fed strategy Pull.Settled)
    (htotal : strategy.total stream.queue ≤ strategy.total s.stream.queue)
    (hchunks : stream.chunks = s.stream.chunks) (hclose : stream.closeRequested = s.stream.closeRequested)
    (hphase : stream.phase = s.stream.phase ∨
      s.stream.phase = .readable ∧ s.stream.closeRequested ∧ stream.phase = .closed) :
    Inv contents closed { s with stream } where
  sound := hsound
  pull := hpull
  bounded := Nat.le_trans htotal h.bounded
  kept := hchunks ▸ h.kept
  account hc hp := by
    have hs : s.stream.phase ≠ .errored := by
      rcases hphase with hphase | ⟨hopen, -, -⟩
      · exact hphase ▸ hp
      · simp [hopen]
    exact hchunks ▸ h.account hc hs
  ended hc hp hr := by
    have hs : s.stream.phase ≠ .errored := by
      rcases hphase with hphase | ⟨hopen, -, -⟩
      · exact hphase ▸ hp
      · simp [hopen]
    exact h.ended hc hs (hclose ▸ hr)
  closed hc hp := by
    rcases hphase with hphase | ⟨-, hreq, -⟩
    · exact hclose ▸ h.closed hc (hphase ▸ hp)
    · exact hclose ▸ hreq
  stopped hc := by
    rcases hphase with hphase | ⟨-, -, hphase⟩
    · exact hphase ▸ h.stopped hc
    · rw [hphase]
      nofun
  fed := hfed

/-- The process writes, or closes the pipe. -/
theorem piped (h : Inv contents closed s) {pipe : π} (data : Bytes)
    (hcontents : contents pipe = contents s.pipe ++ data) (hclosed : closed s.pipe → closed pipe)
    (hrefuse : closed s.pipe → data = []) :
    Inv contents closed { s with pipe, written := s.written ++ data } where
  sound := h.sound
  pull := h.pull
  bounded := h.bounded
  kept := h.kept.trans (List.prefix_append _ _)
  account hc hp := by
    rw [hcontents, ← List.append_assoc, h.account hc hp]
  ended hc hp hr := by
    obtain ⟨hnil, hcl⟩ := h.ended hc hp hr
    exact ⟨by rw [hcontents, hnil, hrefuse hcl, List.append_nil], hclosed hcl⟩
  closed := h.closed
  stopped := h.stopped
  fed := h.fed

/-- The stream is closed or errored, and what waits in it is thrown away. -/
theorem thrown (h : Inv contents closed s) {stream : Chunks} {pipe : π} {cancelled : Bool} (hsound : stream.Sound)
    (hpull : PullOk stream) (hchunks : stream.chunks <+: s.stream.chunks) (hp : stream.phase ≠ .readable)
    (hc : stream.phase = .closed → cancelled) : Inv contents closed { s with stream, pipe, cancelled } where
  sound := hsound
  pull := hpull
  bounded := by simp [hsound.ended hp, Strategy.total]
  kept := by
    obtain ⟨rest, hrest⟩ := hchunks
    refine List.IsPrefix.trans ?_ h.kept
    rw [← hrest, List.flatten_append]
    exact List.prefix_append _ _
  account hn he := by
    have hcl : stream.phase = .closed := by cases hphase : stream.phase <;> simp_all
    simp [hc hcl] at hn
  ended hn he := by
    have hcl : stream.phase = .closed := by cases hphase : stream.phase <;> simp_all
    simp [hc hcl] at hn
  closed hn hcl := by simp [hc hcl] at hn
  stopped _ := hp
  fed := .of_not_readable hp

/-- A pull that is not over has found the stream open, so that only a cancelled stream is closed by now. -/
theorem cancelled_of_reading (h : Inv contents closed s) {room : Nat} (hpull : s.stream.pull = some (.reading room))
    (hcl : s.stream.phase = .closed) : s.cancelled := by
  have hok := h.pull
  unfold PullOk at hok
  rw [hpull] at hok
  by_contra hc
  have hreq := h.closed (by simpa using hc) hcl
  rw [hok.2.1] at hreq
  cases hreq

/-- The pipe was read, and its answer reaches the stream. -/
theorem answered (h : Inv contents closed s) {room : Nat} (hpull : s.stream.pull = some (.reading room)) {pipe : π}
    {answer : Except Unit Bytes} (hdata : ∀ d, answer = .ok d → d.length ≤ room ∧ contents s.pipe = d ++ contents pipe)
    (heof : answer = .ok [] → contents s.pipe = [] ∧ closed pipe) :
    Inv contents closed { s with pipe, stream := pullAnswered s.stream answer } := by
  have hok := h.pull
  unfold PullOk at hok
  rw [hpull] at hok
  obtain ⟨hroom, hopen, hfits⟩ := hok
  -- What a pull does whose call has thrown, because the stream was cancelled.
  have hthrew : s.stream.canCloseOrEnqueue = false →
      Inv contents closed { s with pipe, stream := { s.stream with pull := some (.returned false) } } := by
    intro hcan
    have hp : s.stream.phase ≠ .readable := by
      intro hp
      rw [ReadableStream.canCloseOrEnqueue_iff.mpr ⟨hopen, hp⟩] at hcan
      cases hcan
    exact thrown h (h.sound.withPull _ _) (fun _ => hp) List.prefix_rfl hp (h.cancelled_of_reading hpull)
  cases answer with
  | error _ =>
    refine thrown h (h.sound.error.withPull _ _) nofun ReadableStream.chunks_error ReadableStream.phase_error.1 ?_
    exact fun hcl => h.cancelled_of_reading hpull (ReadableStream.phase_error.2 hcl)
  | ok d =>
    obtain ⟨hlen, hcontents⟩ := hdata d rfl
    cases d with
    | nil =>
      obtain ⟨hnil, hcl⟩ := heof rfl
      cases ht : s.stream.close with
      | none =>
        simpa only [pullAnswered, pulled, ht] using hthrew (ReadableStream.close_eq_none_iff.mp ht)
      | some stream =>
        obtain ⟨hreq, hp, -⟩ := ReadableStream.phase_close ht
        simp only [pullAnswered, pulled, ht]
        exact
          { sound := (h.sound.close ht).withPull _ _
            pull := nofun
            bounded := ReadableStream.queue_close ht ▸ h.bounded
            kept := ReadableStream.chunks_close ht ▸ h.kept
            account := fun hc _ => by
              rw [← h.account hc (by simp [hp]), hcontents]
              exact congrArg (·.flatten ++ contents pipe) (ReadableStream.chunks_close ht)
            ended := fun _ _ _ => ⟨by simpa [hnil] using hcontents.symm, hcl⟩
            closed := fun _ _ => hreq
            stopped := fun hc => absurd hp (h.stopped hc)
            fed := .of_closeRequested hreq }
    | cons b data =>
      cases ht : s.stream.enqueue strategy (b :: data) with
      | none =>
        simpa only [pullAnswered, pulled, ht] using hthrew (ReadableStream.enqueue_eq_none_iff.mp ht)
      | some stream =>
        obtain ⟨-, hp, -⟩ := ReadableStream.enqueue_inv ht
        obtain ⟨hphase, hreq⟩ := ReadableStream.phase_enqueue ht
        have hchunks := ReadableStream.chunks_enqueue h.sound ht
        have hlive : s.cancelled = false := by
          by_contra hc
          exact h.stopped (by simpa using hc) hp
        have haccount : (s.stream.chunks ++ [b :: data]).flatten ++ contents pipe = s.written := by
          rw [← h.account hlive (by simp [hp]), hcontents]
          simp
        simp only [pullAnswered, pulled, ht]
        exact
          { sound := (h.sound.enqueue ht).withPull _ _
            pull := nofun
            bounded := by
              have htotal := ReadableStream.total_enqueue ht
              have hfit := hfits hp
              have hsize : strategy.size (b :: data) = (b :: data).length := rfl
              exact Nat.le_trans htotal (by omega)
            kept := by
              show stream.chunks.flatten <+: s.written
              rw [hchunks, ← haccount]
              exact List.prefix_append _ _
            account := fun _ _ => by
              show stream.chunks.flatten ++ contents pipe = s.written
              rw [hchunks, haccount]
            ended := fun _ _ hr => by
              have hno : stream.closeRequested = false := hreq.trans hopen
              rw [show stream.closeRequested = true from hr] at hno
              cases hno
            closed := fun _ hcl => by
              have hcl : stream.phase = .closed := hcl
              rw [hphase, hp] at hcl
              cases hcl
            stopped := fun hc => absurd hp (h.stopped hc)
            fed := .enqueue ht (by simp [hpull]) _ }

theorem step (hP : P.Lawful contents closed) (h : Inv contents closed s) {e : Event}
    (hs : Stream.step P s e = some t) : Inv contents closed t := by
  cases e with
  | write data =>
    cases hs
    obtain ⟨hcontents, hclosed⟩ := hP.write s.pipe data
    exact h.piped _ hcontents (fun hc => hclosed.trans hc) (hP.refuse s.pipe data)
  | close =>
    cases hs
    obtain ⟨hcontents, hclosed⟩ := hP.close s.pipe
    simpa using h.piped [] (by rw [hcontents, List.append_nil]) (fun _ => hclosed) fun _ => rfl
  | start =>
    simp only [Stream.step] at hs
    split at hs
    · cases hs
    · cases hs
      exact h.moved h.sound.start (h.pull.start h.sound) (.callPullIfNeeded id) (Nat.le_refl _) rfl rfl (.inl rfl)
  | pullBegins =>
    simp only [Stream.step] at hs
    split at hs
    · rename_i hpull
      cases hs
      have hfed : ReadableStream.Fed strategy Pull.Settled
          { s.stream with pull := some (.reading (bufferRoom (capacity (s.stream.desiredSize strategy)))) } :=
        fun _ => ⟨_, rfl, nofun⟩
      exact h.moved (h.sound.withPull _ _) (h.pull.begins hpull) hfed (Nat.le_refl _) rfl rfl (.inl rfl)
    all_goals cases hs
  | pullReads =>
    simp only [Stream.step] at hs
    split at hs
    · rename_i room hpull
      split at hs
      · rename_i hnone
        cases hs
        have hkeep := hP.keep s.pipe room (by simp [hnone])
        simpa using h.piped [] (by rw [hkeep, List.append_nil]) (fun hc => (hP.stays s.pipe room).trans hc)
          fun _ => rfl
      · rename_i answer hanswer
        cases hs
        have hroom : 0 < room := by
          have hok := h.pull
          unfold PullOk at hok
          rw [hpull] at hok
          exact hok.1
        refine h.answered hpull (fun d hd => hP.read s.pipe room (hd ▸ hanswer)) fun hd => ?_
        obtain ⟨hnil, hcl⟩ := hP.eof s.pipe hroom (hd ▸ hanswer)
        exact ⟨hnil, (hP.stays s.pipe room).trans hcl⟩
    all_goals cases hs
  | pullReturns =>
    simp only [Stream.step] at hs
    split at hs
    · rename_i ok hpull
      cases hs
      cases ok with
      | true =>
        obtain ⟨hphase, hqueue, hreq, hchunks⟩ := pullFulfilled_frame s.stream
        refine h.moved h.sound.pullFulfilled (.pullFulfilled h.sound) (h.fed.pullFulfilled id fun p hp => ?_)
          (by simp [hqueue]) hchunks hreq (.inl hphase)
        rw [hpull] at hp
        cases hp
        trivial
      | false =>
        -- The stream is no longer open, and the rejection is without consequence.
        have hp : s.stream.phase ≠ .readable := by
          have hok := h.pull
          unfold PullOk at hok
          rw [hpull] at hok
          exact hok rfl
        have hsame : s.stream.pullRejected = { s.stream with pull := none } := if_neg hp
        simp only [Bool.false_eq_true, if_false, hsame]
        exact h.moved (h.sound.withPull _ _) trivial (.of_not_readable hp) (Nat.le_refl _) rfl rfl (.inl rfl)
    all_goals cases hs
  | getReader i =>
    obtain ⟨stream, ht, rfl⟩ := Option.map_eq_some_iff.mp hs
    have hsound := h.sound.getReader ht
    have hchunks := ReadableStream.chunks_getReader ht
    unfold ReadableStream.getReader at ht
    split at ht
    · cases ht
      exact h.moved hsound (h.pull.of_le rfl rfl id (Nat.le_refl _)) h.fed (Nat.le_refl _) hchunks rfl (.inl rfl)
    · cases ht
  | read =>
    obtain ⟨stream, ht, rfl⟩ := Option.map_eq_some_iff.mp hs
    refine h.moved (h.sound.read ht) (h.pull.read h.sound ht) (.read id ht) ?_ (ReadableStream.chunks_read ht)
      (ReadableStream.closeRequested_read ht) (ReadableStream.phase_read ht)
    exact ReadableStream.total_le_of_suffix (ReadableStream.queue_read ht)
  | releaseLock =>
    simp only [Stream.step] at hs
    split at hs
    · cases hs
      exact h.moved h.sound.releaseLock (h.pull.of_le rfl rfl id (Nat.le_refl _)) h.fed.releaseLock (Nat.le_refl _)
        ReadableStream.chunks_releaseLock rfl (.inl rfl)
    · cases hs
  | cancel =>
    simp only [Stream.step] at hs
    split at hs
    · cases hs
    · cases hs
      by_cases hp : s.stream.phase = .readable
      · have hpull : PullOk s.stream.cancel.1 := by
          refine h.pull.of_le ?_ ?_ (fun ht => absurd ht ReadableStream.phase_cancel) ?_
          all_goals simp [ReadableStream.cancel, hp, ReadableStream.closeStream, Strategy.total]
        have htold : s.stream.cancel.2 = true := by simp [ReadableStream.cancel, hp]
        simp only [htold]
        exact h.thrown h.sound.cancel hpull ReadableStream.chunks_cancel ReadableStream.phase_cancel fun _ => by simp
      · have hsame : s.stream.cancel = (s.stream, false) := by
          cases hphase : s.stream.phase <;> simp_all [ReadableStream.cancel]
        simp only [hsame, Bool.or_false]
        exact h

end Output.Inv

theorem Output.Inv.of_reach (hP : P.Lawful contents closed) (hr : Reach (Stream.step P) (Output.init P) s) :
    Inv contents closed s :=
  hr.invariant (Inv.init hP) fun h _ hs => h.step hP hs

theorem Output.Inv.chunks_eq (s : Output π) :
    s.stream.chunks.flatten = s.stream.delivered.flatten ++ s.stream.queue.flatten := List.flatten_append

/-- A stream that was closed by its source has given out all that was written. -/
theorem Output.Inv.drained (h : Inv contents closed s) (hc : s.cancelled = false) (hp : s.stream.phase = .closed) :
    s.stream.delivered.flatten = s.written ∧ closed s.pipe := by
  have hne : s.stream.phase ≠ .errored := by simp [hp]
  obtain ⟨hnil, hcl⟩ := h.ended hc hne (h.closed hc hp)
  have hq := h.sound.ended (by simp [hp])
  refine ⟨?_, hcl⟩
  rw [← h.account hc hne, chunks_eq, hq, hnil]
  simp

/-- What JavaScript reads is what the process has written, in that order. Nothing is lost between the two while the
    stream is neither cancelled nor errored, the stream's queue never holds more than its high-water mark, and a reader
    is told of the end only when all is read. -/
theorem stdout_in_order (hP : P.Lawful contents closed) (hr : Reach (Stream.step P) (Output.init P) s) :
    s.stream.delivered.flatten <+: s.written ∧
      (s.cancelled = false → s.stream.phase ≠ .errored →
        s.stream.delivered.flatten ++ s.stream.queue.flatten ++ contents s.pipe = s.written) ∧
      s.stream.queue.flatten.length ≤ 256 ∧
      (∀ i, (i, .done) ∈ s.stream.results → s.cancelled = false →
        s.stream.delivered.flatten = s.written ∧ closed s.pipe) := by
  have h := Output.Inv.of_reach hP hr
  have hsplit := Output.Inv.chunks_eq s
  refine ⟨(List.prefix_append _ _).trans (hsplit ▸ h.kept), fun hc hp => hsplit ▸ h.account hc hp, ?_, ?_⟩
  · rw [List.length_flatten]
    exact h.bounded
  · exact fun i hi hc => h.drained hc (h.sound.told i hi)

end Invariant

/-- A process writes three bytes and closes its end, and the user reads up to the end. -/
theorem stdout_in_order_hello :
    ∃ s, Reach (step queuePipe) (Output.init queuePipe) s ∧ (.user, .done) ∈ s.stream.results ∧
      s.stream.delivered.flatten = [1, 2, 3] := by
  obtain ⟨s, hr, hdone, hcancelled, hwritten⟩ : ∃ s, Reach (step queuePipe) (Output.init queuePipe) s ∧
      (.user, .done) ∈ s.stream.results ∧ s.cancelled = false ∧ s.written = [1, 2, 3] :=
    exists_reach [.write [1, 2], .start, .getReader .user, .pullBegins, .pullReads, .pullReturns, .read, .read,
      .write [3], .close, .pullBegins, .pullReads, .pullReturns, .pullBegins, .pullReads, .read] _ (by decide)
  refine ⟨s, hr, hdone, ?_⟩
  rw [((stdout_in_order queuePipe_lawful hr).2.2.2 .user hdone hcancelled).1, hwritten]

end Stream
end WasmerJs
