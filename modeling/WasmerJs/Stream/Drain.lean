import WasmerJs.Stream.Wait

/-! Why `Instance::wait` comes back: once the process has closed its outputs and its exit condition is known, the
    streams, their pulls and `wait` itself need nobody else to get to the end (`src/instance.rs`, `src/streams.rs`). -/

namespace WasmerJs
namespace Stream

open Transition

variable {π : Type}

/-- What happens without the process and the user. -/
def CollectEvent.ofWait : CollectEvent → Bool
  | .other .start | .other .pullBegins | .other .pullReads | .other .pullReturns | .ask | .receive => true
  | .other (.write _) | .other .close | .other (.getReader _) | .other .read | .other .releaseLock | .other .cancel
  | .begin | .drop => false

/-- The bytes in the pipe and the chunks in the queue that are still to come. -/
def Collecting.remaining (contents : π → Bytes) (s : Collecting π) : Nat :=
  (contents s.out.pipe).length + s.out.stream.queue.length

/-- A collecting whose process has closed its end. -/
structure Draining (contents : π → Bytes) (closed : π → Bool) (s : Collecting π) : Prop where
  inv : s.Inv contents closed
  closed : closed s.out.pipe

section Drain

variable {P : VirtualPipe π} {contents : π → Bytes} {closed : π → Bool} {s t : Collecting π} {seen : Nat}
  {buffer : Bytes}

/-- A step that nobody but the streams and `wait` takes. -/
abbrev Alone (_ : Collecting π) (e : CollectEvent) : Prop := e.ofWait = true

/-- The read that `wait` asked for is settled: it has got one of the bytes to come, or the stream is over. -/
structure Answered (contents : π → Bytes) (closed : π → Bool) (seen : Nat) (buffer : Bytes) (n : Nat)
    (s : Collecting π) : Prop where
  draining : Draining contents closed s
  copy : s.copy = .reading true seen buffer
  result : ∃ r, (waitResults s.out.stream)[seen]? = some r ∧ (r.chunk?.isSome → s.remaining contents < n)

/-- `wait` waits for a read of a stream. -/
structure Waiting (contents : π → Bytes) (closed : π → Bool) (seen : Nat) (buffer : Bytes) (s : Collecting π) :
    Prop where
  draining : Draining contents closed s
  copy : s.copy = .reading true seen buffer
  one : s.out.stream.requests = 1

namespace Waiting

theorem facts (h : Waiting contents closed seen buffer s) :
    s.out.stream.phase = .readable ∧ s.out.stream.queue = [] ∧ s.out.stream.closeRequested = false ∧
      s.out.stream.reader = some .wait ∧ (waitResults s.out.stream).length = seen := by
  obtain ⟨hp, hq, hc, -⟩ := h.draining.inv.out.sound.waiting (by simp [h.one])
  have hcopy := h.draining.inv.copy
  unfold CopyOk at hcopy
  rw [h.copy] at hcopy
  obtain ⟨before, -, hr⟩ := hcopy
  have hone := hr.one
  have hcounted := hr.counted
  rw [h.one, unseen, List.length_drop, Bool.toNat_true] at hone
  exact ⟨hp, hq, hc, hr.reader, by omega⟩

/-- Another step of the stream while the read waits. -/
theorem next (hP : P.Lawful contents closed) (h : Waiting contents closed seen buffer s) {e : Event} {out : Output π}
    (hb : e.byWait s.out.stream = false) (hs : Stream.step P s.out e = some out) (hcl : closed out.pipe)
    (hone : out.stream.requests = 1) : Waiting contents closed seen buffer { s with out } :=
  ⟨⟨h.draining.inv.other hP hb hs, hcl⟩, h.copy, hone⟩

/-- The pipe is read, and the read gets what comes out. -/
theorem reads (hP : P.Lawful contents closed) (hready : P.Prompt closed) (h : Waiting contents closed seen buffer s)
    {room : Nat} (hpull : s.out.stream.pull = some (.reading room)) :
    Leads (Collecting.step P) Alone s (Answered contents closed seen buffer (s.remaining contents)) := by
  obtain ⟨hp, hq, hc, hr, hlen⟩ := h.facts
  have hroom : 0 < room := by
    have hok := h.draining.inv.out.pull
    unfold PullOk at hok
    rw [hpull] at hok
    exact hok.1
  obtain ⟨d, hd⟩ := hready s.out.pipe room hroom h.draining.closed
  obtain ⟨-, hcontents⟩ := hP.read s.out.pipe room hd
  let out : Output π :=
    { s.out with pipe := (P.read s.out.pipe room).2, stream := pullAnswered s.out.stream (.ok d) }
  have hs : Stream.step P s.out .pullReads = some out := by
    simp only [Stream.step, hpull]
    rw [hd]
  have hcl : closed out.pipe := (hP.stays s.out.pipe room).trans h.draining.closed
  refine .first (.other .pullReads) rfl (t := { s with out }) (by simp [Collecting.step, Event.byWait, hs]) (.refl ?_)
  refine ⟨⟨h.draining.inv.other hP rfl hs, hcl⟩, h.copy, ?_⟩
  -- The one read that waits gets the result.
  have hlast : ∀ r, out.stream.results = s.out.stream.results ++ [(.wait, r)] →
      (waitResults out.stream)[seen]? = some r := by
    intro r hresults
    rw [waitResults_append hresults, List.getElem?_append_right (Nat.le_of_eq hlen), hlen, Nat.sub_self]
    rfl
  cases d with
  | nil =>
    refine ⟨.done, hlast .done ?_, fun h => by cases h⟩
    simp only [out, pullAnswered, ReadableStream.close_empty hc hp hq, pulled, ReadableStream.closeStream,
      ReadableStream.settle, hr, h.one]
    rfl
  | cons b data =>
    have henqueue := ReadableStream.enqueue_handed (σ := strategy) hc hp hr (n := 0) h.one (b :: data)
    refine ⟨.chunk (b :: data), hlast _ ?_, fun _ => ?_⟩
    · simp only [out, pullAnswered, henqueue, pulled]
      rfl
    · have hqueue : out.stream.queue = [] := by
        simp only [out, pullAnswered, henqueue, pulled]
        exact hq
      show (contents (P.read s.out.pipe room).2).length + out.stream.queue.length <
        (contents s.out.pipe).length + s.out.stream.queue.length
      rw [hqueue, hq, hcontents, List.length_append, List.length_cons]
      omega

/-- The pull in flight is run to its end, or another one is called first. -/
theorem pulls (hP : P.Lawful contents closed) (hready : P.Prompt closed) (h : Waiting contents closed seen buffer s)
    (hstarted : s.out.stream.started) :
    Leads (Collecting.step P) Alone s (Answered contents closed seen buffer (s.remaining contents)) := by
  obtain ⟨hp, hq, hc, -, -⟩ := h.facts
  have hcall : s.out.stream.shouldCallPull strategy :=
    ReadableStream.shouldCallPull_iff.mpr ⟨hc, hp, hstarted, .inl (by simp [h.one])⟩
  -- A pull that was called begins to read.
  have hcalled : ∀ {s : Collecting π}, Waiting contents closed seen buffer s → s.out.stream.pull = some .called →
      Leads (Collecting.step P) Alone s (Answered contents closed seen buffer (s.remaining contents)) := by
    intro s h hpull
    let room := bufferRoom (capacity (s.out.stream.desiredSize strategy))
    let out : Output π := { s.out with stream := { s.out.stream with pull := some (.reading room) } }
    have hs : Stream.step P s.out .pullBegins = some out := by
      simp only [Stream.step, hpull]
      rfl
    have hnext : Waiting contents closed seen buffer { s with out } := h.next hP rfl hs h.draining.closed h.one
    exact .first (.other .pullBegins) rfl (t := { s with out }) (by simp [Collecting.step, Event.byWait, hs])
      (hnext.reads hP hready rfl)
  obtain ⟨pull, hpull, hagain⟩ := h.draining.inv.out.fed hcall
  cases pull with
  | called => exact hcalled h hpull
  | reading room => exact h.reads hP hready hpull
  | returned ok =>
    have hok := h.draining.inv.out.pull
    unfold PullOk at hok
    rw [hpull] at hok
    cases ok with
    | false => exact absurd hp (hok rfl)
    | true =>
      -- The next pull was asked for while this one was in flight.
      let out : Output π := { s.out with stream := s.out.stream.pullFulfilled strategy }
      have hs : Stream.step P s.out .pullReturns = some out := by simp [Stream.step, hpull, out]
      have hstream : out.stream = { s.out.stream with pull := some .called, pullAgain := false } := by
        have hcall' : ReadableStream.shouldCallPull strategy
            { s.out.stream with pull := none, pullAgain := false } = true := hcall
        simp only [out, ReadableStream.pullFulfilled, hagain trivial, if_true, ReadableStream.callPullIfNeeded, hcall',
          Option.none_or, Option.isSome_none, Bool.and_false, Bool.or_false]
        rfl
      have hnext : Waiting contents closed seen buffer { s with out } :=
        h.next hP rfl hs h.draining.closed (by rw [hstream]; exact h.one)
      have hremaining : Collecting.remaining contents { s with out } = s.remaining contents := by
        simp only [Collecting.remaining, hstream]
        rfl
      refine .first (.other .pullReturns) rfl (t := { s with out }) (by simp [Collecting.step, Event.byWait, hs]) ?_
      rw [← hremaining]
      exact hcalled hnext (by rw [hstream])

/-- The read that waits is settled, when the stream has not been started either. -/
theorem answered (hP : P.Lawful contents closed) (hready : P.Prompt closed)
    (h : Waiting contents closed seen buffer s) :
    Leads (Collecting.step P) Alone s (Answered contents closed seen buffer (s.remaining contents)) := by
  by_cases hstarted : s.out.stream.started
  · exact h.pulls hP hready hstarted
  · let out : Output π := { s.out with stream := s.out.stream.start strategy }
    have hs : Stream.step P s.out .start = some out := by simp [Stream.step, hstarted, out]
    have hnext : Waiting contents closed seen buffer { s with out } := h.next hP rfl hs h.draining.closed h.one
    exact .first (.other .start) rfl (t := { s with out }) (by simp [Collecting.step, Event.byWait, hs])
      (hnext.pulls hP hready rfl)

end Waiting

/-- The collecting has come to its end. -/
def Collecting.Over (s : Collecting π) : Prop := (∃ buffer, s.copy = .finished buffer) ∨ s.copy = .failed

/-- Between two chunks, with less than `n` to come. -/
structure Between (contents : π → Bytes) (closed : π → Bool) (n : Nat) (s : Collecting π) : Prop where
  draining : Draining contents closed s
  copy : ∃ seen buffer, s.copy = .reading false seen buffer
  less : s.remaining contents < n

/-- `wait` looks at the result that it has got. -/
theorem Answered.receives (hP : P.Lawful contents closed) {n : Nat} (h : Answered contents closed seen buffer n s) :
    Leads (Collecting.step P) Alone s fun t => Between contents closed n t ∨ t.Over := by
  obtain ⟨r, hr, hless⟩ := h.result
  have hs : Collecting.step P s .receive = some (s.receive seen buffer r) := by
    simp [Collecting.step, h.copy, hr]
  refine .first .receive rfl hs (.refl ?_)
  cases r with
  | chunk c =>
    exact .inl ⟨⟨h.draining.inv.step hP hs, h.draining.closed⟩, ⟨_, _, rfl⟩, hless rfl⟩
  | done => exact .inr (.inl ⟨buffer, rfl⟩)
  | failed => exact .inr (.inr rfl)

/-- A round: `wait` asks for a chunk, and gets one or comes to the end. -/
theorem Between.round (hP : P.Lawful contents closed) (hready : P.Prompt closed) {n : Nat}
    (h : Between contents closed n s) :
    Leads (Collecting.step P) Alone s fun t => Between contents closed (s.remaining contents) t ∨ t.Over := by
  obtain ⟨seen, buffer, hcopy⟩ := h.copy
  have hok := h.draining.inv.copy
  unfold CopyOk at hok
  rw [hcopy] at hok
  obtain ⟨before, -, hr⟩ := hok
  have hone := hr.one
  rw [Bool.toNat_false] at hone
  have hlen : (waitResults s.out.stream).length = seen := by
    have hcounted := hr.counted
    rw [unseen, List.length_drop] at hone
    omega
  obtain ⟨stream, ht⟩ : ∃ stream, s.out.stream.read strategy = some stream := by
    simp [ReadableStream.read, hr.reader]
  have hs : Collecting.step P s .ask = some { s.withStream stream with copy := .reading true seen buffer } := by
    simp [Collecting.step, hcopy, ht]
  have hnext : Draining contents closed { s.withStream stream with copy := .reading true seen buffer } :=
    ⟨h.draining.inv.step hP hs, h.draining.closed⟩
  -- The result of a read that need not wait.
  have hnow : ∀ r, stream.results = s.out.stream.results ++ [(.wait, r)] → (r.chunk?.isSome →
      (contents s.out.pipe).length + stream.queue.length < s.remaining contents) →
      Answered contents closed seen buffer (s.remaining contents)
        { s.withStream stream with copy := .reading true seen buffer } := by
    intro r hresults hless
    refine ⟨hnext, rfl, r, ?_, hless⟩
    show (waitResults stream)[seen]? = some r
    rw [waitResults_append hresults, List.getElem?_append_right (Nat.le_of_eq hlen), hlen, Nat.sub_self]
    rfl
  have hanswered : Leads (Collecting.step P) Alone { s.withStream stream with copy := .reading true seen buffer }
      (Answered contents closed seen buffer (s.remaining contents)) := by
    obtain ⟨i, hi, hread⟩ := ReadableStream.read_inv ht
    obtain rfl : Reader.wait = i := by simpa [hr.reader] using hi
    cases hread with
    | closed hp => exact .refl (hnow .done rfl fun h => by cases h)
    | errored hp => exact .refl (hnow .failed rfl fun h => by cases h)
    | waits hp hq =>
      have hwaiting : Waiting contents closed seen buffer { s.withStream _ with copy := .reading true seen buffer } :=
        ⟨hnext, rfl, show s.out.stream.requests + 1 = 1 by omega⟩
      exact hwaiting.answered hP hready
    | @last c hp hq hc =>
      refine .refl (hnow (.chunk c) ?_ fun _ => ?_)
      · simp [ReadableStream.closeStream, ReadableStream.settle, show s.out.stream.requests = 0 by omega]
      · simp [Collecting.remaining, hq]
    | @taken c queue hp hq hc =>
      refine .refl (hnow (.chunk c) rfl fun _ => ?_)
      simp [Collecting.remaining, hq]
  exact .first .ask rfl hs (hanswered.trans fun t ht => ht.receives hP)

/-- By induction on what is still to come. -/
theorem Between.over (hP : P.Lawful contents closed) (hready : P.Prompt closed) {n : Nat}
    (h : Between contents closed n s) : Leads (Collecting.step P) Alone s Collecting.Over := by
  induction n using Nat.strongRecOn generalizing s with
  | _ n ih =>
    refine (h.round hP hready).trans fun t ht => ?_
    rcases ht with ht | ht
    · exact ih _ h.less ht
    · exact .refl ht

/-- A collecting that has begun comes to its end without the process and the user. -/
theorem Draining.over (hP : P.Lawful contents closed) (hready : P.Prompt closed) (h : Draining contents closed s)
    (hbegun : s.copy ≠ .idle) : Leads (Collecting.step P) Alone s Collecting.Over := by
  cases hcopy : s.copy with
  | idle => exact absurd hcopy hbegun
  | finished buffer => exact .refl (.inl ⟨buffer, hcopy⟩)
  | failed => exact .refl (.inr hcopy)
  | reading asked seen buffer =>
    cases asked with
    | false =>
      exact Between.over hP hready (n := s.remaining contents + 1) ⟨h, ⟨seen, buffer, hcopy⟩, Nat.lt_succ_self _⟩
    | true =>
      have hok := h.inv.copy
      unfold CopyOk at hok
      rw [hcopy] at hok
      obtain ⟨before, -, hr⟩ := hok
      have hone := hr.one
      rw [Bool.toNat_true] at hone
      have hanswered : Leads (Collecting.step P) Alone s
          (Answered contents closed seen buffer (s.remaining contents + 1)) := by
        cases hunseen : unseen s.out.stream seen with
        | nil =>
          have hwaiting : Waiting contents closed seen buffer s :=
            ⟨h, hcopy, by simpa [hunseen] using hone⟩
          refine (hwaiting.answered hP hready).trans fun t ht => .refl ⟨ht.draining, ht.copy, ?_⟩
          obtain ⟨r, hr, hless⟩ := ht.result
          exact ⟨r, hr, fun hchunk => Nat.lt_succ_of_lt (hless hchunk)⟩
        | cons r rest =>
          refine .refl ⟨h, hcopy, r, ?_, fun _ => Nat.lt_succ_self _⟩
          have hhead := congrArg List.head? hunseen
          rwa [unseen, List.head?_drop] at hhead
      refine (hanswered.trans fun t ht => ht.receives hP).trans fun t ht => ?_
      rcases ht with ht | ht
      · exact ht.over hP hready
      · exact .refl ht

end Drain

/-! ### The whole instance -/

/-- What happens to an instance without the process and the user. -/
def InstanceEvent.ofWait : InstanceEvent → Bool
  | .stdout e | .stderr e => (CollectEvent.other e).ofWait
  | .askStdout | .receiveStdout | .askStderr | .receiveStderr | .join => true
  | .stdin _ | .exited _ | .exitDropped | .call | .stdinSettled _ => false

section Instance

variable {P : VirtualPipe π} {contents : π → Bytes} {closed : π → Bool} {s : Instance π} {stdin : Bool}

/-- The run of an output goes on inside the instance, which is collecting. -/
theorem Instance.leads_stdout (hw : s.wait = .collecting) {p : Collecting π → Prop}
    (h : Leads (Collecting.step P) Alone s.stdout p) :
    Leads (Instance.step P) (fun _ e => e.ofWait) s fun t => ∃ c, p c ∧ t = { s with stdout := c } := by
  obtain ⟨c, hr, hp⟩ := h
  refine ⟨{ s with stdout := c }, ?_, c, hp, rfl⟩
  refine hr.lift (fun c => { s with stdout := c }) fun {c d e} he hs => ?_
  cases e with
  | other e => exact ⟨.stdout e, he, by simp [Instance.step, hs]⟩
  | ask => exact ⟨.askStdout, rfl, by simp [Instance.step, hw, hs]⟩
  | receive => exact ⟨.receiveStdout, rfl, by simp [Instance.step, hw, hs]⟩
  | begin => cases he
  | drop => cases he

theorem Instance.leads_stderr (hw : s.wait = .collecting) {p : Collecting π → Prop}
    (h : Leads (Collecting.step P) Alone s.stderr p) :
    Leads (Instance.step P) (fun _ e => e.ofWait) s fun t => ∃ c, p c ∧ t = { s with stderr := c } := by
  obtain ⟨c, hr, hp⟩ := h
  refine ⟨{ s with stderr := c }, ?_, c, hp, rfl⟩
  refine hr.lift (fun c => { s with stderr := c }) fun {c d e} he hs => ?_
  cases e with
  | other e => exact ⟨.stderr e, he, by simp [Instance.step, hs]⟩
  | ask => exact ⟨.askStderr, rfl, by simp [Instance.step, hw, hs]⟩
  | receive => exact ⟨.receiveStderr, rfl, by simp [Instance.step, hw, hs]⟩
  | begin => cases he
  | drop => cases he

/-- Once both outputs are over and the exit condition is known, `try_join!` has an answer. -/
theorem Instance.joins (hout : s.stdout.Over) (herr : s.stderr.Over) (hexit : s.exit ≠ .pending) :
    ∃ t, s.join = some t ∧ ∃ r, t.wait = .returned r := by
  unfold Instance.join
  split
  · exact ⟨_, rfl, _, rfl⟩
  rename_i hfailed
  obtain ⟨hout', herr'⟩ := not_or.mp hfailed
  split
  · exact ⟨_, rfl, _, rfl⟩
  rename_i hdropped
  obtain ⟨stdout, hout⟩ := hout.resolve_right hout'
  obtain ⟨stderr, herr⟩ := herr.resolve_right herr'
  cases hx : s.exit with
  | pending => exact absurd hx hexit
  | dropped => exact absurd hx hdropped
  | sent code =>
    refine ⟨{ s with wait := .returned (.ok { code, ok := code == 0, stdout, stderr }) }, ?_, _, rfl⟩
    simp [hout, herr, hx, Copy.result?, Exit.code?]

/-- A call of `wait` that collects comes back once the process has closed its outputs and the exit condition is known:
    the streams and `wait` need nothing more of the process and nothing of the user, whatever has happened before. -/
theorem wait_returns (hP : P.Lawful contents closed) (hready : P.Prompt closed)
    (hr : Reach (Instance.step P) (Instance.init P stdin) s) (hw : s.wait = .collecting)
    (hout : closed s.stdout.out.pipe) (herr : closed s.stderr.out.pipe) (hexit : s.exit ≠ .pending) :
    Leads (Instance.step P) (fun _ e => e.ofWait) s fun t => ∃ r, t.wait = .returned r := by
  have h : s.Inv contents closed := .of_reach hP hr
  obtain ⟨hbegun, hbegun'⟩ := h.begun hw
  have hstdout : Draining contents closed s.stdout := ⟨h.stdout, hout⟩
  have hstderr : Draining contents closed s.stderr := ⟨h.stderr, herr⟩
  refine (Instance.leads_stdout hw (hstdout.over hP hready hbegun)).trans ?_
  rintro t ⟨c, hc, rfl⟩
  refine (Instance.leads_stderr (s := { s with stdout := c }) hw (hstderr.over hP hready hbegun')).trans ?_
  rintro t ⟨d, hd, rfl⟩
  obtain ⟨t, hjoin, hreturned⟩ := Instance.joins (s := { s with stdout := c, stderr := d }) hc hd hexit
  refine .first .join rfl ?_ (.refl hreturned)
  simp only [Instance.step, hw, if_true]
  exact hjoin

end Instance

/-- `wait` was called before anything was read, and the process has written, closed its outputs and exited since. -/
theorem wait_returns_hello : ∃ s, Reach (Instance.step queuePipe) (Instance.init queuePipe false) s ∧
    Leads (Instance.step queuePipe) (fun _ e => e.ofWait) s fun t => ∃ r, t.wait = .returned r := by
  obtain ⟨s, hr, hw, hout, herr, hexit⟩ : ∃ s, Reach (Instance.step queuePipe) (Instance.init queuePipe false) s ∧
      s.wait = .collecting ∧ s.stdout.out.pipe.2 = true ∧ s.stderr.out.pipe.2 = true ∧ s.exit ≠ .pending :=
    exists_reach [.call, .stdout (.write [1, 2]), .stderr .start, .stderr .close, .askStderr, .stdout .close,
      .exited 0] _ (by decide)
  exact ⟨s, hr, wait_returns queuePipe_lawful queuePipe_prompt hr hw hout herr hexit⟩

end Stream
end WasmerJs
