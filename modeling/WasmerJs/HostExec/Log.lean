import WasmerJs.HostExec.Host

/-! What the log of a session says: the requests that came in, the answers that went out, and what the callbacks
    produced. -/

namespace WasmerJs
namespace HostExec

variable {W F : Type}

/-! ### One entry -/

/-- A read or a try-read came in. -/
def Entry.isAsk : Entry W F → Bool
  | posted m => m.isRead
  | executed .. | called .. | settled .. => false

def Entry.effects : Entry W F → List (Effect W F)
  | executed _ effects => effects
  | posted _ | called .. | settled .. => []

def Entry.produced? : Entry W F → Option (MsgType × Bytes)
  | called _ _ c => c.message
  | posted _ | executed .. | settled .. => none

def Entry.isSettled : Entry W F → Bool
  | settled .. => true
  | posted _ | executed .. | called .. => false

/-- The answer to a read or a try-read. -/
def Effect.isAnswer : Effect W F → Bool
  | readResponse .. | noData .. => true
  | startResponse .. | pollResponse .. | call .. => false

/-- An answer that carries the exit code. -/
def Effect.isExit : Effect W F → Bool
  | readResponse _ _ msgType _ _ => msgType = MSG_TYPE_EXIT
  | startResponse .. | noData .. | pollResponse .. | call .. => false

/-- The message that an answer carries, apart from the exit code. -/
def Effect.output? : Effect W F → Option (MsgType × Bytes)
  | readResponse _ _ msgType _ (some data) => if msgType = MSG_TYPE_EXIT then none else some (msgType, data)
  | readResponse _ _ _ _ none | startResponse .. | noData .. | pollResponse .. | call .. => none

/-! ### The log -/

variable {log pre : List (Entry W F)} {e : Entry W F}

/-- How many reads and try-reads came in. -/
def asked (log : List (Entry W F)) : Nat := log.countP Entry.isAsk

/-- Everything that was sent to the worker, and every call of a JS function, in order. -/
def effects (log : List (Entry W F)) : List (Effect W F) := log.flatMap Entry.effects

def answered (log : List (Entry W F)) : Nat := (effects log).countP Effect.isAnswer

/-- The messages that reads and try-reads were answered with, without the exit code. -/
def outputs (log : List (Entry W F)) : List (MsgType × Bytes) := (effects log).filterMap Effect.output?

def exits (log : List (Entry W F)) : Nat := (effects log).countP Effect.isExit

def produced (log : List (Entry W F)) : List (MsgType × Bytes) := log.filterMap Entry.produced?

def settlements (log : List (Entry W F)) : Nat := log.countP Entry.isSettled

/-- The messages that were produced before the promise settled. -/
def producedBefore (log : List (Entry W F)) : List (MsgType × Bytes) := produced (log.takeWhile (!·.isSettled))

@[simp] theorem asked_append : asked (log ++ [e]) = asked log + if e.isAsk then 1 else 0 := by
  simp [asked, List.countP_append, List.countP_singleton]

@[simp] theorem effects_append : effects (log ++ [e]) = effects log ++ e.effects := by
  simp [effects]

@[simp] theorem answered_append : answered (log ++ [e]) = answered log + e.effects.countP Effect.isAnswer := by
  simp [answered]

@[simp] theorem outputs_append : outputs (log ++ [e]) = outputs log ++ e.effects.filterMap Effect.output? := by
  simp [outputs]

@[simp] theorem exits_append : exits (log ++ [e]) = exits log + e.effects.countP Effect.isExit := by
  simp [exits]

@[simp] theorem produced_append : produced (log ++ [e]) = produced log ++ e.produced?.toList := by
  cases h : e.produced? <;> simp [produced, h]

@[simp] theorem settlements_append : settlements (log ++ [e]) = settlements log + if e.isSettled then 1 else 0 := by
  simp [settlements, List.countP_append, List.countP_singleton]

/-- What holds of every entry, with the entries before it. -/
theorem forall_entry_concat {p : List (Entry W F) → Entry W F → Prop} :
    (∀ pre x post, log ++ [e] = pre ++ x :: post → p pre x) ↔
      (∀ pre x post, log = pre ++ x :: post → p pre x) ∧ p log e := by
  constructor
  · intro h
    refine ⟨fun pre x post hlog => h pre x (post ++ [e]) ?_, h log e [] rfl⟩
    rw [hlog, List.append_assoc, List.cons_append]
  · rintro ⟨h, he⟩ pre x post hlog
    rcases List.eq_nil_or_concat post with rfl | ⟨post, z, rfl⟩
    · obtain ⟨rfl, hx⟩ := List.append_inj' hlog rfl
      cases hx
      exact he
    · have hlog : log ++ [e] = (pre ++ x :: post) ++ [z] := by simpa using hlog
      obtain ⟨rfl, -⟩ := List.append_inj' hlog rfl
      exact h pre x post rfl

theorem producedBefore_prefix (log : List (Entry W F)) : producedBefore log <+: produced log :=
  List.IsPrefix.filterMap _ (List.takeWhile_prefix _)

/-- Once the promise has settled, nothing more is produced before it. -/
theorem producedBefore_append (h : 0 < settlements log) : producedBefore (log ++ [e]) = producedBefore log := by
  obtain ⟨x, hx, hs⟩ := List.countP_pos_iff.mp h
  have hne : (log.takeWhile (!·.isSettled)).length ≠ log.length := by
    intro hlen
    have hlog := (List.takeWhile_prefix fun x : Entry W F => !x.isSettled).eq_of_length hlen
    rw [← hlog] at hx
    simpa [hs] using List.mem_takeWhile_imp hx
  rw [producedBefore, List.takeWhile_append, if_neg hne, producedBefore]

end HostExec
end WasmerJs
