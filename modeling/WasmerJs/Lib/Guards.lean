import Mathlib

/-! Cells that a single thread borrows: shared with other readers, or exclusively. A guard lives as long as the
    computation that it is taken for, so a computation is given the guards that are alive when it starts, and it
    panics when it asks for a cell that one of them rules out. -/

namespace WasmerJs

/-- The guards of one cell that are alive. -/
inductive Borrow where
  | free
  | shared
  | exclusive
  deriving DecidableEq

/-- Computations on a state `σ` that borrow cells `K`; `none` is a panic. -/
abbrev Guarded (K σ : Type) := ReaderT (K → Borrow) (StateT σ Option)

namespace Guarded

variable {K σ α β : Type}

/-- A computation that borrows nothing. -/
def act (f : σ → α × σ) : Guarded K σ α := fun _ s => some (f s)

/-- No guard is alive. -/
def noGuards : K → Borrow := fun _ => .free

section Borrowing

variable [DecidableEq K]

/-- A shared guard of `k` is alive while `x` runs. -/
def shared (k : K) (x : Guarded K σ α) : Guarded K σ α := fun g s =>
  if g k = .exclusive then none else x (Function.update g k .shared) s

/-- The only guard of `k` is alive while `x` runs. -/
def exclusive (k : K) (x : Guarded K σ α) : Guarded K σ α := fun g s =>
  if g k = .free then x (Function.update g k .exclusive) s else none

end Borrowing

/-! ### Running -/

variable {g : K → Borrow} {s : σ}

@[simp] theorem pure_run (a : α) : (pure a : Guarded K σ α) g s = some (a, s) := rfl

@[simp] theorem act_run (f : σ → α × σ) : (act f : Guarded K σ α) g s = some (f s) := rfl

theorem bind_run (x : Guarded K σ α) (f : α → Guarded K σ β) :
    (x >>= f) g s = (x g s).bind fun r => f r.1 g r.2 := rfl

theorem bind_of_run {x : Guarded K σ α} {f : α → Guarded K σ β} {a : α} {t : σ} (h : x g s = some (a, t)) :
    (x >>= f) g s = f a g t := by
  rw [bind_run, h, Option.bind_some]

theorem act_bind (f : σ → α × σ) (k : α → Guarded K σ β) : (act f >>= k) g s = k (f s).1 g (f s).2 :=
  bind_of_run (act_run f)

/-- Computations in turn, each of which panics by the guards alone: one that panics is the end of all. -/
theorem forM_run {ι : Type} {f : ι → Guarded K σ PUnit} {ok : ι → Prop} [DecidablePred ok] {next : σ → ι → σ}
    (h : ∀ s i, f i g s = if ok i then some ((), next s i) else none) (is : List ι) (s : σ) :
    (forM is f : Guarded K σ PUnit) g s = if ∀ i ∈ is, ok i then some ((), is.foldl next s) else none := by
  induction is generalizing s with
  | nil => rfl
  | cons i is ih =>
    rw [List.forM_cons, bind_run, h]
    by_cases hi : ok i
    · rw [if_pos hi, Option.bind_some, ih]
      simp [hi]
    · simp [hi]

variable [DecidableEq K] {k : K} {x : Guarded K σ α}

theorem update_noGuards_eq_free {b : Borrow} (hb : b ≠ .free) {k' : K} :
    Function.update noGuards k b k' = .free ↔ k' ≠ k := by
  by_cases hk : k' = k
  · simp [hk, hb]
  · simp [hk, noGuards]

theorem shared_run (h : g k = .free) : shared k x g s = x (Function.update g k .shared) s := by
  simp [shared, h]

theorem exclusive_run (h : g k = .free) : exclusive k x g s = x (Function.update g k .exclusive) s := if_pos h

theorem exclusive_act (f : σ → α × σ) : exclusive k (act f) g s = if g k = .free then some (f s) else none := rfl

end Guarded
end WasmerJs
