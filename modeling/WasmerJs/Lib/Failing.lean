import Mathlib.Logic.Basic

/-! Computations on a state that may fail and then keep what they did to the state before: when they succeed, and what
    they leave alone whether they succeed or not. -/

namespace WasmerJs
namespace Failing

variable {ε ε' σ α β γ : Type}

/-- The state that a computation ends with. -/
def final : EStateM.Result ε σ α → σ
  | .ok _ s => s
  | .error _ s => s

/-- A result that comes from outside, with the state as it was. -/
def ofExcept (op : σ → Except ε α) : EStateM ε σ α := fun s =>
  match op s with
  | .ok a => .ok a s
  | .error e => .error e s

/-- A computation that says more about its failures. -/
def mapError (f : ε → ε') (x : EStateM ε σ α) : EStateM ε' σ α := fun s =>
  match x s with
  | .ok a s' => .ok a s'
  | .error e s' => .error (f e) s'

/-! ### Success -/

section Success

variable {x : EStateM ε σ α} {f : α → EStateM ε σ β} {s s' : σ}

theorem bind_ok {b : β} : (x >>= f) s = .ok b s' ↔ ∃ a s₁, x s = .ok a s₁ ∧ f a s₁ = .ok b s' := by
  show EStateM.bind x f s = _ ↔ _
  unfold EStateM.bind
  cases x s with
  | ok a s₁ =>
    constructor
    · intro h
      exact ⟨a, s₁, rfl, h⟩
    · rintro ⟨_, _, h, h'⟩
      cases h
      exact h'
  | error e s₁ => exact iff_of_false (fun h => by cases h) (fun ⟨_, _, h, _⟩ => by cases h)

theorem bind_error {e : ε} :
    (x >>= f) s = .error e s' ↔ x s = .error e s' ∨ ∃ a s₁, x s = .ok a s₁ ∧ f a s₁ = .error e s' := by
  show EStateM.bind x f s = _ ↔ _
  unfold EStateM.bind
  cases x s with
  | ok a s₁ =>
    constructor
    · intro h
      exact .inr ⟨a, s₁, rfl, h⟩
    · rintro (h | ⟨_, _, h, h'⟩)
      · cases h
      · cases h
        exact h'
  | error e' s₁ =>
    constructor
    · intro h
      cases h
      exact .inl rfl
    · rintro (h | ⟨_, _, h, -⟩)
      · cases h
        rfl
      · cases h

theorem ofExcept_ok {op : σ → Except ε α} {a : α} : ofExcept op s = .ok a s' ↔ op s = .ok a ∧ s' = s := by
  unfold ofExcept
  cases op s with
  | ok v =>
    constructor
    · intro h
      cases h
      exact ⟨rfl, rfl⟩
    · rintro ⟨h, rfl⟩
      cases h
      rfl
  | error e => exact iff_of_false (fun h => by cases h) (fun h => by cases h.1)

theorem mapError_ok {g : ε → ε'} {a : α} : mapError g x s = .ok a s' ↔ x s = .ok a s' := by
  unfold mapError
  cases x s with
  | ok v s₁ =>
    constructor
    · intro h
      cases h
      rfl
    · intro h
      cases h
      rfl
  | error e s₁ => exact iff_of_false (fun h => by cases h) (fun h => by cases h)

theorem mapError_error {g : ε → ε'} {e : ε'} :
    mapError g x s = .error e s' ↔ ∃ e₀, x s = .error e₀ s' ∧ g e₀ = e := by
  unfold mapError
  cases x s with
  | ok v s₁ => exact iff_of_false (fun h => by cases h) (fun ⟨_, h, _⟩ => by cases h)
  | error e₁ s₁ =>
    constructor
    · intro h
      cases h
      exact ⟨e₁, rfl, rfl⟩
    · rintro ⟨e₀, h, rfl⟩
      cases h
      rfl

end Success

/-! ### What is left alone -/

/-- Whether it succeeds or not, the computation does not change this part of the state. -/
def Preserves (part : σ → γ) (x : EStateM ε σ α) : Prop := ∀ s, part (final (x s)) = part s

section Preserves

variable {part : σ → γ} {x : EStateM ε σ α} {f : α → EStateM ε σ β}

theorem preserves_pure (a : α) : Preserves part (pure a : EStateM ε σ α) := fun _ => rfl

theorem preserves_throw (e : ε) : Preserves part (throw e : EStateM ε σ α) := fun _ => rfl

theorem preserves_get : Preserves part (get : EStateM ε σ σ) := fun _ => rfl

theorem Preserves.bind (hx : Preserves part x) (hf : ∀ a, Preserves part (f a)) : Preserves part (x >>= f) := by
  intro s
  have hs := hx s
  show part (final (EStateM.bind x f s)) = _
  unfold EStateM.bind
  cases hr : x s with
  | ok a s₁ =>
    rw [hr] at hs
    exact (hf a s₁).trans hs
  | error e s₁ =>
    rw [hr] at hs
    exact hs

theorem final_ofExcept (op : σ → Except ε α) (s : σ) : final (ofExcept op s) = s := by
  unfold ofExcept
  cases op s with
  | ok a => rfl
  | error e => rfl

theorem preserves_ofExcept {op : σ → Except ε α} : Preserves part (ofExcept op) :=
  fun s => congrArg part (final_ofExcept op s)

/-- What follows does not change the part of the state that it preserves. -/
theorem final_bind (part : σ → γ) (hf : ∀ a, Preserves part (f a)) (s : σ) :
    part (final ((x >>= f) s)) = part (final (x s)) := by
  show part (final (EStateM.bind x f s)) = _
  unfold EStateM.bind
  cases x s with
  | ok a s₁ => exact hf a s₁
  | error e s₁ => rfl

theorem bind_of_ok {s s' : σ} {a : α} (h : x s = .ok a s') : (x >>= f) s = f a s' := by
  show EStateM.bind x f s = _
  rw [EStateM.bind, h]

theorem Preserves.of_ok (hx : Preserves part x) {s s' : σ} {a : α} (h : x s = .ok a s') : part s' = part s := by
  have hs := hx s
  rw [h] at hs
  exact hs

theorem Preserves.of_error (hx : Preserves part x) {s s' : σ} {e : ε} (h : x s = .error e s') : part s' = part s := by
  have hs := hx s
  rw [h] at hs
  exact hs

end Preserves

/-! ### The first failure of a loop -/

section Loops

variable {good bad good' bad' : α → Prop} {x : α} {xs ys : List α}

/-- One element is bad, and all before it are good. -/
def FirstIs (good bad : α → Prop) (xs : List α) : Prop :=
  ∃ before x after, xs = before ++ x :: after ∧ (∀ y ∈ before, good y) ∧ bad x

theorem not_firstIs_nil : ¬ FirstIs good bad [] := by
  rintro ⟨before, x, after, h, -⟩
  exact List.cons_ne_nil _ _ (List.append_eq_nil_iff.mp h.symm).2

theorem firstIs_cons : FirstIs good bad (x :: xs) ↔ bad x ∨ good x ∧ FirstIs good bad xs := by
  constructor
  · rintro ⟨before, y, after, h, hgood, hbad⟩
    cases before with
    | nil =>
      cases h
      exact .inl hbad
    | cons z before =>
      cases h
      obtain ⟨hz, hgood⟩ := List.forall_mem_cons.mp hgood
      exact .inr ⟨hz, before, y, after, rfl, hgood, hbad⟩
  · rintro (hbad | ⟨hx, before, y, after, rfl, hgood, hbad⟩)
    · exact ⟨[], x, xs, rfl, List.forall_mem_nil _, hbad⟩
    · exact ⟨x :: before, y, after, rfl, List.forall_mem_cons.mpr ⟨hx, hgood⟩, hbad⟩

theorem firstIs_congr (hgood : ∀ x ∈ xs, (good x ↔ good' x)) (hbad : ∀ x ∈ xs, (bad x ↔ bad' x)) :
    FirstIs good bad xs ↔ FirstIs good' bad' xs := by
  induction xs with
  | nil => exact iff_of_false not_firstIs_nil not_firstIs_nil
  | cons x xs ih =>
    obtain ⟨hg, hgood⟩ := List.forall_mem_cons.mp hgood
    obtain ⟨hb, hbad⟩ := List.forall_mem_cons.mp hbad
    rw [firstIs_cons, firstIs_cons, hg, hb, ih hgood hbad]

theorem firstIs_map {f : β → α} {zs : List β} :
    FirstIs good bad (zs.map f) ↔ FirstIs (fun z => good (f z)) (fun z => bad (f z)) zs := by
  induction zs with
  | nil => exact iff_of_false not_firstIs_nil not_firstIs_nil
  | cons z zs ih => rw [List.map_cons, firstIs_cons, firstIs_cons, ih]

theorem firstIs_of_not_forall (h : ¬ ∀ x ∈ xs, good x) : FirstIs good (fun x => ¬ good x) xs := by
  induction xs with
  | nil => exact absurd (List.forall_mem_nil _) h
  | cons x xs ih =>
    by_cases hx : good x
    · exact firstIs_cons.mpr (.inr ⟨hx, ih fun hall => h (List.forall_mem_cons.mpr ⟨hx, hall⟩)⟩)
    · exact firstIs_cons.mpr (.inl hx)

end Loops

end Failing
end WasmerJs
