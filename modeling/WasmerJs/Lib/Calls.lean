import Mathlib

/-! Components that are used one call at a time. A call gives a result and leaves the component in a new state, or it
    does not come back. A component implements a specification when it comes back from every call, with the result
    that the specification gives. -/

namespace WasmerJs
namespace Calls

variable {σ τ κ ρ : Type} {impl : σ → κ → Option (ρ × σ)} {spec : τ → κ → ρ × τ} {R : σ → τ → Prop}

/-- The results of a sequence of calls, and the state after it. -/
def results (impl : σ → κ → Option (ρ × σ)) : σ → List κ → Option (List ρ × σ)
  | s, [] => some ([], s)
  | s, k :: ks => do
    let (r, s) ← impl s k
    let (rs, s) ← results impl s ks
    some (r :: rs, s)

/-- The results that a specification gives. -/
def specified (spec : τ → κ → ρ × τ) : τ → List κ → List ρ × τ
  | t, [] => ([], t)
  | t, k :: ks =>
    let (r, t) := spec t k
    let (rs, t) := specified spec t ks
    (r :: rs, t)

/-- In related states a call comes back with the same result, and the states stay related. -/
def Implements (impl : σ → κ → Option (ρ × σ)) (spec : τ → κ → ρ × τ) (R : σ → τ → Prop) : Prop :=
  ∀ {s t}, R s t → ∀ k, ∃ s', impl s k = some ((spec t k).1, s') ∧ R s' (spec t k).2

theorem Implements.results (h : Implements impl spec R) {s : σ} {t : τ} (hst : R s t) (ks : List κ) :
    ∃ s', Calls.results impl s ks = some ((specified spec t ks).1, s') ∧ R s' (specified spec t ks).2 := by
  induction ks generalizing s t with
  | nil => exact ⟨s, rfl, hst⟩
  | cons k ks ih =>
    obtain ⟨s₁, hs₁, hr⟩ := h hst k
    obtain ⟨s', hs', hr'⟩ := ih hr
    refine ⟨s', ?_, hr'⟩
    simp [Calls.results, specified, hs₁, hs']

/-! ### Answers explained by what was called before -/

section Explained

variable {α : Type} {view : τ → α} {record : α → κ → ρ → α} {Good : κ → Prop} {Explains : τ → κ → ρ → Prop}

/-- A view of the state that only the calls and their results change is known from those before, and the state with this
    view explains the next result. -/
theorem specified_explained
    (h : ∀ t k, Good k → Explains t k (spec t k).1 ∧ view (spec t k).2 = record (view t) k (spec t k).1) (t : τ)
    (ks : List κ) (hgood : ∀ k ∈ ks, Good k) {before after : List (κ × ρ)} {k : κ} {r : ρ}
    (hhist : ks.zip (specified spec t ks).1 = before ++ (k, r) :: after) :
    view (specified spec t (before.map Prod.fst)).2 = before.foldl (fun a x => record a x.1 x.2) (view t) ∧
      Explains (specified spec t (before.map Prod.fst)).2 k r := by
  induction ks generalizing t before with
  | nil => cases before <;> cases hhist
  | cons k' ks ih =>
    obtain ⟨hexplains, hview⟩ := h t k' (hgood k' List.mem_cons_self)
    cases before with
    | nil =>
      cases hhist
      exact ⟨rfl, hexplains⟩
    | cons x before =>
      obtain ⟨rfl, hrest⟩ := List.cons.inj hhist
      rw [List.foldl_cons, ← hview]
      exact ih _ (fun k hk => hgood k (List.mem_cons_of_mem _ hk)) hrest

end Explained

end Calls
end WasmerJs
