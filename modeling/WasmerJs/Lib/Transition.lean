import Mathlib

/-! Transition systems given by a partial step function: the states that runs reach when every step
    meets a condition, and the rule that derives an invariant of these states from one step. -/

namespace WasmerJs
namespace Transition

variable {σ ε : Type} {step : σ → ε → Option σ} {ok ok' : σ → ε → Prop} {s t u : σ}

/-- A run leads from `s` to a state, and the state before each of its steps meets `ok` with the event. -/
inductive ReachVia (step : σ → ε → Option σ) (ok : σ → ε → Prop) (s : σ) : σ → Prop where
  | refl : ReachVia step ok s s
  | step {t u : σ} (e : ε) (hr : ReachVia step ok s t) (ho : ok t e) (hs : step t e = some u) :
      ReachVia step ok s u

/-- Some run leads from `s` to a state. -/
abbrev Reach (step : σ → ε → Option σ) (s : σ) : σ → Prop := ReachVia step (fun _ _ => True) s

/-- What holds at the start and is kept by each step that meets the condition holds in every state reached. -/
theorem ReachVia.invariant {I : σ → Prop} (h0 : I s)
    (hstep : ∀ {t u : σ} {e : ε}, I t → ok t e → step t e = some u → I u) (hr : ReachVia step ok s t) : I t := by
  induction hr with
  | refl => exact h0
  | step e _ ho hs ih => exact hstep ih ho hs

theorem ReachVia.mono (h : ∀ t e, ok t e → ok' t e) (hr : ReachVia step ok s t) : ReachVia step ok' s t := by
  induction hr with
  | refl => exact .refl
  | step e _ ho hs ih => exact .step e ih (h _ e ho) hs

theorem ReachVia.trans (h₁ : ReachVia step ok s t) (h₂ : ReachVia step ok t u) : ReachVia step ok s u := by
  induction h₂ with
  | refl => exact h₁
  | step e _ ho hs ih => exact .step e ih ho hs

/-- A run of a part of a system is one of the whole when each of its steps is. -/
theorem ReachVia.lift {τ δ : Type} {step' : τ → δ → Option τ} {okτ : τ → δ → Prop} (f : σ → τ)
    (hf : ∀ {t u : σ} {e : ε}, ok t e → step t e = some u → ∃ e', okτ (f t) e' ∧ step' (f t) e' = some (f u))
    (hr : ReachVia step ok s t) : ReachVia step' okτ (f s) (f t) := by
  induction hr with
  | refl => exact .refl
  | step e _ ho hs ih =>
    obtain ⟨e', ho', hs'⟩ := hf ho hs
    exact .step e' ih ho' hs'

/-- Some run whose steps meet the condition leads to a state with a property. -/
def Leads (step : σ → ε → Option σ) (ok : σ → ε → Prop) (s : σ) (p : σ → Prop) : Prop :=
  ∃ t, ReachVia step ok s t ∧ p t

namespace Leads

variable {p q : σ → Prop}

theorem refl (h : p s) : Leads step ok s p := ⟨s, .refl, h⟩

theorem first (e : ε) (ho : ok s e) (hs : step s e = some t) (h : Leads step ok t p) : Leads step ok s p := by
  obtain ⟨u, hr, hp⟩ := h
  exact ⟨u, (ReachVia.step e .refl ho hs).trans hr, hp⟩

theorem trans (h : Leads step ok s p) (hpq : ∀ t, p t → Leads step ok t q) : Leads step ok s q := by
  obtain ⟨t, hr, hp⟩ := h
  obtain ⟨u, hr', hq⟩ := hpq t hp
  exact ⟨u, hr.trans hr', hq⟩

end Leads

/-- The state after the events of a list, when each of them can happen in turn. -/
def run (step : σ → ε → Option σ) : σ → List ε → Option σ
  | s, [] => some s
  | s, e :: es => (step s e).bind fun t => run step t es

@[simp] theorem run_nil : run step s [] = some s := rfl

@[simp] theorem run_cons {e : ε} {es : List ε} :
    run step s (e :: es) = (step s e).bind fun t => run step t es := rfl

theorem run_append {es es' : List ε} : run step s (es ++ es') = (run step s es).bind fun t => run step t es' := by
  induction es generalizing s with
  | nil => simp
  | cons e es ih => simp [ih, Option.bind_assoc]

theorem run_concat {e : ε} {es : List ε} : run step s (es ++ [e]) = (run step s es).bind fun t => step t e := by
  simp [run_append]

/-- Every step of the run over a list of events meets the condition. -/
def RunOk (step : σ → ε → Option σ) (ok : σ → ε → Prop) : σ → List ε → Prop
  | _, [] => True
  | s, e :: es =>
    ok s e ∧ match step s e with
      | some t => RunOk step ok t es
      | none => True

instance RunOk.decidable [∀ s e, Decidable (ok s e)] : ∀ s es, Decidable (RunOk step ok s es)
  | _, [] => inferInstanceAs (Decidable True)
  | s, e :: es =>
    have : Decidable (match step s e with
        | some t => RunOk step ok t es
        | none => True) :=
      match step s e with
      | some t => RunOk.decidable t es
      | none => inferInstanceAs (Decidable True)
    inferInstanceAs (Decidable (_ ∧ _))

theorem reachVia_of_run {es : List ε} (ho : RunOk step ok s es) (hr : run step s es = some t) :
    ReachVia step ok s t := by
  induction es generalizing s with
  | nil =>
    cases hr
    exact .refl
  | cons e es ih =>
    obtain ⟨u, hs, hr⟩ := Option.bind_eq_some_iff.mp hr
    obtain ⟨ho, hrest⟩ := ho
    rw [hs] at hrest
    exact (ReachVia.step e .refl ho hs).trans (ih hrest hr)

theorem runOk_true : ∀ {s : σ} {es : List ε}, RunOk step (fun _ _ => True) s es
  | _, [] => trivial
  | s, e :: es => by
    refine ⟨trivial, ?_⟩
    split
    · exact runOk_true
    · trivial

theorem reach_of_run (es : List ε) (hr : run step s es = some t) : Reach step s t := reachVia_of_run runOk_true hr

/-- A condition on the events alone. -/
theorem runOk_iff_forall {p : ε → Prop} {es : List ε} (hr : run step s es = some t) :
    RunOk step (fun _ e => p e) s es ↔ ∀ e ∈ es, p e := by
  induction es generalizing s with
  | nil => simp [RunOk]
  | cons e es ih =>
    obtain ⟨u, hs, hr⟩ := Option.bind_eq_some_iff.mp hr
    simp only [RunOk, hs, ih hr, List.forall_mem_cons]

/-- A list of events whose run ends in a state with property `p` reaches such a state. -/
theorem exists_reachVia (es : List ε) (p : σ → Prop) [DecidablePred p] (ho : RunOk step ok s es)
    (h : (run step s es).any (fun t => p t) = true) : ∃ t, ReachVia step ok s t ∧ p t := by
  obtain ⟨t, hr, hp⟩ := (Option.any_eq_true _ _).mp h
  exact ⟨t, reachVia_of_run ho hr, of_decide_eq_true hp⟩

theorem exists_reach (es : List ε) (p : σ → Prop) [DecidablePred p]
    (h : (run step s es).any (fun t => p t) = true) : ∃ t, Reach step s t ∧ p t :=
  exists_reachVia es p runOk_true h

/-! ### Every state of a run -/

/-- Every state that a run over a list of events passes through, the first and the last included, has `p`. -/
def RunAll (step : σ → ε → Option σ) (p : σ → Prop) : σ → List ε → Prop
  | s, [] => p s
  | s, e :: es =>
    p s ∧ match step s e with
      | some t => RunAll step p t es
      | none => True

theorem RunAll.mono {p q : σ → Prop} (hpq : ∀ s, p s → q s) {es : List ε} (h : RunAll step p s es) :
    RunAll step q s es := by
  induction es generalizing s with
  | nil => exact hpq s h
  | cons e es ih =>
    obtain ⟨hp, hrest⟩ := h
    refine ⟨hpq s hp, ?_⟩
    cases hs : step s e with
    | none => trivial
    | some t =>
      rw [hs] at hrest
      exact ih hrest

theorem RunAll.append {p : σ → Prop} {es es' : List ε} (h : RunAll step p s es) (hr : run step s es = some t)
    (h' : RunAll step p t es') : RunAll step p s (es ++ es') := by
  induction es generalizing s with
  | nil =>
    cases hr
    exact h'
  | cons e es ih =>
    obtain ⟨u, hs, hr⟩ := Option.bind_eq_some_iff.mp hr
    obtain ⟨hp, hrest⟩ := h
    rw [hs] at hrest
    refine ⟨hp, ?_⟩
    rw [hs]
    exact ih hrest hr

theorem RunAll.of_append {p : σ → Prop} {es es' : List ε} (h : RunAll step p s (es ++ es'))
    (hr : run step s es = some t) : RunAll step p s es ∧ RunAll step p t es' := by
  induction es generalizing s with
  | nil =>
    cases hr
    cases es' with
    | nil => exact ⟨h, h⟩
    | cons e es' => exact ⟨h.1, h⟩
  | cons e es ih =>
    obtain ⟨u, hs, hr⟩ := Option.bind_eq_some_iff.mp hr
    obtain ⟨hp, hrest⟩ := h
    rw [hs] at hrest
    obtain ⟨hes, hes'⟩ := ih hrest hr
    refine ⟨⟨hp, ?_⟩, hes'⟩
    rw [hs]
    exact hes

theorem RunAll.last {p : σ → Prop} {es : List ε} (h : RunAll step p s es) (hr : run step s es = some t) : p t := by
  rw [← List.append_nil es] at h
  exact (h.of_append hr).2

/-- What an invariant implies holds in every state of a run whose steps keep it. -/
theorem RunOk.runAll {I p : σ → Prop} (himp : ∀ {s : σ}, I s → p s)
    (hkeep : ∀ {s t : σ} {e : ε}, I s → ok s e → step s e = some t → I t) {es : List ε} (hi : I s)
    (ho : RunOk step ok s es) : RunAll step p s es := by
  induction es generalizing s with
  | nil => exact himp hi
  | cons e es ih =>
    obtain ⟨hok, hrest⟩ := ho
    refine ⟨himp hi, ?_⟩
    cases hs : step s e with
    | none => trivial
    | some t =>
      rw [hs] at hrest
      exact ih (hkeep hi hok hs) hrest

/-- What an invariant implies of each step holds of every step of a run whose steps keep it. -/
theorem RunOk.runOk {I : σ → Prop} (himp : ∀ {s t : σ} {e : ε}, I s → ok s e → step s e = some t → ok' s e)
    (hkeep : ∀ {s t : σ} {e : ε}, I s → ok s e → step s e = some t → I t) {es : List ε} (hi : I s)
    (ho : RunOk step ok s es) (hr : run step s es = some t) : RunOk step ok' s es := by
  induction es generalizing s with
  | nil => trivial
  | cons e es ih =>
    obtain ⟨u, hs, hr⟩ := Option.bind_eq_some_iff.mp hr
    obtain ⟨hok, hrest⟩ := ho
    refine ⟨himp hi hok hs, ?_⟩
    rw [hs] at hrest ⊢
    exact ih (hkeep hi hok hs) hrest hr

theorem RunOk.of_append {es es' : List ε} (h : RunOk step ok s (es ++ es')) (hr : run step s es = some t) :
    RunOk step ok t es' := by
  induction es generalizing s with
  | nil =>
    cases hr
    exact h
  | cons e es ih =>
    obtain ⟨u, hs, hr⟩ := Option.bind_eq_some_iff.mp hr
    obtain ⟨-, hrest⟩ := h
    rw [hs] at hrest
    exact ih hrest hr

/-- A condition on steps is the exact one for `p` in the runs over certain events, when it keeps an invariant that
    implies `p`, and when no step that breaks it ends in a state with `p`. -/
theorem runAll_iff_runOk_of {I p : σ → Prop} {q : ε → Prop} (himp : ∀ {s : σ}, I s → p s)
    (hkeep : ∀ {s t : σ} {e : ε}, I s → q e → ok s e → step s e = some t → I t)
    (hbreak : ∀ {s t : σ} {e : ε}, I s → ¬ ok s e → step s e = some t → ¬ p t) {es : List ε} (hi : I s)
    (hq : ∀ e ∈ es, q e) (hr : run step s es = some t) : RunAll step p s es ↔ RunOk step ok s es := by
  induction es generalizing s with
  | nil => exact ⟨fun _ => trivial, fun _ => himp hi⟩
  | cons e es ih =>
    obtain ⟨u, hs, hr⟩ := Option.bind_eq_some_iff.mp hr
    obtain ⟨hqe, hq⟩ := List.forall_mem_cons.mp hq
    simp only [RunAll, RunOk, hs]
    constructor
    · rintro ⟨-, hall⟩
      have hok : ok s e := by
        by_contra hok
        have hu : p u := by
          cases es with
          | nil => exact hall
          | cons => exact hall.1
        exact hbreak hi hok hs hu
      exact ⟨hok, (ih (hkeep hi hqe hok hs) hq hr).mp hall⟩
    · rintro ⟨hok, hrest⟩
      exact ⟨himp hi, (ih (hkeep hi hqe hok hs) hq hr).mpr hrest⟩

/-- The same for the runs over any events. -/
theorem runAll_iff_runOk {I p : σ → Prop} (himp : ∀ {s : σ}, I s → p s)
    (hkeep : ∀ {s t : σ} {e : ε}, I s → ok s e → step s e = some t → I t)
    (hbreak : ∀ {s t : σ} {e : ε}, I s → ¬ ok s e → step s e = some t → ¬ p t) {es : List ε} (hi : I s)
    (hr : run step s es = some t) : RunAll step p s es ↔ RunOk step ok s es :=
  runAll_iff_runOk_of (q := fun _ => True) himp (fun hi _ => hkeep hi) hbreak hi (fun _ _ => trivial) hr

/-! ### Projections -/

section Projection

variable {τ : Type} {step' : τ → ε → Option τ} {proj : σ → τ} {about : ε → Prop} {okτ : τ → ε → Prop}

/-- A part of the state that only some events touch runs on its own: it takes the steps of the whole that are
    about it, and nothing else. `I` is an invariant of the whole that this relies on. -/
structure Projects (step : σ → ε → Option σ) (step' : τ → ε → Option τ) (proj : σ → τ) (about : ε → Prop)
    (I : σ → Prop) : Prop where
  keep : ∀ {s t : σ} {e : ε}, I s → step s e = some t → I t
  on : ∀ {s t : σ} {e : ε}, I s → about e → step s e = some t → step' (proj s) e = some (proj t)
  off : ∀ {s t : σ} {e : ε}, I s → ¬ about e → step s e = some t → proj t = proj s

variable {I : σ → Prop}

theorem Projects.run [DecidablePred about] (h : Projects step step' proj about I) {es : List ε} (hi : I s)
    (hr : run step s es = some t) : Transition.run step' (proj s) (es.filter about) = some (proj t) := by
  induction es generalizing s with
  | nil =>
    cases hr
    rfl
  | cons e es ih =>
    obtain ⟨u, hs, hr⟩ := Option.bind_eq_some_iff.mp hr
    have ih := ih (h.keep hi hs) hr
    by_cases ha : about e
    · simp [ha, h.on hi ha hs, ih]
    · simpa [ha, ← h.off hi ha hs] using ih

theorem Projects.reachVia (h : Projects step step' proj about I) (hi : I s)
    (hok : ∀ s e, ok s e → about e → okτ (proj s) e) (hr : ReachVia step ok s t) :
    ReachVia step' okτ (proj s) (proj t) := by
  suffices hs : ReachVia step' okτ (proj s) (proj t) ∧ I t from hs.1
  induction hr with
  | refl => exact ⟨.refl, hi⟩
  | @step t u e _ ho hs ih =>
    refine ⟨?_, h.keep ih.2 hs⟩
    by_cases ha : about e
    · exact .step e ih.1 (hok t e ho ha) (h.on ih.2 ha hs)
    · exact h.off ih.2 ha hs ▸ ih.1

end Projection

/-! ### What a run comes to -/

section Progress

variable {σ ε : Type} {step : σ → ε → Option σ} {ok : σ → ε → Prop} {s t : σ}

/-- Some state that a run passes through has `p`. -/
def Passes (step : σ → ε → Option σ) (p : σ → Prop) (s : σ) (es : List ε) : Prop :=
  ∃ pre, pre <+: es ∧ ∃ t, run step s pre = some t ∧ p t

theorem Passes.now {p : σ → Prop} {es : List ε} (h : p s) : Passes step p s es := ⟨[], List.nil_prefix, s, rfl, h⟩

theorem Passes.later {p : σ → Prop} {e : ε} {es : List ε} (hs : step s e = some t) (h : Passes step p t es) :
    Passes step p s (e :: es) := by
  obtain ⟨pre, hpre, u, hr, hp⟩ := h
  exact ⟨e :: pre, List.cons_prefix_cons.mpr ⟨rfl, hpre⟩, u, by rw [run_cons, hs, Option.bind_some, hr], hp⟩

/-- A rank that no step raises and certain steps lower: a run with enough of these passes through a state with `p`. -/
theorem Passes.of_rank {I p : σ → Prop} (rank : σ → Nat) (own : ε → Bool) (hzero : ∀ {s : σ}, I s → rank s = 0 → p s)
    (hstep : ∀ {s t : σ} {e : ε}, I s → ¬ p s → ok s e → step s e = some t →
      I t ∧ rank t ≤ rank s ∧ (own e → rank t < rank s))
    {es : List ε} (hi : I s) (ho : RunOk step ok s es) (hr : run step s es = some t)
    (hlen : rank s ≤ es.countP own) : Passes step p s es := by
  induction es generalizing s with
  | nil => exact .now (hzero hi (Nat.le_zero.mp hlen))
  | cons e es ih =>
    by_cases hp : p s
    · exact .now hp
    · obtain ⟨u, hs, hr⟩ := Option.bind_eq_some_iff.mp hr
      obtain ⟨hok, hrest⟩ := ho
      rw [hs] at hrest
      obtain ⟨hi, hle, hlt⟩ := hstep hi hp hok hs
      refine .later hs (ih hi hrest hr ?_)
      rw [List.countP_cons] at hlen
      split at hlen
      · have := hlt ‹_›
        omega
      · omega

end Progress

end Transition
end WasmerJs
