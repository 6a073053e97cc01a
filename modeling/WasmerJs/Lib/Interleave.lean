import Mathlib

/-! Interleavings of finitely many lists: every element of every list occurs once, and the elements of one
    list keep their order. -/

namespace WasmerJs

variable {α : Type} {lists : List (List α)} {xs : List α}

/-- `xs` takes the heads of the lists in some order until every list is used up. -/
inductive Interleaving : List (List α) → List α → Prop where
  | nil {lists : List (List α)} (h : ∀ l ∈ lists, l = []) : Interleaving lists []
  | cons {before after : List (List α)} {x : α} {l xs : List α}
      (h : Interleaving (before ++ l :: after) xs) : Interleaving (before ++ (x :: l) :: after) (x :: xs)

namespace Interleaving

theorem length_eq (h : Interleaving lists xs) : xs.length = lists.flatten.length := by
  induction h with
  | nil h =>
    have : List.flatten _ = [] := List.flatten_eq_nil_iff.mpr h
    simp [this]
  | cons _ ih =>
    simp only [List.length_flatten, List.map_append, List.map_cons, List.sum_append, List.sum_cons,
      List.length_cons] at ih ⊢
    omega

theorem nil_append {before : List (List α)} (hb : ∀ l ∈ before, l = []) (h : Interleaving lists xs) :
    Interleaving (before ++ lists) xs := by
  induction h with
  | nil h =>
    refine .nil fun l hl => ?_
    rcases List.mem_append.mp hl with hl | hl
    · exact hb l hl
    · exact h l hl
  | cons _ ih =>
    rw [← List.append_assoc] at ih ⊢
    exact .cons ih

theorem cons_nil (h : Interleaving lists xs) : Interleaving ([] :: lists) xs :=
  show Interleaving ([[]] ++ lists) xs from nil_append (by simp) h

theorem append_cons (h : Interleaving lists xs) : ∀ l : List α, Interleaving (l :: lists) (l ++ xs)
  | [] => cons_nil h
  | x :: l => show Interleaving ([] ++ (x :: l) :: lists) (x :: (l ++ xs)) from .cons (append_cons h l)

/-- The concatenation of the lists is one interleaving of them. -/
theorem flatten : ∀ lists : List (List α), Interleaving lists lists.flatten
  | [] => .nil (by simp)
  | l :: lists => append_cons (flatten lists) l

end Interleaving
end WasmerJs
