import Mathlib

/-! Positions in a ring of `C` slots. The slot some places after a position, the distance from one position
    to another, and the contents of a stretch of slots. Every fact is linear in the positions, so that
    `omega` closes it: the wrap-around is a comparison and a subtraction, not a remainder. -/

namespace WasmerJs
namespace Ring

/-- The slot `k` places after `p`. -/
def index (C p k : Nat) : Nat := if p + k < C then p + k else p + k - C

/-- How many places `q` lies after `p`. -/
def dist (C p q : Nat) : Nat := if p ≤ q then q - p else C - p + q

variable {C p q k m n : Nat}

theorem index_lt (hp : p < C) (hk : k ≤ C) : index C p k < C := by
  unfold index
  split <;> omega

theorem dist_lt (hp : p < C) (hq : q < C) : dist C p q < C := by
  unfold dist
  split <;> omega

@[simp] theorem dist_self : dist C p p = 0 := by simp [dist]

theorem dist_eq_zero (hp : p < C) : dist C p q = 0 ↔ p = q := by
  unfold dist
  split <;> omega

@[simp] theorem index_zero (hp : p < C) : index C p 0 = p := by simp [index, hp]

theorem index_dist (hp : p < C) (hq : q < C) : index C p (dist C p q) = q := by
  unfold index dist
  split <;> split <;> omega

theorem index_index (hp : p < C) (hmn : m + k < C) : index C (index C p m) k = index C p (m + k) := by
  unfold index
  split <;> split <;> split <;> omega

/-- Moving the front of a stretch on by `k` places shortens it by `k`. -/
theorem dist_index_left (hp : p < C) (hq : q < C) (hk : k ≤ dist C p q) :
    dist C (index C p k) q = dist C p q - k := by
  unfold index dist at *
  split <;> split <;> split <;> split at hk <;> omega

/-- Moving the end of a stretch on by `k` places lengthens it by `k`, while it leaves a slot free. -/
theorem dist_index_right (hp : p < C) (hq : q < C) (hk : dist C p q + k < C) :
    dist C p (index C q k) = dist C p q + k := by
  unfold index dist at *
  split <;> split <;> split <;> split at hk <;> omega

theorem index_inj (hk : k < C) (hm : m < C) (h : index C p k = index C p m) : k = m := by
  unfold index at h
  split at h <;> split at h <;> omega

/-- The remainder that wraps a position around is the slot of the ring. -/
theorem add_mod (hp : p < C) (hk : k ≤ C) : (p + k) % C = index C p k := by
  unfold index
  split
  · exact Nat.mod_eq_of_lt ‹_›
  · rw [Nat.mod_eq_sub_mod (by omega), Nat.mod_eq_of_lt (by omega)]

/-! ### Contents -/

variable {α : Type} {slots : Nat → α}

/-- What the `n` slots from `p` on hold. -/
def contents (C : Nat) (slots : Nat → α) (p n : Nat) : List α :=
  (List.range n).map fun k => slots (index C p k)

@[simp] theorem contents_length : (contents C slots p n).length = n := by simp [contents]

@[simp] theorem contents_zero : contents C slots p 0 = [] := rfl

theorem contents_add (hp : p < C) (hmn : m + n ≤ C) :
    contents C slots p (m + n) = contents C slots p m ++ contents C slots (index C p m) n := by
  simp only [contents, List.range_add, List.map_append, List.map_map]
  congr 1
  apply List.map_congr_left
  intro k hk
  rw [Function.comp_apply, index_index hp (by have := List.mem_range.mp hk; omega)]

theorem contents_succ :
    contents C slots p (n + 1) = contents C slots p n ++ [slots (index C p n)] := by
  simp [contents, List.range_succ]

/-- A slot beyond the stretch can be written without changing the stretch. -/
theorem contents_update (hnk : n ≤ k) (hk : k < C) {b : α} :
    contents C (Function.update slots (index C p k) b) p n = contents C slots p n := by
  apply List.map_congr_left
  intro m hm
  have hm := List.mem_range.mp hm
  refine Function.update_of_ne (fun h => ?_) _ _
  have := index_inj (by omega) hk h
  omega

end Ring
end WasmerJs
