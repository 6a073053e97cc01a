import Mathlib

/-! Regions of memory that are taken one after the other, as a bump allocator does. Nothing is given back, so the next
    region starts where the last one ends. -/

namespace WasmerJs
namespace Bump

structure Region where
  offset : Nat
  size : Nat
  deriving DecidableEq

def Region.bytes (r : Region) : Set Nat := Set.Ico r.offset (r.offset + r.size)

/-- Where the region after a new one starts, if there is room for the new one below `limit`. -/
def reserve (limit next size : Nat) : Option Nat := if next + size ≤ limit then some (next + size) else none

/-- The regions lie side by side from `base` on, the last one first; the next one starts at `next`. -/
inductive Laid (base : Nat) : List Region → Nat → Prop where
  | nil : Laid base [] base
  | cons {rs next size} (h : Laid base rs next) : Laid base ({ offset := next, size } :: rs) (next + size)

variable {base limit next next' size : Nat} {rs : List Region} {r : Region}

theorem reserve_eq_some : reserve limit next size = some next' ↔ next + size ≤ limit ∧ next' = next + size := by
  unfold reserve
  split <;> simp_all [eq_comm]

theorem reserve_eq_none : reserve limit next size = none ↔ limit < next + size := by
  unfold reserve
  split <;> simp <;> omega

namespace Laid

theorem next_eq (h : Laid base rs next) : next = base + (rs.map (·.size)).sum := by
  induction h with
  | nil => simp
  | cons _ ih =>
    simp only [List.map_cons, List.sum_cons]
    omega

theorem bounds (h : Laid base rs next) (hr : r ∈ rs) : base ≤ r.offset ∧ r.offset + r.size ≤ next := by
  induction h with
  | nil => cases hr
  | @cons rs next size h ih =>
    rcases List.mem_cons.mp hr with rfl | hr
    · have := h.next_eq
      exact ⟨by simp only; omega, Nat.le_refl _⟩
    · obtain ⟨hbase, hnext⟩ := ih hr
      exact ⟨hbase, by omega⟩

theorem disjoint (h : Laid base rs next) : rs.Pairwise fun r r' => Disjoint r.bytes r'.bytes := by
  induction h with
  | nil => exact .nil
  | cons h ih =>
    refine .cons (fun r' hr' => ?_) ih
    refine Set.disjoint_left.mpr fun x hx hx' => ?_
    exact Nat.not_lt.mpr hx.1 (Nat.lt_of_lt_of_le hx'.2 (h.bounds hr').2)

theorem reserve (h : Laid base rs next) (hn : Bump.reserve limit next size = some next') :
    Laid base ({ offset := next, size } :: rs) next' := by
  obtain ⟨-, rfl⟩ := reserve_eq_some.mp hn
  exact .cons h

end Laid

end Bump
end WasmerJs
