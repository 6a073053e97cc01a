import Mathlib

/-! Finite maps whose entries come in no particular order, such as hash tables: a map is known by what it finds under
    each key, and iterating over it gives its entries once each. -/

namespace WasmerJs
namespace Entries

variable {K V : Type}

/-- A list of all entries of a map, each of them once. -/
structure Of (m : K → Option V) (xs : List (K × V)) : Prop where
  nodup : (xs.map Prod.fst).Nodup
  mem : ∀ k v, (k, v) ∈ xs ↔ m k = some v

/-- The entries are inserted one after the other; what was there under their keys is lost. -/
def insertAll [DecidableEq K] (m : K → Option V) (xs : List (K × V)) : K → Option V :=
  xs.foldl (fun m x => Function.update m x.1 (some x.2)) m

/-- A map without entries. -/
def empty : K → Option V := fun _ => none

variable {m : K → Option V} {xs ys : List (K × V)} {k : K} {v : V}

/-- The entries may come in another order. -/
theorem Of.perm (h : Of m xs) (hp : xs.Perm ys) : Of m ys where
  nodup := (hp.map Prod.fst).nodup_iff.mp h.nodup
  mem k v := hp.mem_iff.symm.trans (h.mem k v)

section Insert

variable [DecidableEq K]

theorem lookup_of_mem (hn : (xs.map Prod.fst).Nodup) (h : (k, v) ∈ xs) : xs.lookup k = some v := by
  induction xs with
  | nil => cases h
  | cons x xs ih =>
    obtain ⟨k', v'⟩ := x
    simp only [List.map_cons, List.nodup_cons] at hn
    rcases List.mem_cons.mp h with heq | hmem
    · cases heq
      exact List.lookup_cons_self
    · have hne : k ≠ k' := by
        rintro rfl
        exact hn.1 (List.mem_map_of_mem hmem)
      rw [List.lookup_cons, beq_false_of_ne hne]
      exact ih hn.2 hmem

theorem insertAll_eq_some (hn : (xs.map Prod.fst).Nodup) :
    insertAll m xs k = some v ↔ (k, v) ∈ xs ∨ k ∉ xs.map Prod.fst ∧ m k = some v := by
  induction xs generalizing m with
  | nil => simp [insertAll]
  | cons x xs ih =>
    obtain ⟨k', v'⟩ := x
    simp only [List.map_cons, List.nodup_cons] at hn
    have hfold : insertAll m ((k', v') :: xs) = insertAll (Function.update m k' (some v')) xs := rfl
    rw [hfold, ih hn.2]
    by_cases hk : k = k'
    · subst hk
      have hnot : (k, v) ∉ xs := fun hmem => hn.1 (List.mem_map_of_mem hmem)
      simp [hnot, hn.1, eq_comm]
    · simp [hk]

/-- The entries of a map that was filled with them. -/
theorem of_insertAll (hn : (xs.map Prod.fst).Nodup) : Of (insertAll empty xs) xs where
  nodup := hn
  mem k v := by simp [insertAll_eq_some hn, empty]

/-- A map can be rebuilt from its entries, in whatever order they come. -/
theorem Of.insertAll (h : Of m xs) : Entries.insertAll empty xs = m := by
  funext k
  apply Option.ext
  intro v
  rw [insertAll_eq_some h.nodup, ← h.mem k v]
  simp [empty]

end Insert

/-! ### Lists as maps, in the order in which their keys were inserted first -/

section Lists

variable [DecidableEq K]

/-- What was there under the key is replaced. -/
def put : List (K × V) → K → V → List (K × V)
  | [], k, v => [(k, v)]
  | x :: xs, k, v => if x.1 = k then (k, v) :: xs else x :: put xs k v

def putAll (xs ys : List (K × V)) : List (K × V) := ys.foldl (fun xs y => put xs y.1 y.2) xs

@[simp] theorem putAll_nil : putAll xs [] = xs := rfl

@[simp] theorem putAll_cons {y : K × V} : putAll xs (y :: ys) = putAll (put xs y.1 y.2) ys := rfl

theorem lookup_cons_eq {x : K × V} : (x :: xs).lookup k = if k = x.1 then some x.2 else xs.lookup k := by
  rw [List.lookup_cons]
  by_cases h : k = x.1
  · rw [if_pos h, beq_iff_eq.mpr h]
  · rw [if_neg h, beq_false_of_ne h]

theorem lookup_map {W : Type} (f : V → W) : (xs.map fun x => (x.1, f x.2)).lookup k = (xs.lookup k).map f := by
  induction xs with
  | nil => rfl
  | cons x xs ih =>
    rw [List.map_cons, lookup_cons_eq, lookup_cons_eq, ih]
    split
    · rfl
    · rfl

/-- Sorting moves no entry before another one with its key. -/
theorem lookup_insertionSort {r : K × V → K × V → Prop} [DecidableRel r] (hr : ∀ x y : K × V, x.1 = y.1 → r x y) :
    (xs.insertionSort r).lookup k = xs.lookup k := by
  have hinsert : ∀ (x : K × V) (ys : List (K × V)), (ys.orderedInsert r x).lookup k = (x :: ys).lookup k := by
    intro x ys
    induction ys with
    | nil => rfl
    | cons y ys ih =>
      rw [List.orderedInsert_cons]
      split
      · rfl
      · rename_i hxy
        have hne : x.1 ≠ y.1 := fun h => hxy (hr x y h)
        rw [lookup_cons_eq, ih, lookup_cons_eq, lookup_cons_eq, lookup_cons_eq]
        by_cases hk : k = y.1
        · rw [if_pos hk, if_pos hk, if_neg (fun h => hne (h.symm.trans hk))]
        · rw [if_neg hk, if_neg hk]
  induction xs with
  | nil => rfl
  | cons x xs ih => rw [List.insertionSort_cons, hinsert, lookup_cons_eq, lookup_cons_eq, ih]

theorem isSome_lookup : (xs.lookup k).isSome ↔ k ∈ xs.map Prod.fst := by
  induction xs with
  | nil => simp
  | cons x xs ih =>
    rw [lookup_cons_eq, List.map_cons, List.mem_cons, ← ih]
    by_cases h : k = x.1 <;> simp [h]

theorem lookup_eq_none (h : k ∉ xs.map Prod.fst) : xs.lookup k = none := by
  rw [← isSome_lookup] at h
  exact Option.not_isSome_iff_eq_none.mp h

theorem keys_put (xs : List (K × V)) (k : K) (v : V) :
    (put xs k v).map Prod.fst = if k ∈ xs.map Prod.fst then xs.map Prod.fst else xs.map Prod.fst ++ [k] := by
  induction xs with
  | nil => rfl
  | cons x xs ih =>
    rw [put]
    by_cases hx : x.1 = k
    · simp [hx]
    · rw [if_neg hx, List.map_cons, ih]
      by_cases hk : k ∈ xs.map Prod.fst
      · simp [hk]
      · simp [hk, Ne.symm hx]

theorem lookup_put {k' : K} : (put xs k v).lookup k' = if k' = k then some v else xs.lookup k' := by
  induction xs with
  | nil => rw [put, lookup_cons_eq]
  | cons x xs ih =>
    rw [put]
    by_cases hx : x.1 = k
    · rw [if_pos hx, lookup_cons_eq, lookup_cons_eq, hx]
      by_cases hk : k' = k <;> simp [hk]
    · rw [if_neg hx, lookup_cons_eq, lookup_cons_eq, ih]
      by_cases hk : k' = k
      · have : k' ≠ x.1 := fun h => hx (h.symm.trans hk)
        simp [hk, Ne.symm hx]
      · simp [hk]

/-- The value of a key that is there is changed. -/
def change (xs : List (K × V)) (k : K) (v : V) : List (K × V) := xs.map fun x => if x.1 = k then (x.1, v) else x

theorem lookup_change {k' : K} :
    (change xs k v).lookup k' = if k' = k then (xs.lookup k).map fun _ => v else xs.lookup k' := by
  unfold change
  induction xs with
  | nil => simp
  | cons x xs ih =>
    rw [List.map_cons, lookup_cons_eq, lookup_cons_eq, lookup_cons_eq, ih]
    by_cases hx : x.1 = k
    · by_cases hk : k' = k <;> simp [hx, hk]
    · by_cases hk : k' = k
      · simp [hx, hk, Ne.symm hx]
      · simp [hx, hk]

theorem lookup_filter_ne {k' : K} :
    (xs.filter fun x => x.1 ≠ k).lookup k' = if k' = k then none else xs.lookup k' := by
  induction xs with
  | nil => simp
  | cons x xs ih =>
    rw [List.filter_cons]
    by_cases hx : x.1 = k
    · rw [if_neg (by simp [hx]), ih, lookup_cons_eq, hx]
      by_cases hk : k' = k <;> simp [hk]
    · rw [if_pos (by simp [hx]), lookup_cons_eq, ih, lookup_cons_eq]
      by_cases hk : k' = k
      · simp [hk, Ne.symm hx]
      · simp [hk]

theorem mem_put {x : K × V} (h : x ∈ put xs k v) : x = (k, v) ∨ x ∈ xs := by
  induction xs with
  | nil => exact .inl (List.mem_singleton.mp h)
  | cons y ys ih =>
    rw [put] at h
    split at h
    · rcases List.mem_cons.mp h with h | h
      · exact .inl h
      · exact .inr (List.mem_cons_of_mem _ h)
    · rcases List.mem_cons.mp h with rfl | h
      · exact .inr List.mem_cons_self
      · exact (ih h).imp_right (List.mem_cons_of_mem _)

theorem nodup_keys_put (h : (xs.map Prod.fst).Nodup) : ((put xs k v).map Prod.fst).Nodup := by
  rw [keys_put]
  split
  · exact h
  · rename_i hk
    exact List.nodup_append'.mpr ⟨h, List.nodup_singleton k, List.disjoint_singleton.mpr hk⟩

theorem nodup_keys_putAll (h : (xs.map Prod.fst).Nodup) : ((putAll xs ys).map Prod.fst).Nodup := by
  induction ys generalizing xs with
  | nil => exact h
  | cons y ys ih => exact ih (nodup_keys_put h)

theorem put_ne_nil : put xs k v ≠ [] := by
  cases xs with
  | nil => exact List.cons_ne_nil _ _
  | cons x xs =>
    rw [put]
    split
    · exact List.cons_ne_nil _ _
    · exact List.cons_ne_nil _ _

theorem putAll_ne_nil (h : xs ≠ []) : putAll xs ys ≠ [] := by
  induction ys generalizing xs with
  | nil => exact h
  | cons y ys ih => exact ih put_ne_nil

/-- The values do not decide on the keys. -/
theorem keys_putAll_congr {xs' ys' : List (K × V)} (hx : xs.map Prod.fst = xs'.map Prod.fst)
    (hy : ys.map Prod.fst = ys'.map Prod.fst) : (putAll xs ys).map Prod.fst = (putAll xs' ys').map Prod.fst := by
  induction ys generalizing xs xs' ys' with
  | nil =>
    rw [List.map_eq_nil_iff.mp hy.symm]
    exact hx
  | cons y ys ih =>
    cases ys' with
    | nil => cases hy
    | cons y' ys' =>
      obtain ⟨hkey, hy⟩ := List.cons_eq_cons.mp hy
      rw [putAll_cons, putAll_cons]
      refine ih ?_ hy
      rw [keys_put, keys_put, hx, hkey]

/-- A map keeps the last of the entries with a key. -/
theorem lookup_putAll : (putAll xs ys).lookup k = (ys.reverse.lookup k).or (xs.lookup k) := by
  induction ys generalizing xs with
  | nil => rfl
  | cons y ys ih =>
    rw [putAll_cons, ih, lookup_put, List.reverse_cons, List.lookup_append, lookup_cons_eq, List.lookup_nil]
    by_cases hk : k = y.1
    · simp [hk]
    · simp [hk]

/-- Entries with keys of their own are appended. -/
theorem put_of_not_mem (h : k ∉ xs.map Prod.fst) : put xs k v = xs ++ [(k, v)] := by
  induction xs with
  | nil => rfl
  | cons x xs ih =>
    rw [List.map_cons, List.mem_cons, not_or] at h
    rw [put, if_neg (Ne.symm h.1), ih h.2, List.cons_append]

theorem putAll_of_nodup (xs ys : List (K × V)) (h : ((xs ++ ys).map Prod.fst).Nodup) : putAll xs ys = xs ++ ys := by
  induction ys generalizing xs with
  | nil => rw [putAll_nil, List.append_nil]
  | cons y ys ih =>
    have hy : y.1 ∉ xs.map Prod.fst := by
      rw [List.map_append, List.map_cons] at h
      intro hmem
      exact List.disjoint_of_nodup_append h hmem List.mem_cons_self
    rw [← List.singleton_append, ← List.append_assoc] at h
    rw [putAll_cons, put_of_not_mem hy, ih _ h, List.append_assoc, List.singleton_append]

theorem length_put : (put xs k v).length = if k ∈ xs.map Prod.fst then xs.length else xs.length + 1 := by
  have h := congrArg List.length (keys_put xs k v)
  rw [List.length_map] at h
  rw [h]
  split <;> simp

theorem length_putAll_le (xs ys : List (K × V)) : (putAll xs ys).length ≤ xs.length + ys.length := by
  induction ys generalizing xs with
  | nil => exact le_rfl
  | cons y ys ih =>
    refine (ih _).trans ?_
    rw [length_put, List.length_cons]
    split <;> omega

/-- A map with as many entries as were inserted lost none. -/
theorem nodup_of_length_putAll (xs ys : List (K × V)) (hx : (xs.map Prod.fst).Nodup)
    (h : (putAll xs ys).length = xs.length + ys.length) : ((xs ++ ys).map Prod.fst).Nodup := by
  induction ys generalizing xs with
  | nil => simpa using hx
  | cons y ys ih =>
    have hy : y.1 ∉ xs.map Prod.fst := by
      intro hmem
      have hle := length_putAll_le (put xs y.1 y.2) ys
      rw [← putAll_cons, h, length_put, if_pos hmem, List.length_cons] at hle
      omega
    have hlength : (putAll (put xs y.1 y.2) ys).length = (put xs y.1 y.2).length + ys.length := by
      rw [← putAll_cons, h, length_put, if_neg hy, List.length_cons]
      omega
    have h' := ih _ (nodup_keys_put hx) hlength
    rw [put_of_not_mem hy, List.append_assoc, List.singleton_append] at h'
    exact h'

/-- Two maps whose keys came in the same order are the same when they find the same. -/
theorem eq_of_lookup (hkeys : xs.map Prod.fst = ys.map Prod.fst) (hn : (xs.map Prod.fst).Nodup)
    (h : ∀ k, xs.lookup k = ys.lookup k) : xs = ys := by
  induction xs generalizing ys with
  | nil =>
    cases ys with
    | nil => rfl
    | cons => cases hkeys
  | cons x xs ih =>
    cases ys with
    | nil => cases hkeys
    | cons y ys =>
      obtain ⟨hkey, hkeys⟩ := List.cons_eq_cons.mp hkeys
      obtain ⟨hx, hn⟩ := List.nodup_cons.mp hn
      have hy : x.1 ∉ ys.map Prod.fst := hkeys ▸ hx
      have hvalue : x.2 = y.2 := by
        have := h x.1
        rw [lookup_cons_eq, lookup_cons_eq, if_pos rfl, if_pos hkey] at this
        exact Option.some.inj this
      rw [Prod.ext hkey hvalue]
      refine congrArg _ (ih hkeys hn fun k => ?_)
      have := h k
      rw [lookup_cons_eq, lookup_cons_eq, ← hkey] at this
      by_cases hk : k = x.1
      · rw [hk, lookup_eq_none hx, lookup_eq_none hy]
      · rw [if_neg hk, if_neg hk] at this
        exact this

/-- The last entry with a key is found. -/
theorem lookup_putAll_split {before after : List (K × V)} {y : K × V} (h : y.1 ∉ after.map Prod.fst) :
    (putAll xs (before ++ y :: after)).lookup y.1 = some y.2 := by
  have hafter : y.1 ∉ after.reverse.map Prod.fst := by rwa [List.map_reverse, List.mem_reverse]
  rw [lookup_putAll, List.reverse_append, List.reverse_cons, List.append_assoc, List.lookup_append,
    lookup_eq_none hafter, List.singleton_append, lookup_cons_eq, if_pos rfl]
  rfl

theorem exists_last (h : k ∈ xs.map Prod.fst) :
    ∃ before x after, xs = before ++ x :: after ∧ x.1 = k ∧ k ∉ after.map Prod.fst := by
  induction xs with
  | nil => cases h
  | cons x xs ih =>
    by_cases hmem : k ∈ xs.map Prod.fst
    · obtain ⟨before, y, after, rfl, hy, hafter⟩ := ih hmem
      exact ⟨x :: before, y, after, rfl, hy, hafter⟩
    · refine ⟨[], x, xs, rfl, ?_, hmem⟩
      rcases List.mem_cons.mp h with hk | hk
      · exact hk.symm
      · exact absurd hk hmem

/-- A map gets the values of a function exactly when the last entry with each key has the value of the function. -/
theorem putAll_function_iff {f : K → V} : putAll [] (ys.map fun y => (y.1, f y.1)) = putAll [] ys ↔
    ∀ before y after, ys = before ++ y :: after → y.1 ∉ after.map Prod.fst → y.2 = f y.1 := by
  have hkeys : ∀ zs : List (K × V), (zs.map fun y => (y.1, f y.1)).map Prod.fst = zs.map Prod.fst := by
    intro zs
    rw [List.map_map]
    rfl
  have hfound : ∀ (before : List (K × V)) (y : K × V) (after : List (K × V)), y.1 ∉ after.map Prod.fst →
      (putAll [] ((before ++ y :: after).map fun y => (y.1, f y.1))).lookup y.1 = some (f y.1) := by
    intro before y after h
    rw [List.map_append, List.map_cons]
    exact lookup_putAll_split (y := (y.1, f y.1)) (by rwa [hkeys])
  constructor
  · rintro h before y after rfl hy
    have := hfound before y after hy
    rw [h, lookup_putAll_split hy] at this
    exact Option.some.inj this
  · intro h
    have hsame : (putAll [] (ys.map fun y => (y.1, f y.1))).map Prod.fst = (putAll [] ys).map Prod.fst :=
      keys_putAll_congr rfl (hkeys ys)
    refine eq_of_lookup hsame (nodup_keys_putAll List.nodup_nil) fun k => ?_
    by_cases hk : k ∈ ys.map Prod.fst
    · obtain ⟨before, y, after, rfl, rfl, hafter⟩ := exists_last hk
      rw [hfound before y after hafter, lookup_putAll_split hafter, h before y after rfl hafter]
    · have hnone : ∀ zs : List (K × V), zs.map Prod.fst = ys.map Prod.fst → (putAll [] zs).lookup k = none := by
        intro zs hzs
        have hrev : k ∉ zs.reverse.map Prod.fst := by rwa [List.map_reverse, List.mem_reverse, hzs]
        rw [lookup_putAll, lookup_eq_none hrev]
        rfl
      rw [hnone _ (hkeys ys), hnone _ rfl]

end Lists

/-! ### Places in nested maps -/

section Nested

variable {A B : Type} [DecidableEq K]

/-- What is at a place, which is given by the keys on the way to it. -/
def descend (entries : A → List (K × A)) : List K → A → Option A
  | [], a => some a
  | k :: path, a => ((entries a).lookup k).bind (descend entries path)

/-- A relation that holds of what is under the same key holds at every place. -/
theorem descend_related {entries : A → List (K × A)} {entries' : B → List (K × B)} {R : A → B → Prop}
    (hdown : ∀ a b k a', R a b → (entries a).lookup k = some a' → ∃ b', (entries' b).lookup k = some b' ∧ R a' b')
    {path : List K} {a a' : A} {b : B} (h : R a b) (ha : descend entries path a = some a') :
    ∃ b', descend entries' path b = some b' ∧ R a' b' := by
  induction path generalizing a b with
  | nil =>
    cases ha
    exact ⟨b, rfl, h⟩
  | cons k path ih =>
    obtain ⟨c, hc, ha⟩ := Option.bind_eq_some_iff.mp ha
    obtain ⟨d, hd, hcd⟩ := hdown a b k c h hc
    obtain ⟨b', hb, h'⟩ := ih hcd ha
    exact ⟨b', by rw [descend, hd, Option.bind_some, hb], h'⟩

end Nested
end Entries
end WasmerJs
