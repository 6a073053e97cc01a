import Mathlib.Data.Rat.Floor
import WasmerJs.Lib.Entries
import WasmerJs.Registry.Publish
import WasmerJs.Run.Options

/-! The JS values that a manifest is made of, and what the builders of `mem_volumes.rs` ask of them. -/

namespace WasmerJs
namespace Registry

/-- A number; the finite ones are given by their values. -/
inductive Number where
  | nan
  | infinity (negative : Bool)
  | finite (value : ℚ)
  deriving DecidableEq

inductive JsValue where
  | undefined
  | null
  | bool (b : Bool)
  | number (n : Number)
  | string (s : String)
  -- A `Uint8Array`.
  | bytes (data : Bytes)
  -- A `Date`, by what `getTime` returns.
  | date (time : Number)
  | array (elements : List JsValue)
  | object (properties : List (String × JsValue))

namespace JsValue

def isUndefined : JsValue → Bool
  | .undefined => true
  | _ => false

def isNull : JsValue → Bool
  | .null => true
  | _ => false

def asString : JsValue → Option String
  | .string s => some s
  | _ => none

def asArray : JsValue → Option (List JsValue)
  | .array elements => some elements
  | _ => none

theorem isUndefined_iff {v : JsValue} : v.isUndefined = true ↔ v = .undefined := by
  cases v <;> simp [isUndefined]

theorem isNull_iff {v : JsValue} : v.isNull = true ↔ v = .null := by
  cases v <;> simp [isNull]

theorem asString_iff {v : JsValue} {s : String} : v.asString = some s ↔ v = .string s := by
  cases v <;> simp [asString]

theorem asArray_iff {v : JsValue} {elements : List JsValue} : v.asArray = some elements ↔ v = .array elements := by
  cases v <;> simp [asArray]

/-- The enumerable properties of an instance of `Object`. -/
def properties : JsValue → Option (List (String × JsValue))
  | .undefined => none
  | .null => none
  | .bool _ => none
  | .number _ => none
  | .string _ => none
  | .bytes data => some (data.zipIdx.map fun (b, i) => (toString i, .number (.finite b.toNat)))
  | .date _ => some []
  | .array elements => some (elements.zipIdx.map fun (v, i) => (toString i, v))
  | .object properties => some properties

/-- `get`, which throws for what is no object. -/
def get (value : JsValue) (key : String) : Except String JsValue :=
  match value.properties with
  | none => .error "Reflect.get called on non-object"
  | some properties => .ok ((properties.lookup key).getD .undefined)

/-- Properties are only ever set and deleted on plain objects. -/
def mapProperties (f : List (String × JsValue) → List (String × JsValue)) : JsValue → JsValue
  | .object properties => .object (f properties)
  | .undefined => .undefined
  | .null => .null
  | .bool b => .bool b
  | .number n => .number n
  | .string s => .string s
  | .bytes data => .bytes data
  | .date time => .date time
  | .array elements => .array elements

/-- The value of a property was changed in place. -/
def changeProperty (value : JsValue) (key : String) (v : JsValue) : JsValue :=
  value.mapProperties (Entries.change · key v)

/-- `set`. For `__proto__` it would set the prototype, which can be no string. -/
def set (value : JsValue) (key : String) (v : JsValue) : JsValue :=
  if key = "__proto__" then value else value.mapProperties (Entries.put · key v)

def deleteProperty (value : JsValue) (key : String) : JsValue := value.mapProperties (·.filter (·.1 ≠ key))

/-! ### How deep values are nested -/

mutual

def depth : JsValue → Nat
  | .undefined => 0
  | .null => 0
  | .bool _ => 0
  | .number _ => 0
  | .string _ => 0
  | .bytes _ => 1
  | .date _ => 1
  | .array elements => depthElements elements + 1
  | .object properties => depthProperties properties + 1

def depthElements : List JsValue → Nat
  | [] => 0
  | v :: vs => max v.depth (depthElements vs)

def depthProperties : List (String × JsValue) → Nat
  | [] => 0
  | (_, v) :: vs => max v.depth (depthProperties vs)

end

theorem depth_le_elements {elements : List JsValue} {v : JsValue} (h : v ∈ elements) :
    v.depth ≤ depthElements elements := by
  induction elements with
  | nil => cases h
  | cons x xs ih =>
    rw [depthElements]
    rcases List.mem_cons.mp h with rfl | h
    · exact le_max_left _ _
    · exact (ih h).trans (le_max_right _ _)

theorem depth_le_properties {properties : List (String × JsValue)} {x : String × JsValue} (h : x ∈ properties) :
    x.2.depth ≤ depthProperties properties := by
  induction properties with
  | nil => cases h
  | cons y ys ih =>
    rw [depthProperties]
    rcases List.mem_cons.mp h with rfl | h
    · exact le_max_left _ _
    · exact (ih h).trans (le_max_right _ _)

/-- What is in a value is not nested as deep as the value. -/
theorem depth_lt_of_mem {value : JsValue} {ps : List (String × JsValue)} (hps : value.properties = some ps)
    {x : String × JsValue} (hx : x ∈ ps) : x.2.depth < value.depth := by
  cases value with
  | undefined => cases hps
  | null => cases hps
  | bool b => cases hps
  | number n => cases hps
  | string s => cases hps
  | bytes data =>
    cases hps
    obtain ⟨⟨b, i⟩, -, rfl⟩ := List.mem_map.mp hx
    rw [depth, depth]
    exact Nat.one_pos
  | date t =>
    cases hps
    cases hx
  | array elements =>
    cases hps
    obtain ⟨⟨v, i⟩, hv, rfl⟩ := List.mem_map.mp hx
    rw [depth]
    exact Nat.lt_succ_of_le (depth_le_elements (List.fst_mem_of_mem_zipIdx hv))
  | object properties =>
    cases hps
    rw [depth]
    exact Nat.lt_succ_of_le (depth_le_properties hx)

theorem get_ok {value v : JsValue} {key : String} : value.get key = .ok v ↔
    ∃ ps, value.properties = some ps ∧ v = (ps.lookup key).getD .undefined := by
  unfold get
  cases value.properties with
  | none => exact iff_of_false (fun h => by cases h) (fun ⟨_, h, _⟩ => by cases h)
  | some ps =>
    constructor
    · intro h
      cases h
      exact ⟨ps, rfl, rfl⟩
    · rintro ⟨_, h, rfl⟩
      cases h
      rfl

/-- What `get` finds is not nested as deep, either. -/
theorem depth_of_get {value v : JsValue} {key : String} (h : value.get key = .ok v) (hv : v ≠ .undefined) :
    v.depth < value.depth := by
  obtain ⟨ps, hps, rfl⟩ := get_ok.mp h
  cases hlookup : ps.lookup key with
  | none =>
    rw [hlookup] at hv
    exact absurd rfl hv
  | some w =>
    obtain ⟨l, k, rfl, -⟩ := List.lookup_eq_some_iff.mp hlookup
    exact depth_lt_of_mem (x := (key, w)) hps (List.mem_append_right _ List.mem_cons_self)

/-! ### Other properties -/

/-- An index has only digits. -/
theorem lookup_indices {α : Type} {key : String} {c : Char} (hc : c ∈ key.toList) (hdigit : c.isDigit = false)
    (xs : List (α × Nat)) (f : α → JsValue) : (xs.map fun x => (toString x.2, f x.1)).lookup key = none := by
  refine Entries.lookup_eq_none fun hmem => ?_
  rw [List.map_map] at hmem
  obtain ⟨⟨a, i⟩, -, hi⟩ := List.mem_map.mp hmem
  have hdigits : c ∈ Nat.toDigits 10 i := by
    rw [← Nat.toList_repr]
    exact (show i.repr = key from hi) ▸ hc
  rw [Nat.isDigit_of_mem_toDigits (by decide) (by decide) hdigits] at hdigit
  cases hdigit

/-- Only plain objects have properties whose keys are no indices. -/
theorem object_of_get {value v : JsValue} {key : String} {c : Char} (hc : c ∈ key.toList) (hdigit : c.isDigit = false)
    (h : value.get key = .ok v) (hv : v ≠ .undefined) : ∃ ps, value = .object ps := by
  obtain ⟨ps, hps, rfl⟩ := get_ok.mp h
  cases value with
  | object ps => exact ⟨ps, rfl⟩
  | undefined => cases hps
  | null => cases hps
  | bool b => cases hps
  | number n => cases hps
  | string s => cases hps
  | date t =>
    cases hps
    exact absurd rfl hv
  | bytes data =>
    cases hps
    exact absurd (by rw [lookup_indices hc hdigit data.zipIdx fun b => .number (.finite b.toNat)]; rfl) hv
  | array elements =>
    cases hps
    exact absurd (by rw [lookup_indices hc hdigit elements.zipIdx fun v => v]; rfl) hv

theorem mapProperties_of_not_object {value : JsValue} (h : ¬ ∃ ps, value = .object ps)
    (f : List (String × JsValue) → List (String × JsValue)) : value.mapProperties f = value := by
  cases value with
  | object ps => exact absurd ⟨ps, rfl⟩ h
  | undefined => rfl
  | null => rfl
  | bool b => rfl
  | number n => rfl
  | string s => rfl
  | bytes data => rfl
  | date t => rfl
  | array elements => rfl

theorem get_mapProperties {f : List (String × JsValue) → List (String × JsValue)} {key : String}
    (h : ∀ ps, (f ps).lookup key = ps.lookup key) (value : JsValue) :
    (value.mapProperties f).get key = value.get key := by
  by_cases hobject : ∃ ps, value = .object ps
  · obtain ⟨ps, rfl⟩ := hobject
    exact congrArg (fun v => Except.ok (Option.getD v _)) (h ps)
  · rw [mapProperties_of_not_object hobject]

theorem get_set_ne {key key' : String} (h : key' ≠ key) (value v : JsValue) :
    (value.set key v).get key' = value.get key' := by
  unfold set
  split
  · rfl
  · refine get_mapProperties (fun ps => ?_) value
    rw [Entries.lookup_put, if_neg h]

theorem get_set_self (ps : List (String × JsValue)) {key : String} (h : key ≠ "__proto__") (v : JsValue) :
    ((object ps).set key v).get key = .ok v := by
  rw [set, if_neg h]
  show Except.ok (((Entries.put ps key v).lookup key).getD .undefined) = _
  rw [Entries.lookup_put, if_pos rfl]
  rfl

theorem get_deleteProperty_ne {key key' : String} (h : key' ≠ key) (value : JsValue) :
    (value.deleteProperty key).get key' = value.get key' :=
  get_mapProperties (fun _ => Entries.lookup_filter_ne.trans (if_neg h)) value

theorem get_deleteProperty_self {ps : List (String × JsValue)} {key : String} :
    ((object ps).deleteProperty key).get key = .ok .undefined := by
  show Except.ok (((ps.filter (·.1 ≠ key)).lookup key).getD .undefined) = _
  rw [Entries.lookup_filter_ne, if_pos rfl]
  rfl

theorem get_changeProperty_ne {key key' : String} (h : key' ≠ key) (value v : JsValue) :
    (value.changeProperty key v).get key' = value.get key' :=
  get_mapProperties (fun _ => Entries.lookup_change.trans (if_neg h)) value

theorem get_changeProperty_self {ps : List (String × JsValue)} {key : String} {w : JsValue}
    (h : (object ps).get key = .ok w) (hw : w ≠ .undefined) (v : JsValue) :
    ((object ps).changeProperty key v).get key = .ok v := by
  show Except.ok (((Entries.change ps key v).lookup key).getD .undefined) = _
  rw [Entries.lookup_change, if_pos rfl]
  obtain ⟨_, hps, rfl⟩ := get_ok.mp h
  cases hps
  cases hlookup : ps.lookup key with
  | none =>
    rw [hlookup] at hw
    exact absurd rfl hw
  | some u => rfl

end JsValue
end Registry
end WasmerJs
