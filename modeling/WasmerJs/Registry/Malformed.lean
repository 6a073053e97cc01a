import WasmerJs.Registry.MemVolumes

/-! Which manifests the builders of `mem_volumes.rs` accept, which they report, and which they panic on. -/

namespace WasmerJs
namespace Registry
open Run (objectEntries)
open Failing (final FirstIs firstIs_cons not_firstIs_nil firstIs_congr firstIs_map)

section Outcomes

variable {α β : Type} {x : Except Failure α}

def Succeeds (x : Except Failure α) : Prop := ∃ a, x = .ok a

def Panics (x : Except Failure α) : Prop := ∃ message, x = .error (.panic message)

theorem succeeds_ok {a : α} : Succeeds (.ok a : Except Failure α) := ⟨a, rfl⟩

theorem not_succeeds_error {e : Failure} : ¬ Succeeds (.error e : Except Failure α) := fun ⟨_, h⟩ => by cases h

theorem not_panics_ok {a : α} : ¬ Panics (.ok a : Except Failure α) := fun ⟨_, h⟩ => by cases h

theorem panics_panic {message : String} : Panics (.error (.panic message) : Except Failure α) := ⟨message, rfl⟩

theorem not_panics_error {message : String} : ¬ Panics (.error (.error message) : Except Failure α) :=
  fun ⟨_, h⟩ => by cases h

theorem panics_error {e : Failure} : Panics (.error e : Except Failure α) ↔ Panics (.error e : Except Failure β) := by
  cases e with
  | error m => exact iff_of_false not_panics_error not_panics_error
  | panic m => exact iff_of_true panics_panic panics_panic

theorem map_ok {f : α → β} {b : β} : x.map f = .ok b ↔ ∃ a, x = .ok a ∧ f a = b := by
  cases x with
  | error e => exact iff_of_false (fun h => by cases h) fun ⟨_, h, _⟩ => by cases h
  | ok a =>
    constructor
    · intro h
      cases h
      exact ⟨a, rfl, rfl⟩
    · rintro ⟨_, h, rfl⟩
      cases h
      rfl

theorem succeeds_map {f : α → β} : Succeeds (x.map f) ↔ Succeeds x := by
  cases x with
  | ok a => exact iff_of_true succeeds_ok succeeds_ok
  | error e => exact iff_of_false not_succeeds_error not_succeeds_error

theorem panics_map {f : α → β} : Panics (x.map f) ↔ Panics x := by
  cases x with
  | ok a => exact iff_of_false not_panics_ok not_panics_ok
  | error e => exact panics_error

theorem Succeeds.not_panics (h : Succeeds x) : ¬ Panics x := by
  obtain ⟨a, rfl⟩ := h
  exact not_panics_ok

theorem succeeds_collect {xs : List (String × Except Failure α)} :
    Succeeds (collect xs) ↔ ∀ x ∈ xs, Succeeds x.2 := by
  induction xs with
  | nil => exact iff_of_true succeeds_ok fun _ h => by cases h
  | cons x xs ih =>
    obtain ⟨key, x⟩ := x
    rw [List.forall_mem_cons, ← ih]
    cases x with
    | error e => exact iff_of_false not_succeeds_error fun h => not_succeeds_error h.1
    | ok a => exact succeeds_map.trans (iff_and_self.mpr fun _ => succeeds_ok)

theorem panics_collect {xs : List (String × Except Failure α)} :
    Panics (collect xs) ↔ FirstIs (fun x => Succeeds x.2) (fun x => Panics x.2) xs := by
  induction xs with
  | nil => exact iff_of_false not_panics_ok not_firstIs_nil
  | cons x xs ih =>
    obtain ⟨key, x⟩ := x
    rw [firstIs_cons, ← ih]
    cases x with
    | error e => exact panics_error.trans (or_iff_left fun h => not_succeeds_error h.1).symm
    | ok a =>
      rw [or_iff_right not_panics_ok]
      exact panics_map.trans (iff_and_self.mpr fun _ => succeeds_ok)

end Outcomes

/-! ### Values -/

/-- A duration of seconds that is not too long. -/
def Number.InRange (n : Number) : Prop := ∃ q : ℚ, n = .finite q ∧ 0 ≤ q ∧ q < 2 ^ 64

/-- The seconds of a time. -/
def timeOf : JsValue → Option Number
  | .date time => some time
  | .number seconds => some seconds
  | .undefined => none
  | .null => none
  | .bool _ => none
  | .string _ => none
  | .bytes _ => none
  | .array _ => none
  | .object _ => none

/-- The data and the time of a value that has both. -/
def wrapped (value : JsValue) : Option (JsValue × JsValue) :=
  match value.properties with
  | none => none
  | some ps =>
    let data := (ps.lookup "data").getD .undefined
    let modified := (ps.lookup "modified").getD .undefined
    if !data.isUndefined && !modified.isUndefined then some (data, modified) else none

theorem get_of_wrapped {v : JsValue} {w : JsValue × JsValue} (h : wrapped v = some w) :
    v.get "data" = .ok w.1 ∧ w.1.isUndefined = false := by
  unfold wrapped at h
  unfold JsValue.get
  cases hps : v.properties with
  | none =>
    rw [hps] at h
    cases h
  | some ps =>
    simp only [hps] at h
    split at h
    · rename_i hdefined
      cases h
      exact ⟨rfl, (Bool.not_eq_true' _).mp (Bool.and_eq_true_iff.mp hdefined).1⟩
    · cases h

/-- What a value stands for. -/
def contents (value : JsValue) : JsValue :=
  match wrapped value with
  | none => value
  | some (data, _) => data

/-- The value has no time, or one in range. -/
def Timed (value : JsValue) : Prop := ∀ data modified, wrapped value = some (data, modified) →
  ∃ n, timeOf modified = some n ∧ n.InRange

/-- The time of the value is not in range. -/
def Mistimed (value : JsValue) : Prop := ∃ data modified, wrapped value = some (data, modified) ∧
  ∃ n, timeOf modified = some n ∧ ¬ n.InRange

mutual

/-- Files, and objects of what is accepted. -/
inductive AcceptedNode : JsValue → Prop where
  | file {v : JsValue} (ht : Timed v) (hf : isFileData (contents v) = true) : AcceptedNode v
  | dir {v : JsValue} (ht : Timed v) (hf : isFileData (contents v) = false) (hd : AcceptedDir (contents v)) :
      AcceptedNode v

inductive AcceptedDir : JsValue → Prop where
  | entries {v : JsValue} {ps : List (String × JsValue)} (hps : v.properties = some ps)
      (hall : ∀ x ∈ ps, AcceptedNode x.2) : AcceptedDir v

end

mutual

/-- A time that is not in range, or what is neither a file nor an object. -/
inductive FatalNode : JsValue → Prop where
  | time {v : JsValue} (ht : Mistimed v) : FatalNode v
  | dir {v : JsValue} (ht : Timed v) (hf : isFileData (contents v) = false) (hd : FatalDir (contents v)) : FatalNode v

/-- Of the entries in the order of their keys, the first that is not accepted decides. -/
inductive FatalDir : JsValue → Prop where
  | primitive {v : JsValue} (hps : v.properties = none) : FatalDir v
  | entry {v : JsValue} {ps before after : List (String × JsValue)} {x : String × JsValue}
      (hps : v.properties = some ps) (hsplit : objectEntries ps = before ++ x :: after)
      (hbefore : ∀ y ∈ before, AcceptedNode y.2) (hx : FatalNode x.2) : FatalDir v

end

theorem acceptedNode_iff {v : JsValue} : AcceptedNode v ↔
    Timed v ∧ (isFileData (contents v) = true ∨ isFileData (contents v) = false ∧ AcceptedDir (contents v)) := by
  constructor
  · intro h
    cases h with
    | file ht hf => exact ⟨ht, .inl hf⟩
    | dir ht hf hd => exact ⟨ht, .inr ⟨hf, hd⟩⟩
  · rintro ⟨ht, hf | ⟨hf, hd⟩⟩
    · exact .file ht hf
    · exact .dir ht hf hd

theorem acceptedDir_iff {v : JsValue} {ps : List (String × JsValue)} (hps : v.properties = some ps) :
    AcceptedDir v ↔ ∀ x ∈ ps, AcceptedNode x.2 := by
  constructor
  · intro h
    cases h with
    | entries hps' hall =>
      cases hps.symm.trans hps'
      exact hall
  · exact .entries hps

theorem fatalNode_iff {v : JsValue} : FatalNode v ↔
    Mistimed v ∨ Timed v ∧ isFileData (contents v) = false ∧ FatalDir (contents v) := by
  constructor
  · intro h
    cases h with
    | time ht => exact .inl ht
    | dir ht hf hd => exact .inr ⟨ht, hf, hd⟩
  · rintro (ht | ⟨ht, hf, hd⟩)
    · exact .time ht
    · exact .dir ht hf hd

theorem fatalDir_iff {v : JsValue} {ps : List (String × JsValue)} (hps : v.properties = some ps) :
    FatalDir v ↔ FirstIs (fun x => AcceptedNode x.2) (fun x => FatalNode x.2) (objectEntries ps) := by
  constructor
  · intro h
    cases h with
    | primitive hnone => cases hps.symm.trans hnone
    | entry hps' hsplit hbefore hx =>
      cases hps.symm.trans hps'
      exact ⟨_, _, _, hsplit, hbefore, hx⟩
  · rintro ⟨before, x, after, hsplit, hbefore, hx⟩
    exact .entry hps hsplit hbefore hx

/-! ### Nodes and directories -/

theorem succeeds_fromSecs {n : Number} : Succeeds (fromSecs n) ↔ n.InRange := by
  cases n with
  | nan => exact iff_of_false not_succeeds_error fun ⟨_, h, _⟩ => by cases h
  | infinity negative =>
    cases negative with
    | false => exact iff_of_false not_succeeds_error fun ⟨_, h, _⟩ => by cases h
    | true => exact iff_of_false not_succeeds_error fun ⟨_, h, _⟩ => by cases h
  | finite q =>
    rw [fromSecs]
    split
    · rename_i hneg
      refine iff_of_false not_succeeds_error ?_
      rintro ⟨_, h, hq, -⟩
      cases h
      exact not_le_of_gt hneg hq
    · rename_i hnonneg
      split
      · rename_i hbig
        refine iff_of_false not_succeeds_error ?_
        rintro ⟨_, h, -, hq⟩
        cases h
        exact not_le_of_gt hq hbig
      · rename_i hsmall
        exact iff_of_true succeeds_ok ⟨q, rfl, not_lt.mp hnonneg, not_le.mp hsmall⟩

/-- Durations are converted, or the conversion panics. -/
theorem panics_fromSecs {n : Number} : Panics (fromSecs n) ↔ ¬ n.InRange := by
  rw [← succeeds_fromSecs]
  cases n with
  | nan => exact iff_of_true panics_panic not_succeeds_error
  | infinity negative =>
    cases negative with
    | false => exact iff_of_true panics_panic not_succeeds_error
    | true => exact iff_of_true panics_panic not_succeeds_error
  | finite q =>
    rw [fromSecs]
    split
    · exact iff_of_true panics_panic not_succeeds_error
    · split
      · exact iff_of_true panics_panic not_succeeds_error
      · exact iff_of_false not_panics_ok (not_not_intro succeeds_ok)

theorem toSystime_eq (modified : JsValue) : toSystime modified = match timeOf modified with
    | some n => (fromSecs n).map (unixEpoch + ·)
    | none => .error (.error "'modified' is neither a 'Date' or a number!") := by
  cases modified with
  | undefined => rfl
  | null => rfl
  | bool b => rfl
  | number n => rfl
  | string s => rfl
  | bytes data => rfl
  | date time => rfl
  | array elements => rfl
  | object ps => rfl

theorem succeeds_toSystime {modified : JsValue} :
    Succeeds (toSystime modified) ↔ ∃ n, timeOf modified = some n ∧ n.InRange := by
  rw [toSystime_eq]
  cases timeOf modified with
  | none => exact iff_of_false not_succeeds_error fun ⟨_, h, _⟩ => by cases h
  | some n => simp only [succeeds_map, succeeds_fromSecs, Option.some.injEq, exists_eq_left']

theorem panics_toSystime {modified : JsValue} :
    Panics (toSystime modified) ↔ ∃ n, timeOf modified = some n ∧ ¬ n.InRange := by
  rw [toSystime_eq]
  cases timeOf modified with
  | none => exact iff_of_false not_panics_error fun ⟨_, h, _⟩ => by cases h
  | some n => simp only [panics_map, panics_fromSecs, Option.some.injEq, exists_eq_left']

theorem unwrapNode_eq (value : JsValue) : unwrapNode value = match wrapped value with
    | none => .ok (value, unixEpoch)
    | some (data, modified) => (toSystime modified).map (data, ·) := by
  unfold unwrapNode wrapped JsValue.get
  cases value.properties with
  | none => rfl
  | some ps =>
    simp only
    split
    · rfl
    · rfl

theorem timed_of_wrapped {v data modified : JsValue} (h : wrapped v = some (data, modified)) :
    Timed v ↔ Succeeds (toSystime modified) := by
  rw [succeeds_toSystime]
  constructor
  · exact fun ht => ht data modified h
  · intro ht d m h'
    cases h.symm.trans h'
    exact ht

theorem mistimed_of_wrapped {v data modified : JsValue} (h : wrapped v = some (data, modified)) :
    Mistimed v ↔ Panics (toSystime modified) := by
  rw [panics_toSystime]
  constructor
  · rintro ⟨d, m, h', ht⟩
    cases h.symm.trans h'
    exact ht
  · exact fun ht => ⟨data, modified, h, ht⟩

theorem timed_of_plain {v : JsValue} (h : wrapped v = none) : Timed v := fun _ _ h' => by cases h.symm.trans h'

theorem Timed.not_mistimed {v : JsValue} (h : Timed v) : ¬ Mistimed v := by
  rintro ⟨d, m, hw, ht⟩
  exact Succeeds.not_panics ((timed_of_wrapped hw).mp h) (panics_toSystime.mpr ht)

theorem succeeds_unwrapNode {v : JsValue} (h : Timed v) : ∃ t, unwrapNode v = .ok (contents v, t) := by
  rw [unwrapNode_eq, contents]
  cases hw : wrapped v with
  | none => exact ⟨unixEpoch, rfl⟩
  | some w =>
    obtain ⟨t, ht⟩ := (timed_of_wrapped hw).mp h
    refine ⟨t, ?_⟩
    simp only [ht]
    rfl

theorem unwrapNode_error {v : JsValue} (h : ¬ Timed v) :
    ∃ e : Failure, unwrapNode v = .error e ∧ (Panics (.error e : Except Failure Unit) ↔ Mistimed v) := by
  rw [unwrapNode_eq]
  cases hw : wrapped v with
  | none => exact absurd (timed_of_plain hw) h
  | some w =>
    rw [timed_of_wrapped hw] at h
    rw [mistimed_of_wrapped hw]
    cases ht : toSystime w.2 with
    | error e =>
      refine ⟨e, ?_, panics_error⟩
      simp only [ht]
      rfl
    | ok t =>
      rw [ht] at h
      exact absurd succeeds_ok h

section Unwrapping

variable {α : Type} {f : JsValue → SystemTime → Except Failure α} {v : JsValue} {P : Prop}

/-- What is made of the contents of a value succeeds when that does, and the time is right. -/
theorem succeeds_unwrapping (hf : ∀ t, Succeeds (f (contents v) t) ↔ P) :
    Succeeds (match unwrapNode v with
      | .error e => .error e
      | .ok (data, modified) => f data modified) ↔ Timed v ∧ P := by
  by_cases ht : Timed v
  · obtain ⟨t, h⟩ := succeeds_unwrapNode ht
    rw [h]
    exact (hf t).trans (and_iff_right ht).symm
  · obtain ⟨e, h, -⟩ := unwrapNode_error ht
    rw [h]
    exact iff_of_false not_succeeds_error fun h => ht h.1

theorem panics_unwrapping (hf : ∀ t, Panics (f (contents v) t) ↔ P) :
    Panics (match unwrapNode v with
      | .error e => .error e
      | .ok (data, modified) => f data modified) ↔ Mistimed v ∨ Timed v ∧ P := by
  by_cases ht : Timed v
  · obtain ⟨t, h⟩ := succeeds_unwrapNode ht
    rw [h]
    exact (hf t).trans ((or_iff_right ht.not_mistimed).trans (and_iff_right ht)).symm
  · obtain ⟨e, h, he⟩ := unwrapNode_error ht
    rw [h]
    exact panics_error.trans (he.trans (or_iff_left fun h => ht h.1).symm)

end Unwrapping

theorem createFile_ok {data : JsValue} (h : isFileData data = true) (modified : SystemTime) :
    Succeeds (createFile data modified) := by
  cases data with
  | string s => exact succeeds_ok
  | bytes b => exact succeeds_ok
  | undefined => cases h
  | null => cases h
  | bool b => cases h
  | number n => cases h
  | date t => cases h
  | array elements => cases h
  | object ps => cases h

/-- What becomes of a value as a node. -/
def NodeSpec (v : JsValue) : Prop :=
  (Succeeds (createNode v) ↔ AcceptedNode v) ∧ (Panics (createNode v) ↔ FatalNode v)

/-- What becomes of a value as a directory. -/
def DirSpec (v : JsValue) : Prop :=
  ∀ t, (Succeeds (createDir v t) ↔ AcceptedDir v) ∧ (Panics (createDir v t) ↔ FatalDir v)

theorem node_of_dir {v : JsValue} (hdir : DirSpec (contents v)) : NodeSpec v := by
  unfold NodeSpec
  rw [createNode_eq, acceptedNode_iff, fatalNode_iff]
  refine ⟨succeeds_unwrapping fun t => ?_, panics_unwrapping fun t => ?_⟩
  · cases hfile : isFileData (contents v) with
    | true =>
      refine iff_of_true ?_ (.inl rfl)
      rw [if_pos rfl, succeeds_map]
      exact createFile_ok hfile t
    | false =>
      rw [if_neg Bool.false_ne_true, succeeds_map, (hdir t).1]
      exact ⟨fun h => .inr ⟨rfl, h⟩, fun h => h.elim (fun h => by cases h) And.right⟩
  · cases hfile : isFileData (contents v) with
    | true =>
      refine iff_of_false ?_ fun h => by cases h.1
      rw [if_pos rfl, panics_map]
      exact (createFile_ok hfile t).not_panics
    | false =>
      rw [if_neg Bool.false_ne_true, panics_map, (hdir t).2]
      exact (and_iff_right rfl).symm

theorem dir_of_nodes {v : JsValue} (hnodes : ∀ ps, v.properties = some ps → ∀ x ∈ ps, NodeSpec x.2) : DirSpec v := by
  intro t
  rw [createDir_eq]
  cases hps : v.properties with
  | none =>
    refine ⟨iff_of_false not_succeeds_error ?_, iff_of_true panics_panic (.primitive hps)⟩
    intro h
    cases h with
    | entries hps' => cases hps.symm.trans hps'
  | some ps =>
    have hspec : ∀ x ∈ objectEntries ps, NodeSpec x.2 := fun x hx => hnodes ps hps x (mem_objectEntries.mp hx)
    constructor
    · rw [succeeds_map, succeeds_collect, List.forall_mem_map, acceptedDir_iff hps]
      constructor
      · intro h x hx
        have hmem := mem_objectEntries.mpr hx
        exact (hspec x hmem).1.mp (h x hmem)
      · exact fun h x hx => (hspec x hx).1.mpr (h x (mem_objectEntries.mp hx))
    · rw [panics_map, panics_collect, firstIs_map, fatalDir_iff hps]
      exact firstIs_congr (fun x hx => (hspec x hx).1) (fun x hx => (hspec x hx).2)

theorem depth_contents (v : JsValue) : (contents v).depth ≤ v.depth := by
  unfold contents
  cases hw : wrapped v with
  | none => exact le_rfl
  | some w =>
    obtain ⟨hdata, hdefined⟩ := get_of_wrapped hw
    refine (JsValue.depth_of_get hdata ?_).le
    intro h
    rw [h] at hdefined
    cases hdefined

/-- Nodes and directories are nested in turn, and what is in a directory is not nested as deep. -/
theorem dirSpec (v : JsValue) : DirSpec v := by
  induction h : v.depth using Nat.strong_induction_on generalizing v with
  | _ n ih =>
    subst h
    refine dir_of_nodes fun ps hps x hx => node_of_dir ?_
    exact ih _ ((depth_contents x.2).trans_lt (JsValue.depth_lt_of_mem hps hx)) _ rfl

theorem nodeSpec (v : JsValue) : NodeSpec v := node_of_dir (dirSpec _)

/-! ### Volumes -/

def AcceptedVolume (v : JsValue) : Prop := Timed v ∧ AcceptedDir (contents v)

def FatalVolume (v : JsValue) : Prop := Mistimed v ∨ Timed v ∧ FatalDir (contents v)

theorem succeeds_createVolume {v : JsValue} : Succeeds (createVolume v) ↔ AcceptedVolume v :=
  succeeds_unwrapping fun t => succeeds_map.trans (dirSpec _ t).1

theorem panics_createVolume {v : JsValue} : Panics (createVolume v) ↔ FatalVolume v :=
  panics_unwrapping fun t => panics_map.trans (dirSpec _ t).2

/-! ### Manifests -/

/-- How a builder ends. -/
def outcome {α : Type} : EStateM.Result Failure JsValue α → Except Failure α
  | .ok a _ => .ok a
  | .error e _ => .error e

theorem outcome_ofExcept {α : Type} (op : JsValue → Except Failure α) (manifest : JsValue) :
    outcome (Failing.ofExcept op manifest) = op manifest := by
  unfold Failing.ofExcept
  cases op manifest with
  | ok a => rfl
  | error e => rfl

theorem outcome_ok {α : Type} {r : EStateM.Result Failure JsValue α} {a : α} :
    outcome r = .ok a ↔ ∃ manifest, r = .ok a manifest := by
  cases r with
  | ok a' manifest =>
    constructor
    · intro h
      cases h
      exact ⟨manifest, rfl⟩
    · rintro ⟨_, h⟩
      cases h
      rfl
  | error e manifest => exact iff_of_false (fun h => by cases h) fun ⟨_, h⟩ => by cases h

/-- The entries of `fs`, if it is an object. -/
def fsEntries (manifest : JsValue) : List (String × JsValue) :=
  match manifest.get "fs" with
  | .error _ => []
  | .ok fs => (fs.properties.map objectEntries).getD []

/-- The first volume that is not accepted has a time out of range, or something in a directory is neither a file nor an
    object. -/
def FatalFs (manifest : JsValue) : Prop :=
  FirstIs (fun x => AcceptedVolume x.2) (fun x => FatalVolume x.2) (fsEntries manifest)

theorem fsEntries_of_get {manifest fs : JsValue} {ps : List (String × JsValue)} (hfs : manifest.get "fs" = .ok fs)
    (hps : fs.properties = some ps) : fsEntries manifest = objectEntries ps := by
  unfold fsEntries
  simp only [hfs, hps]
  rfl

theorem outcome_createVolumes (manifest : JsValue) : outcome (createVolumes manifest) =
    (collect ((fsEntries manifest).map fun x => (x.1, createVolume x.2))).map fun made =>
      Entries.putAll [] (made.map fun y => (Fs.slashed y.1, y.2)) := by
  unfold createVolumes fsEntries
  cases manifest.get "fs" with
  | error e => rfl
  | ok fs =>
    cases hps : fs.properties with
    | none =>
      simp only [hps]
      rfl
    | some ps =>
      simp only [hps, Option.map_some, Option.getD_some, addVolumes_eq]
      cases collect ((objectEntries ps).map fun x => (x.1, createVolume x.2)) with
      | error e => rfl
      | ok made => rfl

theorem succeeds_createVolumes {manifest : JsValue} :
    Succeeds (outcome (createVolumes manifest)) ↔ ∀ x ∈ fsEntries manifest, AcceptedVolume x.2 := by
  rw [outcome_createVolumes, succeeds_map, succeeds_collect, List.forall_mem_map]
  exact forall₂_congr fun _ _ => succeeds_createVolume

theorem panics_createVolumes {manifest : JsValue} : Panics (outcome (createVolumes manifest)) ↔ FatalFs manifest := by
  rw [outcome_createVolumes, panics_map, panics_collect, firstIs_map]
  exact firstIs_congr (fun _ _ => succeeds_createVolume) fun _ _ => panics_createVolume

/-- The package of a manifest. -/
def packageOf (manifest : JsValue) : JsValue :=
  match manifest.get "package" with
  | .error _ => .undefined
  | .ok pkg => pkg

/-- A file that a package names. -/
def fileOf (key : String) (pkg : JsValue) : Option JsValue :=
  match pkg.get key with
  | .error _ => none
  | .ok file => if file.isUndefined then none else some file

/-- The files of the metadata, in the order of their keys. -/
def metadataFiles (manifest : JsValue) : List (String × JsValue) :=
  ((fileOf "license" (packageOf manifest)).map ("/License", ·)).toList ++
    ((fileOf "readme" (packageOf manifest)).map ("/README.md", ·)).toList

/-- A package, with paths in the place of the files. -/
def withPaths (pkg : JsValue) : JsValue :=
  (moveFile "license" "/License" (.object []) (moveFile "readme" "/README.md" (.object []) pkg).2).2

theorem moveFile_fst {key guestKey : String} (hkey : guestKey ≠ "__proto__") (metaObj : List (String × JsValue))
    (pkg : JsValue) : (moveFile key guestKey (.object metaObj) pkg).1 =
      .object (Entries.putAll metaObj ((fileOf key pkg).map (guestKey, ·)).toList) := by
  unfold moveFile fileOf
  cases pkg.get key with
  | error e => rfl
  | ok file =>
    simp only
    split
    · rfl
    · rw [JsValue.set, if_neg hkey]
      rfl

theorem moveFile_snd {key guestKey : String} (metaObj pkg : JsValue) : (moveFile key guestKey metaObj pkg).2 =
    (moveFile key guestKey (.object []) pkg).2 := by
  unfold moveFile
  cases pkg.get key with
  | error e => rfl
  | ok file =>
    simp only
    split
    · rfl
    · rfl

theorem fileOf_moveFile {key key' guestKey : String} (h : key' ≠ key) (metaObj pkg : JsValue) :
    fileOf key' (moveFile key guestKey metaObj pkg).2 = fileOf key' pkg := by
  unfold moveFile
  cases pkg.get key with
  | error e => rfl
  | ok file =>
    simp only
    split
    · rfl
    · unfold fileOf
      rw [JsValue.get_set_ne h]

theorem slashed_guestKeys : Fs.slashed "README.md" = "/README.md" ∧ Fs.slashed "License" = "/License" := by decide

theorem objectEntries_files (readme license : Option JsValue) :
    objectEntries (Entries.putAll (Entries.putAll [] (readme.map ("/README.md", ·)).toList)
      (license.map ("/License", ·)).toList) =
    (license.map ("/License", ·)).toList ++ (readme.map ("/README.md", ·)).toList := by
  cases readme with
  | none =>
    cases license with
    | none => rfl
    | some l => rfl
  | some r =>
    cases license with
    | none => rfl
    | some l =>
      have hkeys : ¬ Run.utf16 "/README.md" ≤ Run.utf16 "/License" := by decide
      have hput : Entries.putAll [("/README.md", r)] [("/License", l)] = [("/README.md", r), ("/License", l)] := rfl
      show objectEntries (Entries.putAll [("/README.md", r)] [("/License", l)]) = [("/License", l), ("/README.md", r)]
      rw [hput]
      simp [objectEntries, List.insertionSort, hkeys]

/-- The manifest that `create_metadata` leaves. -/
def manifestWithPaths (manifest : JsValue) : JsValue :=
  manifest.changeProperty "package" (withPaths (packageOf manifest))

theorem createMetadata_eq (manifest : JsValue) : createMetadata manifest =
    Failing.ofExcept (fun _ => (collect ((metadataFiles manifest).map fun x => (x.1, createNode x.2))).map
      fun nodes => { node := { modified := unixEpoch, nodes } }) (manifestWithPaths manifest) := by
  unfold createMetadata metadataFiles manifestWithPaths packageOf
  rw [slashed_guestKeys.1, slashed_guestKeys.2]
  cases hget : manifest.get "package" with
  | error e =>
    have hsame : manifest.changeProperty "package" (withPaths .undefined) = manifest := by
      refine JsValue.mapProperties_of_not_object ?_ _
      rintro ⟨ps, rfl⟩
      cases hget
    rw [hsame]
    rfl
  | ok pkg =>
    have hmeta : (moveFile "license" "/License" (moveFile "readme" "/README.md" (.object []) pkg).1
        (moveFile "readme" "/README.md" (.object []) pkg).2).1 =
        .object (Entries.putAll (Entries.putAll [] ((fileOf "readme" pkg).map ("/README.md", ·)).toList)
          ((fileOf "license" pkg).map ("/License", ·)).toList) := by
      rw [moveFile_fst (by decide), moveFile_fst (by decide), fileOf_moveFile (by decide)]
    have hpkg : (moveFile "license" "/License" (moveFile "readme" "/README.md" (.object []) pkg).1
        (moveFile "readme" "/README.md" (.object []) pkg).2).2 = withPaths pkg := moveFile_snd _ _
    simp only [hmeta, hpkg, createDir_eq, JsValue.properties, objectEntries_files]
    cases collect _ with
    | error e => rfl
    | ok nodes => rfl

/-- The first file of the metadata that is not accepted has a time out of range, or something in it is neither a file
    nor an object. -/
def FatalMetadata (manifest : JsValue) : Prop :=
  FirstIs (fun x => AcceptedNode x.2) (fun x => FatalNode x.2) (metadataFiles manifest)

theorem panics_createMetadata {manifest : JsValue} :
    Panics (outcome (createMetadata manifest)) ↔ FatalMetadata manifest := by
  rw [createMetadata_eq, outcome_ofExcept, panics_map, panics_collect, firstIs_map]
  exact firstIs_congr (fun x _ => (nodeSpec x.2).1) fun x _ => (nodeSpec x.2).2

/-- A module that has a name, and a file as its source. -/
def AcceptedAtom (o : JsValue) : Prop := ∃ name source, o.get "name" = .ok (.string name) ∧ o.get "source" = .ok source ∧
  Timed source ∧ isFileData (contents source) = true

/-- A module with a name whose source is there, but panics. -/
def FatalAtom (o : JsValue) : Prop := ∃ name source, o.get "name" = .ok (.string name) ∧ o.get "source" = .ok source ∧
  source ≠ .undefined ∧ source ≠ .null ∧ FatalNode source

/-- The bytes of a file. -/
def fileData : JsValue → Option Bytes
  | .string s => some s.toUTF8.toList
  | .bytes data => some data
  | .undefined => none
  | .null => none
  | .bool _ => none
  | .number _ => none
  | .date _ => none
  | .array _ => none
  | .object _ => none

theorem isFileData_eq (v : JsValue) : isFileData v = (fileData v).isSome := by
  cases v <;> rfl

theorem createFile_of_fileData {v : JsValue} {d : Bytes} (h : fileData v = some d) (t : SystemTime) :
    createFile v t = .ok { modified := t, data := d } := by
  cases v <;> cases h <;> rfl

/-- A node becomes a file by its contents and its time. -/
theorem createNode_file_iff {v : JsValue} {f : MemoryFile} : createNode v = .ok (.file f) ↔
    unwrapNode v = .ok (contents v, f.modified) ∧ fileData (contents v) = some f.data := by
  rw [createNode_eq]
  by_cases ht : Timed v
  · obtain ⟨t, h⟩ := succeeds_unwrapNode ht
    have htime : (Except.ok (contents v, t) : Except Failure (JsValue × SystemTime)) = .ok (contents v, f.modified) ↔
        t = f.modified := by simp
    rw [h, htime]
    simp only
    cases hdata : fileData (contents v) with
    | some d =>
      rw [isFileData_eq, hdata, Option.isSome_some, if_pos rfl, createFile_of_fileData hdata]
      cases f
      simp [Except.map]
    | none =>
      rw [isFileData_eq, hdata, Option.isSome_none, if_neg Bool.false_ne_true]
      refine iff_of_false (fun h => ?_) fun h => by cases h.2
      obtain ⟨d, -, hd⟩ := map_ok.mp h
      cases hd
  · obtain ⟨e, h, -⟩ := unwrapNode_error ht
    rw [h]
    exact iff_of_false (fun h => by cases h) fun h => by cases h.1

theorem createNode_file {v : JsValue} :
    (∃ f, createNode v = .ok (.file f)) ↔ Timed v ∧ isFileData (contents v) = true := by
  simp only [createNode_file_iff, isFileData_eq, Option.isSome_iff_exists]
  constructor
  · rintro ⟨f, hunwrap, hdata⟩
    refine ⟨?_, _, hdata⟩
    by_contra ht
    obtain ⟨e, h, -⟩ := unwrapNode_error ht
    cases h.symm.trans hunwrap
  · rintro ⟨ht, data, hdata⟩
    obtain ⟨t, h⟩ := succeeds_unwrapNode ht
    exact ⟨{ modified := t, data }, h, hdata⟩

/-- What becomes of a module that has a name and a source. -/
theorem createAtom_named {o source : JsValue} {name : String} (hname : o.get "name" = .ok (.string name))
    (hsource : o.get "source" = .ok source) (hne : source ≠ .undefined ∧ source ≠ .null) : createAtom o =
      match createNode source with
      | .error e => .error e
      | .ok (.file f) => .ok (name, f.data)
      | .ok (.dir _ _) => .error (.error "The atom must be a file!") := by
  have hundefined : source.isUndefined = false := Bool.eq_false_iff.mpr fun h => hne.1 (JsValue.isUndefined_iff.mp h)
  have hnull : source.isNull = false := Bool.eq_false_iff.mpr fun h => hne.2 (JsValue.isNull_iff.mp h)
  unfold createAtom
  simp only [hname, hsource, hundefined, hnull, Bool.or_false]
  rfl

/-- Any other module is reported. -/
theorem createAtom_unnamed {o : JsValue} (h : ¬ ∃ name source, o.get "name" = .ok (.string name) ∧
    o.get "source" = .ok source ∧ source ≠ .undefined ∧ source ≠ .null) :
    ∃ message, createAtom o = .error (.error message) := by
  unfold createAtom
  cases hname : o.get "name" with
  | error e => exact ⟨e, rfl⟩
  | ok name =>
    cases hsource : o.get "source" with
    | error e => exact ⟨e, rfl⟩
    | ok source =>
      simp only
      split
      · exact ⟨_, rfl⟩
      · rename_i hdefined
        cases hstring : name.asString with
        | none => exact ⟨_, rfl⟩
        | some s =>
          refine absurd ⟨s, source, hname.trans (congrArg _ (JsValue.asString_iff.mp hstring)), hsource, ?_, ?_⟩ h
          · rintro rfl
            simp [JsValue.isUndefined] at hdefined
          · rintro rfl
            simp [JsValue.isNull] at hdefined

theorem createAtom_ok {o : JsValue} {name : String} {data : Bytes} : createAtom o = .ok (name, data) ↔
    o.get "name" = .ok (.string name) ∧ ∃ source f, o.get "source" = .ok source ∧ createNode source = .ok (.file f) ∧
      f.data = data := by
  constructor
  · intro h
    by_cases hnamed : ∃ name source, o.get "name" = .ok (.string name) ∧ o.get "source" = .ok source ∧
        source ≠ .undefined ∧ source ≠ .null
    · obtain ⟨name, source, hname, hsource, hne⟩ := hnamed
      rw [createAtom_named hname hsource hne] at h
      split at h
      · cases h
      · rename_i f hf
        cases h
        exact ⟨hname, source, f, hsource, hf, rfl⟩
      · cases h
    · obtain ⟨message, heq⟩ := createAtom_unnamed hnamed
      cases heq.symm.trans h
  · rintro ⟨hname, source, f, hsource, hf, rfl⟩
    have hfile := (createNode_file.mp ⟨f, hf⟩).2
    have hne : source ≠ .undefined ∧ source ≠ .null := by
      constructor
      · rintro rfl
        cases hfile
      · rintro rfl
        cases hfile
    rw [createAtom_named hname hsource hne, hf]

theorem panics_createAtom {o : JsValue} : Panics (createAtom o) ↔ FatalAtom o := by
  by_cases h : ∃ name source, o.get "name" = .ok (.string name) ∧ o.get "source" = .ok source ∧ source ≠ .undefined ∧
      source ≠ .null
  · obtain ⟨name, source, hname, hsource, hne⟩ := h
    rw [createAtom_named hname hsource hne]
    have hfatal : FatalAtom o ↔ FatalNode source := by
      constructor
      · rintro ⟨_, source', -, hsource', -, -, hf⟩
        cases hsource.symm.trans hsource'
        exact hf
      · exact fun hf => ⟨name, source, hname, hsource, hne.1, hne.2, hf⟩
    rw [hfatal, ← (nodeSpec source).2]
    cases createNode source with
    | error e => exact panics_error
    | ok n =>
      cases n with
      | file f => exact iff_of_false not_panics_ok not_panics_ok
      | dir t nodes => exact iff_of_false not_panics_error not_panics_ok
  · obtain ⟨message, heq⟩ := createAtom_unnamed h
    rw [heq]
    refine iff_of_false not_panics_error ?_
    rintro ⟨name, source, hname, hsource, hundefined, hnull, -⟩
    exact h ⟨name, source, hname, hsource, hundefined, hnull⟩

/-- The modules of a manifest. -/
def modulesOf (manifest : JsValue) : List JsValue :=
  match manifest.get "module" with
  | .error _ => []
  | .ok modules => modules.asArray.getD []

/-- The first module that is not accepted panics. -/
def FatalModules (manifest : JsValue) : Prop := FirstIs AcceptedAtom FatalAtom (modulesOf manifest)

theorem succeeds_createAtom {o : JsValue} : Succeeds (createAtom o) ↔ AcceptedAtom o := by
  constructor
  · rintro ⟨⟨name, data⟩, h⟩
    obtain ⟨hname, source, f, hsource, hf, -⟩ := createAtom_ok.mp h
    obtain ⟨ht, hfile⟩ := createNode_file.mp ⟨f, hf⟩
    exact ⟨name, source, hname, hsource, ht, hfile⟩
  · rintro ⟨name, source, hname, hsource, ht, hfile⟩
    obtain ⟨f, hf⟩ := createNode_file.mpr ⟨ht, hfile⟩
    exact ⟨(name, f.data), createAtom_ok.mpr ⟨hname, source, f, hsource, hf, rfl⟩⟩

theorem panics_addAtoms (modules : List JsValue) (atoms : Atoms) :
    Panics (addAtoms modules atoms).1 ↔ FirstIs AcceptedAtom FatalAtom modules := by
  induction modules generalizing atoms with
  | nil => exact iff_of_false not_panics_ok not_firstIs_nil
  | cons o modules ih =>
    rw [addAtoms, firstIs_cons]
    have hgood : Succeeds (createAtom o) ↔ AcceptedAtom o := succeeds_createAtom
    have hbad : Panics (createAtom o) ↔ FatalAtom o := panics_createAtom
    rw [← hgood, ← hbad]
    cases createAtom o with
    | error e => exact panics_error.trans (or_iff_left fun h => not_succeeds_error h.1).symm
    | ok atom =>
      exact (ih _).trans ((or_iff_right not_panics_ok).trans (and_iff_right succeeds_ok)).symm

theorem createAtoms_array {manifest : JsValue} {elements : List JsValue}
    (h : manifest.get "module" = .ok (.array elements)) : createAtoms manifest =
      Failing.ofExcept (fun _ => (addAtoms elements []).1)
        (manifest.changeProperty "module" (.array (addAtoms elements []).2)) := by
  unfold createAtoms
  simp only [h, JsValue.isUndefined, JsValue.asArray, Bool.false_eq_true, if_false]
  cases (addAtoms elements []).1 with
  | error e => rfl
  | ok atoms => rfl

theorem createAtoms_other {manifest : JsValue} (h : ¬ ∃ elements, manifest.get "module" = .ok (.array elements)) :
    final (createAtoms manifest) = manifest ∧ ¬ Panics (outcome (createAtoms manifest)) ∧ modulesOf manifest = [] := by
  unfold createAtoms modulesOf
  cases hget : manifest.get "module" with
  | error e => exact ⟨rfl, not_panics_ok, rfl⟩
  | ok modules =>
    have hnone : modules.asArray = none := by
      cases harray : modules.asArray with
      | none => rfl
      | some elements => exact absurd ⟨elements, hget.trans (congrArg _ (JsValue.asArray_iff.mp harray))⟩ h
    simp only [hnone]
    split
    · exact ⟨rfl, not_panics_ok, rfl⟩
    · exact ⟨rfl, not_panics_error, rfl⟩

theorem modulesOf_array {manifest : JsValue} {elements : List JsValue}
    (h : manifest.get "module" = .ok (.array elements)) : modulesOf manifest = elements := by
  unfold modulesOf
  rw [h]
  rfl

theorem panics_createAtoms {manifest : JsValue} : Panics (outcome (createAtoms manifest)) ↔ FatalModules manifest := by
  unfold FatalModules
  by_cases hmodules : ∃ elements, manifest.get "module" = .ok (.array elements)
  · obtain ⟨elements, hget⟩ := hmodules
    rw [createAtoms_array hget, outcome_ofExcept, modulesOf_array hget, panics_addAtoms]
  · obtain ⟨-, hpanics, hnil⟩ := createAtoms_other hmodules
    rw [hnil]
    exact iff_of_false hpanics not_firstIs_nil

/-- None of the builders panics on the manifest. -/
def Reported (manifest : JsValue) : Prop :=
  ¬ Panics (outcome (createVolumes manifest)) ∧ ¬ Panics (outcome (createMetadata manifest)) ∧
    ¬ Panics (outcome (createAtoms manifest))

/-- A malformed manifest is reported, and not fatal, exactly when nothing is wrong in its volumes, in its metadata and
    among its modules, or the first thing that is wrong is one that is checked. -/
theorem malformed_reported_iff (manifest : JsValue) :
    Reported manifest ↔ ¬ FatalFs manifest ∧ ¬ FatalMetadata manifest ∧ ¬ FatalModules manifest := by
  unfold Reported
  rw [panics_createVolumes, panics_createMetadata, panics_createAtoms]

/-- A number in a volume. -/
theorem number_in_volume_panics : ¬ ∀ manifest : JsValue, Reported manifest := by
  intro h
  refine (h (.object [("fs", .object [("a", .number (.finite 5))])])).1 (panics_createVolumes.mpr ?_)
  refine ⟨[], ("a", .number (.finite 5)), [], rfl, List.forall_mem_nil _, .inr ⟨fun _ _ h => ?_, .primitive rfl⟩⟩
  cases h

end Registry
end WasmerJs
