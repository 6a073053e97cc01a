import WasmerJs.Fs.VirtualFs
import WasmerJs.Registry.JsTree

/-! The volumes, atoms and metadata of a package that is made of a manifest
    (`src/registry/package/package_utils/mem_volumes.rs`). The manifest is changed on the way. -/

namespace WasmerJs
namespace Registry
open Run (objectEntries)

/-! ### Times -/

/-- The nanoseconds from the epoch on. -/
abbrev SystemTime : Type := Nat

def unixEpoch : SystemTime := 0

/-- The nearest whole number, the even one of two. -/
def roundTiesEven (q : ℚ) : Nat :=
  let n := q.floor.toNat
  let rest := q - n
  if rest < 1 / 2 then n else if 1 / 2 < rest then n + 1 else if n % 2 = 0 then n else n + 1

/-- `Duration::from_secs_f64`, in nanoseconds. -/
def fromSecs : Number → Except Failure Nat
  | .nan => .error (.panic "cannot convert float seconds to Duration: value is either too big or NaN")
  | .infinity true => .error (.panic "cannot convert float seconds to Duration: value is negative")
  | .infinity false => .error (.panic "cannot convert float seconds to Duration: value is either too big or NaN")
  | .finite q =>
    if q < 0 then .error (.panic "cannot convert float seconds to Duration: value is negative")
    else if 2 ^ 64 ≤ q then
      .error (.panic "cannot convert float seconds to Duration: value is either too big or NaN")
    else .ok (roundTiesEven (q * 10 ^ 9))

/-- Every duration can be added to the epoch. -/
def toSystime : JsValue → Except Failure SystemTime
  | .date time => (fromSecs time).map (unixEpoch + ·)
  | .number millis => (fromSecs millis).map (unixEpoch + ·)
  | .undefined => .error (.error "'modified' is neither a 'Date' or a number!")
  | .null => .error (.error "'modified' is neither a 'Date' or a number!")
  | .bool _ => .error (.error "'modified' is neither a 'Date' or a number!")
  | .string _ => .error (.error "'modified' is neither a 'Date' or a number!")
  | .bytes _ => .error (.error "'modified' is neither a 'Date' or a number!")
  | .array _ => .error (.error "'modified' is neither a 'Date' or a number!")
  | .object _ => .error (.error "'modified' is neither a 'Date' or a number!")

/-! ### Nodes -/

structure MemoryFile where
  modified : SystemTime
  data : Bytes
  deriving DecidableEq

inductive MemoryNode where
  | file (f : MemoryFile)
  | dir (modified : SystemTime) (nodes : List (String × MemoryNode))

/-- A directory, with its nodes in the order in which they were inserted. -/
structure MemoryDir where
  modified : SystemTime
  nodes : List (String × MemoryNode)

structure MemoryVolume where
  node : MemoryDir

def MemoryDir.toNode (d : MemoryDir) : MemoryNode := .dir d.modified d.nodes

/-- What a value wraps with a time, or the value itself. -/
def unwrapNode (value : JsValue) : Except Failure (JsValue × SystemTime) :=
  match value.get "data", value.get "modified" with
  | .ok data, .ok modified =>
    if !data.isUndefined && !modified.isUndefined then (toSystime modified).map (data, ·) else .ok (value, unixEpoch)
  | .ok _, .error _ => .ok (value, unixEpoch)
  | .error _, _ => .ok (value, unixEpoch)

def isFileData : JsValue → Bool
  | .string _ => true
  | .bytes _ => true
  | .undefined => false
  | .null => false
  | .bool _ => false
  | .number _ => false
  | .date _ => false
  | .array _ => false
  | .object _ => false

def createFile (data : JsValue) (modified : SystemTime) : Except Failure MemoryFile :=
  match data with
  | .string s => .ok { modified, data := s.toUTF8.toList }
  | .bytes b => .ok { modified, data := b }
  | .undefined => .error (.error "The embedded file is not a string or a 'Uint8Array")
  | .null => .error (.error "The embedded file is not a string or a 'Uint8Array")
  | .bool _ => .error (.error "The embedded file is not a string or a 'Uint8Array")
  | .number _ => .error (.error "The embedded file is not a string or a 'Uint8Array")
  | .date _ => .error (.error "The embedded file is not a string or a 'Uint8Array")
  | .array _ => .error (.error "The embedded file is not a string or a 'Uint8Array")
  | .object _ => .error (.error "The embedded file is not a string or a 'Uint8Array")

/-- The nodes are collected up to the first one that fails. -/
def collect {α : Type} : List (String × Except Failure α) → Except Failure (List (String × α))
  | [] => .ok []
  | (_, .error e) :: _ => .error e
  | (key, .ok a) :: xs => (collect xs).map ((key, a) :: ·)

theorem collect_ok {α : Type} {xs : List (String × Except Failure α)} {ys : List (String × α)} :
    collect xs = .ok ys ↔ xs = ys.map fun y => (y.1, .ok y.2) := by
  induction xs generalizing ys with
  | nil =>
    constructor
    · intro h
      cases h
      rfl
    · intro h
      rw [List.map_eq_nil_iff.mp h.symm]
      rfl
  | cons x xs ih =>
    obtain ⟨key, x⟩ := x
    rw [eq_comm (a := (key, x) :: xs), List.map_eq_cons_iff]
    cases x with
    | error e =>
      refine iff_of_false (fun h => by cases h) ?_
      rintro ⟨y, ys, -, h, -⟩
      cases h
    | ok a =>
      rw [collect]
      constructor
      · intro h
        cases hrest : collect xs with
        | error e =>
          rw [hrest] at h
          cases h
        | ok zs =>
          rw [hrest] at h
          cases h
          exact ⟨(key, a), zs, rfl, rfl, (ih.mp hrest).symm⟩
      · rintro ⟨⟨key', a'⟩, ys, rfl, h, hrest⟩
        cases h
        rw [ih.mpr hrest.symm]
        rfl

/-- The `unwrap` of `dyn_into::<Object>`. -/
def notAnObject : Failure := .panic "called `Result::unwrap()` on an `Err` value"

theorem mem_objectEntries {α : Type} {ps : List (String × α)} {x : String × α} : x ∈ objectEntries ps ↔ x ∈ ps :=
  (List.perm_insertionSort _ _).mem_iff

/-- What is unwrapped is not nested deeper than the value. -/
theorem depth_unwrapNode {value data : JsValue} {modified : SystemTime}
    (h : unwrapNode value = .ok (data, modified)) : data.depth ≤ value.depth := by
  unfold unwrapNode at h
  split at h
  · rename_i d m hd hm
    split at h
    · rename_i hdefined
      cases ht : toSystime m with
      | error e =>
        rw [ht] at h
        cases h
      | ok t =>
        rw [ht] at h
        cases h
        refine (JsValue.depth_of_get hd ?_).le
        rintro rfl
        cases hdefined
    · cases h
      exact le_rfl
  · cases h
    exact le_rfl
  · cases h
    exact le_rfl

mutual

def createNode (value : JsValue) : Except Failure MemoryNode :=
  match _h : unwrapNode value with
  | .error e => .error e
  | .ok (data, modified) =>
    if isFileData data then (createFile data modified).map .file else (createDir data modified).map MemoryDir.toNode
termination_by (value.depth, 1)
decreasing_by
  have := depth_unwrapNode _h
  rcases Nat.lt_or_eq_of_le this with hlt | heq
  · exact Prod.Lex.left _ _ hlt
  · rw [heq]
    exact Prod.Lex.right _ Nat.one_pos

def createDir (data : JsValue) (modified : SystemTime) : Except Failure MemoryDir :=
  match _h : data.properties with
  | none => .error notAnObject
  | some ps =>
    (collect ((objectEntries ps).attach.map fun x => (x.1.1, createNode x.1.2))).map fun nodes => { modified, nodes }
termination_by (data.depth, 0)
decreasing_by exact Prod.Lex.left _ _ (JsValue.depth_lt_of_mem _h (mem_objectEntries.mp x.2))

end

def createVolume (value : JsValue) : Except Failure MemoryVolume :=
  match unwrapNode value with
  | .error e => .error e
  | .ok (data, modified) => (createDir data modified).map fun node => { node }

theorem createNode_eq (value : JsValue) : createNode value = match unwrapNode value with
    | .error e => .error e
    | .ok (data, modified) =>
      if isFileData data then (createFile data modified).map .file else (createDir data modified).map MemoryDir.toNode := by
  rw [createNode]
  split
  · rename_i e h
    rw [h]
  · rename_i data modified h
    rw [h]

theorem createDir_eq (data : JsValue) (modified : SystemTime) : createDir data modified = match data.properties with
    | none => .error notAnObject
    | some ps =>
      (collect ((objectEntries ps).map fun x => (x.1, createNode x.2))).map fun nodes => { modified, nodes } := by
  rw [createDir]
  split
  · rename_i h
    rw [h]
  · rename_i ps h
    rw [h]
    show Except.map _ (collect ((objectEntries ps).attach.map ((fun x => (x.1, createNode x.2)) ∘ Subtype.val))) = _
    rw [← List.map_map, List.attach_map_subtype_val]

/-! ### Manifests -/

abbrev Volumes : Type := List (String × MemoryVolume)

/-- The atoms, with no annotations. -/
abbrev Atoms : Type := List (String × Bytes)

/-- What is done with a manifest. It is changed in place, also by what fails in the end. -/
abbrev OnManifest (α : Type) : Type := EStateM Failure JsValue α

/-- The loop over the entries of `fs`. Each of them leaves its key as a value in the new `fs`. -/
def addVolumes : List (String × JsValue) → Volumes → JsValue → Except Failure (Volumes × JsValue)
  | [], volumes, newFs => .ok (volumes, newFs)
  | (key, value) :: entries, volumes, newFs =>
    match createVolume value with
    | .error e => .error e
    | .ok volume => addVolumes entries (Entries.put volumes (Fs.slashed key) volume) (newFs.set key (.string key))

/-- The new `fs` after the loop. -/
def keysAsValues (entries : List (String × JsValue)) (newFs : JsValue) : JsValue :=
  entries.foldl (fun fs x => fs.set x.1 (.string x.1)) newFs

/-- The loop makes all volumes, or fails where the first of them does. -/
theorem addVolumes_eq (entries : List (String × JsValue)) (volumes : Volumes) (newFs : JsValue) :
    addVolumes entries volumes newFs = (collect (entries.map fun x => (x.1, createVolume x.2))).map fun made =>
      (Entries.putAll volumes (made.map fun y => (Fs.slashed y.1, y.2)), keysAsValues entries newFs) := by
  induction entries generalizing volumes newFs with
  | nil => rfl
  | cons x entries ih =>
    obtain ⟨key, value⟩ := x
    rw [addVolumes, List.map_cons, collect.eq_def]
    cases createVolume value with
    | error e => rfl
    | ok volume =>
      simp only [ih]
      cases collect (entries.map fun x => (x.1, createVolume x.2)) with
      | error e => rfl
      | ok made => rfl

/-- `create_volumes`, whose base directory is always the root. -/
def createVolumes : OnManifest Volumes := fun manifest =>
  match manifest.get "fs" with
  | .error _ => .ok [] manifest
  | .ok fs =>
    match fs.properties with
    | none => .ok [] manifest
    | some ps =>
      let manifest := manifest.deleteProperty "fs"
      match addVolumes (objectEntries ps) [] (.object []) with
      | .error e => .error e manifest
      | .ok (volumes, newFs) => .ok volumes (manifest.set "fs" newFs)

/-- One of the files that are named in a package is moved to the metadata. -/
def moveFile (key guestKey : String) (metaObj pkg : JsValue) : JsValue × JsValue :=
  match pkg.get key with
  | .error _ => (metaObj, pkg)
  | .ok file => if file.isUndefined then (metaObj, pkg) else (metaObj.set guestKey file, pkg.set key (.string guestKey))

/-- `create_metadata`, whose base directory is always the root. -/
def createMetadata : OnManifest MemoryVolume := fun manifest =>
  match manifest.get "package" with
  | .error _ => .ok { node := { modified := unixEpoch, nodes := [] } } manifest
  | .ok pkg =>
    let (metaObj, pkg) := moveFile "readme" (Fs.slashed "README.md") (.object []) pkg
    let (metaObj, pkg) := moveFile "license" (Fs.slashed "License") metaObj pkg
    let manifest := manifest.changeProperty "package" pkg
    match createDir metaObj unixEpoch with
    | .error e => .error e manifest
    | .ok node => .ok { node } manifest

/-- The name and the bytes of a module. -/
def createAtom (o : JsValue) : Except Failure (String × Bytes) :=
  match o.get "name", o.get "source" with
  | .error e, _ => .error (.error e)
  | .ok _, .error e => .error (.error e)
  | .ok name, .ok source =>
    if name.isUndefined || name.isNull || source.isUndefined || source.isNull then
      .error (.error "'name', or 'source' undefined")
    else
      match name.asString with
      | none => .error (.error "'name' must be a string")
      | some name =>
        match createNode source with
        | .error e => .error e
        | .ok (.file f) => .ok (name, f.data)
        | .ok (.dir _ _) => .error (.error "The atom must be a file!")

/-- The loop over the modules. Their sources become names, up to the first one that fails. -/
def addAtoms : List JsValue → Atoms → Except Failure Atoms × List JsValue
  | [], atoms => (.ok atoms, [])
  | o :: modules, atoms =>
    match createAtom o with
    | .error e => (.error e, o :: modules)
    | .ok (name, data) =>
      let (result, modules) := addAtoms modules (Entries.put atoms name data)
      (result, o.set "source" (.string name) :: modules)

/-- `create_atoms` -/
def createAtoms : OnManifest Atoms := fun manifest =>
  match manifest.get "module" with
  | .error _ => .ok [] manifest
  | .ok modules =>
    if modules.isUndefined then .ok [] manifest
    else
      match modules.asArray with
      | none => .error (.error "'module' must be an array!") manifest
      | some modules =>
        let (result, modules) := addAtoms modules []
        let manifest := manifest.changeProperty "module" (.array modules)
        match result with
        | .error e => .error e manifest
        | .ok atoms => .ok atoms manifest

/-- `createPackage`. What comes after the three builders reads the manifest, but does not change it. -/
def createPackage {Wasmer : Type} (finish : JsValue → Volumes → MemoryVolume → Atoms → Except Failure Wasmer) :
    OnManifest Wasmer := do
  let volumes ← createVolumes
  let metadata ← createMetadata
  let atoms ← createAtoms
  Failing.ofExcept fun manifest => finish manifest volumes metadata atoms

end Registry
end WasmerJs
