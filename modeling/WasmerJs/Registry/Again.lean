import WasmerJs.Registry.VolumeTrees

/-! What `createPackage` leaves of the manifest that it was called with, and what the builders make of it when they are
    called with the same manifest once more. -/

namespace WasmerJs
namespace Registry
open Run (objectEntries)
open Failing (FirstIs final Preserves)

/-! ### What each builder reads and changes -/

theorem outcome_createVolumes_congr {m m' : JsValue} (h : m.get "fs" = m'.get "fs") :
    outcome (createVolumes m) = outcome (createVolumes m') := by
  rw [outcome_createVolumes, outcome_createVolumes, fsEntries, fsEntries, h]

theorem createVolumes_preserves {key : String} (h : key ≠ "fs") : Preserves (·.get key) createVolumes := by
  intro m
  unfold createVolumes
  cases m.get "fs" with
  | error e => rfl
  | ok fs =>
    cases hps : fs.properties with
    | none =>
      simp only [hps]
      rfl
    | some ps =>
      simp only [hps]
      cases addVolumes (objectEntries ps) [] (.object []) with
      | error e => exact JsValue.get_deleteProperty_ne h m
      | ok r => exact (JsValue.get_set_ne h _ _).trans (JsValue.get_deleteProperty_ne h m)

theorem metadataFiles_congr {m m' : JsValue} (h : m.get "package" = m'.get "package") :
    metadataFiles m = metadataFiles m' := by
  unfold metadataFiles packageOf
  rw [h]

theorem outcome_createMetadata (m : JsValue) : outcome (createMetadata m) =
    (collect ((metadataFiles m).map fun x => (x.1, createNode x.2))).map fun nodes =>
      { node := { modified := unixEpoch, nodes } } := by
  rw [createMetadata_eq, outcome_ofExcept]

theorem final_createMetadata (m : JsValue) : final (createMetadata m) = manifestWithPaths m := by
  rw [createMetadata_eq, Failing.final_ofExcept]

theorem createMetadata_preserves {key : String} (h : key ≠ "package") : Preserves (·.get key) createMetadata := by
  intro m
  rw [final_createMetadata]
  exact JsValue.get_changeProperty_ne h m _

theorem outcome_createAtoms_congr {m m' : JsValue} (h : m.get "module" = m'.get "module") :
    outcome (createAtoms m) = outcome (createAtoms m') := by
  unfold createAtoms
  rw [h]
  cases m'.get "module" with
  | error e => rfl
  | ok modules =>
    simp only
    split
    · rfl
    · cases modules.asArray with
      | none => rfl
      | some elements =>
        simp only
        cases (addAtoms elements []).1 with
        | error e => rfl
        | ok atoms => rfl

theorem createAtoms_preserves {key : String} (h : key ≠ "module") : Preserves (·.get key) createAtoms := by
  intro m
  by_cases hmodules : ∃ elements, m.get "module" = .ok (.array elements)
  · obtain ⟨elements, hget⟩ := hmodules
    rw [createAtoms_array hget, Failing.final_ofExcept]
    exact JsValue.get_changeProperty_ne h m _
  · rw [(createAtoms_other hmodules).1]

/-! ### Builders that run twice -/

/-- The builder gives the same for both manifests, and it is no panic. -/
def SameOn {α : Type} (build : OnManifest α) (m m' : JsValue) : Prop :=
  outcome (build m') = outcome (build m) ∧ ¬ Panics (outcome (build m'))

/-- The builders give the same for a manifest that `createPackage` was called with as they would have given before. -/
def Repeatable {Wasmer : Type} (finish : JsValue → Volumes → MemoryVolume → Atoms → Except Failure Wasmer)
    (m : JsValue) : Prop :=
  let m' := final (createPackage finish m)
  SameOn createVolumes m m' ∧ SameOn createMetadata m m' ∧ SameOn createAtoms m m'

/-! ### Volumes -/

/-- The values of the new `fs` are keys. -/
theorem keysAsValues_strings (entries : List (String × JsValue)) {ps : List (String × JsValue)}
    (h : ∀ x ∈ ps, ∃ s, x.2 = .string s) :
    ∃ ps', keysAsValues entries (.object ps) = .object ps' ∧ ∀ x ∈ ps', ∃ s, x.2 = .string s := by
  unfold keysAsValues
  induction entries generalizing ps with
  | nil => exact ⟨ps, rfl, h⟩
  | cons y entries ih =>
    rw [List.foldl_cons, JsValue.set]
    split
    · exact ih h
    · refine ih fun x hx => ?_
      rcases Entries.mem_put hx with rfl | hx
      · exact ⟨_, rfl⟩
      · exact h x hx

/-- A key is no directory. -/
theorem fatalVolume_string (s : String) : FatalVolume (.string s) := .inr ⟨timed_of_plain rfl, .primitive rfl⟩

theorem createVolumes_of_empty {m : JsValue} (h : fsEntries m = []) : outcome (createVolumes m) = .ok [] := by
  rw [outcome_createVolumes, h]
  rfl

theorem createVolumes_object {mps ps : List (String × JsValue)} {fs : JsValue}
    (hfs : (JsValue.object mps).get "fs" = .ok fs) (hps : fs.properties = some ps) : createVolumes (.object mps) =
      match collect ((objectEntries ps).map fun x => (x.1, createVolume x.2)) with
      | .error e => .error e ((JsValue.object mps).deleteProperty "fs")
      | .ok made => .ok (Entries.putAll [] (made.map fun y => (Fs.slashed y.1, y.2)))
        (((JsValue.object mps).deleteProperty "fs").set "fs" (keysAsValues (objectEntries ps) (.object []))) := by
  unfold createVolumes
  simp only [hfs, hps, addVolumes_eq]
  cases collect ((objectEntries ps).map fun x => (x.1, createVolume x.2)) with
  | error e => rfl
  | ok made => rfl

theorem get_newFs (mps : List (String × JsValue)) (newFs : JsValue) :
    (((JsValue.object mps).deleteProperty "fs").set "fs" newFs).get "fs" = .ok newFs :=
  JsValue.get_set_self (mps.filter fun x => x.1 ≠ "fs") (by decide) newFs

/-- Without entries there is nothing that could be left. -/
theorem sameOn_of_noEntries {mps ps : List (String × JsValue)} {fs : JsValue}
    (hfs : (JsValue.object mps).get "fs" = .ok fs) (hps : fs.properties = some ps) (h : objectEntries ps = []) :
    SameOn createVolumes (.object mps) (final (createVolumes (.object mps))) := by
  have hfirst : outcome (createVolumes (.object mps)) = .ok [] :=
    createVolumes_of_empty ((fsEntries_of_get hfs hps).trans h)
  have hfinal : fsEntries (final (createVolumes (.object mps))) = [] := by
    rw [createVolumes_object hfs hps, h]
    exact (fsEntries_of_get (get_newFs mps _) rfl).trans rfl
  have hsecond := createVolumes_of_empty hfinal
  exact ⟨hsecond.trans hfirst.symm, hsecond ▸ not_panics_ok⟩

/-- With entries, `fs` is deleted, or it has keys in the place of trees. -/
theorem not_sameOn_of_entries {mps ps : List (String × JsValue)} {fs : JsValue}
    (hfs : (JsValue.object mps).get "fs" = .ok fs) (hps : fs.properties = some ps) (h : objectEntries ps ≠ []) :
    ¬ SameOn createVolumes (.object mps) (final (createVolumes (.object mps))) := by
  rintro ⟨hsame, hpanic⟩
  rw [panics_createVolumes] at hpanic
  rw [createVolumes_object hfs hps] at hsame hpanic
  cases hmade : collect ((objectEntries ps).map fun x => (x.1, createVolume x.2)) with
  | error e =>
    rw [hmade] at hsame
    have hempty : fsEntries ((JsValue.object mps).deleteProperty "fs") = [] := by
      unfold fsEntries
      rw [JsValue.get_deleteProperty_self]
      rfl
    have hsecond := createVolumes_of_empty hempty
    cases hsecond.symm.trans hsame
  | ok made =>
    rw [hmade] at hsame hpanic
    obtain ⟨ps', hnew, hstrings⟩ := keysAsValues_strings (objectEntries ps) (List.forall_mem_nil _)
    have hentries := fsEntries_of_get (get_newFs mps (keysAsValues (objectEntries ps) (.object [])))
      (congrArg JsValue.properties hnew)
    cases hrest : objectEntries ps' with
    | nil =>
      have hsecond := createVolumes_of_empty (hentries.trans hrest)
      have hvolumes : Entries.putAll [] (made.map fun y => (Fs.slashed y.1, y.2)) = [] :=
        (Except.ok.inj (hsecond.symm.trans hsame)).symm
      cases made with
      | nil => exact h (List.map_eq_nil_iff.mp (collect_ok.mp hmade))
      | cons y made => exact Entries.putAll_ne_nil Entries.put_ne_nil hvolumes
    | cons x xs =>
      refine hpanic ?_
      show FatalFs _
      unfold FatalFs
      have hx : x ∈ ps' := mem_objectEntries.mp (hrest ▸ List.mem_cons_self)
      obtain ⟨s, hs⟩ := hstrings x hx
      refine ⟨[], x, xs, hentries.trans hrest, List.forall_mem_nil _, ?_⟩
      show FatalVolume x.2
      rw [hs]
      exact fatalVolume_string s

theorem sameOn_of_object {mps ps : List (String × JsValue)} {fs : JsValue}
    (hfs : (JsValue.object mps).get "fs" = .ok fs) (hps : fs.properties = some ps) :
    SameOn createVolumes (.object mps) (final (createVolumes (.object mps))) ↔ objectEntries ps = [] :=
  ⟨fun hsame => by_contra fun h => not_sameOn_of_entries hfs hps h hsame, sameOn_of_noEntries hfs hps⟩

/-- Volumes that are made leave a manifest whose volumes are fatal, or gone. -/
theorem sameOn_createVolumes {m : JsValue} : SameOn createVolumes m (final (createVolumes m)) ↔ fsEntries m = [] := by
  cases hfs : m.get "fs" with
  | error e =>
    have hempty : fsEntries m = [] := by rw [fsEntries, hfs]
    have hfinal : final (createVolumes m) = m := by rw [createVolumes, hfs]; rfl
    refine iff_of_true ?_ hempty
    rw [hfinal]
    exact ⟨rfl, createVolumes_of_empty hempty ▸ not_panics_ok⟩
  | ok fs =>
    cases hps : fs.properties with
    | none =>
      have hempty : fsEntries m = [] := by
        unfold fsEntries
        simp only [hfs, hps]
        rfl
      have hfinal : final (createVolumes m) = m := by
        unfold createVolumes
        simp only [hfs, hps]
        rfl
      refine iff_of_true ?_ hempty
      rw [hfinal]
      exact ⟨rfl, createVolumes_of_empty hempty ▸ not_panics_ok⟩
    | some ps =>
      have hne : fs ≠ .undefined := by
        rintro rfl
        cases hps
      obtain ⟨mps, rfl⟩ := JsValue.object_of_get (c := 'f') (by decide) (by decide) hfs hne
      rw [fsEntries_of_get hfs hps]
      exact sameOn_of_object hfs hps

/-! ### Files without a time -/

/-- The value has no time, or one that is rounded to the epoch. -/
def Timeless (v : JsValue) : Prop := ∀ data modified, wrapped v = some (data, modified) →
  ∃ q : ℚ, timeOf modified = some (.finite q) ∧ 0 ≤ q ∧ q ≤ 1 / 2 / 10 ^ 9

theorem roundTiesEven_eq_zero {q : ℚ} (h : 0 ≤ q) : roundTiesEven q = 0 ↔ q ≤ 1 / 2 := by
  have hfloor : q.floor.toNat = ⌊q⌋₊ := rfl
  have hle : (⌊q⌋₊ : ℚ) ≤ q := Nat.floor_le h
  unfold roundTiesEven
  simp only [hfloor]
  rcases Nat.eq_zero_or_pos ⌊q⌋₊ with hzero | hpos
  · simp only [hzero, Nat.cast_zero, sub_zero]
    split
    · rename_i hlt
      exact iff_of_true rfl hlt.le
    · split
      · rename_i hlt
        exact iff_of_false (Nat.succ_ne_zero 0) (not_le_of_gt hlt)
      · rename_i hle'
        exact iff_of_true rfl (not_lt.mp hle')
  · have hone : (1 : ℚ) ≤ ⌊q⌋₊ := Nat.one_le_cast.mpr hpos
    have hbig : ¬ q ≤ 1 / 2 := fun hsmall => by linarith
    refine iff_of_false ?_ hbig
    split
    · exact hpos.ne'
    · split
      · exact Nat.succ_ne_zero _
      · split
        · exact hpos.ne'
        · exact Nat.succ_ne_zero _

theorem fromSecs_zero {n : Number} : fromSecs n = .ok 0 ↔ ∃ q : ℚ, n = .finite q ∧ 0 ≤ q ∧ q ≤ 1 / 2 / 10 ^ 9 := by
  constructor
  · intro h
    obtain ⟨q, rfl, hq, hbig⟩ := succeeds_fromSecs.mp ⟨0, h⟩
    rw [fromSecs, if_neg (not_lt.mpr hq), if_neg (not_le.mpr hbig)] at h
    have hround := (roundTiesEven_eq_zero (by positivity)).mp (Except.ok.inj h)
    refine ⟨q, rfl, hq, ?_⟩
    linarith
  · rintro ⟨q, rfl, hq, hsmall⟩
    have hbig : q < 2 ^ 64 := hsmall.trans_lt (by norm_num)
    rw [fromSecs, if_neg (not_lt.mpr hq), if_neg (not_le.mpr hbig)]
    refine congrArg Except.ok ((roundTiesEven_eq_zero (by positivity)).mpr ?_)
    linarith

theorem toSystime_epoch {modified : JsValue} : toSystime modified = .ok unixEpoch ↔
    ∃ q : ℚ, timeOf modified = some (.finite q) ∧ 0 ≤ q ∧ q ≤ 1 / 2 / 10 ^ 9 := by
  rw [toSystime_eq]
  cases timeOf modified with
  | none => exact iff_of_false (fun h => by cases h) fun ⟨_, h, _⟩ => by cases h
  | some n =>
    have hzero : (fromSecs n).map (unixEpoch + ·) = .ok unixEpoch ↔ fromSecs n = .ok 0 := by
      rw [map_ok]
      constructor
      · rintro ⟨t, h, ht⟩
        rw [unixEpoch, Nat.zero_add] at ht
        rw [h, ht]
      · exact fun h => ⟨0, h, rfl⟩
    simp only [hzero, fromSecs_zero, Option.some.injEq]

theorem unwrapNode_epoch {v : JsValue} : unwrapNode v = .ok (contents v, unixEpoch) ↔ Timeless v := by
  rw [unwrapNode_eq]
  unfold contents Timeless
  cases hw : wrapped v with
  | none => exact iff_of_true rfl fun _ _ h => by cases h
  | some w =>
    obtain ⟨data, modified⟩ := w
    have htime : (∀ d m, some (data, modified) = some (d, m) →
        ∃ q : ℚ, timeOf m = some (.finite q) ∧ 0 ≤ q ∧ q ≤ 1 / 2 / 10 ^ 9) ↔ toSystime modified = .ok unixEpoch := by
      rw [toSystime_epoch]
      exact ⟨fun h => h _ _ rfl, fun h _ _ heq => by cases heq; exact h⟩
    rw [htime]
    simp only [map_ok, Prod.mk.injEq, true_and, exists_eq_right]

theorem createNode_timeless {v : JsValue} {data : Bytes} :
    createNode v = .ok (.file { modified := unixEpoch, data }) ↔ fileData (contents v) = some data ∧ Timeless v := by
  rw [createNode_file_iff, unwrapNode_epoch, and_comm]

/-! ### Metadata -/

/-- The file has its own path as its text, and no time. -/
def IsOwnPath (x : String × JsValue) : Prop := fileData (contents x.2) = some x.1.toUTF8.toList ∧ Timeless x.2

theorem fileOf_moveFile_self {key guestKey : String} (hkey : key ≠ "__proto__") {c : Char} (hc : c ∈ key.toList)
    (hdigit : c.isDigit = false) (metaObj pkg : JsValue) :
    fileOf key (moveFile key guestKey metaObj pkg).2 = (fileOf key pkg).map fun _ => .string guestKey := by
  cases hget : pkg.get key with
  | error e =>
    unfold moveFile fileOf
    simp only [hget]
    rfl
  | ok file =>
    cases hundefined : file.isUndefined with
    | true =>
      unfold moveFile fileOf
      simp only [hget, hundefined, if_true]
      rfl
    | false =>
      have hne : file ≠ .undefined := by
        rintro rfl
        cases hundefined
      obtain ⟨ps, rfl⟩ := JsValue.object_of_get hc hdigit hget hne
      unfold moveFile fileOf
      simp only [hget, hundefined, Bool.false_eq_true, if_false, JsValue.get_set_self _ hkey]
      rfl

theorem fileOf_withPaths (pkg : JsValue) :
    fileOf "readme" (withPaths pkg) = (fileOf "readme" pkg).map (fun _ => .string "/README.md") ∧
      fileOf "license" (withPaths pkg) = (fileOf "license" pkg).map (fun _ => .string "/License") := by
  unfold withPaths
  constructor
  · rw [fileOf_moveFile (by decide), fileOf_moveFile_self (c := 'r') (by decide) (by decide) (by decide)]
  · rw [fileOf_moveFile_self (c := 'l') (by decide) (by decide) (by decide), fileOf_moveFile (by decide)]

theorem packageOf_manifestWithPaths (m : JsValue) : packageOf (manifestWithPaths m) = withPaths (packageOf m) := by
  by_cases hobject : ∃ ps, m = .object ps
  · obtain ⟨ps, rfl⟩ := hobject
    show ((Entries.change ps "package" (withPaths ((ps.lookup "package").getD .undefined))).lookup "package").getD
      .undefined = withPaths ((ps.lookup "package").getD .undefined)
    rw [Entries.lookup_change, if_pos rfl]
    cases ps.lookup "package" with
    | none => rfl
    | some pkg => rfl
  · have hsame : manifestWithPaths m = m := JsValue.mapProperties_of_not_object hobject _
    have hundefined : packageOf m = .undefined := by
      unfold packageOf
      cases hget : m.get "package" with
      | error e => rfl
      | ok pkg => exact by_contra fun hne => hobject (JsValue.object_of_get (c := 'p') (by decide) (by decide) hget hne)
    rw [hsame, hundefined]
    rfl

theorem metadataFiles_manifestWithPaths (m : JsValue) :
    metadataFiles (manifestWithPaths m) = (metadataFiles m).map fun x => (x.1, .string x.1) := by
  unfold metadataFiles
  rw [packageOf_manifestWithPaths, (fileOf_withPaths _).1, (fileOf_withPaths _).2]
  cases fileOf "license" (packageOf m) with
  | none =>
    cases fileOf "readme" (packageOf m) with
    | none => rfl
    | some r => rfl
  | some l =>
    cases fileOf "readme" (packageOf m) with
    | none => rfl
    | some r => rfl

/-- The nodes of the metadata when all files have become paths. -/
def pathNodes (m : JsValue) : List (String × MemoryNode) :=
  (metadataFiles m).map fun x => (x.1, .file { modified := unixEpoch, data := x.1.toUTF8.toList })

theorem createNode_string (s : String) :
    createNode (.string s) = .ok (.file { modified := unixEpoch, data := s.toUTF8.toList }) :=
  createNode_timeless.mpr ⟨rfl, fun _ _ h => by cases h⟩

theorem collect_pathNodes (m : JsValue) :
    collect ((metadataFiles (manifestWithPaths m)).map fun x => (x.1, createNode x.2)) = .ok (pathNodes m) := by
  rw [collect_ok, metadataFiles_manifestWithPaths, pathNodes, List.map_map, List.map_map]
  refine List.map_congr_left fun x _ => ?_
  exact congrArg (x.1, ·) (createNode_string x.1)

/-- All files are their own paths when the same nodes are made of them. -/
theorem collect_metadataFiles {m : JsValue} :
    collect ((metadataFiles m).map fun x => (x.1, createNode x.2)) = .ok (pathNodes m) ↔
      ∀ x ∈ metadataFiles m, IsOwnPath x := by
  rw [collect_ok, pathNodes, List.map_map, List.map_inj_left]
  refine forall₂_congr fun x _ => ?_
  unfold IsOwnPath
  rw [← createNode_timeless]
  exact Prod.mk_right_inj

/-- The second time, the metadata has paths as its files. -/
theorem sameOn_createMetadata {m : JsValue} :
    SameOn createMetadata m (final (createMetadata m)) ↔ ∀ x ∈ metadataFiles m, IsOwnPath x := by
  have hsecond : outcome (createMetadata (final (createMetadata m))) =
      .ok { node := { modified := unixEpoch, nodes := pathNodes m } } := by
    rw [final_createMetadata, outcome_createMetadata, collect_pathNodes]
    rfl
  unfold SameOn
  rw [hsecond, and_iff_left not_panics_ok, eq_comm, outcome_createMetadata, map_ok, ← collect_metadataFiles]
  constructor
  · rintro ⟨nodes, hnodes, heq⟩
    cases heq
    exact hnodes
  · exact fun h => ⟨_, h, rfl⟩

theorem createMetadata_of_ownPaths {m : JsValue} (h : ∀ x ∈ metadataFiles m, IsOwnPath x) :
    Succeeds (outcome (createMetadata m)) := by
  rw [outcome_createMetadata, collect_metadataFiles.mpr h]
  exact succeeds_ok

/-! ### Atoms -/

/-- What the loop makes of a module. -/
def renamed (o : JsValue) : JsValue :=
  match createAtom o with
  | .error _ => o
  | .ok (name, _) => o.set "source" (.string name)

theorem createAtom_renamed {o : JsValue} {name : String} {data : Bytes} (h : createAtom o = .ok (name, data)) :
    createAtom (renamed o) = .ok (name, name.toUTF8.toList) := by
  obtain ⟨hname, -⟩ := createAtom_ok.mp h
  obtain ⟨ps, rfl⟩ := JsValue.object_of_get (c := 'n') (by decide) (by decide) hname (by simp)
  have hren : renamed (.object ps) = (JsValue.object ps).set "source" (.string name) := by rw [renamed, h]
  rw [hren, createAtom_ok, JsValue.get_set_ne (by decide), JsValue.get_set_self _ (by decide)]
  exact ⟨hname, _, _, rfl, createNode_string name, rfl⟩

/-- The loop goes on behind modules that have become atoms. -/
theorem addAtoms_append {before : List JsValue} {pairs : Atoms} (h : before.map createAtom = pairs.map .ok)
    (rest : List JsValue) (atoms : Atoms) : addAtoms (before ++ rest) atoms =
      ((addAtoms rest (Entries.putAll atoms pairs)).1,
        before.map renamed ++ (addAtoms rest (Entries.putAll atoms pairs)).2) := by
  induction before generalizing pairs atoms with
  | nil =>
    rw [List.map_eq_nil_iff.mp h.symm]
    rfl
  | cons o before ih =>
    obtain ⟨⟨name, data⟩, pairs, rfl, ho, hrest⟩ := List.map_eq_cons_iff.mp h.symm
    have hren : renamed o = o.set "source" (.string name) := by rw [renamed, ← ho]
    rw [List.cons_append, addAtoms, ← ho]
    simp only [ih hrest.symm, Entries.putAll_cons, List.map_cons, List.cons_append, hren]

theorem map_createAtom_renamed {modules : List JsValue} {pairs : Atoms} (h : modules.map createAtom = pairs.map .ok) :
    (modules.map renamed).map createAtom = (pairs.map fun p => (p.1, p.1.toUTF8.toList)).map .ok := by
  induction modules generalizing pairs with
  | nil =>
    rw [List.map_eq_nil_iff.mp h.symm]
    rfl
  | cons o modules ih =>
    obtain ⟨⟨name, data⟩, pairs, rfl, ho, hrest⟩ := List.map_eq_cons_iff.mp h.symm
    rw [List.map_cons, List.map_cons, List.map_cons, List.map_cons, ih hrest.symm, createAtom_renamed ho.symm]

theorem exists_pairs {modules : List JsValue} (h : ∀ o ∈ modules, Succeeds (createAtom o)) :
    ∃ pairs : Atoms, modules.map createAtom = pairs.map .ok := by
  induction modules with
  | nil => exact ⟨[], rfl⟩
  | cons o modules ih =>
    obtain ⟨⟨p, hp⟩, h⟩ := List.forall_mem_cons.mp h
    obtain ⟨pairs, hpairs⟩ := ih h
    exact ⟨p :: pairs, by rw [List.map_cons, List.map_cons, hp, hpairs]⟩

/-- The source of the module is its own name. -/
def SourceIsName (o : JsValue) : Prop := ∃ name source, o.get "name" = .ok (.string name) ∧
  o.get "source" = .ok source ∧ fileData (contents source) = some name.toUTF8.toList

/-- The last module of each name has its name as its source. -/
def LastSourcesAreNames (modules : List JsValue) : Prop := ∀ before o after, modules = before ++ o :: after →
  (∀ o' ∈ after, o'.get "name" ≠ o.get "name") → SourceIsName o

theorem fileData_of_createNode {v : JsValue} {f : MemoryFile} (h : createNode v = .ok (.file f)) :
    fileData (contents v) = some f.data := (createNode_file_iff.mp h).2

theorem sourceIsName_iff {o : JsValue} {name : String} {data : Bytes} (h : createAtom o = .ok (name, data)) :
    SourceIsName o ↔ data = name.toUTF8.toList := by
  obtain ⟨hname, source, f, hsource, hf, rfl⟩ := createAtom_ok.mp h
  have hdata := fileData_of_createNode hf
  constructor
  · rintro ⟨name', source', hname', hsource', hdata'⟩
    cases hname.symm.trans hname'
    cases hsource.symm.trans hsource'
    exact Option.some.inj (hdata.symm.trans hdata')
  · intro heq
    exact ⟨name, source, hname, hsource, heq ▸ hdata⟩

/-- The names of modules that have become atoms. -/
theorem names_iff {modules : List JsValue} {pairs : Atoms} (h : modules.map createAtom = pairs.map .ok) {name : String} :
    (∀ o ∈ modules, o.get "name" ≠ .ok (.string name)) ↔ name ∉ pairs.map Prod.fst := by
  induction modules generalizing pairs with
  | nil =>
    rw [List.map_eq_nil_iff.mp h.symm]
    exact iff_of_true (List.forall_mem_nil _) List.not_mem_nil
  | cons o modules ih =>
    obtain ⟨⟨n, d⟩, pairs, rfl, ho, hrest⟩ := List.map_eq_cons_iff.mp h.symm
    obtain ⟨hname, -⟩ := createAtom_ok.mp ho.symm
    rw [List.forall_mem_cons, ih hrest.symm, List.map_cons, List.mem_cons, not_or, hname]
    refine and_congr_left fun _ => not_congr ⟨fun heq => ?_, fun heq => heq ▸ rfl⟩
    cases heq
    rfl

/-- One module, and the atom that it becomes. -/
theorem last_iff {o : JsValue} {after : List JsValue} {p : String × Bytes} {pairs : Atoms}
    (ho : createAtom o = .ok p) (hafter : after.map createAtom = pairs.map .ok) :
    ((∀ o' ∈ after, o'.get "name" ≠ o.get "name") → SourceIsName o) ↔
      (p.1 ∉ pairs.map Prod.fst → p.2 = p.1.toUTF8.toList) := by
  obtain ⟨hname, -⟩ := createAtom_ok.mp ho
  rw [hname, names_iff hafter, sourceIsName_iff ho]

theorem lastSourcesAreNames_iff {modules : List JsValue} {pairs : Atoms} (h : modules.map createAtom = pairs.map .ok) :
    LastSourcesAreNames modules ↔
      ∀ before p after, pairs = before ++ p :: after → p.1 ∉ after.map Prod.fst → p.2 = p.1.toUTF8.toList := by
  constructor
  · rintro hlast before p after rfl
    rw [List.map_append, List.map_cons] at h
    obtain ⟨before', rest, rfl, -, hrest⟩ := List.map_eq_append_iff.mp h
    obtain ⟨o, after', rfl, ho, hafter⟩ := List.map_eq_cons_iff.mp hrest
    exact (last_iff ho hafter).mp (hlast before' o after' rfl)
  · rintro hlast before o after rfl
    rw [List.map_append, List.map_cons] at h
    obtain ⟨before', rest, rfl, -, hrest⟩ := List.map_eq_append_iff.mp h.symm
    obtain ⟨p, after', rfl, ho, hafter⟩ := List.map_eq_cons_iff.mp hrest
    exact (last_iff ho.symm hafter.symm).mpr (hlast before' p after' rfl)

/-- No module is fatal, and when all of them become atoms, the last of each name has its name as its source. -/
def SettledModules (modules : List JsValue) : Prop :=
  ¬ FirstIs AcceptedAtom FatalAtom modules ∧ ((∀ o ∈ modules, AcceptedAtom o) → LastSourcesAreNames modules)

theorem addAtoms_all {modules : List JsValue} {pairs : Atoms} (h : modules.map createAtom = pairs.map .ok) :
    addAtoms modules [] = (.ok (Entries.putAll [] pairs), modules.map renamed) := by
  have happend := addAtoms_append h [] []
  rw [List.append_nil] at happend
  rw [happend]
  exact Prod.ext rfl (List.append_nil _)

/-- A module that fails does so again, behind the modules that were renamed. -/
theorem addAtoms_failed {before : List JsValue} (after : List JsValue) {o : JsValue} {e : Failure}
    (hbefore : ∀ o' ∈ before, Succeeds (createAtom o')) (ho : createAtom o = .error e) :
    (addAtoms (before ++ o :: after) []).1 = .error e ∧
      (addAtoms (addAtoms (before ++ o :: after) []).2 []).1 = .error e := by
  obtain ⟨pairs, hpairs⟩ := exists_pairs hbefore
  have hfail : ∀ atoms, addAtoms (o :: after) atoms = (.error e, o :: after) := fun atoms => by rw [addAtoms, ho]
  rw [addAtoms_append hpairs, hfail]
  refine ⟨rfl, ?_⟩
  rw [addAtoms_append (map_createAtom_renamed hpairs), hfail]

theorem addAtoms_again {modules : List JsValue} :
    ((addAtoms (addAtoms modules []).2 []).1 = (addAtoms modules []).1 ∧
      ¬ Panics (addAtoms (addAtoms modules []).2 []).1) ↔ SettledModules modules := by
  unfold SettledModules
  rw [← panics_addAtoms _ []]
  simp only [← succeeds_createAtom]
  by_cases hall : ∀ o ∈ modules, Succeeds (createAtom o)
  · obtain ⟨pairs, hpairs⟩ := exists_pairs hall
    have hsame : Entries.putAll [] (pairs.map fun p => (p.1, p.1.toUTF8.toList)) = Entries.putAll [] pairs ↔
        LastSourcesAreNames modules :=
      (Entries.putAll_function_iff (f := fun name : String => name.toUTF8.toList)).trans
        (lastSourcesAreNames_iff hpairs).symm
    rw [addAtoms_all hpairs, addAtoms_all (map_createAtom_renamed hpairs), Except.ok.injEq, hsame]
    constructor
    · exact fun h => ⟨not_panics_ok, fun _ => h.1⟩
    · exact fun h => ⟨h.2 hall, not_panics_ok⟩
  · obtain ⟨before, o, after, rfl, hbefore, ho⟩ := Failing.firstIs_of_not_forall hall
    cases hatom : createAtom o with
    | ok p => exact absurd ⟨p, hatom⟩ ho
    | error e =>
      obtain ⟨hfirst, hsecond⟩ := addAtoms_failed after hbefore hatom
      rw [hfirst, hsecond]
      constructor
      · exact fun h => ⟨h.2, fun hall' => absurd hall' hall⟩
      · exact fun h => ⟨rfl, h.1⟩

theorem settledModules_nil : SettledModules [] := by
  refine ⟨Failing.not_firstIs_nil, fun _ before o after h => ?_⟩
  exact absurd (List.append_eq_nil_iff.mp h.symm).2 (List.cons_ne_nil _ _)

/-- The second time, the atoms are made of names. -/
theorem sameOn_createAtoms {m : JsValue} :
    SameOn createAtoms m (final (createAtoms m)) ↔ SettledModules (modulesOf m) := by
  by_cases hmodules : ∃ elements, m.get "module" = .ok (.array elements)
  · obtain ⟨elements, hget⟩ := hmodules
    obtain ⟨ps, rfl⟩ := JsValue.object_of_get (c := 'm') (by decide) (by decide) hget (by simp)
    have hget' : (final (createAtoms (.object ps))).get "module" = .ok (.array (addAtoms elements []).2) := by
      rw [createAtoms_array hget, Failing.final_ofExcept]
      exact JsValue.get_changeProperty_self hget (by simp) _
    unfold SameOn
    rw [createAtoms_array hget', outcome_ofExcept, createAtoms_array hget, outcome_ofExcept, modulesOf_array hget,
      addAtoms_again]
  · obtain ⟨hfinal, hpanics, hnil⟩ := createAtoms_other hmodules
    rw [hfinal, hnil]
    exact iff_of_true ⟨rfl, hpanics⟩ settledModules_nil

/-! ### The whole of `createPackage` -/

theorem sameOn_congr {α : Type} {build : OnManifest α} {m₁ m₂ m₁' m₂' : JsValue}
    (h : outcome (build m₁) = outcome (build m₂)) (h' : outcome (build m₁') = outcome (build m₂')) :
    SameOn build m₁ m₁' ↔ SameOn build m₂ m₂' := by
  unfold SameOn
  rw [h, h']

theorem ok_of_succeeds {α : Type} {build : OnManifest α} {m : JsValue} (h : Succeeds (outcome (build m))) :
    ∃ a m', build m = .ok a m' := by
  obtain ⟨a, ha⟩ := h
  exact ⟨a, outcome_ok.mp ha⟩

section CreatePackage

variable {Wasmer : Type} (finish : JsValue → Volumes → MemoryVolume → Atoms → Except Failure Wasmer) {m m₁ m₂ : JsValue}

theorem get_fs_createPackage (m : JsValue) :
    (final (createPackage finish m)).get "fs" = (final (createVolumes m)).get "fs" :=
  Failing.final_bind (fun m => JsValue.get m "fs") (fun _ => (createMetadata_preserves (by decide)).bind fun _ =>
    (createAtoms_preserves (by decide)).bind fun _ => Failing.preserves_ofExcept) m

theorem get_package_createPackage {volumes : Volumes} (h : createVolumes m = .ok volumes m₁) :
    (final (createPackage finish m)).get "package" = (final (createMetadata m₁)).get "package" := by
  unfold createPackage
  rw [Failing.bind_of_ok h]
  exact Failing.final_bind (fun m => JsValue.get m "package") (fun _ =>
    (createAtoms_preserves (by decide)).bind fun _ => Failing.preserves_ofExcept) m₁

theorem get_module_createPackage {volumes : Volumes} {metadata : MemoryVolume} (h : createVolumes m = .ok volumes m₁)
    (h' : createMetadata m₁ = .ok metadata m₂) :
    (final (createPackage finish m)).get "module" = (final (createAtoms m₂)).get "module" := by
  unfold createPackage
  rw [Failing.bind_of_ok h, Failing.bind_of_ok h']
  exact Failing.final_bind (fun m => JsValue.get m "module") (fun _ => Failing.preserves_ofExcept) m₂

theorem outcome_createMetadata_congr {m m' : JsValue} (h : m.get "package" = m'.get "package") :
    outcome (createMetadata m) = outcome (createMetadata m') := by
  rw [outcome_createMetadata, outcome_createMetadata, metadataFiles_congr h]

theorem modulesOf_congr {m m' : JsValue} (h : m.get "module" = m'.get "module") : modulesOf m = modulesOf m' := by
  unfold modulesOf
  rw [h]

theorem sameOn_volumes : SameOn createVolumes m (final (createPackage finish m)) ↔ fsEntries m = [] :=
  (sameOn_congr rfl (outcome_createVolumes_congr (get_fs_createPackage finish m))).trans sameOn_createVolumes

theorem sameOn_metadata (h : fsEntries m = []) :
    SameOn createMetadata m (final (createPackage finish m)) ↔ ∀ x ∈ metadataFiles m, IsOwnPath x := by
  obtain ⟨volumes, m₁, hvolumes⟩ := ok_of_succeeds ⟨_, createVolumes_of_empty h⟩
  have hm₁ : m₁.get "package" = m.get "package" := (createVolumes_preserves (by decide)).of_ok hvolumes
  rw [metadataFiles_congr hm₁.symm, ← sameOn_createMetadata]
  exact sameOn_congr (outcome_createMetadata_congr hm₁.symm)
    (outcome_createMetadata_congr (get_package_createPackage finish hvolumes))

theorem sameOn_atoms (h : fsEntries m = []) (h' : ∀ x ∈ metadataFiles m, IsOwnPath x) :
    SameOn createAtoms m (final (createPackage finish m)) ↔ SettledModules (modulesOf m) := by
  obtain ⟨volumes, m₁, hvolumes⟩ := ok_of_succeeds ⟨_, createVolumes_of_empty h⟩
  have hm₁ : ∀ {key : String}, key ≠ "fs" → m₁.get key = m.get key := fun hkey =>
    (createVolumes_preserves hkey).of_ok hvolumes
  rw [metadataFiles_congr (hm₁ (by decide)).symm] at h'
  obtain ⟨metadata, m₂, hmetadata⟩ := ok_of_succeeds (createMetadata_of_ownPaths h')
  have hm₂ : m₂.get "module" = m.get "module" :=
    ((createMetadata_preserves (by decide)).of_ok hmetadata).trans (hm₁ (by decide))
  rw [modulesOf_congr hm₂.symm, ← sameOn_createAtoms]
  exact sameOn_congr (outcome_createAtoms_congr hm₂.symm)
    (outcome_createAtoms_congr (get_module_createPackage finish hvolumes hmetadata))

end CreatePackage

/-- Calling `createPackage` with the same manifest again gives the same volumes, metadata and atoms, or the same error,
    exactly when `fs` has no entries, the files of the package are their own paths, and the modules are settled. -/
theorem repeatable_iff {Wasmer : Type} (finish : JsValue → Volumes → MemoryVolume → Atoms → Except Failure Wasmer)
    (m : JsValue) : Repeatable finish m ↔
      fsEntries m = [] ∧ (∀ x ∈ metadataFiles m, IsOwnPath x) ∧ SettledModules (modulesOf m) := by
  unfold Repeatable
  simp only
  rw [sameOn_volumes]
  refine and_congr_right fun h => ?_
  rw [sameOn_metadata finish h]
  exact and_congr_right fun h' => sameOn_atoms finish h h'

/-- A manifest with one volume, which is empty. -/
theorem emptyVolume_not_repeatable :
    ¬ ∀ (finish : JsValue → Volumes → MemoryVolume → Atoms → Except Failure Unit) (m : JsValue), Repeatable finish m := by
  intro h
  have hempty := (sameOn_volumes _).mp (h (fun _ _ _ _ => .ok ()) (.object [("fs", .object [("a", .object [])])])).1
  cases hempty

end Registry
end WasmerJs
