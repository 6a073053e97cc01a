import WasmerJs.Registry.VolumeTrees

/-! The times of files and directories. They come in milliseconds, and `to_systime`
    (`src/registry/package/package_utils/mem_volumes.rs`) takes them for seconds. -/

namespace WasmerJs
namespace Registry
open Run (objectEntries)

/-! ### Places -/

/-- The entries of what stands for a directory. -/
def nodeEntries (value : JsValue) : List (String × JsValue) :=
  if isFileData (contents value) then [] else (contents value).properties.getD []

def nodeAt : List String → JsValue → Option JsValue := Entries.descend nodeEntries

def MemoryNode.modified : MemoryNode → SystemTime
  | .file f => f.modified
  | .dir modified _ => modified

def MemoryNode.entries : MemoryNode → List (String × MemoryNode)
  | .file _ => []
  | .dir _ nodes => nodes

def MemoryVolume.nodeAt (path : List String) (volume : MemoryVolume) : Option MemoryNode :=
  Entries.descend MemoryNode.entries path volume.node.toNode

def HostNode.entries : HostNode → List (String × HostNode)
  | .file _ _ => []
  | .dir entries => entries

def hostAt : List String → HostNode → Option HostNode := Entries.descend HostNode.entries

theorem lookup_objectEntries {α : Type} (ps : List (String × α)) (key : String) :
    (objectEntries ps).lookup key = ps.lookup key :=
  Entries.lookup_insertionSort fun _ _ h => (congrArg Run.utf16 h).le

section Created

variable {v w data modified : JsValue} {n : MemoryNode} {name : String}

theorem modified_of_createFile {t : SystemTime} {f : MemoryFile} (h : createFile v t = .ok f) : f.modified = t := by
  cases v <;> cases h <;> rfl

theorem modified_of_createDir {t : SystemTime} {d : MemoryDir} (h : createDir v t = .ok d) : d.modified = t := by
  rw [createDir_eq] at h
  cases hps : v.properties with
  | none =>
    simp only [hps] at h
    cases h
  | some ps =>
    simp only [hps] at h
    obtain ⟨nodes, -, rfl⟩ := map_ok.mp h
    rfl

/-- What is unwrapped, and its time. -/
theorem unwrapNode_ok {t : SystemTime} (h : unwrapNode v = .ok (w, t)) :
    w = contents v ∧ ∀ data modified, wrapped v = some (data, modified) → toSystime modified = .ok t := by
  rw [unwrapNode_eq] at h
  unfold contents
  cases hw : wrapped v with
  | none =>
    rw [hw] at h
    cases h
    exact ⟨rfl, fun _ _ h => by cases h⟩
  | some x =>
    simp only [hw] at h
    obtain ⟨t', ht, heq⟩ := map_ok.mp h
    cases heq
    refine ⟨rfl, fun data modified h => ?_⟩
    cases h
    exact ht

/-- A node is made of the contents, with the time. -/
theorem createNode_ok (h : createNode v = .ok n) : unwrapNode v = .ok (contents v, n.modified) ∧
    (isFileData (contents v) = false → (createDir (contents v) n.modified).map MemoryDir.toNode = .ok n) := by
  rw [createNode_eq] at h
  cases hunwrap : unwrapNode v with
  | error e =>
    rw [hunwrap] at h
    cases h
  | ok x =>
    obtain ⟨w, t⟩ := x
    simp only [hunwrap] at h
    obtain ⟨rfl, -⟩ := unwrapNode_ok hunwrap
    split at h
    · rename_i hfile
      obtain ⟨f, hf, rfl⟩ := map_ok.mp h
      obtain rfl := modified_of_createFile hf
      exact ⟨rfl, fun hdir => by cases hfile.symm.trans hdir⟩
    · obtain ⟨d, hd, rfl⟩ := map_ok.mp h
      obtain rfl := modified_of_createDir hd
      exact ⟨rfl, fun _ => h⟩

theorem modified_of_createNode (h : createNode v = .ok n) (hw : wrapped v = some (data, modified)) :
    toSystime modified = .ok n.modified :=
  (unwrapNode_ok (createNode_ok h).1).2 data modified hw

/-- Under a name of a node is what was made of the value under this name. -/
theorem entry_of_createNode (h : createNode v = .ok n) (hw : (nodeEntries v).lookup name = some w) :
    ∃ m, n.entries.lookup name = some m ∧ createNode w = .ok m := by
  unfold nodeEntries at hw
  split at hw
  · cases hw
  · rename_i hfile
    obtain ⟨d, hd, hn⟩ := map_ok.mp ((createNode_ok h).2 (Bool.eq_false_iff.mpr hfile))
    rw [createDir_eq] at hd
    cases hps : (contents v).properties with
    | none =>
      rw [hps] at hw
      cases hw
    | some ps =>
      simp only [hps, Option.getD_some] at hd hw
      obtain ⟨nodes, hnodes, rfl⟩ := map_ok.mp hd
      have hlookup := congrArg (List.lookup name) (collect_ok.mp hnodes)
      rw [Entries.lookup_map, Entries.lookup_map, lookup_objectEntries, hw] at hlookup
      obtain ⟨m, hm, hcreate⟩ := Option.map_eq_some_iff.mp hlookup.symm
      rw [← hn]
      exact ⟨m, hm, hcreate.symm⟩

variable {path : List String} {volume : MemoryVolume}

/-- A volume is made like a node, unless it should be a file. -/
theorem createVolume_ok (h : createVolume v = .ok volume) :
    unwrapNode v = .ok (contents v, volume.node.modified) ∧
      (isFileData (contents v) = false → createNode v = .ok volume.node.toNode) := by
  unfold createVolume at h
  cases hunwrap : unwrapNode v with
  | error e =>
    rw [hunwrap] at h
    cases h
  | ok x =>
    obtain ⟨w, t⟩ := x
    simp only [hunwrap] at h
    obtain ⟨rfl, -⟩ := unwrapNode_ok hunwrap
    obtain ⟨d, hd, rfl⟩ := map_ok.mp h
    obtain rfl := modified_of_createDir hd
    refine ⟨rfl, fun hfile => ?_⟩
    rw [createNode_eq, hunwrap]
    simp only [hfile, Bool.false_eq_true, if_false, hd]
    rfl

/-- The time of a node of a volume is the one that the value at this place was given. -/
theorem modified_of_createVolume (h : createVolume v = .ok volume) (hat : nodeAt path v = some w)
    (hw : wrapped w = some (data, modified)) :
    ∃ m, volume.nodeAt path = some m ∧ toSystime modified = .ok m.modified := by
  cases hfile : isFileData (contents v) with
  | false =>
    obtain ⟨m, hm, hcreate⟩ := Entries.descend_related (R := fun v n => createNode v = .ok n)
      (fun _ _ _ _ => entry_of_createNode) ((createVolume_ok h).2 hfile) hat
    exact ⟨m, hm, modified_of_createNode hcreate hw⟩
  | true =>
    cases path with
    | nil =>
      cases hat
      exact ⟨_, rfl, (unwrapNode_ok (createVolume_ok h).1).2 data modified hw⟩
    | cons name path =>
      obtain ⟨_, hnone, -⟩ := Option.bind_eq_some_iff.mp hat
      rw [nodeEntries, hfile] at hnone
      cases hnone

end Created

/-! ### Directories of the host -/

/-- A directory of the host has its entries when it was walked, unless it is taken for a wrapped node. -/
theorem nodeEntries_walkItem {h : HostNode} (hs : VolumeNode.Storable (walkItem h)) {name : String} :
    (nodeEntries (walkItem h).toJs).lookup name = (h.entries.lookup name).map fun h' => (walkItem h').toJs := by
  cases h with
  | file d mtime => rfl
  | dir list =>
    have hwalk : walkDir list = list.map fun x => (x.1, walkItem x.2) := by
      clear hs
      induction list with
      | nil => rfl
      | cons x list ih => rw [walkDir, ih, List.map_cons]
    rw [walkItem] at hs ⊢
    cases hs with
    | tree hn _ =>
      rw [VolumeNode.toJs, nodeEntries, contents_tree hn]
      show (entriesToJs (walkDir list)).lookup name = (list.lookup name).map _
      rw [lookup_entriesToJs, hwalk, Entries.lookup_map, Option.map_map]
      rfl

theorem entry_of_walkItem {h h' : HostNode} {n : MemoryNode} {name : String}
    (hn : createNode (walkItem h).toJs = .ok n) (hh : h.entries.lookup name = some h') :
    ∃ m, n.entries.lookup name = some m ∧ createNode (walkItem h').toJs = .ok m := by
  have hs := (acceptedNode_toJs (walkItem h)).mp ((nodeSpec _).1.mp ⟨n, hn⟩)
  refine entry_of_createNode hn ?_
  rw [nodeEntries_walkItem hs, hh]
  rfl

/-! ### Instants -/

/-- The milliseconds of a `Date` that has a time. -/
def DateMillis (t : ℤ) : Prop := -8640000000000000 ≤ t ∧ t ≤ 8640000000000000

/-- There is a time that many milliseconds after the epoch. -/
def Representable (t : ℤ) : Prop := ∃ time : SystemTime, (time : ℤ) = t * 10 ^ 6

theorem representable_iff {t : ℤ} : Representable t ↔ 0 ≤ t := by
  constructor
  · rintro ⟨time, htime⟩
    omega
  · exact fun h => ⟨t.toNat * 10 ^ 6, by rw [Nat.cast_mul, Int.toNat_of_nonneg h, Nat.cast_pow, Nat.cast_ofNat]⟩

theorem roundTiesEven_natCast (n : Nat) : roundTiesEven n = n := by
  have hfloor : (n : ℚ).floor.toNat = n := by
    show ⌊(n : ℚ)⌋₊ = n
    exact Nat.floor_natCast n
  unfold roundTiesEven
  simp only [hfloor, sub_self]
  exact if_pos (by norm_num)

/-- The milliseconds become seconds. -/
theorem toSystime_millis {t : ℤ} (h : 0 ≤ t) (ht : DateMillis t) :
    toSystime (.date (.finite t)) = .ok (t.toNat * 10 ^ 9) := by
  have hcast : (t : ℚ) * 10 ^ 9 = ((t.toNat * 10 ^ 9 : Nat) : ℚ) := by
    rw [Nat.cast_mul, Nat.cast_pow, Nat.cast_ofNat, ← Int.cast_natCast (R := ℚ) t.toNat, Int.toNat_of_nonneg h]
  have hsmall : (t : ℚ) < 2 ^ 64 := by
    have hlt : t < 2 ^ 64 := ht.2.trans_lt (by norm_num)
    exact_mod_cast hlt
  rw [toSystime, fromSecs, if_neg (not_lt.mpr (Int.cast_nonneg h)), if_neg (not_le.mpr hsmall), hcast,
    roundTiesEven_natCast]
  exact congrArg Except.ok (Nat.zero_add _)

theorem panics_toSystime_millis {t : ℤ} (h : t < 0) : Panics (toSystime (.date (.finite t))) := by
  rw [toSystime, fromSecs, if_pos (Int.cast_lt_zero.mpr h)]
  exact panics_panic

/-- What is made has a node that is that many milliseconds after the epoch. If there is no such time, then this is
    reported, and only then. -/
structure Kept {α : Type} (r : Except Failure α) (find : α → Option MemoryNode) (t : ℤ) : Prop where
  carried : ∀ a, r = .ok a → ∃ n, find a = some n ∧ (n.modified : ℤ) = t * 10 ^ 6
  reported : ¬ Representable t → ∃ message, r = .error (.error message)
  converted : Representable t → Succeeds (toSystime (.date (.finite t)))

section Kept

variable {α : Type} {r : Except Failure α} {find : α → Option MemoryNode} {t : ℤ}

/-- What fails and does not panic is reported. -/
theorem reported_iff (h : ¬ Succeeds r) : (∃ message, r = .error (.error message)) ↔ ¬ Panics r := by
  cases r with
  | ok a => exact absurd succeeds_ok h
  | error e =>
    cases e with
    | error message => exact iff_of_true ⟨message, rfl⟩ not_panics_error
    | panic message => exact iff_of_false (fun ⟨_, h⟩ => by cases h) (not_not_intro panics_panic)

/-- Where a node gets its time from a `Date`, the time is kept at the epoch only, or if nothing is made. -/
theorem kept_iff (ht : DateMillis t)
    (hfound : ∀ a, r = .ok a → ∃ n, find a = some n ∧ toSystime (.date (.finite t)) = .ok n.modified) :
    Kept r find t ↔ t = 0 ∨ ¬ Succeeds r ∧ (0 < t ∨ ¬ Panics r) := by
  rcases lt_trichotomy t 0 with hneg | rfl | hpos
  · have hrepresentable : ¬ Representable t := fun h => not_lt_of_ge (representable_iff.mp h) hneg
    have hfails : ¬ Succeeds r := by
      rintro ⟨a, ha⟩
      obtain ⟨n, -, hn⟩ := hfound a ha
      exact Succeeds.not_panics ⟨_, hn⟩ (panics_toSystime_millis hneg)
    rw [or_iff_right hneg.ne, and_iff_right hfails, or_iff_right (not_lt_of_gt hneg), ← reported_iff hfails]
    refine ⟨fun h => h.reported hrepresentable, fun h => ⟨fun a ha => ?_, fun _ => h, fun h => ?_⟩⟩
    · exact absurd ⟨a, ha⟩ hfails
    · exact absurd h hrepresentable
  · have hmillis := toSystime_millis le_rfl ht
    have hrepresentable : Representable 0 := representable_iff.mpr le_rfl
    refine iff_of_true ⟨fun a ha => ?_, fun h => absurd hrepresentable h, fun _ => ⟨_, hmillis⟩⟩ (.inl rfl)
    obtain ⟨n, hfind, hn⟩ := hfound a ha
    refine ⟨n, hfind, ?_⟩
    rw [← Except.ok.inj (hmillis.symm.trans hn)]
    rfl
  · have hmillis := toSystime_millis hpos.le ht
    rw [or_iff_right hpos.ne', and_iff_left (.inl hpos)]
    constructor
    · rintro h ⟨a, ha⟩
      obtain ⟨n, hfind, hn⟩ := hfound a ha
      obtain ⟨n', hfind', hn'⟩ := h.carried a ha
      cases hfind.symm.trans hfind'
      rw [← Except.ok.inj (hmillis.symm.trans hn), Nat.cast_mul, Int.toNat_of_nonneg hpos.le, Nat.cast_pow,
        Nat.cast_ofNat] at hn'
      omega
    · intro hfails
      have hrepresentable : Representable t := representable_iff.mpr hpos.le
      exact ⟨fun a ha => absurd ⟨a, ha⟩ hfails, fun h => absurd hrepresentable h, fun _ => ⟨_, hmillis⟩⟩

theorem kept_createVolume_iff {v w data : JsValue} {path : List String} (hat : nodeAt path v = some w)
    (hw : wrapped w = some (data, .date (.finite t))) (ht : DateMillis t) :
    Kept (createVolume v) (MemoryVolume.nodeAt path) t ↔ t = 0 ∨ ¬ AcceptedVolume v ∧ (0 < t ∨ ¬ FatalVolume v) := by
  rw [← succeeds_createVolume, ← panics_createVolume]
  exact kept_iff ht fun volume h => modified_of_createVolume h hat hw

end Kept

/-! ### Manifests -/

section Manifests

variable {manifest : JsValue}

/-- The volume of the last of the keys that name its path. -/
theorem volume_of_createVolumes {before after : List (String × JsValue)} {key : String} {v : JsValue}
    (hfs : fsEntries manifest = before ++ (key, v) :: after) (hlast : ∀ x ∈ after, Fs.slashed x.1 ≠ Fs.slashed key)
    {volumes : Volumes} (h : outcome (createVolumes manifest) = .ok volumes) :
    ∃ volume, volumes.lookup (Fs.slashed key) = some volume ∧ createVolume v = .ok volume := by
  rw [outcome_createVolumes] at h
  obtain ⟨made, hmade, rfl⟩ := map_ok.mp h
  have hsplit := collect_ok.mp hmade
  rw [hfs, List.map_append, List.map_cons] at hsplit
  obtain ⟨made₁, rest, rfl, -, hrest⟩ := List.append_eq_map_iff.mp hsplit
  obtain ⟨⟨_, volume⟩, made₂, rfl, heq, hafter⟩ := List.map_eq_cons_iff.mp hrest
  obtain ⟨rfl, hvolume⟩ := Prod.mk.inj heq
  have hkeys : (made₂.map fun y => (Fs.slashed y.1, y.2)).map Prod.fst = after.map fun x => Fs.slashed x.1 := by
    have hnames := congrArg (List.map fun x => Fs.slashed x.1) hafter
    rw [List.map_map, List.map_map] at hnames
    rw [List.map_map]
    exact hnames
  rw [List.map_append, List.map_cons]
  refine ⟨volume, Entries.lookup_putAll_split (y := (Fs.slashed _, volume)) fun hmem => ?_, hvolume.symm⟩
  rw [hkeys] at hmem
  obtain ⟨x, hx, hsame⟩ := List.mem_map.mp hmem
  exact hlast x hx hsame

theorem wrapped_walkItem (data : Bytes) (mtime : Number) :
    wrapped (walkItem (.file data mtime)).toJs = some (.bytes data, .date mtime) := rfl

/-- A file that was walked has the time that is made of its `mtime`. -/
theorem modified_of_walkDir {list : List (String × HostNode)} {path : List String} {data : Bytes} {mtime : Number}
    (hat : hostAt path (.dir list) = some (.file data mtime)) {volume : MemoryVolume}
    (h : createVolume (.object (entriesToJs (walkDir list))) = .ok volume) :
    ∃ n, volume.nodeAt path = some n ∧ toSystime (.date mtime) = .ok n.modified := by
  have hs := acceptedVolume_tree.mp (succeeds_createVolume.mp ⟨volume, h⟩)
  have hdir : createNode (walkItem (.dir list)).toJs = .ok volume.node.toNode := by
    refine (createVolume_ok h).2 ?_
    cases hs with
    | tree hn _ =>
      rw [contents_tree hn]
      rfl
  obtain ⟨n, hn, hcreate⟩ := Entries.descend_related (R := fun h n => createNode (walkItem h).toJs = .ok n)
    (fun _ _ _ _ => entry_of_walkItem) hdir hat
  exact ⟨n, hn, modified_of_createNode hcreate (wrapped_walkItem data mtime)⟩

theorem kept_walkDir_iff {before after : List (String × JsValue)} {key : String} {list : List (String × HostNode)}
    (hfs : fsEntries manifest = before ++ (key, .object (entriesToJs (walkDir list))) :: after)
    (hlast : ∀ x ∈ after, Fs.slashed x.1 ≠ Fs.slashed key) {path : List String} {data : Bytes} {t : ℤ}
    (hat : hostAt path (.dir list) = some (.file data (.finite t))) (ht : DateMillis t) :
    Kept (outcome (createVolumes manifest))
      (fun volumes => (volumes.lookup (Fs.slashed key)).bind (MemoryVolume.nodeAt path)) t ↔
        t = 0 ∨ ¬ (∀ x ∈ fsEntries manifest, AcceptedVolume x.2) ∧ (0 < t ∨ ¬ FatalFs manifest) := by
  rw [← succeeds_createVolumes, ← panics_createVolumes]
  refine kept_iff ht fun volumes h => ?_
  obtain ⟨volume, hlookup, hcreate⟩ := volume_of_createVolumes hfs hlast h
  obtain ⟨n, hn, htime⟩ := modified_of_walkDir hat hcreate
  exact ⟨n, by rw [hlookup, Option.bind_some, hn], htime⟩

end Manifests

/-- The time of a node is kept exactly when it is the epoch, or when something in the volume is not accepted, and does
    not panic if the time is before the epoch. The same holds of the files of a directory that was walked. -/
theorem times_kept_iff {t : ℤ} (ht : DateMillis t) :
    (∀ (v : JsValue) (path : List String) (w data : JsValue), nodeAt path v = some w →
      wrapped w = some (data, .date (.finite t)) →
        (Kept (createVolume v) (MemoryVolume.nodeAt path) t ↔
          t = 0 ∨ ¬ AcceptedVolume v ∧ (0 < t ∨ ¬ FatalVolume v))) ∧
    ∀ (manifest : JsValue) (before after : List (String × JsValue)) (key : String) (list : List (String × HostNode))
      (path : List String) (data : Bytes),
      fsEntries manifest = before ++ (key, .object (entriesToJs (walkDir list))) :: after →
      (∀ x ∈ after, Fs.slashed x.1 ≠ Fs.slashed key) → hostAt path (.dir list) = some (.file data (.finite t)) →
        (Kept (outcome (createVolumes manifest))
          (fun volumes => (volumes.lookup (Fs.slashed key)).bind (MemoryVolume.nodeAt path)) t ↔
            t = 0 ∨ ¬ (∀ x ∈ fsEntries manifest, AcceptedVolume x.2) ∧ (0 < t ∨ ¬ FatalFs manifest)) := by
  constructor
  · intro v path w data hat hw
    exact kept_createVolume_iff hat hw ht
  · intro manifest before after key list path data hfs hlast hat
    exact kept_walkDir_iff hfs hlast hat ht

/-- A file with a time of its own, in a volume. -/
def oneFile (t : ℤ) : VolumeTree := [("f", .file (.dated (.string "x") (.date (.finite t))))]

/-- A directory of the host with one file. -/
def oneFileOnHost (t : ℤ) : List (String × HostNode) := [("f", .file [120] (.finite t))]

theorem epoch_kept : Kept (createVolume (.object (entriesToJs (oneFile 0)))) (MemoryVolume.nodeAt ["f"]) 0 ∧
    Kept (outcome (createVolumes (.object [("fs", fsToJs [("a", walkDir (oneFileOnHost 0))])])))
      (fun volumes => (volumes.lookup (Fs.slashed "a")).bind (MemoryVolume.nodeAt ["f"])) 0 := by
  have ht : DateMillis 0 := by
    unfold DateMillis
    omega
  constructor
  · exact ((times_kept_iff ht).1 _ _ _ (.string "x") rfl rfl).mpr (.inl rfl)
  · exact ((times_kept_iff ht).2 _ [] [] "a" (oneFileOnHost 0) _ [120] rfl (List.forall_mem_nil _) rfl).mpr (.inl rfl)

theorem storable_oneFile {t : ℤ} (h : 0 ≤ t) (ht : DateMillis t) : VolumeNode.Storable (.tree (oneFile t)) := by
  refine .tree (by simp [oneFile]) ?_
  simp only [oneFile, List.forall_mem_singleton]
  exact .dated (succeeds_fromSecs.mp (succeeds_map.mp ⟨_, toSystime_millis h ht⟩))

/-- A file of one second after the epoch gets a time of a thousand seconds after it, and one of a millisecond before
    the epoch makes the conversion panic. -/
theorem second_not_kept :
    (∃ volume n, createVolume (.object (entriesToJs (oneFile 1000))) = .ok volume ∧ volume.nodeAt ["f"] = some n ∧
      n.modified = 1000 * 10 ^ 9) ∧
    ¬ Kept (createVolume (.object (entriesToJs (oneFile 1000)))) (MemoryVolume.nodeAt ["f"]) 1000 ∧
    Panics (createVolume (.object (entriesToJs (oneFile (-1))))) ∧
    ¬ Kept (createVolume (.object (entriesToJs (oneFile (-1))))) (MemoryVolume.nodeAt ["f"]) (-1) := by
  have ht : DateMillis 1000 := by
    unfold DateMillis
    omega
  have hbefore : DateMillis (-1) := by
    unfold DateMillis
    omega
  have hat : ∀ t : ℤ, nodeAt ["f"] (.object (entriesToJs (oneFile t))) =
      some (VolumeFile.dated (.string "x") (.date (.finite t))).toJs := fun _ => rfl
  have hw := fun t : ℤ => wrapped_dated (.string "x") (.date (.finite t))
  have haccepted : AcceptedVolume (.object (entriesToJs (oneFile 1000))) :=
    acceptedVolume_tree.mpr (storable_oneFile (by norm_num) ht)
  have hfatal : FatalVolume (.object (entriesToJs (oneFile (-1)))) := by
    refine .inr ⟨timed_of_plain rfl, (fatalDir_iff rfl).mpr ⟨[], _, _, rfl, List.forall_mem_nil _, .time ?_⟩⟩
    exact (mistimed_of_wrapped (hw (-1))).mpr (panics_toSystime_millis (by norm_num))
  refine ⟨?_, fun h => ?_, panics_createVolume.mpr hfatal, fun h => ?_⟩
  · obtain ⟨volume, h⟩ := succeeds_createVolume.mpr haccepted
    obtain ⟨n, hn, htime⟩ := modified_of_createVolume h (hat 1000) (hw 1000)
    exact ⟨volume, n, h, hn, Except.ok.inj (htime.symm.trans (toSystime_millis (by norm_num) ht))⟩
  · rcases (kept_createVolume_iff (hat 1000) (hw 1000) ht).mp h with h | h
    · cases h
    · exact h.1 haccepted
  · rcases (kept_createVolume_iff (hat (-1)) (hw (-1)) hbefore).mp h with h | ⟨-, h | h⟩
    · cases h
    · cases h
    · exact h hfatal

end Registry
end WasmerJs
