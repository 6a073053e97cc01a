import WasmerJs.Registry.Malformed

/-! What becomes of the file trees of a manifest, which are of the type `VolumeTree`
    (`src/registry/package/mod.rs`), in its volumes. -/

namespace WasmerJs
namespace Registry
open Run (StringOrBytes objectEntries)

/-! ### Trees -/

/-- `VolumeFileDate` -/
inductive VolumeFileDate where
  | date (time : Number)
  | number (n : Number)

/-- `VolumeFile`. The data alone is a `VolumeFileData`. -/
inductive VolumeFile where
  | data (d : StringOrBytes)
  | dated (d : StringOrBytes) (modified : VolumeFileDate)

/-- What is under a name of a `VolumeTree`. -/
inductive VolumeNode where
  | file (f : VolumeFile)
  | tree (entries : List (String × VolumeNode))

abbrev VolumeTree : Type := List (String × VolumeNode)

def VolumeFileDate.seconds : VolumeFileDate → Number
  | .date time => time
  | .number n => n

def VolumeFileDate.toJs : VolumeFileDate → JsValue
  | .date time => .date time
  | .number n => .number n

def dataToJs : StringOrBytes → JsValue
  | .string s => .string s
  | .bytes b => .bytes b

def VolumeFile.content : VolumeFile → StringOrBytes
  | .data d => d
  | .dated d _ => d

def VolumeFile.toJs : VolumeFile → JsValue
  | .data d => dataToJs d
  | .dated d modified => .object [("data", dataToJs d), ("modified", modified.toJs)]

mutual

def VolumeNode.toJs : VolumeNode → JsValue
  | .file f => f.toJs
  | .tree entries => .object (entriesToJs entries)

def entriesToJs : VolumeTree → List (String × JsValue)
  | [] => []
  | (name, n) :: entries => (name, n.toJs) :: entriesToJs entries

end

theorem entriesToJs_eq (entries : VolumeTree) : entriesToJs entries = entries.map fun x => (x.1, x.2.toJs) := by
  induction entries with
  | nil => rfl
  | cons x entries ih => rw [entriesToJs, ih, List.map_cons]

/-- What holds of files, and of a tree when it holds of what is in the tree. -/
theorem VolumeNode.induction {motive : VolumeNode → Prop} (file : ∀ f, motive (.file f))
    (tree : ∀ entries, (∀ x ∈ entries, motive x.2) → motive (.tree entries)) : ∀ n, motive n
  | .file f => file f
  | .tree entries => tree entries fun x _ => VolumeNode.induction file tree x.2
termination_by n => sizeOf n
decreasing_by
  have := List.sizeOf_lt_of_mem ‹x ∈ entries›
  have : sizeOf x = 1 + sizeOf x.1 + sizeOf x.2 := by cases x; rfl
  rw [VolumeNode.tree.sizeOf_spec]
  omega

/-- The names in a directory are distinct, at every depth. -/
inductive VolumeNode.Distinct : VolumeNode → Prop where
  | file (f : VolumeFile) : Distinct (.file f)
  | tree {entries : VolumeTree} (hn : (entries.map Prod.fst).Nodup) (hall : ∀ x ∈ entries, Distinct x.2) :
      Distinct (.tree entries)

/-- No directory has both an entry `data` and an entry `modified`, and all times are durations. -/
inductive VolumeNode.Storable : VolumeNode → Prop where
  | data (d : StringOrBytes) : Storable (.file (.data d))
  | dated {d : StringOrBytes} {modified : VolumeFileDate} (ht : modified.seconds.InRange) :
      Storable (.file (.dated d modified))
  | tree {entries : VolumeTree} (hn : ¬ ("data" ∈ entries.map Prod.fst ∧ "modified" ∈ entries.map Prod.fst))
      (hall : ∀ x ∈ entries, Storable x.2) : Storable (.tree entries)

/-- The node has exactly the names, the nesting and the bytes of the tree. -/
inductive VolumeNode.Reproduces : VolumeNode → MemoryNode → Prop where
  | file {f : VolumeFile} {g : MemoryFile} (h : g.data = f.content.asBytes) : Reproduces (.file f) (.file g)
  | tree {entries : VolumeTree} {modified : SystemTime} {nodes : List (String × MemoryNode)}
      (hnames : (nodes.map Prod.fst).Perm (entries.map Prod.fst))
      (hall : ∀ x ∈ entries, ∀ n, (x.1, n) ∈ nodes → Reproduces x.2 n) : Reproduces (.tree entries) (.dir modified nodes)

open VolumeNode (Storable Distinct Reproduces)

theorem toJs_defined (n : VolumeNode) : n.toJs.isUndefined = false := by
  cases n with
  | tree entries => rfl
  | file f =>
    cases f with
    | dated d m => rfl
    | data d =>
      cases d with
      | string s => rfl
      | bytes b => rfl

/-- A node is no time. -/
theorem timeOf_toJs (n : VolumeNode) : timeOf n.toJs = none := by
  cases n with
  | tree entries => rfl
  | file f =>
    cases f with
    | dated d m => rfl
    | data d =>
      cases d with
      | string s => rfl
      | bytes b => rfl

/-! ### What is accepted -/

theorem lookup_entriesToJs (entries : VolumeTree) (key : String) :
    (entriesToJs entries).lookup key = (entries.lookup key).map VolumeNode.toJs := by
  rw [entriesToJs_eq, Entries.lookup_map]

theorem wrapped_tree {entries : VolumeTree} (h : ¬ ("data" ∈ entries.map Prod.fst ∧ "modified" ∈ entries.map Prod.fst)) :
    wrapped (.object (entriesToJs entries)) = none := by
  unfold wrapped
  simp only [JsValue.properties, lookup_entriesToJs]
  rw [if_neg]
  intro hboth
  refine h ?_
  obtain ⟨hdata, hmodified⟩ := Bool.and_eq_true_iff.mp hboth
  constructor
  · by_contra hname
    rw [Entries.lookup_eq_none hname] at hdata
    cases hdata
  · by_contra hname
    rw [Entries.lookup_eq_none hname] at hmodified
    cases hmodified

/-- A directory with both entries is taken for a wrapped node, and its entry `modified` for a time. -/
theorem not_timed_tree {entries : VolumeTree} (hdata : "data" ∈ entries.map Prod.fst)
    (hmodified : "modified" ∈ entries.map Prod.fst) : ¬ Timed (.object (entriesToJs entries)) := by
  obtain ⟨d, hd⟩ := Option.isSome_iff_exists.mp (Entries.isSome_lookup.mpr hdata)
  obtain ⟨m, hm⟩ := Option.isSome_iff_exists.mp (Entries.isSome_lookup.mpr hmodified)
  have hw : wrapped (.object (entriesToJs entries)) = some (d.toJs, m.toJs) := by
    unfold wrapped
    simp [JsValue.properties, lookup_entriesToJs, hd, hm, toJs_defined]
  intro ht
  obtain ⟨n, hn, -⟩ := ht _ _ hw
  rw [timeOf_toJs] at hn
  cases hn

theorem contents_tree {entries : VolumeTree}
    (h : ¬ ("data" ∈ entries.map Prod.fst ∧ "modified" ∈ entries.map Prod.fst)) :
    contents (.object (entriesToJs entries)) = .object (entriesToJs entries) := by
  rw [contents, wrapped_tree h]

theorem wrapped_dated (d : StringOrBytes) (modified : VolumeFileDate) :
    wrapped (VolumeFile.dated d modified).toJs = some (dataToJs d, modified.toJs) := by
  cases d <;> cases modified <;> rfl

theorem timeOf_date (modified : VolumeFileDate) : timeOf modified.toJs = some modified.seconds := by
  cases modified with
  | date t => rfl
  | number n => rfl

theorem isFileData_dataToJs (d : StringOrBytes) : isFileData (dataToJs d) = true := by
  cases d with
  | string s => rfl
  | bytes b => rfl

theorem createFile_dataToJs (d : StringOrBytes) (t : SystemTime) :
    createFile (dataToJs d) t = .ok { modified := t, data := d.asBytes } := by
  cases d with
  | string s => rfl
  | bytes b => rfl

theorem wrapped_data (d : StringOrBytes) : wrapped (dataToJs d) = none := by
  cases hw : wrapped (dataToJs d) with
  | none => rfl
  | some w =>
    obtain ⟨hget, hdefined⟩ := get_of_wrapped hw
    have hne : w.1 ≠ .undefined := by
      intro h
      rw [h] at hdefined
      cases hdefined
    obtain ⟨ps, hps⟩ := JsValue.object_of_get (c := 'd') (by decide) (by decide) hget hne
    cases d with
    | string s => cases hps
    | bytes b => cases hps

theorem acceptedVolume_iff {entries : VolumeTree} (hall : ∀ x ∈ entries, AcceptedNode x.2.toJs ↔ Storable x.2) :
    AcceptedVolume (.object (entriesToJs entries)) ↔ Storable (.tree entries) := by
  by_cases h : "data" ∈ entries.map Prod.fst ∧ "modified" ∈ entries.map Prod.fst
  · refine iff_of_false (fun ha => not_timed_tree h.1 h.2 ha.1) fun hs => ?_
    cases hs with
    | tree hn _ => exact hn h
  · unfold AcceptedVolume
    rw [contents_tree h, and_iff_right (timed_of_plain (wrapped_tree h)), acceptedDir_iff rfl, entriesToJs_eq,
      List.forall_mem_map]
    constructor
    · exact fun ha => .tree h fun x hx => (hall x hx).mp (ha x hx)
    · intro hs x hx
      cases hs with
      | tree _ hs => exact (hall x hx).mpr (hs x hx)

theorem acceptedNode_toJs (n : VolumeNode) : AcceptedNode n.toJs ↔ Storable n := by
  induction n using VolumeNode.induction with
  | file f =>
    cases f with
    | data d =>
      refine iff_of_true (.file (timed_of_plain (wrapped_data d)) ?_) (.data d)
      show isFileData (contents (dataToJs d)) = true
      rw [contents, wrapped_data]
      exact isFileData_dataToJs d
    | dated d modified =>
      have hw := wrapped_dated d modified
      have htime : Timed (VolumeFile.dated d modified).toJs ↔ modified.seconds.InRange := by
        rw [timed_of_wrapped hw, succeeds_toSystime, timeOf_date]
        simp
      have hfile : isFileData (contents (VolumeFile.dated d modified).toJs) = true := by
        rw [contents, hw]
        exact isFileData_dataToJs d
      constructor
      · intro ha
        exact .dated (htime.mp (acceptedNode_iff.mp ha).1)
      · intro hs
        cases hs with
        | dated ht => exact .file (htime.mpr ht) hfile
  | tree entries ih =>
    have htree : (VolumeNode.tree entries).toJs = .object (entriesToJs entries) := rfl
    refine Iff.trans ?_ (acceptedVolume_iff ih)
    rw [htree, acceptedNode_iff]
    refine and_congr_right fun ht => ?_
    have hn : ¬ ("data" ∈ entries.map Prod.fst ∧ "modified" ∈ entries.map Prod.fst) := fun h => not_timed_tree h.1 h.2 ht
    rw [contents_tree hn]
    exact (or_iff_right Bool.false_ne_true).trans (and_iff_right rfl)

theorem acceptedVolume_tree {entries : VolumeTree} :
    AcceptedVolume (.object (entriesToJs entries)) ↔ Storable (.tree entries) :=
  acceptedVolume_iff fun x _ => acceptedNode_toJs x.2

/-! ### What is made -/

/-- A directory that is made of a tree has its names, and the nodes that are made of its entries. -/
theorem reproduces_of_createDir {entries : VolumeTree} (hdistinct : (entries.map Prod.fst).Nodup)
    (hall : ∀ x ∈ entries, ∀ n, createNode x.2.toJs = .ok n → Reproduces x.2 n) {t : SystemTime} {d : MemoryDir}
    (h : createDir (.object (entriesToJs entries)) t = .ok d) : Reproduces (.tree entries) d.toNode := by
  rw [createDir_eq] at h
  obtain ⟨nodes, hnodes, rfl⟩ := map_ok.mp h
  have hmade := collect_ok.mp hnodes
  have hperm := List.perm_insertionSort (fun x y : String × JsValue => Run.utf16 x.1 ≤ Run.utf16 y.1)
    (entriesToJs entries)
  refine .tree ?_ fun x hx n hn => ?_
  · have hnames := congrArg (List.map Prod.fst) hmade
    rw [List.map_map, List.map_map] at hnames
    have hkeys : (entriesToJs entries).map Prod.fst = entries.map Prod.fst := by
      rw [entriesToJs_eq, List.map_map]
      rfl
    rw [← hkeys]
    exact (List.Perm.of_eq hnames.symm).trans (hperm.map Prod.fst)
  · have hmem : (x.1, Except.ok n) ∈ nodes.map fun y => (y.1, (Except.ok y.2 : Except Failure MemoryNode)) :=
      List.mem_map.mpr ⟨_, hn, rfl⟩
    rw [← hmade] at hmem
    obtain ⟨y, hy, heq⟩ := List.mem_map.mp hmem
    rw [mem_objectEntries, entriesToJs_eq] at hy
    obtain ⟨z, hz, rfl⟩ := List.mem_map.mp hy
    obtain ⟨hkey, hvalue⟩ := Prod.mk.inj heq
    cases List.inj_on_of_nodup_map hdistinct hz hx hkey
    exact hall x hx n hvalue

theorem reproduces_of_createNode {n : VolumeNode} (hs : Storable n) (hd : Distinct n) {m : MemoryNode}
    (h : createNode n.toJs = .ok m) : Reproduces n m := by
  induction n using VolumeNode.induction generalizing m with
  | file f =>
    cases f with
    | data d =>
      have hjs : (VolumeNode.file (.data d)).toJs = dataToJs d := rfl
      rw [hjs, createNode_eq, unwrapNode_eq, wrapped_data] at h
      simp only [isFileData_dataToJs, if_true, createFile_dataToJs] at h
      cases h
      exact .file rfl
    | dated d modified =>
      have hjs : (VolumeNode.file (.dated d modified)).toJs = (VolumeFile.dated d modified).toJs := rfl
      rw [hjs, createNode_eq, unwrapNode_eq, wrapped_dated] at h
      cases ht : toSystime modified.toJs with
      | error e =>
        simp only [ht] at h
        cases h
      | ok t =>
        simp only [ht, Except.map, isFileData_dataToJs, if_true, createFile_dataToJs] at h
        cases h
        exact .file rfl
  | tree entries ih =>
    have htree : (VolumeNode.tree entries).toJs = .object (entriesToJs entries) := rfl
    cases hs with
    | tree hn hs =>
      cases hd with
      | tree hdistinct hd =>
        rw [htree, createNode_eq, unwrapNode_eq, wrapped_tree hn] at h
        obtain ⟨d, hdir, rfl⟩ := map_ok.mp h
        exact reproduces_of_createDir hdistinct (fun x hx m hm => ih x hx (hs x hx) (hd x hx) hm) hdir

theorem reproduces_of_createVolume {entries : VolumeTree} (hs : Storable (.tree entries)) (hd : Distinct (.tree entries))
    {v : MemoryVolume} (h : createVolume (.object (entriesToJs entries)) = .ok v) :
    Reproduces (.tree entries) v.node.toNode := by
  cases hs with
  | tree hn hs =>
    cases hd with
    | tree hdistinct hd =>
      rw [createVolume, unwrapNode_eq, wrapped_tree hn] at h
      obtain ⟨d, hdir, rfl⟩ := map_ok.mp h
      exact reproduces_of_createDir hdistinct (fun x hx m hm => reproduces_of_createNode (hs x hx) (hd x hx) hm) hdir

/-! ### Volumes -/

/-- A map from keys to trees, as the value of `fs`. -/
def fsToJs (fs : List (String × VolumeTree)) : JsValue := .object (fs.map fun x => (x.1, .object (entriesToJs x.2)))

/-- Every key has a volume of its own, which reproduces its tree, and there are no other volumes. -/
structure Reproduced (fs : List (String × VolumeTree)) (volumes : Volumes) : Prop where
  keys : (volumes.map Prod.fst).Nodup
  count : volumes.length = fs.length
  trees : ∀ x ∈ fs, ∃ v, (Fs.slashed x.1, v) ∈ volumes ∧ Reproduces (.tree x.2) v.node.toNode

/-- The volumes of all keys, when all can be made. -/
theorem createVolumes_ok {manifest fs : JsValue} {ps : List (String × JsValue)} (hfs : manifest.get "fs" = .ok fs)
    (hps : fs.properties = some ps) {volumes : Volumes} : (∃ m, createVolumes manifest = .ok volumes m) ↔
      ∃ made : Volumes, (objectEntries ps).map (fun x => (x.1, createVolume x.2)) = made.map (fun y => (y.1, .ok y.2)) ∧
        volumes = Entries.putAll [] (made.map fun y => (Fs.slashed y.1, y.2)) := by
  rw [← outcome_ok, outcome_createVolumes, fsEntries_of_get hfs hps, map_ok]
  exact exists_congr fun made => and_congr collect_ok eq_comm

section Volumes

variable {fs : List (String × VolumeTree)} {made : Volumes}
  (hmade : (objectEntries (fs.map fun x => (x.1, JsValue.object (entriesToJs x.2)))).map
    (fun x => (x.1, createVolume x.2)) = made.map fun y => (y.1, .ok y.2))
include hmade

/-- The volume that was made for a key. -/
theorem volume_of_mem {x : String × VolumeTree} (hx : x ∈ fs) :
    ∃ v, (x.1, v) ∈ made ∧ createVolume (.object (entriesToJs x.2)) = .ok v := by
  have hmem : (x.1, createVolume (.object (entriesToJs x.2))) ∈ made.map fun y => (y.1, Except.ok y.2) := by
    rw [← hmade]
    refine List.mem_map.mpr ⟨(x.1, .object (entriesToJs x.2)), ?_, rfl⟩
    exact mem_objectEntries.mpr (List.mem_map.mpr ⟨x, hx, rfl⟩)
  obtain ⟨y, hy, heq⟩ := List.mem_map.mp hmem
  obtain ⟨hkey, hvalue⟩ := Prod.mk.inj heq
  exact ⟨y.2, hkey ▸ hy, hvalue.symm⟩

/-- The paths of the volumes are those of the keys. -/
theorem perm_paths : ((made.map fun y => (Fs.slashed y.1, y.2)).map Prod.fst).Perm (fs.map fun x => Fs.slashed x.1) := by
  have hkeys := congrArg (List.map fun x => Fs.slashed x.1) hmade
  rw [List.map_map, List.map_map] at hkeys
  rw [List.map_map]
  refine (List.Perm.of_eq hkeys.symm).trans ?_
  refine ((List.perm_insertionSort _ _).map _).trans (List.Perm.of_eq ?_)
  rw [List.map_map]
  rfl

end Volumes

/-- Trees become volumes when all of them can be stored. -/
theorem storable_iff {manifest : JsValue} {fs : List (String × VolumeTree)}
    (hfs : manifest.get "fs" = .ok (fsToJs fs)) :
    (∃ volumes m, createVolumes manifest = .ok volumes m) ↔ ∀ x ∈ fs, Storable (.tree x.2) := by
  simp only [← outcome_ok]
  refine succeeds_createVolumes.trans ?_
  rw [fsEntries_of_get hfs rfl]
  simp only [mem_objectEntries, List.forall_mem_map]
  exact forall₂_congr fun _ _ => acceptedVolume_tree

theorem distinct_paths_of_reproduced {manifest : JsValue} {fs : List (String × VolumeTree)}
    (hfs : manifest.get "fs" = .ok (fsToJs fs)) {volumes : Volumes} {m : JsValue}
    (h : createVolumes manifest = .ok volumes m) (hr : Reproduced fs volumes) :
    (fs.map fun x => Fs.slashed x.1).Nodup := by
  obtain ⟨made, hmade, rfl⟩ := (createVolumes_ok hfs rfl).mp ⟨m, h⟩
  have hperm := perm_paths hmade
  refine hperm.nodup_iff.mp (Entries.nodup_of_length_putAll [] _ List.nodup_nil ?_)
  have hlength := hperm.length_eq
  simp only [List.length_map] at hlength ⊢
  rw [hr.count, hlength, List.length_nil, Nat.zero_add]

theorem reproduced_of_storable {manifest : JsValue} {fs : List (String × VolumeTree)}
    (hfs : manifest.get "fs" = .ok (fsToJs fs)) (htrees : ∀ x ∈ fs, Distinct (.tree x.2))
    (hpaths : (fs.map fun x => Fs.slashed x.1).Nodup) (hs : ∀ x ∈ fs, Storable (.tree x.2)) {volumes : Volumes}
    {m : JsValue} (h : createVolumes manifest = .ok volumes m) : Reproduced fs volumes := by
  obtain ⟨made, hmade, rfl⟩ := (createVolumes_ok hfs rfl).mp ⟨m, h⟩
  have hperm := perm_paths hmade
  have hnodup := hperm.nodup_iff.mpr hpaths
  rw [Entries.putAll_of_nodup [] _ hnodup, List.nil_append]
  have hlength := hperm.length_eq
  refine ⟨hnodup, ?_, fun x hx => ?_⟩
  · simpa only [List.length_map] using hlength
  · obtain ⟨v, hmem, hv⟩ := volume_of_mem hmade hx
    exact ⟨v, List.mem_map.mpr ⟨_, hmem, rfl⟩, reproduces_of_createVolume (hs x hx) (htrees x hx) hv⟩

/-- The volumes reproduce the trees of `fs` exactly when no two keys name the same path, no directory has both an entry
    `data` and an entry `modified`, and all times are durations. -/
theorem volumes_reproduce_iff {manifest : JsValue} {fs : List (String × VolumeTree)}
    (hfs : manifest.get "fs" = .ok (fsToJs fs)) (htrees : ∀ x ∈ fs, Distinct (.tree x.2)) :
    (∃ volumes m, createVolumes manifest = .ok volumes m ∧ Reproduced fs volumes) ↔
      (fs.map fun x => Fs.slashed x.1).Nodup ∧ ∀ x ∈ fs, Storable (.tree x.2) := by
  constructor
  · rintro ⟨volumes, m, h, hr⟩
    exact ⟨distinct_paths_of_reproduced hfs h hr, (storable_iff hfs).mp ⟨volumes, m, h⟩⟩
  · rintro ⟨hpaths, hs⟩
    obtain ⟨volumes, m, h⟩ := (storable_iff hfs).mpr hs
    exact ⟨volumes, m, h, reproduced_of_storable hfs htrees hpaths hs h⟩

/-- A directory below a directory with a dated file in it, and a volume next to it. -/
def nestedTrees : List (String × VolumeTree) :=
  [("a", [("d", .tree [("f", .file (.dated (.bytes [1, 2]) (.date (.finite 3)))), ("e", .tree [])]),
      ("g", .file (.data (.string "x")))]),
    ("/b", [("f", .file (.dated (.string "y") (.number (.finite (1 / 2)))))])]

theorem volumes_reproduce_nested : ∃ volumes m,
    createVolumes (.object [("fs", fsToJs nestedTrees)]) = .ok volumes m ∧ Reproduced nestedTrees volumes := by
  have hpair : ∀ {p : String × VolumeNode → Prop} {x y : String × VolumeNode}, p x → p y → ∀ z ∈ [x, y], p z := by
    intro p x y hx hy
    exact List.forall_mem_cons.mpr ⟨hx, List.forall_mem_singleton.mpr hy⟩
  have htrees : ∀ x ∈ nestedTrees, Distinct (.tree x.2) := by
    refine List.forall_mem_cons.mpr ⟨?_, List.forall_mem_singleton.mpr ?_⟩
    · have hd : Distinct (.tree [("f", .file (.dated (.bytes [1, 2]) (.date (.finite 3)))), ("e", .tree [])]) :=
        .tree (by decide) (hpair (.file _) (.tree .nil fun _ h => by cases h))
      exact .tree (by decide) (hpair hd (.file _))
    · exact .tree (by decide) (List.forall_mem_singleton.mpr (.file _))
  refine (volumes_reproduce_iff rfl htrees).mpr ⟨by decide, List.forall_mem_cons.mpr ⟨?_, ?_⟩⟩
  · have hd : Storable (.tree [("f", .file (.dated (.bytes [1, 2]) (.date (.finite 3)))), ("e", .tree [])]) :=
      .tree (by decide) (hpair (.dated ⟨3, rfl, by norm_num, by norm_num⟩) (.tree (by decide) fun _ h => by cases h))
    exact .tree (by decide) (hpair hd (.data _))
  · refine List.forall_mem_singleton.mpr (.tree (by decide) (List.forall_mem_singleton.mpr ?_))
    exact .dated ⟨1 / 2, rfl, by norm_num, by norm_num⟩

/-! ### Directories of the host -/

/-- What is under a name in a directory of the host. -/
inductive HostNode where
  | file (data : Bytes) (mtime : Number)
  | dir (entries : List (String × HostNode))

mutual

/-- `walkDir`, for names other than `__proto__`. -/
def walkDir : List (String × HostNode) → VolumeTree
  | [] => []
  | (item, n) :: list => (item, walkItem n) :: walkDir list

def walkItem : HostNode → VolumeNode
  | .file data mtime => .file (.dated (.bytes data) (.date mtime))
  | .dir entries => .tree (walkDir entries)

end

/-- A directory with two files that are named like the parts of a wrapped node. -/
def namedLikeParts : List (String × HostNode) :=
  [("data", .file [1] (.finite 0)), ("modified", .file [2] (.finite 0))]

theorem walked_files_not_reproduced : ¬ ∃ volumes m,
    createVolumes (.object [("fs", fsToJs [("a", walkDir namedLikeParts)])]) = .ok volumes m ∧
      Reproduced [("a", walkDir namedLikeParts)] volumes := by
  rintro ⟨volumes, m, h, -⟩
  have hfs : (JsValue.object [("fs", fsToJs [("a", walkDir namedLikeParts)])]).get "fs" =
      .ok (fsToJs [("a", walkDir namedLikeParts)]) := rfl
  have hs := (storable_iff hfs).mp ⟨volumes, m, h⟩ _ List.mem_cons_self
  cases hs with
  | tree hn _ => exact hn (by decide)

end Registry
end WasmerJs
