import WasmerJs.Fs.WriteFile

/-! A `Directory` that is made from an object with the contents of its files (`in_memory_filesystem`,
    `src/fs/directory.rs`). -/

namespace WasmerJs
namespace Fs
open FileTree Run

/-- A path as it is displayed, without repeated slashes. -/
def Path.display : Path → String
  | .empty => ""
  | .root => "/"
  | .join p c =>
    let name := match c with
      | .curDir => "."
      | .parentDir => ".."
      | .normal n => n
    match p with
    | .empty => name
    | .root => "/" ++ name
    | .join _ _ => p.display ++ "/" ++ name

variable (fs : VirtualFs)

/-! ### The methods -/

def createDirUnlessDir (ancestor : Path) : Action Error Unit := fun t =>
  if (fs.readDir t ancestor).isOk then .ok () t
  else
    match fs.createDir t ancestor with
    | .ok t' => .ok () t'
    | .error e => .error (.context ("Unable to create the \"" ++ ancestor.display ++ "\" directory") e) t

/-- The directories are created from the root on. -/
def createDirAll (path : Path) : Action Error Unit := path.ancestors.reverse.forM (createDirUnlessDir fs)

def createNewFile (path : Path) (contents : Bytes) : Action FsError Unit := do
  let f ← Action.openFile fs { write := true, createNew := true } path
  Action.writeAll fs f contents
  Action.ofExcept (fs.flush · f)

def addFile (entry : String × StringOrBytes) : Action Error Unit := do
  let path := Path.new (slashed entry.1)
  match path.parent with
  | some parent => createDirAll fs parent
  | none => pure ()
  (createNewFile fs path entry.2.asBytes).withContext ("Unable to write to \"" ++ slashed entry.1 ++ "\"")

def inMemoryFilesystem (record : List (String × StringOrBytes)) : Except Error Tree :=
  match (objectEntries record).forM (addFile fs) .empty with
  | .ok _ t => .ok t
  | .error e _ => .error e

def Directory.new (init : Option (List (String × StringOrBytes))) : Except Error Tree :=
  match init with
  | some init => inMemoryFilesystem fs init
  | none => .ok .empty

variable {fs} {t t' : Tree}

/-! ### Directories -/

theorem createDirUnlessDir_ok (hr : fs.LawfulReadDir) (hc : fs.LawfulCreateDir) {p : Path} {l : List String}
    (hl : p.locate = some l) {u : Unit} :
    createDirUnlessDir fs p t = .ok u t' ↔ t.node l = some .dir ∧ t' = t ∨
      ∃ n k, l = n :: k ∧ t.node (n :: k) = none ∧ t.node k = some .dir ∧ t.WithDir (n :: k) true t' := by
  unfold createDirUnlessDir
  by_cases hdir : t.node l = some .dir
  · rw [if_pos ((hr t p).mpr ⟨l, hl, hdir⟩)]
    constructor
    · intro h
      cases h
      exact .inl ⟨hdir, rfl⟩
    · rintro (⟨-, rfl⟩ | ⟨n, k, rfl, hnone, -⟩)
      · rfl
      · rw [hnone] at hdir
        cases hdir
  · have hread : ¬(fs.readDir t p).isOk = true := by
      rw [hr]
      rintro ⟨k, hk, h⟩
      rw [hl] at hk
      cases hk
      exact hdir h
    rw [if_neg hread]
    have hok : ∀ {t'' : Tree}, fs.createDir t p = .ok t'' ↔ ∃ n k, l = n :: k ∧ t.node (n :: k) = none ∧
        t.node k = some .dir ∧ t.WithDir (n :: k) true t'' := by
      intro t''
      simp only [hc.ok, hl, Option.some.injEq]
    constructor
    · intro h
      split at h
      · rename_i heq
        cases h
        exact .inr (hok.mp heq)
      · cases h
    · rintro (⟨h, -⟩ | h)
      · exact absurd h hdir
      · rw [hok.mpr h]

theorem createDirAll_root : createDirAll fs .root = createDirUnlessDir fs .root := by
  unfold createDirAll Path.ancestors
  rw [List.reverse_singleton, List.forM_eq_forM, List.forM_cons]
  simp only [List.forM_nil, bind_pure_unit]

theorem createDirAll_join {p : Path} {c : Component} : createDirAll fs (.join p c) =
    (createDirAll fs p >>= fun _ => createDirUnlessDir fs (.join p c)) := by
  unfold createDirAll
  rw [Path.ancestors, List.reverse_cons, List.forM_eq_forM, List.forM_append]
  simp only [List.forM_cons, List.forM_nil, bind_pure_unit]

/-- The directories of a path are created exactly if no file is in their way. The induction is on the path. -/
theorem createDirAll_ok (hr : fs.LawfulReadDir) (hc : fs.LawfulCreateDir) {p : Path} {l : List String}
    (hl : p.names = some l) {u : Unit} : createDirAll fs p t = .ok u t' ↔ FileTree.Tree.DirsMade t l t' := by
  induction p generalizing l t' with
  | empty => cases hl
  | root =>
    cases hl
    have hnil : ∀ {k : List String}, k <:+ [] ↔ k = [] := List.suffix_nil
    have hdir : ∀ k, t.dir k = true ↔ t.dir k = true ∨ k <:+ [] := by
      intro k
      refine (or_iff_left_of_imp fun hk => ?_).symm
      rw [hnil.mp hk, t.rootDir]
    rw [createDirAll_root, createDirUnlessDir_ok hr hc (p := .root) rfl]
    constructor
    · rintro (⟨-, rfl⟩ | ⟨_, _, h, -⟩)
      · refine ⟨fun k a hk => ?_, hdir, rfl⟩
        rw [hnil.mp hk, t'.root]
        exact fun h => by cases h
      · cases h
    · intro h
      refine .inl ⟨t.root, FileTree.Tree.ext (funext fun k => ?_) h.file⟩
      rw [Bool.eq_iff_iff, h.dir, ← hdir]
  | join p c ih =>
    obtain ⟨n, m, rfl, hm, rfl⟩ := Path.names_join hl
    rw [createDirAll_join, Failing.bind_ok, FileTree.Tree.dirsMade_cons_iff]
    simp only [ih hm, createDirUnlessDir_ok hr hc (Path.locate_of_names hl)]
    constructor
    · rintro ⟨_, t₁, h₁, h | ⟨_, _, heq, hnone, -, hwith⟩⟩
      · exact ⟨t₁, h₁, .inl h⟩
      · cases heq
        exact ⟨t₁, h₁, .inr ⟨hnone, hwith⟩⟩
    · rintro ⟨t₁, h₁, h | ⟨hnone, hwith⟩⟩
      · exact ⟨(), t₁, h₁, .inl h⟩
      · have hm' : t₁.node m = some .dir := FileTree.Tree.node_eq_dir.mpr ((h₁.dir m).mpr (.inr (List.suffix_refl m)))
        exact ⟨(), t₁, h₁, .inr ⟨n, m, rfl, hnone, hm', hwith⟩⟩

/-! ### One file -/

theorem createNewFile_ok (hn : fs.LawfulCreateNew) (hf : fs.LawfulFiles) {p : Path} {contents : Bytes} {u : Unit} :
    createNewFile fs p contents t = .ok u t' ↔ ∃ n k, p.names = some (n :: k) ∧ t.node (n :: k) = none ∧
      t.node k = some .dir ∧ t.WithFile (n :: k) (some contents) t' := by
  have hopen : ∀ t₁ l, fs.openFile t { write := true, createNew := true } p = .ok (t₁, l) ↔ ∃ n k, l = n :: k ∧
      p.names = some l ∧ t.node l = none ∧ t.node k = some .dir ∧ t.WithFile l (some []) t₁ :=
    fun t₁ l => hn t _ p t₁ l rfl rfl
  unfold createNewFile
  simp only [Failing.bind_ok, openFile_action_ok, writeAll_action_ok, action_ofExcept_ok, hopen, hf.writeAll_ok]
  constructor
  · rintro ⟨l, t₁, ⟨n, k, rfl, hl, hnone, hdir, hwith₁⟩, _, t₂, ⟨b, hb, hwith⟩, -, rfl⟩
    rw [hwith₁.file_self] at hb
    cases hb
    rw [List.drop_nil, List.append_nil] at hwith
    exact ⟨n, k, hl, hnone, hdir, hwith₁.trans hwith⟩
  · rintro ⟨n, k, hl, hnone, hdir, hwith⟩
    have hwritable : Writable t (n :: k) := ⟨n, k, rfl, hdir⟩
    obtain ⟨t₁, hwith₁⟩ := hwritable.exists_tree (some [])
    have hwith' : t₁.WithFile (n :: k) (some contents) t' :=
      ⟨hwith.dir.trans hwith₁.dir.symm, by rw [hwith.file, hwith₁.file, Function.update_idem]⟩
    refine ⟨n :: k, t₁, ⟨n, k, rfl, hl, hnone, hdir, hwith₁⟩, (), t', ⟨[], hwith₁.file_self, ?_⟩, ?_, rfl⟩
    · rwa [List.drop_nil, List.append_nil]
    · exact hf.flush_ok _ _ contents hwith.file_self

/-- The place that a key denotes. -/
def place (key : String) : List String := (Path.new (slashed key)).names.getD []

/-- The key is made of normal components, with a slash in front of them or without. -/
def NormalKey (key : String) : Prop := (Path.new (slashed key)).names.isSome = true

instance (key : String) : Decidable (NormalKey key) := by unfold NormalKey; infer_instance

theorem NormalKey.names {key : String} (h : NormalKey key) : (Path.new (slashed key)).names = some (place key) := by
  obtain ⟨l, hl⟩ := Option.isSome_iff_exists.mp h
  unfold place
  rw [hl, Option.getD_some]

/-- A file is added unless its place is taken, a file is above it or it is the root. -/
theorem addFile_ok (hr : fs.LawfulReadDir) (hc : fs.LawfulCreateDir) (hn : fs.LawfulCreateNew) (hf : fs.LawfulFiles)
    {entry : String × StringOrBytes} (hkey : NormalKey entry.1) {u : Unit} :
    addFile fs entry t = .ok u t' ↔ place entry.1 ≠ [] ∧
      FileTree.Tree.FileAdded t (place entry.1) entry.2.asBytes t' := by
  have hnames := hkey.names
  generalize hplace : place entry.1 = l at hnames ⊢
  unfold addFile
  cases hpath : Path.new (slashed entry.1) with
  | empty =>
    rw [hpath] at hnames
    cases hnames
  | root =>
    rw [hpath] at hnames
    cases hnames
    refine iff_of_false (fun h => ?_) fun h => h.1 rfl
    obtain ⟨n, k, hl, -⟩ := (createNewFile_ok hn hf).mp (withContext_ok.mp h)
    cases hl
  | join p c =>
    rw [hpath] at hnames
    obtain ⟨n, m, rfl, hm, rfl⟩ := Path.names_join hnames
    show (createDirAll fs p >>= fun _ => _) t = _ ↔ _
    simp only [Failing.bind_ok, createDirAll_ok hr hc hm, withContext_ok, createNewFile_ok hn hf, hnames,
      Option.some.injEq]
    rw [FileTree.Tree.fileAdded_cons_iff]
    constructor
    · rintro ⟨_, t₁, hdirs, _, _, heq, hnone, -, hwith⟩
      cases heq
      exact ⟨List.cons_ne_nil n m, t₁, hdirs, hnone, hwith⟩
    · rintro ⟨-, t₁, hdirs, hnone, hwith⟩
      have hm' : t₁.node m = some .dir := FileTree.Tree.node_eq_dir.mpr ((hdirs.dir m).mpr (.inr (List.suffix_refl m)))
      exact ⟨(), t₁, hdirs, n, m, rfl, hnone, hm', hwith⟩

/-! ### All files -/

def fileOf (entry : String × StringOrBytes) : List String × Bytes := (place entry.1, entry.2.asBytes)

theorem apart_fileOf {x y : String × StringOrBytes} :
    FileTree.Tree.Apart (fileOf x) (fileOf y) ↔ ¬place x.1 <:+ place y.1 ∧ ¬place y.1 <:+ place x.1 := by
  rw [FileTree.Tree.Apart, fileOf, fileOf]

theorem fileOf_notRoot {x : String × StringOrBytes} : (fileOf x).1 ≠ [] ↔ place x.1 ≠ [] := by rw [fileOf]

/-- One more file can be added to a tree exactly if the files that describe it can be described with it. -/
theorem addFile_holds (hr : fs.LawfulReadDir) (hc : fs.LawfulCreateDir) (hn : fs.LawfulCreateNew)
    (hf : fs.LawfulFiles) {files : List (List String × Bytes)} (hdescribes : FileTree.Tree.Describes files)
    (ht : t.Holds files) {entry : String × StringOrBytes} (hkey : NormalKey entry.1) :
    ((∃ t', addFile fs entry t = .ok () t') ↔ FileTree.Tree.Describes (files ++ [fileOf entry])) ∧
      ∀ u t', addFile fs entry t = .ok u t' → t'.Holds (files ++ [fileOf entry]) := by
  have hadd : ∀ u t', addFile fs entry t = .ok u t' ↔ place entry.1 ≠ [] ∧
      FileTree.Tree.FileAdded t (place entry.1) entry.2.asBytes t' := fun u t' => addFile_ok hr hc hn hf hkey
  refine ⟨?_, fun u t' h => ht.add ((hadd u t').mp h).2⟩
  rw [FileTree.Tree.describes_append_singleton, and_iff_right hdescribes]
  show _ ↔ place entry.1 ≠ [] ∧ ∀ y ∈ files, ¬y.1 <:+ place entry.1 ∧ ¬place entry.1 <:+ y.1
  rw [← ht.free_iff]
  constructor
  · rintro ⟨t', h⟩
    obtain ⟨-, h⟩ := (hadd () t').mp h
    exact ⟨h.free, h.noFile⟩
  · rintro ⟨hfree, hfile⟩
    have hroot : place entry.1 ≠ [] := by
      intro heq
      rw [heq, t.root] at hfree
      cases hfree
    obtain ⟨t', h⟩ := FileTree.Tree.exists_fileAdded (a := entry.2.asBytes) hfree hfile
    exact ⟨t', (hadd () t').mpr ⟨hroot, h⟩⟩

/-- The files are added one after the other. -/
theorem addFiles_holds (hr : fs.LawfulReadDir) (hc : fs.LawfulCreateDir) (hn : fs.LawfulCreateNew)
    (hf : fs.LawfulFiles) {entries : List (String × StringOrBytes)}
    (hkeys : ∀ x ∈ entries, NormalKey x.1) {files : List (List String × Bytes)}
    (hdescribes : FileTree.Tree.Describes files) (ht : t.Holds files) :
    ((∃ t', entries.forM (addFile fs) t = .ok () t') ↔ FileTree.Tree.Describes (files ++ entries.map fileOf)) ∧
      ∀ u t', entries.forM (addFile fs) t = .ok u t' → t'.Holds (files ++ entries.map fileOf) := by
  induction entries generalizing t files with
  | nil =>
    rw [List.map_nil, List.append_nil]
    refine ⟨iff_of_true ⟨t, rfl⟩ hdescribes, fun u t' h => ?_⟩
    cases h
    exact ht
  | cons entry entries ih =>
    obtain ⟨hok, hholds⟩ := addFile_holds hr hc hn hf hdescribes ht (hkeys entry List.mem_cons_self)
    have hrest := fun x hx => hkeys x (List.mem_cons_of_mem entry hx)
    have hassoc : files ++ (entry :: entries).map fileOf = (files ++ [fileOf entry]) ++ entries.map fileOf := by
      rw [List.map_cons, List.append_assoc, List.singleton_append]
    have hstep : ∀ u t', (entry :: entries).forM (addFile fs) t = .ok u t' ↔
        ∃ v t₁, addFile fs entry t = .ok v t₁ ∧ entries.forM (addFile fs) t₁ = .ok u t' := by
      intro u t'
      show (addFile fs entry >>= fun _ => entries.forM (addFile fs)) t = _ ↔ _
      exact Failing.bind_ok
    rw [hassoc]
    constructor
    · constructor
      · rintro ⟨t', h⟩
        obtain ⟨v, t₁, h₁, h₂⟩ := (hstep () t').mp h
        exact ((ih hrest (hok.mp ⟨t₁, h₁⟩) (hholds v t₁ h₁)).1).mp ⟨t', h₂⟩
      · intro h
        obtain ⟨t₁, h₁⟩ := hok.mpr h.of_append
        obtain ⟨t', h₂⟩ := (ih hrest h.of_append (hholds () t₁ h₁)).1.mpr h
        exact ⟨t', (hstep () t').mpr ⟨(), t₁, h₁, h₂⟩⟩
    · intro u t' h
      obtain ⟨v, t₁, h₁, h₂⟩ := (hstep u t').mp h
      exact (ih hrest (hok.mp ⟨t₁, h₁⟩) (hholds v t₁ h₁)).2 u t' h₂

/-! ### The object -/

/-- No two keys denote the same path, none is above another one, and none is the root. -/
structure IsTree (record : List (String × StringOrBytes)) : Prop where
  distinct : record.Pairwise fun x y => place x.1 ≠ place y.1
  notAncestor : ∀ x ∈ record, ∀ y ∈ record, ¬(place x.1 <:+ place y.1 ∧ place x.1 ≠ place y.1)
  notRoot : ∀ x ∈ record, place x.1 ≠ []

theorem isTree_iff_describes {record : List (String × StringOrBytes)} :
    IsTree record ↔ FileTree.Tree.Describes (record.map fileOf) := by
  constructor
  · intro h
    refine ⟨List.pairwise_map.mpr (h.distinct.imp_of_mem fun {x y} hx hy hne => ?_), ?_⟩
    · rw [apart_fileOf]
      exact ⟨fun hs => h.notAncestor x hx y hy ⟨hs, hne⟩, fun hs => h.notAncestor y hy x hx ⟨hs, hne.symm⟩⟩
    · intro z hz
      obtain ⟨x, hx, rfl⟩ := List.mem_map.mp hz
      exact fileOf_notRoot.mpr (h.notRoot x hx)
  · intro h
    have hpairwise := List.pairwise_map.mp h.apart
    have hsymm : Std.Symm fun x y : String × StringOrBytes => FileTree.Tree.Apart (fileOf x) (fileOf y) :=
      ⟨fun _ _ hxy => hxy.symm⟩
    refine ⟨hpairwise.imp fun {x y} hxy heq => ?_, fun x hx y hy => ?_, fun x hx => ?_⟩
    · have hs : place x.1 <:+ place y.1 := heq ▸ List.suffix_refl _
      exact (apart_fileOf.mp hxy).1 hs
    · rintro ⟨hs, hne⟩
      have hxy : x ≠ y := by
        rintro rfl
        exact hne rfl
      exact (apart_fileOf.mp (hpairwise.forall hx hy hxy)).1 hs
    · exact fileOf_notRoot.mp (h.notRoot _ (List.mem_map_of_mem hx))

theorem objectEntries_perm (record : List (String × StringOrBytes)) : (objectEntries record).Perm record :=
  List.perm_insertionSort _ _

/-- The object is taken exactly if it is a tree. -/
theorem directory_new_holds (hr : fs.LawfulReadDir) (hc : fs.LawfulCreateDir) (hn : fs.LawfulCreateNew)
    (hf : fs.LawfulFiles) {record : List (String × StringOrBytes)}
    (hkeys : ∀ x ∈ record, NormalKey x.1) :
    ((∃ t, Directory.new fs (some record) = .ok t) ↔ IsTree record) ∧
      ∀ t, Directory.new fs (some record) = .ok t → t.Holds ((objectEntries record).map fileOf) := by
  have hperm := objectEntries_perm record
  have hkeys' : ∀ x ∈ objectEntries record, NormalKey x.1 := fun x hx => hkeys x (hperm.mem_iff.mp hx)
  obtain ⟨hok, hholds⟩ := addFiles_holds (t := .empty) hr hc hn hf hkeys' ⟨.nil, fun _ h => by cases h⟩
    FileTree.Tree.empty_holds
  have hnew : ∀ t, Directory.new fs (some record) = .ok t ↔
      (objectEntries record).forM (addFile fs) .empty = .ok () t := by
    intro t
    show inMemoryFilesystem fs record = _ ↔ _
    unfold inMemoryFilesystem
    cases (objectEntries record).forM (addFile fs) .empty with
    | ok u t' => exact ⟨fun h => (by cases h; rfl), fun h => (by cases h; rfl)⟩
    | error e t' => exact iff_of_false (fun h => by cases h) (fun h => by cases h)
  refine ⟨?_, fun t h => hholds () t ((hnew t).mp h)⟩
  simp only [hnew]
  rw [hok, isTree_iff_describes, List.nil_append]
  exact ⟨fun h => h.perm (hperm.map fileOf), fun h => h.perm (hperm.map fileOf).symm⟩

/-- An object is taken exactly if it is a tree, and then this is the tree that is made of it, in whatever order the
    object has its keys. -/
theorem directory_init_reproduced (hr : fs.LawfulReadDir) (hc : fs.LawfulCreateDir) (hn : fs.LawfulCreateNew)
    (ho : fs.LawfulOpen) (hf : fs.LawfulFiles) (record : List (String × StringOrBytes))
    (hkeys : ∀ x ∈ record, NormalKey x.1) :
    ((∃ t, Directory.new fs (some record) = .ok t) ↔ IsTree record) ∧
      ∀ t, Directory.new fs (some record) = .ok t →
        (∀ x ∈ record, Directory.readFile fs x.1 t = .ok x.2.asBytes t) ∧
        (∀ l, t.node l = some .dir ↔ l = [] ∨ ∃ x ∈ record, l <:+ place x.1 ∧ l ≠ place x.1) ∧
        (∀ l b, t.file l = some b → ∃ x ∈ record, place x.1 = l) ∧
        ∀ record', record.Perm record' → Directory.new fs (some record') = .ok t := by
  obtain ⟨hok, hholds⟩ := directory_new_holds hr hc hn hf hkeys
  have hmem : ∀ {record' : List (String × StringOrBytes)}, record.Perm record' → ∀ x,
      x ∈ (objectEntries record).map fileOf ↔ x ∈ (objectEntries record').map fileOf := fun {record'} hp _ =>
    (((objectEntries_perm record).trans (hp.trans (objectEntries_perm record').symm)).map fileOf).mem_iff
  have hfiles : ∀ z, z ∈ (objectEntries record).map fileOf ↔ ∃ x ∈ record, fileOf x = z := by
    intro z
    rw [((objectEntries_perm record).map fileOf).mem_iff, List.mem_map]
  refine ⟨hok, fun t ht => ?_⟩
  have h := hholds t ht
  refine ⟨fun x hx => ?_, fun l => ?_, fun l b hb => ?_, fun record' hp => ?_⟩
  · refine (directory_readFile_ok ho hf).mpr ⟨rfl, place x.1, (hkeys x hx).names, ?_⟩
    exact (h.file _ _).mpr ((hfiles _).mpr ⟨x, hx, rfl⟩)
  · rw [FileTree.Tree.node_eq_dir, h.dir]
    simp only [hfiles, fileOf]
    constructor
    · rintro (rfl | ⟨_, ⟨x, hx, rfl⟩, hs⟩)
      · exact .inl rfl
      · exact .inr ⟨x, hx, hs⟩
    · rintro (rfl | ⟨x, hx, hs⟩)
      · exact .inl rfl
      · exact .inr ⟨_, ⟨x, hx, rfl⟩, hs⟩
  · obtain ⟨x, hx, heq⟩ := (hfiles _).mp ((h.file l b).mp hb)
    exact ⟨x, hx, congrArg Prod.fst heq⟩
  · have hkeys' : ∀ x ∈ record', NormalKey x.1 := fun x hx => hkeys x (hp.mem_iff.mpr hx)
    obtain ⟨hok', hholds'⟩ := directory_new_holds hr hc hn hf hkeys'
    have htree : IsTree record' :=
      isTree_iff_describes.mpr ((isTree_iff_describes.mp (hok.mp ⟨t, ht⟩)).perm (hp.map fileOf))
    obtain ⟨t', ht'⟩ := hok'.mpr htree
    rw [h.eq (hholds' t' ht') (hmem hp)]
    exact ht'

/-! ### A file system with the standard `create_new` -/

/-- A directory of the name counts as well. -/
def openStandard (t : Tree) (conf : OpenOptions) (p : Path) : Except FsError (Tree × List String) :=
  if conf.createNew && p.names.any fun l => t.node l ≠ none then .error .alreadyExists else MemFs.openFile t conf p

def standardFs : VirtualFs := { memFs with openFile := openStandard }

theorem standardFs_open : standardFs.LawfulOpen := by
  intro t conf p t' l hnew
  have heq : standardFs.openFile t conf p = memFs.openFile t conf p := by
    show openStandard t conf p = MemFs.openFile t conf p
    unfold openStandard
    rw [hnew, Bool.false_and, if_neg Bool.false_ne_true]
  rw [heq]
  exact memFs_open t conf p t' l hnew

theorem standardFs_createNew : standardFs.LawfulCreateNew := by
  intro t conf p t' l hnew hwrite
  show openStandard t conf p = _ ↔ _
  unfold openStandard MemFs.openFile
  simp only [hnew, hwrite, Bool.true_and, Bool.not_true, Bool.and_false, Bool.false_eq_true, if_false]
  rcases p.names with - | - | ⟨n, k⟩
  · refine iff_of_false (fun h => by cases h) ?_
    rintro ⟨_, _, -, h, -⟩
    cases h
  · refine iff_of_false (fun h => ?_) ?_
    · simp only [Option.any_some, t.root] at h
      cases h
    · rintro ⟨_, _, rfl, h, -⟩
      cases h
  simp only [Option.any_some, Option.some.injEq, decide_eq_true_eq]
  by_cases hnone : t.node (n :: k) = none
  · rw [if_neg (not_not.mpr hnone), (FileTree.Tree.node_eq_none.mp hnone).2]
    simp only [FileTree.Tree.node_eq_dir]
    by_cases hl : t.dir k = true
    · have hwith := FileTree.Tree.setFile_withFile (n := n) (x := some []) hl
      simp only [dif_pos hl, Bool.or_true, Bool.and_true, if_true, Except.ok.injEq, Prod.mk.injEq]
      constructor
      · rintro ⟨rfl, rfl⟩
        exact ⟨n, k, rfl, rfl, hnone, hl, hwith⟩
      · rintro ⟨_, _, rfl, heq, -, -, hwith'⟩
        cases heq
        exact ⟨hwith.eq hwith', rfl⟩
    · rw [dif_neg hl]
      refine iff_of_false (fun h => by cases h) ?_
      rintro ⟨_, _, rfl, heq, -, hdir, -⟩
      cases heq
      exact hl hdir
  · rw [if_pos hnone]
    refine iff_of_false (fun h => by cases h) ?_
    rintro ⟨_, _, rfl, heq, hnone', -⟩
    rw [heq] at hnone
    exact hnone hnone'

theorem directory_init_reproduced_two : IsTree [("b/c", .bytes [1]), ("/a", .bytes [])] ∧
    ∃ t, Directory.new standardFs (some [("b/c", .bytes [1]), ("/a", .bytes [])]) = .ok t ∧
      Directory.readFile standardFs "b/c" t = .ok [1] t := by
  have hkeys : ∀ x ∈ [("b/c", StringOrBytes.bytes [1]), ("/a", .bytes [])], NormalKey x.1 := by decide +kernel
  have hplaces : place "b/c" = ["c", "b"] ∧ place "/a" = ["a"] := by decide +kernel
  have htree : IsTree [("b/c", .bytes [1]), ("/a", .bytes [])] := by
    refine ⟨?_, ?_, ?_⟩ <;> simp [hplaces, List.suffix_cons_iff]
  have hr : standardFs.LawfulReadDir := memFs_readDir
  have hc : standardFs.LawfulCreateDir := ⟨memFs_createDir.ok, memFs_createDir.alreadyExists⟩
  have hf : standardFs.LawfulFiles := ⟨memFs_files.writeAll_ok, memFs_files.readToEnd_ok, memFs_files.flush_ok⟩
  obtain ⟨hok, h⟩ := directory_init_reproduced hr hc standardFs_createNew standardFs_open hf _ hkeys
  obtain ⟨t, ht⟩ := hok.mpr htree
  exact ⟨htree, t, ht, (h t ht).1 ("b/c", .bytes [1]) List.mem_cons_self⟩

end Fs
end WasmerJs
