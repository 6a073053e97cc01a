import WasmerJs.Fs.Mkdir
import WasmerJs.Run.Options

/-! The two ways to write a file: `write_file` of a `Directory` (`src/fs/directory.rs`), which keeps what a file contains
    behind the new contents, and `vfs_write_file` of an `Instance` (`src/instance.rs`), which truncates the file. -/

namespace WasmerJs
namespace Fs
open FileTree Run

/-! ### The methods -/

def Action.openFile (fs : VirtualFs) (conf : OpenOptions) (path : Path) : Action FsError (List String) := fun t =>
  match fs.openFile t conf path with
  | .ok (t', f) => .ok f t'
  | .error e => .error e t

def Action.writeAll (fs : VirtualFs) (f : List String) (data : Bytes) : Action FsError Unit := fun t =>
  match fs.writeAll t f data with
  | .ok t' => .ok () t'
  | .error e => .error e t

def Action.ofExcept {α : Type} (op : Tree → Except FsError α) : Action FsError α := Failing.ofExcept op

/-- An error of the file system, as the error of a method. -/
def Action.orFail {α : Type} (x : Action FsError α) : Action Error α := Failing.mapError .fs x

variable (fs : VirtualFs)

namespace Directory

def writeFile (path : String) (contents : StringOrBytes) : Action Error Unit := do
  let f ← (Action.openFile fs { write := true, create := true } (Path.new (slashed path))).orFail
  (Action.writeAll fs f contents.asBytes).orFail

def readFile (path : String) : Action Error Bytes := do
  let f ← (Action.openFile fs { read := true } (Path.new (slashed path))).orFail
  (Action.ofExcept (fs.readToEnd · f)).orFail

end Directory

namespace Instance

def createParents (path : Path) : Action FsError Unit :=
  match path.parent with
  | some parent => createDirAllInternal fs parent
  | none => pure ()

def vfsWriteFile (path : String) (content : Bytes) : Action Error Unit := do
  (createParents fs (Path.new path)).withContext ("Failed to create parent directories for '" ++ path ++ "'")
  let file ← (Action.openFile fs { write := true, create := true, truncate := true } (Path.new path)).withContext
    ("Failed to create '" ++ path ++ "'")
  (Action.writeAll fs file content).withContext ("Failed to write '" ++ path ++ "'")
  (Action.ofExcept (fs.flush · file)).withContext ("Failed to flush '" ++ path ++ "'")

def vfsReadFile (path : String) : Action Error Bytes := do
  let file ← (Action.openFile fs { read := true } (Path.new path)).withContext ("Failed to open '" ++ path ++ "'")
  (Action.ofExcept (fs.readToEnd · file)).withContext ("Failed to read '" ++ path ++ "'")

end Instance

variable {fs} {t t' : Tree}

/-! ### What a write does -/

theorem orFail_ok {α : Type} {x : Action FsError α} {a : α} : x.orFail t = .ok a t' ↔ x t = .ok a t' :=
  Failing.mapError_ok

theorem action_ofExcept_ok {α : Type} {op : Tree → Except FsError α} {a : α} :
    Action.ofExcept op t = .ok a t' ↔ op t = .ok a ∧ t' = t := Failing.ofExcept_ok

theorem openFile_action_ok {conf : OpenOptions} {p : Path} {f : List String} :
    Action.openFile fs conf p t = .ok f t' ↔ fs.openFile t conf p = .ok (t', f) := by
  unfold Action.openFile
  cases fs.openFile t conf p with
  | ok x => exact ⟨fun h => (by cases h; rfl), fun h => (by cases h; rfl)⟩
  | error => exact iff_of_false (fun h => by cases h) (fun h => by cases h)

theorem writeAll_action_ok {f : List String} {data : Bytes} {u : Unit} :
    Action.writeAll fs f data t = .ok u t' ↔ fs.writeAll t f data = .ok t' := by
  unfold Action.writeAll
  cases fs.writeAll t f data with
  | ok x => exact ⟨fun h => (by cases h; rfl), fun h => (by cases h; rfl)⟩
  | error => exact iff_of_false (fun h => by cases h) (fun h => by cases h)

/-- The place is in a directory, so that a file can be there. -/
def Writable (t : Tree) (l : List String) : Prop := ∃ n k, l = n :: k ∧ t.node k = some .dir

/-- What a file contains; one that does not exist is empty. -/
def contentsAt (t : Tree) (l : List String) : Bytes := (t.file l).getD []

theorem contentsAt_of_file {l : List String} {b : Bytes} (h : t.file l = some b) : contentsAt t l = b := by
  rw [contentsAt, h, Option.getD_some]

theorem contentsAt_of_none {l : List String} (h : t.file l = none) : contentsAt t l = [] := by
  rw [contentsAt, h, Option.getD_none]

theorem writable_of_file {l : List String} (h : t.file l ≠ none) : Writable t l := by
  obtain ⟨n, k, rfl, hdir⟩ := Tree.exists_cons_of_file h
  exact ⟨n, k, rfl, Tree.node_eq_dir.mpr hdir⟩

/-- A tree in which such a place has other contents. -/
theorem Writable.exists_tree {l : List String} (h : Writable t l) (x : Option Bytes) :
    ∃ t₁ : Tree, t.WithFile l x t₁ := by
  obtain ⟨n, k, rfl, hdir⟩ := h
  exact ⟨_, Tree.setFile_withFile (Tree.node_eq_dir.mp hdir)⟩

theorem opens_create {conf : OpenOptions} (hcreate : conf.create = true) (hwrite : conf.write = true)
    {l : List String} : VirtualFs.Opens t conf l t' ↔ Writable t l ∧
      t.WithFile l (some (if conf.truncate then [] else contentsAt t l)) t' := by
  constructor
  · intro h
    refine ⟨?_, ?_⟩
    · obtain ⟨n, k, rfl, hdir⟩ := h.parent
      exact ⟨n, k, rfl, Tree.node_eq_dir.mpr hdir⟩
    · cases h with
      | keep hb htruncate =>
        rw [htruncate, if_neg Bool.false_ne_true, contentsAt_of_file hb]
        exact .refl hb
      | truncate hb htruncate _ hwith => rwa [if_pos htruncate]
      | create hnone _ _ _ hwith => rwa [contentsAt_of_none hnone, ite_self]
  · rintro ⟨⟨n, k, rfl, hdir⟩, hwith⟩
    cases hb : t.file (n :: k) with
    | none =>
      rw [contentsAt_of_none hb, ite_self] at hwith
      exact .create hb hdir hcreate hwrite hwith
    | some b =>
      rw [contentsAt_of_file hb] at hwith
      cases htruncate : conf.truncate with
      | false =>
        rw [htruncate, if_neg Bool.false_ne_true] at hwith
        obtain rfl : t' = t := hwith.eq (.refl hb)
        exact .keep hb htruncate
      | true =>
        rw [if_pos htruncate] at hwith
        exact .truncate hb htruncate hwrite hwith

/-- A file that was opened to be written gets the contents, in front of what is left of those it had. -/
theorem open_and_write (ho : fs.LawfulOpen) (hf : fs.LawfulFiles) {conf : OpenOptions} (hnew : conf.createNew = false)
    (hcreate : conf.create = true) (hwrite : conf.write = true) {p : Path} {data : Bytes} :
    (∃ l t₁, fs.openFile t conf p = .ok (t₁, l) ∧ fs.writeAll t₁ l data = .ok t') ↔
      ∃ l, p.names = some l ∧ Writable t l ∧
        t.WithFile l (some (data ++ (if conf.truncate then [] else contentsAt t l).drop data.length)) t' := by
  constructor
  · rintro ⟨l, t₁, hopen, hw⟩
    obtain ⟨hl, hopens⟩ := (ho _ _ _ _ _ hnew).mp hopen
    obtain ⟨hwritable, hwith⟩ := (opens_create hcreate hwrite).mp hopens
    obtain ⟨b, hb, hwith'⟩ := (hf.writeAll_ok _ _ _ _).mp hw
    rw [hwith.file_self] at hb
    cases hb
    exact ⟨l, hl, hwritable, hwith.trans hwith'⟩
  · rintro ⟨l, hl, hwritable, hwith⟩
    obtain ⟨t₁, hwith₁⟩ := hwritable.exists_tree (some (if conf.truncate then [] else contentsAt t l))
    refine ⟨l, t₁, (ho _ _ _ _ _ hnew).mpr ⟨hl, (opens_create hcreate hwrite).mpr ⟨hwritable, hwith₁⟩⟩, ?_⟩
    obtain ⟨t₂, hwith₂⟩ := (writable_of_file (by rw [hwith₁.file_self]; exact Option.some_ne_none _)).exists_tree
      (some (data ++ (if conf.truncate then [] else contentsAt t l).drop data.length))
    rw [(hf.writeAll_ok _ _ _ _).mpr ⟨_, hwith₁.file_self, hwith₂⟩, hwith.eq (hwith₁.trans hwith₂)]

theorem directory_writeFile_ok (ho : fs.LawfulOpen) (hf : fs.LawfulFiles) {path : String} {c : StringOrBytes} :
    Directory.writeFile fs path c t = .ok () t' ↔ ∃ l, (Path.new (slashed path)).names = some l ∧ Writable t l ∧
      t.WithFile l (some (c.asBytes ++ (contentsAt t l).drop c.asBytes.length)) t' := by
  unfold Directory.writeFile
  simp only [Failing.bind_ok, orFail_ok, openFile_action_ok, writeAll_action_ok]
  exact open_and_write ho hf rfl rfl rfl

theorem open_and_read (ho : fs.LawfulOpen) (hf : fs.LawfulFiles) {p : Path} {data : Bytes} :
    (∃ l t₁, fs.openFile t { read := true } p = .ok (t₁, l) ∧ fs.readToEnd t₁ l = .ok data ∧ t' = t₁) ↔
      t' = t ∧ ∃ l, p.names = some l ∧ t.file l = some data := by
  have hopen : ∀ t₁ l, fs.openFile t { read := true } p = .ok (t₁, l) ↔
      p.names = some l ∧ VirtualFs.Opens t { read := true } l t₁ := fun t₁ l => ho t _ p t₁ l rfl
  simp only [hopen, hf.readToEnd_ok]
  constructor
  · rintro ⟨l, t₁, ⟨hl, hopens⟩, hdata, rfl⟩
    cases hopens with
    | keep => exact ⟨rfl, l, hl, hdata⟩
    | truncate _ h => cases h
    | create _ _ h => cases h
  · rintro ⟨rfl, l, hl, hdata⟩
    exact ⟨l, t', ⟨hl, .keep hdata rfl⟩, hdata, rfl⟩

theorem directory_readFile_ok (ho : fs.LawfulOpen) (hf : fs.LawfulFiles) {path : String} {data : Bytes} :
    Directory.readFile fs path t = .ok data t' ↔
      t' = t ∧ ∃ l, (Path.new (slashed path)).names = some l ∧ t.file l = some data := by
  unfold Directory.readFile
  simp only [Failing.bind_ok, orFail_ok, openFile_action_ok, action_ofExcept_ok]
  exact open_and_read ho hf

theorem vfsReadFile_ok (ho : fs.LawfulOpen) (hf : fs.LawfulFiles) {path : String} {data : Bytes} :
    Instance.vfsReadFile fs path t = .ok data t' ↔
      t' = t ∧ ∃ l, (Path.new path).names = some l ∧ t.file l = some data := by
  unfold Instance.vfsReadFile
  simp only [Failing.bind_ok, withContext_ok, openFile_action_ok, action_ofExcept_ok]
  exact open_and_read ho hf

theorem vfsWriteFile_ok (ho : fs.LawfulOpen) (hf : fs.LawfulFiles) {path : String} {data : Bytes} :
    Instance.vfsWriteFile fs path data t = .ok () t' ↔ ∃ t₁, Instance.createParents fs (Path.new path) t = .ok () t₁ ∧
      ∃ l, (Path.new path).names = some l ∧ Writable t₁ l ∧ t₁.WithFile l (some data) t' := by
  have hwrite : ∀ {t₁ t₂ : Tree}, (∃ l t₃, fs.openFile t₁ { write := true, create := true, truncate := true }
      (Path.new path) = .ok (t₃, l) ∧ fs.writeAll t₃ l data = .ok t₂) ↔ ∃ l, (Path.new path).names = some l ∧
        Writable t₁ l ∧ t₁.WithFile l (some data) t₂ := by
    intro t₁ t₂
    rw [open_and_write ho hf rfl rfl rfl]
    simp only [if_true, List.drop_nil, List.append_nil]
  unfold Instance.vfsWriteFile
  simp only [Failing.bind_ok, withContext_ok, openFile_action_ok, writeAll_action_ok, action_ofExcept_ok]
  constructor
  · rintro ⟨_, t₁, hparents, l, t₂, hopen, _, t₃, hw, -, rfl⟩
    exact ⟨t₁, hparents, hwrite.mp ⟨l, t₂, hopen, hw⟩⟩
  · rintro ⟨t₁, hparents, h⟩
    obtain ⟨l, t₂, hopen, hw⟩ := hwrite.mpr h
    obtain ⟨b, -, hwith⟩ := (hf.writeAll_ok _ _ _ _).mp hw
    have hflush : fs.flush t' l = .ok () := hf.flush_ok _ _ _ hwith.file_self
    exact ⟨(), t₁, hparents, l, t₂, hopen, (), t', hw, hflush, rfl⟩

/-! ### Replacing the contents of a file -/

/-- No file but the one at the path has changed, or is hidden now. -/
structure OthersKept (path : String) (t t' : Tree) : Prop where
  file : ∀ l, (Path.new (slashed path)).names ≠ some l → t'.file l = t.file l
  found : ∀ l b, (Path.new (slashed path)).names ≠ some l →
    (t'.node l = some (.file b) ↔ t.node l = some (.file b))

/-- What was written is what is read, whichever of the two methods wrote it, and both leave the same files and
    directories. -/
structure WriteReplaces (fs : VirtualFs) (t : Tree) (path : String) (c : StringOrBytes) : Prop where
  directory : ∀ t', Directory.writeFile fs path c t = .ok () t' →
    Directory.readFile fs path t' = .ok c.asBytes t' ∧ OthersKept path t t'
  instance_ : ∀ t', Instance.vfsWriteFile fs path c.asBytes t = .ok () t' →
    Instance.vfsReadFile fs path t' = .ok c.asBytes t' ∧ OthersKept path t t'
  same : ∀ t₁ t₂, Directory.writeFile fs path c t = .ok () t₁ →
    Instance.vfsWriteFile fs path c.asBytes t = .ok () t₂ → t₁ = t₂

theorem othersKept {path : String} {l : List String} (hl : (Path.new (slashed path)).names = some l) {x : Option Bytes}
    {t₁ : Tree} (honly : Tree.OnlyDirs t t₁) (hwith : t₁.WithFile l x t') : OthersKept path t t' := by
  have hfile : ∀ k, (Path.new (slashed path)).names ≠ some k → t'.file k = t₁.file k := by
    intro k hk
    have hne : k ≠ l := by
      rintro rfl
      exact hk hl
    rw [hwith.file, Function.update_of_ne hne]
  refine ⟨fun k hk => (hfile k hk).trans (congrFun honly.file_eq k), fun k b hk => ?_⟩
  rw [← honly.file_iff, Tree.node_eq_file, Tree.node_eq_file, hwith.dir, hfile k hk]

/-! ### The directories on the way -/

theorem slashed_of_names {path : String} {l : List String} (hl : (Path.new path).names = some l) :
    slashed path = path := slashed_of_locate (Path.locate_of_names hl)

/-- What `vfs_write_file` did when it succeeded: it created directories, and then it wrote the file. -/
structure VfsWrote (t : Tree) (path : String) (data : Bytes) (q : Path) (n : String) (k : List String) (t₁ t' : Tree) :
    Prop where
  path_eq : Path.new path = .join q (.normal n)
  names : q.names = some k
  made : Made t q (.ok () t₁)
  parent : t₁.node k = some .dir
  with_ : t₁.WithFile (n :: k) (some data) t'

variable {path : String} {data : Bytes} {q : Path} {n : String} {k : List String} {t₁ : Tree}

theorem VfsWrote.onlyDirs (h : VfsWrote t path data q n k t₁ t') : Tree.OnlyDirs t t₁ := h.made.onlyDirs () t₁ rfl

theorem VfsWrote.path_names (h : VfsWrote t path data q n k t₁ t') : (Path.new path).names = some (n :: k) := by
  rw [h.path_eq, Path.names, h.names, Option.map_some]

/-- The parents of a file are made first. -/
theorem createParents_made (hm : fs.LawfulMetadata) (hc : fs.LawfulCreateDir) (t : Tree) {p : Path}
    (hp : p.names = some (n :: k)) : ∃ q, p = .join q (.normal n) ∧ q.names = some k ∧
      Instance.createParents fs p = Instance.createDirAllInternal fs q ∧ Made t q (Instance.createParents fs p t) := by
  cases p with
  | empty => cases hp
  | root => cases hp
  | join q c =>
    obtain ⟨m, j, rfl, hq, heq⟩ := Path.names_join hp
    cases heq
    have habs : q.isAbsolute = true := Path.isAbsolute_of_locate (Path.locate_of_names hq)
    exact ⟨q, rfl, hq, rfl, createDirAllInternal_made hm hc q habs⟩

theorem vfsWrote_of_ok (hm : fs.LawfulMetadata) (hc : fs.LawfulCreateDir) (ho : fs.LawfulOpen) (hf : fs.LawfulFiles)
    (h : Instance.vfsWriteFile fs path data t = .ok () t') : ∃ q n k t₁, VfsWrote t path data q n k t₁ t' := by
  obtain ⟨t₁, hparents, l, hl, ⟨n, k, rfl, hdir⟩, hwith⟩ := (vfsWriteFile_ok ho hf).mp h
  obtain ⟨q, hpath, hq, -, hmade⟩ := createParents_made hm hc t hl
  rw [hparents] at hmade
  exact ⟨q, n, k, t₁, hpath, hq, hmade, hdir, hwith⟩

/-- Where a file can be written, the directories on the way to it exist, and none is made. -/
theorem createParents_of_writable (hm : fs.LawfulMetadata) (hc : fs.LawfulCreateDir) {p : Path} {l : List String}
    (hp : p.names = some l) (h : Writable t l) : Instance.createParents fs p t = .ok () t := by
  obtain ⟨n, k, rfl, hdir⟩ := h
  obtain ⟨q, -, hq, heq, -⟩ := createParents_made hm hc t hp
  have hok : (fs.metadata t q).isOk = true := (hm t q).mpr ⟨k, hq, by rw [hdir]; exact Option.some_ne_none _⟩
  rw [heq, createDirAllInternal_exists hok]

/-! ### Earlier writes -/

inductive Api where
  | directory
  | vfs

/-- One write of a file, by one of the two methods. -/
def write (fs : VirtualFs) (path : String) (w : Api × StringOrBytes) : Action Error Unit :=
  match w.1 with
  | .directory => Directory.writeFile fs path w.2
  | .vfs => Instance.vfsWriteFile fs path w.2.asBytes

/-- What writes to a path leave, also those that fail. -/
def afterWrites (fs : VirtualFs) (path : String) : List (Api × StringOrBytes) → Tree → Tree
  | [], t => t
  | w :: ws, t =>
    match write fs path w t with
    | .ok _ t' => afterWrites fs path ws t'
    | .error _ t' => afterWrites fs path ws t'

/-- The file at the path is not longer than the contents. -/
def NotLonger (t : Tree) (path : String) (c : StringOrBytes) : Prop :=
  ∀ l b, (Path.new (slashed path)).names = some l → t.file l = some b → b.length ≤ c.asBytes.length

theorem drop_contentsAt {c : StringOrBytes} {l : List String} (h : NotLonger t path c)
    (hl : (Path.new (slashed path)).names = some l) : (contentsAt t l).drop c.asBytes.length = [] := by
  rw [List.drop_eq_nil_iff]
  cases hb : t.file l with
  | none =>
    rw [contentsAt_of_none hb]
    exact Nat.zero_le _
  | some b =>
    rw [contentsAt_of_file hb]
    exact h l b hl hb

theorem writeReplaces_of_notLonger (hm : fs.LawfulMetadata) (hc : fs.LawfulCreateDir) (ho : fs.LawfulOpen)
    (hf : fs.LawfulFiles) {c : StringOrBytes} (hlen : NotLonger t path c) : WriteReplaces fs t path c := by
  have hdirectory : ∀ t', Directory.writeFile fs path c t = .ok () t' → ∃ l,
      (Path.new (slashed path)).names = some l ∧ Writable t l ∧ t.WithFile l (some c.asBytes) t' := by
    intro t' h
    obtain ⟨l, hl, hwritable, hwith⟩ := (directory_writeFile_ok ho hf).mp h
    rw [drop_contentsAt hlen hl, List.append_nil] at hwith
    exact ⟨l, hl, hwritable, hwith⟩
  refine ⟨fun t' h => ?_, fun t' h => ?_, fun t₁ t₂ h₁ h₂ => ?_⟩
  · obtain ⟨l, hl, -, hwith⟩ := hdirectory t' h
    exact ⟨(directory_readFile_ok ho hf).mpr ⟨rfl, l, hl, hwith.file_self⟩, othersKept hl (.refl t) hwith⟩
  · obtain ⟨q, n, k, t₁, hw⟩ := vfsWrote_of_ok hm hc ho hf h
    have hl := hw.path_names
    refine ⟨(vfsReadFile_ok ho hf).mpr ⟨rfl, _, hl, hw.with_.file_self⟩, othersKept ?_ hw.onlyDirs hw.with_⟩
    rw [slashed_of_names hl, hl]
  · obtain ⟨l, hl, hwritable, hwith₁⟩ := hdirectory t₁ h₁
    obtain ⟨t₃, hparents, l', hl', -, hwith₂⟩ := (vfsWriteFile_ok ho hf).mp h₂
    rw [slashed_of_names hl', hl'] at hl
    cases hl
    -- Nothing had to be created for the second one.
    rw [createParents_of_writable hm hc hl' hwritable] at hparents
    cases hparents
    exact hwith₁.eq hwith₂

/-- A longer file keeps its end when a `Directory` writes it. -/
theorem notLonger_of_writeReplaces (ho : fs.LawfulOpen) (hf : fs.LawfulFiles) {c : StringOrBytes}
    (h : WriteReplaces fs t path c) : NotLonger t path c := by
  intro l b hl hb
  have hwritable : Writable t l := writable_of_file (by rw [hb]; exact Option.some_ne_none _)
  obtain ⟨t', hwith⟩ := hwritable.exists_tree (some (c.asBytes ++ (contentsAt t l).drop c.asBytes.length))
  have hok := (directory_writeFile_ok ho hf).mpr ⟨l, hl, hwritable, hwith⟩
  obtain ⟨-, l', hl', hread⟩ := (directory_readFile_ok ho hf).mp (h.directory t' hok).1
  rw [hl] at hl'
  cases hl'
  rw [hwith.file_self, contentsAt_of_file hb] at hread
  have hdrop : b.drop c.asBytes.length = [] := List.append_right_eq_self.mp (Option.some.inj hread)
  exact List.drop_eq_nil_iff.mp hdrop

/-- A write replaces the contents of a file, and is the same through either method, exactly if the file was not longer
    than the new contents. -/
theorem write_replaces_iff (hm : fs.LawfulMetadata) (hc : fs.LawfulCreateDir) (ho : fs.LawfulOpen) (hf : fs.LawfulFiles)
    (path : String) (earlier : List (Api × StringOrBytes)) (t : Tree) (c : StringOrBytes) :
    WriteReplaces fs (afterWrites fs path earlier t) path c ↔ NotLonger (afterWrites fs path earlier t) path c :=
  ⟨notLonger_of_writeReplaces ho hf, writeReplaces_of_notLonger hm hc ho hf⟩

theorem write_replaces_shorter : WriteReplaces memFs
    (afterWrites memFs "/a" [(.directory, .bytes [1, 2, 3]), (.vfs, .bytes [4]), (.directory, .bytes [5, 6])] .empty)
    "/a" (.bytes [7, 8, 9]) := by
  refine (write_replaces_iff memFs_metadata memFs_createDir memFs_open memFs_files "/a" _ .empty
    (.bytes [7, 8, 9])).mpr ?_
  intro l b hl hb
  have hplace : (Path.new (slashed "/a")).names = some ["a"] := by decide
  rw [hplace] at hl
  cases hl
  have hfile : (afterWrites memFs "/a" [(.directory, .bytes [1, 2, 3]), (.vfs, .bytes [4]),
      (.directory, .bytes [5, 6])] .empty).file ["a"] = some [5, 6] := by decide +kernel
  rw [hfile] at hb
  cases hb
  decide

/-- Two bytes are written to a file of three. The third is still there. -/
theorem longer_file_keeps_end : Directory.writeFile memFs "/a" (.bytes [4, 5]) (oneFile "a" [1, 2, 3]) =
      .ok () (oneFile "a" [4, 5, 3]) ∧
    Directory.readFile memFs "/a" (oneFile "a" [4, 5, 3]) = .ok [4, 5, 3] (oneFile "a" [4, 5, 3]) ∧
      ¬WriteReplaces memFs (oneFile "a" [1, 2, 3]) "/a" (.bytes [4, 5]) := by
  have hplace : (Path.new (slashed "/a")).names = some ["a"] := by decide
  have hwrite : Directory.writeFile memFs "/a" (.bytes [4, 5]) (oneFile "a" [1, 2, 3]) =
      .ok () (oneFile "a" [4, 5, 3]) := by
    refine (directory_writeFile_ok memFs_open memFs_files).mpr ⟨["a"], hplace, ⟨"a", [], rfl, rfl⟩, rfl, ?_⟩
    rw [contentsAt_of_file oneFile_file]
    exact (Function.update_idem _ _ _).symm
  have hread : Directory.readFile memFs "/a" (oneFile "a" [4, 5, 3]) = .ok [4, 5, 3] (oneFile "a" [4, 5, 3]) :=
    (directory_readFile_ok memFs_open memFs_files).mpr ⟨rfl, ["a"], hplace, oneFile_file⟩
  refine ⟨hwrite, hread, fun h => ?_⟩
  have := (h.directory _ hwrite).1
  rw [hread] at this
  cases this

end Fs
end WasmerJs
