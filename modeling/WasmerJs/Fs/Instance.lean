import WasmerJs.Lib.Calls
import WasmerJs.Fs.WriteFile

/-! The files of an `Instance` over a sequence of calls (`src/instance.rs`): what a file contains follows from the writes
    and removals before that succeeded, whatever else was called and failed. -/

namespace WasmerJs
namespace Fs
open FileTree Run

/-! ### The rest of the file system -/

/-- What `metadata` gives. -/
structure Metadata where
  ft : FileType
  len : Nat
  deriving DecidableEq

/-- The operations that only an `Instance` uses; `stat` is `metadata` with the length. -/
structure InstanceFs extends VirtualFs where
  stat : Tree → Path → Except FsError Metadata
  removeFile : Tree → Path → Except FsError Tree
  removeDir : Tree → Path → Except FsError Tree

namespace InstanceFs

structure LawfulStat (fs : InstanceFs) : Prop where
  metadata_eq : ∀ t p, fs.metadata t p = (fs.stat t p).map Metadata.ft
  file : ∀ t p l b, p.names = some l → t.node l = some (.file b) → fs.stat t p = .ok ⟨.file, b.length⟩
  dir : ∀ t p l, p.names = some l → t.node l = some .dir → ∃ n, fs.stat t p = .ok ⟨.dir, n⟩

/-- A file of that name is looked for. A directory of the same name does not matter. -/
def LawfulRemoveFile (fs : InstanceFs) : Prop := ∀ t p t' l, p.names = some l →
  (fs.removeFile t p = .ok t' ↔ (∃ b, t.file l = some b) ∧ t.WithFile l none t')

/-- Only an empty directory is removed. -/
def LawfulRemoveDir (fs : InstanceFs) : Prop := ∀ t p t' l, p.names = some l →
  (fs.removeDir t p = .ok t' ↔ l ≠ [] ∧ t.node l = some .dir ∧ (∀ m, t.node (m :: l) = none) ∧ t.WithDir l false t')

/-- All that the methods use. -/
structure Lawful (fs : InstanceFs) : Prop where
  metadata : fs.LawfulMetadata
  createDir : fs.LawfulCreateDir
  openFile : fs.LawfulOpen
  files : fs.LawfulFiles
  stat : fs.LawfulStat
  removeFile : fs.LawfulRemoveFile
  removeDir : fs.LawfulRemoveDir

end InstanceFs

/-! ### The methods -/

/-- `String::from_utf8` -/
def fromUtf8 (buffer : Bytes) : Option String := String.fromUTF8? ⟨buffer.toArray⟩

/-- Why a file was not read as a text. -/
inductive TextError where
  | file (e : Error)
  | notUtf8 (message : String)
  deriving DecidableEq

def Action.remove (remove : Tree → Path → Except FsError Tree) (path : Path) : Action FsError Unit := fun t =>
  match remove t path with
  | .ok t' => .ok () t'
  | .error e => .error e t

namespace Instance

variable (fs : InstanceFs)

def vfsReadTextFile (path : String) : EStateM TextError Tree String := do
  let buffer ← Failing.mapError .file (vfsReadFile fs.toVirtualFs path)
  match fromUtf8 buffer with
  | some string => return string
  | none => throw (.notUtf8 ("File '" ++ path ++ "' is not valid UTF-8"))

def vfsWriteTextFile (path content : String) : Action Error Unit :=
  vfsWriteFile fs.toVirtualFs path content.toUTF8.toList

def vfsExists (path : String) (t : Tree) : Bool := (fs.metadata t (Path.new path)).isOk

def vfsStat (path : String) : Action Error Metadata :=
  (Action.ofExcept (fs.stat · (Path.new path))).withContext ("Failed to stat '" ++ path ++ "'")

def vfsRemoveFile (path : String) : Action Error Unit :=
  (Action.remove fs.removeFile (Path.new path)).withContext ("Failed to remove '" ++ path ++ "'")

def vfsRemoveDir (path : String) : Action Error Unit :=
  (Action.remove fs.removeDir (Path.new path)).withContext ("Failed to rmdir '" ++ path ++ "'")

end Instance

/-! ### Calls -/

inductive Call where
  | vfsReadFile (path : String)
  | vfsReadTextFile (path : String)
  | vfsWriteFile (path : String) (content : Bytes)
  | vfsWriteTextFile (path content : String)
  | vfsExists (path : String)
  | vfsStat (path : String)
  | vfsMkdir (path : String)
  | vfsRemoveFile (path : String)
  | vfsRemoveDir (path : String)
  deriving DecidableEq

def Call.path : Call → String
  | .vfsReadFile path | .vfsReadTextFile path | .vfsWriteFile path _ | .vfsWriteTextFile path _ | .vfsExists path
  | .vfsStat path | .vfsMkdir path | .vfsRemoveFile path | .vfsRemoveDir path => path

/-- The path of the call is absolute and without `..`. -/
def Call.Normal (c : Call) : Prop := (Path.new c.path).names.isSome = true

instance (c : Call) : Decidable c.Normal := by unfold Call.Normal; infer_instance

inductive Answer where
  | bytes (r : Except Error Bytes)
  | text (r : Except TextError String)
  | unit (r : Except Error Unit)
  | bool (b : Bool)
  | metadata (r : Except Error Metadata)

/-- What a method came back with, and the tree it left. -/
def respond {ε α : Type} (answer : Except ε α → Answer) : EStateM.Result ε Tree α → Answer × Tree
  | .ok a t => (answer (.ok a), t)
  | .error e t => (answer (.error e), t)

def Instance.call (fs : InstanceFs) (t : Tree) : Call → Answer × Tree
  | .vfsReadFile path => respond .bytes (vfsReadFile fs.toVirtualFs path t)
  | .vfsReadTextFile path => respond .text (vfsReadTextFile fs path t)
  | .vfsWriteFile path content => respond .unit (vfsWriteFile fs.toVirtualFs path content t)
  | .vfsWriteTextFile path content => respond .unit (vfsWriteTextFile fs path content t)
  | .vfsExists path => (.bool (vfsExists fs path t), t)
  | .vfsStat path => respond .metadata (vfsStat fs path t)
  | .vfsMkdir path => respond .unit (vfsMkdir fs.toVirtualFs path t)
  | .vfsRemoveFile path => respond .unit (vfsRemoveFile fs path t)
  | .vfsRemoveDir path => respond .unit (vfsRemoveDir fs path t)

/-! ### The files alone -/

/-- The contents of the files, by their places. -/
abbrev Files : Type := List String → Option Bytes

def Files.set (files : Files) (path : String) (contents : Option Bytes) : Files :=
  match (Path.new path).names with
  | some l => Function.update files l contents
  | none => files

/-- What a call does to the files: nothing, unless it is a write or a removal that succeeded. -/
def Files.record (files : Files) : Call → Answer → Files
  | .vfsWriteFile path content, .unit (.ok ()) => files.set path (some content)
  | .vfsWriteTextFile path content, .unit (.ok ()) => files.set path (some content.toUTF8.toList)
  | .vfsRemoveFile path, .unit (.ok ()) => files.set path none
  | _, _ => files

/-- What a tree says about the answer to a call whose path leads to a place. -/
inductive ExplainsAt (t : Tree) (l : List String) : Call → Answer → Prop where
  | vfsReadFile {path : String} {r : Except Error Bytes} (h : r.toOption = t.file l) :
      ExplainsAt t l (.vfsReadFile path) (.bytes r)
  | vfsReadTextFile {path : String} {r : Except TextError String} (h : r.toOption = t.file l >>= fromUtf8) :
      ExplainsAt t l (.vfsReadTextFile path) (.text r)
  | vfsWriteFile {path : String} {content : Bytes} {r : Except Error Unit}
      (h : r.isOk = true ↔ l ≠ [] ∧ NoFileAbove t l) : ExplainsAt t l (.vfsWriteFile path content) (.unit r)
  | vfsWriteTextFile {path content : String} {r : Except Error Unit}
      (h : r.isOk = true ↔ l ≠ [] ∧ NoFileAbove t l) : ExplainsAt t l (.vfsWriteTextFile path content) (.unit r)
  | vfsExists {path : String} {b : Bool} (h : b = true ↔ t.node l ≠ none) : ExplainsAt t l (.vfsExists path) (.bool b)
  | vfsStat {path : String} {r : Except Error Metadata}
      (hfile : ∀ b, t.node l = some (.file b) → r = .ok ⟨.file, b.length⟩)
      (hdir : t.node l = some .dir → ∃ n, r = .ok ⟨.dir, n⟩) (hnone : t.node l = none → r.isOk = false) :
      ExplainsAt t l (.vfsStat path) (.metadata r)
  | vfsMkdir {path : String} {r : Except Error Unit} (h : r.isOk = true ↔ NoFileAbove t l) :
      ExplainsAt t l (.vfsMkdir path) (.unit r)
  | vfsRemoveFile {path : String} {r : Except Error Unit} (h : r.isOk = true ↔ t.file l ≠ none) :
      ExplainsAt t l (.vfsRemoveFile path) (.unit r)
  | vfsRemoveDir {path : String} {r : Except Error Unit}
      (h : r.isOk = true ↔ l ≠ [] ∧ t.node l = some .dir ∧ ∀ n, t.node (n :: l) = none) :
      ExplainsAt t l (.vfsRemoveDir path) (.unit r)

/-- The tree that a call is given explains the answer. -/
def Explains (t : Tree) (c : Call) (a : Answer) : Prop := ∃ l, (Path.new c.path).names = some l ∧ ExplainsAt t l c a

variable {fs : InstanceFs} {t t' : Tree} {path : String} {l : List String} {b : Bytes}

theorem Files.set_of_names {files : Files} {c : Option Bytes} (hl : (Path.new path).names = some l) :
    files.set path c = Function.update files l c := by
  rw [set, hl]

theorem isOk_ok {ε α : Type} {a : α} : (Except.ok a : Except ε α).isOk = true := rfl

theorem not_isOk_error {ε α : Type} {e : ε} : ¬(Except.error e : Except ε α).isOk = true := Bool.false_ne_true

theorem withContext_error {α : Type} {message : String} {x : Action FsError α} {e : Error}
    (h : x.withContext message t = .error e t') : ∃ e, x t = .error e t' := by
  obtain ⟨e, he, -⟩ := Failing.mapError_error.mp h
  exact ⟨e, he⟩

/-! ### Reading -/

/-- A read that fails leaves everything as it is. -/
theorem vfsReadFile_error (ho : fs.LawfulOpen) {e : Error}
    (h : Instance.vfsReadFile fs.toVirtualFs path t = .error e t') : t' = t := by
  rcases Failing.bind_error.mp h with h | ⟨l, t₁, hopen, h⟩
  · obtain ⟨e, he⟩ := withContext_error h
    unfold Action.openFile at he
    split at he <;> cases he
    rfl
  · obtain ⟨-, hopens⟩ := (ho _ _ _ _ _ rfl).mp (openFile_action_ok.mp (withContext_ok.mp hopen))
    obtain ⟨e, he⟩ := withContext_error h
    have hkept : t' = t₁ := by
      unfold Action.ofExcept Failing.ofExcept at he
      split at he <;> cases he
      rfl
    cases hopens with
    | keep => exact hkept
    | truncate _ htruncate => cases htruncate
    | create _ _ hcreate => cases hcreate

/-- A read gives the contents of the file, if there is one. -/
theorem vfsReadFile_answer (ho : fs.LawfulOpen) (hf : fs.LawfulFiles) (t : Tree) (hl : (Path.new path).names = some l) :
    (∃ b, t.file l = some b ∧ Instance.vfsReadFile fs.toVirtualFs path t = .ok b t) ∨
      t.file l = none ∧ ∃ e, Instance.vfsReadFile fs.toVirtualFs path t = .error e t := by
  cases h : Instance.vfsReadFile fs.toVirtualFs path t with
  | ok b t' =>
    obtain ⟨rfl, k, hk, hb⟩ := (vfsReadFile_ok ho hf).mp h
    rw [hl] at hk
    cases hk
    exact .inl ⟨b, hb, rfl⟩
  | error e t' =>
    obtain rfl := vfsReadFile_error ho h
    refine .inr ⟨?_, e, rfl⟩
    rw [Option.eq_none_iff_forall_ne_some]
    intro b hb
    have hok := (vfsReadFile_ok ho hf).mpr ⟨rfl, l, hl, hb⟩
    rw [h] at hok
    cases hok

/-! ### Directories and files that are created -/

theorem Made.file_eq {p : Path} {r : EStateM.Result FsError Tree Unit} (h : Made t p r) :
    (Failing.final r).file = t.file := by
  cases r with
  | ok u t' => exact (h.onlyDirs u t' rfl).file_eq
  | error e t' => exact (h.onlyDirs_error e t' rfl).file_eq

theorem vfsMkdir_made (hm : fs.LawfulMetadata) (hc : fs.LawfulCreateDir) (t : Tree)
    (hl : (Path.new path).names = some l) :
    Made t (Path.new path) (Instance.createDirAllInternal fs.toVirtualFs (Path.new path) t) :=
  createDirAllInternal_made hm hc _ (Path.isAbsolute_of_locate (Path.locate_of_names hl))

theorem vfsMkdir_file_eq (hm : fs.LawfulMetadata) (hc : fs.LawfulCreateDir) (t : Tree)
    (hl : (Path.new path).names = some l) :
    (Failing.final (Instance.vfsMkdir fs.toVirtualFs path t)).file = t.file := by
  rw [← (vfsMkdir_made hm hc t hl).file_eq]
  unfold Instance.vfsMkdir Action.withContext Failing.mapError
  cases Instance.createDirAllInternal fs.toVirtualFs (Path.new path) t <;> rfl

/-- A write succeeds exactly if the path is not the root and no file is above it. -/
theorem vfsWriteFile_iff (hfs : fs.Lawful) (hl : (Path.new path).names = some l) :
    (∃ t', Instance.vfsWriteFile fs.toVirtualFs path b t = .ok () t') ↔ l ≠ [] ∧ NoFileAbove t l := by
  constructor
  · rintro ⟨t', h⟩
    obtain ⟨q, n, k, t₁, hw⟩ := vfsWrote_of_ok hfs.metadata hfs.createDir hfs.openFile hfs.files h
    rw [hw.path_names] at hl
    cases hl
    have hkeep := hw.onlyDirs.extends_.node
    refine ⟨List.cons_ne_nil n k, noFileAbove_cons_iff.mpr ⟨fun j b hs hne hb => ?_, fun b hb => ?_⟩⟩
    · have hparent : t₁.node k ≠ none := by
        rw [hw.parent]
        exact Option.some_ne_none _
      exact noFileAbove_of_exists hparent j b hs hne (hkeep j _ hb)
    · have := hkeep k _ hb
      rw [hw.parent] at this
      cases this
  · rintro ⟨hne, hno⟩
    obtain ⟨n, k, rfl⟩ := List.exists_cons_of_ne_nil hne
    obtain ⟨habove, hfile⟩ := noFileAbove_cons_iff.mp hno
    obtain ⟨q, -, hq, -, hmade⟩ := createParents_made hfs.metadata hfs.createDir t hl
    obtain ⟨t₁, hparents⟩ := (hmade.ok_iff_noFileAbove hq).mpr habove
    have hdir : t₁.node k = some .dir := by
      obtain ⟨j, hj, hnode⟩ := hmade.exists_ () t₁ hparents q (Path.self_mem_ancestors q)
      rw [Path.locate_of_names hq] at hj
      cases hj
      rcases hd : t₁.node k with - | - | b
      · exact absurd hd hnode
      · rfl
      · exact absurd ((hmade.onlyDirs () t₁ hparents).file_iff.mp hd) (hfile b)
    have hwritable : Writable t₁ (n :: k) := ⟨n, k, rfl, hdir⟩
    obtain ⟨t', hwith⟩ := hwritable.exists_tree (some b)
    exact ⟨t', (vfsWriteFile_ok hfs.openFile hfs.files).mpr ⟨t₁, hparents, n :: k, hl, hwritable, hwith⟩⟩

/-- A write that fails has changed no file: once the file is open, nothing can fail any more. -/
theorem vfsWriteFile_error (hfs : fs.Lawful) (hl : (Path.new path).names = some l) {e : Error}
    (h : Instance.vfsWriteFile fs.toVirtualFs path b t = .error e t') : t'.file = t.file := by
  have hparents : (Failing.final (Instance.createParents fs.toVirtualFs (Path.new path) t)).file = t.file := by
    cases l with
    | nil =>
      cases hp : Path.new path with
      | empty => rfl
      | root => rfl
      | join q c =>
        rw [hp] at hl
        obtain ⟨_, _, -, -, h⟩ := Path.names_join hl
        cases h
    | cons n k =>
      obtain ⟨_, -, -, -, hmade⟩ := createParents_made hfs.metadata hfs.createDir t hl
      exact hmade.file_eq
  rcases Failing.bind_error.mp h with h | ⟨_, t₁, hok, h⟩
  · obtain ⟨e, he⟩ := withContext_error h
    rwa [he] at hparents
  rw [withContext_ok.mp hok] at hparents
  rcases Failing.bind_error.mp h with h | ⟨k, t₂, hopen, h⟩
  · obtain ⟨e, he⟩ := withContext_error h
    unfold Action.openFile at he
    split at he <;> cases he
    exact hparents
  obtain ⟨-, hopens⟩ := (hfs.openFile _ _ _ _ _ rfl).mp (openFile_action_ok.mp (withContext_ok.mp hopen))
  have hfile : t₂.file k = some [] := ((opens_create rfl rfl).mp hopens).2.file_self
  obtain ⟨t₃, hw⟩ : ∃ t₃, fs.writeAll t₂ k b = .ok t₃ := by
    have hwritable : Writable t₂ k := writable_of_file (by rw [hfile]; exact Option.some_ne_none _)
    obtain ⟨t₃, hwith⟩ := hwritable.exists_tree (some (b ++ ([] : Bytes).drop b.length))
    exact ⟨t₃, (hfs.files.writeAll_ok _ _ _ _).mpr ⟨[], hfile, hwith⟩⟩
  rcases Failing.bind_error.mp h with h | ⟨_, t₄, hw', h⟩
  · obtain ⟨e, he⟩ := withContext_error h
    unfold Action.writeAll at he
    rw [hw] at he
    cases he
  · obtain ⟨e, he⟩ := withContext_error h
    obtain ⟨b', -, hwith⟩ := (hfs.files.writeAll_ok _ _ _ _).mp (writeAll_action_ok.mp (withContext_ok.mp hw'))
    have hflush : fs.flush t₄ k = .ok () := hfs.files.flush_ok _ _ _ hwith.file_self
    simp only [Action.ofExcept, Failing.ofExcept, hflush] at he
    cases he

/-- What a write answers and leaves. -/
theorem vfsWriteFile_answer (hfs : fs.Lawful) (t : Tree) (hl : (Path.new path).names = some l) :
    (∃ t', Instance.vfsWriteFile fs.toVirtualFs path b t = .ok () t' ∧ (l ≠ [] ∧ NoFileAbove t l) ∧
        t'.file = Files.set t.file path (some b)) ∨
      ∃ e t', Instance.vfsWriteFile fs.toVirtualFs path b t = .error e t' ∧ ¬(l ≠ [] ∧ NoFileAbove t l) ∧
        t'.file = t.file := by
  cases h : Instance.vfsWriteFile fs.toVirtualFs path b t with
  | ok u t' =>
    obtain ⟨q, n, k, t₁, hw⟩ := vfsWrote_of_ok hfs.metadata hfs.createDir hfs.openFile hfs.files h
    refine .inl ⟨t', rfl, (vfsWriteFile_iff hfs hl).mp ⟨t', h⟩, ?_⟩
    rw [Files.set_of_names hw.path_names, hw.with_.file, hw.onlyDirs.file_eq]
  | error e t' =>
    refine .inr ⟨e, t', rfl, fun hok => ?_, vfsWriteFile_error hfs hl h⟩
    obtain ⟨t₁, h₁⟩ := (vfsWriteFile_iff (b := b) hfs hl).mpr hok
    rw [h] at h₁
    cases h₁

/-! ### What is found and removed -/

theorem vfsStat_eq : respond .metadata (Instance.vfsStat fs path t) =
    (.metadata ((fs.stat t (Path.new path)).mapError (.context ("Failed to stat '" ++ path ++ "'"))), t) := by
  unfold Instance.vfsStat Action.withContext Failing.mapError Action.ofExcept Failing.ofExcept
  cases h : fs.stat t (Path.new path) with
  | ok m => simp only [h, respond, Except.mapError]
  | error e => simp only [h, respond, Except.mapError]

theorem vfsExists_iff (hm : fs.LawfulMetadata) (hl : (Path.new path).names = some l) :
    Instance.vfsExists fs path t = true ↔ t.node l ≠ none := by
  unfold Instance.vfsExists
  rw [hm, hl]
  simp only [Option.some.injEq, exists_eq_left']

/-- Where nothing is found, `stat` fails. -/
theorem stat_none (hm : fs.LawfulMetadata) (hs : fs.LawfulStat) (hl : (Path.new path).names = some l)
    (h : t.node l = none) : ∃ e, fs.stat t (Path.new path) = .error e := by
  cases hstat : fs.stat t (Path.new path) with
  | error e => exact ⟨e, rfl⟩
  | ok m =>
    have hexists : Instance.vfsExists fs path t = true := by
      unfold Instance.vfsExists
      rw [hs.metadata_eq, hstat]
      rfl
    exact absurd h ((vfsExists_iff hm hl).mp hexists)

theorem remove_ok {remove : Tree → Path → Except FsError Tree} {p : Path} {u : Unit} :
    Action.remove remove p t = .ok u t' ↔ remove t p = .ok t' := by
  unfold Action.remove
  cases remove t p with
  | ok t₁ => exact ⟨fun h => (by cases h; rfl), fun h => (by cases h; rfl)⟩
  | error e => exact iff_of_false (fun h => by cases h) (fun h => by cases h)

theorem remove_error {remove : Tree → Path → Except FsError Tree} {p : Path} {e : FsError}
    (h : Action.remove remove p t = .error e t') : t' = t := by
  unfold Action.remove at h
  split at h <;> cases h
  rfl

/-- A removal succeeds exactly if what it removes is there. One that fails leaves everything as it is. -/
theorem remove_answer {remove : Tree → Path → Except FsError Tree} {p : Path} {message : String} {P : Prop}
    (hremove : (∃ t', remove t p = .ok t') ↔ P) :
    (∃ t', (Action.remove remove p).withContext message t = .ok () t' ∧ P ∧ remove t p = .ok t') ∨
      ∃ e, (Action.remove remove p).withContext message t = .error e t ∧ ¬P := by
  cases h : (Action.remove remove p).withContext message t with
  | ok u t' =>
    have hok := remove_ok.mp (withContext_ok.mp h)
    exact .inl ⟨t', rfl, hremove.mp ⟨t', hok⟩, hok⟩
  | error e t' =>
    obtain ⟨e', he⟩ := withContext_error h
    obtain rfl := remove_error he
    refine .inr ⟨e, rfl, fun hP => ?_⟩
    obtain ⟨t₁, hok⟩ := hremove.mpr hP
    rw [(remove_ok (u := ())).mpr hok] at he
    cases he

theorem removeFile_iff (hr : fs.LawfulRemoveFile) {p : Path} (hl : p.names = some l) :
    (∃ t', fs.removeFile t p = .ok t') ↔ t.file l ≠ none := by
  simp only [hr _ _ _ _ hl]
  constructor
  · rintro ⟨_, ⟨b, hb⟩, -⟩
    rw [hb]
    exact Option.some_ne_none b
  · intro h
    obtain ⟨t', hwith⟩ := (writable_of_file h).exists_tree none
    exact ⟨t', Option.ne_none_iff_exists'.mp h, hwith⟩

theorem removeDir_iff (hr : fs.LawfulRemoveDir) {p : Path} (hl : p.names = some l) :
    (∃ t', fs.removeDir t p = .ok t') ↔ l ≠ [] ∧ t.node l = some .dir ∧ ∀ n, t.node (n :: l) = none := by
  simp only [hr _ _ _ _ hl]
  constructor
  · rintro ⟨_, hne, hdir, hempty, -⟩
    exact ⟨hne, hdir, hempty⟩
  · rintro ⟨hne, hdir, hempty⟩
    exact ⟨t.removeDir l hne hempty, hne, hdir, hempty, rfl, rfl⟩

/-! ### Every call -/

theorem vfsReadTextFile_eq (h : Instance.vfsReadFile fs.toVirtualFs path t = .ok b t') :
    Instance.vfsReadTextFile fs path t = match fromUtf8 b with
      | some string => .ok string t'
      | none => .error (.notUtf8 ("File '" ++ path ++ "' is not valid UTF-8")) t' := by
  rw [Instance.vfsReadTextFile, Failing.bind_of_ok (Failing.mapError_ok.mpr h)]
  cases fromUtf8 b <;> rfl

/-- The tree explains the answer, and the files change as the answer says. -/
theorem call_explained (hfs : fs.Lawful) (t : Tree) (c : Call) (hl : (Path.new c.path).names = some l) :
    ExplainsAt t l c (Instance.call fs t c).1 ∧
      (Instance.call fs t c).2.file = Files.record t.file c (Instance.call fs t c).1 := by
  cases c with
  | vfsReadFile path =>
    rw [Call.path] at hl
    simp only [Instance.call]
    rcases vfsReadFile_answer hfs.openFile hfs.files t hl with ⟨b, hb, hr⟩ | ⟨hb, e, hr⟩
    · rw [hr]
      exact ⟨.vfsReadFile hb.symm, rfl⟩
    · rw [hr]
      exact ⟨.vfsReadFile hb.symm, rfl⟩
  | vfsReadTextFile path =>
    rw [Call.path] at hl
    simp only [Instance.call]
    rcases vfsReadFile_answer hfs.openFile hfs.files t hl with ⟨b, hb, hr⟩ | ⟨hb, e, hr⟩
    · rw [vfsReadTextFile_eq hr]
      cases hutf8 : fromUtf8 b with
      | some string => exact ⟨.vfsReadTextFile (by rw [hb]; exact hutf8.symm), rfl⟩
      | none => exact ⟨.vfsReadTextFile (by rw [hb]; exact hutf8.symm), rfl⟩
    · have htext : Instance.vfsReadTextFile fs path t = .error (.file e) t :=
        Failing.bind_error.mpr (.inl (Failing.mapError_error.mpr ⟨e, hr, rfl⟩))
      rw [htext]
      exact ⟨.vfsReadTextFile (by rw [hb]; rfl), rfl⟩
  | vfsWriteFile path content =>
    rw [Call.path] at hl
    simp only [Instance.call]
    rcases vfsWriteFile_answer (b := content) hfs t hl with ⟨t', hr, hok, hfile⟩ | ⟨e, t', hr, hno, hfile⟩
    · rw [hr]
      exact ⟨.vfsWriteFile (iff_of_true isOk_ok hok), hfile⟩
    · rw [hr]
      exact ⟨.vfsWriteFile (iff_of_false not_isOk_error hno), hfile⟩
  | vfsWriteTextFile path content =>
    rw [Call.path] at hl
    simp only [Instance.call, Instance.vfsWriteTextFile]
    rcases vfsWriteFile_answer (b := content.toUTF8.toList) hfs t hl with ⟨t', hr, hok, hfile⟩ | ⟨e, t', hr, hno, hfile⟩
    · rw [hr]
      exact ⟨.vfsWriteTextFile (iff_of_true isOk_ok hok), hfile⟩
    · rw [hr]
      exact ⟨.vfsWriteTextFile (iff_of_false not_isOk_error hno), hfile⟩
  | vfsExists path =>
    rw [Call.path] at hl
    exact ⟨.vfsExists (vfsExists_iff hfs.metadata hl), rfl⟩
  | vfsStat path =>
    rw [Call.path] at hl
    simp only [Instance.call, vfsStat_eq]
    refine ⟨.vfsStat (fun b hb => ?_) (fun hdir => ?_) (fun hnone => ?_), rfl⟩
    · rw [hfs.stat.file t _ l b hl hb]
      rfl
    · obtain ⟨n, hn⟩ := hfs.stat.dir t _ l hl hdir
      exact ⟨n, by rw [hn]; rfl⟩
    · obtain ⟨e, he⟩ := stat_none hfs.metadata hfs.stat hl hnone
      rw [he]
      rfl
  | vfsMkdir path =>
    rw [Call.path] at hl
    have hfile := vfsMkdir_file_eq hfs.metadata hfs.createDir t hl
    have hok := (vfsMkdir_made hfs.metadata hfs.createDir t hl).ok_iff_noFileAbove hl
    simp only [← vfsMkdir_ok] at hok
    simp only [Instance.call]
    cases h : Instance.vfsMkdir fs.toVirtualFs path t with
    | ok u t' =>
      rw [h] at hfile
      exact ⟨.vfsMkdir (iff_of_true isOk_ok (hok.mp ⟨t', h⟩)), hfile⟩
    | error e t' =>
      rw [h] at hfile
      refine ⟨.vfsMkdir (iff_of_false not_isOk_error fun hno => ?_), hfile⟩
      obtain ⟨t₁, h₁⟩ := hok.mpr hno
      rw [h] at h₁
      cases h₁
  | vfsRemoveFile path =>
    rw [Call.path] at hl
    simp only [Instance.call, Instance.vfsRemoveFile]
    rcases remove_answer (removeFile_iff hfs.removeFile hl) with ⟨t', hr, hb, hok⟩ | ⟨e, hr, hb⟩
    · rw [hr]
      refine ⟨.vfsRemoveFile (iff_of_true isOk_ok hb), ?_⟩
      show t'.file = Files.set t.file path none
      rw [((hfs.removeFile _ _ _ _ hl).mp hok).2.file, Files.set_of_names hl]
    · rw [hr]
      exact ⟨.vfsRemoveFile (iff_of_false not_isOk_error hb), rfl⟩
  | vfsRemoveDir path =>
    rw [Call.path] at hl
    simp only [Instance.call, Instance.vfsRemoveDir]
    rcases remove_answer (removeDir_iff hfs.removeDir hl) with ⟨t', hr, hempty, hok⟩ | ⟨e, hr, hempty⟩
    · rw [hr]
      obtain ⟨-, -, -, hwith⟩ := (hfs.removeDir _ _ _ _ hl).mp hok
      exact ⟨.vfsRemoveDir (iff_of_true isOk_ok hempty), hwith.file⟩
    · rw [hr]
      exact ⟨.vfsRemoveDir (iff_of_false not_isOk_error hempty), rfl⟩

/-- Over any sequence of calls with absolute paths without `..`, from any tree: the files are those that the calls before
    left, of which only the writes and removals that succeeded count, and the tree with these files explains the next
    answer. -/
theorem vfs_history (hfs : fs.Lawful) (t : Tree) (cs : List Call) (hcs : ∀ c ∈ cs, c.Normal)
    {before after : List (Call × Answer)} {c : Call} {a : Answer}
    (h : cs.zip (Calls.specified (Instance.call fs) t cs).1 = before ++ (c, a) :: after) :
    (Calls.specified (Instance.call fs) t (before.map Prod.fst)).2.file =
        before.foldl (fun files x => Files.record files x.1 x.2) t.file ∧
      Explains (Calls.specified (Instance.call fs) t (before.map Prod.fst)).2 c a := by
  have hstep : ∀ t (c : Call), c.Normal → Explains t c (Instance.call fs t c).1 ∧
      (Instance.call fs t c).2.file = Files.record t.file c (Instance.call fs t c).1 := by
    intro t c hc
    obtain ⟨l, hl⟩ := Option.isSome_iff_exists.mp hc
    obtain ⟨hexplains, hfile⟩ := call_explained hfs t c hl
    exact ⟨⟨l, hl, hexplains⟩, hfile⟩
  exact Calls.specified_explained hstep t cs hcs h

/-! ### A file system that behaves so -/

namespace MemFs

def stat (t : Tree) (p : Path) : Except FsError Metadata :=
  match p.names with
  | none => .error .entryNotFound
  | some l =>
    match t.node l with
    | some .dir => .ok ⟨.dir, 0⟩
    | some (.file b) => .ok ⟨.file, b.length⟩
    | none => .error .entryNotFound

/-- A file of that name is looked for in the parent directory, and nothing else. -/
def removeFile (t : Tree) (p : Path) : Except FsError Tree :=
  match p.names with
  | none => .error .invalidInput
  | some [] => .error .baseNotDirectory
  | some (n :: l) =>
    if hl : t.dir l = true then
      match t.file (n :: l) with
      | some _ => .ok (t.setFile n l none hl)
      | none => .error .entryNotFound
    else .error .baseNotDirectory

noncomputable def removeDir (t : Tree) (p : Path) : Except FsError Tree :=
  open Classical in
  match p.names with
  | none => .error .invalidInput
  | some l =>
    if h : l ≠ [] ∧ t.node l = some .dir ∧ ∀ n, t.node (n :: l) = none then .ok (t.removeDir l h.1 h.2.2)
    else .error .other

end MemFs

noncomputable def memInstanceFs : InstanceFs where
  toVirtualFs := memFs
  stat := MemFs.stat
  removeFile := MemFs.removeFile
  removeDir := MemFs.removeDir

theorem memInstanceFs_stat : memInstanceFs.LawfulStat where
  metadata_eq t p := by
    show MemFs.metadata t p = (MemFs.stat t p).map _
    unfold MemFs.metadata MemFs.stat
    cases p.names with
    | none => rfl
    | some l => rcases ht : t.node l with - | - | b <;> simp [Except.map, ht]
  file t p l b hl hb := by
    show MemFs.stat t p = _
    unfold MemFs.stat
    rw [hl]
    simp only [hb]
  dir t p l hl hdir := by
    refine ⟨0, ?_⟩
    show MemFs.stat t p = _
    unfold MemFs.stat
    rw [hl]
    simp only [hdir]

theorem memInstanceFs_removeFile : memInstanceFs.LawfulRemoveFile := by
  intro t p t' l hl
  show MemFs.removeFile t p = _ ↔ _
  unfold MemFs.removeFile
  rw [hl]
  cases l with
  | nil =>
    refine iff_of_false (fun h => by cases h) ?_
    rintro ⟨⟨b, hb⟩, -⟩
    rw [t.rootFile] at hb
    cases hb
  | cons n k =>
    cases hb : t.file (n :: k) with
    | none =>
      simp only [hb]
      refine iff_of_false (fun h => ?_) ?_
      · split at h <;> cases h
      · rintro ⟨⟨_, h⟩, -⟩
        cases h
    | some b =>
      have hdir : t.dir k = true := t.above n k (.inr (by rw [hb]; exact Option.some_ne_none _))
      have hwith := FileTree.Tree.setFile_withFile (n := n) (x := none) hdir
      simp only [dif_pos hdir, hb, Except.ok.injEq]
      exact ⟨fun h => ⟨⟨b, rfl⟩, h ▸ hwith⟩, fun h => hwith.eq h.2⟩

theorem memInstanceFs_removeDir : memInstanceFs.LawfulRemoveDir := by
  intro t p t' l hl
  show MemFs.removeDir t p = _ ↔ _
  unfold MemFs.removeDir
  rw [hl]
  simp only
  split
  · rename_i h
    have hwith : t.WithDir l false (t.removeDir l h.1 h.2.2) := ⟨rfl, rfl⟩
    simp only [Except.ok.injEq]
    exact ⟨fun heq => ⟨h.1, h.2.1, h.2.2, heq ▸ hwith⟩, fun hall => hwith.eq hall.2.2.2⟩
  · rename_i h
    exact iff_of_false (fun heq => by cases heq) fun hall => h ⟨hall.1, hall.2.1, hall.2.2.1⟩

theorem memInstanceFs_lawful : memInstanceFs.Lawful where
  metadata := memFs_metadata
  createDir := memFs_createDir
  openFile := memFs_open
  files := memFs_files
  stat := memInstanceFs_stat
  removeFile := memInstanceFs_removeFile
  removeDir := memInstanceFs_removeDir

/-- A file is written, one that a directory hides as well, which is read, and then the first one again. -/
def writtenTwice : List (Call × Answer) :=
  [(.vfsWriteFile "/a" [1, 2, 3], .unit (.ok ())), (.vfsMkdir "/b", .unit (.ok ())),
    (.vfsWriteFile "/b" [5], .unit (.ok ())), (.vfsReadFile "/b", .bytes (.ok [5])),
    (.vfsWriteFile "/a" [4], .unit (.ok ()))]

def writtenTwiceCalls : List Call := writtenTwice.map Prod.fst ++ [.vfsReadFile "/a"]

theorem vfs_history_written_twice : ∃ t : Tree,
    t.file = writtenTwice.foldl (fun files x => Files.record files x.1 x.2) FileTree.Tree.empty.file ∧
      Explains t (.vfsReadFile "/a") (.bytes (.ok [4])) := by
  have hcs : ∀ c ∈ writtenTwiceCalls, c.Normal := by decide
  have hrun : writtenTwiceCalls.zip (Calls.specified (Instance.call memInstanceFs) .empty writtenTwiceCalls).1 =
      writtenTwice ++ (.vfsReadFile "/a", .bytes (.ok [4])) :: [] := rfl
  exact ⟨_, vfs_history memInstanceFs_lawful .empty writtenTwiceCalls hcs hrun⟩

end Fs
end WasmerJs
