import WasmerJs.Lib.FileTree
import WasmerJs.Pipe.Memory

/-! Paths, and the in-memory file system that a `Directory` and an `Instance` work on. The file system is not part of
    the repository: its operations are parameters, known by what they do to the tree of its files. -/

namespace WasmerJs
namespace Fs
open FileTree

/-! ### Paths -/

inductive Component where
  | curDir
  | parentDir
  | normal (name : String)
  deriving DecidableEq

/-- A `Path`, as `parent` takes it apart. -/
inductive Path where
  -- The path without components.
  | empty
  | root
  | join (parent : Path) (last : Component)
  deriving DecidableEq

namespace Path

def parent : Path → Option Path
  | .empty => none
  | .root => none
  | .join p _ => some p

/-- The path and all its parents, the longest first. -/
def ancestors : Path → List Path
  | .empty => [.empty]
  | .root => [.root]
  | .join p c => .join p c :: p.ancestors

def isAbsolute : Path → Bool
  | .empty => false
  | .root => true
  | .join p _ => p.isAbsolute

/-- One more piece between slashes. Empty ones and dots do not count. -/
def push (p : Path) (piece : List Char) : Path :=
  if piece = [] ∨ piece = ['.'] then p
  else if piece = ['.', '.'] then .join p .parentDir
  else .join p (.normal (String.ofList piece))

/-- The components of a path before the first slash. A dot counts if the path begins with it. -/
def start (piece : List Char) (rooted : Bool) : Path :=
  if piece = [] then if rooted then .root else .empty
  else if piece = ['.'] then .join .empty .curDir
  else push .empty piece

/-- `Path::new` -/
def new (s : String) : Path :=
  match s.toList.splitOn '/' with
  | [] => .empty
  | piece :: pieces => pieces.foldl push (start piece (!pieces.isEmpty))

/-- Where the path leads to, when `..` takes the last name away. -/
def locate : Path → Option (List String)
  | .empty => none
  | .root => some []
  | .join p .curDir => p.locate
  | .join p .parentDir => p.locate >>= List.tail?
  | .join p (.normal n) => p.locate.map (n :: ·)

/-- The names of an absolute path that has no `..`. -/
def names : Path → Option (List String)
  | .empty => none
  | .root => some []
  | .join p (.normal n) => p.names.map (n :: ·)
  | .join _ .curDir => none
  | .join _ .parentDir => none

theorem names_join {p : Path} {c : Component} {l : List String} (h : (join p c).names = some l) :
    ∃ n m, c = .normal n ∧ p.names = some m ∧ l = n :: m := by
  cases c with
  | curDir => cases h
  | parentDir => cases h
  | normal n =>
    obtain ⟨m, hm, rfl⟩ := Option.map_eq_some_iff.mp h
    exact ⟨n, m, rfl, hm, rfl⟩

theorem locate_of_names {p : Path} {l : List String} (h : p.names = some l) : p.locate = some l := by
  induction p generalizing l with
  | empty => exact h
  | root => exact h
  | join p c ih =>
    obtain ⟨n, k, rfl, hk, rfl⟩ := names_join h
    exact Option.map_eq_some_iff.mpr ⟨k, ih hk, rfl⟩

end Path

/-- The slash that every method of `Directory` puts in front of a path. -/
def slashed (path : String) : String := if path.toList.head? = some '/' then path else "/" ++ path

theorem Path.locate_of_push {p : Path} {piece : List Char} (h : p.locate = none) : (p.push piece).locate = none := by
  unfold Path.push
  split
  · exact h
  · split
    · rw [Path.locate, h]
      rfl
    · rw [Path.locate, h]
      rfl

theorem Path.locate_of_start {piece : List Char} {rooted : Bool} (h : piece ≠ []) :
    (Path.start piece rooted).locate = none := by
  unfold Path.start
  rw [if_neg h]
  split
  · rfl
  · exact Path.locate_of_push rfl

/-- A path that leads anywhere begins with a slash. -/
theorem slashed_of_locate {path : String} {l : List String} (h : (Path.new path).locate = some l) :
    slashed path = path := by
  unfold slashed
  rw [if_pos]
  by_contra hhead
  have hfold : ∀ (pieces : List (List Char)) (p : Path), p.locate = none → (pieces.foldl Path.push p).locate = none := by
    intro pieces
    induction pieces with
    | nil => exact fun p hp => hp
    | cons piece pieces ih => exact fun p hp => ih _ (Path.locate_of_push hp)
  unfold Path.new at h
  cases hchars : path.toList with
  | nil =>
    rw [hchars] at h
    cases h
  | cons c cs =>
    have hc : (c == '/') = false := by
      rw [hchars, List.head?_cons, Option.some.injEq] at hhead
      exact beq_false_of_ne hhead
    obtain ⟨piece, pieces, hsplit⟩ := List.exists_cons_of_ne_nil (List.splitOn_ne_nil '/' cs)
    have hsplit' : (c :: cs).splitOn '/' = (c :: piece) :: pieces := by
      rw [List.splitOn_eq_splitOnP, List.splitOnP_cons_eq_if_modifyHead, hc, ← List.splitOn_eq_splitOnP, hsplit]
      rfl
    rw [hchars, hsplit'] at h
    rw [hfold _ _ (Path.locate_of_start (List.cons_ne_nil c piece))] at h
    cases h

theorem Path.isAbsolute_of_locate {p : Path} {l : List String} (h : p.locate = some l) : p.isAbsolute = true := by
  induction p generalizing l with
  | empty => cases h
  | root => rfl
  | join p c ih =>
    cases c with
    | curDir => exact ih h
    | parentDir =>
      obtain ⟨k, hk, -⟩ := Option.bind_eq_some_iff.mp h
      exact ih hk
    | normal n =>
      obtain ⟨k, hk, -⟩ := Option.map_eq_some_iff.mp h
      exact ih hk

/-! ### The file system -/

inductive FsError where
  | alreadyExists
  | baseNotDirectory
  | entryNotFound
  | invalidInput
  | permissionDenied
  | other
  deriving DecidableEq

structure OpenOptions where
  read : Bool := false
  write : Bool := false
  create : Bool := false
  createNew : Bool := false
  truncate : Bool := false
  deriving DecidableEq

abbrev Tree : Type := FileTree.Tree String Bytes

inductive FileType where
  | dir
  | file
  deriving DecidableEq

/-- The operations of `virtual_fs::mem_fs::FileSystem`. A file that is open is known by its place. One that fails
    leaves the tree as it was. -/
structure VirtualFs where
  readDir : Tree → Path → Except FsError (List String)
  metadata : Tree → Path → Except FsError FileType
  createDir : Tree → Path → Except FsError Tree
  openFile : Tree → OpenOptions → Path → Except FsError (Tree × List String)
  writeAll : Tree → List String → Bytes → Except FsError Tree
  readToEnd : Tree → List String → Except FsError Bytes
  flush : Tree → List String → Except FsError Unit

/-! ### What the operations do -/

namespace VirtualFs

/-- `..` is taken away first. -/
def LawfulReadDir (fs : VirtualFs) : Prop :=
  ∀ t p, (fs.readDir t p).isOk = true ↔ ∃ l, p.locate = some l ∧ t.node l = some .dir

/-- Every component is looked up by its name, also a `..`. -/
def LawfulMetadata (fs : VirtualFs) : Prop :=
  ∀ t p, (fs.metadata t p).isOk = true ↔ ∃ l, p.names = some l ∧ t.node l ≠ none

/-- `..` is taken away first. -/
structure LawfulCreateDir (fs : VirtualFs) : Prop where
  ok : ∀ t p t', fs.createDir t p = .ok t' ↔ ∃ n l, p.locate = some (n :: l) ∧ t.node (n :: l) = none ∧
    t.node l = some .dir ∧ t.WithDir (n :: l) true t'
  alreadyExists : ∀ t p, fs.createDir t p = .error .alreadyExists ↔ ∃ l, p.locate = some l ∧ t.node l ≠ none

/-- What becomes of the tree when the file at a place is opened. A directory of the same name does not matter. -/
inductive Opens (t : Tree) (conf : OpenOptions) : List String → Tree → Prop where
  | keep {l : List String} {b : Bytes} : t.file l = some b → conf.truncate = false → Opens t conf l t
  | truncate {l : List String} {b : Bytes} {t' : Tree} : t.file l = some b → conf.truncate = true → conf.write = true →
      t.WithFile l (some []) t' → Opens t conf l t'
  | create {n : String} {l : List String} {t' : Tree} : t.file (n :: l) = none → t.node l = some .dir →
      conf.create = true → conf.write = true → t.WithFile (n :: l) (some []) t' → Opens t conf (n :: l) t'

/-- Every component is looked up by its name. -/
def LawfulOpen (fs : VirtualFs) : Prop := ∀ t conf p t' l, conf.createNew = false →
  (fs.openFile t conf p = .ok (t', l) ↔ p.names = some l ∧ Opens t conf l t')

/-- `create_new` on the standard conditions: nothing is at the place. -/
def LawfulCreateNew (fs : VirtualFs) : Prop := ∀ t conf p t' l, conf.createNew = true → conf.write = true →
  (fs.openFile t conf p = .ok (t', l) ↔ ∃ n k, l = n :: k ∧ p.names = some l ∧ t.node l = none ∧
    t.node k = some .dir ∧ t.WithFile l (some []) t')

/-- A write begins at the start of the file and keeps what is behind its end. -/
structure LawfulFiles (fs : VirtualFs) : Prop where
  writeAll_ok : ∀ t l data t', fs.writeAll t l data = .ok t' ↔
    ∃ b, t.file l = some b ∧ t.WithFile l (some (data ++ b.drop data.length)) t'
  readToEnd_ok : ∀ t l data, fs.readToEnd t l = .ok data ↔ t.file l = some data
  flush_ok : ∀ t l b, t.file l = some b → fs.flush t l = .ok ()

end VirtualFs

/-! ### A file system that behaves so -/

namespace MemFs

def readDir (t : Tree) (p : Path) : Except FsError (List String) :=
  match p.locate with
  | none => .error .invalidInput
  | some l =>
    match t.node l with
    | some .dir => .ok []
    | some (.file _) => .error .invalidInput
    | none => .error .entryNotFound

def metadata (t : Tree) (p : Path) : Except FsError FileType :=
  match p.names with
  | none => .error .entryNotFound
  | some l =>
    match t.node l with
    | some .dir => .ok .dir
    | some (.file _) => .ok .file
    | none => .error .entryNotFound

def createDir (t : Tree) (p : Path) : Except FsError Tree :=
  match p.locate with
  | none => .error .invalidInput
  | some [] => .error .alreadyExists
  | some (n :: l) =>
    if t.node (n :: l) = none then
      if hl : t.dir l = true then .ok (t.makeDir n l hl) else .error .baseNotDirectory
    else .error .alreadyExists

/-- A file of that name is looked for in the parent directory, and nothing else. -/
def openFile (t : Tree) (conf : OpenOptions) (p : Path) : Except FsError (Tree × List String) :=
  if conf.truncate && !conf.createNew && !conf.write then .error .permissionDenied
  else
    match p.names with
    | none => .error .invalidInput
    | some [] => .error .baseNotDirectory
    | some (n :: l) =>
      if hl : t.dir l = true then
        match t.file (n :: l) with
        | some _ =>
          if conf.createNew then .error .alreadyExists
          else if conf.truncate then .ok (t.setFile n l (some []) hl, n :: l)
          else .ok (t, n :: l)
        | none =>
          if (conf.create || conf.createNew) && conf.write then .ok (t.setFile n l (some []) hl, n :: l)
          else .error .entryNotFound
      else .error .baseNotDirectory

def writeAll (t : Tree) (l : List String) (data : Bytes) : Except FsError Tree :=
  match l, t.file l with
  | n :: l, some b =>
    if hl : t.dir l = true then .ok (t.setFile n l (some (data ++ b.drop data.length)) hl) else .error .baseNotDirectory
  | _, _ => .error .entryNotFound

def readToEnd (t : Tree) (l : List String) : Except FsError Bytes :=
  match t.file l with
  | some b => .ok b
  | none => .error .entryNotFound

end MemFs

def memFs : VirtualFs where
  readDir := MemFs.readDir
  metadata := MemFs.metadata
  createDir := MemFs.createDir
  openFile := MemFs.openFile
  writeAll := MemFs.writeAll
  readToEnd := MemFs.readToEnd
  flush _ _ := .ok ()

section MemFs

open FileTree.Tree (node_eq_dir node_eq_file node_eq_none makeDir_withDir setFile_withFile)

theorem memFs_readDir : memFs.LawfulReadDir := by
  intro t p
  show (MemFs.readDir t p).isOk = true ↔ _
  unfold MemFs.readDir
  cases p.locate with
  | none => exact iff_of_false Bool.false_ne_true (fun ⟨_, h, _⟩ => by cases h)
  | some l => rcases ht : t.node l with - | - | b <;> simp [Except.isOk, Except.toBool, ht]

theorem memFs_metadata : memFs.LawfulMetadata := by
  intro t p
  show (MemFs.metadata t p).isOk = true ↔ _
  unfold MemFs.metadata
  cases p.names with
  | none => exact iff_of_false Bool.false_ne_true (fun ⟨_, h, _⟩ => by cases h)
  | some l => rcases ht : t.node l with - | - | b <;> simp [Except.isOk, Except.toBool, ht]

theorem memFs_createDir : memFs.LawfulCreateDir where
  ok t p t' := by
    show MemFs.createDir t p = _ ↔ _
    unfold MemFs.createDir
    rcases p.locate with - | - | ⟨n, l⟩
    · exact iff_of_false (fun h => by cases h) (fun ⟨_, _, h, _⟩ => by cases h)
    · exact iff_of_false (fun h => by cases h) (fun ⟨_, _, h, _⟩ => by cases h)
    · simp only [node_eq_dir]
      constructor
      · intro h
        split at h
        · rename_i hnone
          split at h
          · rename_i hl
            cases h
            exact ⟨n, l, rfl, hnone, hl, makeDir_withDir hl⟩
          · cases h
        · cases h
      · rintro ⟨_, _, heq, hnone, hl, hwith⟩
        cases heq
        rw [if_pos hnone, dif_pos hl, (makeDir_withDir hl).eq hwith]
  alreadyExists t p := by
    show MemFs.createDir t p = _ ↔ _
    unfold MemFs.createDir
    rcases p.locate with - | - | ⟨n, l⟩
    · exact iff_of_false (fun h => by cases h) (fun ⟨_, h, _⟩ => by cases h)
    · exact iff_of_true rfl ⟨[], rfl, by rw [t.root]; exact Option.some_ne_none _⟩
    · simp only [Option.some.injEq, exists_eq_left']
      by_cases hnone : t.node (n :: l) = none
      · rw [if_pos hnone]
        refine iff_of_false ?_ (not_not.mpr hnone)
        split <;> exact fun h => by cases h
      · rw [if_neg hnone]
        exact iff_of_true rfl hnone

/-- A file can only be opened in a directory. -/
theorem VirtualFs.Opens.parent {t t' : Tree} {conf : OpenOptions} {l : List String} (h : VirtualFs.Opens t conf l t') :
    ∃ n k, l = n :: k ∧ t.dir k = true := by
  cases h with
  | keep hb | truncate hb => exact FileTree.Tree.exists_cons_of_file (by rw [hb]; exact Option.some_ne_none _)
  | create _ hdir => exact ⟨_, _, rfl, node_eq_dir.mp hdir⟩

theorem memFs_open : memFs.LawfulOpen := by
  intro t conf p t' l hnew
  show MemFs.openFile t conf p = _ ↔ _
  unfold MemFs.openFile
  simp only [hnew, Bool.not_false, Bool.and_true, Bool.or_false, Bool.false_eq_true, if_false]
  by_cases hperm : (conf.truncate && !conf.write) = true
  · rw [if_pos hperm]
    rw [Bool.and_eq_true, Bool.not_eq_true'] at hperm
    refine iff_of_false (fun h => by cases h) ?_
    rintro ⟨-, hopens⟩
    cases hopens with
    | keep _ h => rw [hperm.1] at h; cases h
    | truncate _ _ h => rw [hperm.2] at h; cases h
    | create _ _ _ h => rw [hperm.2] at h; cases h
  rw [if_neg hperm]
  rcases p.names with - | - | ⟨n, k⟩
  · exact iff_of_false (fun h => by cases h) (fun h => by cases h.1)
  · refine iff_of_false (fun h => by cases h) ?_
    rintro ⟨heq, hopens⟩
    obtain ⟨_, _, rfl, -⟩ := hopens.parent
    cases heq
  simp only [Option.some.injEq]
  by_cases hl : t.dir k = true
  · rw [dif_pos hl]
    cases hb : t.file (n :: k) with
    | some b =>
      simp only
      constructor
      · intro h
        split at h
        · rename_i htruncate
          cases h
          refine ⟨rfl, .truncate hb htruncate ?_ (setFile_withFile hl)⟩
          simpa [htruncate] using hperm
        · rename_i htruncate
          cases h
          exact ⟨rfl, .keep hb (Bool.not_eq_true _ ▸ htruncate)⟩
      · rintro ⟨rfl, hopens⟩
        cases hopens with
        | keep _ htruncate => rw [htruncate, if_neg Bool.false_ne_true]
        | truncate _ htruncate _ hwith => rw [if_pos htruncate, (setFile_withFile hl).eq hwith]
        | create hnone => rw [hb] at hnone; cases hnone
    | none =>
      simp only
      constructor
      · intro h
        split at h
        · rename_i hcreate
          cases h
          rw [Bool.and_eq_true] at hcreate
          exact ⟨rfl, .create hb (node_eq_dir.mpr hl) hcreate.1 hcreate.2 (setFile_withFile hl)⟩
        · cases h
      · rintro ⟨rfl, hopens⟩
        cases hopens with
        | keep hb' => rw [hb] at hb'; cases hb'
        | truncate hb' => rw [hb] at hb'; cases hb'
        | create _ _ hcreate hwrite hwith =>
          rw [hcreate, hwrite, Bool.and_true, if_pos rfl, (setFile_withFile hl).eq hwith]
  · rw [dif_neg hl]
    refine iff_of_false (fun h => by cases h) ?_
    rintro ⟨rfl, hopens⟩
    obtain ⟨_, _, heq, hdir⟩ := hopens.parent
    cases heq
    exact hl hdir

theorem memFs_files : memFs.LawfulFiles where
  writeAll_ok t l data t' := by
    show MemFs.writeAll t l data = _ ↔ _
    unfold MemFs.writeAll
    rcases l with - | ⟨n, l⟩
    · exact iff_of_false (fun h => by cases h) (fun ⟨_, h, _⟩ => by rw [t.rootFile] at h; cases h)
    · cases hb : t.file (n :: l) with
      | none => exact iff_of_false (fun h => by cases h) (fun ⟨_, h, _⟩ => by cases h)
      | some b =>
        have hl : t.dir l = true := t.above n l (.inr (by rw [hb]; exact Option.some_ne_none _))
        simp only [dif_pos hl, Except.ok.injEq, Option.some.injEq, exists_eq_left']
        exact ⟨fun h => h ▸ setFile_withFile hl, fun h => (setFile_withFile hl).eq h⟩
  readToEnd_ok t l data := by
    show MemFs.readToEnd t l = _ ↔ _
    unfold MemFs.readToEnd
    cases t.file l <;> simp
  flush_ok _ _ _ _ := rfl

end MemFs

end Fs
end WasmerJs
