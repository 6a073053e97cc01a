import Mathlib.Data.List.Infix
import Mathlib.Data.List.Pairwise
import Mathlib.Logic.Function.Basic

/-! Trees of directories and files. A place is given by the names on the way to it, the last one first, so that the
    places above it are its suffixes. A directory and a file can have the same place; the file is then hidden. -/

namespace WasmerJs
namespace FileTree

variable {κ α : Type}

/-- What is found at a place. -/
inductive Node (α : Type) where
  | dir
  | file (contents : α)
  deriving DecidableEq

/-- The directories and the files at each place. Only a directory has anything below it. -/
@[ext]
structure Tree (κ α : Type) where
  dir : List κ → Bool
  file : List κ → Option α
  rootDir : dir [] = true
  rootFile : file [] = none
  above : ∀ n l, dir (n :: l) = true ∨ file (n :: l) ≠ none → dir l = true

namespace Tree

/-- A file is only found where no directory is. -/
def node (t : Tree κ α) (l : List κ) : Option (Node α) := if t.dir l then some .dir else (t.file l).map .file

section Node

variable {t : Tree κ α} {l : List κ} {a : α}

theorem node_eq_dir : t.node l = some .dir ↔ t.dir l = true := by
  unfold node
  by_cases hd : t.dir l = true
  · simp [hd]
  · cases hf : t.file l <;> simp [hd]

theorem node_eq_file : t.node l = some (.file a) ↔ t.dir l = false ∧ t.file l = some a := by
  unfold node
  by_cases hd : t.dir l = true
  · simp [hd]
  · simp [hd]

theorem node_eq_none : t.node l = none ↔ t.dir l = false ∧ t.file l = none := by
  unfold node
  by_cases hd : t.dir l = true
  · simp [hd]
  · simp [hd]

theorem node_ne_none : t.node l ≠ none ↔ t.dir l = true ∨ t.file l ≠ none := by
  rw [ne_eq, node_eq_none, not_and_or, Bool.not_eq_false]

end Node

theorem root (t : Tree κ α) : t.node [] = some .dir := node_eq_dir.mpr t.rootDir

theorem parent (t : Tree κ α) (n : κ) (l : List κ) (h : t.node (n :: l) ≠ none) : t.node l = some .dir :=
  node_eq_dir.mpr (t.above n l (node_ne_none.mp h))

/-- The tree in which a place is a directory, or none. -/
structure WithDir [DecidableEq κ] (t : Tree κ α) (l : List κ) (b : Bool) (t' : Tree κ α) : Prop where
  dir : t'.dir = Function.update t.dir l b
  file : t'.file = t.file

/-- The tree in which the file at a place has these contents, or is none. -/
structure WithFile [DecidableEq κ] (t : Tree κ α) (l : List κ) (x : Option α) (t' : Tree κ α) : Prop where
  dir : t'.dir = t.dir
  file : t'.file = Function.update t.file l x

section With

variable [DecidableEq κ] {t t' t'' : Tree κ α} {l : List κ} {b : Bool} {x y : Option α}

theorem WithDir.eq (h : t.WithDir l b t') (h' : t.WithDir l b t'') : t' = t'' :=
  Tree.ext (h.dir.trans h'.dir.symm) (h.file.trans h'.file.symm)

theorem WithFile.eq (h : t.WithFile l x t') (h' : t.WithFile l x t'') : t' = t'' :=
  Tree.ext (h.dir.trans h'.dir.symm) (h.file.trans h'.file.symm)

theorem WithFile.file_self (h : t.WithFile l x t') : t'.file l = x := by rw [h.file, Function.update_self]

/-- The later contents count. -/
theorem WithFile.trans (h : t.WithFile l x t') (h' : t'.WithFile l y t'') : t.WithFile l y t'' where
  dir := h'.dir.trans h.dir
  file := by rw [h'.file, h.file, Function.update_idem]

theorem WithFile.refl (h : t.file l = x) : t.WithFile l x t where
  dir := rfl
  file := by rw [← h, Function.update_eq_self]

end With

/-- A tree that contains nothing but its root. -/
def empty : Tree κ α where
  dir l := l.isEmpty
  file _ := none
  rootDir := rfl
  rootFile := rfl
  above _ _ h := by simp at h

section Changes

variable [DecidableEq κ]

/-- A directory is made in a directory. -/
def makeDir (t : Tree κ α) (n : κ) (l : List κ) (hl : t.dir l = true) : Tree κ α where
  dir := Function.update t.dir (n :: l) true
  file := t.file
  rootDir := by rw [Function.update_of_ne (List.cons_ne_nil n l).symm, t.rootDir]
  rootFile := t.rootFile
  above m k hm := by
    have hk : t.dir k = true := by
      by_cases heq : m :: k = n :: l
      · cases heq
        exact hl
      · rw [Function.update_of_ne heq] at hm
        exact t.above m k hm
    by_cases heq : k = n :: l
    · rw [heq, Function.update_self]
    · rw [Function.update_of_ne heq, hk]

/-- The file with a name in a directory gets contents, or is taken away. -/
def setFile (t : Tree κ α) (n : κ) (l : List κ) (x : Option α) (hl : t.dir l = true) : Tree κ α where
  dir := t.dir
  file := Function.update t.file (n :: l) x
  rootDir := t.rootDir
  rootFile := by rw [Function.update_of_ne (List.cons_ne_nil n l).symm, t.rootFile]
  above m k hm := by
    by_cases heq : m :: k = n :: l
    · cases heq
      exact hl
    · rw [Function.update_of_ne heq] at hm
      exact t.above m k hm

/-- A directory without entries is taken away. -/
def removeDir (t : Tree κ α) (l : List κ) (hl : l ≠ []) (h : ∀ n, t.node (n :: l) = none) : Tree κ α where
  dir := Function.update t.dir l false
  file := t.file
  rootDir := by rw [Function.update_of_ne hl.symm, t.rootDir]
  rootFile := t.rootFile
  above n k hk := by
    have hne : k ≠ l := by
      rintro rfl
      obtain ⟨hd, hf⟩ := node_eq_none.mp (h n)
      rcases hk with hk | hk
      · by_cases heq : n :: k = k
        · exact List.cons_ne_self n k heq
        · rw [Function.update_of_ne heq, hd] at hk
          cases hk
      · exact hk hf
    have hk' : t.dir (n :: k) = true ∨ t.file (n :: k) ≠ none := by
      refine hk.imp_left fun hd => ?_
      by_cases heq : n :: k = l
      · rw [heq, Function.update_self] at hd
        cases hd
      · rwa [Function.update_of_ne heq] at hd
    rw [Function.update_of_ne hne, t.above n k hk']

variable {t : Tree κ α} {n : κ} {l : List κ} {x : Option α}

theorem makeDir_withDir (hl : t.dir l = true) : t.WithDir (n :: l) true (t.makeDir n l hl) := ⟨rfl, rfl⟩

theorem setFile_withFile (hl : t.dir l = true) : t.WithFile (n :: l) x (t.setFile n l x hl) := ⟨rfl, rfl⟩

end Changes

/-- A file is in a directory. -/
theorem exists_cons_of_file {t : Tree κ α} {l : List κ} (h : t.file l ≠ none) : ∃ n k, l = n :: k ∧ t.dir k = true := by
  cases l with
  | nil => exact absurd t.rootFile h
  | cons n k => exact ⟨n, k, rfl, t.above n k (.inr h)⟩

/-- Whatever is above something is a directory. -/
theorem dir_of_suffix {t : Tree κ α} {l k : List κ} (h : t.node k ≠ none) (hs : l <:+ k) (hne : l ≠ k) :
    t.node l = some .dir := by
  induction k with
  | nil => exact absurd (List.suffix_nil.mp hs) hne
  | cons n k ih =>
    have hk := t.parent n k h
    rcases List.suffix_cons_iff.mp hs with rfl | hs
    · exact absurd rfl hne
    · by_cases heq : l = k
      · exact heq ▸ hk
      · exact ih (by rw [hk]; exact Option.some_ne_none _) hs heq

/-- Everything that is in a tree, and found there, is in the other one as well. -/
structure Extends (t t' : Tree κ α) : Prop where
  node : ∀ l x, t.node l = some x → t'.node l = some x
  file : ∀ l a, t.file l = some a → t'.file l = some a

theorem Extends.refl (t : Tree κ α) : Extends t t := ⟨fun _ _ h => h, fun _ _ h => h⟩

theorem Extends.trans {t t' t'' : Tree κ α} (h : Extends t t') (h' : Extends t' t'') : Extends t t'' :=
  ⟨fun l x hx => h'.node l x (h.node l x hx), fun l a ha => h'.file l a (h.file l a ha)⟩

theorem Extends.ne_none {t t' : Tree κ α} (h : Extends t t') {l : List κ} (hl : t.node l ≠ none) :
    t'.node l ≠ none := by
  obtain ⟨x, hx⟩ := Option.ne_none_iff_exists'.mp hl
  rw [h.node l x hx]
  exact Option.some_ne_none x

/-- Only directories are new. -/
structure OnlyDirs (t t' : Tree κ α) : Prop where
  extends_ : Extends t t'
  file_eq : t'.file = t.file

theorem OnlyDirs.refl (t : Tree κ α) : OnlyDirs t t := ⟨.refl t, rfl⟩

theorem OnlyDirs.trans {t t' t'' : Tree κ α} (h : OnlyDirs t t') (h' : OnlyDirs t' t'') : OnlyDirs t t'' :=
  ⟨h.extends_.trans h'.extends_, h'.file_eq.trans h.file_eq⟩

theorem OnlyDirs.file_iff {t t' : Tree κ α} (h : OnlyDirs t t') {l : List κ} {a : α} :
    t'.node l = some (.file a) ↔ t.node l = some (.file a) := by
  refine ⟨fun ha => ?_, h.extends_.node l _⟩
  obtain ⟨hd, hf⟩ := node_eq_file.mp ha
  refine node_eq_file.mpr ⟨?_, h.file_eq ▸ hf⟩
  by_contra hdir
  rw [Bool.not_eq_false, ← node_eq_dir] at hdir
  rw [node_eq_dir.mp (h.extends_.node l _ hdir)] at hd
  cases hd

/-- A directory that is made where nothing is only adds to a tree. -/
theorem onlyDirs_of_withDir [DecidableEq κ] {t t' : Tree κ α} {l : List κ} (hl : t.node l = none)
    (h : t.WithDir l true t') : OnlyDirs t t' := by
  refine ⟨⟨fun k x hk => ?_, fun k a ha => by rw [h.file, ha]⟩, h.file⟩
  have hne : k ≠ l := by
    rintro rfl
    rw [hl] at hk
    cases hk
  have hd : t'.dir k = t.dir k := by rw [h.dir, Function.update_of_ne hne]
  unfold node at hk ⊢
  rwa [hd, h.file]

/-! ### Directories that lead to a place -/

/-- All places down to this one have become directories. None of them was a file. -/
structure DirsMade (t : Tree κ α) (l : List κ) (t' : Tree κ α) : Prop where
  noFile : ∀ k a, k <:+ l → t.node k ≠ some (.file a)
  dir : ∀ k, t'.dir k = true ↔ t.dir k = true ∨ k <:+ l
  file : t'.file = t.file

/-- They can be made where there is no file. -/
theorem exists_dirsMade [DecidableEq κ] {t : Tree κ α} {l : List κ} (h : ∀ k a, k <:+ l → t.node k ≠ some (.file a)) :
    ∃ t', DirsMade t l t' := by
  refine ⟨⟨fun k => t.dir k || decide (k <:+ l), t.file, ?_, t.rootFile, fun n k hk => ?_⟩, h, fun k => ?_, rfl⟩
  · rw [t.rootDir, Bool.true_or]
  · simp only [Bool.or_eq_true, decide_eq_true_eq] at hk ⊢
    rcases hk with (hk | hk) | hk
    · exact .inl (t.above n k (.inl hk))
    · exact .inr ((List.suffix_cons n k).trans hk)
    · exact .inl (t.above n k (.inr hk))
  · simp only [Bool.or_eq_true, decide_eq_true_eq]

theorem not_suffix_of_cons {n : κ} {l : List κ} : ¬(n :: l) <:+ l := by
  intro h
  have := h.length_le
  rw [List.length_cons] at this
  omega

theorem suffix_cons_iff_or {n : κ} {l k : List κ} : k <:+ n :: l ↔ k <:+ l ∨ k = n :: l := by
  rw [List.suffix_cons_iff, or_comm]

/-- One more directory is made below those that lead to it, or it was there. -/
theorem dirsMade_cons_iff [DecidableEq κ] {t t' : Tree κ α} {n : κ} {l : List κ} : DirsMade t (n :: l) t' ↔
    ∃ t₁, DirsMade t l t₁ ∧ (t₁.node (n :: l) = some .dir ∧ t' = t₁ ∨
      t₁.node (n :: l) = none ∧ t₁.WithDir (n :: l) true t') := by
  have hself : ∀ {t₁ : Tree κ α}, DirsMade t l t₁ → t₁.node (n :: l) = t.node (n :: l) := by
    intro t₁ h₁
    have hd : t₁.dir (n :: l) = t.dir (n :: l) := by
      rw [Bool.eq_iff_iff, h₁.dir, or_iff_left not_suffix_of_cons]
    unfold node
    rw [hd, h₁.file]
  constructor
  · intro h
    obtain ⟨t₁, h₁⟩ := exists_dirsMade fun k a hk => h.noFile k a (hk.trans (List.suffix_cons n l))
    have hdir : ∀ k, t'.dir k = true ↔ t₁.dir k = true ∨ k = n :: l := by
      intro k
      rw [h.dir, h₁.dir, suffix_cons_iff_or, or_assoc]
    refine ⟨t₁, h₁, ?_⟩
    rcases hn : t₁.node (n :: l) with - | - | a
    · refine .inr ⟨rfl, funext fun k => ?_, by rw [h.file, h₁.file]⟩
      rw [Bool.eq_iff_iff, hdir]
      by_cases hk : k = n :: l
      · simp [hk]
      · simp [hk]
    · refine .inl ⟨rfl, Tree.ext (funext fun k => ?_) (by rw [h.file, h₁.file])⟩
      rw [Bool.eq_iff_iff, hdir]
      refine or_iff_left_of_imp ?_
      rintro rfl
      exact node_eq_dir.mp hn
    · rw [hself h₁] at hn
      exact absurd hn (h.noFile _ a (List.suffix_refl _))
  · rintro ⟨t₁, h₁, h⟩
    rw [hself h₁] at h
    refine ⟨fun k a hk => ?_, fun k => ?_, ?_⟩
    · rcases suffix_cons_iff_or.mp hk with hk | rfl
      · exact h₁.noFile k a hk
      · rcases h with ⟨h, -⟩ | ⟨h, -⟩ <;> rw [h] <;> exact fun heq => by cases heq
    · rw [suffix_cons_iff_or, ← or_assoc, ← h₁.dir]
      rcases h with ⟨h, rfl⟩ | ⟨-, h⟩
      · refine (or_iff_left_of_imp ?_).symm
        rintro rfl
        exact (h₁.dir _).mpr (.inl (node_eq_dir.mp h))
      · by_cases hk : k = n :: l
        · simp [h.dir, hk]
        · simp [h.dir, hk]
    · rcases h with ⟨-, rfl⟩ | ⟨-, h⟩
      · exact h₁.file
      · rw [h.file, h₁.file]

/-- A file has been added where nothing was, with the directories that lead to it. -/
structure FileAdded [DecidableEq κ] (t : Tree κ α) (l : List κ) (a : α) (t' : Tree κ α) : Prop where
  free : t.node l = none
  noFile : ∀ k b, k <:+ l → t.node k ≠ some (.file b)
  dir : ∀ k, t'.dir k = true ↔ t.dir k = true ∨ k <:+ l ∧ k ≠ l
  file : t'.file = Function.update t.file l (some a)

/-- First the directories are made, then the file is put below them. -/
theorem fileAdded_cons_iff [DecidableEq κ] {t t' : Tree κ α} {n : κ} {l : List κ} {a : α} :
    FileAdded t (n :: l) a t' ↔ ∃ t₁, DirsMade t l t₁ ∧ t₁.node (n :: l) = none ∧
      t₁.WithFile (n :: l) (some a) t' := by
  have hproper : ∀ k, k <:+ n :: l ∧ k ≠ n :: l ↔ k <:+ l := by
    intro k
    rw [suffix_cons_iff_or]
    refine ⟨fun h => h.1.resolve_right h.2, fun h => ⟨.inl h, ?_⟩⟩
    rintro rfl
    exact not_suffix_of_cons h
  constructor
  · intro h
    obtain ⟨t₁, h₁⟩ := exists_dirsMade fun k b hk => h.noFile k b (hk.trans (List.suffix_cons n l))
    obtain ⟨hd, hf⟩ := node_eq_none.mp h.free
    refine ⟨t₁, h₁, node_eq_none.mpr ⟨?_, by rw [h₁.file, hf]⟩, funext fun k => ?_, by rw [h.file, h₁.file]⟩
    · rw [← Bool.not_eq_true, h₁.dir, not_or, Bool.not_eq_true]
      exact ⟨hd, not_suffix_of_cons⟩
    · rw [Bool.eq_iff_iff, h.dir, h₁.dir, hproper]
  · rintro ⟨t₁, h₁, hnone, h⟩
    obtain ⟨hd, hf⟩ := node_eq_none.mp hnone
    have hfree : t.node (n :: l) = none := by
      refine node_eq_none.mpr ⟨?_, by rw [← h₁.file, hf]⟩
      rw [← Bool.not_eq_true]
      intro hdir
      rw [(h₁.dir _).mpr (.inl hdir)] at hd
      cases hd
    refine ⟨hfree, fun k b hk => ?_, fun k => ?_, by rw [h.file, h₁.file]⟩
    · rcases suffix_cons_iff_or.mp hk with hk | rfl
      · exact h₁.noFile k b hk
      · rw [hfree]
        exact fun heq => by cases heq
    · rw [h.dir, h₁.dir, hproper]

/-- A file can be added where nothing is and no file above. -/
theorem exists_fileAdded [DecidableEq κ] {t : Tree κ α} {l : List κ} {a : α} (hfree : t.node l = none)
    (hfile : ∀ k b, k <:+ l → t.node k ≠ some (.file b)) : ∃ t', FileAdded t l a t' := by
  cases l with
  | nil =>
    rw [t.root] at hfree
    cases hfree
  | cons n l =>
    obtain ⟨t₁, h₁⟩ := exists_dirsMade fun k b hk => hfile k b (hk.trans (List.suffix_cons n l))
    have hl : t₁.dir l = true := (h₁.dir l).mpr (.inr (List.suffix_refl l))
    obtain ⟨hd, hf⟩ := node_eq_none.mp hfree
    have hnone : t₁.node (n :: l) = none := by
      refine node_eq_none.mpr ⟨?_, by rw [h₁.file, hf]⟩
      rw [← Bool.not_eq_true, h₁.dir, not_or, Bool.not_eq_true]
      exact ⟨hd, not_suffix_of_cons⟩
    exact ⟨t₁.setFile n l (some a) hl, fileAdded_cons_iff.mpr ⟨t₁, h₁, hnone, setFile_withFile hl⟩⟩

/-! ### Trees that are described by their files -/

/-- The tree contains these files and the directories that lead to them, and nothing else. -/
structure Holds (t : Tree κ α) (files : List (List κ × α)) : Prop where
  file : ∀ l a, t.file l = some a ↔ (l, a) ∈ files
  dir : ∀ l, t.dir l = true ↔ l = [] ∨ ∃ x ∈ files, l <:+ x.1 ∧ l ≠ x.1
  -- No file is hidden.
  plain : ∀ l a, t.file l = some a → t.dir l = false

/-- No two of the files are at one place or one below the other. -/
def Apart (x y : List κ × α) : Prop := ¬x.1 <:+ y.1 ∧ ¬y.1 <:+ x.1

theorem Apart.symm {x y : List κ × α} (h : Apart x y) : Apart y x := ⟨h.2, h.1⟩

/-- Whether there is a tree with these files. -/
structure Describes (files : List (List κ × α)) : Prop where
  apart : files.Pairwise Apart
  notRoot : ∀ x ∈ files, x.1 ≠ []

theorem Describes.perm {files files' : List (List κ × α)} (h : Describes files) (hp : files.Perm files') :
    Describes files' where
  apart := (hp.pairwise_iff Apart.symm).mp h.apart
  notRoot x hx := h.notRoot x (hp.mem_iff.mpr hx)

theorem Describes.of_append {files files' : List (List κ × α)} (h : Describes (files ++ files')) : Describes files where
  apart := (List.pairwise_append.mp h.apart).1
  notRoot x hx := h.notRoot x (List.mem_append_left _ hx)

theorem describes_append_singleton {files : List (List κ × α)} {x : List κ × α} :
    Describes (files ++ [x]) ↔ Describes files ∧ x.1 ≠ [] ∧ ∀ y ∈ files, Apart y x := by
  constructor
  · intro h
    obtain ⟨hp, -, happart⟩ := List.pairwise_append.mp h.apart
    refine ⟨⟨hp, fun y hy => h.notRoot y (List.mem_append_left _ hy)⟩, ?_, ?_⟩
    · exact h.notRoot x (List.mem_append_right _ (List.mem_singleton_self x))
    · intro y hy
      exact happart y hy x (List.mem_singleton_self x)
  · rintro ⟨h, hx, happart⟩
    refine ⟨List.pairwise_append.mpr ⟨h.apart, List.pairwise_singleton _ _, ?_⟩, ?_⟩
    · intro y hy z hz
      obtain rfl := List.mem_singleton.mp hz
      exact happart y hy
    · intro y hy
      rcases List.mem_append.mp hy with hy | hy
      · exact h.notRoot y hy
      · exact List.mem_singleton.mp hy ▸ hx

theorem empty_holds : (empty : Tree κ α).Holds [] := by
  refine ⟨fun l a => ?_, fun l => ?_, fun l a h => ?_⟩
  · simp [empty]
  · simp [empty]
  · cases h

/-- A tree has no files but those that describe it, whatever their order. -/
theorem Holds.eq {t t' : Tree κ α} {files files' : List (List κ × α)} (h : t.Holds files) (h' : t'.Holds files')
    (hmem : ∀ x, x ∈ files ↔ x ∈ files') : t = t' := by
  refine Tree.ext (funext fun l => ?_) (funext fun l => Option.ext fun a => ?_)
  · rw [Bool.eq_iff_iff, h.dir, h'.dir]
    simp only [hmem]
  · rw [h.file, h'.file, hmem]

theorem Holds.node_file {t : Tree κ α} {files : List (List κ × α)} (h : t.Holds files) {l : List κ} {a : α} :
    t.node l = some (.file a) ↔ (l, a) ∈ files := by
  rw [node_eq_file, h.file, and_iff_right_iff_imp]
  exact fun hmem => h.plain l a ((h.file l a).mpr hmem)

/-- A file can be added exactly if nothing is at its place and no file above it. -/
theorem Holds.free_iff {t : Tree κ α} {files : List (List κ × α)} (h : t.Holds files) {l : List κ} :
    (t.node l = none ∧ ∀ k a, k <:+ l → t.node k ≠ some (.file a)) ↔
      l ≠ [] ∧ ∀ y ∈ files, ¬y.1 <:+ l ∧ ¬l <:+ y.1 := by
  constructor
  · rintro ⟨hnone, hfile⟩
    have hroot : l ≠ [] := by
      rintro rfl
      rw [t.root] at hnone
      cases hnone
    refine ⟨hroot, fun y hy => ⟨fun hs => hfile y.1 y.2 hs (h.node_file.mpr hy), fun hs => ?_⟩⟩
    by_cases heq : l = y.1
    · have := h.node_file.mpr hy
      rw [← heq, hnone] at this
      cases this
    · have := node_eq_dir.mpr ((h.dir l).mpr (.inr ⟨y, hy, hs, heq⟩))
      rw [hnone] at this
      cases this
  · rintro ⟨hroot, happart⟩
    have hfile : ∀ k a, k <:+ l → t.node k ≠ some (.file a) := fun k a hk hka =>
      (happart _ (h.node_file.mp hka)).1 hk
    refine ⟨?_, hfile⟩
    rcases ht : t.node l with - | - | a
    · rfl
    · rcases (h.dir l).mp (node_eq_dir.mp ht) with rfl | ⟨y, hy, hs, -⟩
      · exact absurd rfl hroot
      · exact absurd hs (happart y hy).2
    · exact absurd ht (hfile l a (List.suffix_refl l))

/-- A file and the directories that lead to it are added. -/
theorem Holds.add [DecidableEq κ] {t t' : Tree κ α} {files : List (List κ × α)} (h : t.Holds files) {l : List κ} {a : α}
    (hadd : FileAdded t l a t') : t'.Holds (files ++ [(l, a)]) := by
  obtain ⟨hfreeDir, hfreeFile⟩ := node_eq_none.mp hadd.free
  have hfile : ∀ k b, t'.file k = some b ↔ t.file k = some b ∨ k = l ∧ b = a := by
    intro k b
    by_cases hk : k = l
    · subst hk
      simp [hadd.file, hfreeFile, eq_comm]
    · simp [hadd.file, hk]
  refine ⟨fun k b => ?_, fun k => ?_, fun k b hb => ?_⟩
  · rw [hfile, h.file, List.mem_append, List.mem_singleton, Prod.mk.injEq]
  · rw [hadd.dir, h.dir]
    constructor
    · rintro ((rfl | ⟨y, hy, hs⟩) | hs)
      · exact .inl rfl
      · exact .inr ⟨y, List.mem_append_left _ hy, hs⟩
      · exact .inr ⟨(l, a), List.mem_append_right _ (List.mem_singleton_self _), hs⟩
    · rintro (rfl | ⟨y, hy, hs⟩)
      · exact .inl (.inl rfl)
      · rcases List.mem_append.mp hy with hy | hy
        · exact .inl (.inr ⟨y, hy, hs⟩)
        · obtain rfl := List.mem_singleton.mp hy
          exact .inr hs
  · rw [← Bool.not_eq_true, hadd.dir]
    rintro (hd | ⟨hs, hne⟩)
    · rcases (hfile k b).mp hb with hb | ⟨rfl, -⟩
      · rw [h.plain k b hb] at hd
        cases hd
      · rw [hfreeDir] at hd
        cases hd
    · have hb := ((hfile k b).mp hb).resolve_right fun heq => hne heq.1
      exact hadd.noFile k b hs (node_eq_file.mpr ⟨h.plain k b hb, hb⟩)

end Tree
end FileTree
end WasmerJs
