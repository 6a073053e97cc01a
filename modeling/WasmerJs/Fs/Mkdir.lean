import WasmerJs.Fs.VirtualFs
import WasmerJs.Lib.Failing

/-! How an `Instance` creates directories (`vfs_mkdir` and `create_dir_all_internal`, `src/instance.rs`). -/

namespace WasmerJs
namespace Fs
open FileTree

/-- What a method fails with: an error of the file system, with what `with_context` says about it. -/
inductive Error where
  | fs (e : FsError)
  | context (message : String) (e : FsError)
  deriving DecidableEq

/-- What is done to a file system. A failure keeps what was done before it. -/
abbrev Action (ε α : Type) : Type := EStateM ε Tree α

def Action.withContext {α : Type} (message : String) (x : Action FsError α) : Action Error α :=
  Failing.mapError (.context message) x

namespace Instance

variable (fs : VirtualFs)

/-- A directory that exists already is fine. -/
def createDirUnlessExists (path : Path) : Action FsError Unit := fun t =>
  match fs.createDir t path with
  | .ok t' => .ok () t'
  | .error .alreadyExists => .ok () t
  | .error e => .error e t

def createDirAllInternal : Path → Action FsError Unit
  | .empty => pure ()
  | .root => do
    if (fs.metadata (← get) .root).isOk then return ()
    createDirUnlessExists fs .root
  | .join parent last => do
    if (fs.metadata (← get) (.join parent last)).isOk then return ()
    createDirAllInternal parent
    createDirUnlessExists fs (.join parent last)

def vfsMkdir (path : String) : Action Error Unit :=
  (createDirAllInternal fs (Path.new path)).withContext ("Failed to mkdir '" ++ path ++ "'")

end Instance

variable {fs : VirtualFs} {t t' : Tree}

/-! ### One directory -/

theorem createDirUnlessExists_ok (hfs : fs.LawfulCreateDir) {p : Path} {t' : Tree} {u : Unit}
    (h : Instance.createDirUnlessExists fs p t = .ok u t') : Tree.OnlyDirs t t' ∧
      (∃ l, p.locate = some l ∧ t'.node l ≠ none) ∧
        ∀ k, t'.node k ≠ none → t.node k ≠ none ∨ p.locate = some k := by
  unfold Instance.createDirUnlessExists at h
  split at h
  · rename_i t'' heq
    cases h
    obtain ⟨n, l, hl, hnone, -, hwith⟩ := (hfs.ok t p t').mp heq
    refine ⟨Tree.onlyDirs_of_withDir hnone hwith, ⟨n :: l, hl, ?_⟩, fun k hk => ?_⟩
    · rw [Tree.node_ne_none, hwith.dir, Function.update_self]
      exact .inl rfl
    · by_cases heq : k = n :: l
      · exact .inr (heq ▸ hl)
      · rw [Tree.node_ne_none, hwith.dir, hwith.file, Function.update_of_ne heq, ← Tree.node_ne_none] at hk
        exact .inl hk
  · rename_i heq
    cases h
    exact ⟨.refl t, (hfs.alreadyExists t p).mp heq, fun _ hk => .inl hk⟩
  · cases h

theorem createDirUnlessExists_error {p : Path} {t' : Tree} {e : FsError}
    (h : Instance.createDirUnlessExists fs p t = .error e t') : t' = t := by
  unfold Instance.createDirUnlessExists at h
  split at h <;> cases h
  rfl

/-- It succeeds where something is, or in a directory. -/
theorem createDirUnlessExists_iff (hfs : fs.LawfulCreateDir) {p : Path} :
    (∃ t', Instance.createDirUnlessExists fs p t = .ok () t') ↔ ∃ l, p.locate = some l ∧
      (t.node l ≠ none ∨ ∃ n k, l = n :: k ∧ t.node k = some .dir) := by
  constructor
  · rintro ⟨t', h⟩
    unfold Instance.createDirUnlessExists at h
    split at h
    · rename_i heq
      obtain ⟨n, k, hl, -, hdir, -⟩ := (hfs.ok _ _ _).mp heq
      exact ⟨n :: k, hl, .inr ⟨n, k, rfl, hdir⟩⟩
    · rename_i heq
      obtain ⟨l, hl, hnode⟩ := (hfs.alreadyExists t p).mp heq
      exact ⟨l, hl, .inl hnode⟩
    · cases h
  · rintro ⟨l, hl, h⟩
    by_cases hnode : t.node l = none
    · obtain ⟨n, k, rfl, hdir⟩ := h.resolve_left (not_not.mpr hnode)
      have hdir' := Tree.node_eq_dir.mp hdir
      have hok := (hfs.ok t p (t.makeDir n k hdir')).mpr ⟨n, k, hl, hnode, hdir, Tree.makeDir_withDir hdir'⟩
      refine ⟨t.makeDir n k hdir', ?_⟩
      unfold Instance.createDirUnlessExists
      rw [hok]
    · have hexists := (hfs.alreadyExists t p).mpr ⟨l, hl, hnode⟩
      refine ⟨t, ?_⟩
      unfold Instance.createDirUnlessExists
      rw [hexists]

/-! ### A directory and those above it -/

/-- Where the path leads, there is a file. -/
def FileAt (t : Tree) (p : Path) : Prop := ∃ l b, p.locate = some l ∧ t.node l = some (.file b)

/-- Nothing prevents that the path and the paths above it become directories: none of them leads above the root, and
    none of them is a name in a file. -/
structure Creatable (t : Tree) (p : Path) : Prop where
  located : ∀ q ∈ p.ancestors, q.locate ≠ none
  notInFile : ∀ q n, .join q (.normal n) ∈ p.ancestors → ¬FileAt t q

theorem Path.self_mem_ancestors (p : Path) : p ∈ p.ancestors := by
  cases p <;> exact List.mem_cons_self

theorem Path.names_of_mem_ancestors {p q : Path} {l : List String} (hp : p.names = some l) (hq : q ∈ p.ancestors) :
    ∃ k, q.names = some k ∧ k <:+ l := by
  induction p generalizing l with
  | empty => cases hp
  | root =>
    cases List.mem_singleton.mp hq
    exact ⟨l, hp, List.suffix_refl l⟩
  | join p c ih =>
    rcases List.mem_cons.mp hq with rfl | hq'
    · exact ⟨l, hp, List.suffix_refl l⟩
    · obtain ⟨n, m, -, hm, rfl⟩ := Path.names_join hp
      obtain ⟨k, hk, hs⟩ := ih hm hq'
      exact ⟨k, hk, hs.trans (List.suffix_cons n m)⟩

/-- No file is found above the place. -/
def NoFileAbove (t : Tree) (l : List String) : Prop := ∀ k b, k <:+ l → k ≠ l → t.node k ≠ some (.file b)

theorem noFileAbove_of_exists {l : List String} (hl : t.node l ≠ none) : NoFileAbove t l := by
  intro k b hs hne
  rw [Tree.dir_of_suffix hl hs hne]
  exact fun h => by cases h

theorem noFileAbove_cons_iff {n : String} {l : List String} :
    NoFileAbove t (n :: l) ↔ NoFileAbove t l ∧ ∀ b, t.node l ≠ some (.file b) := by
  constructor
  · intro h
    refine ⟨fun k b hs _ => ?_, fun b => h l b (List.suffix_cons n l) (List.cons_ne_self n l).symm⟩
    refine h k b (hs.trans (List.suffix_cons n l)) ?_
    rintro rfl
    exact Tree.not_suffix_of_cons hs
  · rintro ⟨h, hl⟩ k b hs hne
    rcases List.suffix_cons_iff.mp hs with rfl | hs
    · exact absurd rfl hne
    · by_cases heq : k = l
      · exact heq ▸ hl b
      · exact h k b hs heq

theorem creatable_of_noFileAbove {p : Path} {l : List String} (hp : p.names = some l) (hl : NoFileAbove t l) :
    Creatable t p where
  located q hq := by
    obtain ⟨k, hk, -⟩ := Path.names_of_mem_ancestors hp hq
    rw [Path.locate_of_names hk]
    exact Option.some_ne_none k
  notInFile q n hq := by
    rintro ⟨k, b, hk, hb⟩
    obtain ⟨m, hm, hs⟩ := Path.names_of_mem_ancestors hp hq
    obtain ⟨k', hk', rfl⟩ := Option.map_eq_some_iff.mp hm
    rw [Path.locate_of_names hk'] at hk
    cases hk
    refine hl k b ((List.suffix_cons n k).trans hs) ?_ hb
    rintro rfl
    exact Tree.not_suffix_of_cons hs

/-- What is there can be created again. -/
theorem creatable_of_names {p : Path} {l : List String} (hp : p.names = some l) (hl : t.node l ≠ none) :
    Creatable t p := creatable_of_noFileAbove hp (noFileAbove_of_exists hl)

/-- What is left of a tree when the directories of a path were to be created. -/
structure Made (t : Tree) (p : Path) (r : EStateM.Result FsError Tree Unit) : Prop where
  onlyDirs : ∀ u t', r = .ok u t' → Tree.OnlyDirs t t'
  onlyDirs_error : ∀ e t', r = .error e t' → Tree.OnlyDirs t t'
  ok_iff : (∃ t', r = .ok () t') ↔ Creatable t p
  exists_ : ∀ u t', r = .ok u t' → ∀ q ∈ p.ancestors, ∃ l, q.locate = some l ∧ t'.node l ≠ none
  new : ∀ u t', r = .ok u t' → ∀ l, t'.node l ≠ none → t.node l ≠ none ∨ ∃ q ∈ p.ancestors, q.locate = some l

/-- Nothing is done where something is already. -/
theorem made_of_exists {p : Path} {l : List String} (hp : p.names = some l) (hl : t.node l ≠ none) :
    Made t p (.ok () t) where
  onlyDirs u t' h := by
    cases h
    exact .refl t
  onlyDirs_error e t' h := by cases h
  ok_iff := ⟨fun _ => creatable_of_names hp hl, fun _ => ⟨t, rfl⟩⟩
  exists_ u t' h q hq := by
    cases h
    obtain ⟨k, hk, hs⟩ := Path.names_of_mem_ancestors hp hq
    refine ⟨k, Path.locate_of_names hk, ?_⟩
    by_cases heq : k = l
    · exact heq ▸ hl
    · rw [Tree.dir_of_suffix hl hs heq]
      exact Option.some_ne_none _
  new u t' h k hk := by
    cases h
    exact .inl hk

theorem Creatable.parent {p : Path} {c : Component} (h : Creatable t (.join p c)) : Creatable t p where
  located q hq := h.located q (List.mem_cons_of_mem _ hq)
  notInFile q n hq := h.notInFile q n (List.mem_cons_of_mem _ hq)

/-- Below a path that exists, one more component succeeds if it does not lead above the root and is no name in a
    file. -/
theorem creatable_join_iff {t₁ : Tree} (honly : Tree.OnlyDirs t t₁) {p : Path} {c : Component} (hp : Creatable t p)
    {l : List String} (hl : p.locate = some l) (hexists : t₁.node l ≠ none) :
    Creatable t (.join p c) ↔ ∃ k, (Path.join p c).locate = some k ∧
      (t₁.node k ≠ none ∨ ∃ n m, k = n :: m ∧ t₁.node m = some .dir) := by
  constructor
  · intro h
    obtain ⟨k, hk⟩ := Option.ne_none_iff_exists'.mp (h.located _ (Path.self_mem_ancestors _))
    refine ⟨k, hk, ?_⟩
    cases c with
    | curDir =>
      rw [show (Path.join p .curDir).locate = p.locate from rfl, hl] at hk
      cases hk
      exact .inl hexists
    | parentDir =>
      rw [show (Path.join p .parentDir).locate = p.locate >>= List.tail? from rfl, hl] at hk
      cases l with
      | nil => cases hk
      | cons n m =>
        cases hk
        refine .inl ?_
        rw [t₁.parent _ _ hexists]
        exact Option.some_ne_none _
    | normal n =>
      rw [show (Path.join p (.normal n)).locate = p.locate.map (n :: ·) from rfl, hl] at hk
      cases hk
      refine .inr ⟨n, l, rfl, ?_⟩
      rcases hnode : t₁.node l with - | - | b
      · exact absurd hnode hexists
      · rfl
      · exact absurd ⟨l, b, hl, honly.file_iff.mp hnode⟩ (h.notInFile p n (Path.self_mem_ancestors _))
  · rintro ⟨k, hk, h⟩
    refine ⟨fun q hq => ?_, fun q n hq => ?_⟩
    · rcases List.mem_cons.mp hq with rfl | hq
      · rw [hk]
        exact Option.some_ne_none k
      · exact hp.located q hq
    · rcases List.mem_cons.mp hq with heq | hq
      · cases heq
        rintro ⟨l', b, hl', hb⟩
        rw [hl] at hl'
        cases hl'
        rw [show (Path.join p (.normal n)).locate = p.locate.map (n :: ·) from rfl, hl] at hk
        cases hk
        have hfile := honly.extends_.node l _ hb
        have hdir : t₁.node l = some .dir := by
          rcases h with hnode | ⟨_, _, heq, hdir⟩
          · exact t₁.parent n l hnode
          · cases heq
            exact hdir
        rw [hfile] at hdir
        cases hdir
      · exact hp.notInFile q n hq

theorem createDirUnlessExists_made (hfs : fs.LawfulCreateDir) {p : Path} {c : Component} {t₁ : Tree}
    (hp : Made t p (.ok () t₁)) : Made t (.join p c) (Instance.createDirUnlessExists fs (.join p c) t₁) := by
  have honly := hp.onlyDirs () t₁ rfl
  have hexists := hp.exists_ () t₁ rfl
  have hcreatable := hp.ok_iff.mp ⟨t₁, rfl⟩
  obtain ⟨l, hl, hnode⟩ := hexists p (Path.self_mem_ancestors p)
  refine ⟨fun u t' h => ?_, fun e t' h => ?_, ?_, fun u t' h q hq => ?_, fun u t' h k hk => ?_⟩
  · exact honly.trans (createDirUnlessExists_ok hfs h).1
  · rw [createDirUnlessExists_error h]
    exact honly
  · rw [createDirUnlessExists_iff hfs, creatable_join_iff honly hcreatable hl hnode]
  · obtain ⟨honly', hself, -⟩ := createDirUnlessExists_ok hfs h
    rcases List.mem_cons.mp hq with rfl | hq
    · exact hself
    · obtain ⟨k, hk, hnode⟩ := hexists q hq
      exact ⟨k, hk, honly'.extends_.ne_none hnode⟩
  · obtain ⟨-, -, hnew⟩ := createDirUnlessExists_ok hfs h
    rcases hnew k hk with hk | hk
    · rcases hp.new () t₁ rfl k hk with hk | ⟨q, hq, hk⟩
      · exact .inl hk
      · exact .inr ⟨q, List.mem_cons_of_mem _ hq, hk⟩
    · exact .inr ⟨_, Path.self_mem_ancestors _, hk⟩

theorem createDirAllInternal_exists {p : Path} (h : (fs.metadata t p).isOk = true) :
    Instance.createDirAllInternal fs p t = .ok () t := by
  cases p with
  | empty => rfl
  | root =>
    simp only [Instance.createDirAllInternal, bind, get, getThe, MonadStateOf.get, EStateM.bind, EStateM.get, h]
    rfl
  | join p c =>
    simp only [Instance.createDirAllInternal, bind, get, getThe, MonadStateOf.get, EStateM.bind, EStateM.get, h]
    rfl

theorem createDirAllInternal_join {p : Path} {c : Component} (h : (fs.metadata t (.join p c)).isOk = false) :
    Instance.createDirAllInternal fs (.join p c) t =
      match Instance.createDirAllInternal fs p t with
      | .ok _ t₁ => Instance.createDirUnlessExists fs (.join p c) t₁
      | .error e t₁ => .error e t₁ := by
  simp only [Instance.createDirAllInternal, bind, get, getThe, MonadStateOf.get, EStateM.bind, EStateM.get, h,
    Bool.false_eq_true, if_false]
  cases Instance.createDirAllInternal fs p t <;> rfl

/-- By induction on the path: its last component is created in what its parent leaves. -/
theorem createDirAllInternal_made (hm : fs.LawfulMetadata) (hc : fs.LawfulCreateDir) (p : Path)
    (habs : p.isAbsolute = true) :
    Made t p (Instance.createDirAllInternal fs p t) := by
  induction p generalizing t with
  | empty => cases habs
  | root =>
    have hroot : t.node [] ≠ none := by
      rw [t.root]
      exact Option.some_ne_none _
    rw [createDirAllInternal_exists ((hm t .root).mpr ⟨[], rfl, hroot⟩)]
    exact made_of_exists rfl hroot
  | join p c ih =>
    cases hok : (fs.metadata t (.join p c)).isOk with
    | true =>
      obtain ⟨l, hl, hnode⟩ := (hm _ _).mp hok
      rw [createDirAllInternal_exists hok]
      exact made_of_exists hl hnode
    | false =>
      have hp := ih (t := t) habs
      rw [createDirAllInternal_join hok]
      cases hr : Instance.createDirAllInternal fs p t with
      | ok u t₁ =>
        rw [hr] at hp
        exact createDirUnlessExists_made hc hp
      | error e t₁ =>
        rw [hr] at hp
        refine ⟨fun u t' h => (by cases h), fun e' t' h => ?_, ?_, fun u t' h => (by cases h),
          fun u t' h => (by cases h)⟩
        · cases h
          exact hp.onlyDirs_error e t₁ rfl
        · refine iff_of_false (fun ⟨_, h⟩ => by cases h) fun h => ?_
          obtain ⟨_, h'⟩ := hp.ok_iff.mpr h.parent
          cases h'

/-! ### `vfsMkdir` -/

/-- A path that was made a directory is one, with all above it, nothing is lost, and a file in its way is an error. -/
structure MkdirMeans (t : Tree) (p : Path) (r : EStateM.Result Error Tree Unit) : Prop where
  dirs : ∀ t', r = .ok () t' → ∀ q ∈ p.ancestors, ∃ l, q.locate = some l ∧ t'.node l = some .dir
  kept : ∀ t', r = .ok () t' → Tree.Extends t t'
  refused : (∃ q ∈ p.ancestors, FileAt t q) → ∃ e t', r = .error e t'

theorem withContext_ok {α : Type} {message : String} {x : Action FsError α} {a : α} :
    x.withContext message t = .ok a t' ↔ x t = .ok a t' := Failing.mapError_ok

theorem vfsMkdir_ok {path : String} : Instance.vfsMkdir fs path t = .ok () t' ↔
    Instance.createDirAllInternal fs (Path.new path) t = .ok () t' := withContext_ok

/-- Files in the way must be what prevents that the path is created. -/
theorem means_iff_not_creatable (hm : fs.LawfulMetadata) (hc : fs.LawfulCreateDir) {path : String}
    (habs : (Path.new path).isAbsolute = true) :
    MkdirMeans t (Path.new path) (Instance.vfsMkdir fs path t) ↔
      ((∃ q ∈ (Path.new path).ancestors, FileAt t q) → ¬Creatable t (Path.new path)) := by
  have hmade := createDirAllInternal_made (t := t) hm hc (Path.new path) habs
  constructor
  · intro h hfile hcreatable
    obtain ⟨t', ht'⟩ := hmade.ok_iff.mpr hcreatable
    obtain ⟨e, t'', herr⟩ := h.refused hfile
    rw [vfsMkdir_ok.mpr ht'] at herr
    cases herr
  · intro h
    refine ⟨fun t' ht' q hq => ?_, fun t' ht' => ?_, fun hfile => ?_⟩
    · rw [vfsMkdir_ok] at ht'
      obtain ⟨l, hl, hnode⟩ := hmade.exists_ _ _ ht' q hq
      refine ⟨l, hl, ?_⟩
      rcases hdir : t'.node l with - | - | b
      · exact absurd hdir hnode
      · rfl
      · have hfile := (hmade.onlyDirs _ _ ht').file_iff.mp hdir
        exact absurd (hmade.ok_iff.mp ⟨t', ht'⟩) (h ⟨q, hq, l, b, hl, hfile⟩)
    · exact (hmade.onlyDirs _ _ (vfsMkdir_ok.mp ht')).extends_
    · cases hr : Instance.vfsMkdir fs path t with
      | ok u t' => exact absurd (hmade.ok_iff.mp ⟨t', vfsMkdir_ok.mp hr⟩) (h hfile)
      | error e t' => exact ⟨e, t', rfl⟩

theorem not_creatable_iff {p : Path} : ¬Creatable t p ↔
    (∃ q n, .join q (.normal n) ∈ p.ancestors ∧ FileAt t q) ∨ ∃ q ∈ p.ancestors, q.locate = none := by
  constructor
  · intro h
    by_contra hno
    rw [not_or] at hno
    exact h ⟨fun q hq hnone => hno.2 ⟨q, hq, hnone⟩, fun q n hq hfile => hno.1 ⟨q, n, hq, hfile⟩⟩
  · rintro (⟨q, n, hq, hfile⟩ | ⟨q, hq, hnone⟩) h
    · exact h.notInFile q n hq hfile
    · exact h.located q hq hnone

/-- A file in the way of a path is refused only if the path goes on with a name after one, or leads above the root. The
    path itself may be a file. -/
theorem vfsMkdir_means_iff (hm : fs.LawfulMetadata) (hc : fs.LawfulCreateDir) (t : Tree) (path : String)
    (habs : (Path.new path).isAbsolute = true) :
    MkdirMeans t (Path.new path) (Instance.vfsMkdir fs path t) ↔
      ((∃ q ∈ (Path.new path).ancestors, FileAt t q) →
        (∃ q n, .join q (.normal n) ∈ (Path.new path).ancestors ∧ FileAt t q) ∨
          ∃ q ∈ (Path.new path).ancestors, q.locate = none) := by
  rw [means_iff_not_creatable hm hc habs, not_creatable_iff]

/-- A tree with one file in its root. -/
def oneFile (name : String) (contents : Bytes) : Tree :=
  FileTree.Tree.empty.setFile name [] (some contents) rfl

theorem oneFile_file {name : String} {contents : Bytes} : (oneFile name contents).file [name] = some contents :=
  Function.update_self ..

theorem oneFile_node {name : String} {contents : Bytes} : (oneFile name contents).node [name] = some (.file contents) :=
  Tree.node_eq_file.mpr ⟨rfl, oneFile_file⟩

theorem vfsMkdir_means_below_file : (Path.new "/a/b").isAbsolute = true ∧
    MkdirMeans (oneFile "a" []) (Path.new "/a/b") (Instance.vfsMkdir memFs "/a/b" (oneFile "a" [])) :=
  ⟨by decide, (vfsMkdir_means_iff memFs_metadata memFs_createDir (oneFile "a" []) "/a/b" (by decide)).mpr fun _ =>
    .inl ⟨.join .root (.normal "a"), "b", by decide, ["a"], [], rfl, oneFile_node⟩⟩

/-- The directory `/a` is created, says `vfsMkdir`, where a file is. -/
theorem vfsMkdir_ok_on_file : (Path.new "/a").isAbsolute = true ∧ FileAt (oneFile "a" []) (Path.new "/a") ∧
    Instance.vfsMkdir memFs "/a" (oneFile "a" []) = .ok () (oneFile "a" []) ∧
      ¬MkdirMeans (oneFile "a" []) (Path.new "/a") (Instance.vfsMkdir memFs "/a" (oneFile "a" [])) := by
  have hfile : FileAt (oneFile "a" []) (Path.new "/a") := ⟨["a"], [], by decide, oneFile_node⟩
  have hok : Instance.vfsMkdir memFs "/a" (oneFile "a" []) = .ok () (oneFile "a" []) :=
    vfsMkdir_ok.mpr (createDirAllInternal_exists (by decide))
  refine ⟨by decide, hfile, hok, fun h => ?_⟩
  obtain ⟨e, t', herr⟩ := h.refused ⟨_, Path.self_mem_ancestors _, hfile⟩
  rw [hok] at herr
  cases herr

/-! ### Paths without `..` -/

theorem Path.join_mem_ancestors {p q : Path} (hq : q ∈ p.ancestors) (hne : q ≠ p) : ∃ c, .join q c ∈ p.ancestors := by
  induction p with
  | empty => exact absurd (List.mem_singleton.mp hq) hne
  | root => exact absurd (List.mem_singleton.mp hq) hne
  | join p d ih =>
    rcases List.mem_cons.mp hq with rfl | hq'
    · exact absurd rfl hne
    · by_cases heq : q = p
      · subst heq
        exact ⟨d, List.mem_cons_self⟩
      · obtain ⟨c, hc⟩ := ih hq' heq
        exact ⟨c, List.mem_cons_of_mem _ hc⟩

/-- Without `..`, the directories are created unless a file is above the path. -/
theorem Made.ok_iff_noFileAbove {p : Path} {r : EStateM.Result FsError Tree Unit} (h : Made t p r) {l : List String}
    (hl : p.names = some l) : (∃ t', r = .ok () t') ↔ NoFileAbove t l := by
  refine ⟨?_, fun hno => h.ok_iff.mpr (creatable_of_noFileAbove hl hno)⟩
  rintro ⟨t', hr⟩ k b hs hne hb
  obtain ⟨l', hl', hnode⟩ := h.exists_ () t' hr p (Path.self_mem_ancestors p)
  rw [Path.locate_of_names hl] at hl'
  cases hl'
  exact noFileAbove_of_exists hnode k b hs hne ((h.onlyDirs () t' hr).extends_.node k _ hb)

/-- Without `..`, only the path itself may be a file that is not noticed. -/
theorem means_iff_of_names (hm : fs.LawfulMetadata) (hc : fs.LawfulCreateDir) {path : String} {l : List String}
    (hl : (Path.new path).names = some l) :
    MkdirMeans t (Path.new path) (Instance.vfsMkdir fs path t) ↔ ¬FileAt t (Path.new path) := by
  rw [means_iff_not_creatable hm hc (Path.isAbsolute_of_locate (Path.locate_of_names hl))]
  constructor
  · rintro h ⟨k, b, hk, hb⟩
    rw [Path.locate_of_names hl] at hk
    cases hk
    refine h ⟨_, Path.self_mem_ancestors _, l, b, Path.locate_of_names hl, hb⟩ (creatable_of_names hl ?_)
    rw [hb]
    exact Option.some_ne_none _
  · rintro h ⟨q, hq, hfile⟩ hcreatable
    have hne : q ≠ Path.new path := by
      rintro rfl
      exact h hfile
    obtain ⟨c, hc⟩ := Path.join_mem_ancestors hq hne
    obtain ⟨k, hk, -⟩ := Path.names_of_mem_ancestors hl hc
    obtain ⟨n, -, rfl, -, -⟩ := Path.names_join hk
    exact hcreatable.notInFile q n hc hfile

end Fs
end WasmerJs
