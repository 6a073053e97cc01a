import WasmerJs.Run.Options

/-! The environment that a program is started in, by `runWasix` (`src/run.rs`) and as the command of a package
    (`src/wasmer.rs`). A command gets a runner that the options were passed on to. `runWasix` passes the options on to a
    builder, which nothing takes, and gives the program a runner of its own. -/

namespace WasmerJs
namespace Run

variable {H : Host} {α β : Type}

/-- What the task on the thread pool runs. -/
structure Program (H : Host) where
  runner : WasiRunner H
  name : String
  module : H.Module

/-- The `Instance` that is returned, and the program that was started. -/
structure Started (H : Host) where
  streams : Streams H
  program : Program H

def DEFAULT_PROGRAM_NAME : String := "wasm"

/-- `OptionalRuntime::resolve` -/
def RunOptions.resolve (o : RunOptions H) : Except Error H.Runtime :=
  match o.runtime with
  | some runtime => .ok runtime
  | none => H.lazilyInitialized

def runWasixInner (wasm : H.WasmModule) (config : RunOptions H) : Setup (Started H) := do
  let runtime ← config.resolve
  let programName := config.program.getD DEFAULT_PROGRAM_NAME
  -- Only the streams are taken from what was configured.
  let (streams, _) ← config.configureBuilder { programName, runtime }
  let runner : WasiRunner H := {}
  let module ← H.toModule runtime wasm
  H.spawnWithModule runtime
  return { streams, program := { runner, name := programName, module } }

structure Command (H : Host) where
  name : String
  pkg : H.Package
  runtime : H.Runtime

def Command.run (c : Command H) (options : Option (SpawnOptions H)) : Setup (Started H) := do
  let options := options.getD {}
  let (streams, runner) ← configureRunner options {} c.runtime
  H.taskDedicated c.runtime
  return { streams, program := { runner, name := c.name, module := H.command c.pkg c.name } }

/-! ### What is the same -/

/-- What a program reads from a file: the bytes that were given, or what the user writes. -/
inductive Contents where
  | bytes (data : Bytes)
  | stream
  deriving DecidableEq

def File.contents : File → Contents
  | .static data => .bytes data
  | .pipe _ => .stream

/-- The streams that were returned are the ones that the program writes to. -/
structure Started.WritesToStreams (x : Started H) : Prop where
  stdout : x.program.runner.stdout = some (.pipe x.streams.stdout.pipe)
  stderr : x.program.runner.stderr = some (.pipe x.streams.stderr.pipe)

/-- Two programs find the same environment, and both write to the streams that were returned. -/
structure SameEnvironment (x y : Started H) : Prop where
  args : x.program.runner.args = y.program.runner.args
  envs : x.program.runner.envs = y.program.runner.envs
  stdin : x.program.runner.stdin.map File.contents = y.program.runner.stdin.map File.contents
  mounts : x.program.runner.mounts = y.program.runner.mounts
  currentDir : x.program.runner.currentDir = y.program.runner.currentDir
  writes : x.WritesToStreams ∧ y.WritesToStreams

/-- A runner was given all that the options say, and the other ends of the streams. -/
structure Carries (o : CommonOptions H) (s : Streams H) (r : WasiRunner H) (w : World) : Prop where
  args : o.parseArgs = .ok r.args
  envs : o.parseEnv = .ok r.envs
  currentDir : r.currentDir = o.cwd
  mounts : o.mountedDirectories = .ok r.mounts
  fs : TmpFileSystem.mountAll r.mounts = .ok s.fs
  -- The bytes that were given, or what a terminal makes of what the user writes.
  stdin : (∃ data, o.readStdin = some data ∧ r.stdin = some (.static data) ∧ s.stdin = none) ∨
    o.readStdin = none ∧ ∃ t ∈ w.ttys, r.stdin = some (.pipe t.stdin) ∧ s.stdin = some { pipe := t.user } ∧
      t.stdout = s.stdout.pipe
  stdout : r.stdout = some (.pipe s.stdout.pipe)
  stderr : r.stderr = some (.pipe s.stderr.pipe)

/-! ### Computations that succeed -/

theorem bind_ok {x : Setup α} {f : α → Setup β} {w w' : World} {b : β} (h : (x >>= f) w = .ok (b, w')) :
    ∃ a w₁, x w = .ok (a, w₁) ∧ f a w₁ = .ok (b, w') := by
  simp only [bind, StateT.bind] at h
  cases hx : x w with
  | error e => simp [hx, Except.bind] at h
  | ok y => exact ⟨y.1, y.2, rfl, by simpa [hx, Except.bind] using h⟩

theorem lift_ok {x : Except Error α} {w w' : World} {a : α} (h : (liftM x : Setup α) w = .ok (a, w')) :
    x = .ok a ∧ w' = w := by
  cases x with
  | error e => cases h
  | ok b =>
    cases h
    exact ⟨rfl, rfl⟩

theorem except_bind_ok {ε : Type} {x : Except ε α} {f : α → Except ε β} {b : β} (h : (x >>= f) = .ok b) :
    ∃ a, x = .ok a ∧ f a = .ok b := by
  cases x with
  | error e => cases h
  | ok a => exact ⟨a, rfl, h⟩

theorem setupTty_ok {o : SpawnOptions H} {w w' : World} {m : TerminalMode} (h : setupTty o w = .ok (m, w')) :
    (∃ data, o.readStdin = some data ∧ m = .nonInteractive (.static data)) ∨
      o.readStdin = none ∧ ∃ t ∈ w'.ttys,
        m = .interactive (.pipe t.stdin) (.pipe t.stdout) { pipe := t.stdout } { pipe := t.user } := by
  unfold setupTty at h
  cases hs : o.readStdin with
  | some data =>
    rw [hs] at h
    cases h
    exact .inl ⟨data, rfl, rfl⟩
  | none =>
    rw [hs] at h
    cases h
    exact .inr ⟨rfl, _, List.mem_append_right _ (List.mem_singleton_self _), rfl⟩

theorem withMount_foldl {dirs : List (String × H.Directory)} {r : WasiRunner H} :
    dirs.foldl (fun r x => r.withMount x.1 x.2) r = { r with mounts := r.mounts ++ dirs } := by
  induction dirs generalizing r with
  | nil => simp
  | cons x dirs ih =>
    rw [List.foldl_cons, ih]
    simp [WasiRunner.withMount]

/-- The options that are passed on to a new runner. -/
theorem passOptions_ok {o : SpawnOptions H} {runtime : H.Runtime} {r : WasiRunner H} {fs : TmpFileSystem H}
    (h : passOptions o {} runtime = .ok (r, fs)) :
    o.parseArgs = .ok r.args ∧ o.parseEnv = .ok r.envs ∧ r.currentDir = o.cwd ∧ o.mountedDirectories = .ok r.mounts ∧
      TmpFileSystem.mountAll r.mounts = .ok fs := by
  unfold passOptions at h
  obtain ⟨args, hargs, h⟩ := except_bind_ok h
  obtain ⟨envs, henvs, h⟩ := except_bind_ok h
  obtain ⟨dirs, hdirs, h⟩ := except_bind_ok h
  obtain ⟨fs', hfs, h⟩ := except_bind_ok h
  -- The runner as far as the packages do not matter.
  have hr : r.args = args ∧ r.envs = envs ∧ r.currentDir = o.cwd ∧ r.mounts = dirs ∧ fs = fs' := by
    simp only [withMount_foldl] at h
    split at h
    · obtain ⟨uses, -, h⟩ := except_bind_ok h
      obtain ⟨packages, -, h⟩ := except_bind_ok h
      cases h
      cases o.cwd <;> exact ⟨rfl, rfl, rfl, rfl, rfl⟩
    · cases h
      cases o.cwd <;> exact ⟨rfl, rfl, rfl, rfl, rfl⟩
  obtain ⟨rfl, rfl, hcwd, rfl, rfl⟩ := hr
  exact ⟨hargs, henvs, hcwd, hdirs, hfs⟩

theorem configureRunner_carries {o : SpawnOptions H} {runtime : H.Runtime} {w w' : World} {s : Streams H}
    {r : WasiRunner H} (h : configureRunner o {} runtime w = .ok ((s, r), w')) :
    Carries o.toCommonOptions s r w' := by
  obtain ⟨⟨r₁, fs⟩, w₁, hlift, h₁⟩ := bind_ok h
  obtain ⟨hpass, -⟩ := lift_ok hlift
  obtain ⟨hargs, henvs, hcwd, hmounts, hfs⟩ := passOptions_ok hpass
  obtain ⟨⟨stderrPipe, stderr⟩, w₂, hstderr, h₂⟩ := bind_ok h₁
  cases hstderr
  obtain ⟨m, w₃, hm, h₃⟩ := bind_ok h₂
  rcases setupTty_ok hm with ⟨data, hdata, rfl⟩ | ⟨hdata, t, ht, rfl⟩
  · cases h₃
    exact ⟨hargs, henvs, hcwd, hmounts, hfs, .inl ⟨data, hdata, rfl, rfl⟩, rfl, rfl⟩
  · cases h₃
    exact ⟨hargs, henvs, hcwd, hmounts, hfs, .inr ⟨hdata, t, ht, rfl, rfl, rfl⟩, rfl, rfl⟩

/-! ### The two entry points -/

/-- A command is run with all of its options. -/
theorem Command.run_carries {c : Command H} {o : Option (SpawnOptions H)} {w w' : World} {x : Started H}
    (h : c.run o w = .ok (x, w')) : Carries (o.getD {}).toCommonOptions x.streams x.program.runner w' := by
  obtain ⟨⟨s, r⟩, w₁, hconf, h₁⟩ := bind_ok h
  obtain ⟨u, w₂, hspawn, h₂⟩ := bind_ok h₁
  obtain ⟨-, rfl⟩ := lift_ok hspawn
  cases h₂
  exact configureRunner_carries hconf

/-- The runner of `runWasix` is given nothing. -/
theorem runWasixInner_runner {wasm : H.WasmModule} {config : RunOptions H} {w w' : World} {x : Started H}
    (h : runWasixInner wasm config w = .ok (x, w')) : x.program.runner = {} := by
  obtain ⟨runtime, w₁, -, h₁⟩ := bind_ok h
  obtain ⟨⟨s, b⟩, w₂, -, h₂⟩ := bind_ok h₁
  obtain ⟨module, w₃, -, h₃⟩ := bind_ok h₂
  obtain ⟨-, w₄, -, h₄⟩ := bind_ok h₃
  cases h₄
  rfl

variable {wasm : H.WasmModule} {config : RunOptions H} {cmd : Command H} {w w' v v' : World} {x y : Started H}

/-- Each option that was given makes a difference between the two programs, and the streams do in any case: what the
    first program reads and writes has nothing to do with those that were returned. -/
structure IgnoresOptions (config : RunOptions H) (x y : Started H) : Prop where
  args : x.program.runner.args = y.program.runner.args ↔ config.parseArgs = .ok []
  envs : x.program.runner.envs = y.program.runner.envs ↔ config.parseEnv = .ok []
  mounts : x.program.runner.mounts = y.program.runner.mounts ↔ config.mountedDirectories = .ok []
  currentDir : x.program.runner.currentDir = y.program.runner.currentDir ↔ config.cwd = none
  stdin : x.program.runner.stdin.map File.contents ≠ y.program.runner.stdin.map File.contents
  writes : ¬ x.WritesToStreams ∧ y.WritesToStreams

theorem runWasix_ignores_options (hx : runWasixInner wasm config w = .ok (x, w'))
    (hy : cmd.run (some { config.toCommonOptions with }) v = .ok (y, v')) : IgnoresOptions config x y := by
  have hr := runWasixInner_runner hx
  have hc : Carries config.toCommonOptions y.streams y.program.runner v' := Command.run_carries hy
  refine ⟨?_, ?_, ?_, ?_, ?_, ?_, hc.stdout, hc.stderr⟩
  · simp [hr, hc.args, eq_comm]
  · simp [hr, hc.envs, eq_comm]
  · simp [hr, hc.mounts, eq_comm]
  · simp [hr, hc.currentDir, eq_comm]
  · rw [hr]
    rcases hc.stdin with ⟨data, -, hstdin, -⟩ | ⟨-, t, -, hstdin, -⟩
    · simp [hstdin]
    · simp [hstdin]
  · intro h
    have hstdout := h.stdout
    rw [hr] at hstdout
    cases hstdout

/-- Whatever the options are, a program that `runWasix` starts does not find the environment that it would find as the
    command of a package. -/
theorem runWasix_differs (hx : runWasixInner wasm config w = .ok (x, w'))
    (hy : cmd.run (some { config.toCommonOptions with }) v = .ok (y, v')) : ¬ SameEnvironment x y :=
  fun h => (runWasix_ignores_options hx hy).stdin h.stdin

/-- A page where every module loads and no directory is refused. -/
def plainHost : Host where
  Directory := Unit
  Runtime := Unit
  WasmModule := Unit
  Module := Unit
  Package := Unit
  newDirectory _ := .ok ()
  mounts _ _ := true
  addPreopenDir _ _ := .ok ()
  lazilyInitialized := .ok ()
  toModule _ _ := .ok ()
  loadPackage _ _ := .ok ()
  command _ _ := ()
  spawnWithModule _ := .ok ()
  taskDedicated _ := .ok ()

def versionOptions : RunOptions plainHost := { args := some [.string "--version"] }

def entrypoint : Command plainHost := { name := "entrypoint", pkg := (), runtime := () }

def emptyWorld : World := { nextPipe := 0, ttys := [], connectedToTty := false }

/-- Both start a program that is to print its version. -/
theorem runWasix_differs_version :
    ∃ x y w' v', runWasixInner (H := plainHost) () versionOptions emptyWorld = .ok (x, w') ∧
      entrypoint.run (some { versionOptions.toCommonOptions with }) emptyWorld = .ok (y, v') ∧ ¬ SameEnvironment x y := by
  obtain ⟨⟨x, w'⟩, hx⟩ : ∃ r, runWasixInner (H := plainHost) () versionOptions emptyWorld = .ok r := ⟨_, rfl⟩
  obtain ⟨⟨y, v'⟩, hy⟩ : ∃ r, entrypoint.run (some { versionOptions.toCommonOptions with }) emptyWorld = .ok r :=
    ⟨_, rfl⟩
  exact ⟨x, y, w', v', hx, hy, runWasix_differs hx hy⟩

/-- The argument gets to the command, and not to the program that `runWasix` starts. -/
theorem args_get_lost :
    ¬ ∀ (config : RunOptions plainHost) (cmd : Command plainHost) w w' x v v' y,
      runWasixInner (H := plainHost) () config w = .ok (x, w') →
      cmd.run (some { config.toCommonOptions with }) v = .ok (y, v') → SameEnvironment x y := by
  intro hall
  have hargs := (hall versionOptions entrypoint emptyWorld _ _ emptyWorld _ _ rfl rfl).args
  cases hargs

end Run
end WasmerJs
