import Mathlib.Data.List.Sort
import WasmerJs.Pipe.Memory

/-! The options that a program is started with, and the two things that are configured with them: a `WasiEnvBuilder`
    (`src/options.rs`) and a `WasiRunner` (`src/wasmer.rs`). -/

namespace WasmerJs
namespace Run

/-- What is thrown. -/
inductive Error where
  | typeError (message : String)
  | rust (message : String)
  -- The value is of none of the types that the option may have.
  | unreachable
  deriving DecidableEq

inductive StringOrBytes where
  | string (s : String)
  | bytes (data : Bytes)
  deriving DecidableEq

def StringOrBytes.asBytes : StringOrBytes → Bytes
  | .string s => s.toUTF8.toList
  | .bytes data => data

/-- What the options contain. A `DirectoryInit` is an object with a value for each file. -/
inductive JsValue (Directory : Type) where
  | string (s : String)
  | directory (d : Directory)
  | object (entries : List (String × StringOrBytes))
  | other
  deriving DecidableEq

/-- What the options rely on: modules, packages, the runtime, and file systems that directories are mounted to. -/
structure Host where
  Directory : Type
  Runtime : Type
  WasmModule : Type
  Module : Type
  Package : Type
  -- `Directory::new` with a `DirectoryInit`.
  newDirectory : List (String × StringOrBytes) → Except Error Directory
  -- Whether `TmpFileSystem::mount` takes one more directory.
  mounts : List (String × Directory) → String → Bool
  -- `WasiEnvBuilder::add_preopen_dir`
  addPreopenDir : List (String × Directory) → String → Except Error Unit
  -- `Runtime::lazily_initialized`
  lazilyInitialized : Except Error Runtime
  toModule : Runtime → WasmModule → Except Error Module
  loadPackage : Runtime → String → Except Error Package
  -- The atom of a command of a package.
  command : Package → String → Module
  -- `spawn_with_module` and `task_dedicated` of the thread pool of a runtime.
  spawnWithModule : Runtime → Except Error Unit
  taskDedicated : Runtime → Except Error Unit

variable {H : Host}

structure CommonOptions (H : Host) where
  args : Option (List (JsValue H.Directory)) := none
  env : Option (List (String × JsValue H.Directory)) := none
  stdin : Option StringOrBytes := none
  mount : Option (List (String × JsValue H.Directory)) := none
  cwd : Option String := none

structure RunOptions (H : Host) extends CommonOptions H where
  program : Option String := none
  runtime : Option H.Runtime := none

structure SpawnOptions (H : Host) extends CommonOptions H where
  uses : Option (List (JsValue H.Directory)) := none

/-! ### Reading the options -/

/-- The UTF-16 code units by which JS strings are compared. -/
def utf16 (s : String) : List Nat :=
  s.toList.flatMap fun c =>
    if c.toNat < 0x10000 then [c.toNat] else [0xD800 + (c.toNat - 0x10000) / 0x400, 0xDC00 + (c.toNat - 0x10000) % 0x400]

/-- `object_entries`, as a `BTreeMap` by keys, of which an object has no two that are the same. -/
def objectEntries {α : Type} (obj : List (String × α)) : List (String × α) :=
  obj.insertionSort fun x y => utf16 x.1 ≤ utf16 y.1

def jsStringArray (array : List (JsValue H.Directory)) : Except Error (List String) :=
  array.mapM fun
    | .string s => .ok s
    | _ => .error (.typeError "Expected an array of strings")

def jsRecordOfStrings (obj : List (String × JsValue H.Directory)) : Except Error (List (String × String)) :=
  (objectEntries obj).mapM fun
    | (key, .string value) => .ok (key, value)
    | _ => .error (.typeError "Expected an object mapping strings to strings")

namespace CommonOptions

def parseArgs (o : CommonOptions H) : Except Error (List String) :=
  match o.args with
  | some args => jsStringArray args
  | none => .ok []

/-- The variables are collected into a `BTreeMap`. -/
def parseEnv (o : CommonOptions H) : Except Error (List (String × String)) :=
  match o.env with
  | some env => do
    let vars ← jsRecordOfStrings env
    .ok (vars.insertionSort fun x y => x.1 ≤ y.1)
  | none => .ok []

def readStdin (o : CommonOptions H) : Option Bytes := o.stdin.map StringOrBytes.asBytes

def mountedDirectories (o : CommonOptions H) : Except Error (List (String × H.Directory)) :=
  match o.mount with
  | some obj => (objectEntries obj).mapM fun
    | (key, .directory d) => .ok (key, d)
    | (key, .object init) => do
      let d ← H.newDirectory init
      .ok (key, d)
    | _ => .error .unreachable
  | none => .ok []

end CommonOptions

/-- The error of a mount that is refused. -/
def unableToMount (dest : String) : Error := .rust ("Unable to mount to \"" ++ dest ++ "\"")

/-- A `TmpFileSystem`, as the directories that were mounted to it. -/
abbrev TmpFileSystem (H : Host) : Type := List (String × H.Directory)

def TmpFileSystem.mount (root : TmpFileSystem H) (x : String × H.Directory) : Except Error (TmpFileSystem H) :=
  if H.mounts root x.1 then .ok (root ++ [x]) else .error (unableToMount x.1)

/-- The directories are mounted one after the other. -/
def TmpFileSystem.mountAll (dirs : List (String × H.Directory)) : Except Error (TmpFileSystem H) :=
  dirs.foldlM TmpFileSystem.mount []

/-! ### Pipes and streams -/

/-- What a program reads from or writes to; a pipe is known by its number. -/
inductive File where
  | static (data : Bytes)
  | pipe (id : Nat)
  deriving DecidableEq

/-- The other end of a pipe, as a `ReadableStream` or a `WritableStream`. -/
structure Stream where
  pipe : Nat
  deriving DecidableEq

/-- A task that copies what the user writes into a terminal, which passes it on and echoes it. -/
structure Tty where
  user : Nat
  stdin : Nat
  stdout : Nat
  deriving DecidableEq

/-- The pipes that were made, the terminals that run, and whether the runtime reports a terminal. -/
structure World where
  nextPipe : Nat
  ttys : List Tty
  connectedToTty : Bool

abbrev Setup (α : Type) : Type := StateT World (Except Error) α

/-- `Pipe::channel` -/
def channel : Setup Nat := fun w => .ok (w.nextPipe, { w with nextPipe := w.nextPipe + 1 })

def inputPipe : Setup (File × Stream) := do
  let id ← channel
  return (.pipe id, { pipe := id })

def outputPipe : Setup (File × Stream) := do
  let id ← channel
  return (.pipe id, { pipe := id })

/-- The streams and the file system of an `Instance`. -/
structure Streams (H : Host) where
  stdin : Option Stream
  stdout : Stream
  stderr : Stream
  fs : TmpFileSystem H

/-! ### The builder -/

structure WasiEnvBuilder (H : Host) where
  programName : String
  runtime : H.Runtime
  args : List String := []
  envs : List (String × String) := []
  stdin : Option File := none
  stdout : Option File := none
  stderr : Option File := none
  fs : Option (TmpFileSystem H) := none
  preopenDirs : List String := []

def RunOptions.filesystem (o : RunOptions H) : Except Error (TmpFileSystem H) := do
  let dirs ← o.mountedDirectories
  TmpFileSystem.mountAll dirs

def RunOptions.configureBuilder (o : RunOptions H) (b : WasiEnvBuilder H) : Setup (Streams H × WasiEnvBuilder H) := do
  let args ← o.parseArgs
  let b := { b with args := b.args ++ args }
  let envs ← o.parseEnv
  let b := { b with envs := b.envs ++ envs }
  let (file, stdin) ← match o.readStdin with
    | some stdin => pure (File.static stdin, none)
    | none => do
      let (f, stdin) ← inputPipe
      pure (f, some stdin)
  let b := { b with stdin := some file }
  let (stdoutFile, stdout) ← outputPipe
  let b := { b with stdout := some stdoutFile }
  let (stderrFile, stderr) ← outputPipe
  let b := { b with stderr := some stderrFile }
  let fs ← o.filesystem
  H.addPreopenDir fs "/"
  let b := { b with fs := some fs, preopenDirs := b.preopenDirs ++ ["/"] }
  return ({ stdin, stdout, stderr, fs }, b)

/-! ### The runner -/

/-- What the `with_*` methods of a `WasiRunner` were given. -/
structure WasiRunner (H : Host) where
  args : List String := []
  envs : List (String × String) := []
  currentDir : Option String := none
  mounts : List (String × H.Directory) := []
  injectedPackages : List H.Package := []
  stdin : Option File := none
  stdout : Option File := none
  stderr : Option File := none

namespace WasiRunner

def withArgs (r : WasiRunner H) (args : List String) : WasiRunner H := { r with args }

def withEnvs (r : WasiRunner H) (envs : List (String × String)) : WasiRunner H := { r with envs }

def withCurrentDir (r : WasiRunner H) (cwd : String) : WasiRunner H := { r with currentDir := some cwd }

def withMount (r : WasiRunner H) (dest : String) (dir : H.Directory) : WasiRunner H :=
  { r with mounts := r.mounts ++ [(dest, dir)] }

def withInjectedPackages (r : WasiRunner H) (packages : List H.Package) : WasiRunner H :=
  { r with injectedPackages := packages }

def withStdin (r : WasiRunner H) (f : File) : WasiRunner H := { r with stdin := some f }

def withStdout (r : WasiRunner H) (f : File) : WasiRunner H := { r with stdout := some f }

def withStderr (r : WasiRunner H) (f : File) : WasiRunner H := { r with stderr := some f }

end WasiRunner

inductive TerminalMode where
  | interactive (stdinPipe stdoutPipe : File) (stdoutStream stdinStream : Stream)
  | nonInteractive (stdin : File)

def setupTty (o : SpawnOptions H) : Setup TerminalMode := do
  if let some stdin := o.readStdin then
    return .nonInteractive (.static stdin)
  let (stdoutPipe, stdoutStream) ← outputPipe
  let (_, stdinStream) ← inputPipe
  -- The terminal writes what the user has written into another pipe.
  let id ← channel
  modify fun w => { w with
    ttys := w.ttys ++ [{ user := stdinStream.pipe, stdin := id, stdout := stdoutStream.pipe }] }
  return .interactive (.pipe id) stdoutPipe stdoutStream stdinStream

def loadInjectedPackages (packages : List String) (runtime : H.Runtime) : Except Error (List H.Package) :=
  packages.mapM (H.loadPackage runtime)

/-- The options that the streams have nothing to do with. -/
def passOptions (o : SpawnOptions H) (r : WasiRunner H) (runtime : H.Runtime) :
    Except Error (WasiRunner H × TmpFileSystem H) := do
  let args ← o.parseArgs
  let r := r.withArgs args
  let envs ← o.parseEnv
  let r := r.withEnvs envs
  let r := (o.cwd.map r.withCurrentDir).getD r
  let dirs ← o.mountedDirectories
  let fs ← TmpFileSystem.mountAll dirs
  let r := dirs.foldl (fun r x => r.withMount x.1 x.2) r
  match o.uses with
  | some uses => do
    let uses ← jsStringArray uses
    let packages ← loadInjectedPackages uses runtime
    .ok (r.withInjectedPackages packages, fs)
  | none => .ok (r, fs)

def configureRunner (o : SpawnOptions H) (r : WasiRunner H) (runtime : H.Runtime) :
    Setup (Streams H × WasiRunner H) := do
  let (r, fs) ← passOptions o r runtime
  let (stderrPipe, stderr) ← outputPipe
  let r := r.withStderr stderrPipe
  match ← setupTty o with
  | .interactive stdinPipe stdoutPipe stdoutStream stdinStream =>
    modify fun w => { w with connectedToTty := true }
    return ({ stdin := some stdinStream, stdout := stdoutStream, stderr, fs },
      (r.withStdin stdinPipe).withStdout stdoutPipe)
  | .nonInteractive stdin =>
    let (stdoutPipe, stdoutStream) ← outputPipe
    modify fun w => { w with connectedToTty := false }
    return ({ stdin := none, stdout := stdoutStream, stderr, fs }, (r.withStdin stdin).withStdout stdoutPipe)

end Run
end WasmerJs
