import WasmerJs.Pipe.Memory

/-! What is sent with `postMessage` (`src/tasks/interop.rs`). A message is a JS object with a field for each of its
    parts. A part that is no JS value is put into a box, and the address of the box is sent; the receiver has the
    same memory and takes the part out of the box. -/

namespace WasmerJs
namespace Wire

/-- What is sent but not looked into. A `wasmer::Module` is known by the JS module in it. -/
structure Platform where
  AsyncTask : Type
  BlockingTask : Type
  BlockingModuleTask : Type
  -- A `SpawnWasm` without what is written out below.
  WasmTask : Type
  WasmResumeTrigger : Type
  Module : Type
  -- `WebAssembly.Memory`
  Memory : Type
  MemoryType : Type
  ModuleHash : Type

variable {P : Platform}

/-- A `wasmer::Memory` -/
structure Memory (P : Platform) where
  handle : P.Memory
  ty : P.MemoryType

inductive WasmMemoryType (P : Platform) where
  | createMemory
  | createMemoryOfType (ty : P.MemoryType)
  | shareMemory (ty : P.MemoryType)

structure WasmRunTrigger (P : Platform) where
  run : P.WasmResumeTrigger
  memoryTy : P.MemoryType

structure SpawnWasm (P : Platform) where
  run : P.WasmTask
  runType : WasmMemoryType P
  trigger : Option (WasmRunTrigger P)

/-- `SpawnWasm::shared_memory_type` -/
def WasmMemoryType.sharedMemoryType : WasmMemoryType P → Option P.MemoryType
  | shareMemory ty => some ty
  | createMemory | createMemoryOfType _ => none

/-! ### JS values -/

/-- The JS values that are sent. A property that was not set is undefined. -/
inductive JsValue (P : Platform) where
  | undefined
  | number (n : Nat)
  | bool (b : Bool)
  | bigint (n : Nat)
  | string (s : String)
  | uint8Array (data : Bytes)
  | module (m : P.Module)
  | memory (m : P.Memory)
  | object (fields : String → JsValue P)

namespace JsValue

def ofU32 (n : BitVec 32) : JsValue P := .number n.toNat

def ofU64 (n : BitVec 64) : JsValue P := .bigint n.toNat

def string? : JsValue P → Option String
  | .string s => some s
  | _ => none

def bigint? : JsValue P → Option Nat
  | .bigint n => some n
  | _ => none

def uint8Array? : JsValue P → Option Bytes
  | .uint8Array data => some data
  | _ => none

def module? : JsValue P → Option P.Module
  | .module m => some m
  | _ => none

def memory? : JsValue P → Option P.Memory
  | .memory m => some m
  | _ => none

def typeof : JsValue P → String
  | undefined => "undefined"
  | number _ => "number"
  | bool _ => "boolean"
  | bigint _ => "bigint"
  | string _ => "string"
  | uint8Array _ | module _ | memory _ | object _ => "object"

/-- How a value is described that is not of the type which was asked for. -/
def details : JsValue P → String
  | undefined => "(null=false, undefined=true, is_object=false)"
  | number _ | bool _ | bigint _ | string _ => "(null=false, undefined=false, is_object=false)"
  | uint8Array _ => "Uint8Array"
  | module _ => "Module"
  | memory _ => "Memory"
  | object fields =>
    match fields "constructor" with
    -- The property is inherited.
    | undefined => "Object"
    | object constructor =>
      match constructor "name" with
      | string name => name
      | _ => "unknown"
    | _ => "unknown"

end JsValue

/-! ### Boxes -/

/-- An address is a `usize`. -/
abbrev Address := BitVec 32

inductive Boxed (P : Platform) where
  | asyncTask (task : P.AsyncTask)
  | blockingTask (task : P.BlockingTask)
  | blockingModuleTask (task : P.BlockingModuleTask)
  | spawnWasm (spawn : SpawnWasm P)

namespace Boxed

def asyncTask? : Boxed P → Option P.AsyncTask
  | .asyncTask task => some task
  | _ => none

def blockingTask? : Boxed P → Option P.BlockingTask
  | .blockingTask task => some task
  | _ => none

def blockingModuleTask? : Boxed P → Option P.BlockingModuleTask
  | .blockingModuleTask task => some task
  | _ => none

def spawnWasm? : Boxed P → Option (SpawnWasm P)
  | .spawnWasm spawn => some spawn
  | _ => none

end Boxed

/-- The boxes of all threads. -/
abbrev Heap (P : Platform) := Address → Option (Boxed P)

inductive Failure where
  | error (message : String)
  | panic (message : String)
  -- `Box::from_raw` of an address that is not one of a box with such a content.
  | undefinedBehaviour
  deriving DecidableEq

/-! ### The code outside the repository -/

/-- `serde_wasm_bindgen::from_value`, the hex digits of module hashes, and the memories of wasmer. -/
structure Bindings (P : Platform) where
  fromValueU32 : JsValue P → Except String (BitVec 32)
  fromValueU64 : JsValue P → Except String (BitVec 64)
  fromValueBool : JsValue P → Except String Bool
  fromValueString : JsValue P → Except String String
  hashToString : P.ModuleHash → String
  sha256ParseHex : String → Except String P.ModuleHash
  xxhashParseHex : String → Except String P.ModuleHash
  memoryFromJsvalue : P.MemoryType → JsValue P → Except String (Memory P)
  -- The copy that `copy_memory` makes.
  copyMemory : P.Memory → P.MemoryType → Except String P.Memory

/-- What is relied upon: values of Rust come back from the JS values they were turned into, and there is no number
    in a field that is missing. -/
structure Bindings.Lawful (b : Bindings P) : Prop where
  u32 : ∀ n, b.fromValueU32 (.ofU32 n) = .ok n
  u32_undefined : ∃ e, b.fromValueU32 .undefined = .error e
  u64 : ∀ n, b.fromValueU64 (.ofU64 n) = .ok n
  u64_undefined : ∃ e, b.fromValueU64 .undefined = .error e
  bool : ∀ x, b.fromValueBool (.bool x) = .ok x
  string : ∀ s, b.fromValueString (.string s) = .ok s
  -- Hashes of the two kinds have different lengths.
  hash : ∀ h, b.sha256ParseHex (b.hashToString h) = .ok h ∨
    (∃ e, b.sha256ParseHex (b.hashToString h) = .error e) ∧ b.xxhashParseHex (b.hashToString h) = .ok h
  memory : ∀ ty m, b.memoryFromJsvalue ty (.memory m) = .ok { handle := m, ty }

/-! ### Writing -/

def TYPE : String := "type"

/-- The object of a serializer, and the heap after the boxes it made. Setting a property of a new object does not
    fail. -/
structure Serializer (P : Platform) where
  obj : String → JsValue P
  heap : Heap P

namespace Serializer

def set (ser : Serializer P) (field : String) (value : JsValue P) : Serializer P :=
  { ser with obj := Function.update ser.obj field value }

def new (heap : Heap P) (ty : String) : Serializer P :=
  set { obj := fun _ => .undefined, heap } TYPE (.string ty)

/-- `ptr` is where the allocator puts the box. -/
def boxed (ser : Serializer P) (ptr : Address) (field : String) (value : Boxed P) : Serializer P :=
  { ser with heap := Function.update ser.heap ptr (some value) }.set field (.bigint ptr.toNat)

def finish (ser : Serializer P) : JsValue P × Heap P := (.object ser.obj, ser.heap)

@[simp] theorem set_heap (ser : Serializer P) (field : String) (value : JsValue P) :
    (ser.set field value).heap = ser.heap := rfl

@[simp] theorem new_heap (heap : Heap P) (ty : String) : (new heap ty).heap = heap := rfl

@[simp] theorem new_obj (heap : Heap P) (ty : String) :
    (new heap ty).obj = Function.update (fun _ => .undefined) TYPE (.string ty) := rfl

@[simp] theorem boxed_heap (ser : Serializer P) (ptr : Address) (field : String) (value : Boxed P) :
    (ser.boxed ptr field value).heap = Function.update ser.heap ptr (some value) := rfl

@[simp] theorem boxed_obj (ser : Serializer P) (ptr : Address) (field : String) (value : Boxed P) :
    (ser.boxed ptr field value).obj = Function.update ser.obj field (.bigint ptr.toNat) := rfl

end Serializer

/-! ### Reading -/

/-- A computation that takes boxes off the heap. -/
abbrev Unbox (P : Platform) := StateT (Heap P) (Except Failure)

/-- `Reflect::get` -/
def reflectGet : JsValue P → String → Except Failure (JsValue P)
  | .object fields, field => .ok (fields field)
  | .uint8Array _, _ | .module _, _ | .memory _, _ => .ok .undefined
  | .undefined, _ | .number _, _ | .bool _, _ | .bigint _, _ | .string _, _ =>
    .error (.error "Reflect.get called on non-object")

abbrev Deserializer (P : Platform) := JsValue P

namespace Deserializer

variable {T : Type}

/-- The value is not of the type that was asked for. -/
def castError (field typeName : String) (value : JsValue P) : Failure :=
  .error ("The \"" ++ field ++ "\" field isn't a \"" ++ typeName ++ "\". typeof=" ++ value.typeof ++ ", details=" ++
    value.details)

/-- `dyn_into` is given by the type's name and its cast. -/
def js (de : Deserializer P) (field typeName : String) (cast : JsValue P → Option T) : Except Failure T := do
  let value ← reflectGet de field
  match cast value with
  | some value => .ok value
  | none => .error (castError field typeName value)

def string (de : Deserializer P) (field : String) : Except Failure String :=
  js de field "js_sys::JsString" JsValue.string?

def ty (de : Deserializer P) : Except Failure String := string de TYPE

def serde (de : Deserializer P) (field : String) (fromValue : JsValue P → Except String T) : Except Failure T := do
  let raw ← js de field "wasm_bindgen::JsValue" some
  (fromValue raw).mapError .error

def uint8Array (de : Deserializer P) (field : String) : Except Failure Bytes :=
  js de field "js_sys::Uint8Array" JsValue.uint8Array?

def module (de : Deserializer P) (field : String) : Except Failure P.Module :=
  js de field "js_sys::WebAssembly::Module" JsValue.module?

def memory (de : Deserializer P) (field : String) : Except Failure P.Memory :=
  js de field "js_sys::WebAssembly::Memory" JsValue.memory?

/-- The content of a box is moved out of it, and the box is freed. -/
def boxed (de : Deserializer P) (field : String) (content : Boxed P → Option T) : Unbox P T := fun heap => do
  let rawAddress ← js de field "js_sys::BigInt" JsValue.bigint?
  if rawAddress < 2 ^ 64 then
    let address := BitVec.ofNat 32 rawAddress
    match (heap address).bind content with
    | some value => .ok (value, Function.update heap address none)
    | none => .error .undefinedBehaviour
  else
    .error (.panic "called `Result::unwrap()` on an `Err` value")

/-- A hash of one of the two kinds is read from its hex digits. -/
def moduleHash (b : Bindings P) (de : Deserializer P) (field : String) : Except Failure P.ModuleHash := do
  let hash ← string de field
  match b.sha256ParseHex hash with
  | .ok hash => .ok hash
  | .error _ => (b.xxhashParseHex hash).mapError .error

/-! Reading from a message. -/

variable {obj : String → JsValue P} {field : String} {v : T}

end Deserializer

theorem Failure.of_bind_ok {A B : Type} {x : Except Failure A} {f : A → Except Failure B} {y : B}
    (h : (x >>= f) = .ok y) : ∃ a, x = .ok a ∧ f a = .ok y := by
  cases x with
  | error e => cases h
  | ok a => exact ⟨a, rfl, h⟩

theorem Unbox.bind_run {A B : Type} {x : Unbox P A} {a : A} {heap heap' : Heap P} {f : A → Unbox P B}
    (h : x heap = .ok (a, heap')) : (x >>= f) heap = f a heap' := by
  show (x heap >>= fun y => f y.1 y.2) = _
  rw [h]
  rfl

theorem Unbox.bind_ok {A B : Type} {x : Except Failure A} {a : A} {f : A → Unbox P B} (h : x = .ok a)
    (heap : Heap P) : ((liftM x : Unbox P A) >>= f) heap = f a heap := by
  rw [h]
  rfl

/-! ### Messages in flight -/

/-- A message that was written with the heap going from `before` to `after` arrives as `m`. Whatever else was done
    on the heap meanwhile: as long as the boxes that were made for the message are still there, it can be read, and
    these boxes, and no others, are taken off the heap. -/
def Arrives {M : Type} (read : Unbox P M) (before after : Heap P) (m : M) : Prop :=
  ∀ heap, (∀ a, before a ≠ after a → heap a = after a) →
    ∃ heap', read heap = .ok (m, heap') ∧
      ∀ a, (before a ≠ after a → heap' a = none) ∧ (before a = after a → heap' a = heap a)

namespace Arrives

variable {M N : Type} {read : Unbox P M} {before after heap : Heap P} {m : M} {ptr : Address}

/-- What is read is wrapped. -/
theorem map (h : Arrives read before after m) (f : M → N) :
    Arrives (read >>= fun m => pure (f m)) before after (f m) := by
  intro heap hkept
  obtain ⟨heap', hread, hheap⟩ := h heap hkept
  refine ⟨heap', ?_, hheap⟩
  show (read heap >>= fun x => Except.ok (f x.1, x.2)) = _
  rw [hread]
  rfl

end Arrives
end Wire
end WasmerJs
