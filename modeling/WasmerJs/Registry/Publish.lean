import WasmerJs.Lib.Failing
import WasmerJs.Registry.Upload

/-! How a package is published (`publish_package_inner`, `src/registry/package/mod.rs`). -/

namespace WasmerJs
namespace Registry

inductive Failure where
  | error (message : String)
  | panic (message : String)
  deriving DecidableEq

/-- What the model does not look into: the sections of a manifest other than `package`, the fields of an app config other
    than `package` and `owner`, an `AppConfigV1`, and the answer to a deployment. -/
structure Opaque where
  Sections : Type
  Fields : Type
  AppConfigV1 : Type
  DeployedApp : Type

/-- The `package` section of a manifest. -/
structure PackageSection where
  name : Option String := none
  version : Option String := none
  description : Option String := none
  license : Option String := none
  licenseFile : Option String := none
  readme : Option String := none
  homepage : Option String := none
  repository : Option String := none
  private_ : Bool := false
  deriving DecidableEq

structure Manifest (O : Opaque) where
  package : Option PackageSection
  sections : O.Sections

/-- The id of a release in the registry, and the hash of its container. -/
structure Release where
  id : String
  hash : Option String

/-- What is asked from the registry. -/
inductive Request (O : Opaque) where
  | getPackageRelease (hash : String)
  | getSignedUrlForPackageUpload
  | upload (data : Bytes) (url : String)
  | pushPackageRelease (name : Option String) (packageNamespace url : String) (isPrivate : Option Bool)
  | tagPackageRelease (section_ : PackageSection) (manifest name id : String) (isPrivate : Option Bool) (version : String)
  | publishDeployApp (config name : String) (owner : Option String) (makeDefault : Option Bool)

/-- The code outside the repository. The registry may answer by all requests that were made before. -/
structure Backend (O : Opaque) where
  getClient : List (Request O) → Except String Unit
  getPackageRelease : List (Request O) → String → Except String (Option Release)
  getSignedUrl : List (Request O) → Except String (Option String)
  reader : BufReader
  uploadServer : List (Request O) → UploadServer
  -- The release that was pushed may have no container.
  pushPackageRelease : List (Request O) → Except String (Option (Option Release))
  tagPackageRelease : List (Request O) → Except String Unit
  buildPackage : PackageSection → Except String PackageSection
  tomlToString : Manifest O → Except String String
  manifestToValue : Manifest O → Except String Unit

/-- What is done over the network, with the requests that were made. -/
abbrev Net (O : Opaque) (α : Type) : Type := EStateM Failure (List (Request O)) α

variable {O : Opaque} (b : Backend O)

namespace Net

def ofExcept {α : Type} (x : Except String α) : Net O α := Failing.mapError .error (Failing.ofExcept fun _ => x)

def orFail {α : Type} (message : String) (x : Option α) : Net O α := fun rs =>
  match x with
  | some a => .ok a rs
  | none => .error (.error message) rs

def client : Net O Unit := fun rs => ofExcept (b.getClient rs) rs

/-- A request is made, and answered. -/
def ask {α : Type} (request : Request O) (answer : List (Request O) → Except String α) : Net O α := fun rs =>
  ofExcept (answer rs) (rs ++ [request])

end Net

def uploadPackage (data : Bytes) (url : String) : Net O String :=
  Net.ask (.upload data url) fun rs =>
    match upload b.reader (b.uploadServer rs) (data.length / chunkSize + 1) data url with
    | some (.ok url, _) => .ok url
    | some (.error (.request e), _) => .error e
    | some (.error (.message e), _) => .error e
    | some (.error (.status code), _) => .error s!"HTTP status {code}"
    | none => .error "The upload does not end"

/-- The namespace, and the name in it. -/
def splitName (manifest : Manifest O) : Net O (String × Option String) :=
  match manifest.package.bind (·.name) with
  | some fullName => do
    let splits := fullName.splitOn "/"
    let packageNamespace ← Net.orFail "No namespace provided!" splits.head?
    return (packageNamespace, splits[1]?)
  | none => throw (.error "No namespace provided!")

/-- A package without a release is uploaded, and one is made for it. -/
def pushRelease (manifest : Manifest O) (data : Bytes) : Net O Release := do
  let signedUrl ← Net.ask .getSignedUrlForPackageUpload b.getSignedUrl
  let signedUrl ← Net.orFail "No signed url!" signedUrl
  let _ ← uploadPackage b data signedUrl
  let (packageNamespace, name) ← splitName manifest
  let out ← Net.ask (.pushPackageRelease name packageNamespace signedUrl (manifest.package.map (·.private_)))
    b.pushPackageRelease
  let out ← Net.orFail "Backend returned no data!" out
  Net.orFail "No package identifier was found, tagging failed!" out

/-- A release whose name is more than a namespace is tagged with its version. -/
def tagRelease (manifest : Manifest O) (id : String) : Net O Unit :=
  match manifest.package with
  | none => pure ()
  | some section_ =>
    match section_.name with
    | none => pure ()
    | some name =>
      if ((name.splitOn "/").filter (· ≠ "")).length ≤ 1 then pure ()
      else do
        let version ← Net.orFail "No version provided!" section_.version
        let manifestRaw ← Net.ofExcept (b.tomlToString manifest)
        Net.ask (.tagPackageRelease section_ manifestRaw name id (some section_.private_) version) b.tagPackageRelease

structure PublishPackageOutput (O : Opaque) where
  manifest : Manifest O
  hash : String

def publishPackageInner (hash : String) (manifest : Manifest O) (data : Bytes) : Net O (PublishPackageOutput O) := do
  Net.client b
  let release ← match ← Net.ask (.getPackageRelease hash) (b.getPackageRelease · hash) with
    | some release => pure release
    | none => pushRelease b manifest data
  let hash ← Net.orFail "No hash given for the uploaded package!" release.hash
  tagRelease b manifest release.id
  Net.ofExcept (b.manifestToValue manifest)
  return { manifest, hash }

end Registry
end WasmerJs
