import WasmerJs.Registry.Publish

/-! How an app is deployed (`src/registry/app.rs`). The package of the config is published first if it has no name, after
    the config was changed to refer to it by its hash. -/

namespace WasmerJs
namespace Registry

variable {O : Opaque}

structure UserPackageDefinition (O : Opaque) where
  manifest : Manifest O
  data : Bytes
  hash : String

/-- A property of a JS object, as `has` and then `get` find it. -/
inductive Property (α : Type) where
  | absent
  | hasThrows (e : String)
  | getThrows (e : String)
  | value (v : α)

inductive PkgValue (O : Opaque) where
  | package (u : UserPackageDefinition O)
  -- `try_from_js_value` fails.
  | other (e : String)

inductive PackageValue (O : Opaque) where
  | undefined
  | string (s : String)
  | object (pkg : Property (PkgValue O))

inductive OwnerValue where
  | string (s : String)
  | other
  deriving DecidableEq

/-- What becomes of a `package` that is set. -/
inductive SetOutcome where
  | writes
  -- The property is read-only, and `set` returns false.
  | ignored
  | throws (e : String)
  deriving DecidableEq

/-- The object that `deployApp` is given. A package that is neither undefined nor a string nor an object makes `has`
    throw. -/
structure AppConfig (O : Opaque) where
  package : Except String (PackageValue O)
  owner : Property OwnerValue
  setPackage : SetOutcome
  default_ : Except String (Option Bool)
  fields : O.Fields

/-- The config, and the requests that were made. -/
structure World (O : Opaque) where
  config : AppConfig O
  requests : List (Request O)

abbrev App (O : Opaque) (α : Type) : Type := EStateM Failure (World O) α

/-- What is done over the network does not touch the config. -/
def App.onNet {α : Type} (x : Net O α) : App O α := fun w =>
  match x w.requests with
  | .ok a rs => .ok a { w with requests := rs }
  | .error e rs => .error e { w with requests := rs }

def fail {α : Type} (message : String) : App O α := throw (.error message)

variable (b : Backend O)

/-- `set(app_config, "package", hash)` -/
def setPackage (hash : String) : App O Unit := fun w =>
  match w.config.setPackage with
  | .writes => .ok () { w with config := { w.config with package := .ok (.string hash) } }
  | .ignored => .ok () w
  | .throws e => .error (.error e) w

/-- `publish_package_inner`, whose error is formatted. -/
def publishFor (u : UserPackageDefinition O) (section_ : PackageSection) : Net O (PublishPackageOutput O) :=
  publishPackageInner b u.hash { u.manifest with package := some section_ } u.data

/-- A package without a name is published under the owner of the app. -/
def publishUnnamed (u : UserPackageDefinition O) : Property OwnerValue → App O Unit
  | .absent => fail "app config has no owner specified! Specify one with 'owner'"
  | .hasThrows e => fail e
  | .getThrows e => fail e
  | .value .other => fail "'owner' in the provided app config is not a string!"
  | .value (.string owner) => do
    let section_ ← App.onNet (Net.ofExcept (b.buildPackage { name := some (owner ++ "/") }))
    let _ ← App.onNet (publishFor b u section_)

def UserPackageDefinition.unnamed (u : UserPackageDefinition O) : Bool := (u.manifest.package.bind (·.name)).isNone

/-- The config refers to the hash of the package before the package is published. -/
def usePackage (u : UserPackageDefinition O) : App O Unit := do
  setPackage u.hash
  if u.unnamed then publishUnnamed b u (← get).config.owner

def resolvePackage : Except String (PackageValue O) → App O Unit
  | .error e => fail ("While trying to get the package field from the app config: " ++ e)
  | .ok .undefined => fail "While trying to get the package field from the app config: undefined field name"
  | .ok (.string _) => pure ()
  | .ok (.object .absent) => fail "no package information provided! Set the 'package' field!"
  | .ok (.object (.hasThrows e)) => fail e
  | .ok (.object (.getThrows e)) => throw (.panic e)
  | .ok (.object (.value (.other e))) => fail ("Error while casting 'pkg' field back to inner rust type: " ++ e)
  | .ok (.object (.value (.package u))) => usePackage b u

def resolvePkg : App O Unit := do
  resolvePackage b (← get).config.package

/-- The code outside the repository that apps are deployed with. -/
structure Deployer (O : Opaque) extends Backend O where
  appConfigFromValue : AppConfig O → Except String O.AppConfigV1
  appConfigName : O.AppConfigV1 → Option String
  appConfigOwner : O.AppConfigV1 → Option String
  appConfigToYaml : O.AppConfigV1 → Except String String
  publishDeployApp : List (Request O) → Except String O.DeployedApp

variable (d : Deployer O)

def deployAppInner (config : O.AppConfigV1) (makeDefault : Option Bool) : Net O O.DeployedApp := do
  Net.client d.toBackend
  let yaml ← Net.ofExcept (d.appConfigToYaml config)
  match d.appConfigName config with
  | none => throw (.panic "App name can't be empty")
  | some name => Net.ask (.publishDeployApp yaml name (d.appConfigOwner config) makeDefault) d.publishDeployApp

def deployApp : App O O.DeployedApp := do
  resolvePkg d.toBackend
  let config := (← get).config
  let makeDefault ← App.onNet (Net.ofExcept config.default_)
  let appConfig ← App.onNet (Net.ofExcept (d.appConfigFromValue config))
  App.onNet (deployAppInner d appConfig (makeDefault <|> some true))

variable {b : Backend O} {d} {w w' : World O} {u : UserPackageDefinition O}

/-! ### The steps -/

/-- Only the requests change. -/
theorem onNet_ok {α : Type} {x : Net O α} {a : α} :
    App.onNet x w = .ok a w' ↔ ∃ rs, x w.requests = .ok a rs ∧ w' = { w with requests := rs } := by
  unfold App.onNet
  cases x w.requests with
  | ok v rs =>
    constructor
    · intro h
      cases h
      exact ⟨rs, rfl, rfl⟩
    · rintro ⟨_, h, rfl⟩
      cases h
      rfl
  | error e rs => exact iff_of_false (fun h => by cases h) (fun ⟨_, h, _⟩ => by cases h)

theorem ofExcept_ok {α : Type} {x : Except String α} {a : α} {rs rs' : List (Request O)} :
    Net.ofExcept x rs = .ok a rs' ↔ x = .ok a ∧ rs' = rs := by
  unfold Net.ofExcept
  rw [Failing.mapError_ok, Failing.ofExcept_ok]

theorem onNet_preserves {α : Type} (x : Net O α) : Failing.Preserves World.config (App.onNet x) := by
  intro w
  unfold App.onNet
  cases x w.requests <;> rfl

/-- The package can be published: the app has an owner, and nothing fails on the way. -/
def Publishes (b : Backend O) (w : World O) (u : UserPackageDefinition O) (rs : List (Request O)) : Prop :=
  ∃ owner section_ out, w.config.owner = .value (.string owner) ∧
    b.buildPackage { name := some (owner ++ "/") } = .ok section_ ∧ publishFor b u section_ w.requests = .ok out rs

theorem publishUnnamed_ok {v : Unit} : publishUnnamed b u w.config.owner w = .ok v w' ↔
    ∃ rs, Publishes b w u rs ∧ w' = { w with requests := rs } := by
  unfold Publishes
  generalize w.config.owner = o
  constructor
  · intro h
    unfold publishUnnamed at h
    split at h
    · cases h
    · cases h
    · cases h
    · cases h
    · rename_i owner
      obtain ⟨section_, w₁, h₁, h₂⟩ := Failing.bind_ok.mp h
      obtain ⟨rs₁, hbuild, rfl⟩ := onNet_ok.mp h₁
      obtain ⟨hsection, rfl⟩ := ofExcept_ok.mp hbuild
      obtain ⟨out, w₂, h₂, h₃⟩ := Failing.bind_ok.mp h₂
      obtain ⟨rs₂, hpublish, rfl⟩ := onNet_ok.mp h₂
      cases h₃
      exact ⟨rs₂, ⟨owner, section_, out, rfl, hsection, hpublish⟩, rfl⟩
  · rintro ⟨rs, ⟨owner, section_, out, rfl, hsection, hpublish⟩, rfl⟩
    refine Failing.bind_ok.mpr ⟨section_, w, onNet_ok.mpr ⟨w.requests, ofExcept_ok.mpr ⟨hsection, rfl⟩, rfl⟩, ?_⟩
    exact Failing.bind_ok.mpr ⟨out, { w with requests := rs }, onNet_ok.mpr ⟨rs, hpublish, rfl⟩, rfl⟩

/-- Publishing a package leaves the config alone. -/
theorem publishUnnamed_preserves (o : Property OwnerValue) :
    Failing.Preserves World.config (publishUnnamed b u o) := by
  unfold publishUnnamed
  split
  · exact Failing.preserves_throw _
  · exact Failing.preserves_throw _
  · exact Failing.preserves_throw _
  · exact Failing.preserves_throw _
  · refine (onNet_preserves _).bind fun section_ => (onNet_preserves _).bind fun _ => ?_
    exact Failing.preserves_pure ()

/-! ### The package of a config -/

/-- The config refers to this package as an object. -/
def HasPackage (config : AppConfig O) (u : UserPackageDefinition O) : Prop :=
  config.package = .ok (.object (.value (.package u)))

theorem resolvePkg_of_package (h : HasPackage w.config u) : resolvePkg b w = usePackage b u w := by
  show resolvePackage b w.config.package w = _
  rw [h]
  rfl

/-- Without such a package, nothing is done. -/
theorem resolvePkg_of_not (h : ∀ u, ¬HasPackage w.config u) : Failing.final (resolvePkg b w) = w := by
  show Failing.final (resolvePackage b w.config.package w) = w
  unfold HasPackage at h
  generalize w.config.package = p at h ⊢
  rcases p with e | - | s | - | e | e | u | e
  all_goals first
    | rfl
    | exact absurd rfl (h u)

/-- The config after `set`, unless this throws. -/
def AppConfig.withPackage (config : AppConfig O) (hash : String) : AppConfig O :=
  match config.setPackage with
  | .writes => { config with package := .ok (.string hash) }
  | .ignored => config
  | .throws _ => config

theorem setPackage_ok {hash : String} {v : Unit} : setPackage hash w = .ok v w' ↔
    (∀ e, w.config.setPackage ≠ .throws e) ∧ w' = { w with config := w.config.withPackage hash } := by
  unfold setPackage AppConfig.withPackage
  cases hset : w.config.setPackage with
  | writes =>
    simp only [EStateM.Result.ok.injEq, true_and, reduceCtorEq, not_false_eq_true, implies_true, ne_eq]
    rw [← hset]
    exact eq_comm
  | ignored =>
    simp only [EStateM.Result.ok.injEq, true_and, reduceCtorEq, not_false_eq_true, implies_true, ne_eq]
    exact eq_comm
  | throws e => exact iff_of_false (fun h => by cases h) fun h => h.1 e rfl

theorem withPackage_owner {config : AppConfig O} {hash : String} : (config.withPackage hash).owner = config.owner := by
  unfold AppConfig.withPackage
  split <;> rfl

theorem publishes_withPackage {hash : String} {rs : List (Request O)} :
    Publishes b { w with config := w.config.withPackage hash } u rs ↔ Publishes b w u rs := by
  unfold Publishes
  rw [withPackage_owner]

/-- A package is used if the config takes its hash, and if it can be published or has a name. -/
theorem usePackage_ok {v : Unit} : usePackage b u w = .ok v w' ↔ (∀ e, w.config.setPackage ≠ .throws e) ∧
    ∃ rs, (if u.unnamed then Publishes b w u rs else rs = w.requests) ∧
      w' = { config := w.config.withPackage u.hash, requests := rs } := by
  show (setPackage u.hash >>= fun _ =>
    if u.unnamed then (get >>= fun w => publishUnnamed b u w.config.owner) else pure ()) w = _ ↔ _
  rw [Failing.bind_ok]
  simp only [setPackage_ok]
  cases u.unnamed with
  | true =>
    simp only [if_true]
    constructor
    · rintro ⟨_, _, ⟨hset, rfl⟩, h⟩
      obtain ⟨rs, hpublishes, rfl⟩ := publishUnnamed_ok.mp h
      exact ⟨hset, rs, publishes_withPackage.mp hpublishes, rfl⟩
    · rintro ⟨hset, rs, hpublishes, rfl⟩
      exact ⟨(), _, ⟨hset, rfl⟩, publishUnnamed_ok.mpr ⟨rs, publishes_withPackage.mpr hpublishes, rfl⟩⟩
  | false =>
    simp only [Bool.false_eq_true, if_false]
    constructor
    · rintro ⟨_, _, ⟨hset, rfl⟩, h⟩
      cases h
      exact ⟨hset, _, rfl, rfl⟩
    · rintro ⟨hset, rs, rfl, rfl⟩
      exact ⟨(), _, ⟨hset, rfl⟩, rfl⟩

theorem setPackage_error {hash : String} {e : Failure} (h : setPackage hash w = .error e w') :
    ∃ e, w.config.setPackage = .throws e := by
  unfold setPackage at h
  split at h
  · cases h
  · cases h
  · rename_i e heq
    exact ⟨e, heq⟩

theorem withPackage_of_throws {config : AppConfig O} {hash e : String} (h : config.setPackage = .throws e) :
    config.withPackage hash = config := by
  rw [AppConfig.withPackage, h]

/-- A failure leaves the config as `set` has made it. -/
theorem usePackage_error {e : Failure} (h : usePackage b u w = .error e w') :
    w'.config = w.config.withPackage u.hash := by
  have hrest : Failing.Preserves World.config (if u.unnamed then
      (get >>= fun w => publishUnnamed b u w.config.owner) else pure () : App O Unit) := by
    split
    · exact Failing.preserves_get.bind fun w => publishUnnamed_preserves _
    · exact Failing.preserves_pure ()
  rcases Failing.bind_error.mp h with h | ⟨_, w₁, hset, h⟩
  · obtain ⟨e', hset⟩ := setPackage_error h
    have heq : setPackage u.hash w = .error (.error e') w := by rw [setPackage, hset]
    rw [heq] at h
    cases h
    exact (withPackage_of_throws hset).symm
  · obtain ⟨-, rfl⟩ := setPackage_ok.mp hset
    exact hrest.of_error h

/-! ### Two deployments -/

/-- A deployment that failed before anything was deployed can be made again: the config is the one that it was, so that
    a package without a name is published before the app is deployed. -/
structure Retryable (d : Deployer O) (w : World O) : Prop where
  unchanged : ∀ e w', resolvePkg d.toBackend w = .error e w' → w'.config = w.config
  published : ∀ e w' u, resolvePkg d.toBackend w = .error e w' → HasPackage w.config u → u.unnamed = true →
    ∀ app w'', deployApp d w' = .ok app w'' → ∃ rs config name owner makeDefault, Publishes d.toBackend w' u rs ∧
      w''.requests = rs ++ [.publishDeployApp config name owner makeDefault]

theorem client_ok {v : Unit} {rs rs' : List (Request O)} (h : Net.client b rs = .ok v rs') : rs' = rs :=
  (ofExcept_ok.mp h).2

theorem ask_ok {α : Type} {request : Request O} {answer : List (Request O) → Except String α} {a : α}
    {rs rs' : List (Request O)} (h : Net.ask request answer rs = .ok a rs') : rs' = rs ++ [request] :=
  (ofExcept_ok.mp h).2

theorem deployAppInner_requests {config : O.AppConfigV1} {makeDefault : Option Bool} {app : O.DeployedApp}
    {rs rs' : List (Request O)} (h : deployAppInner d config makeDefault rs = .ok app rs') :
    ∃ yaml name owner makeDefault, rs' = rs ++ [.publishDeployApp yaml name owner makeDefault] := by
  obtain ⟨_, rs₁, hclient, h₁⟩ := Failing.bind_ok.mp h
  obtain ⟨yaml, rs₂, hyaml, h₂⟩ := Failing.bind_ok.mp h₁
  obtain ⟨-, rfl⟩ := ofExcept_ok.mp hyaml
  obtain rfl := client_ok hclient
  cases hname : d.appConfigName config with
  | none =>
    rw [hname] at h₂
    cases h₂
  | some name =>
    rw [hname] at h₂
    exact ⟨yaml, name, d.appConfigOwner config, makeDefault, ask_ok h₂⟩

/-- The app is deployed with what `resolve_pkg` leaves. -/
theorem deployApp_requests {app : O.DeployedApp} (h : deployApp d w = .ok app w') :
    ∃ w₁, resolvePkg d.toBackend w = .ok () w₁ ∧ ∃ yaml name owner makeDefault,
      w'.requests = w₁.requests ++ [.publishDeployApp yaml name owner makeDefault] := by
  obtain ⟨_, w₁, hresolve, h⟩ := Failing.bind_ok.mp h
  obtain ⟨_, _, hget, h⟩ := Failing.bind_ok.mp h
  cases hget
  obtain ⟨makeDefault, w₂, h₂, h⟩ := Failing.bind_ok.mp h
  obtain ⟨rs₂, hdefault, rfl⟩ := onNet_ok.mp h₂
  obtain ⟨-, rfl⟩ := ofExcept_ok.mp hdefault
  obtain ⟨config, w₃, h₃, h⟩ := Failing.bind_ok.mp h
  obtain ⟨rs₃, hconfig, rfl⟩ := onNet_ok.mp h₃
  obtain ⟨-, rfl⟩ := ofExcept_ok.mp hconfig
  obtain ⟨rs₄, hdeploy, rfl⟩ := onNet_ok.mp h
  exact ⟨w₁, hresolve, deployAppInner_requests hdeploy⟩

/-- A config that still refers to a package without a name is only deployed after the package was published. -/
theorem deployApp_publishes {app : O.DeployedApp} (hu : HasPackage w.config u) (hunnamed : u.unnamed = true)
    (h : deployApp d w = .ok app w') : ∃ rs yaml name owner makeDefault, Publishes d.toBackend w u rs ∧
      w'.requests = rs ++ [.publishDeployApp yaml name owner makeDefault] := by
  obtain ⟨w₁, hresolve, yaml, name, owner, makeDefault, hrequests⟩ := deployApp_requests h
  rw [resolvePkg_of_package hu, usePackage_ok] at hresolve
  obtain ⟨-, rs, hrs, rfl⟩ := hresolve
  rw [if_pos hunnamed] at hrs
  exact ⟨rs, yaml, name, owner, makeDefault, hrs, hrequests⟩

/-- A package that can be published is resolved without a failure. -/
theorem resolvePkg_ok_of_publishes (hu : HasPackage w.config u) (hset : w.config.setPackage = .writes)
    (hpublishes : u.unnamed = true → ∃ rs, Publishes b w u rs) : ∃ w', resolvePkg b w = .ok () w' := by
  have hthrows : ∀ e, w.config.setPackage ≠ .throws e := by
    intro e he
    rw [hset] at he
    cases he
  rw [resolvePkg_of_package hu]
  cases hunnamed : u.unnamed with
  | true =>
    obtain ⟨rs, hrs⟩ := hpublishes hunnamed
    exact ⟨_, usePackage_ok.mpr ⟨hthrows, rs, by rwa [if_pos hunnamed], rfl⟩⟩
  | false => exact ⟨_, usePackage_ok.mpr ⟨hthrows, _, by rw [hunnamed, if_neg Bool.false_ne_true], rfl⟩⟩

/-- A config can be deployed again exactly if it does not refer to a package without a name whose publication fails
    after the config was changed. -/
theorem retryable_iff (d : Deployer O) (w : World O) : Retryable d w ↔
    ∀ u, HasPackage w.config u → u.unnamed = true → w.config.setPackage = .writes →
      ∃ rs, Publishes d.toBackend w u rs := by
  constructor
  · intro h u hu hunnamed hset
    cases hresolve : resolvePkg d.toBackend w with
    | ok _ w' =>
      rw [resolvePkg_of_package hu, usePackage_ok] at hresolve
      obtain ⟨-, rs, hrs, -⟩ := hresolve
      rw [if_pos hunnamed] at hrs
      exact ⟨rs, hrs⟩
    | error e w' =>
      have hsame := h.unchanged e w' hresolve
      rw [resolvePkg_of_package hu] at hresolve
      rw [usePackage_error hresolve, AppConfig.withPackage, hset] at hsame
      have hpackage : w.config.package = .ok (.string u.hash) := congrArg AppConfig.package hsame.symm
      rw [hu] at hpackage
      cases hpackage
  · intro h
    have hunchanged : ∀ e w', resolvePkg d.toBackend w = .error e w' → w'.config = w.config := by
      intro e w' herror
      by_cases hsome : ∃ u, HasPackage w.config u
      · obtain ⟨u, hu⟩ := hsome
        cases hset : w.config.setPackage with
        | writes =>
          obtain ⟨w'', hok⟩ := resolvePkg_ok_of_publishes hu hset fun hunnamed => h u hu hunnamed hset
          rw [hok] at herror
          cases herror
        | ignored =>
          rw [resolvePkg_of_package hu] at herror
          rw [usePackage_error herror, AppConfig.withPackage, hset]
        | throws e' =>
          rw [resolvePkg_of_package hu] at herror
          rw [usePackage_error herror, withPackage_of_throws hset]
      · have hfinal := resolvePkg_of_not (b := d.toBackend) fun u hu => hsome ⟨u, hu⟩
        rw [herror] at hfinal
        exact congrArg World.config hfinal
    refine ⟨hunchanged, fun e w' u herror hu hunnamed app w'' happ => ?_⟩
    exact deployApp_publishes (hunchanged e w' herror ▸ hu) hunnamed happ

/-! ### An app without an owner -/

def unitOpaque : Opaque where
  Sections := Unit
  Fields := Unit
  AppConfigV1 := String
  DeployedApp := Unit

/-- A registry without packages that takes whatever is deployed, under the string that the package is given as. -/
def emptyRegistry : Deployer unitOpaque where
  getClient _ := .ok ()
  getPackageRelease _ _ := .ok none
  getSignedUrl _ := .ok (some "url")
  reader := sliceReader
  uploadServer _ := takesAll
  pushPackageRelease _ := .ok (some (some { id := "id", hash := some "hash" }))
  tagPackageRelease _ := .ok ()
  buildPackage := .ok
  tomlToString _ := .ok ""
  manifestToValue _ := .ok ()
  appConfigFromValue config :=
    match config.package with
    | .ok (.string s) => .ok s
    | _ => .error "not a string"
  appConfigName _ := some "app"
  appConfigOwner _ := none
  appConfigToYaml package := .ok package
  publishDeployApp _ := .ok ()

/-- A package without a name, and a config without an owner that refers to it. -/
def ownerless : World unitOpaque where
  config := {
    package := .ok (.object (.value
      (.package { manifest := { package := none, sections := () }, data := [], hash := "hash" })))
    owner := .absent
    setPackage := .writes
    default_ := .ok none
    fields := () }
  requests := []

/-- The first deployment fails. The second one deploys the hash of a package that was never uploaded. -/
theorem unpublished_hash_deployed : ∃ e w' w'', resolvePkg emptyRegistry.toBackend ownerless = .error e w' ∧
    w'.config.package = .ok (.string "hash") ∧ w'.requests = [] ∧ deployApp emptyRegistry w' = .ok () w'' ∧
    w''.requests = [.publishDeployApp "hash" "app" none (some true)] ∧ ¬Retryable emptyRegistry ownerless := by
  refine ⟨_, _, _, rfl, rfl, rfl, rfl, rfl, fun h => ?_⟩
  have hsame := h.unchanged _ _ rfl
  have hpackage := congrArg AppConfig.package hsame
  cases hpackage

end Registry
end WasmerJs
