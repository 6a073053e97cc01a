import WasmerJs.Lib.Transition
import WasmerJs.Pipe.Memory

/-! How packages are loaded (`src/package_loader.rs`). Loads of several packages are under way at the same time, over
    one cache of downloads; a load that finds nothing there waits for a response of its own. -/

namespace WasmerJs
namespace Package

open Transition

/-- The messages of an error, the outermost context first. -/
abbrev Error : Type := List String

structure HttpRequest where
  url : String
  method : String
  headers : List (String × String)
  body : Option Bytes
  deriving DecidableEq

/-- `retryAfter` is the header of that name, when it is text. -/
structure HttpResponse where
  status : Nat
  retryAfter : Option String
  body : Option Bytes
  deriving DecidableEq

structure DistributionInfo (H : Type) where
  webc : String
  webcSha256 : H
  deriving DecidableEq

/-- What the loader uses: `HttpResponse::is_ok` and the text of a status, `WebcHash::sha256`, and `webc::detect` with
    `Container::from_bytes_and_version`. -/
structure Web (H C : Type) where
  isOk : Nat → Bool
  statusText : Nat → String
  sha256 : Bytes → H
  container : Bytes → Except Error C
  -- `debug_assert_eq!` panics.
  debugAssertions : Bool

variable {H C : Type}

/-! ### One download -/

def SERVICE_UNAVAILABLE : Nat := 503

def httpError (web : Web H C) (response : HttpResponse) : Error :=
  match response.retryAfter with
  | some retryAfter =>
    if response.status = SERVICE_UNAVAILABLE then
      [web.statusText response.status ++ " (Retry After: " ++ retryAfter ++ ")"]
    else [web.statusText response.status]
  | none => [web.statusText response.status]

/-- The request of `download`. -/
def DistributionInfo.request (dist : DistributionInfo H) : HttpRequest :=
  { url := dist.webc, method := "GET", headers := [("Accept", "application/webc")], body := none }

/-- The rest of `download`, with what the client answers. -/
def download (web : Web H C) (dist : DistributionInfo H) : Except Error HttpResponse → Except Error Bytes
  | .error e => .error e
  | .ok response =>
    if web.isOk response.status then
      match response.body with
      | some body => .ok body
      | none => .error ["The response didn't contain a body"]
    else .error (("The GET request to \"" ++ dist.webc ++ "\" failed") :: httpError web response)

/-! ### Loads -/

inductive Phase (C : Type) where
  | downloading
  | finished (result : Except Error C)
  -- The future was dropped before it came to its end.
  | dropped
  | panicked

/-- A load was called, and made a request; or the response to its request came. -/
inductive Entry (H : Type) where
  | called (dist : DistributionInfo H) (request : Option HttpRequest)
  | responded (i : Nat) (dist : DistributionInfo H) (answer : Except Error HttpResponse)

structure PackageLoader (H C : Type) where
  cache : H → Option Bytes
  loads : List (DistributionInfo H × Phase C)
  log : List (Entry H)

inductive Event (H : Type) where
  | load (dist : DistributionInfo H)
  | respond (i : Nat) (answer : Except Error HttpResponse)
  | drop (i : Nat)

namespace PackageLoader

def new : PackageLoader H C := { cache := fun _ => none, loads := [], log := [] }

/-- The load ends with the container of its body. -/
def finish (web : Web H C) (body : Bytes) : Phase C := .finished (web.container body)

def step [DecidableEq H] (web : Web H C) (s : PackageLoader H C) : Event H → Option (PackageLoader H C)
  | .load dist =>
    match s.cache dist.webcSha256 with
    | some body =>
      some { s with loads := s.loads ++ [(dist, finish web body)], log := s.log ++ [.called dist none] }
    | none =>
      some { s with loads := s.loads ++ [(dist, .downloading)], log := s.log ++ [.called dist (some dist.request)] }
  | .respond i answer =>
    match s.loads[i]? with
    | some (dist, .downloading) =>
      let log := s.log ++ [.responded i dist answer]
      match download web dist answer with
      | .error e => some { s with loads := s.loads.set i (dist, .finished (.error e)), log }
      | .ok body =>
        if web.debugAssertions ∧ dist.webcSha256 ≠ web.sha256 body then
          some { s with loads := s.loads.set i (dist, .panicked), log }
        else
          some { s with
            cache := Function.update s.cache dist.webcSha256 (some body)
            loads := s.loads.set i (dist, finish web body)
            log }
    | _ => none
  | .drop i =>
    match s.loads[i]? with
    | some (dist, .downloading) => some { s with loads := s.loads.set i (dist, .dropped) }
    | _ => none

end PackageLoader

/-- These bytes came in answer to a request for a package of this hash. -/
def Downloaded (web : Web H C) (log : List (Entry H)) (hash : H) (body : Bytes) : Prop :=
  ∃ i dist answer, .responded i dist answer ∈ log ∧ dist.webcSha256 = hash ∧ download web dist answer = .ok body ∧
    (web.debugAssertions → web.sha256 body = hash)

/-- What a load may end with: the container of what was downloaded for its hash, or the error that its own download
    ended with. -/
inductive Served (web : Web H C) (log : List (Entry H)) (i : Nat) (dist : DistributionInfo H) :
    Except Error C → Prop where
  | downloaded {body : Bytes} (hd : Downloaded web log dist.webcSha256 body) : Served web log i dist (web.container body)
  | failed {answer : Except Error HttpResponse} {e : Error} (hr : .responded i dist answer ∈ log)
      (he : download web dist answer = .error e) : Served web log i dist (.error e)

/-- A load makes its request when nothing was downloaded for its hash, and only then. -/
def Asks (web : Web H C) (log : List (Entry H)) (dist : DistributionInfo H) (request : Option HttpRequest) : Prop :=
  (request = none ↔ ∃ body, Downloaded web log dist.webcSha256 body) ∧ ∀ r ∈ request, r = dist.request

section

variable {web : Web H C} {log log' : List (Entry H)} {hash : H} {body : Bytes} {i : Nat} {dist : DistributionInfo H}
  {result : Except Error C}

theorem Downloaded.append (h : Downloaded web log hash body) : Downloaded web (log ++ log') hash body := by
  obtain ⟨i, dist, answer, hmem, h⟩ := h
  exact ⟨i, dist, answer, List.mem_append_left _ hmem, h⟩

theorem Served.append (h : Served web log i dist result) : Served web (log ++ log') i dist result := by
  cases h with
  | downloaded hd => exact .downloaded hd.append
  | failed hr he => exact .failed (List.mem_append_left _ hr) he

/-- A call is no download. -/
theorem downloaded_called {dist' : DistributionInfo H} {request : Option HttpRequest} :
    Downloaded web (log ++ [.called dist' request]) hash body ↔ Downloaded web log hash body := by
  refine ⟨?_, .append⟩
  rintro ⟨i, dist, answer, hmem, h⟩
  exact ⟨i, dist, answer, by simpa using hmem, h⟩

/-- A response is a download, or changes nothing. -/
theorem downloaded_responded {answer : Except Error HttpResponse} :
    Downloaded web (log ++ [.responded i dist answer]) hash body ↔ Downloaded web log hash body ∨
      dist.webcSha256 = hash ∧ download web dist answer = .ok body ∧ (web.debugAssertions → web.sha256 body = hash) := by
  constructor
  · rintro ⟨j, dist', answer', hmem, h⟩
    rcases List.mem_append.mp hmem with hmem | hmem
    · exact .inl ⟨j, dist', answer', hmem, h⟩
    · obtain ⟨rfl, rfl, rfl⟩ : j = i ∧ dist' = dist ∧ answer' = answer := by simpa using hmem
      exact .inr h
  · rintro (h | h)
    · exact h.append
    · exact ⟨i, dist, answer, by simp, h⟩

end

/-! ### What a step keeps -/

namespace PackageLoader

structure Inv (web : Web H C) (s : PackageLoader H C) : Prop where
  cache : ∀ hash body, s.cache hash = some body → Downloaded web s.log hash body
  cached : ∀ hash body, Downloaded web s.log hash body → s.cache hash ≠ none
  calls : ∀ pre dist request post, s.log = pre ++ .called dist request :: post → Asks web pre dist request
  served : ∀ i dist result, s.loads[i]? = some (dist, .finished result) → Served web s.log i dist result

variable {web : Web H C} {s s' : PackageLoader H C} {e : Event H}

theorem inv_new : (new : PackageLoader H C).Inv web where
  cache _ _ h := by cases h
  cached _ _ h := by
    obtain ⟨_, _, _, hmem, -⟩ := h
    cases hmem
  calls pre dist request post h := by simp [new] at h
  served _ _ _ h := by cases h

/-- One more entry at the end of the log, which is no call. -/
theorem calls_responded {i : Nat} {dist : DistributionInfo H} {answer : Except Error HttpResponse} (h : s.Inv web) :
    ∀ pre d request post, s.log ++ [.responded i dist answer] = pre ++ .called d request :: post →
      Asks web pre d request := by
  intro pre d request post heq
  rcases List.eq_nil_or_concat post with rfl | ⟨post, e, rfl⟩
  · obtain ⟨-, hlast⟩ := List.append_inj' heq rfl
    cases hlast
  · have heq : s.log ++ [.responded i dist answer] = (pre ++ .called d request :: post) ++ [e] := by simpa using heq
    exact h.calls pre d request post (List.append_inj' heq rfl).1

theorem calls_called {dist : DistributionInfo H} {request : Option HttpRequest} (h : s.Inv web)
    (hasks : Asks web s.log dist request) :
    ∀ pre d r post, s.log ++ [.called dist request] = pre ++ .called d r :: post → Asks web pre d r := by
  intro pre d r post heq
  rcases List.eq_nil_or_concat post with rfl | ⟨post, e, rfl⟩
  · obtain ⟨rfl, hlast⟩ := List.append_inj' heq rfl
    cases hlast
    exact hasks
  · have heq : s.log ++ [.called dist request] = (pre ++ .called d r :: post) ++ [e] := by simpa using heq
    exact h.calls pre d r post (List.append_inj' heq rfl).1

/-- A load that begins. -/
theorem Inv.called (h : s.Inv web) {dist : DistributionInfo H} {request : Option HttpRequest} {phase : Phase C}
    (hasks : Asks web s.log dist request)
    (hphase : ∀ result, phase = .finished result → Served web s.log s.loads.length dist result) :
    Inv web { s with loads := s.loads ++ [(dist, phase)], log := s.log ++ [.called dist request] } where
  cache hash body hc := (h.cache hash body hc).append
  cached hash body hd := h.cached hash body (downloaded_called.mp hd)
  calls := calls_called h hasks
  served i d result hi := by
    rcases Nat.lt_trichotomy i s.loads.length with hlt | rfl | hgt
    · rw [List.getElem?_append_left hlt] at hi
      exact (h.served i d result hi).append
    · rw [List.getElem?_append_right (Nat.le_refl _), Nat.sub_self] at hi
      obtain ⟨rfl, rfl⟩ := Prod.mk.inj (Option.some.inj hi)
      exact (hphase result rfl).append
    · rw [List.getElem?_eq_none (by simpa using hgt)] at hi
      cases hi

/-- The other loads stay what they were, and the one at hand is now in this phase. -/
theorem served_set {log : List (Entry H)} {i : Nat} {dist : DistributionInfo H} {phase : Phase C}
    (h : ∀ j d result, s.loads[j]? = some (d, .finished result) → Served web log j d result)
    (hphase : ∀ result, phase = .finished result → Served web log i dist result) :
    ∀ j d result, (s.loads.set i (dist, phase))[j]? = some (d, .finished result) → Served web log j d result := by
  intro j d result hj
  rw [List.getElem?_set] at hj
  split at hj
  · subst_vars
    split at hj <;> cases hj
    exact hphase result rfl
  · exact h j d result hj

theorem Inv.step [DecidableEq H] (h : s.Inv web) (hs : PackageLoader.step web s e = some s') : s'.Inv web := by
  cases e with
  | load dist =>
    simp only [PackageLoader.step] at hs
    split at hs <;> cases hs
    · rename_i body hc
      have hd := h.cache _ _ hc
      refine h.called ⟨iff_of_true rfl ⟨body, hd⟩, fun r hr => by cases hr⟩ ?_
      rintro result ⟨⟩
      exact .downloaded hd
    · rename_i hc
      refine h.called ⟨iff_of_false (fun h => by cases h) fun ⟨body, hd⟩ => h.cached _ _ hd hc, ?_⟩
        fun result hr => by cases hr
      rintro r ⟨⟩
      rfl
  | respond i answer =>
    simp only [PackageLoader.step] at hs
    split at hs
    · rename_i dist hi
      have hold : ∀ j d result, s.loads[j]? = some (d, .finished result) →
          Served web (s.log ++ [.responded i dist answer]) j d result :=
        fun j d result hj => (h.served j d result hj).append
      split at hs
      · rename_i e he
        cases hs
        refine ⟨fun hash body hc => (h.cache hash body hc).append, fun hash body hd => ?_, calls_responded h,
          served_set hold ?_⟩
        · rcases downloaded_responded.mp hd with hd | ⟨-, hok, -⟩
          · exact h.cached hash body hd
          · rw [he] at hok
            cases hok
        · rintro result ⟨⟩
          exact .failed (List.mem_append_right _ (List.mem_singleton.mpr rfl)) he
      · rename_i body hbody
        split at hs <;> cases hs
        · rename_i hpanic
          refine ⟨fun hash body hc => (h.cache hash body hc).append, fun hash body' hd => ?_, calls_responded h,
            served_set hold fun result hr => by cases hr⟩
          rcases downloaded_responded.mp hd with hd | ⟨rfl, hok, hsha⟩
          · exact h.cached hash body' hd
          · rw [hbody] at hok
            cases hok
            exact absurd (hsha hpanic.1).symm hpanic.2
        · rename_i hpanic
          have hd : Downloaded web (s.log ++ [.responded i dist answer]) dist.webcSha256 body :=
            downloaded_responded.mpr (.inr ⟨rfl, hbody, fun hdebug => by
              by_contra hne
              exact hpanic ⟨hdebug, Ne.symm hne⟩⟩)
          refine ⟨fun hash body' hc => ?_, fun hash body' hd' => ?_, calls_responded h, served_set hold ?_⟩
          · simp only at hc
            by_cases heq : hash = dist.webcSha256
            · subst heq
              rw [Function.update_self] at hc
              cases hc
              exact hd
            · rw [Function.update_of_ne heq] at hc
              exact (h.cache hash body' hc).append
          · simp only
            by_cases heq : hash = dist.webcSha256
            · subst heq
              rw [Function.update_self]
              exact Option.some_ne_none _
            · rw [Function.update_of_ne heq]
              rcases downloaded_responded.mp hd' with hd' | ⟨heq', -⟩
              · exact h.cached hash body' hd'
              · exact absurd heq'.symm heq
          · rintro result ⟨⟩
            exact .downloaded hd
    · cases hs
  | drop i =>
    simp only [PackageLoader.step] at hs
    split at hs <;> cases hs
    exact ⟨h.cache, h.cached, h.calls, served_set h.served fun result hr => by cases hr⟩

end PackageLoader

/-! ### Runs -/

/-- However loads and responses interleave: a load that ended gives the container of bytes that were downloaded for
    its hash, in a debug build of just that hash, or the error that its own download ended with; and a load makes a
    request, for its URL, when nothing was downloaded for its hash before, and only then. -/
theorem load_served [DecidableEq H] {web : Web H C} {s : PackageLoader H C}
    (hr : Reach (PackageLoader.step web) .new s) :
    (∀ i dist result, s.loads[i]? = some (dist, .finished result) → Served web s.log i dist result) ∧
      ∀ pre dist request post, s.log = pre ++ .called dist request :: post → Asks web pre dist request := by
  have h : s.Inv web := hr.invariant PackageLoader.inv_new fun h _ hs => h.step hs
  exact ⟨h.served, h.calls⟩

/-- Statuses from 400 on are failures, hashes are the bytes themselves, and every body is a container. -/
def plainWeb : Web Bytes Bytes :=
  { isOk := fun status => status < 400
    statusText := fun status => if status = 503 then "503 Service Unavailable" else toString status
    sha256 := id
    container := .ok
    debugAssertions := true }

/-- Two loads of a package at the same time, of which the first fails, and a third one that needs no request. -/
theorem load_served_shared :
    let dist : DistributionInfo Bytes := { webc := "a.webc", webcSha256 := [1] }
    ∃ s, Reach (PackageLoader.step plainWeb) .new s ∧
      s.loads[0]? = some (dist, .finished (.error ["The GET request to \"a.webc\" failed",
        "503 Service Unavailable (Retry After: 30)"])) ∧
      Served plainWeb s.log 2 dist (.ok [1]) ∧ ∃ pre, Asks plainWeb pre dist none := by
  intro dist
  obtain ⟨s, hr, h0, h2, hlog⟩ : ∃ s, Reach (PackageLoader.step plainWeb) .new s ∧
      s.loads[0]? = some (dist, .finished (.error ["The GET request to \"a.webc\" failed",
        "503 Service Unavailable (Retry After: 30)"])) ∧
      s.loads[2]? = some (dist, .finished (.ok [1])) ∧ ∃ pre, s.log = pre ++ [.called dist none] :=
    ⟨_, reach_of_run [.load dist, .load dist,
      .respond 0 (.ok { status := 503, retryAfter := some "30", body := none }),
      .respond 1 (.ok { status := 200, retryAfter := none, body := some [1] }), .load dist] rfl,
      rfl, rfl, [_, _, _, _], rfl⟩
  obtain ⟨pre, hlog⟩ := hlog
  obtain ⟨hserved, hcalls⟩ := load_served hr
  exact ⟨s, hr, h0, hserved 2 dist _ h2, pre, hcalls pre dist none [] hlog⟩

end Package
end WasmerJs
