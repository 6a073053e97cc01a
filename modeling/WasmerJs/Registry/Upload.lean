import WasmerJs.Pipe.Memory

/-! How a package is uploaded in chunks (`upload`, `src/registry/package/package_utils/upload.rs`). -/

namespace WasmerJs
namespace Registry

/-! ### The code outside the repository -/

structure PutRequest where
  uri : String
  contentLength : String
  contentRange : String
  body : Bytes
  deriving DecidableEq

structure PostResponse where
  status : Nat
  -- A value that is no string is `none`.
  headers : List (String × Option String)

/-- What the server answers: to the request that starts the upload, and to each chunk after those before it. A request
    may also not be sent. -/
structure UploadServer where
  post : Except String PostResponse
  put : List PutRequest → PutRequest → Except String Nat

/-- `tokio::io::BufReader` over a slice. -/
structure BufReader where
  State : Type
  withCapacity : Nat → Bytes → State
  fillBuf : State → Option Bytes × State
  consume : Nat → State → State

/-- The reader has consumed its whole buffer, and these bytes are left. Then it fills its capacity, as far as there are
    that many. -/
structure BufReader.Lawful (r : BufReader) (capacity : Nat) (reads : r.State → Bytes → Prop) : Prop where
  new : ∀ input, reads (r.withCapacity capacity input) input
  fill : ∀ s rest, reads s rest → (r.fillBuf s).1 = some (rest.take capacity)
  consume : ∀ s rest, reads s rest → reads (r.consume (rest.take capacity).length (r.fillBuf s).2) (rest.drop capacity)

/-! ### The upload -/

inductive UploadError where
  -- The request to start it was not sent.
  | request (e : String)
  | message (text : String)
  -- `error_for_status`
  | status (code : Nat)
  deriving DecidableEq

/-- 2MB -/
def chunkSize : Nat := 2097152

/-- Whether `error_for_status` is an error. -/
def isErrorStatus (status : Nat) : Bool := 400 ≤ status && status < 600

def contentRange (start stop total : Nat) : String := s!"bytes {start}-{stop}/{total}"

def putChunk (sessionUri : String) (cursor total : Nat) (chunk : Bytes) : PutRequest where
  uri := sessionUri
  contentLength := toString chunk.length
  contentRange := contentRange cursor (cursor + (chunk.length - 1)) total
  body := chunk

/-- What an upload gives, and the chunks that it has sent. There is nothing yet when the fuel runs out. -/
abbrev Uploaded (α : Type) : Type := Option (Except UploadError α × List PutRequest)

variable (r : BufReader) (server : UploadServer)

def uploadChunks (sessionUri : String) (total : Nat) : Nat → r.State → Nat → List PutRequest → Uploaded Unit
  | 0, _, _, _ => none
  | fuel + 1, reader, cursor, sent =>
    match r.fillBuf reader with
    | (none, _) => some (.ok (), sent)
    | (some chunk, reader) =>
      let n := chunk.length
      if chunk.isEmpty then some (.ok (), sent)
      else
        let req := putChunk sessionUri cursor total chunk
        match server.put sent req with
        | .error e =>
          some (.error (.message (s!"cannot send request to {sessionUri} (chunk {cursor}..{cursor + chunkSize}): " ++ e)),
            sent ++ [req])
        | .ok status =>
          if isErrorStatus status then some (.error (.status status), sent ++ [req])
          else if n < chunkSize then some (.ok (), sent ++ [req])
          else uploadChunks sessionUri total fuel (r.consume n reader) (cursor + n) (sent ++ [req])

/-- The header of the response with this name; the last one counts. -/
def findHeader (headers : List (String × Option String)) (name : String) : Option String :=
  (headers.filterMap fun h => h.2.map (h.1.toLower, ·)).reverse.lookup name

def upload (fuel : Nat) (bytes : Bytes) (signedUrl : String) : Uploaded String :=
  match server.post with
  | .error e => some (.error (.request e), [])
  | .ok result =>
    if result.status ≠ 201 then
      some (.error (.message s!"Uploading package failed: got HTTP {result.status} when uploading"), [])
    else
      match findHeader result.headers "location" with
      | none => some (.error (.message "The upload server did not provide the upload URL correctly"), [])
      | some sessionUri =>
        match uploadChunks r server sessionUri bytes.length fuel (r.withCapacity chunkSize bytes) 0 [] with
        | none => none
        | some (.ok (), sent) => some (.ok signedUrl, sent)
        | some (.error e, sent) => some (.error e, sent)

variable {r server}

/-! ### What is sent -/

def bodies (sent : List PutRequest) : Bytes := sent.flatMap (·.body)

/-- The server took the request, after those before it. -/
def Accepted (server : UploadServer) (before : List PutRequest) (req : PutRequest) : Prop :=
  ∃ status, server.put before req = .ok status ∧ isErrorStatus status = false

/-- The chunks of the input, in order. A chunk is followed by another one only if it is full and was accepted. -/
structure Chunks (server : UploadServer) (input : Bytes) (sent : List PutRequest) : Prop where
  contiguous : bodies sent <+: input
  range : ∀ before req after, sent = before ++ req :: after → req.contentRange = contentRange (bodies before).length
    ((bodies before).length + req.body.length - 1) input.length
  nonempty : ∀ req ∈ sent, req.body ≠ []
  length_le : ∀ req ∈ sent, req.body.length ≤ chunkSize
  full : ∀ before req after, sent = before ++ req :: after → after ≠ [] → req.body.length = chunkSize
  accepted : ∀ before req after, sent = before ++ req :: after → after ≠ [] → Accepted server before req

/-- Everything was sent if the upload is reported to have succeeded. -/
structure SentOnce {α : Type} (server : UploadServer) (input : Bytes) (result : Except UploadError α × List PutRequest) :
    Prop where
  chunks : Chunks server input result.2
  complete : ∀ a, result.1 = .ok a → bodies result.2 = input

theorem bodies_append {xs ys : List PutRequest} : bodies (xs ++ ys) = bodies xs ++ bodies ys := List.flatMap_append

theorem chunks_nil {input : Bytes} : Chunks server input [] where
  contiguous := List.nil_prefix
  range before req after h := by simp at h
  nonempty req h := by cases h
  length_le req h := by cases h
  full before req after h := by simp at h
  accepted before req after h := by simp at h

/-- A list that ends with one more element is split behind this element or before it. -/
theorem split_append_singleton {α : Type} {xs before after : List α} {x y : α} (h : xs ++ [x] = before ++ y :: after) :
    (after = [] ∧ before = xs ∧ y = x) ∨ ∃ after', after = after' ++ [x] ∧ xs = before ++ y :: after' := by
  rcases List.eq_nil_or_concat after with rfl | ⟨after', z, rfl⟩
  · obtain ⟨rfl, heq⟩ := List.append_inj' h rfl
    cases heq
    exact .inl ⟨rfl, rfl, rfl⟩
  · rw [List.concat_eq_append] at h ⊢
    have h' : xs ++ [x] = (before ++ y :: after') ++ [z] := by rw [h, List.append_assoc, List.cons_append]
    obtain ⟨rfl, heq⟩ := List.append_inj' h' rfl
    cases heq
    exact .inr ⟨after', rfl, rfl⟩

/-- The upload goes on: these bytes are left, and all chunks were full and accepted. -/
structure Sending (server : UploadServer) (input : Bytes) (sent : List PutRequest) (rest : Bytes) : Prop where
  chunks : Chunks server input sent
  left : bodies sent ++ rest = input
  full : ∀ req ∈ sent, req.body.length = chunkSize
  accepted : ∀ before req after, sent = before ++ req :: after → Accepted server before req

theorem sending_nil {input : Bytes} : Sending server input [] input where
  chunks := chunks_nil
  left := rfl
  full req h := by cases h
  accepted before req after h := by simp at h

section Next

variable {input rest : Bytes} {sent : List PutRequest} {uri : String}

/-- The request for the next chunk. -/
def nextRequest (uri : String) (input rest : Bytes) (sent : List PutRequest) : PutRequest :=
  putChunk uri (bodies sent).length input.length (rest.take chunkSize)

theorem bodies_next : bodies (sent ++ [nextRequest uri input rest sent]) = bodies sent ++ rest.take chunkSize := by
  rw [bodies_append]
  exact congrArg (bodies sent ++ ·) (List.append_nil _)

theorem Sending.next (h : Sending server input sent rest) (uri : String) (hrest : rest ≠ []) :
    Chunks server input (sent ++ [nextRequest uri input rest sent]) := by
  have hpos : 0 < (rest.take chunkSize).length := by
    rw [List.length_take]
    have := List.length_pos_iff.mpr hrest
    exact Nat.lt_min.mpr ⟨by decide, this⟩
  have hmem : ∀ req ∈ sent ++ [nextRequest uri input rest sent], req ∈ sent ∨ req = nextRequest uri input rest sent := by
    intro req hreq
    rw [List.mem_append, List.mem_singleton] at hreq
    exact hreq
  refine ⟨?_, fun before req after heq => ?_, fun req hreq => ?_, fun req hreq => ?_, fun before req after heq hne => ?_,
    fun before req after heq hne => ?_⟩
  · rw [bodies_next, ← h.left]
    exact (List.prefix_append_right_inj _).mpr (List.take_prefix _ _)
  · rcases split_append_singleton heq with ⟨-, rfl, rfl⟩ | ⟨after', -, heq'⟩
    · exact congrArg (contentRange _ · _) (Nat.add_sub_assoc hpos _).symm
    · exact h.chunks.range before req after' heq'
  · rcases hmem req hreq with hreq | rfl
    · exact h.chunks.nonempty req hreq
    · exact List.length_pos_iff.mp hpos
  · rcases hmem req hreq with hreq | rfl
    · exact h.chunks.length_le req hreq
    · exact List.length_take_le _ _
  · rcases split_append_singleton heq with ⟨rfl, -⟩ | ⟨after', -, heq'⟩
    · exact absurd rfl hne
    · exact h.full req (heq' ▸ List.mem_append_right _ List.mem_cons_self)
  · rcases split_append_singleton heq with ⟨rfl, -⟩ | ⟨after', -, heq'⟩
    · exact absurd rfl hne
    · exact h.accepted before req after' heq'

/-- After a full chunk that was accepted, the upload goes on. -/
theorem Sending.step (h : Sending server input sent rest) (hrest : rest ≠ [])
    (hfull : ¬(rest.take chunkSize).length < chunkSize)
    (haccepted : Accepted server sent (nextRequest uri input rest sent)) :
    Sending server input (sent ++ [nextRequest uri input rest sent]) (rest.drop chunkSize) := by
  refine ⟨h.next uri hrest, ?_, fun req hreq => ?_, fun before req after heq => ?_⟩
  · rw [bodies_next, List.append_assoc, List.take_append_drop, h.left]
  · rcases List.mem_append.mp hreq with hreq | hreq
    · exact h.full req hreq
    · rw [List.mem_singleton.mp hreq]
      exact Nat.le_antisymm (List.length_take_le _ _) (Nat.le_of_not_lt hfull)
  · rcases split_append_singleton heq with ⟨-, rfl, rfl⟩ | ⟨after', -, heq'⟩
    · exact haccepted
    · exact h.accepted before req after' heq'

end Next

/-! ### The loop -/

/-- One round of the loop, when these bytes are left. -/
theorem uploadChunks_succ {reads : r.State → Bytes → Prop} (hr : r.Lawful chunkSize reads) {uri : String}
    {total fuel cursor : Nat} {reader : r.State} {rest : Bytes} {sent : List PutRequest} (hreads : reads reader rest) :
    uploadChunks r server uri total (fuel + 1) reader cursor sent =
      if rest = [] then some (.ok (), sent)
      else
        let req := putChunk uri cursor total (rest.take chunkSize)
        match server.put sent req with
        | .error e =>
          some (.error (.message (s!"cannot send request to {uri} (chunk {cursor}..{cursor + chunkSize}): " ++ e)),
            sent ++ [req])
        | .ok status =>
          if isErrorStatus status then some (.error (.status status), sent ++ [req])
          else if rest.length < chunkSize then some (.ok (), sent ++ [req])
          else uploadChunks r server uri total fuel (r.consume (rest.take chunkSize).length (r.fillBuf reader).2)
            (cursor + (rest.take chunkSize).length) (sent ++ [req]) := by
  have hfill := hr.fill reader rest hreads
  have hempty : (rest.take chunkSize).isEmpty = true ↔ rest = [] := by
    rw [List.isEmpty_iff, List.take_eq_nil_iff]
    exact or_iff_right (by decide)
  have hlt : (rest.take chunkSize).length < chunkSize ↔ rest.length < chunkSize := by
    rw [List.length_take]
    omega
  rw [uploadChunks]
  cases hbuf : r.fillBuf reader with
  | mk chunk reader' =>
    rw [hbuf] at hfill
    dsimp only at hfill
    subst hfill
    simp only [hempty, hlt]

/-- Every result of the loop has sent the chunks in order, and it succeeds only if all of them were sent. -/
theorem uploadChunks_sentOnce {reads : r.State → Bytes → Prop} (hr : r.Lawful chunkSize reads) {uri : String}
    {input : Bytes} {fuel : Nat} {reader : r.State} {rest : Bytes} {sent : List PutRequest} (hreads : reads reader rest)
    (hsending : Sending server input sent rest) {result : Except UploadError Unit × List PutRequest}
    (h : uploadChunks r server uri input.length fuel reader (bodies sent).length sent = some result) :
    SentOnce server input result := by
  induction fuel generalizing reader rest sent with
  | zero => cases h
  | succ fuel ih =>
    rw [uploadChunks_succ hr hreads] at h
    by_cases hrest : rest = []
    · rw [if_pos hrest] at h
      cases h
      refine ⟨hsending.chunks, fun _ _ => ?_⟩
      rw [← hsending.left, hrest, List.append_nil]
    · rw [if_neg hrest] at h
      have hchunks := hsending.next uri hrest
      dsimp only at h
      rw [show putChunk uri (bodies sent).length input.length (rest.take chunkSize) =
        nextRequest uri input rest sent from rfl] at h
      cases hput : server.put sent (nextRequest uri input rest sent) with
      | error e =>
        rw [hput] at h
        cases h
        exact ⟨hchunks, fun _ h => by cases h⟩
      | ok status =>
        rw [hput] at h
        dsimp only at h
        cases hstatus : isErrorStatus status with
        | true =>
          rw [hstatus, if_pos rfl] at h
          cases h
          exact ⟨hchunks, fun _ h => by cases h⟩
        | false =>
          rw [hstatus, if_neg Bool.false_ne_true] at h
          by_cases hlt : rest.length < chunkSize
          · rw [if_pos hlt] at h
            cases h
            refine ⟨hchunks, fun _ _ => ?_⟩
            rw [bodies_next, List.take_of_length_le hlt.le, hsending.left]
          · rw [if_neg hlt] at h
            have hfull : ¬(rest.take chunkSize).length < chunkSize := by
              rw [List.length_take]
              omega
            refine ih (hr.consume reader rest hreads) (hsending.step hrest hfull ⟨status, hput, hstatus⟩) ?_
            rw [bodies_next, List.length_append]
            exact h

/-- A round for each full chunk, and one more, is enough. -/
theorem uploadChunks_isSome {reads : r.State → Bytes → Prop} (hr : r.Lawful chunkSize reads) {uri : String}
    {total fuel cursor : Nat} {reader : r.State} {rest : Bytes} {sent : List PutRequest} (hreads : reads reader rest)
    (hfuel : rest.length / chunkSize < fuel) :
    (uploadChunks r server uri total fuel reader cursor sent).isSome = true := by
  induction fuel generalizing reader rest cursor sent with
  | zero => exact absurd hfuel (Nat.not_lt_zero _)
  | succ fuel ih =>
    rw [uploadChunks_succ hr hreads]
    split
    · rfl
    · dsimp only
      split
      · rfl
      · split
        · rfl
        · split
          · rfl
          · rename_i hlt
            refine ih (hr.consume reader rest hreads) ?_
            have hpos : 0 < rest.length / chunkSize := Nat.div_pos (Nat.le_of_not_lt hlt) (by decide)
            have hdiv := Nat.sub_mul_div rest.length chunkSize 1
            rw [Nat.mul_one] at hdiv
            rw [List.length_drop, hdiv]
            omega

/-! ### The whole upload -/

theorem sentOnce_nil {α : Type} {input : Bytes} {e : UploadError} :
    SentOnce server input ((.error e : Except UploadError α), []) :=
  ⟨chunks_nil, fun _ h => by cases h⟩

/-- The package is sent exactly once: each request carries the next chunk, with the range that it has. The upload ends,
    whatever the server answers. -/
theorem upload_sends_once {reads : r.State → Bytes → Prop} (hr : r.Lawful chunkSize reads) (server : UploadServer)
    (bytes : Bytes) (signedUrl : String) :
    (∀ fuel result, upload r server fuel bytes signedUrl = some result → SentOnce server bytes result) ∧
      ∀ fuel, bytes.length / chunkSize < fuel → (upload r server fuel bytes signedUrl).isSome = true := by
  have hnew := hr.new bytes
  unfold upload
  cases server.post with
  | error e =>
    refine ⟨fun fuel result h => ?_, fun _ _ => rfl⟩
    cases h
    exact sentOnce_nil
  | ok response =>
    dsimp only
    by_cases hstatus : response.status ≠ 201
    · simp only [if_pos hstatus]
      refine ⟨fun fuel result h => ?_, fun _ _ => rfl⟩
      cases h
      exact sentOnce_nil
    · simp only [if_neg hstatus]
      cases findHeader response.headers "location" with
      | none =>
        refine ⟨fun fuel result h => ?_, fun _ _ => rfl⟩
        cases h
        exact sentOnce_nil
      | some uri =>
        dsimp only
        constructor
        · intro fuel result h
          cases hchunks : uploadChunks r server uri bytes.length fuel (r.withCapacity chunkSize bytes) 0 [] with
          | none =>
            rw [hchunks] at h
            cases h
          | some sent =>
            have hsent := uploadChunks_sentOnce hr hnew sending_nil hchunks
            rw [hchunks] at h
            obtain ⟨res, reqs⟩ := sent
            cases res with
            | ok u =>
              cases h
              exact ⟨hsent.chunks, fun _ _ => hsent.complete u rfl⟩
            | error e =>
              cases h
              exact ⟨hsent.chunks, fun _ h => by cases h⟩
        · intro fuel hfuel
          have hsome : (uploadChunks r server uri bytes.length fuel (r.withCapacity chunkSize bytes) 0 []).isSome =
              true := uploadChunks_isSome hr hnew hfuel
          obtain ⟨⟨res, reqs⟩, hchunks⟩ := Option.isSome_iff_exists.mp hsome
          rw [hchunks]
          cases res <;> rfl

/-- A reader with a buffer in front of the input that it has not read. -/
def sliceReader : BufReader where
  State := Nat × Bytes × Bytes
  withCapacity capacity input := (capacity, [], input)
  fillBuf := fun (capacity, buffer, input) =>
    if buffer.isEmpty then (some (input.take capacity), capacity, input.take capacity, input.drop capacity)
    else (some buffer, capacity, buffer, input)
  consume n := fun (capacity, buffer, input) => (capacity, buffer.drop n, input)

theorem sliceReader_lawful : sliceReader.Lawful chunkSize fun s rest => s = (chunkSize, [], rest) where
  new _ := rfl
  fill := by
    rintro _ rest rfl
    rfl
  consume := by
    rintro _ rest rfl
    show (chunkSize, (rest.take chunkSize).drop (rest.take chunkSize).length, rest.drop chunkSize) = _
    rw [List.drop_length]

/-- A server that takes everything. -/
def takesAll : UploadServer where
  post := .ok { status := 201, headers := [("location", some "uri")] }
  put _ _ := .ok 200

/-- One round with this reader and this server. -/
theorem uploadChunks_takesAll {total fuel cursor : Nat} {rest : Bytes} {sent : List PutRequest} (hne : rest ≠ []) :
    uploadChunks sliceReader takesAll "uri" total (fuel + 1) (chunkSize, [], rest) cursor sent =
      if rest.length < chunkSize then some (.ok (), sent ++ [putChunk "uri" cursor total (rest.take chunkSize)])
      else uploadChunks sliceReader takesAll "uri" total fuel (chunkSize, [], rest.drop chunkSize)
        (cursor + (rest.take chunkSize).length) (sent ++ [putChunk "uri" cursor total (rest.take chunkSize)]) := by
  have hreader : sliceReader.consume (rest.take chunkSize).length (sliceReader.fillBuf (chunkSize, [], rest)).2 =
      (chunkSize, [], rest.drop chunkSize) := sliceReader_lawful.consume _ rest rfl
  refine (uploadChunks_succ sliceReader_lawful rfl).trans ?_
  rw [if_neg hne, hreader]
  rfl

/-- A full chunk is followed by what is left. -/
theorem upload_takesAll {full last : Bytes} (hfull : full.length = chunkSize) (hne : last ≠ [])
    (hlast : last.length < chunkSize) : upload sliceReader takesAll 2 (full ++ last) "url" =
      some (.ok "url", [putChunk "uri" 0 (full ++ last).length full,
        putChunk "uri" chunkSize (full ++ last).length last]) := by
  have hpost : takesAll.post = .ok { status := 201, headers := [("location", some "uri")] } := rfl
  have hheader : findHeader [("location", some "uri")] "location" = some "uri" := by decide +kernel
  have hreader : sliceReader.withCapacity chunkSize (full ++ last) = (chunkSize, [], full ++ last) := rfl
  have hfirst : (full ++ last).take chunkSize = full := List.take_left' hfull
  have hrest : (full ++ last).drop chunkSize = last := List.drop_left' hfull
  have hlong : ¬ (full ++ last).length < chunkSize := by
    rw [List.length_append, hfull]
    omega
  have hchunks : uploadChunks sliceReader takesAll "uri" (full ++ last).length 2 (chunkSize, [], full ++ last) 0 [] =
      some (.ok (), [putChunk "uri" 0 (full ++ last).length full,
        putChunk "uri" chunkSize (full ++ last).length last]) := by
    rw [uploadChunks_takesAll (List.append_ne_nil_of_right_ne_nil full hne), if_neg hlong, hfirst, hrest,
      uploadChunks_takesAll hne, if_pos hlast, List.take_of_length_le (Nat.le_of_lt hlast), hfull, Nat.zero_add]
    rfl
  simp only [upload, hpost, ne_eq, not_true_eq_false, if_false, hheader, hreader, hchunks]

/-- A full chunk and three more bytes. -/
def twoChunks : Bytes := List.replicate chunkSize 0 ++ [1, 2, 3]

theorem upload_sends_once_two_chunks : ∃ result, upload sliceReader takesAll 2 twoChunks "url" = some result ∧
    SentOnce takesAll twoChunks result ∧
      result.2 = [putChunk "uri" 0 twoChunks.length (List.replicate chunkSize 0),
        putChunk "uri" chunkSize twoChunks.length [1, 2, 3]] := by
  obtain ⟨hsent, -⟩ := upload_sends_once sliceReader_lawful takesAll twoChunks "url"
  have hupload := upload_takesAll (List.length_replicate (a := 0)) (List.cons_ne_nil 1 [2, 3]) (by decide)
  exact ⟨_, hupload, hsent _ _ hupload, rfl⟩

end Registry
end WasmerJs
