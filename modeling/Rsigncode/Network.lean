import Rsigncode.Attach
import Rsigncode.TsaResponse
import Rsigncode.Lib.Retry

/-! Requests to timestamp servers, and the timestamps that a signature is given:
`crypto/timestamp.rs`. A server answers each request as it likes; what is sent, warned of
and waited for is recorded. -/
namespace Rsigncode

open FileStore Retry

/-- The decoded answer of an RFC 3161 server; `status` is its displayed status. -/
structure TimeStampResponse (SignedData : Type) where
  isSuccess : Bool
  status : String
  signedData : Except String (Option SignedData)

structure Servers (SignedData : Type) where
  timeStampMessageHttp : String → Bytes → Except String (TimeStampResponse SignedData)
  post : String → Bytes → Except String HttpResponse

inductive NetEvent where
  | request (url : String)
  | warning (text : String)
  | sleep (millis : Nat)
  deriving DecidableEq

abbrev Network (SignedData : Type) := Env (Servers SignedData) NetEvent

structure TimestampCrates (Cert D S : Type) where
  enc : Encoders Cert D S
  decodeBer : Bytes → Except String (SignedData Cert D S)
  octetString : Bytes → Except String Bytes
  toDer : TimeStampRequest → Except String Bytes
  base64Decode : Bytes → Except String Bytes

def Fault.isErr : Fault → Bool
  | .error _ => true
  | _ => false

def Fault.display : Fault → String
  | .error e => e.display
  | _ => ""

section Requests
variable {T : Type}

def requestRfc3161 (servers : Servers T) (signatureBytes : Bytes) (url : String) : Res T := do
  let response ← mapErr .timestamp ("RFC 3161 request to " ++ url ++ " failed: ")
    (servers.timeStampMessageHttp url signatureBytes)
  if !response.isSuccess then
    .error (.error (.timestamp ("RFC 3161 server " ++ url ++
      " returned unsuccessful status: " ++ response.status)))
  else do
    let token ← mapErr .timestamp "failed to decode timestamp token: " response.signedData
    okOr token (timestampError "no signed data in timestamp response")

def timestampAttempts : Nat := 3

/-- The body of both loops over URLs and attempts. -/
def rfc3161Attempts (signatureBytes : Bytes) :
    Attempts (Servers T) NetEvent (String × Nat) Fault T where
  event := fun (url, _) => .request url
  judge := fun (url, _) servers => requestRfc3161 servers signatureBytes url
  caught := Fault.isErr
  note := fun (url, attempt) e =>
    .warning ("Warning: timestamp request to " ++ url ++ " failed (attempt " ++
      toString attempt ++ "/" ++ toString timestampAttempts ++ "): " ++ e.display) ::
    if attempt < timestampAttempts then [.sleep (500 * attempt)] else []

def attemptsPerUrl (urls : List String) : List (String × Nat) :=
  urls.flatMap fun url => (List.range' 1 timestampAttempts).map fun attempt => (url, attempt)

def noUrls : Fault := timestampError "no timestamp URLs provided"

def requestRfc3161WithFallback (signatureBytes : Bytes) (urls : List String) :
    Prog (Network T) Fault T :=
  (rfc3161Attempts signatureBytes).firstOk noUrls (attemptsPerUrl urls)

variable {Cert D S : Type} (crates : TimestampCrates Cert D S)

def TimestampCrates.served (servers : Servers (SignedData Cert D S)) :
    TsaCrates (SignedData Cert D S) where
  octetString := crates.octetString
  toDer := crates.toDer
  post := servers.post
  base64Decode := crates.base64Decode
  decodeBer := crates.decodeBer

def authenticodeAttempts (signatureBytes : Bytes) :
    Attempts (Servers (SignedData Cert D S)) NetEvent String Fault (SignedData Cert D S) where
  event := .request
  judge url servers := requestAuthenticode (crates.served servers) signatureBytes url
  caught := Fault.isErr
  note url e := [.warning ("Warning: Authenticode timestamp request to " ++ url ++
    " failed: " ++ e.display)]

def requestAuthenticodeWithFallback (signatureBytes : Bytes) (urls : List String) :
    Prog (Network (SignedData Cert D S)) Fault (SignedData Cert D S) :=
  (authenticodeAttempts crates signatureBytes).firstOk noUrls urls

end Requests

section AddTimestamps
variable {Cert D S : Type}

abbrev Networked (Cert D S : Type) := Prog (Network (SignedData Cert D S)) Fault

def Mutates.apply (m : Mutates Cert D S Unit) (signedData : SignedData Cert D S) :
    Res (SignedData Cert D S) :=
  match m.run signedData with
  | (.ok (), s) => .ok s
  | (.error e, _) => .error e

def encodeSignedDataAsContentInfo (enc : Encoders Cert D S) (signedData : SignedData Cert D S) :
    Res Bytes := pure (enc.signedData signedData)

def firstSignature (signedData : SignedData Cert D S) : Res Bytes :=
  match signedData.signerInfos with
  | [] => .error (timestampError "no signer info in PKCS#7")
  | signer :: _ => pure signer.fields.signature

variable [DecidableEq Cert] (crates : TimestampCrates Cert D S)

def addRfc3161 (signatureBytes : Bytes) (urls : List String) (signedData : SignedData Cert D S) :
    Networked Cert D S (SignedData Cert D S) :=
  if urls.isEmpty then pure signedData
  else do
    let token ← requestRfc3161WithFallback signatureBytes urls
    .ofExcept ((attachRfc3161Timestamp crates.enc token).apply signedData)

def addAuthenticode (signatureBytes : Bytes) (urls : List String)
    (signedData : SignedData Cert D S) : Networked Cert D S (SignedData Cert D S) :=
  if urls.isEmpty then pure signedData
  else do
    let tsaResponse ← requestAuthenticodeWithFallback crates signatureBytes urls
    .ofExcept ((attachAuthenticodeTimestamp crates.enc tsaResponse).apply signedData)

def addTimestamps (pkcs7Der : Bytes) (rfc3161Urls authenticodeUrls : List String) :
    Networked Cert D S Bytes :=
  if rfc3161Urls.isEmpty && authenticodeUrls.isEmpty then pure pkcs7Der
  else do
    let cmsDer ← .ofExcept ((wrapAuthenticodeContent pkcs7Der).mapErr fun e =>
      .timestamp ("failed to normalize PKCS#7: " ++ e.display))
    let signedData ← .ofExcept (mapErr .timestamp "failed to parse PKCS#7 for timestamping: "
      (crates.decodeBer cmsDer))
    let signatureBytes ← .ofExcept (firstSignature signedData)
    let signedData ← addRfc3161 crates signatureBytes rfc3161Urls signedData
    let signedData ← addAuthenticode crates signatureBytes authenticodeUrls signedData
    let encoded ← .ofExcept (encodeSignedDataAsContentInfo crates.enc signedData)
    .ofExcept (normalizeAuthenticodeSignature encoded)

end AddTimestamps

section Fallback

theorem Res.Returns.isErr {α : Type} {x : Res α} (h : x.Returns) {e : Fault}
    (failed : x = .error e) : e.isErr = true := by
  rcases h with ⟨a, rfl⟩ | ⟨e', rfl⟩ <;> cases failed
  rfl

theorem mapErr_returns {α : Type} (kind : String → Error) (text : String) (x : Except String α) :
    (mapErr kind text x).Returns := by
  cases x with
  | error e => exact Res.returns_error _
  | ok a => exact Res.returns_ok a

theorem mapErr_eq_ok {α : Type} {kind : String → Error} {text : String} {x : Except String α}
    {a : α} : mapErr kind text x = .ok a ↔ x = .ok a := by
  cases x <;> simp [mapErr]

variable {T : Type}

theorem requestRfc3161_returns (servers : Servers T) (signatureBytes : Bytes) (url : String) :
    (requestRfc3161 servers signatureBytes url).Returns := by
  refine (mapErr_returns _ _ _).bind fun response _ => ?_
  split
  · exact Res.returns_error _
  · exact (mapErr_returns _ _ _).bind fun token _ => okOr_returns token _

theorem requestAuthenticode_returns (crates : TsaCrates T) (signatureBytes : Bytes)
    (url : String) : (requestAuthenticode crates signatureBytes url).Returns := by
  refine (mapErr_returns _ _ _).bind fun _ _ => (mapErr_returns _ _ _).bind fun _ _ =>
    (mapErr_returns _ _ _).bind fun response _ => ?_
  split
  · exact Res.returns_error _
  · refine (mapErr_returns _ _ _).bind fun body _ => Res.Returns.bind ?_ fun _ _ =>
      mapErr_returns _ _ _
    unfold decodeResponse
    split
    · exact mapErr_returns _ _ _
    · exact Res.returns_pure body

def NetEvent.url : NetEvent → Option String
  | request url => some url
  | _ => none

def NetEvent.millis : NetEvent → Nat
  | sleep millis => millis
  | _ => 0

def asked (log : List NetEvent) : List String := log.filterMap NetEvent.url

def waited (log : List NetEvent) : Nat := (log.map NetEvent.millis).sum

theorem asked_append (x y : List NetEvent) : asked (x ++ y) = asked x ++ asked y :=
  List.filterMap_append

theorem waited_append (x y : List NetEvent) : waited (x ++ y) = waited x + waited y := by
  simp [waited]

/-- A call with fallback asks a first part of `sends`, one after the other. All but the
last of these fail, what the last one comes to is what the call comes to, and something is
left unsent only behind a success. -/
structure FellBack (request : Nat → String → Res T) (sends : List String)
    (s : Network T) (r : Res T) (t : Network T) (tried rest : List String) : Prop where
  split : sends = tried ++ rest
  asked : asked t.log = asked s.log ++ tried
  failed : ∀ k url, tried[k]? = some url → k + 1 < tried.length →
    ∃ e, request k url = .error (.error e)
  result : ∀ url, tried.getLast? = some url → r = request (tried.length - 1) url
  untried : tried = [] → sends = [] ∧ r = .error noUrls
  stopped : rest ≠ [] → ∃ token, r = .ok token
  answers : ∀ k, t.answers k = s.answers (tried.length + k)

theorem fellBack_of_ran {ι : Type} {p : Attempts (Servers T) NetEvent ι Fault T}
    {url : ι → String} {request : Servers T → String → Res T} {l tried rest : List ι}
    {s t : Network T} {r : Res T} {failures : List Fault}
    (ran : Attempts.Ran p noUrls l s r t tried rest failures)
    (event : ∀ i, p.event i = .request (url i))
    (judge : ∀ i servers, p.judge i servers = request servers (url i))
    (returns : ∀ servers u, (request servers u).Returns)
    (note : ∀ i e, asked (p.note i e) = []) :
    FellBack (fun k => request (s.answers k)) (l.map url) s r t (tried.map url)
      (rest.map url) := by
  have size : tried.length ≤ failures.length + 1 := by
    have count := ran.count
    split at count <;> omega
  exact {
    split := by rw [ran.split, List.map_append]
    asked := by
      rw [ran.log, asked_append]
      exact congrArg _ (Attempts.filterMap_events size (fun i => by rw [event]; rfl) note)
    failed := by
      intro k u here inside
      rw [List.length_map] at inside
      rw [List.getElem?_map] at here
      obtain ⟨i, there, rfl⟩ := Option.map_eq_some_iff.mp here
      have before : k < failures.length := by omega
      obtain ⟨j, same, judged⟩ := ran.failed k _ (List.getElem?_eq_getElem before)
      cases there.symm.trans same
      rw [judge] at judged
      rcases returns (s.answers k) (url i) with ⟨a, ok⟩ | ⟨e, failed⟩
      · rw [ok] at judged
        cases judged
      · exact ⟨e, failed⟩
    result := by
      intro u last
      rw [List.getLast?_map] at last
      obtain ⟨i, there, rfl⟩ := Option.map_eq_some_iff.mp last
      rw [ran.result i there, judge, List.length_map]
    untried := by
      intro none
      obtain ⟨empty, left⟩ := ran.untried (List.map_eq_nil_iff.mp none)
      exact ⟨by rw [empty, List.map_nil], left⟩
    stopped := fun some => ran.stopped fun none => some (by rw [none, List.map_nil])
    answers := by
      rw [List.length_map]
      exact ran.answers }

theorem attemptsPerUrl_urls (urls : List String) : (attemptsPerUrl urls).map Prod.fst =
    urls.flatMap (List.replicate timestampAttempts) := by
  rw [attemptsPerUrl, List.map_flatMap]
  rfl

def pause (attempt : String × Nat) : Nat :=
  if attempt.2 < timestampAttempts then 500 * attempt.2 else 0

theorem attemptsPerUrl_pauses (urls : List String) :
    ((attemptsPerUrl urls).map pause).sum = 1500 * urls.length := by
  induction urls with
  | nil => rfl
  | cons url urls ih =>
    have first : (((List.range' 1 timestampAttempts).map fun attempt => (url, attempt)).map
        pause).sum = 1500 := rfl
    rw [attemptsPerUrl, List.flatMap_cons, List.map_append, List.sum_append, first,
      ← attemptsPerUrl, ih, List.length_cons]
    omega

theorem rfc3161_fellBack {signatureBytes : Bytes} {urls : List String} {s t : Network T}
    {r : Res T} {tried rest : List (String × Nat)} {failures : List Fault}
    (ran : Attempts.Ran (rfc3161Attempts signatureBytes) noUrls (attemptsPerUrl urls) s r t tried
      rest failures) : FellBack (fun k => requestRfc3161 (s.answers k) signatureBytes)
        (urls.flatMap (List.replicate timestampAttempts)) s r t (tried.map Prod.fst)
        (rest.map Prod.fst) := by
  have notes : ∀ i e, asked ((rfc3161Attempts (T := T) signatureBytes).note i e) = [] := by
    rintro ⟨url, attempt⟩ _
    by_cases again : attempt < timestampAttempts <;>
      simp [rfc3161Attempts, asked, again, NetEvent.url]
  have judged : ∀ i servers, (rfc3161Attempts signatureBytes).judge i servers =
      (fun servers : Servers T => requestRfc3161 servers signatureBytes) servers i.1 :=
    fun _ _ => rfl
  rw [← attemptsPerUrl_urls]
  exact fellBack_of_ran ran (fun _ => rfl) judged
    (fun servers u => requestRfc3161_returns servers signatureBytes u) notes

theorem rfc3161_ran (signatureBytes : Bytes) (urls : List String) (s : Network T) :
    ∃ r t tried rest failures, (requestRfc3161WithFallback signatureBytes urls).run s = (r, t) ∧
      Attempts.Ran (rfc3161Attempts signatureBytes) noUrls (attemptsPerUrl urls) s r t tried rest
        failures :=
  Attempts.exists_ran (rfc3161Attempts signatureBytes) noUrls (attemptsPerUrl urls) s
    fun i servers _ failed => (requestRfc3161_returns servers signatureBytes i.1).isErr failed

/-- Three attempts for each URL in order until one succeeds, and no more than a second and
a half waited for each. -/
theorem requestRfc3161WithFallback_run (signatureBytes : Bytes) (urls : List String)
    (s : Network T) : ∃ r t tried rest,
      (requestRfc3161WithFallback signatureBytes urls).run s = (r, t) ∧
      FellBack (fun k => requestRfc3161 (s.answers k) signatureBytes)
        (urls.flatMap (List.replicate timestampAttempts)) s r t tried rest ∧
      waited t.log ≤ waited s.log + 1500 * urls.length ∧
      (r.toBool = false → waited t.log = waited s.log + 1500 * urls.length) := by
  obtain ⟨r, t, tried, rest, failures, run, ran⟩ := rfc3161_ran signatureBytes urls s
  have pauses : waited t.log = waited s.log + ((tried.take failures.length).map pause).sum := by
    rw [ran.log, waited_append]
    refine congrArg _ (Attempts.sum_events (fun _ => rfl) fun i e => ?_)
    by_cases again : i.2 < timestampAttempts <;>
      simp [rfc3161Attempts, pause, again, NetEvent.millis]
  have whole := attemptsPerUrl_pauses urls
  have part : ((tried.take failures.length).map pause).sum +
      ((tried.drop failures.length ++ rest).map pause).sum = 1500 * urls.length := by
    rw [← List.sum_append, ← List.map_append, ← List.append_assoc, List.take_append_drop,
      ← ran.split, whole]
  refine ⟨r, t, _, _, run, rfc3161_fellBack ran, by omega, fun lost => ?_⟩
  have all : rest = [] := by
    by_contra some
    obtain ⟨a, rfl⟩ := ran.stopped some
    cases lost
  have count := ran.count
  rw [lost, if_neg Bool.false_ne_true] at count
  rw [all, count, List.drop_length] at part
  rw [count] at pauses
  simp only [List.append_nil, List.map_nil, List.sum_nil] at part
  omega

namespace FellBack
variable {request : Nat → String → Res T} {sends : List String} {s t : Network T} {r : Res T}
  {tried rest : List String}

theorem prefix_sends (h : FellBack request sends s r t tried rest) : tried <+: sends :=
  ⟨rest, h.split.symm⟩

/-- The call succeeds exactly when one of the requests, sent in its turn, would. -/
theorem ok_iff (h : FellBack request sends s r t tried rest) : (∃ token, r = .ok token) ↔
    ∃ k url token, sends[k]? = some url ∧ request k url = .ok token := by
  constructor
  · rintro ⟨token, rfl⟩
    rcases List.eq_nil_or_concat tried with rfl | ⟨before, url, rfl⟩
    · cases (h.untried rfl).2
    · refine ⟨before.length, url, token, ?_, ?_⟩
      · rw [h.split]
        simp
      · have result := h.result url (by simp)
        rw [result]
        simp
  · rintro ⟨k, url, token, here, ok⟩
    by_contra lost
    have all : rest = [] := by
      by_contra some
      exact lost (h.stopped some)
    rw [h.split, all, List.append_nil] at here
    have inside : k < tried.length := (List.getElem?_eq_some_iff.mp here).1
    by_cases last : k + 1 < tried.length
    · obtain ⟨e, failed⟩ := h.failed k url here last
      rw [ok] at failed
      cases failed
    · have final : k = tried.length - 1 := by omega
      subst final
      rw [← List.getLast?_eq_getElem?] at here
      exact lost ⟨token, (h.result url here).trans ok⟩

end FellBack

/-- One attempt for each URL in order until one succeeds. -/
theorem requestAuthenticodeWithFallback_run {Cert D S : Type} (crates : TimestampCrates Cert D S)
    (signatureBytes : Bytes) (urls : List String) (s : Network (SignedData Cert D S)) :
    ∃ r t tried rest, (requestAuthenticodeWithFallback crates signatureBytes urls).run s = (r, t) ∧
      FellBack (fun k => requestAuthenticode (crates.served (s.answers k)) signatureBytes) urls
        s r t tried rest := by
  obtain ⟨r, t, tried, rest, failures, run, ran⟩ := Attempts.exists_ran
    (authenticodeAttempts crates signatureBytes) noUrls urls s fun url servers e failed =>
      (requestAuthenticode_returns (crates.served servers) signatureBytes url).isErr failed
  have judged : ∀ url servers, (authenticodeAttempts crates signatureBytes).judge url servers =
      (fun servers => requestAuthenticode (crates.served servers) signatureBytes) servers
        (id url) := fun _ _ => rfl
  have back : FellBack (fun k => requestAuthenticode (crates.served (s.answers k)) signatureBytes)
      (urls.map id) s r t (tried.map id) (rest.map id) :=
    fellBack_of_ran ran (fun _ => rfl) judged
      (fun servers u => requestAuthenticode_returns (crates.served servers) signatureBytes u)
      (fun _ _ => rfl)
  rw [List.map_id] at back
  exact ⟨r, t, _, _, run, back⟩

end Fallback

section AddTimestamps
variable {Cert D S : Type}

def Obtained (request : Nat → String → Res (SignedData Cert D S))
    (kind : SignedData Cert D S → Timestamp Cert D S) (urls tried : List String)
    (done : List (Timestamp Cert D S)) : Prop :=
  (urls = [] → done = []) ∧
  (urls ≠ [] → ∃ before url token, tried = before ++ [url] ∧
    (∀ k u, before[k]? = some u → ∃ e, request k u = .error (.error e)) ∧
    request before.length url = .ok token ∧ done = [kind token])

structure Added (enc : Encoders Cert D S) (request : Nat → String → Res (SignedData Cert D S))
    (kind : SignedData Cert D S → Timestamp Cert D S) (urls sends : List String)
    (d : SignedData Cert D S) (s t : Network (SignedData Cert D S))
    (r : Res (SignedData Cert D S)) (tried : List String) : Prop where
  prefix_sends : tried <+: sends
  asked : asked t.log = asked s.log ++ tried
  answers : ∀ k, t.answers k = s.answers (tried.length + k)
  stamped : ∀ u, r = .ok u →
    ∃ done, Stamped enc d done u ∧ Obtained request kind urls tried done

theorem added_none {enc : Encoders Cert D S} {request : Nat → String → Res (SignedData Cert D S)}
    {kind : SignedData Cert D S → Timestamp Cert D S} (sends : List String)
    (d : SignedData Cert D S) (s : Network (SignedData Cert D S)) :
    Added enc request kind [] sends d s s (.ok d) [] where
  prefix_sends := List.nil_prefix
  asked := (List.append_nil _).symm
  answers := fun k => by rw [List.length_nil, Nat.zero_add]
  stamped := by
    intro u same
    cases same
    exact ⟨[], Stamped.refl d, fun _ => rfl, fun some => absurd rfl some⟩

theorem FellBack.obtained {request : Nat → String → Res (SignedData Cert D S)}
    {sends tried rest : List String} {s t : Network (SignedData Cert D S)}
    {token : SignedData Cert D S} (h : FellBack request sends s (.ok token) t tried rest)
    (kind : SignedData Cert D S → Timestamp Cert D S) {urls : List String} (some : urls ≠ []) :
    Obtained request kind urls tried [kind token] := by
  refine ⟨fun none => absurd none some, fun _ => ?_⟩
  rcases List.eq_nil_or_concat tried with rfl | ⟨before, url, rfl⟩
  · cases (h.untried rfl).2
  · rw [List.concat_eq_append] at h ⊢
    refine ⟨before, url, token, rfl, fun k u here => ?_, ?_, rfl⟩
    · have inside : k < before.length := (List.getElem?_eq_some_iff.mp here).1
      refine h.failed k u ((List.getElem?_append_left inside).trans here) ?_
      rw [List.length_append, List.length_singleton]
      omega
    · have result := h.result url List.getLast?_concat
      rw [List.length_append, List.length_singleton, Nat.add_sub_cancel] at result
      exact result.symm

theorem firstSignature_signed {d : SignedData Cert D S} {signature : Bytes}
    (found : firstSignature d = .ok signature) : d.signerInfos ≠ [] := by
  intro none
  rw [firstSignature, none] at found
  cases found

variable (crates : TimestampCrates Cert D S) in
/-- What `out` is made of: the data that the signature was decoded to, and that data with
one timestamp of each kind that was asked for, on the signature of its first signer. The
answers to the legacy requests are those behind the RFC 3161 ones. -/
structure Timestamped (rfc3161Urls authenticodeUrls : List String) (pkcs7Der out : Bytes)
    (s : Network (SignedData Cert D S)) (tried tried' : List String) (signature : Bytes)
    (signedData marked : SignedData Cert D S) (tokens responses : List (Timestamp Cert D S)) :
    Prop where
  read : ∃ cms, wrapAuthenticodeContent pkcs7Der = .ok cms ∧ crates.decodeBer cms = .ok signedData
  signed : firstSignature signedData = .ok signature
  stamped : Stamped crates.enc signedData (tokens ++ responses) marked
  rfc3161 : Obtained (fun k => requestRfc3161 (s.answers k) signature) .rfc3161 rfc3161Urls tried
    tokens
  authenticode : Obtained (fun k =>
      requestAuthenticode (crates.served (s.answers (tried.length + k))) signature) .authenticode
    authenticodeUrls tried' responses
  written : normalizeAuthenticodeSignature (crates.enc.signedData marked) = .ok out

variable (crates : TimestampCrates Cert D S) in
structure TimestampRun (rfc3161Urls authenticodeUrls : List String) (pkcs7Der : Bytes)
    (s : Network (SignedData Cert D S)) (r : Res Bytes) (t : Network (SignedData Cert D S))
    (tried tried' : List String) : Prop where
  asked : asked t.log = asked s.log ++ (tried ++ tried')
  rfc3161 : tried <+: rfc3161Urls.flatMap (List.replicate timestampAttempts)
  authenticode : tried' <+: authenticodeUrls
  returned : ∀ out, r = .ok out →
    rfc3161Urls = [] ∧ authenticodeUrls = [] ∧ out = pkcs7Der ∨
    ∃ signature signedData marked tokens responses, Timestamped crates rfc3161Urls
      authenticodeUrls pkcs7Der out s tried tried' signature signedData marked tokens responses

variable {crates : TimestampCrates Cert D S} {rfc3161Urls authenticodeUrls : List String}
  {pkcs7Der : Bytes}

theorem timestampRun_error (e : Fault) {s t : Network (SignedData Cert D S)}
    {tried tried' : List String} (log : asked t.log = asked s.log ++ (tried ++ tried'))
    (first : tried <+: rfc3161Urls.flatMap (List.replicate timestampAttempts))
    (second : tried' <+: authenticodeUrls) :
    TimestampRun crates rfc3161Urls authenticodeUrls pkcs7Der s (.error e) t tried tried' :=
  ⟨log, first, second, fun _ same => nomatch same⟩

variable [DecidableEq Cert]

theorem apply_attach (ts : Timestamp Cert D S) {d u : SignedData Cert D S}
    (signed : d.signerInfos ≠ [])
    (attached : Mutates.apply (ts.attach crates.enc) d = .ok u) :
    Stamped crates.enc d [ts] u := by
  rw [Mutates.apply] at attached
  rcases attach_run crates.enc ts signed with ⟨t, run, stamped⟩ | ⟨e, run⟩ <;>
    rw [run] at attached <;> cases attached
  exact stamped

variable (crates) in
theorem added_some {kind : SignedData Cert D S → Timestamp Cert D S} {urls sends : List String}
    {d : SignedData Cert D S} (signed : d.signerInfos ≠ []) (some : urls ≠ [])
    {x : Networked Cert D S (SignedData Cert D S)} {s t : Network (SignedData Cert D S)}
    {r : Res (SignedData Cert D S)} {tried rest : List String}
    {request : Nat → String → Res (SignedData Cert D S)} (run : x.run s = (r, t))
    (back : FellBack request sends s r t tried rest) :
    ∃ r', (x >>= fun token => .ofExcept (Mutates.apply ((kind token).attach crates.enc) d)).run s =
      (r', t) ∧ Added crates.enc request kind urls sends d s t r' tried := by
  cases r with
  | error e =>
    exact ⟨_, Prog.bind_error run, back.prefix_sends, back.asked, back.answers,
      fun u same => nomatch same⟩
  | ok token =>
    refine ⟨_, Prog.bind_ok run, back.prefix_sends, back.asked, back.answers, fun u attached => ?_⟩
    exact ⟨[kind token], apply_attach _ signed attached, back.obtained kind some⟩

variable (crates) in
theorem addRfc3161_run (signatureBytes : Bytes) (urls : List String) {d : SignedData Cert D S}
    (signed : d.signerInfos ≠ []) (s : Network (SignedData Cert D S)) :
    ∃ r t tried, (addRfc3161 crates signatureBytes urls d).run s = (r, t) ∧
      Added crates.enc (fun k => requestRfc3161 (s.answers k) signatureBytes) .rfc3161 urls
        (urls.flatMap (List.replicate timestampAttempts)) d s t r tried := by
  cases urls with
  | nil => exact ⟨_, s, [], rfl, added_none _ d s⟩
  | cons url urls =>
    obtain ⟨r, t, tried, rest, failures, run, ran⟩ := rfc3161_ran signatureBytes (url :: urls) s
    obtain ⟨r', whole, added⟩ : ∃ r', _ ∧ Added _ _ .rfc3161 _ _ d s t r' _ :=
      added_some crates signed (List.cons_ne_nil url urls) run (rfc3161_fellBack ran)
    exact ⟨r', t, _, whole, added⟩

variable (crates) in
theorem addAuthenticode_run (signatureBytes : Bytes) (urls : List String)
    {d : SignedData Cert D S} (signed : d.signerInfos ≠ [])
    (s : Network (SignedData Cert D S)) :
    ∃ r t tried, (addAuthenticode crates signatureBytes urls d).run s = (r, t) ∧
      Added crates.enc
        (fun k => requestAuthenticode (crates.served (s.answers k)) signatureBytes)
        .authenticode urls urls d s t r tried := by
  cases urls with
  | nil => exact ⟨_, s, [], rfl, added_none _ d s⟩
  | cons url urls =>
    obtain ⟨r, t, tried, rest, run, back⟩ :=
      requestAuthenticodeWithFallback_run crates signatureBytes (url :: urls) s
    obtain ⟨r', whole, added⟩ : ∃ r', _ ∧ Added _ _ .authenticode _ _ d s t r' _ :=
      added_some crates signed (List.cons_ne_nil url urls) run back
    exact ⟨r', t, tried, whole, added⟩

variable (rfc3161Urls authenticodeUrls) in
theorem addTimestamps_decoded {cms signature : Bytes} {d : SignedData Cert D S}
    (wrapped : wrapAuthenticodeContent pkcs7Der = .ok cms) (read : crates.decodeBer cms = .ok d)
    (found : firstSignature d = .ok signature) (s : Network (SignedData Cert D S)) :
    ∃ r t tried tried', (do
      let d ← addRfc3161 crates signature rfc3161Urls d
      let d ← addAuthenticode crates signature authenticodeUrls d
      let encoded ← .ofExcept (encodeSignedDataAsContentInfo crates.enc d)
      .ofExcept (normalizeAuthenticodeSignature encoded) : Networked Cert D S Bytes).run s =
        (r, t) ∧
      TimestampRun crates rfc3161Urls authenticodeUrls pkcs7Der s r t tried tried' := by
  have signed := firstSignature_signed found
  obtain ⟨r₁, t₁, tried, run₁, added₁⟩ := addRfc3161_run crates signature rfc3161Urls
     signed s
  cases r₁ with
  | error e =>
    refine ⟨_, t₁, tried, [], Prog.bind_error run₁, timestampRun_error e ?_ added₁.prefix_sends
      List.nil_prefix⟩
    rw [added₁.asked, List.append_nil]
  | ok u =>
    obtain ⟨tokens, stamped₁, requested₁⟩ := added₁.stamped u rfl
    obtain ⟨r₂, t₂, tried', run₂, added₂⟩ := addAuthenticode_run crates signature
      authenticodeUrls (stamped₁.signed signed) t₁
    have log : asked t₂.log = asked s.log ++ (tried ++ tried') := by
      rw [added₂.asked, added₁.asked, List.append_assoc]
    rw [Prog.bind_ok run₁]
    cases r₂ with
    | error e =>
      exact ⟨_, t₂, tried, tried', Prog.bind_error run₂,
        timestampRun_error e log added₁.prefix_sends added₂.prefix_sends⟩
    | ok v =>
      obtain ⟨responses, stamped₂, requested₂⟩ := added₂.stamped v rfl
      refine ⟨_, t₂, tried, tried', Prog.bind_ok run₂, log, added₁.prefix_sends,
        added₂.prefix_sends, fun out written => .inr ⟨signature, d, v, tokens, responses, ?_⟩⟩
      simp only [added₁.answers] at requested₂
      exact ⟨⟨cms, wrapped, read⟩, found, stamped₁.trans stamped₂, requested₁, requested₂, written⟩

/-- Timestamps are added all or none. The RFC 3161 servers are asked first, the legacy ones
after them; where the call returns a signature, it has one timestamp of each kind that was
asked for and is otherwise the one that was given. -/
theorem addTimestamps_run (crates : TimestampCrates Cert D S) (pkcs7Der : Bytes)
    (rfc3161Urls authenticodeUrls : List String) (s : Network (SignedData Cert D S)) :
    ∃ r t tried tried',
      (addTimestamps crates pkcs7Der rfc3161Urls authenticodeUrls).run s = (r, t) ∧
      TimestampRun crates rfc3161Urls authenticodeUrls pkcs7Der s r t tried tried' := by
  have nothing : asked s.log = asked s.log ++ ([] ++ []) := by simp
  have refused : ∀ e, TimestampRun crates rfc3161Urls authenticodeUrls pkcs7Der s (.error e) s
      [] [] := fun e => timestampRun_error e nothing List.nil_prefix List.nil_prefix
  by_cases none : rfc3161Urls = [] ∧ authenticodeUrls = []
  · obtain ⟨rfl, rfl⟩ := none
    refine ⟨.ok pkcs7Der, s, [], [], rfl, nothing, List.nil_prefix, List.nil_prefix, ?_⟩
    intro out same
    cases same
    exact .inl ⟨rfl, rfl, rfl⟩
  rw [addTimestamps, if_neg (by simpa using none)]
  cases wrapped : (wrapAuthenticodeContent pkcs7Der).mapErr fun e =>
      .timestamp ("failed to normalize PKCS#7: " ++ e.display) with
  | error e => exact ⟨_, s, [], [], rfl, refused e⟩
  | ok cms =>
    cases read : crates.decodeBer cms with
    | error e =>
      refine ⟨_, s, [], [], ?_, refused (timestampError
        ("failed to parse PKCS#7 for timestamping: " ++ e))⟩
      rw [Prog.bind_ok (t := s) rfl, read]
      rfl
    | ok d =>
      rw [Prog.bind_ok (t := s) rfl, read]
      cases found : firstSignature d with
      | error e =>
        refine ⟨_, s, [], [], ?_, refused e⟩
        rw [Prog.bind_ok (t := s) rfl, found]
        rfl
      | ok signature =>
        have rest := addTimestamps_decoded rfc3161Urls authenticodeUrls
          (Res.mapErr_eq_ok.mp wrapped) read found s
        rw [Prog.bind_ok (t := s) rfl, found]
        exact rest

end AddTimestamps

end Rsigncode
