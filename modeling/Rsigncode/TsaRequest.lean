import Rsigncode.Network
import Rsigncode.RewriteSpec
import Rsigncode.SpcContent

/-! What the timestamp servers are told: the types of `asn1/timestamp.rs` with the codecs of
their derive macros, and the request that a legacy server reads in the body it is sent. -/
namespace Rsigncode

open FileStore DerCodec DerCodec.Codec DerCodec.Fields Retry

namespace Asn1

section
variable (crate : DerCrate)

structure TimeStampRequestBlob where
  contentType : crate.Oid
  signature : Bytes

structure TimeStampRequest where
  reqType : crate.Oid
  blob : TimeStampRequestBlob crate

def TimeStampRequestBlob.codec : Codec crate.limit (TimeStampRequestBlob crate) :=
  sequence ((field (objectIdentifier crate)
    (required (explicitTag 0 (tagged 0x04 (octetString crate.limit))))).map
    (fun x => ⟨x.1, x.2⟩) (fun x => (x.contentType, x.signature)) fun _ => rfl)

def TimeStampRequest.codec : Codec crate.limit (TimeStampRequest crate) :=
  sequence ((field (objectIdentifier crate) (required (TimeStampRequestBlob.codec crate))).map
    (fun x => ⟨x.1, x.2⟩) (fun x => (x.reqType, x.blob)) fun _ => rfl)

end

end Asn1

section
variable (crate : DerCrate)

def TimeStampRequest.built (request : TimeStampRequest) : Asn1.TimeStampRequest crate where
  reqType := crate.newUnwrap request.reqType
  blob := {
    contentType := crate.newUnwrap request.blob.contentType
    signature := request.blob.signature }

def Requests (body signature : Bytes) : Prop :=
  ∃ der, Base64.decode body = some der ∧ (Asn1.TimeStampRequest.codec crate).fromDer der =
    some ((timeStampRequest signature).built crate)

/-- The two calls that a request is made with are those of the DER crate. -/
structure DerEncodes {Cert D S : Type} (crates : TimestampCrates Cert D S) : Prop where
  octetString : ∀ b x, crates.octetString b = .ok x ↔ octetStringNew crate b = some x
  toDer : ∀ request der, crates.toDer request = .ok der ↔
    (Asn1.TimeStampRequest.codec crate).toDer (request.built crate) = some der

/-- The servers say the same of this signature: of itself, and of every body that requests
a timestamp on it. -/
structure SameFor {T : Type} (signature : Bytes) (a b : Servers T) : Prop where
  timeStampMessageHttp : ∀ url,
    a.timeStampMessageHttp url signature = b.timeStampMessageHttp url signature
  post : ∀ url body, Requests crate body signature → a.post url body = b.post url body

end

section
variable {crate : DerCrate}

theorem Requests.unique {body x y : Bytes} (hx : Requests crate body x)
    (hy : Requests crate body y) : x = y := by
  obtain ⟨der, decoded, read⟩ := hx
  obtain ⟨_, decoded', read'⟩ := hy
  cases decoded.symm.trans decoded'
  have same := Option.some.inj (read.symm.trans read')
  exact congrArg (fun request => request.blob.signature) same

variable {Cert D S : Type} {crates : TimestampCrates Cert D S}

theorem requests_encode {signature der : Bytes}
    (made : (Asn1.TimeStampRequest.codec crate).toDer ((timeStampRequest signature).built crate) =
      some der) : Requests crate (Base64.encode der) signature :=
  ⟨der, Base64.decode_encode der, fromDer_toDer _ made⟩

theorem requestRfc3161_same {signature : Bytes} {a b : Servers (SignedData Cert D S)}
    (same : SameFor crate signature a b) (url : String) :
    requestRfc3161 a signature url = requestRfc3161 b signature url := by
  simp only [requestRfc3161, same.timeStampMessageHttp url]

theorem Res.bind_congr {α β : Type} {x : Res α} {f g : α → Res β}
    (h : ∀ a, x = .ok a → f a = g a) : x >>= f = x >>= g := by
  cases x with
  | error e => rfl
  | ok a => exact h a rfl

theorem requestAuthenticode_same (encodes : DerEncodes crate crates) {signature : Bytes}
    {a b : Servers (SignedData Cert D S)} (same : SameFor crate signature a b) (url : String) :
    requestAuthenticode (crates.served a) signature url =
      requestAuthenticode (crates.served b) signature url := by
  have sent : ∀ x der, mapErr .timestamp "OctetString error: " (crates.octetString signature) =
      .ok x → mapErr .timestamp "failed to DER-encode timestamp request: "
        (crates.toDer (timeStampRequest x)) = .ok der →
      a.post url (Base64.encode der) = b.post url (Base64.encode der) := by
    intro x der octets made
    rw [mapErr_eq_ok] at octets made
    obtain ⟨-, rfl⟩ := octetStringNew_eq_some.mp ((encodes.octetString _ _).mp octets)
    exact same.post url _ (requests_encode ((encodes.toDer _ _).mp made))
  refine Res.bind_congr fun x octets => Res.bind_congr fun der made => ?_
  have answer := sent x der octets made
  simp only [TimestampCrates.served, answer]

variable (crate crates) in
def SameOn (pkcs7Der : Bytes) (a b : Servers (SignedData Cert D S)) : Prop :=
  ∀ cms d signature, wrapAuthenticodeContent pkcs7Der = .ok cms → crates.decodeBer cms = .ok d →
    firstSignature d = .ok signature → SameFor crate signature a b

variable {R : Servers (SignedData Cert D S) → Servers (SignedData Cert D S) → Prop}
  {signature : Bytes}

theorem addRfc3161_alike (same : ∀ a b, R a b → SameFor crate signature a b)
    (urls : List String) (d : SignedData Cert D S) :
    Prog.Alike (Env.Like R) (addRfc3161 crates signature urls d) := by
  unfold addRfc3161
  split
  · exact Prog.alike_pure d
  · exact (Attempts.firstOk_alike (fun i a b related => requestRfc3161_same (same a b related) i.1)
      _ _).bind fun token => Prog.alike_ofExcept _

variable [DecidableEq Cert]

theorem addAuthenticode_alike (encodes : DerEncodes crate crates)
    (same : ∀ a b, R a b → SameFor crate signature a b) (urls : List String)
    (d : SignedData Cert D S) :
    Prog.Alike (Env.Like R) (addAuthenticode crates signature urls d) := by
  unfold addAuthenticode
  split
  · exact Prog.alike_pure d
  · exact (Attempts.firstOk_alike (fun url a b related =>
      requestAuthenticode_same encodes (same a b related) url) _ _).bind
        fun tsaResponse => Prog.alike_ofExcept _

/-- Timestamping asks the servers about one signature and nothing else, and every server
that reads the format can tell which: two networks that say the same of that signature, and
whatever they like of anything else, cannot be told apart. -/
theorem addTimestamps_alike (encodes : DerEncodes crate crates) (pkcs7Der : Bytes)
    (rfc3161Urls authenticodeUrls : List String) :
    Prog.Alike (Env.Like (SameOn crate crates pkcs7Der))
      (addTimestamps crates pkcs7Der rfc3161Urls authenticodeUrls) := by
  unfold addTimestamps
  split
  · exact Prog.alike_pure pkcs7Der
  · refine Prog.alike_check fun cms wrapped => Prog.alike_check fun d read =>
      Prog.alike_check fun signature found => ?_
    have same : ∀ a b, SameOn crate crates pkcs7Der a b → SameFor crate signature a b :=
      fun a b related => related cms d signature (Res.mapErr_eq_ok.mp wrapped)
        (mapErr_eq_ok.mp read) found
    exact (addRfc3161_alike same _ _).bind fun d => (addAuthenticode_alike encodes same _ _).bind
      fun d => (Prog.alike_ofExcept _).bind fun encoded => Prog.alike_ofExcept _

end

section Sample

def octetTimestamps : TimestampCrates Nat Unit Unit where
  enc := ⟨fun _ => sampleDer, fun _ => [2]⟩
  decodeBer _ := .ok (plainMessage [1])
  octetString b := (octetStringNew octetCrate b).elim (.error "") .ok
  toDer request :=
    ((Asn1.TimeStampRequest.codec octetCrate).toDer (request.built octetCrate)).elim (.error "") .ok
  base64Decode := strictDecode

theorem octetTimestamps_encodes : DerEncodes octetCrate octetTimestamps where
  octetString b x := by
    cases made : octetStringNew octetCrate b <;> simp [octetTimestamps, made]
  toDer request der := by
    cases made : (Asn1.TimeStampRequest.codec octetCrate).toDer (request.built octetCrate) <;>
      simp [octetTimestamps, made]

def requested (body : Bytes) : Option Bytes := do
  let der ← Base64.decode body
  let request ← (Asn1.TimeStampRequest.codec octetCrate).fromDer der
  some request.blob.signature

def grants (signature : Bytes) (other : String) : Servers (SignedData Nat Unit Unit) where
  timeStampMessageHttp _ asked :=
    if asked = signature then .ok ⟨true, "granted", .ok (some (plainMessage [2]))⟩ else .error other
  post _ body :=
    if requested body = some signature then .ok ⟨true, "200 OK", .ok [0x30]⟩ else .error other

theorem grants_same (signature : Bytes) (other other' : String) :
    SameFor octetCrate signature (grants signature other) (grants signature other') where
  timeStampMessageHttp _ := by simp only [grants, if_true]
  post url body request := by
    obtain ⟨der, decoded, read⟩ := request
    have asked : requested body = some signature := by
      rw [requested, decoded, Option.bind_eq_bind, Option.bind_some, read]
      rfl
    simp only [grants, asked, if_true]

theorem addTimestamps_alike_granted :
    ((addTimestamps octetTimestamps sampleDer ["r"] ["l"]).run
      ⟨fun _ => grants [7] "closed", []⟩).1.toOption = some sampleDer ∧
    ((addTimestamps octetTimestamps sampleDer ["r"] ["l"]).run
      ⟨fun _ => grants [7] "closed", []⟩).1 =
    ((addTimestamps octetTimestamps sampleDer ["r"] ["l"]).run
      ⟨fun _ => grants [7] "busy", []⟩).1 := by
  have same : SameOn octetCrate octetTimestamps sampleDer (grants [7] "closed")
      (grants [7] "busy") := by
    intro cms d signature _ read found
    cases read
    cases found
    exact grants_same [7] "closed" "busy"
  exact ⟨by decide +kernel, (addTimestamps_alike octetTimestamps_encodes sampleDer ["r"] ["l"]
    ⟨fun _ => grants [7] "closed", []⟩ ⟨fun _ => grants [7] "busy", []⟩
    ⟨rfl, fun _ => same⟩).1⟩

end Sample

end Rsigncode
