import Rsigncode.CliSign
import Rsigncode.Remote

/-! Signing away from the file: extract-data writes a request, a service signs what it reads
there, and attach-signature takes what the service has sent. -/
namespace Rsigncode

open FileStore DerCodec

section
variable {Key D S : Type} {sys : Platform Key D S}
variable {toOid : sys.signing.der.Oid → Oid} {pairs : Key → sys.crates.Cert → Prop}
variable {w v : World (SignedData sys.crates.Cert D S)}

def Serves (sys : Platform Key D S) (pairs : Key → sys.crates.Cert → Prop) (opts : SignOptions)
    (request x : Bytes) : Prop :=
  ∃ parsed key cert extraCerts s t,
    parseSpcIndirectData (spcFromDer sys.signing.der) request = .ok parsed ∧
      Paired sys.crates pairs key cert extraCerts ∧
      (signSpcIndirectData sys.signing key cert extraCerts parsed.contentDer opts).run s =
        (.ok x, t)

/-- The request is extracted from a file, and what the service makes of it is attached to a
file that holds some image. The blob may come with the wrapper that attaching takes off. -/
structure SignsAway (sys : Platform Key D S) (pairs : Key → sys.crates.Cert → Prop)
    (opts : SignOptions) (image image' x : Bytes) (eargs : ExtractDataArgs)
    (aargs : AttachSignatureArgs) (w v u t : World (SignedData sys.crates.Cert D S)) :
    Prop where
  extracted : (sys.cmdExtractData eargs).run w = (.ok (), v)
  source : ∃ signature, Shelved sys.build (w.store.data eargs.infile) ⟨image, signature⟩
  notPem : eargs.pem = false → sys.cli.pemParse (v.store.data eargs.outfile) = none
  short : (sys.signatureOf (v.store.data eargs.outfile)).length < 2 ^ 32
  served : Serves sys pairs opts (sys.signatureOf (v.store.data eargs.outfile)) x
  untimed : opts.rfc3161Urls = [] ∧ opts.authenticodeUrls = []
  adds : opts.Adds sys.signing
  bounded : x.length + 64 ≤ 2 ^ 31
  sent : normalizeAuthenticodeSignature (sys.signatureOf (u.store.data aargs.sigin)) = .ok x
  target : ∃ signature, Shelved sys.build (u.store.data aargs.infile) ⟨image', signature⟩
  apart : aargs.infile ≠ aargs.outfile
  attached : (sys.cmdAttachSignature aargs).run u = (.ok (), t)
  small : (t.store.data aargs.outfile).length < 2 ^ 32 - 2 ^ 16

def ExtractDataArgs.options (hashAlgo : HashAlgorithm) : SignOptions where
  toSigningOptions := { SigningOptions.default with hashAlgo }

theorem cmdExtractData_wrote {args : ExtractDataArgs} {shelf : Shelf}
    (shelved : Shelved sys.build (w.store.data args.infile) shelf)
    (run : (sys.cmdExtractData args).run w = (.ok (), v)) :
    ∃ hashAlgo request, HashAlgorithm.fromName args.h = .ok hashAlgo ∧
      buildExtractDataPkcs7 sys.signing (hashAlgo.finalize sys.crates shelf.image)
        (ExtractDataArgs.options hashAlgo) = .ok request ∧
      v.store.files args.outfile =
        some (if args.pem then sys.cli.pemEncode "PKCS7" request else request) := by
  obtain ⟨hashAlgo, w₁, named, same₁, run₁⟩ := (sys.looks_ofExcept _ _).bind_eq_ok run
  obtain ⟨input, w₂, opened, same₂, run₂⟩ := (sys.looks_openInput _).bind_eq_ok run₁
  obtain ⟨pe, w₃, parsed, same₃, run₃⟩ := (sys.looks_parseInput _).bind_eq_ok run₂
  obtain ⟨digest, w₄, hashed, same₄, run₄⟩ := (sys.looks_digest _ _ _ _).bind_eq_ok run₃
  obtain ⟨request, w₅, made, same₅, run₅⟩ := (sys.looks_ofExcept _ _).bind_eq_ok run₄
  cases openInput_eq_ok opened
  have same : SameFiles w.store w₂.store := same₁.next same₂
  have parsed := parsed_before same parsed
  cases digest_before (same.next same₃) shelved parsed hashed
  obtain ⟨_, algo, -⟩ := onStore_eq_ok.mp named
  obtain ⟨_, built, -⟩ := onStore_eq_ok.mp made
  exact ⟨hashAlgo, request, (Prod.mk.inj algo).1, (Prod.mk.inj built).1, writeOut_wrote run₅⟩

theorem SignsAway.attested (laws : CmsLaws sys.crates sys.signing toOid pairs)
    (inverse : ∀ y, sys.cli.pemParse (sys.cli.pemEncode "PKCS7" y) = some y)
    {opts : SignOptions} {image image' x : Bytes} {eargs : ExtractDataArgs}
    {aargs : AttachSignatureArgs} {u t : World (SignedData sys.crates.Cert D S)}
    (h : SignsAway sys pairs opts image image' x eargs aargs w v u t) :
    ∃ hashAlgo, HashAlgorithm.fromName eargs.h = .ok hashAlgo ∧
      Attested sys { opts with hashAlgo } (hashAlgo.finalize sys.crates image) image'
        (t.store.data aargs.outfile) := by
  obtain ⟨signature, shelved⟩ := h.source
  obtain ⟨hashAlgo, request, named, built, wrote⟩ := cmdExtractData_wrote shelved h.extracted
  have read : Wrote sys eargs.pem request (v.store.data eargs.outfile) :=
    ⟨data_of_files wrote, h.notPem⟩
  have received := read.signatureOf inverse
  have short := h.short
  have served := h.served
  rw [received] at short served
  obtain ⟨parsed, key, cert, extraCerts, n, n', understood, paired, signed⟩ := served
  obtain ⟨content, made, same⟩ := parseSpcIndirectData_request laws.envelope built short
  cases understood.symm.trans same
  obtain ⟨_, twin⟩ := h.target
  exact ⟨hashAlgo, named, cmdAttachSignature_attested h.apart h.attached twin h.small h.sent
    (signSpcIndirectData_vouches laws paired h.untimed h.adds made signed h.bounded)⟩

/-- A file that is signed by way of a service is read like one that is signed at home, with
the algorithm that the request was made with, whichever that is: it is accepted exactly when
its image has the digest of the image that the request was extracted from. -/
theorem remotely_signed_then_verified (laws : CmsLaws sys.crates sys.signing toOid pairs)
    (inverse : ∀ y, sys.cli.pemParse (sys.cli.pemEncode "PKCS7" y) = some y)
    {opts : SignOptions} {image image' image'' x : Bytes} {eargs : ExtractDataArgs}
    {aargs : AttachSignatureArgs} {u t : World (SignedData sys.crates.Cert D S)}
    (signs : SignsAway sys pairs opts image image' x eargs aargs w v u t)
    {u' : World (SignedData sys.crates.Cert D S)} {p : Path}
    (handed : HandedOver sys t aargs.outfile image' u' p image'') {vargs : VerifyArgs}
    (plain : vargs.Plain p) :
    ∃ hashAlgo r t' entry, HashAlgorithm.fromName eargs.h = .ok hashAlgo ∧
      (sys.cmdVerify vargs).run u' = (r, t') ∧
      Verified sys { opts with hashAlgo } (hashAlgo.finalize sys.crates image) image'' u' t' r
        entry := by
  obtain ⟨hashAlgo, named, attested⟩ := signs.attested laws inverse
  obtain ⟨r, t', entry, run, verified⟩ := (handed.attested inverse attested).verified plain
  exact ⟨hashAlgo, r, t', entry, named, run, verified⟩

end

section Sample

def requestSmall : ExtractDataArgs := { infile := "in", outfile := "request", pem := true }

def attachRemote : AttachSignatureArgs := { infile := "in", outfile := "signed", sigin := "sig" }

def requestWorld : World (SignedData Bytes Unit Unit) :=
  ((smallPlatform.cmdExtractData requestSmall).run smallWorld).2

def answeredWorld : World (SignedData Bytes Unit Unit) :=
  { requestWorld with store := requestWorld.store.setData "sig" smallSignature }

def remoteWorld : World (SignedData Bytes Unit Unit) :=
  ((smallPlatform.cmdAttachSignature attachRemote).run answeredWorld).2

theorem attachRemote_runs :
    ((smallPlatform.cmdExtractData requestSmall).run smallWorld).1.toOption = some () ∧
    ((smallPlatform.cmdAttachSignature attachRemote).run answeredWorld).1.toOption = some () ∧
    smallPlatform.signatureOf (requestWorld.store.data "request") =
      (smallParts false).der smallSpc ∧
    ((smallParts false).der smallSpc).length < 2 ^ 32 ∧ smallSignature.length + 64 ≤ 2 ^ 31 ∧
    normalizeAuthenticodeSignature (smallPlatform.signatureOf
      (answeredWorld.store.data "sig")) = .ok smallSignature ∧
    smallWorld.store.data "in" = smallPe 0 0 ∧ answeredWorld.store.data "in" = smallPe 0 0 ∧
    (remoteWorld.store.data "signed").length < 2 ^ 32 - 2 ^ 16 := by
  decide +kernel

theorem smallSpc_served : Serves smallPlatform (fun _ _ => True) { toSigningOptions := .default }
    ((smallParts false).der smallSpc) smallSignature := by
  have built : buildExtractDataPkcs7 smallSigning [228] { toSigningOptions := .default } =
      .ok ((smallParts false).der smallSpc) :=
    buildExtractDataPkcs7_eq_ok.mpr ⟨smallSpc, smallSpc_built, rfl⟩
  obtain ⟨content, made, read⟩ := parseSpcIndirectData_request smallLaws.envelope built
    attachRemote_runs.2.2.2.1
  cases smallSpc_built.symm.trans made
  exact ⟨_, (), [1], [], smallWorld.network, _, read,
    ⟨trivial, fun _ here => absurd here List.not_mem_nil⟩, smallSpc_signed _⟩

theorem attachRemote_signsAway : SignsAway smallPlatform (fun _ _ => True)
    { toSigningOptions := .default } (digestStream (smallPe 0 0) (smallFrame.info 0 0 240))
    (digestStream (smallPe 0 0) (smallFrame.info 0 0 240)) smallSignature requestSmall
    attachRemote smallWorld requestWorld answeredWorld remoteWorld := by
  obtain ⟨extracted, attached, request, short, bounded, sent, source, target, small⟩ :=
    attachRemote_runs
  exact {
    extracted := run_of_succeeded extracted
    source := ⟨none, smallPe_shelved source⟩
    notPem := fun armored => nomatch armored
    short := by rw [requestSmall, request]; exact short
    served := by rw [requestSmall, request]; exact smallSpc_served
    untimed := ⟨rfl, rfl⟩
    adds := fun a here => absurd here List.not_mem_nil
    bounded
    sent
    target := ⟨none, smallPe_shelved target⟩
    apart := by decide
    attached := run_of_succeeded attached
    small }

theorem remotely_signed_then_verified_small : ∃ hashAlgo t entry,
    HashAlgorithm.fromName requestSmall.h = .ok hashAlgo ∧
      (smallPlatform.cmdVerify { infile := "signed" }).run remoteWorld = (.ok (), t) ∧
      Verified smallPlatform (ExtractDataArgs.options hashAlgo)
        (hashAlgo.finalize smallCrates (digestStream (smallPe 0 0) (smallFrame.info 0 0 240)))
        (digestStream (smallPe 0 0) (smallFrame.info 0 0 240)) remoteWorld t (.ok ()) entry := by
  have plain : VerifyArgs.Plain { infile := "signed" } "signed" := ⟨rfl, rfl, rfl, rfl⟩
  obtain ⟨hashAlgo, r, t, entry, named, run, verified⟩ := remotely_signed_then_verified smallLaws
    (fun _ => rfl) attachRemote_signsAway .start plain
  rw [verified.accepted.mpr rfl] at run verified
  exact ⟨hashAlgo, t, entry, named, run, verified⟩

end Sample

end Rsigncode
