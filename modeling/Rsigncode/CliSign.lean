import Rsigncode.CliVerify

/-! From the sign command to the verify command, on the file that was written or by way of a
signature in a file of its own. -/
namespace Rsigncode

open FileStore Window Function

section Attested
variable {Key D S : Type} {sys : Platform Key D S}
variable {toOid : sys.signing.der.Oid → Oid} {pairs : Key → sys.crates.Cert → Prop}

def Attested (sys : Platform Key D S) (opts : SignOptions) (digest image d : Bytes) : Prop :=
  ∃ x, Shelved sys.build d ⟨image, some x⟩ ∧ Vouches sys.crates opts digest x

/-- How the verification of such a file ends: what is reported is what was signed, and it is
accepted exactly when that is the digest of the image. -/
structure Verified (sys : Platform Key D S) (opts : SignOptions) (digest image : Bytes)
    (w v : World (SignedData sys.crates.Cert D S)) (r : Except Halt Unit)
    (entry : SignatureResult sys.crates.Time) : Prop where
  attests : Attests opts digest entry
  digestOk : entry.digestOk = (opts.hashAlgo.finalize sys.crates image == digest)
  printed : v.stdout = w.stdout ++ sys.printed ⟨[entry]⟩
  accepted : r = .ok () ↔ opts.hashAlgo.finalize sys.crates image = digest

structure VerifyArgs.Plain (args : VerifyArgs) (p : Path) : Prop where
  infile : args.infile = p
  anyChain : args.cafile = none
  anyTsa : args.tsaCafile = none
  anyLeaf : args.requireLeafHash = none

/-- A run of the sign command from one file into another, by a key with its certificate and
without timestamps. -/
structure Signs (sys : Platform Key D S) (pairs : Key → sys.crates.Cert → Prop) (args : SignArgs)
    (shelf : Shelf) (w v : World (SignedData sys.crates.Cert D S)) : Prop where
  run : (sys.cmdSign args).run w = (.ok (), v)
  shelved : Shelved sys.build (w.store.data args.infile) shelf
  apart : args.infile ≠ args.outfile
  untimed : args.ts = [] ∧ args.t = []
  paired : ∀ km, args.Loads sys w.store km →
    Paired sys.crates pairs km.signingKey km.signerCert km.extraCerts
  small : (v.store.data args.outfile).length + 64 ≤ 2 ^ 31

variable {w v : World (SignedData sys.crates.Cert D S)}

theorem Attested.verified {opts : SignOptions} {digest image : Bytes} {p : Path}
    (h : Attested sys opts digest image (w.store.data p)) {args : VerifyArgs}
    (plain : args.Plain p) :
    ∃ r u entry, (sys.cmdVerify args).run w = (r, u) ∧
      Verified sys opts digest image w u r entry := by
  obtain ⟨x, shelved, vouches⟩ := h
  obtain ⟨rfl, anyChain, anyTsa, anyLeaf⟩ := plain
  obtain ⟨entry, attests, chain, leafHash, verdict⟩ :=
    vouches.verifies ⟨[], args.requireLeafHash, args.ignoreTimestamp⟩
  have read : verifyBytes sys.crates ⟨[], args.requireLeafHash, args.ignoreTimestamp⟩ _ _ _ _ =
      Shelf.verify _ _ _ :=
    shelved.verify (fun y worn => by cases worn; exact vouches.transparent) sys.rounds uncut
  rw [Shelf.verify] at read
  have loaded : Loaded sys w.store args.cafile [] := by rw [anyChain]; rfl
  have loaded' : Loaded sys w.store args.tsaCafile [] := by rw [anyTsa]; rfl
  obtain ⟨u, run, printed⟩ :=
    cmdVerify_ends shelved.there loaded loaded' (read.trans (verdict image))
  refine ⟨_, u, _, run, attests.withDigestOk _, rfl, printed, told_eq_ok.trans ?_⟩
  simp [VerifyResult.allOk, SignatureResult.passes, attests.signatureOk, attests.timestampOk,
    chain rfl, leafHash anyLeaf]

theorem Signs.attested (laws : CmsLaws sys.crates sys.signing toOid pairs) {args : SignArgs}
    {shelf : Shelf} (signs : Signs sys pairs args shelf w v) :
    Attested sys (args.options .sha256) (sys.crates.sha256 shelf.image) shelf.image
      (v.store.data args.outfile) := by
  have small := signs.small
  obtain ⟨_, ⟨hashAlgo, km, x, n, -, loads, made, rfl⟩, shelved⟩ :=
    cmdSign_made signs.apart signs.run shelf signs.shelved (by omega)
  have inside := shelved.signature_length rfl
  obtain ⟨algo, vouches⟩ := createAuthenticodeSignature_vouches laws (signs.paired km loads)
    signs.untimed (fun a here => absurd here List.not_mem_nil) made (by omega)
  cases (algo : hashAlgo = .sha256)
  exact ⟨x, shelved, vouches⟩

/-- A file that a command has written holds the blob, as it is or as PEM text. It is read
back where the blob is not taken for such a text itself. -/
structure Wrote (sys : Platform Key D S) (pem : Bool) (der d : Bytes) : Prop where
  armored : d = if pem then sys.cli.pemEncode "PKCS7" der else der
  notPem : pem = false → sys.cli.pemParse d = none

theorem Wrote.signatureOf {pem : Bool} {der d : Bytes} (h : Wrote sys pem der d)
    (inverse : ∀ y, sys.cli.pemParse (sys.cli.pemEncode "PKCS7" y) = some y) :
    sys.signatureOf d = der := by
  obtain ⟨rfl, notPem⟩ := h
  cases pem with
  | true => simp [Platform.signatureOf, inverse]
  | false =>
    have raw : sys.cli.pemParse der = none := notPem rfl
    simp [Platform.signatureOf, raw]

theorem writeOut_wrote {pem : Bool} {out : Path} {der : Bytes} {line : String}
    (run : (sys.writeOut pem out der >>= fun _ => eprintln line).run w = (.ok (), v)) :
    v.store.files out = some (if pem then sys.cli.pemEncode "PKCS7" der else der) := by
  unfold Platform.writeOut at run
  cases pem <;>
  · cases run
    exact if_pos rfl

/-- A signature is extracted into a file of its own, and from there attached to a file that
holds some image. -/
structure Transfers (sys : Platform Key D S) (image : Bytes) (eargs : ExtractSignatureArgs)
    (aargs : AttachSignatureArgs) (w v u t : World (SignedData sys.crates.Cert D S)) : Prop where
  extracted : (sys.cmdExtractSignature eargs).run w = (.ok (), v)
  notPem : eargs.pem = false → sys.cli.pemParse (v.store.data eargs.outfile) = none
  sigin : aargs.sigin = eargs.outfile
  kept : u.store.files eargs.outfile = v.store.files eargs.outfile
  image : ∃ signature, Shelved sys.build (u.store.data aargs.infile) ⟨image, signature⟩
  apart : aargs.infile ≠ aargs.outfile
  attached : (sys.cmdAttachSignature aargs).run u = (.ok (), t)
  small : (t.store.data aargs.outfile).length < 2 ^ 32 - 2 ^ 16

/-- What may happen between the two commands: anything that keeps the file, and any number
of transfers of its signature, to files of any images. -/
inductive HandedOver (sys : Platform Key D S) (w : World (SignedData sys.crates.Cert D S))
    (p : Path) (image : Bytes) : World (SignedData sys.crates.Cert D S) → Path → Bytes → Prop where
  | start : HandedOver sys w p image w p image
  | kept {v u : World (SignedData sys.crates.Cert D S)} {q : Path} {image' : Bytes}
      (before : HandedOver sys w p image v q image')
      (same : u.store.files q = v.store.files q) : HandedOver sys w p image u q image'
  | transfer {eargs : ExtractSignatureArgs} {aargs : AttachSignatureArgs}
      {v v' u t : World (SignedData sys.crates.Cert D S)} {image' image'' : Bytes}
      (before : HandedOver sys w p image v eargs.infile image')
      (transfers : Transfers sys image'' eargs aargs v v' u t) :
      HandedOver sys w p image t aargs.outfile image''

theorem cmdExtractSignature_wrote {args : ExtractSignatureArgs} {shelf : Shelf}
    (shelved : Shelved sys.build (w.store.data args.infile) shelf)
    (run : (sys.cmdExtractSignature args).run w = (.ok (), v)) :
    ∃ y, shelf.signature = some y ∧ v.store.files args.outfile =
      some (if args.pem then sys.cli.pemEncode "PKCS7" (padded y) else padded y) := by
  obtain ⟨input, w₁, opened, same₁, run₁⟩ := (sys.looks_openInput _).bind_eq_ok run
  obtain ⟨pe, w₂, parsed, same₂, run₂⟩ := (sys.looks_parseInput _).bind_eq_ok run₁
  obtain ⟨found, w₃, extracted, same₃, run₃⟩ := (sys.looks_extract _ _ _).bind_eq_ok run₂
  obtain ⟨sig, w₄, there, same₄, run₄⟩ := (looks_present _ _).bind_eq_ok run₃
  cases openInput_eq_ok opened
  have signature := signature_before (same₁.next same₂) shelved (parsed_before same₁ parsed)
    extracted
  rw [(present_eq_ok.mp there).1] at signature
  obtain ⟨y, worn, rfl⟩ := Option.map_eq_some_iff.mp signature.symm
  exact ⟨y, worn, writeOut_wrote run₄⟩

theorem cmdAttachSignature_attested {opts : SignOptions} {digest image x : Bytes}
    {args : AttachSignatureArgs} {signature : Option Bytes} (apart : args.infile ≠ args.outfile)
    (run : (sys.cmdAttachSignature args).run w = (.ok (), v))
    (shelved : Shelved sys.build (w.store.data args.infile) ⟨image, signature⟩)
    (small : (v.store.data args.outfile).length < 2 ^ 32 - 2 ^ 16)
    (given : normalizeAuthenticodeSignature (sys.signatureOf (w.store.data args.sigin)) = .ok x)
    (vouches : Vouches sys.crates opts digest x) :
    Attested sys opts digest image (v.store.data args.outfile) := by
  obtain ⟨_, ⟨d, x', there, normalized, rfl⟩, shelved'⟩ :=
    cmdAttachSignature_made apart run _ shelved small
  rw [data_of_files there] at given
  cases given.symm.trans normalized
  exact ⟨x, shelved', vouches⟩

theorem Transfers.attested (inverse : ∀ y, sys.cli.pemParse (sys.cli.pemEncode "PKCS7" y) = some y)
    {opts : SignOptions} {digest image image' : Bytes} {eargs : ExtractSignatureArgs}
    {aargs : AttachSignatureArgs} {u t : World (SignedData sys.crates.Cert D S)}
    (h : Transfers sys image' eargs aargs w v u t)
    (attested : Attested sys opts digest image (w.store.data eargs.infile)) :
    Attested sys opts digest image' (t.store.data aargs.outfile) := by
  obtain ⟨x, shelved, vouches⟩ := attested
  obtain ⟨padding, normal⟩ := vouches.padded
  obtain ⟨y, worn, wrote⟩ := cmdExtractSignature_wrote shelved h.extracted
  cases worn
  obtain ⟨signature, twin⟩ := h.image
  have read : Wrote sys eargs.pem (padded x) (v.store.data eargs.outfile) :=
    ⟨data_of_files wrote, h.notPem⟩
  refine cmdAttachSignature_attested h.apart h.attached twin h.small ?_ padding
  rw [h.sigin, Store.data, h.kept, ← Store.data, read.signatureOf inverse]
  exact normal

theorem HandedOver.attested
    (inverse : ∀ y, sys.cli.pemParse (sys.cli.pemEncode "PKCS7" y) = some y) {opts : SignOptions}
    {digest image image' : Bytes} {p q : Path} (handed : HandedOver sys w p image v q image')
    (attested : Attested sys opts digest image (w.store.data p)) :
    Attested sys opts digest image' (v.store.data q) := by
  induction handed with
  | start => exact attested
  | kept _ same ih => rwa [Store.data, same, ← Store.data]
  | transfer _ transfers ih => exact transfers.attested inverse ih

/-- What the sign command has written, the verify command reads, whatever happens that keeps
the file, and however often its signature is transferred. It reports the digest of the image
that was signed, with the name and the address that were given, and accepts the file exactly
when its own image has that digest. -/
theorem signed_then_verified (laws : CmsLaws sys.crates sys.signing toOid pairs)
    (inverse : ∀ y, sys.cli.pemParse (sys.cli.pemEncode "PKCS7" y) = some y)
    {args : SignArgs} {shelf : Shelf} (signs : Signs sys pairs args shelf w v)
    {u : World (SignedData sys.crates.Cert D S)} {p : Path} {image : Bytes}
    (handed : HandedOver sys v args.outfile shelf.image u p image) {vargs : VerifyArgs}
    (plain : vargs.Plain p) :
    ∃ r u' entry, (sys.cmdVerify vargs).run u = (r, u') ∧
      Verified sys (args.options .sha256) (sys.crates.sha256 shelf.image) image u u' r entry :=
  (handed.attested inverse (signs.attested laws)).verified plain

end Attested

section Sample

def signSmall : SignArgs :=
  { infile := "in", outfile := "out", certs := some "cert", key := some "key" }

def extractSmall : ExtractSignatureArgs := { infile := "out", outfile := "sig", pem := true }

def copySmall : AttachSignatureArgs := { infile := "in", outfile := "copy", sigin := "sig" }

def keyWorld : World (SignedData Bytes Unit Unit) :=
  { smallWorld with store := (smallWorld.store.setData "cert" []).setData "key" [] }

def signedWorld : World (SignedData Bytes Unit Unit) :=
  ((smallPlatform.cmdSign signSmall).run keyWorld).2

def extractedWorld : World (SignedData Bytes Unit Unit) :=
  ((smallPlatform.cmdExtractSignature extractSmall).run signedWorld).2

def copiedWorld : World (SignedData Bytes Unit Unit) :=
  ((smallPlatform.cmdAttachSignature copySmall).run extractedWorld).2

theorem copySmall_runs : ((smallPlatform.cmdSign signSmall).run keyWorld).1.toOption = some () ∧
    ((smallPlatform.cmdExtractSignature extractSmall).run signedWorld).1.toOption = some () ∧
    ((smallPlatform.cmdAttachSignature copySmall).run extractedWorld).1.toOption = some () ∧
    keyWorld.store.data "in" = smallPe 0 0 ∧ extractedWorld.store.data "in" = smallPe 0 0 ∧
    (signedWorld.store.data "out").length + 64 ≤ 2 ^ 31 ∧
    (copiedWorld.store.data "copy").length < 2 ^ 32 - 2 ^ 16 := by
  decide +kernel

theorem run_of_succeeded {x : smallPlatform.Run Unit} {w : World (SignedData Bytes Unit Unit)}
    (h : (x.run w).1.toOption = some ()) : x.run w = (.ok (), (x.run w).2) := by
  rcases run : x.run w with ⟨e | ⟨⟩, v⟩ <;> rw [run] at h
  cases h

theorem smallPe_shelved {s : Store} (held : s.data "in" = smallPe 0 0) :
    Shelved .release (s.data "in")
      ⟨digestStream (smallPe 0 0) (smallFrame.info 0 0 240), none⟩ := by
  rw [held]
  exact Accepts.shelved (smallPe_unsigned .release) rfl (by rw [smallPe_length]; decide)

theorem signSmall_paired {km : KeyMaterial Unit Bytes}
    (loads : signSmall.Loads smallPlatform keyWorld.store km) :
    Paired smallCrates (fun _ _ => True) km.signingKey km.signerCert km.extraCerts := by
  obtain ⟨_, _, pem, certs, key, loaded, rfl⟩ := loads
  cases certs
  cases key
  cases loaded
  exact ⟨trivial, fun _ here => absurd here List.not_mem_nil⟩

theorem signSmall_signs : Signs smallPlatform (fun _ _ => True) signSmall
    ⟨digestStream (smallPe 0 0) (smallFrame.info 0 0 240), none⟩ keyWorld signedWorld := by
  obtain ⟨ran, -, -, held, -, small, -⟩ := copySmall_runs
  exact ⟨run_of_succeeded ran, smallPe_shelved held, by decide, ⟨rfl, rfl⟩,
    fun _ => signSmall_paired, small⟩

theorem copySmall_transfers : Transfers smallPlatform
    (digestStream (smallPe 0 0) (smallFrame.info 0 0 240)) extractSmall copySmall
    signedWorld extractedWorld extractedWorld copiedWorld := by
  obtain ⟨-, extracted, attached, -, held, -, small⟩ := copySmall_runs
  exact ⟨run_of_succeeded extracted, (fun armored => nomatch armored), rfl, rfl,
    ⟨none, smallPe_shelved held⟩, by decide, run_of_succeeded attached, small⟩

theorem signed_then_verified_small : ∃ v entry,
    (smallPlatform.cmdVerify { infile := "copy" }).run copiedWorld = (.ok (), v) ∧
      Verified smallPlatform (signSmall.options .sha256)
        (smallCrates.sha256 (digestStream (smallPe 0 0) (smallFrame.info 0 0 240)))
        (digestStream (smallPe 0 0) (smallFrame.info 0 0 240)) copiedWorld v (.ok ()) entry := by
  have plain : VerifyArgs.Plain { infile := "copy" } "copy" := ⟨rfl, rfl, rfl, rfl⟩
  have handed : HandedOver smallPlatform signedWorld "out"
      (digestStream (smallPe 0 0) (smallFrame.info 0 0 240)) copiedWorld "copy" _ :=
    .transfer .start copySmall_transfers
  obtain ⟨r, v, entry, run, verified⟩ :=
    signed_then_verified smallLaws (fun _ => rfl) signSmall_signs handed plain
  rw [verified.accepted.mpr rfl] at run verified
  exact ⟨v, entry, run, verified⟩

end Sample

end Rsigncode
