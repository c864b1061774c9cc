import Rsigncode.Network
import Rsigncode.PeCalls
import Rsigncode.SpcContent

/-! Making a signature: the rest of `crypto/signing.rs`. What is handed to the CMS builder
is described; what it makes of that is the crate's. -/
namespace Rsigncode

open FileStore DerCodec

def spcIndirectData : Oid := [1, 3, 6, 1, 4, 1, 311, 2, 1, 4]
def spcStatementType : Oid := [1, 3, 6, 1, 4, 1, 311, 2, 1, 11]
def spcIndividualSpKeyPurpose : Oid := [1, 3, 6, 1, 4, 1, 311, 2, 1, 21]

def HashAlgorithm.fromName (name : String) : Res HashAlgorithm :=
  match name.toLower with
  | "sha1" => .ok .sha1
  | "sha256" => .ok .sha256
  | "sha384" => .ok .sha384
  | "sha512" => .ok .sha512
  | _ => .error (.error (.other ("unsupported hash algorithm: " ++ name)))

section Digest
variable (crates : Crates)

def peDigest (f : File) (pe : PeInfo) (algo : HashAlgorithm) : Proc Bytes :=
  match algo with
  | .sha256 => do
    let h ← authenticodeDigest f pe []
    pure (crates.sha256 h)
  | .sha384 => do
    let h ← authenticodeDigest f pe []
    pure (crates.sha384 h)
  | .sha512 => do
    let h ← authenticodeDigest f pe []
    pure (crates.sha512 h)
  | .sha1 => do
    let h ← authenticodeDigest f pe []
    pure (crates.sha1 h)

def HashAlgorithm.finalize : HashAlgorithm → Bytes → Bytes
  | sha1 => crates.sha1
  | sha256 => crates.sha256
  | sha384 => crates.sha384
  | sha512 => crates.sha512

end Digest

/-- `extraSignedAttributes` are object identifiers as octets, each with an encoded value. -/
structure SignOptions extends SigningOptions where
  rfc3161Urls : List String := []
  authenticodeUrls : List String := []
  extraSignedAttributes : List (Bytes × Bytes) := []

def SigningOptions.default : SigningOptions where
  hashAlgo := .sha256
  programName := none
  programUrl := none

structure SignerBuilder (Key Cert : Type) where
  signingKey : Key
  signingCertificate : Cert
  contentType : Option Bytes := none
  detachedMessageDigest : Option Bytes := none
  signedAttributes : List (Bytes × List Bytes) := []

def SignerBuilder.signedAttribute {Key Cert : Type} (signer : SignerBuilder Key Cert)
    (typ : Bytes) (values : List Bytes) : SignerBuilder Key Cert :=
  { signer with signedAttributes := signer.signedAttributes ++ [(typ, values)] }

structure SignedDataBuilder (Key Cert : Type) where
  contentType : Option Bytes := none
  contentInline : Option Bytes := none
  signers : List (SignerBuilder Key Cert) := []
  certificates : List Cert := []

structure SigningCrates (Key Cert D S : Type) where
  der : DerCrate
  tsa : TimestampCrates Cert D S
  buildDer : SignedDataBuilder Key Cert → Except String Bytes
  oidRefused : Oid → String

section
variable {Key Cert D S : Type} (crates : SigningCrates Key Cert D S)

def SigningCrates.oidToBcder (oid : Oid) : Bytes :=
  crates.der.oids.encode (crates.der.newUnwrap oid)

/-- The value is written as it is, without an OCTET STRING around it. -/
def attributeValueFromDer (value : Bytes) : Res Bytes := pure value

def oidToDer (oid : Oid) : Res Bytes :=
  match (Asn1.objectIdentifier crates.der).toDer (crates.der.newUnwrap oid) with
  | some der => .ok der
  | none => .error (.error (.signing ("DER encode statement type: " ++ crates.oidRefused oid)))

def withExtraAttributes (signer : SignerBuilder Key Cert) :
    List (Bytes × Bytes) → Res (SignerBuilder Key Cert)
  | [] => pure signer
  | (attrOid, value) :: rest => do
    let value ← attributeValueFromDer value
    withExtraAttributes (signer.signedAttribute attrOid [value]) rest

/-- The second step of signing. The digest is taken of the content without its header. -/
def authenticodeSigner (signingKey : Key) (signerCert : Cert) (spcContent : Bytes)
    (opts : SignOptions) : Res (SignerBuilder Key Cert) := do
  let spcContentValue ← derSequenceContent spcContent
  let signer : SignerBuilder Key Cert := {
    signingKey
    signingCertificate := signerCert
    contentType := some (crates.oidToBcder spcIndirectData)
    detachedMessageDigest := some spcContentValue }
  let opusInfo ← buildOpusInfo crates.der opts.toSigningOptions
  let opusInfo ← attributeValueFromDer opusInfo
  let signer := signer.signedAttribute (crates.oidToBcder spcSpOpusInfo) [opusInfo]
  let purpose ← oidToDer crates spcIndividualSpKeyPurpose
  let statementType ← attributeValueFromDer (emitTlv 0x30 purpose)
  let signer := signer.signedAttribute (crates.oidToBcder spcStatementType) [statementType]
  withExtraAttributes signer opts.extraSignedAttributes

def signSpcIndirectData [DecidableEq Cert] (signingKey : Key) (signerCert : Cert)
    (extraCerts : List Cert) (spcContent : Bytes) (opts : SignOptions) :
    Networked Cert D S Bytes := do
  .rejectIf (opts.hashAlgo ≠ .sha256)
    (.error (.signing "only SHA-256 is currently supported for signing"))
  let signer ← .ofExcept (authenticodeSigner crates signingKey signerCert spcContent opts)
  let builder : SignedDataBuilder Key Cert := {
    contentType := some (crates.oidToBcder spcIndirectData)
    contentInline := some spcContent
    signers := [signer]
    certificates := signerCert :: extraCerts }
  let pkcs7Der ← .ofExcept (mapErr .signing "failed to build SignedData: "
    (crates.buildDer builder))
  let pkcs7Der ←
    if !opts.rfc3161Urls.isEmpty || !opts.authenticodeUrls.isEmpty then
      addTimestamps crates.tsa pkcs7Der opts.rfc3161Urls opts.authenticodeUrls
    else pure pkcs7Der
  .ofExcept (normalizeAuthenticodeSignature pkcs7Der)

def createAuthenticodeSignature [DecidableEq Cert] (signingKey : Key) (signerCert : Cert)
    (extraCerts : List Cert) (digest : Bytes) (opts : SignOptions) :
    Networked Cert D S Bytes := do
  let spcContent ← .ofExcept (buildSpcIndirectData crates.der digest opts.toSigningOptions)
  signSpcIndirectData crates signingKey signerCert extraCerts spcContent opts

/-- No signers: a signing service adds them. -/
def buildExtractDataPkcs7 (digest : Bytes) (opts : SignOptions) : Res Bytes := do
  let spcContent ← buildSpcIndirectData crates.der digest opts.toSigningOptions
  let builder : SignedDataBuilder Key Cert := {
    contentType := some (crates.oidToBcder spcIndirectData)
    contentInline := some spcContent }
  mapErr .signing "failed to build extract-data PKCS#7: " (crates.buildDer builder)

end

section Agree
variable {crates : Crates}

theorem peDigest_yields (f : File) (pe : PeInfo) (algo : HashAlgorithm) (s : Store) :
    Yields (peDigest crates f pe algo) s
      (.ok (algo.finalize crates (digestStream (s.data f.path) pe))) := by
  obtain ⟨t, fed, same⟩ := authenticodeDigest_run f pe [] s
  refine ⟨t, ?_, same⟩
  cases algo <;> exact Prog.bind_ok fed

theorem hasherFor_digestAlgorithmOid (algo : HashAlgorithm) :
    hasherFor crates algo.digestAlgorithmOid = some (algo.finalize crates) := by
  cases algo <;> rfl

end Agree

section Built
variable {Key Cert D S : Type} {crates : SigningCrates Key Cert D S}

theorem withExtraAttributes_eq (signer : SignerBuilder Key Cert) (extra : List (Bytes × Bytes)) :
    withExtraAttributes signer extra = .ok { signer with
      signedAttributes := signer.signedAttributes ++ extra.map fun a => (a.1, [a.2]) } := by
  induction extra generalizing signer with
  | nil => simp [withExtraAttributes, pure, Except.pure]
  | cons a extra ih =>
    refine (ih (signer.signedAttribute a.1 [a.2])).trans ?_
    simp [SignerBuilder.signedAttribute]

structure Describes (crates : SigningCrates Key Cert D S) (signingKey : Key) (signerCert : Cert)
    (spcContent : Bytes) (opts : SignOptions) (signer : SignerBuilder Key Cert)
    (value opusInfo purpose : Bytes) : Prop where
  committed : derSequenceContent spcContent = .ok value
  opus : buildOpusInfo crates.der opts.toSigningOptions = .ok opusInfo
  statement : oidToDer crates spcIndividualSpKeyPurpose = .ok purpose
  signer : signer = {
    signingKey
    signingCertificate := signerCert
    contentType := some (crates.oidToBcder spcIndirectData)
    detachedMessageDigest := some value
    signedAttributes :=
      (crates.oidToBcder spcSpOpusInfo, [opusInfo]) ::
      (crates.oidToBcder spcStatementType, [emitTlv 0x30 purpose]) ::
      opts.extraSignedAttributes.map fun a => (a.1, [a.2]) }

theorem authenticodeSigner_eq_ok {signingKey : Key} {signerCert : Cert} {spcContent : Bytes}
    {opts : SignOptions} {signer : SignerBuilder Key Cert} :
    authenticodeSigner crates signingKey signerCert spcContent opts = .ok signer ↔
      ∃ value opusInfo purpose,
        Describes crates signingKey signerCert spcContent opts signer value opusInfo purpose := by
  simp only [authenticodeSigner, Res.bind_eq_ok, attributeValueFromDer, withExtraAttributes_eq]
  constructor
  · rintro ⟨value, committed, opusInfo, opus, _, same, purpose, statement, _, same', last⟩
    cases same
    cases same'
    cases last
    exact ⟨value, opusInfo, purpose, committed, opus, statement, rfl⟩
  · rintro ⟨value, opusInfo, purpose, h⟩
    exact ⟨value, h.committed, opusInfo, h.opus, _, rfl, purpose, h.statement, _, rfl,
      congrArg Except.ok h.signer.symm⟩

variable [DecidableEq Cert]

/-- Signing without timestamps asks nobody, and normalizes what the builder makes of the
signer, the content as it was given and the certificates, the signer's first. -/
theorem signSpcIndirectData_eq_ok {signingKey : Key} {signerCert : Cert} {extraCerts : List Cert}
    {spcContent pkcs7 : Bytes} {opts : SignOptions} {s t : Network (SignedData Cert D S)}
    (plain : opts.rfc3161Urls = [] ∧ opts.authenticodeUrls = []) :
    (signSpcIndirectData crates signingKey signerCert extraCerts spcContent opts).run s =
        (.ok pkcs7, t) ↔
      t = s ∧ opts.hashAlgo = .sha256 ∧ ∃ signer value opusInfo purpose der,
        Describes crates signingKey signerCert spcContent opts signer value opusInfo purpose ∧
        crates.buildDer {
          contentType := some (crates.oidToBcder spcIndirectData)
          contentInline := some spcContent
          signers := [signer]
          certificates := signerCert :: extraCerts } = .ok der ∧
        normalizeAuthenticodeSignature der = .ok pkcs7 := by
  simp only [signSpcIndirectData, plain.1, plain.2, List.isEmpty_nil, Bool.not_true,
    Bool.or_false, Bool.false_eq_true, if_false, Prog.bind_eq_ok, Prog.rejectIf_eq_ok,
    Prog.ofExcept_eq_ok, Prog.pure_eq_ok, not_not, authenticodeSigner_eq_ok, mapErr_eq_ok]
  constructor
  · rintro ⟨_, _, ⟨algo, rfl⟩, signer, _, ⟨⟨value, opusInfo, purpose, h⟩, rfl⟩, der, _,
      ⟨built, rfl⟩, _, _, ⟨rfl, rfl⟩, normalized, rfl⟩
    exact ⟨rfl, algo, signer, value, opusInfo, purpose, _, h, built, normalized⟩
  · rintro ⟨rfl, algo, signer, value, opusInfo, purpose, der, h, built, normalized⟩
    exact ⟨(), _, ⟨algo, rfl⟩, signer, _, ⟨⟨value, opusInfo, purpose, h⟩, rfl⟩, der, _,
      ⟨built, rfl⟩, _, _, ⟨rfl, rfl⟩, normalized, rfl⟩

end Built

end Rsigncode
