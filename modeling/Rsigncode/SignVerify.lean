import Rsigncode.Accept
import Rsigncode.CmsDer
import Rsigncode.Shelf
import Rsigncode.Sign

/-! From a signing call to a verdict. The CMS crate is described by what it is relied on
for; the two sides of this program meet in the bytes between. -/
namespace Rsigncode

open FileStore Window DerCodec DerCodec.Codec Tlv

section Laws
variable {Key D S : Type} (crates : Crates) (signing : SigningCrates Key crates.Cert D S)

def IsOid (octets : Bytes) : Prop := octets.getLast?.any (· < 0x80) = true

instance (octets : Bytes) : Decidable (IsOid octets) := inferInstanceAs (Decidable (_ = true))

/-- Content type, message digest and signing time, which `build_der` adds of its own. -/
def ownAttributes : List Bytes :=
  [[0x2a, 0x86, 0x48, 0x86, 0xf7, 0x0d, 0x01, 0x09, 0x03],
    [0x2a, 0x86, 0x48, 0x86, 0xf7, 0x0d, 0x01, 0x09, 0x04],
    [0x2a, 0x86, 0x48, 0x86, 0xf7, 0x0d, 0x01, 0x09, 0x05]]

structure FreeAttribute (typ : Bytes) (values : List Bytes) : Prop where
  named : IsOid typ
  free : typ ∉ ownAttributes
  element : ∃ value, values = [value] ∧ IsElement value

def ToldApart (cert : crates.Cert) (certs : List crates.Cert) : Prop :=
  ∀ other ∈ certs, crates.issuerName other = crates.issuerName cert →
    crates.serialNumberAsn1 other = crates.serialNumberAsn1 cert → other = cert

structure SignedDataBuilder.Readable (builder : SignedDataBuilder Key crates.Cert) : Prop where
  contentType : ∀ typ, builder.contentType = some typ → IsOid typ
  sameType : ∀ signer ∈ builder.signers, signer.contentType = builder.contentType
  attributes : ∀ signer ∈ builder.signers, ∀ a ∈ signer.signedAttributes, FreeAttribute a.1 a.2
  certificates : ∀ signer ∈ builder.signers,
    ToldApart crates signer.signingCertificate builder.certificates

structure Shown (pairs : Key → crates.Cert → Prop) (signedData : crates.SignedData)
    (builder : SignerBuilder Key crates.Cert) (signer : crates.Signer) : Prop where
  digest : ∀ value, builder.detachedMessageDigest = some value →
    crates.verifyMessageDigestWithContent signer value = true
  signature : pairs builder.signingKey builder.signingCertificate →
    crates.verifySignatureWithSignedData signer signedData = true
  untimed : crates.verifyTimeStampToken signer = .ok none
  attributes : ∃ attrs, crates.signedAttributes signer = some attrs ∧
    List.Perm (attrs.attributes.filter (·.typ == spcSpOpusInfo))
      ((builder.signedAttributes.filter (·.1 == signing.oidToBcder spcSpOpusInfo)).map
        fun a => { typ := spcSpOpusInfo, values := a.2 })

/-- `build_der` writes the envelope of RFC 5652 around the content. -/
def EmitsEnvelopes {Cert : Type} (signing : SigningCrates Key Cert D S) : Prop :=
  ∀ builder der content, signing.buildDer builder = .ok der →
    builder.contentInline = some content →
    ∃ p : CmsParts, der = p.der content ∧ (p.inInfo content).length < 2 ^ 64

/-- What the CMS crate does: `build_der` writes the envelope of RFC 5652, and both parsers
read back what was described. `toOid` is the conversion between the two crates' object
identifiers, and `pairs` relates a key to the certificates of its public key. -/
structure CmsLaws (toOid : signing.der.Oid → Oid) (pairs : Key → crates.Cert → Prop) :
    Prop where
  envelope : EmitsEnvelopes signing
  parses : ∀ builder described der, SignedDataBuilder.Readable crates builder →
    builder.signers = [described] → signing.buildDer builder = .ok der →
    ∃ signedData signer, crates.parseBer der = .ok signedData ∧
      crates.signedContent signedData = builder.contentInline ∧
      crates.signers signedData = [signer] ∧
      Shown crates signing pairs signedData described signer
  decodes : ∀ builder der, SignedDataBuilder.Readable crates builder →
    signing.buildDer builder = .ok der → ∃ lowLevel, crates.decodeBer der = .ok lowLevel ∧
      ∀ signerInfo ∈ lowLevel.signerInfos, signerInfo.unsignedAttributes = none
  spc : ∀ b, crates.spcIndirectDataContent b = (spcFromDer signing.der b).map
    fun spc => { digest := spc.digest, digestAlgorithm := toOid spc.digestAlgorithm }
  opus : crates.spcSpOpusInfo = opusFromDer signing.der
  named : ∀ oid ∈ [spcIndirectData, spcSpOpusInfo, spcStatementType],
    IsOid (signing.oidToBcder oid) ∧ signing.oidToBcder oid ∉ ownAttributes
  apart : signing.oidToBcder spcStatementType ≠ signing.oidToBcder spcSpOpusInfo
  oids : ∀ algo : HashAlgorithm,
    toOid (signing.der.newUnwrap algo.digestAlgorithmOid) = algo.digestAlgorithmOid

structure Paired (pairs : Key → crates.Cert → Prop) (key : Key) (cert : crates.Cert)
    (extraCerts : List crates.Cert) : Prop where
  key : pairs key cert
  certificate : ToldApart crates cert extraCerts

def SignOptions.Adds {Cert : Type} (signing : SigningCrates Key Cert D S) (opts : SignOptions) :
    Prop :=
  ∀ a ∈ opts.extraSignedAttributes,
    FreeAttribute a.1 [a.2] ∧ a.1 ≠ signing.oidToBcder spcSpOpusInfo

end Laws

section Content
variable {crate : DerCrate}

theorem exists_content {spc : Asn1.SpcIndirectDataContent crate} {der : Bytes}
    (made : (Asn1.SpcIndirectDataContent.codec crate).toDer spc = some der) :
    ∃ c t u : Tlv, c.bytes = der ∧ c.tag = 0x30 ∧ c.content = flat [t, u] ∧ t.tag = 0x30 := by
  obtain ⟨fits, encoded⟩ := (toDer_eq_some _).mp made
  have small := crate.limit.lt
  obtain ⟨data, info, shape⟩ : ∃ data info, der = tlv 0x30 (tlv 0x30 data ++ tlv 0x30 info) :=
    ⟨_, _, encoded.symm⟩
  have whole := length_le_tlv 0x30 (tlv 0x30 data ++ tlv 0x30 info)
  have first := length_le_tlv 0x30 data
  have second := length_le_tlv 0x30 info
  rw [encoded, shape] at fits
  rw [List.length_append] at whole
  refine ⟨Tlv.emit 0x30 (tlv 0x30 data ++ tlv 0x30 info) (by rw [List.length_append]; omega),
    Tlv.emit 0x30 data (by omega), Tlv.emit 0x30 info (by omega), shape.symm, rfl, ?_, rfl⟩
  rw [flat_cons, flat_singleton]
  rfl

theorem spcFromDer_built {digest der : Bytes} {opts : SigningOptions}
    (built : buildSpcIndirectData crate digest opts = .ok der) :
    spcFromDer crate der = .ok {
      digest := digest
      digestAlgorithm := crate.newUnwrap opts.hashAlgo.digestAlgorithmOid } := by
  rw [spcFromDer, fromDer_toDer _ (buildSpcIndirectData_eq_ok.mp built)]
  rfl

theorem withOpusInfo_filter {crates : Crates} (attributes : List Attribute)
    (result : SignatureResult crates.Time) : withOpusInfo crates attributes result =
      withOpusInfo crates (attributes.filter (·.typ == spcSpOpusInfo)) result := by
  induction attributes generalizing result with
  | nil => rfl
  | cons attr rest ih =>
    cases here : attr.typ == spcSpOpusInfo with
    | true =>
      have kept : (attr :: rest).filter (·.typ == spcSpOpusInfo) =
          attr :: rest.filter (·.typ == spcSpOpusInfo) := List.filter_cons_of_pos here
      rw [kept, withOpusInfo, withOpusInfo, List.foldl_cons, List.foldl_cons]
      exact ih _
    | false =>
      have dropped : (attr :: rest).filter (·.typ == spcSpOpusInfo) =
          rest.filter (·.typ == spcSpOpusInfo) := List.filter_cons_of_neg (by simp [here])
      rw [dropped, ← ih, withOpusInfo, List.foldl_cons]
      simp only [here, Bool.false_eq_true, if_false]
      rfl

end Content

section Created
variable {Key D S : Type} {crates : Crates} {signing : SigningCrates Key crates.Cert D S}
variable {toOid : signing.der.Oid → Oid} {pairs : Key → crates.Cert → Prop}

theorem Describes.opusAttributes {key : Key} {cert : crates.Cert} {content value : Bytes}
    {opusInfo purpose : Bytes} {opts : SignOptions} {described : SignerBuilder Key crates.Cert}
    (h : Describes signing key cert content opts described value opusInfo purpose)
    (apart : signing.oidToBcder spcStatementType ≠ signing.oidToBcder spcSpOpusInfo)
    (adds : opts.Adds signing) :
    described.signedAttributes.filter (·.1 == signing.oidToBcder spcSpOpusInfo) =
      [(signing.oidToBcder spcSpOpusInfo, [opusInfo])] := by
  have others : (opts.extraSignedAttributes.map fun a => (a.1, [a.2])).filter
      (·.1 == signing.oidToBcder spcSpOpusInfo) = [] := by
    rw [List.filter_eq_nil_iff]
    intro a here
    obtain ⟨given, listed, rfl⟩ := List.mem_map.mp here
    simpa using (adds given listed).2
  rw [h.signer, List.filter_cons_of_pos (by simp), List.filter_cons_of_neg (by simpa using apart),
    others]

theorem statementType_element {oid : Oid} {purpose : Bytes}
    (made : oidToDer signing oid = .ok purpose) : IsElement (emitTlv 0x30 purpose) := by
  unfold oidToDer at made
  split at made
  · next der written =>
    cases made
    obtain ⟨fits, rfl⟩ := (toDer_eq_some _).mp written
    have room := Nat.lt_of_le_of_lt fits signing.der.limit.lt
    have content := length_le_tlv 0x06 (signing.der.oids.encode (signing.der.newUnwrap oid))
    have leaf : IsElement ((Asn1.objectIdentifier signing.der).encode _) :=
      isElement_leaf (Nat.lt_of_le_of_lt (Nat.le_trans (Nat.le_add_right _ 2) content) room)
        (by decide) (by decide)
    have whole : IsElement (tlv 0x30 _) := isElement_around room (by decide) (by decide) leaf
    rw [emitTlv_eq 0x30 room]
    exact whole
  · cases made

theorem Describes.readable (laws : CmsLaws crates signing toOid pairs) {key : Key}
    {cert : crates.Cert} {extraCerts : List crates.Cert} {content value : Bytes}
    {opusInfo purpose : Bytes} {opts : SignOptions} {described : SignerBuilder Key crates.Cert}
    (h : Describes signing key cert content opts described value opusInfo purpose)
    (apart : ToldApart crates cert extraCerts) (adds : opts.Adds signing) :
    SignedDataBuilder.Readable crates {
      contentType := some (signing.oidToBcder spcIndirectData)
      contentInline := some content
      signers := [described]
      certificates := cert :: extraCerts } := by
  obtain ⟨indirect, opus, statement⟩ : _ ∧ _ ∧ _ := by simpa using laws.named
  refine ⟨fun typ same => Option.some.inj same ▸ indirect.1, List.forall_mem_singleton.mpr ?_,
    List.forall_mem_singleton.mpr ?_, List.forall_mem_singleton.mpr ?_⟩
  · rw [h.signer]
  · rw [h.signer]
    refine List.forall_mem_cons.mpr ⟨⟨opus.1, opus.2, _, rfl, ?_⟩,
      List.forall_mem_cons.mpr ⟨⟨statement.1, statement.2, _, rfl, ?_⟩, fun a here => ?_⟩⟩
    · exact buildOpusInfo_element h.opus
    · exact statementType_element h.statement
    · obtain ⟨given, listed, rfl⟩ := List.mem_map.mp here
      exact (adds given listed).1
  · rw [h.signer]
    exact List.forall_mem_cons.mpr ⟨fun _ _ => rfl, apart⟩

structure Attests (opts : SignOptions) (digest : Bytes) (entry : SignatureResult crates.Time) :
    Prop where
  signatureOk : entry.signatureOk = true
  timestampOk : entry.timestampOk = none
  messageDigest : entry.messageDigest = digest
  digestAlgorithm : entry.digestAlgorithm = oidToAlgoName opts.hashAlgo.digestAlgorithmOid
  programName : entry.programName = opts.programName
  programUrl : entry.programUrl = opts.programUrl

theorem Attests.withDigestOk {opts : SignOptions} {digest : Bytes}
    {entry : SignatureResult crates.Time} (h : Attests opts digest entry) (digestOk : Bool) :
    Attests opts digest { entry with digestOk } :=
  ⟨h.signatureOk, h.timestampOk, h.messageDigest, h.digestAlgorithm, h.programName, h.programUrl⟩

theorem nestedSignatures_eq_nil
    {lowLevel : Rfc5652SignedData crates.DataFields crates.SignerFields}
    (bare : ∀ signerInfo ∈ lowLevel.signerInfos, signerInfo.unsignedAttributes = none) :
    nestedSignatures crates lowLevel = [] ∧ unsignedAttributes crates lowLevel = [] := by
  refine ⟨List.flatMap_eq_nil_iff.mpr fun signerInfo here => ?_,
    List.flatMap_eq_nil_iff.mpr fun signerInfo here => ?_⟩ <;>
  · rw [bare signerInfo here]
    rfl

theorem verifyTimestamp_untimed {cms : Bytes} {signedData : crates.SignedData}
    {signer : crates.Signer} {lowLevel : Rfc5652SignedData crates.DataFields crates.SignerFields}
    (read : crates.parseBer cms = .ok signedData) (sole : crates.signers signedData = [signer])
    (untimed : crates.verifyTimeStampToken signer = .ok none)
    (decoded : crates.decodeBer cms = .ok lowLevel)
    (bare : ∀ signerInfo ∈ lowLevel.signerInfos, signerInfo.unsignedAttributes = none) :
    verifyTimestamp crates cms = none := by
  simp [verifyTimestamp, read, sole, untimed, decoded, nestedSignatures_eq_nil bare,
    Except.toOption, bind, Option.bind]

theorem extractSignatureInfo_built {signedData : crates.SignedData} {content : Bytes}
    {spc : SpcIndirectDataContent Oid} {signer : crates.Signer}
    {attrs : SignedAttributes crates.Time} {opts : SigningOptions} {opusInfo : Bytes}
    (present : crates.signedContent signedData = some content)
    (parsed : crates.spcIndirectDataContent content = .ok spc)
    (sole : crates.signers signedData = [signer])
    (shown : crates.signedAttributes signer = some attrs)
    (one : attrs.attributes.filter (·.typ == spcSpOpusInfo) =
      [{ typ := spcSpOpusInfo, values := [opusInfo] }])
    (reads : crates.spcSpOpusInfo = opusFromDer signing.der)
    (built : buildOpusInfo signing.der opts = .ok opusInfo) (rawDer : Bytes) (index : Nat) :
    (extractSignatureInfo crates signedData rawDer index).digestAlgorithm =
        oidToAlgoName spc.digestAlgorithm ∧
      (extractSignatureInfo crates signedData rawDer index).programName = opts.programName ∧
      (extractSignatureInfo crates signedData rawDer index).programUrl = opts.programUrl := by
  have opus := fun r => (withOpusInfo_filter attrs.attributes r).trans
    (one ▸ withOpusInfo_built reads built r)
  simp only [extractSignatureInfo, present, parsed, Option.bind_some, Except.toOption,
    withSignerInfo, sole, shown, opus]
  cases findSignerCert crates signedData signer <;> exact ⟨rfl, rfl, rfl⟩

theorem digestMatches_eq {image content : Bytes} {signedData : crates.SignedData}
    {spc : SpcIndirectDataContent Oid} {finalize : Bytes → Bytes}
    (present : crates.signedContent signedData = some content)
    (parsed : crates.spcIndirectDataContent content = .ok spc)
    (named : hasherFor crates spc.digestAlgorithm = some finalize) :
    digestMatches crates image signedData = .ok (finalize image == spc.digest) := by
  rw [digestMatches, Res.bind_ok (okOr_eq_ok.mpr present), Res.bind_ok (decoded_eq_ok.mpr parsed),
    imageDigest, named]
  rfl

variable (crates) in
def entryOf (vopts : VerifyOptions crates.Cert) (signedData : crates.SignedData) (cms : Bytes)
    (digestOk : Bool) : SignatureResult crates.Time :=
  let result := extractSignatureInfo crates signedData cms 0
  { result with
    digestOk
    signatureOk := true
    chainOk :=
      if vopts.caCerts.isEmpty then result.chainOk
      else some (verifyChain crates signedData vopts.caCerts)
    timestampOk :=
      if vopts.ignoreTimestamp then result.timestampOk else verifyTimestamp crates cms
    leafHashOk :=
      match vopts.requireLeafHash with
      | some spec => some (verifyLeafHashForSigner crates signedData spec)
      | none => result.leafHashOk }

theorem verdict_eq {vopts : VerifyOptions crates.Cert} {image x cms : Bytes}
    {signedData : crates.SignedData} {digestOk : Bool}
    (checked : checkAuthenticodeEnvelope x = .ok ())
    (wrapped : wrapAuthenticodeContent x = .ok cms) (read : crates.parseBer cms = .ok signedData)
    (matched : digestMatches crates image signedData = .ok digestOk)
    (crypto : verifyCryptoSignature crates signedData = .ok true) :
    verdict crates vopts image 0 x = .ok (entryOf crates vopts signedData cms digestOk) := by
  rw [verdict, checked]
  refine (Res.bind_ok (cmsForm_eq_ok.mpr wrapped) _).trans ?_
  rw [Res.bind_ok (decoded_eq_ok.mpr read), matched]
  refine (Res.bind_ok (x := Res.unwrapOr (.ok digestOk) false) rfl _).trans ?_
  rw [Res.bind_ok crypto]
  rfl

variable [DecidableEq crates.Cert]

/-- A signature that is read as it was described, on whichever image: its entry depends on the
image through one comparison of digests alone. -/
structure Vouches (crates : Crates) [DecidableEq crates.Cert] (opts : SignOptions)
    (digest x : Bytes) : Prop where
  transparent : ∃ s, Transparent x s
  checked : checkAuthenticodeEnvelope x = .ok ()
  verifies : ∀ vopts : VerifyOptions crates.Cert, ∃ entry : SignatureResult crates.Time,
    Attests opts digest entry ∧ (vopts.caCerts = [] → entry.chainOk = none) ∧
      (vopts.requireLeafHash = none → entry.leafHashOk = none) ∧
      ∀ image, verifySignature crates vopts image x =
        .ok ⟨[{ entry with digestOk := opts.hashAlgo.finalize crates image == digest }]⟩

theorem Vouches.padded {opts : SignOptions} {digest x : Bytes}
    (h : Vouches crates opts digest x) : Vouches crates opts digest (padded x) ∧
      normalizeAuthenticodeSignature (padded x) = .ok (padded x) := by
  obtain ⟨s, transparent⟩ := h.transparent
  have small := transparent.small
  refine ⟨⟨⟨s, transparent.behind_padding⟩, transparent.padded.1.trans h.checked, fun vopts => ?_⟩,
    normalize_padded (by omega) transparent.walk transparent.nested h.checked⟩
  obtain ⟨entry, attests, chain, leafHash, verdict⟩ := h.verifies vopts
  exact ⟨entry, attests, chain, leafHash, fun image =>
    (verifySignature_padded transparent image).trans (verdict image)⟩

/-- A signature that was made of some content without timestamps is read back as it was
described. The content may name another algorithm than the one that is signed with. -/
theorem signSpcIndirectData_vouches (laws : CmsLaws crates signing toOid pairs)
    {key : Key} {cert : crates.Cert} {extraCerts : List crates.Cert} {digest content x : Bytes}
    {given : SigningOptions} {opts : SignOptions} {s t : Network (SignedData crates.Cert D S)}
    (paired : Paired crates pairs key cert extraCerts)
    (plain : opts.rfc3161Urls = [] ∧ opts.authenticodeUrls = []) (adds : opts.Adds signing)
    (built : buildSpcIndirectData signing.der digest given = .ok content)
    (run : (signSpcIndirectData signing key cert extraCerts content opts).run s = (.ok x, t))
    (small : x.length + 64 ≤ 2 ^ 31) :
    Vouches crates { opts with hashAlgo := given.hashAlgo } digest x := by
  obtain ⟨-, -, described, value, opusInfo, purpose, der, describes, emitted, normalized⟩ :=
    (signSpcIndirectData_eq_ok plain).mp run
  obtain ⟨c, _, _, rfl, sequence, -, -⟩ := exists_content (buildSpcIndirectData_eq_ok.mp built)
  cases (derSequenceContent_eq sequence).symm.trans describes.committed
  -- the crate's blob, what is made of it, and what the two decoders see in it
  obtain ⟨p, rfl, memory⟩ := laws.envelope _ _ _ emitted rfl
  obtain ⟨transparent, checked, wrapped, -⟩ :=
    CmsParts.normalized memory sequence normalized small
  have readable := describes.readable laws paired.certificate adds
  obtain ⟨signedData, signer, read, present, sole, shown⟩ := laws.parses _ _ _ readable rfl emitted
  obtain ⟨lowLevel, lowLevelRead, bare⟩ := laws.decodes _ _ readable emitted
  have parsed : crates.spcIndirectDataContent c.bytes =
      .ok { digest, digestAlgorithm := given.hashAlgo.digestAlgorithmOid } := by
    rw [laws.spc, spcFromDer_built built]
    simp only [Except.map, laws.oids given.hashAlgo]
  obtain ⟨attrs, shownAttrs, one⟩ := shown.attributes
  rw [describes.opusAttributes laws.apart adds] at one
  have committed := shown.digest _ (by rw [describes.signer])
  have verified := shown.signature (by rw [describes.signer]; exact paired.key)
  have crypto : verifyCryptoSignature crates signedData = .ok true :=
    verifyCryptoSignature_eq_true.mpr ⟨_, _, present, derSequenceContent_eq sequence,
      by simp [sole], by simp [sole, committed, verified]⟩
  have reported : (extractSignatureInfo crates signedData (p.der c.bytes) 0).messageDigest =
      digest := extractSignatureInfo_messageDigest present parsed _ 0
  obtain ⟨algorithm, name, url⟩ := extractSignatureInfo_built present parsed sole shownAttrs
    (List.perm_singleton.mp one) laws.opus describes.opus (p.der c.bytes) 0
  obtain ⟨chain, timestamp, leafHash⟩ :=
    extractSignatureInfo_open signedData (p.der c.bytes) 0
  refine ⟨transparent, checked, fun vopts => ⟨entryOf crates vopts signedData (p.der c.bytes) true,
    ⟨rfl, ?_, reported, algorithm, name, url⟩, fun given => ?_, fun given => ?_,
    fun image => ?_⟩⟩
  · simp only [entryOf, timestamp,
      verifyTimestamp_untimed read sole shown.untimed lowLevelRead bare, ite_self]
  · simp only [entryOf, given, List.isEmpty_nil, if_true, chain]
  · simp only [entryOf, given, leafHash]
  · have matched : digestMatches crates image signedData =
        .ok (given.hashAlgo.finalize crates image == digest) :=
      digestMatches_eq present parsed (hasherFor_digestAlgorithmOid given.hashAlgo)
    rw [verifySignature_eq, Res.bind_ok (cmsForm_eq_ok.mpr wrapped),
      Res.bind_ok (decoded_eq_ok.mpr lowLevelRead), (nestedSignatures_eq_nil bare).1, verdicts,
      Res.bind_ok (verdict_eq checked wrapped read matched crypto)]
    rfl

theorem createAuthenticodeSignature_vouches (laws : CmsLaws crates signing toOid pairs)
    {key : Key} {cert : crates.Cert} {extraCerts : List crates.Cert} {digest x : Bytes}
    {opts : SignOptions} {s t : Network (SignedData crates.Cert D S)}
    (paired : Paired crates pairs key cert extraCerts)
    (plain : opts.rfc3161Urls = [] ∧ opts.authenticodeUrls = []) (adds : opts.Adds signing)
    (run : (createAuthenticodeSignature signing key cert extraCerts digest opts).run s = (.ok x, t))
    (small : x.length + 64 ≤ 2 ^ 31) :
    opts.hashAlgo = .sha256 ∧ Vouches crates opts digest x := by
  obtain ⟨content, _, first, signed⟩ := Prog.bind_eq_ok.mp run
  obtain ⟨built, rfl⟩ := Prog.ofExcept_eq_ok.mp first
  exact ⟨((signSpcIndirectData_eq_ok plain).mp signed).2.1,
    signSpcIndirectData_vouches laws paired plain adds built signed small⟩

/-- A signature that was made for a digest, put on a file by any run of signing and
removing: the file is accepted exactly when its image has that digest, and what is reported
of it is what it was signed with. -/
theorem signed_file_accepted_iff (laws : CmsLaws crates signing toOid pairs)
    {key : Key} {cert : crates.Cert} {extraCerts : List crates.Cert} {digest x : Bytes}
    {opts : SignOptions} {s t : Network (SignedData crates.Cert D S)}
    (paired : Paired crates pairs key cert extraCerts)
    (plain : opts.rfc3161Urls = [] ∧ opts.authenticodeUrls = []) (adds : opts.Adds signing)
    (made : (createAuthenticodeSignature signing key cert extraCerts digest opts).run s =
      (.ok x, t)) (small : x.length + 64 ≤ 2 ^ 31)
    {b : Build} {served : FileStore.Reads → Prop} {f cur : Bytes} {pf : PeInfo} {ops : List Op}
    (accepted : parseBytes b f = .ok pf) (unsigned : pf.sigpos = 0)
    (short : f.length < 2 ^ 32 - 2 ^ 16) (run : Run b served f ops cur)
    (worn : (Shelf.after ⟨digestStream f pf, none⟩ ops).signature = some x)
    {vopts : VerifyOptions crates.Cert} (anyChain : vopts.caCerts = [])
    (anyLeaf : vopts.requireLeafHash = none) (rounds : Nat) (reads : FileStore.Reads) :
    ∃ entry, Attests opts digest entry ∧
      verifyBytes crates vopts b (rounds + 1) reads cur = .ok ⟨[entry]⟩ ∧
      (VerifyResult.allOk ⟨[entry]⟩ = true ↔ crates.sha256 (digestStream f pf) = digest) := by
  obtain ⟨algo, transparent, -, verifies⟩ :=
    createAuthenticodeSignature_vouches laws paired plain adds made small
  simp only [algo, HashAlgorithm.finalize] at verifies
  obtain ⟨entry, attests, chain, leafHash, verdict⟩ := verifies vopts
  have first := parseBytes_eq_ok.mp accepted
  have bound := first.dataEnd_le
  obtain ⟨F, core, start⟩ := first.held unsigned (first.room_of_small (by omega))
  obtain ⟨pe, shows⟩ := run.shows (Accepts.shows start unsigned)
  have read : verifyBytes crates vopts _ _ _ _ = _ := shows.verify (fun y here => by
    cases worn.symm.trans here
    exact transparent) rounds reads
  rw [Shelf.verify, worn, Shelf.after_image] at read
  refine ⟨{ entry with digestOk := crates.sha256 (digestStream f pf) == digest },
    attests.withDigestOk _,
    read.trans (verdict (digestStream f pf)), ?_⟩
  simp [VerifyResult.allOk, SignatureResult.passes, attests.signatureOk, attests.timestampOk,
    chain anyChain, leafHash anyLeaf]

end Created

section Sample

def smallSpc : Bytes :=
  (Asn1.SpcIndirectDataContent.codec octetCrate).encode (spcContent octetCrate [228] .sha256)

theorem zero_short : 0 < 128 := by decide

theorem one_short : 1 < 128 := by decide

theorem two_short : 2 < 128 := by decide

def smallParts (signed : Bool) : CmsParts where
  contentType := ⟨0x06, [0x01], [0x2a], .short one_short⟩
  algorithms := ⟨0x31, [0x00], [], .short zero_short⟩
  eContentType := ⟨0x06, [0x01], [0x2b], .short one_short⟩
  after :=
    if signed then [⟨0x31, [0x02], [0x05, 0x00], .short two_short⟩]
    else [⟨0x31, [0x00], [], .short zero_short⟩]
  typed := rfl
  set := rfl
  eTyped := rfl

def smallPurpose : Bytes := 0x06 :: 0x0a :: oidOctets spcIndividualSpKeyPurpose

def smallAttributes : List (Bytes × List Bytes) :=
  [(oidOctets spcSpOpusInfo, [[0x30, 0x00]]),
    (oidOctets spcStatementType, [emitTlv 0x30 smallPurpose])]

def smallSigning : SigningCrates Unit Bytes Unit Unit where
  der := octetCrate
  tsa := {
    enc := ⟨fun _ => [], fun _ => []⟩
    decodeBer := fun _ => .error ""
    octetString := .ok
    toDer := fun _ => .error ""
    base64Decode := .ok }
  buildDer builder :=
    if builder.contentInline = some smallSpc then
      match builder.signers with
      | [] => .ok ((smallParts false).der smallSpc)
      | [signer] =>
        if signer.detachedMessageDigest = some (smallSpc.drop 2) ∧
            signer.signedAttributes = smallAttributes then
          .ok ((smallParts true).der smallSpc)
        else .error ""
      | _ => .error ""
    else .error ""
  oidRefused _ := ""

def algorithmOf (octets : Bytes) : Oid :=
  if octets = oidOctets idSha1 then idSha1
  else if octets = oidOctets idSha256 then idSha256
  else if octets = oidOctets idSha384 then idSha384
  else if octets = oidOctets idSha512 then idSha512
  else []

/-- Parsers that know these messages. A stream is hashed to its length. -/
def smallCrates : Crates where
  Cert := Bytes
  Name := Unit
  Signer := Unit
  SignedData := Unit
  Time := Unit
  SignerFields := Unit
  DataFields := Unit
  nameEq := inferInstance
  x509 := ⟨id, fun cert issuer => cert == issuer⟩
  serialNumberAsn1 := id
  issuerName _ := ()
  subjectCommonName _ := none
  issuerCommonName _ := none
  validityNotBefore _ := ""
  validityNotAfter _ := ""
  parseBer der := if der = (smallParts true).der smallSpc then .ok () else .error ""
  decodeBer der :=
    if der = (smallParts true).der smallSpc then .ok ⟨(), [⟨(), none⟩]⟩
    else if der = (smallParts false).der smallSpc then .ok ⟨(), []⟩
    else .error ""
  tryFrom _ := .error ""
  signedContent _ := some smallSpc
  certificates _ := [[1]]
  signers _ := [()]
  certificateIssuerAndSerial _ := some ((), [1])
  signedAttributes _ := some ⟨none, [⟨spcSpOpusInfo, [[0x30, 0x00]]⟩]⟩
  digestAlgorithm _ := ""
  verifyMessageDigestWithContent _ value := value == smallSpc.drop 2
  verifySignatureWithSignedData _ _ := true
  verifyTimeStampToken _ := .ok none
  timeStampTokenSignedData _ := .ok none
  spcIndirectDataContent b := (spcFromDer octetCrate b).map
    fun spc => { digest := spc.digest, digestAlgorithm := algorithmOf spc.digestAlgorithm }
  spcSpOpusInfo := opusFromDer octetCrate
  sha1 x := [UInt8.ofNat x.length]
  sha256 x := [UInt8.ofNat x.length]
  sha384 x := [UInt8.ofNat x.length]
  sha512 x := [UInt8.ofNat x.length]
  hexEncode _ := ""
  hexDecode _ := none

instance : DecidableEq smallCrates.Cert := inferInstanceAs (DecidableEq Bytes)

theorem smallSigning_eq_ok {builder : SignedDataBuilder Unit Bytes} {der : Bytes} :
    smallSigning.buildDer builder = .ok der ↔ builder.contentInline = some smallSpc ∧
      ∃ signed : Bool, (smallParts signed).der smallSpc = der ∧
        if signed then ∃ signer, builder.signers = [signer] ∧
          signer.detachedMessageDigest = some (smallSpc.drop 2) ∧
          signer.signedAttributes = smallAttributes
        else builder.signers = [] := by
  obtain ⟨contentType, contentInline, signers, certificates⟩ := builder
  simp only [smallSigning, Bool.exists_bool, Bool.false_eq_true, if_false, if_true]
  by_cases content : contentInline = some smallSpc
  · rw [if_pos content]
    rcases signers with _ | ⟨signer, _ | ⟨other, signers⟩⟩
    · simp [content]
    · by_cases known : signer.detachedMessageDigest = some (smallSpc.drop 2) ∧
          signer.signedAttributes = smallAttributes
      · simp [content, known]
      · dsimp only
        rw [if_neg known]
        refine iff_of_false (fun h => nomatch h) ?_
        rintro ⟨-, ⟨-, none⟩ | ⟨-, given, one, facts⟩⟩
        · cases none
        · cases one
          exact known facts
    · simp [content]
  · simp [content]

theorem smallCrates_parseBer : smallCrates.parseBer ((smallParts true).der smallSpc) = .ok () := by
  simp [smallCrates]

theorem smallParts_short (signed : Bool) :
    ((smallParts signed).inInfo smallSpc).length < 2 ^ 64 := by
  cases signed <;> decide +kernel

theorem smallParts_apart : (smallParts false).der smallSpc ≠ (smallParts true).der smallSpc := by
  decide +kernel

theorem smallLaws : CmsLaws smallCrates smallSigning algorithmOf fun _ _ => True where
  envelope builder der content built inline := by
    obtain ⟨same, signed, rfl, -⟩ := smallSigning_eq_ok.mp built
    cases same.symm.trans inline
    exact ⟨smallParts signed, rfl, smallParts_short signed⟩
  parses builder described der _ sole built := by
    obtain ⟨same, _ | _, rfl, signers⟩ := smallSigning_eq_ok.mp built
    · cases sole.symm.trans signers
    · obtain ⟨signer, listed, digest, attributes⟩ := signers
      cases sole.symm.trans listed
      refine ⟨(), (), smallCrates_parseBer, same.symm, rfl,
        ⟨fun value here => ?_, fun _ => rfl, rfl, ?_⟩⟩
      · cases digest.symm.trans here
        exact beq_self_eq_true _
      · refine ⟨_, rfl, ?_⟩
        rw [attributes]
        exact List.Perm.of_eq rfl
  decodes builder der _ built := by
    obtain ⟨-, _ | _, rfl, -⟩ := smallSigning_eq_ok.mp built
    · exact ⟨⟨(), []⟩, by simp [smallCrates, smallParts_apart],
        fun _ here => absurd here List.not_mem_nil⟩
    · exact ⟨⟨(), [⟨(), none⟩]⟩, by simp [smallCrates],
        fun _ here => by cases List.mem_singleton.mp here; rfl⟩
  spc _ := rfl
  opus := rfl
  named := by decide
  apart := by decide
  oids algo := by cases algo <;> decide

def smallSignature : Bytes :=
  (normalizeAuthenticodeSignature ((smallParts true).der smallSpc)).toOption.getD []

theorem smallSpc_built : buildSpcIndirectData octetCrate [228] .default = .ok smallSpc :=
  buildSpcIndirectData_eq_ok.mpr ((toDer_eq_some _).mpr ⟨by decide +kernel, rfl⟩)

theorem smallSpc_signed (s : Network (SignedData Bytes Unit Unit)) :
    (signSpcIndirectData smallSigning () [1] [] smallSpc { toSigningOptions := .default }).run s =
      (.ok smallSignature, s) :=
  (signSpcIndirectData_eq_ok ⟨rfl, rfl⟩).mpr ⟨rfl, rfl, _, smallSpc.drop 2, [0x30, 0x00],
    smallPurpose, (smallParts true).der smallSpc, ⟨by decide +kernel, by decide +kernel, rfl, rfl⟩,
    smallSigning_eq_ok.mpr ⟨rfl, true, rfl, _, rfl, rfl, rfl⟩, by decide +kernel⟩

theorem smallSignature_made (s : Network (SignedData Bytes Unit Unit)) :
    (createAuthenticodeSignature smallSigning () [1] [] [228] { toSigningOptions := .default }).run
      s = (.ok smallSignature, s) :=
  Prog.bind_eq_ok.mpr ⟨smallSpc, s, Prog.ofExcept_eq_ok.mpr ⟨smallSpc_built, rfl⟩,
    smallSpc_signed s⟩

theorem signed_file_accepted_iff_small :
    ∃ entry : SignatureResult smallCrates.Time,
      Attests { toSigningOptions := .default } [228] entry ∧
      verifyBytes smallCrates (.default Bytes) .release 1 uncut
        ((Op.sign smallSignature).apply .release uncut (smallPe 0 0)).2 = .ok ⟨[entry]⟩ ∧
      (VerifyResult.allOk ⟨[entry]⟩ = true ↔
        smallCrates.sha256 (digestStream (smallPe 0 0) (smallFrame.info 0 0 240)) = [228]) := by
  have short : ((Op.sign smallSignature).apply .release uncut (smallPe 0 0)).2.length <
      2 ^ 32 - 2 ^ 16 := by
    rw [smallPe_held.sign_length]
    decide +kernel
  have run : Run .release (· = uncut) (smallPe 0 0) [.sign smallSignature] _ :=
    .step (.sign smallSignature) uncut .start rfl (fun h => nomatch h) short
  exact signed_file_accepted_iff smallLaws ⟨trivial, fun _ here => absurd here List.not_mem_nil⟩
    ⟨rfl, rfl⟩ (fun a here => absurd here List.not_mem_nil)
    (smallSignature_made ⟨fun _ => ⟨fun _ _ => .error "", fun _ _ => .error ""⟩, []⟩)
    (by decide +kernel)
    (smallPe_unsigned .release) rfl (by rw [smallPe_length]; decide) run rfl rfl rfl 0 uncut

end Sample

end Rsigncode
