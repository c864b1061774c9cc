import Rsigncode.SignVerify

/-! Signing by a service: the client sends the content that commits to a digest, and the
service signs what it reads there. -/
namespace Rsigncode

open FileStore DerCodec DerCodec.Codec Tlv

section
variable {Key Cert D S : Type} {crates : SigningCrates Key Cert D S}

theorem buildExtractDataPkcs7_eq_ok {digest request : Bytes} {opts : SignOptions} :
    buildExtractDataPkcs7 crates digest opts = .ok request ↔ ∃ content,
      buildSpcIndirectData crates.der digest opts.toSigningOptions = .ok content ∧
      crates.buildDer {
        contentType := some (crates.oidToBcder spcIndirectData)
        contentInline := some content } = .ok request := by
  simp only [buildExtractDataPkcs7, Res.bind_eq_ok, mapErr_eq_ok]

theorem buildSpcIndirectData_congr {crate : DerCrate} {digest der : Bytes}
    {opts opts' : SigningOptions} (same : opts'.hashAlgo = opts.hashAlgo)
    (built : buildSpcIndirectData crate digest opts = .ok der) :
    buildSpcIndirectData crate digest opts' = .ok der :=
  buildSpcIndirectData_eq_ok.mpr (same ▸ buildSpcIndirectData_eq_ok.mp built)

theorem parseSpcIndirectData_request (emits : EmitsEnvelopes crates) {digest request : Bytes}
    {opts : SignOptions} (built : buildExtractDataPkcs7 crates digest opts = .ok request)
    (small : request.length < 2 ^ 32) :
    ∃ contentDer, buildSpcIndirectData crates.der digest opts.toSigningOptions = .ok contentDer ∧
      parseSpcIndirectData (spcFromDer crates.der) request = .ok {
        contentDer
        digest
        digestAlgorithm := crates.der.newUnwrap opts.hashAlgo.digestAlgorithmOid } := by
  obtain ⟨content, made, sent⟩ := buildExtractDataPkcs7_eq_ok.mp built
  obtain ⟨c, _, _, rfl, -⟩ := exists_content (buildSpcIndirectData_eq_ok.mp made)
  obtain ⟨p, rfl, -⟩ := emits _ _ _ sent rfl
  refine ⟨c.bytes, made, ?_⟩
  rw [parseSpcIndirectData, Res.bind_ok (CmsParts.extract small), spcFromDer_built made]
  rfl

variable [DecidableEq Cert]

/-- What a service makes of a request is what signing at home makes of the digest, with any
key, certificates and options of that algorithm. Without timestamps the client attaches it as
it is, around the content that was sent. -/
theorem remote_signing_agrees (emits : EmitsEnvelopes crates) {digest request : Bytes}
    {opts opts' : SignOptions} (same : opts'.hashAlgo = opts.hashAlgo)
    (built : buildExtractDataPkcs7 crates digest opts = .ok request)
    (small : request.length < 2 ^ 32) :
    ∃ parsed, parseSpcIndirectData (spcFromDer crates.der) request = .ok parsed ∧
      parsed.digest = digest ∧
      parsed.digestAlgorithm = crates.der.newUnwrap opts.hashAlgo.digestAlgorithmOid ∧
      ∀ (key : Key) (cert : Cert) (extraCerts : List Cert),
        signSpcIndirectData crates key cert extraCerts parsed.contentDer opts' =
          createAuthenticodeSignature crates key cert extraCerts digest opts' ∧
        ∀ s t x, opts'.rfc3161Urls = [] → opts'.authenticodeUrls = [] →
          (signSpcIndirectData crates key cert extraCerts parsed.contentDer opts').run s =
            (.ok x, t) → x.length + 64 ≤ 2 ^ 31 →
          normalizeAuthenticodeSignature x = .ok x ∧
            extractSpcContent x = .ok parsed.contentDer := by
  obtain ⟨content, made, read⟩ := parseSpcIndirectData_request emits built small
  obtain ⟨c, _, _, rfl, sequence, -, -⟩ := exists_content (buildSpcIndirectData_eq_ok.mp made)
  refine ⟨_, read, rfl, rfl,
    fun key cert extraCerts => ⟨?_, fun s t x rfc3161 authenticode run short => ?_⟩⟩
  · rw [createAuthenticodeSignature, buildSpcIndirectData_congr same made]
    rfl
  · obtain ⟨-, -, _, _, _, _, _, -, emitted, normalized⟩ :=
      (signSpcIndirectData_eq_ok ⟨rfc3161, authenticode⟩).mp run
    obtain ⟨q, rfl, memory⟩ := emits _ _ _ emitted rfl
    obtain ⟨-, checked, -, extracted⟩ := CmsParts.normalized memory sequence normalized short
    exact ⟨(check_eq_ok_iff x).mp checked, extracted⟩

end

theorem remote_signing_agrees_small : ∃ parsed,
    parseSpcIndirectData (spcFromDer octetCrate) ((smallParts false).der smallSpc) = .ok parsed ∧
      parsed.digest = [228] ∧ parsed.digestAlgorithm = oidOctets idSha256 ∧
      signSpcIndirectData smallSigning () [1] [] parsed.contentDer
          { toSigningOptions := .default } =
        createAuthenticodeSignature smallSigning () [1] [] [228] { toSigningOptions := .default } ∧
      normalizeAuthenticodeSignature smallSignature = .ok smallSignature ∧
      extractSpcContent smallSignature = .ok parsed.contentDer := by
  have built : buildExtractDataPkcs7 smallSigning [228] { toSigningOptions := .default } =
      .ok ((smallParts false).der smallSpc) :=
    buildExtractDataPkcs7_eq_ok.mpr ⟨smallSpc, smallSpc_built, rfl⟩
  have same : SigningOptions.hashAlgo (SignOptions.toSigningOptions
      { toSigningOptions := .default }) = SigningOptions.default.hashAlgo := rfl
  obtain ⟨parsed, read, digest, algorithm, agrees⟩ :=
    remote_signing_agrees smallLaws.envelope same built (by decide +kernel)
  obtain ⟨alike, attaches⟩ := agrees () [1] []
  have signed := (congrFun (congrArg Prog.run alike) _).trans (smallSignature_made
    ⟨fun _ => ⟨fun _ _ => .error "", fun _ _ => .error ""⟩, []⟩)
  exact ⟨parsed, read, digest, algorithm, alike,
    attaches _ _ _ rfl rfl signed (by decide +kernel)⟩

end Rsigncode
