import Rsigncode.VerifySound

/-! What the timestamp verdict says about the tokens a signature carries: when it fails
closed, and when it is about this signature. -/
namespace Rsigncode

open FileStore

variable (crates : Crates)

def StandardVerified (signedData : crates.SignedData) : Prop :=
  ∃ signer ∈ crates.signers signedData, crates.verifyTimeStampToken signer = .ok (some ())

def SignersVerify (token : crates.SignedData) : Prop :=
  ∀ signer ∈ crates.signers token, crates.verifySignatureWithSignedData signer token = true

def spcAttribute (lowLevel : Rfc5652SignedData crates.DataFields crates.SignerFields) :
    Option Attribute :=
  (unsignedAttributes crates lowLevel).find? (·.typ == spcRfc3161)

def spcVerdict (attr : Attribute) : Bool :=
  match tokenOf crates attr with
  | some token => (crates.signers token).all fun signer =>
      crates.verifySignatureWithSignedData signer token
  | none => false

variable {crates}

theorem spcVerdict_eq_true {attr : Attribute} : spcVerdict crates attr = true ↔
    ∃ token, tokenOf crates attr = some token ∧ SignersVerify crates token := by
  unfold spcVerdict
  cases tokenOf crates attr <;> simp [SignersVerify]

theorem spcAttribute_eq_none
    {lowLevel : Rfc5652SignedData crates.DataFields crates.SignerFields} :
    spcAttribute crates lowLevel = none ↔
      ∀ attr ∈ unsignedAttributes crates lowLevel, attr.typ ≠ spcRfc3161 := by
  simp [spcAttribute]

theorem spcAttribute_carried {attr : Attribute}
    {lowLevel : Rfc5652SignedData crates.DataFields crates.SignerFields}
    (found : spcAttribute crates lowLevel = some attr) :
    attr ∈ unsignedAttributes crates lowLevel ∧ attr.typ = spcRfc3161 := by
  have typ := List.find?_some found
  exact ⟨List.mem_of_find?_eq_some found, beq_iff_eq.mp typ⟩

section
variable {der : Bytes} {signedData : crates.SignedData}
  {lowLevel : Rfc5652SignedData crates.DataFields crates.SignerFields}
  (parsed : crates.parseBer der = .ok signedData) (decoded : crates.decodeBer der = .ok lowLevel)
include parsed decoded

open Classical in
theorem verifyTimestamp_eq : verifyTimestamp crates der =
    if StandardVerified crates signedData then some true
    else (spcAttribute crates lowLevel).map (spcVerdict crates) := by
  have first : (crates.parseBer der).toOption = some signedData := by rw [parsed]; rfl
  have second : (crates.decodeBer der).toOption = some lowLevel := by rw [decoded]; rfl
  have standard : ((crates.signers signedData).any fun signer =>
      (crates.verifyTimeStampToken signer).toOption.join == some ()) = true ↔
      StandardVerified crates signedData := by
    rw [List.any_eq_true, StandardVerified]
    refine exists_congr fun signer => and_congr_right fun _ => ?_
    rcases crates.verifyTimeStampToken signer with _ | (_ | _) <;> simp [Except.toOption]
  simp only [verifyTimestamp, first, second, Option.bind_eq_bind, Option.bind_some]
  by_cases verified : StandardVerified crates signedData
  · rw [if_pos (standard.mpr verified), if_pos verified]
  · rw [if_neg fun h => verified (standard.mp h), if_neg verified, spcAttribute]
    cases (unsignedAttributes crates lowLevel).find? (·.typ == spcRfc3161) with
    | none => rfl
    | some attr =>
      simp only [Option.bind_some, Option.map_some, spcVerdict]
      cases tokenOf crates attr <;> rfl

theorem verifyTimestamp_eq_true : verifyTimestamp crates der = some true ↔
    StandardVerified crates signedData ∨ ∃ attr token,
      spcAttribute crates lowLevel = some attr ∧ tokenOf crates attr = some token ∧
        SignersVerify crates token := by
  rw [verifyTimestamp_eq parsed decoded]
  split
  · rename_i verified
    simp [verified]
  · rename_i other
    simp only [other, Option.map_eq_some_iff, spcVerdict_eq_true, false_or, exists_and_left]

theorem verifyTimestamp_eq_none : verifyTimestamp crates der = none ↔
    ¬ StandardVerified crates signedData ∧ spcAttribute crates lowLevel = none := by
  rw [verifyTimestamp_eq parsed decoded]
  split
  · rename_i verified
    simp [verified]
  · rename_i other
    simp only [other, Option.map_eq_none_iff, not_false_eq_true, true_and]

end

section
variable (crates)

def tokenIn (raw : Bytes) : Option crates.SignedData := do
  let lowLevel ← (crates.decodeBer raw).toOption
  (crates.tryFrom lowLevel).toOption

/-- The tokens of a signature: the standard ones of its signers, and those in the values of
its Microsoft attributes. -/
def Carried (signedData : crates.SignedData)
    (lowLevel : Rfc5652SignedData crates.DataFields crates.SignerFields)
    (token : crates.SignedData) : Prop :=
  (∃ signer ∈ crates.signers signedData,
      crates.timeStampTokenSignedData signer = .ok (some token)) ∨
    ∃ attr ∈ unsignedAttributes crates lowLevel, attr.typ = spcRfc3161 ∧
      ∃ raw ∈ attr.values, tokenIn crates raw = some token

def CarriesToken (signedData : crates.SignedData)
    (lowLevel : Rfc5652SignedData crates.DataFields crates.SignerFields) : Prop :=
  (∃ signer ∈ crates.signers signedData, crates.timeStampTokenSignedData signer ≠ .ok none) ∨
    ∃ attr ∈ unsignedAttributes crates lowLevel, attr.typ = spcRfc3161

def GoodToken (token : crates.SignedData) : Prop :=
  crates.signers token ≠ [] ∧ SignersVerify crates token

/-- What the code relies on in the check of a standard token: success only for a good one. -/
structure StandardChecks : Prop where
  verified : ∀ signer, crates.verifyTimeStampToken signer = .ok (some ()) →
    ∃ token, crates.timeStampTokenSignedData signer = .ok (some token) ∧ GoodToken crates token

/-- No verdict means no token, a good verdict means a good one, and a signature whose
tokens are all bad does not pass. -/
structure FailsClosed (der : Bytes) (signedData : crates.SignedData)
    (lowLevel : Rfc5652SignedData crates.DataFields crates.SignerFields) : Prop where
  none : verifyTimestamp crates der = none → ¬ CarriesToken crates signedData lowLevel
  some_true : verifyTimestamp crates der = some true →
    ∃ token, Carried crates signedData lowLevel token ∧ GoodToken crates token
  passes : ∀ (opts : VerifyOptions crates.Cert) (f : File) (pe : PeInfo) (index : Nat)
    (blob : Bytes) (entry : SignatureResult crates.Time) (s t : Store),
    opts.ignoreTimestamp = false → cmsForm blob = .ok der →
    (verifyBlob crates opts f pe index blob).run s = (.ok entry, t) → entry.passes = true →
    CarriesToken crates signedData lowLevel →
    ∃ token, Carried crates signedData lowLevel token ∧ GoodToken crates token

end

theorem verifyBlob_timestampOk {opts : VerifyOptions crates.Cert} {f : File} {pe : PeInfo}
    {index : Nat} {blob der : Bytes} {entry : SignatureResult crates.Time} {s t : Store}
    (heeded : opts.ignoreTimestamp = false) (form : cmsForm blob = .ok der)
    (run : (verifyBlob crates opts f pe index blob).run s = (.ok entry, t)) :
    entry.timestampOk = verifyTimestamp crates der := by
  simp only [verifyBlob, Prog.bind_eq_ok, Prog.ofExcept_eq_ok, form, Except.ok.injEq] at run
  obtain ⟨_, _, -, _, _, ⟨rfl, -⟩, _, _, -, _, _, -, _, _, -, last⟩ := run
  obtain ⟨rfl, -⟩ := Prog.pure_eq_ok.mp last
  simp [heeded]

theorem carried_of_spc {signedData : crates.SignedData}
    {lowLevel : Rfc5652SignedData crates.DataFields crates.SignerFields} {attr : Attribute}
    {token : crates.SignedData} (found : spcAttribute crates lowLevel = some attr)
    (read : tokenOf crates attr = some token) : Carried crates signedData lowLevel token := by
  obtain ⟨here, typ⟩ := spcAttribute_carried found
  obtain ⟨raw, first, read⟩ := Option.bind_eq_some_iff.mp read
  exact .inr ⟨attr, here, typ, raw, List.mem_of_mem_head? first, read⟩

theorem StandardChecks.good (checks : StandardChecks crates) {signedData : crates.SignedData}
    (lowLevel : Rfc5652SignedData crates.DataFields crates.SignerFields)
    (verified : StandardVerified crates signedData) :
    ∃ token, Carried crates signedData lowLevel token ∧ GoodToken crates token := by
  obtain ⟨signer, here, verified⟩ := verified
  obtain ⟨token, read, good⟩ := checks.verified signer verified
  exact ⟨token, .inl ⟨signer, here, read⟩, good⟩

theorem failsClosed_of_verdict {der : Bytes} {signedData : crates.SignedData}
    {lowLevel : Rfc5652SignedData crates.DataFields crates.SignerFields}
    (silent : verifyTimestamp crates der = none → ¬ CarriesToken crates signedData lowLevel)
    (accepted : verifyTimestamp crates der = some true →
      ∃ token, Carried crates signedData lowLevel token ∧ GoodToken crates token) :
    FailsClosed crates der signedData lowLevel := by
  refine ⟨silent, accepted, ?_⟩
  intro opts f pe index blob entry s t heeded form run passes carries
  have verdict := verifyBlob_timestampOk heeded form run
  simp only [SignatureResult.passes, Bool.and_eq_true] at passes
  obtain ⟨⟨-, timestamp⟩, -⟩ := passes
  rw [verdict] at timestamp
  cases outcome : verifyTimestamp crates der with
  | none => exact absurd carries (silent outcome)
  | some ok =>
    rw [outcome, Option.getD_some] at timestamp
    exact accepted (timestamp ▸ outcome)

theorem not_carriesToken {signedData : crates.SignedData}
    {lowLevel : Rfc5652SignedData crates.DataFields crates.SignerFields}
    (bare : ∀ signer ∈ crates.signers signedData,
      crates.timeStampTokenSignedData signer = .ok none)
    (absent : spcAttribute crates lowLevel = none) :
    ¬ CarriesToken crates signedData lowLevel := by
  rintro (⟨signer, here, present⟩ | ⟨attr, here, typ⟩)
  · exact present (bare signer here)
  · exact spcAttribute_eq_none.mp absent attr here typ

/-- The verdict fails closed where the library accepts a standard token, and elsewhere
unless a standard token that fails goes unreported for want of a Microsoft one, or a
Microsoft token without signers passes for a good one. -/
theorem failsClosed_iff (checks : StandardChecks crates) {der : Bytes}
    {signedData : crates.SignedData}
    {lowLevel : Rfc5652SignedData crates.DataFields crates.SignerFields}
    (parsed : crates.parseBer der = .ok signedData)
    (decoded : crates.decodeBer der = .ok lowLevel) :
    FailsClosed crates der signedData lowLevel ↔ StandardVerified crates signedData ∨
      (spcAttribute crates lowLevel = none → ∀ signer ∈ crates.signers signedData,
        crates.timeStampTokenSignedData signer = .ok none) ∧
      (∀ attr token, spcAttribute crates lowLevel = some attr →
        tokenOf crates attr = some token → crates.signers token = [] →
          ∃ token, Carried crates signedData lowLevel token ∧ GoodToken crates token) := by
  constructor
  · intro closed
    by_cases verified : StandardVerified crates signedData
    · exact .inl verified
    · refine .inr ⟨fun absent signer here => ?_, fun attr token found read empty => ?_⟩
      · by_contra present
        exact closed.none ((verifyTimestamp_eq_none parsed decoded).mpr ⟨verified, absent⟩)
          (.inl ⟨signer, here, present⟩)
      · refine closed.some_true ((verifyTimestamp_eq_true parsed decoded).mpr
          (.inr ⟨attr, token, found, read, ?_⟩))
        simp [SignersVerify, empty]
  · intro condition
    refine failsClosed_of_verdict (fun silent => ?_) (fun accepted => ?_)
    · obtain ⟨unverified, absent⟩ := (verifyTimestamp_eq_none parsed decoded).mp silent
      obtain verified | ⟨bare, -⟩ := condition
      · exact absurd verified unverified
      · exact not_carriesToken (bare absent) absent
    · obtain verified | ⟨attr, token, found, read, verify⟩ :=
        (verifyTimestamp_eq_true parsed decoded).mp accepted
      · exact checks.good lowLevel verified
      · obtain verified | ⟨-, signed⟩ := condition
        · exact checks.good lowLevel verified
        · by_cases empty : crates.signers token = []
          · exact signed attr token found read empty
          · exact ⟨token, carried_of_spc found read, empty, verify⟩

/-- Crates that read a blob as a signature with the blob as its value and a token whose
signers all verify. -/
def stampCrates : Crates :=
  { sampleCrates with
    SignerFields := Bytes
    decodeBer := fun raw => .ok ⟨(), [⟨raw, some [⟨spcRfc3161, [[9]]⟩]⟩]⟩
    tryFrom := fun _ => .ok [9] }

def stamped (value : Bytes) : Rfc5652SignedData Unit Bytes :=
  ⟨(), [⟨value, some [⟨spcRfc3161, [[9]]⟩]⟩]⟩

theorem failsClosed_iff_sample : FailsClosed stampCrates [1] [1] (stamped [1]) := by
  have checks : StandardChecks stampCrates := ⟨fun signer verified => by cases verified⟩
  refine (@failsClosed_iff stampCrates checks _ _ _ rfl rfl).mpr
    (.inr ⟨fun absent => ?_, fun attr token found read empty => ?_⟩)
  · cases absent
  · cases empty

def badTokenCrates : Crates :=
  { sampleCrates with
    decodeBer := fun _ => .ok ⟨(), [⟨(), none⟩]⟩
    verifyTimeStampToken := fun _ => .error "bad signature"
    timeStampTokenSignedData := fun _ => .ok (some [1]) }

/-- The error of the token is dropped, and the verdict is that there is none. -/
theorem bad_token_unreported : ¬ ∀ (crates : Crates) (der : Bytes)
    (signedData : crates.SignedData)
    (lowLevel : Rfc5652SignedData crates.DataFields crates.SignerFields),
    StandardChecks crates → crates.parseBer der = .ok signedData →
      crates.decodeBer der = .ok lowLevel → FailsClosed crates der signedData lowLevel := by
  intro claim
  have checks : StandardChecks badTokenCrates := ⟨fun signer verified => by cases verified⟩
  have closed := claim badTokenCrates [] [] ⟨(), [⟨(), none⟩]⟩ checks rfl rfl
  exact closed.none (by decide) (.inl ⟨(), .head _, fun none => by cases none⟩)

section
variable (crates) (signatureValue : crates.SignerFields → Bytes)
  (imprint : crates.SignedData → Option (Oid × Bytes))

def spcCarrier (lowLevel : Rfc5652SignedData crates.DataFields crates.SignerFields) :
    Option (Rfc5652SignerInfo crates.SignerFields × Attribute) :=
  (lowLevel.signerInfos.flatMap fun signerInfo =>
    (signerInfo.unsignedAttributes.getD []).map (signerInfo, ·)).find? (·.2.typ == spcRfc3161)

/-- The message imprint of the token is the hash of the signature value. -/
def IssuedFor (signerInfo : Rfc5652SignerInfo crates.SignerFields)
    (token : crates.SignedData) : Prop :=
  ∃ algorithm digest finalize, imprint token = some (algorithm, digest) ∧
    hasherFor crates algorithm = some finalize ∧
    finalize (signatureValue signerInfo.fields) = digest

def AcceptsOwnToken (der : Bytes) (signedData : crates.SignedData)
    (lowLevel : Rfc5652SignedData crates.DataFields crates.SignerFields) : Prop :=
  ¬ StandardVerified crates signedData → verifyTimestamp crates der = some true →
    ∃ signerInfo attr token, spcCarrier crates lowLevel = some (signerInfo, attr) ∧
      tokenOf crates attr = some token ∧ IssuedFor crates signatureValue imprint signerInfo token

end

theorem spcCarrier_attribute
    (lowLevel : Rfc5652SignedData crates.DataFields crates.SignerFields) :
    spcAttribute crates lowLevel = (spcCarrier crates lowLevel).map Prod.snd := by
  have attributes : unsignedAttributes crates lowLevel =
      (lowLevel.signerInfos.flatMap fun signerInfo =>
        (signerInfo.unsignedAttributes.getD []).map (signerInfo, ·)).map Prod.snd := by
    simp [unsignedAttributes, List.map_flatMap, Function.comp_def]
  rw [spcAttribute, attributes, List.find?_map]
  rfl

theorem spcAttribute_of_carrier {signerInfo : Rfc5652SignerInfo crates.SignerFields}
    {attr : Attribute} {lowLevel : Rfc5652SignedData crates.DataFields crates.SignerFields}
    (carrier : spcCarrier crates lowLevel = some (signerInfo, attr)) :
    spcAttribute crates lowLevel = some attr := by
  rw [spcCarrier_attribute, carrier]
  rfl

variable (crates) in
/-- Two signatures decided by the same token bytes, over signature values that no hash
takes for one another. -/
def CopiedToken (signatureValue : crates.SignerFields → Bytes)
    (lowLevel lowLevel' : Rfc5652SignedData crates.DataFields crates.SignerFields)
    (raw : Bytes) : Prop :=
  ∃ signerInfo signerInfo' attr attr',
    spcCarrier crates lowLevel = some (signerInfo, attr) ∧ attr.values.head? = some raw ∧
    spcCarrier crates lowLevel' = some (signerInfo', attr') ∧ attr'.values.head? = some raw ∧
    ∀ algorithm finalize, hasherFor crates algorithm = some finalize →
      finalize (signatureValue signerInfo.fields) ≠ finalize (signatureValue signerInfo'.fields)

theorem accepted_by_token {der raw : Bytes} {attr : Attribute} {signedData : crates.SignedData}
    {lowLevel : Rfc5652SignedData crates.DataFields crates.SignerFields}
    (parsed : crates.parseBer der = .ok signedData) (decoded : crates.decodeBer der = .ok lowLevel)
    (found : spcAttribute crates lowLevel = some attr) (first : attr.values.head? = some raw) :
    verifyTimestamp crates der = some true ↔ StandardVerified crates signedData ∨
      ∃ token, tokenIn crates raw = some token ∧ SignersVerify crates token := by
  have read : tokenOf crates attr = tokenIn crates raw := by
    rw [tokenOf, first]
    rfl
  rw [verifyTimestamp_eq_true parsed decoded, found]
  simp only [Option.some.injEq, exists_and_left, exists_eq_left', read]

section
variable {der : Bytes} {signedData : crates.SignedData}
  {lowLevel : Rfc5652SignedData crates.DataFields crates.SignerFields}
  (parsed : crates.parseBer der = .ok signedData) (decoded : crates.decodeBer der = .ok lowLevel)
include parsed decoded

theorem not_both_accepted {signatureValue : crates.SignerFields → Bytes} {der' raw : Bytes}
    {signedData' : crates.SignedData}
    {lowLevel' : Rfc5652SignedData crates.DataFields crates.SignerFields}
    (parsed' : crates.parseBer der' = .ok signedData')
    (decoded' : crates.decodeBer der' = .ok lowLevel')
    (copied : CopiedToken crates signatureValue lowLevel lowLevel' raw)
    (bare : ¬ StandardVerified crates signedData) (bare' : ¬ StandardVerified crates signedData') :
    ¬ (verifyTimestamp crates der = some true ∧ verifyTimestamp crates der' = some true) ↔
      ∀ token, tokenIn crates raw = some token → ¬ SignersVerify crates token := by
  obtain ⟨signerInfo, signerInfo', attr, attr', carrier, first, carrier', first', -⟩ := copied
  rw [accepted_by_token parsed decoded (spcAttribute_of_carrier carrier) first,
    accepted_by_token parsed' decoded' (spcAttribute_of_carrier carrier') first']
  simp only [bare, bare', false_or, and_self, not_exists, not_and]

theorem AcceptsOwnToken.issued {signatureValue : crates.SignerFields → Bytes}
    {imprint : crates.SignedData → Option (Oid × Bytes)} {raw : Bytes}
    {signerInfo : Rfc5652SignerInfo crates.SignerFields} {attr : Attribute}
    {token : crates.SignedData}
    (own : AcceptsOwnToken crates signatureValue imprint der signedData lowLevel)
    (bare : ¬ StandardVerified crates signedData)
    (carrier : spcCarrier crates lowLevel = some (signerInfo, attr))
    (first : attr.values.head? = some raw) (read : tokenIn crates raw = some token)
    (verify : SignersVerify crates token) :
    IssuedFor crates signatureValue imprint signerInfo token := by
  have accepted := (accepted_by_token parsed decoded (spcAttribute_of_carrier carrier) first).mpr
    (.inr ⟨token, read, verify⟩)
  obtain ⟨signerInfo', attr', token', carrier', read', issued⟩ := own bare accepted
  cases carrier.symm.trans carrier'
  have same : tokenIn crates raw = some token' := by
    rw [← read', tokenOf, first]
    rfl
  cases read.symm.trans same
  exact issued

theorem acceptsOwnToken_of_unverified {signatureValue : crates.SignerFields → Bytes}
    {imprint : crates.SignedData → Option (Oid × Bytes)} {raw : Bytes} {attr : Attribute}
    (found : spcAttribute crates lowLevel = some attr) (first : attr.values.head? = some raw)
    (unverified : ∀ token, tokenIn crates raw = some token → ¬ SignersVerify crates token) :
    AcceptsOwnToken crates signatureValue imprint der signedData lowLevel := by
  intro bare accepted
  obtain verified | ⟨token, read, verify⟩ :=
    (accepted_by_token parsed decoded found first).mp accepted
  · exact absurd verified bare
  · exact absurd verify (unverified token read)

end

/-- A token is issued for one hash at most, so for one of two signature values that no hash
takes for one another. -/
theorem IssuedFor.hash_eq {signatureValue : crates.SignerFields → Bytes}
    {imprint : crates.SignedData → Option (Oid × Bytes)} {token : crates.SignedData}
    {signerInfo signerInfo' : Rfc5652SignerInfo crates.SignerFields}
    (issued : IssuedFor crates signatureValue imprint signerInfo token)
    (issued' : IssuedFor crates signatureValue imprint signerInfo' token) :
    ∃ algorithm finalize, hasherFor crates algorithm = some finalize ∧
      finalize (signatureValue signerInfo.fields) =
        finalize (signatureValue signerInfo'.fields) := by
  obtain ⟨algorithm, digest, finalize, stated, named, hash⟩ := issued
  obtain ⟨algorithm', digest', finalize', stated', named', hash'⟩ := issued'
  cases stated.symm.trans stated'
  cases named.symm.trans named'
  exact ⟨algorithm, finalize, named, hash.trans hash'.symm⟩

/-- Two signatures with the same deciding token and differently hashed values: each accepts
only a token of its own, and not both accept, exactly when the token does not verify. -/
theorem acceptsOwnToken_iff (signatureValue : crates.SignerFields → Bytes)
    (imprint : crates.SignedData → Option (Oid × Bytes)) {der der' raw : Bytes}
    {signedData signedData' : crates.SignedData}
    {lowLevel lowLevel' : Rfc5652SignedData crates.DataFields crates.SignerFields}
    (parsed : crates.parseBer der = .ok signedData)
    (decoded : crates.decodeBer der = .ok lowLevel)
    (parsed' : crates.parseBer der' = .ok signedData')
    (decoded' : crates.decodeBer der' = .ok lowLevel')
    (copied : CopiedToken crates signatureValue lowLevel lowLevel' raw)
    (bare : ¬ StandardVerified crates signedData) (bare' : ¬ StandardVerified crates signedData') :
    (AcceptsOwnToken crates signatureValue imprint der signedData lowLevel ∧
        AcceptsOwnToken crates signatureValue imprint der' signedData' lowLevel' ↔
      ∀ token, tokenIn crates raw = some token → ¬ SignersVerify crates token) ∧
    (¬ (verifyTimestamp crates der = some true ∧ verifyTimestamp crates der' = some true) ↔
      ∀ token, tokenIn crates raw = some token → ¬ SignersVerify crates token) := by
  refine ⟨?_, not_both_accepted parsed decoded parsed' decoded' copied bare bare'⟩
  obtain ⟨signerInfo, signerInfo', attr, attr', carrier, first, carrier', first', apart⟩ := copied
  constructor
  · rintro ⟨own, own'⟩ token read verify
    have issued := own.issued parsed decoded bare carrier first read verify
    have issued' := own'.issued parsed' decoded' bare' carrier' first' read verify
    obtain ⟨algorithm, finalize, named, same⟩ := issued.hash_eq issued'
    exact apart algorithm finalize named same
  · intro unverified
    exact ⟨acceptsOwnToken_of_unverified parsed decoded (spcAttribute_of_carrier carrier) first
        unverified,
      acceptsOwnToken_of_unverified parsed' decoded' (spcAttribute_of_carrier carrier') first'
        unverified⟩

def stampImprint : Bytes → Option (Oid × Bytes) := fun _ => some (idSha256, [1])

theorem stamped_copied : CopiedToken stampCrates id (stamped [1]) (stamped [1, 1]) [9] := by
  refine ⟨⟨[1], some [⟨spcRfc3161, [[9]]⟩]⟩, ⟨[1, 1], some [⟨spcRfc3161, [[9]]⟩]⟩,
    ⟨spcRfc3161, [[9]]⟩, ⟨spcRfc3161, [[9]]⟩, rfl, rfl, rfl, rfl, ?_⟩
  intro algorithm finalize named
  unfold hasherFor at named
  repeat' split at named
  all_goals cases named
  all_goals decide

theorem stamped_bare (value : Bytes) : ¬ StandardVerified stampCrates value := by
  rintro ⟨signer, -, verified⟩
  cases verified

theorem acceptsOwnToken_iff_stamped :
    ¬ (AcceptsOwnToken stampCrates id stampImprint [1] [1] (stamped [1]) ∧
        AcceptsOwnToken stampCrates id stampImprint [1, 1] [1, 1] (stamped [1, 1])) ∧
      verifyTimestamp stampCrates [1] = some true ∧
      verifyTimestamp stampCrates [1, 1] = some true := by
  have laws := @acceptsOwnToken_iff stampCrates id stampImprint [1] [1, 1] [9] _ _ _ _ rfl rfl rfl
    rfl stamped_copied (stamped_bare [1]) (stamped_bare [1, 1])
  have verifies : ¬ ∀ token, tokenIn stampCrates [9] = some token →
      ¬ SignersVerify stampCrates token := fun never => never [9] rfl fun _ _ => rfl
  exact ⟨mt laws.1.mp verifies, not_not.mp (mt laws.2.mp verifies)⟩

/-- The same token is accepted on both signatures, and on the second one it was not
issued for. -/
theorem copied_token_accepted : ¬ ∀ (crates : Crates)
    (signatureValue : crates.SignerFields → Bytes)
    (imprint : crates.SignedData → Option (Oid × Bytes)) (der : Bytes)
    (signedData : crates.SignedData)
    (lowLevel : Rfc5652SignedData crates.DataFields crates.SignerFields),
    crates.parseBer der = .ok signedData → crates.decodeBer der = .ok lowLevel →
      AcceptsOwnToken crates signatureValue imprint der signedData lowLevel ∧
      ∀ der' lowLevel' raw, crates.decodeBer der' = .ok lowLevel' →
        CopiedToken crates signatureValue lowLevel lowLevel' raw →
        ¬ (verifyTimestamp crates der = some true ∧ verifyTimestamp crates der' = some true) := by
  intro claim
  have laws := claim stampCrates id stampImprint [1] [1] (stamped [1]) rfl rfl
  exact laws.2 [1, 1] (stamped [1, 1]) [9] rfl stamped_copied (by decide)

end Rsigncode
