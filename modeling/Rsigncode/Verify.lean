import Rsigncode.Chain
import Rsigncode.Pe

/-! Verification of every signature in a file: `crypto/verify.rs`. -/
namespace Rsigncode

open FileStore

structure VerifyOptions (Cert : Type) where
  caCerts : List Cert
  requireLeafHash : Option String
  ignoreTimestamp : Bool

inductive TimestampType where
  | rfc3161 | authenticode
  deriving DecidableEq, Repr

structure TimestampInfo (Time : Type) where
  timestampType : TimestampType
  time : Option Time := none
  issuer : Option String := none
  serial : Option String := none
  hashAlgorithm : Option String := none

structure SignatureResult (Time : Type) where
  index : Nat
  digestAlgorithm : String := ""
  messageDigest : Bytes := []
  signingTime : Option Time := none
  programName : Option String := none
  programUrl : Option String := none
  signerSubject : Option String := none
  signerIssuer : Option String := none
  signerSerial : Option String := none
  notBefore : Option String := none
  notAfter : Option String := none
  timestampInfo : Option (TimestampInfo Time) := none
  digestOk : Bool := false
  signatureOk : Bool := false
  chainOk : Option Bool := none
  timestampOk : Option Bool := none
  leafHashOk : Option Bool := none

structure VerifyResult (Time : Type) where
  signatures : List (SignatureResult Time)

def SignatureResult.passes {Time : Type} (r : SignatureResult Time) : Bool :=
  r.digestOk && r.signatureOk && r.chainOk.getD true && r.timestampOk.getD true &&
    r.leafHashOk.getD true

def VerifyResult.allOk {Time : Type} (r : VerifyResult Time) : Bool :=
  !r.signatures.isEmpty && r.signatures.all SignatureResult.passes

def SpcString.text : SpcString → String
  | .unicode text => text
  | .ascii text => text

def SpcLink.text : SpcLink → String
  | .url text => text
  | _ => ""

def splitOnce (s : String) (c : Char) : Option (String × String) :=
  match s.toList.dropWhile (· != c) with
  | [] => none
  | _ :: after => some (String.ofList (s.toList.takeWhile (· != c)), String.ofList after)

/-- The value of a decoder, whose error is reported behind this text. -/
def decoded {α : Type} (text : String) : Except String α → Res α
  | .ok a => .ok a
  | .error e => .error (.error (.verification (text ++ e)))

def oidToAlgoName (oid : Oid) : String :=
  if oid == idSha256 then "SHA256"
  else if oid == idSha384 then "SHA384"
  else if oid == idSha512 then "SHA512"
  else if oid == idSha1 then "SHA1"
  else oid.display

variable (crates : Crates)

def unsignedAttributes (lowLevel : Rfc5652SignedData crates.DataFields crates.SignerFields) :
    List Attribute :=
  lowLevel.signerInfos.flatMap fun signerInfo => signerInfo.unsignedAttributes.getD []

def cmsForm (blob : Bytes) : Res Bytes :=
  (wrapAuthenticodeContent blob).mapErr fun e =>
    .verification ("failed to normalize Authenticode content: " ++ e.display)

def collectSignatureBlobs (pkcs7Der : Bytes) : Res (List Bytes) := do
  let cmsDer ← cmsForm pkcs7Der
  let lowLevel ← decoded "failed to parse SignedData: " (crates.decodeBer cmsDer)
  let push (blobs : List Bytes) (attr : Attribute) : List Bytes :=
    if attr.typ == spcNestedSignature then
      attr.values.foldl (fun blobs value => blobs ++ [value]) blobs
    else blobs
  pure (lowLevel.signerInfos.foldl (fun blobs signerInfo =>
    match signerInfo.unsignedAttributes with
    | some attrs => attrs.foldl push blobs
    | none => blobs) [pkcs7Der])

/-- Only the first signer is looked at. -/
def extractTimestampFromSignedData (signedData : crates.SignedData) (tsType : TimestampType) :
    TimestampInfo crates.Time :=
  match crates.signers signedData with
  | [] => { timestampType := tsType }
  | signer :: _ =>
    let info : TimestampInfo crates.Time := {
      timestampType := tsType
      time := (crates.signedAttributes signer).bind (·.signingTime)
      hashAlgorithm := some (crates.digestAlgorithm signer) }
    match findSignerCert crates signedData signer with
    | some cert => { info with
        issuer := crates.issuerCommonName cert
        serial := some (crates.hexEncode (crates.serialNumberAsn1 cert)) }
    | none => info

def tokenOf (attr : Attribute) : Option crates.SignedData := do
  let raw ← attr.values.head?
  let lowLevel ← (crates.decodeBer raw).toOption
  (crates.tryFrom lowLevel).toOption

def extractTimestampInfo (rawDer : Bytes) (highLevel : crates.SignedData) :
    Option (TimestampInfo crates.Time) :=
  let standard := (crates.signers highLevel).findSome? fun signer =>
    (crates.timeStampTokenSignedData signer).toOption.join
  match standard with
  | some token => some (extractTimestampFromSignedData crates token .rfc3161)
  | none => do
    let lowLevel ← (crates.decodeBer rawDer).toOption
    (unsignedAttributes crates lowLevel).findSome? fun attr =>
      if attr.typ == spcRfc3161 then
        (tokenOf crates attr).map fun token => extractTimestampFromSignedData crates token .rfc3161
      else if attr.typ == pkcs9CounterSignature then some { timestampType := .authenticode }
      else none

/-- Each decodable opus attribute replaces what the ones before it gave. -/
def withOpusInfo (attributes : List Attribute) (result : SignatureResult crates.Time) :
    SignatureResult crates.Time :=
  attributes.foldl (fun result attr =>
    if attr.typ == spcSpOpusInfo then
      match attr.values.head?.bind fun raw => (crates.spcSpOpusInfo raw).toOption with
      | some opus => { result with
          programName := opus.programName.map SpcString.text
          programUrl := opus.moreInfo.map SpcLink.text }
      | none => result
    else result) result

def withSignerInfo (signedData : crates.SignedData) (result : SignatureResult crates.Time) :
    SignatureResult crates.Time :=
  match crates.signers signedData with
  | [] => result
  | signer :: _ =>
    let result := match crates.signedAttributes signer with
      | some attrs => withOpusInfo crates attrs.attributes
          { result with signingTime := attrs.signingTime }
      | none => result
    match findSignerCert crates signedData signer with
    | some cert => { result with
        signerSubject := crates.subjectCommonName cert
        signerIssuer := crates.issuerCommonName cert
        signerSerial := some (crates.hexEncode (crates.serialNumberAsn1 cert))
        notBefore := some (crates.validityNotBefore cert)
        notAfter := some (crates.validityNotAfter cert) }
    | none => result

def extractSignatureInfo (signedData : crates.SignedData) (rawDer : Bytes) (index : Nat) :
    SignatureResult crates.Time :=
  let result : SignatureResult crates.Time := { index }
  let result :=
    match (crates.signedContent signedData).bind fun content =>
      (crates.spcIndirectDataContent content).toOption with
    | some spc => { result with
        digestAlgorithm := oidToAlgoName spc.digestAlgorithm
        messageDigest := spc.digest }
    | none => result
  let result := withSignerInfo crates signedData result
  { result with timestampInfo := extractTimestampInfo crates rawDer signedData }

def hasherFor (algoOid : Oid) : Option (Bytes → Bytes) :=
  if algoOid == idSha256 then some crates.sha256
  else if algoOid == idSha384 then some crates.sha384
  else if algoOid == idSha512 then some crates.sha512
  else if algoOid == idSha1 then some crates.sha1
  else none

def computePeDigest (f : File) (pe : PeInfo) (algoOid : Oid) : Proc Bytes :=
  match hasherFor crates algoOid with
  | some finalize => do
    let hasher ← authenticodeDigest f pe []
    pure (finalize hasher)
  | none => .fail (.error (.verification
      ("unsupported digest algorithm OID: " ++ algoOid.display)))

def verifyDigest (f : File) (pe : PeInfo) (signedData : crates.SignedData) : Proc Bool := do
  let encapContent ← .ofExcept (okOr (crates.signedContent signedData)
    (.error (.verification "no encapsulated content in signature")))
  let spc ← .ofExcept (decoded "failed to decode SpcIndirectDataContent: "
    (crates.spcIndirectDataContent encapContent))
  let actualDigest ← computePeDigest crates f pe spc.digestAlgorithm
  pure (actualDigest == spc.digest)

/-- The loop over the signers; `ok` is what it has found so far. -/
def checkSigners (signedData : crates.SignedData) (contentValue : Bytes) :
    List crates.Signer → Bool → Bool
  | [], ok => ok
  | signer :: rest, _ =>
    if !crates.verifyMessageDigestWithContent signer contentValue then false
    else if !crates.verifySignatureWithSignedData signer signedData then false
    else checkSigners signedData contentValue rest true

def verifyCryptoSignature (signedData : crates.SignedData) : Res Bool :=
  match crates.signedContent signedData with
  | none => pure false
  | some content =>
    match derSequenceContent content with
    | .ok contentValue =>
      pure (checkSigners crates signedData contentValue (crates.signers signedData) false)
    | .error (.error _) => pure false
    | .error fault => .error fault

def firstSignerCert (signedData : crates.SignedData) : Option crates.Cert :=
  (crates.signers signedData).findSome? (findSignerCert crates signedData)

def verifyChain (signedData : crates.SignedData) (caCerts : List crates.Cert) : Bool :=
  match firstSignerCert crates signedData with
  | some cert => verifyChainToCa crates.x509 cert (crates.certificates signedData) caCerts
  | none => false

/-- The first attribute with the Microsoft OID decides, with its first value. -/
def verifyTimestamp (pkcs7Der : Bytes) : Option Bool := do
  let signedData ← (crates.parseBer pkcs7Der).toOption
  let standard := (crates.signers signedData).any fun signer =>
    (crates.verifyTimeStampToken signer).toOption.join == some ()
  if standard then some true
  else do
    let lowLevel ← (crates.decodeBer pkcs7Der).toOption
    let attr ← (unsignedAttributes crates lowLevel).find? (·.typ == spcRfc3161)
    match tokenOf crates attr with
    | some token => some ((crates.signers token).all fun signer =>
        crates.verifySignatureWithSignedData signer token)
    | none => some false

def verifyLeafHashForSigner (signedData : crates.SignedData) (spec : String) : Bool :=
  match splitOnce spec ':' with
  | none => false
  | some (algo, expectedHex) =>
    match crates.hexDecode expectedHex with
    | none => false
    | some expectedBytes =>
      match firstSignerCert crates signedData with
      | none => false
      | some cert =>
        let certDer := crates.x509.constructedData cert
        match algo.toLower with
        | "sha1" => crates.sha1 certDer == expectedBytes
        | "sha256" => crates.sha256 certDer == expectedBytes
        | "sha384" => crates.sha384 certDer == expectedBytes
        | "sha512" => crates.sha512 certDer == expectedBytes
        | _ => false

variable (opts : VerifyOptions crates.Cert)

def verifyBlob (f : File) (pe : PeInfo) (index : Nat) (blob : Bytes) :
    Proc (SignatureResult crates.Time) := do
  -- the CMS decoders would not notice a wrong envelope
  .ofExcept (checkAuthenticodeEnvelope blob)
  let cmsBlob ← .ofExcept (cmsForm blob)
  let signedData ← .ofExcept (decoded "failed to parse SignedData: " (crates.parseBer cmsBlob))
  let result := extractSignatureInfo crates signedData cmsBlob index
  let digestOk ← (verifyDigest crates f pe signedData).unwrapOr false
  let signatureOk ← .ofExcept (verifyCryptoSignature crates signedData)
  pure { result with
    digestOk, signatureOk
    chainOk :=
      if opts.caCerts.isEmpty then result.chainOk
      else some (verifyChain crates signedData opts.caCerts)
    timestampOk :=
      if opts.ignoreTimestamp then result.timestampOk else verifyTimestamp crates cmsBlob
    leafHashOk :=
      match opts.requireLeafHash with
      | some spec => some (verifyLeafHashForSigner crates signedData spec)
      | none => result.leafHashOk }

def verifyBlobs (f : File) (pe : PeInfo) : Nat → List Bytes →
    Proc (List (SignatureResult crates.Time))
  | _, [] => pure []
  | index, blob :: blobs => do
    let result ← verifyBlob crates opts f pe index blob
    let results ← verifyBlobs f pe (index + 1) blobs
    pure (result :: results)

def verifyPeRich (b : Build) (rounds : Nat) (f : File) : Proc (VerifyResult crates.Time) := do
  let pe ← parsePe b f
  let found ← extractSignature b rounds f pe
  let pkcs7Der ← .ofExcept (okOr found (.error .noSignature))
  let sigBlobs ← .ofExcept (collectSignatureBlobs crates pkcs7Der)
  let signatures ← verifyBlobs crates opts f pe 0 sigBlobs
  pure { signatures }

end Rsigncode
