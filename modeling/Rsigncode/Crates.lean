import Rsigncode.Der

/-! What verification uses of the CMS, X.509, DER, hash and hex crates. Parsed values are
opaque, and every decoder and every check is whatever the crate answers. -/
namespace Rsigncode

open FileStore

abbrev Oid := List Nat

def Oid.display (oid : Oid) : String := ".".intercalate (oid.map toString)

def spcSpOpusInfo : Oid := [1, 3, 6, 1, 4, 1, 311, 2, 1, 12]
def spcNestedSignature : Oid := [1, 3, 6, 1, 4, 1, 311, 2, 4, 1]
def spcRfc3161 : Oid := [1, 3, 6, 1, 4, 1, 311, 3, 3, 1]
def pkcs9CounterSignature : Oid := [1, 2, 840, 113549, 1, 9, 6]
def idSha1 : Oid := [1, 3, 14, 3, 2, 26]
def idSha256 : Oid := [2, 16, 840, 1, 101, 3, 4, 2, 1]
def idSha384 : Oid := [2, 16, 840, 1, 101, 3, 4, 2, 2]
def idSha512 : Oid := [2, 16, 840, 1, 101, 3, 4, 2, 3]

structure Attribute where
  typ : Oid
  values : List Bytes

/-- A SignerInfo of the low-level decoder; `fields` is all but the unsigned attributes. -/
structure Rfc5652SignerInfo (SignerFields : Type) where
  fields : SignerFields
  unsignedAttributes : Option (List Attribute)

/-- A SignedData of the low-level decoder; `fields` is all but the SignerInfos. -/
structure Rfc5652SignedData (DataFields SignerFields : Type) where
  fields : DataFields
  signerInfos : List (Rfc5652SignerInfo SignerFields)

structure SignedAttributes (Time : Type) where
  signingTime : Option Time
  attributes : List Attribute

inductive SpcString where
  | unicode (text : String)
  | ascii (text : String)

inductive SpcLink where
  | url (text : String)
  | moniker
  | file

structure SpcSpOpusInfo where
  programName : Option SpcString
  moreInfo : Option SpcLink

/-- What the chain walk asks of a certificate: its encoding, and whether it verifies as
signed by another one. -/
structure X509 (Cert : Type) where
  constructedData : Cert → Bytes
  verifySignedByCertificate : Cert → Cert → Bool

structure Crates where
  Cert : Type
  Name : Type
  Signer : Type
  SignedData : Type
  Time : Type
  SignerFields : Type
  DataFields : Type
  nameEq : DecidableEq Name
  x509 : X509 Cert
  serialNumberAsn1 : Cert → Bytes
  issuerName : Cert → Name
  subjectCommonName : Cert → Option String
  issuerCommonName : Cert → Option String
  validityNotBefore : Cert → String
  validityNotAfter : Cert → String
  parseBer : Bytes → Except String SignedData
  decodeBer : Bytes → Except String (Rfc5652SignedData DataFields SignerFields)
  tryFrom : Rfc5652SignedData DataFields SignerFields → Except String SignedData
  signedContent : SignedData → Option Bytes
  certificates : SignedData → List Cert
  signers : SignedData → List Signer
  certificateIssuerAndSerial : Signer → Option (Name × Bytes)
  signedAttributes : Signer → Option (SignedAttributes Time)
  digestAlgorithm : Signer → String
  verifyMessageDigestWithContent : Signer → Bytes → Bool
  verifySignatureWithSignedData : Signer → SignedData → Bool
  verifyTimeStampToken : Signer → Except String (Option Unit)
  timeStampTokenSignedData : Signer → Except String (Option SignedData)
  spcIndirectDataContent : Bytes → Except String (SpcIndirectDataContent Oid)
  spcSpOpusInfo : Bytes → Except String SpcSpOpusInfo
  sha1 : Bytes → Bytes
  sha256 : Bytes → Bytes
  sha384 : Bytes → Bytes
  sha512 : Bytes → Bytes
  hexEncode : Bytes → String
  hexDecode : String → Option Bytes

attribute [instance] Crates.nameEq

end Rsigncode
