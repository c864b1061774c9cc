import Rsigncode.Accept
import Rsigncode.Report
import Rsigncode.Sign

/-! The command line: `main.rs`, with the loading of certificates and keys that it calls.
A command runs on files, servers and two printed streams, which can always be written. -/
namespace Rsigncode

open FileStore

/-- What a command fails of. The system refuses a path without a file and nothing else; the
library wraps that in an error of its own. -/
inductive Cause where
  | library (e : Error)
  | notFound (wrapped : Bool)
  | message (text : String)

inductive Halt where
  | failed (context : Option String) (cause : Cause)
  | panic
  | fuel

def Fault.halt (context : Option String) : Fault → Halt
  | .error e => .failed context (.library e)
  | .panic => .panic
  | .fuel => .fuel

structure World (T : Type) where
  store : Store
  network : Network T
  stdout : List String := []
  stderr : List String := []

abbrev Command (T : Type) := Prog (World T) Halt

abbrev Loading := Prog Store Cause

def fsRead (refused : Cause) (p : Path) : Loading Bytes := ⟨fun s =>
  match s.files p with
  | some d => (.ok d, s)
  | none => (.error refused, s)⟩

/-- What the command line uses of the certificate and PEM crates, and the texts of a path. -/
structure CliCrates (Key Cert : Type) where
  fromPemMultiple : Bytes → Except String (List Cert)
  fromDer : Bytes → Except String Cert
  fromPkcs8Pem : Bytes → Except String Key
  fromPkcs8Der : Bytes → Except String Key
  pemEncode : String → Bytes → Bytes
  pemParse : Bytes → Option Bytes
  debug : Path → String
  display : Path → String

structure KeyMaterial (Key Cert : Type) where
  signingKey : Key
  signerCert : Cert
  extraCerts : List Cert

structure CertChain (Cert : Type) where
  signerCert : Cert
  extraCerts : List Cert

def certificateError {α : Type} (text : String) : Except String α → Loading α
  | .ok a => pure a
  | .error e => .fail (.library (.certificate (text ++ e)))

section Certs
variable {Key Cert : Type} (cli : CliCrates Key Cert)

def firstCert : List Cert → Loading (Cert × List Cert)
  | [] => .fail (.library (.certificate "no certificates in PEM file"))
  | cert :: certs => pure (cert, certs)

namespace KeyMaterial

def fromPem (certPath keyPath : Path) : Loading (KeyMaterial Key Cert) := do
  let certData ← fsRead (.notFound true) certPath
  let keyData ← fsRead (.notFound true) keyPath
  let certs ← certificateError "failed to parse cert PEM: " (cli.fromPemMultiple certData)
  let (signerCert, extraCerts) ← firstCert certs
  let signingKey ← certificateError "failed to parse key PEM: " (cli.fromPkcs8Pem keyData)
  pure { signingKey, signerCert, extraCerts }

def fromDer (certPath keyPath : Path) : Loading (KeyMaterial Key Cert) := do
  let certData ← fsRead (.notFound true) certPath
  let keyData ← fsRead (.notFound true) keyPath
  let signerCert ← certificateError "failed to parse cert DER: " (cli.fromDer certData)
  let signingKey ← certificateError "failed to parse key DER: " (cli.fromPkcs8Der keyData)
  pure { signingKey, signerCert, extraCerts := [] }

def addExtraCertsPem (km : KeyMaterial Key Cert) (path : Path) :
    Loading (KeyMaterial Key Cert) := do
  let data ← fsRead (.notFound true) path
  let certs ← certificateError "failed to parse extra certs: " (cli.fromPemMultiple data)
  pure { km with extraCerts := km.extraCerts ++ certs }

def allCerts (km : KeyMaterial Key Cert) : List Cert := km.signerCert :: km.extraCerts

end KeyMaterial

def CertChain.fromPem (path : Path) : Loading (CertChain Cert) := do
  let data ← fsRead (.notFound true) path
  let certs ← certificateError "failed to parse cert PEM: " (cli.fromPemMultiple data)
  let (signerCert, extraCerts) ← firstCert certs
  pure { signerCert, extraCerts }

def CertChain.allCerts (chain : CertChain Cert) : List Cert := chain.signerCert :: chain.extraCerts

def notFoundText : String := "No such file or directory (os error 2)"

def loadPemCerts (path : Path) : Loading (List Cert) := do
  let data ← fsRead (.library (.certificate
    ("failed to read " ++ cli.display path ++ ": " ++ notFoundText))) path
  let certs ← certificateError ("failed to parse PEM certs from " ++ cli.display path ++ ": ")
    (cli.fromPemMultiple data)
  .rejectIf (certs.isEmpty = true)
    (.library (.certificate ("no certificates found in " ++ cli.display path)))
  pure certs

end Certs

section Steps
variable {T α : Type}

def onStore (context : Option String) (x : Proc α) : Command T α :=
  x.zoom World.store (fun w s => { w with store := s }) (Fault.halt context)

def onNetwork (context : Option String) (x : Prog (Network T) Fault α) : Command T α :=
  x.zoom World.network (fun w n => { w with network := n }) (Fault.halt context)

def loading (context : Option String) (x : Loading α) : Command T α :=
  x.zoom World.store (fun w s => { w with store := s }) (Halt.failed context)

def bail (text : String) : Command T α := .fail (.failed none (.message text))

/-- `Option::context` -/
def present (text : String) : Option α → Command T α
  | some a => pure a
  | none => bail text

def openFile (context : String) (p : Path) : Command T File := do
  let _ ← loading (some context) (fsRead (.notFound false) p)
  pure ⟨p, 0⟩

def fsWrite (p : Path) (d : Bytes) : Command T Unit := ⟨fun w =>
  (.ok (), { w with store := w.store.setData p d })⟩

def println (lines : List String) : Command T Unit := ⟨fun w =>
  (.ok (), { w with stdout := w.stdout ++ lines })⟩

def eprintln (line : String) : Command T Unit := ⟨fun w =>
  (.ok (), { w with stderr := w.stderr ++ [line] })⟩

end Steps

structure SignArgs where
  infile : Path
  outfile : Path
  certs : Option Path := none
  key : Option Path := none
  ac : Option Path := none
  h : String := "sha256"
  n : Option String := none
  i : Option String := none
  t : List String := []
  ts : List String := []

structure VerifyArgs where
  infile : Path
  cafile : Option Path := none
  tsaCafile : Option Path := none
  requireLeafHash : Option String := none
  ignoreTimestamp : Bool := false

structure ExtractDataArgs where
  infile : Path
  outfile : Path
  h : String := "sha256"
  pem : Bool := false

structure ExtractSignatureArgs where
  infile : Path
  outfile : Path
  pem : Bool := false

structure AttachSignatureArgs where
  infile : Path
  outfile : Path
  sigin : Path

structure RemoveSignatureArgs where
  infile : Path
  outfile : Path

structure AddArgs where
  infile : Path
  outfile : Path
  t : List String := []
  ts : List String := []

inductive Invocation where
  | sign (args : SignArgs)
  | verify (args : VerifyArgs)
  | extractData (args : ExtractDataArgs)
  | extractSignature (args : ExtractSignatureArgs)
  | attachSignature (args : AttachSignatureArgs)
  | removeSignature (args : RemoveSignatureArgs)
  | add (args : AddArgs)

/-- What the program is built with: its crates, its build, and the rounds that its unbounded
loop is given beyond the first. -/
structure Platform (Key D S : Type) where
  crates : Crates
  signing : SigningCrates Key crates.Cert D S
  cli : CliCrates Key crates.Cert
  strftime : crates.Time → String
  build : Build
  rounds : Nat
  certEq : DecidableEq crates.Cert

attribute [instance] Platform.certEq

section Commands
variable {Key D S : Type} (sys : Platform Key D S)

abbrev Platform.Run (α : Type) := Command (SignedData sys.crates.Cert D S) α

namespace Platform

def openInput (infile : Path) : sys.Run File :=
  openFile ("failed to open: " ++ sys.cli.debug infile) infile

def parseInput (input : File) : sys.Run PeInfo :=
  onStore (some "failed to parse PE file") (parsePe sys.build input)

def arrow (infile outfile : Path) : String :=
  sys.cli.debug infile ++ " -> " ++ sys.cli.debug outfile

def optionally {α β : Type} (x : Option α) (d : β) (f : α → sys.Run β) : sys.Run β :=
  match x with
  | some a => f a
  | none => pure d

def cmdSign (args : SignArgs) : sys.Run Unit := do
  let hashAlgo ← onStore (some "invalid hash algorithm") (.ofExcept (HashAlgorithm.fromName args.h))
  let certfile ← present "--certs required" args.certs
  let keyfile ← present "--key required" args.key
  let km ← loading (some "failed to load certificates/key")
    (KeyMaterial.fromPem sys.cli certfile keyfile)
  let km ← sys.optionally args.ac km fun ac =>
    loading (some "failed to load extra certificates") (km.addExtraCertsPem sys.cli ac)
  let input ← sys.openInput args.infile
  let peInfo ← sys.parseInput input
  let digest ← onStore (some "failed to calculate digest")
    (peDigest sys.crates input peInfo hashAlgo)
  let opts : SignOptions := {
    hashAlgo
    programName := args.n
    programUrl := args.i
    rfc3161Urls := args.ts
    authenticodeUrls := args.t }
  let pkcs7Der ← onNetwork (some "failed to create signature")
    (createAuthenticodeSignature sys.signing km.signingKey km.signerCert km.extraCerts digest opts)
  onStore (some "failed to write signed PE")
    (writeSignedPe sys.build input args.outfile peInfo pkcs7Der)
  eprintln ("Signed: " ++ sys.arrow args.infile args.outfile)

def cmdVerify (args : VerifyArgs) : sys.Run Unit := do
  let input ← sys.openInput args.infile
  let caCerts ← sys.optionally args.cafile [] fun path =>
    loading (some "failed to load --CAfile") (loadPemCerts sys.cli path)
  -- loaded, and looked at by nothing
  let _ ← sys.optionally args.tsaCafile [] fun path =>
    loading (some "failed to load --TSA-CAfile") (loadPemCerts sys.cli path)
  let opts : VerifyOptions sys.crates.Cert := {
    caCerts
    requireLeafHash := args.requireLeafHash
    ignoreTimestamp := args.ignoreTimestamp }
  let result ← onStore (some "Verification failed")
    (verifyPeRich sys.crates opts sys.build (sys.rounds + 1) input)
  println (printVerifyResult sys.crates.hexEncode sys.strftime result)
  if result.allOk then println ["Succeeded"] else bail "Failed"

def writeOut (pem : Bool) (outfile : Path) (der : Bytes) : sys.Run Unit :=
  if pem then fsWrite outfile (sys.cli.pemEncode "PKCS7" der) else fsWrite outfile der

def cmdExtractData (args : ExtractDataArgs) : sys.Run Unit := do
  let hashAlgo ← onStore (some "invalid hash algorithm") (.ofExcept (HashAlgorithm.fromName args.h))
  let input ← sys.openInput args.infile
  let peInfo ← sys.parseInput input
  let digest ← onStore (some "failed to calculate digest")
    (peDigest sys.crates input peInfo hashAlgo)
  let opts : SignOptions := { toSigningOptions := { SigningOptions.default with hashAlgo } }
  let pkcs7Der ← onStore (some "failed to build PKCS#7 data content")
    (.ofExcept (buildExtractDataPkcs7 sys.signing digest opts))
  sys.writeOut args.pem args.outfile pkcs7Der
  eprintln ("Extracted data: " ++ sys.arrow args.infile args.outfile)

def cmdExtractSignature (args : ExtractSignatureArgs) : sys.Run Unit := do
  let input ← sys.openInput args.infile
  let peInfo ← sys.parseInput input
  let found ← onStore none (extractSignature sys.build (sys.rounds + 1) input peInfo)
  let sig ← present "no signature found" found
  sys.writeOut args.pem args.outfile sig
  eprintln ("Extracted signature: " ++ sys.arrow args.infile args.outfile)

/-- PEM first, else DER. -/
def signatureOf (sigData : Bytes) : Bytes := (sys.cli.pemParse sigData).getD sigData

def cmdAttachSignature (args : AttachSignatureArgs) : sys.Run Unit := do
  let sigData ← loading (some ("failed to read signature: " ++ sys.cli.debug args.sigin))
    (fsRead (.notFound false) args.sigin)
  let pkcs7Der ← onStore (some "--sigin file is not a valid PKCS#7 SignedData")
    (.ofExcept (normalizeAuthenticodeSignature (sys.signatureOf sigData)))
  let input ← sys.openInput args.infile
  let peInfo ← sys.parseInput input
  onStore (some "failed to write signed PE")
    (writeSignedPe sys.build input args.outfile peInfo pkcs7Der)
  eprintln ("Attached signature: " ++ sys.cli.debug args.infile ++ " + " ++
    sys.arrow args.sigin args.outfile)

def cmdRemoveSignature (args : RemoveSignatureArgs) : sys.Run Unit := do
  let input ← sys.openInput args.infile
  let peInfo ← sys.parseInput input
  onStore (some "failed to remove signature")
    (writeUnsignedPe sys.build input args.outfile peInfo)
  eprintln ("Removed signature: " ++ sys.arrow args.infile args.outfile)

def cmdAdd (args : AddArgs) : sys.Run Unit := do
  .rejectIf (args.ts.isEmpty = true ∧ args.t.isEmpty = true)
    (.failed none (.message "at least one -t or --ts URL is required"))
  let input ← sys.openInput args.infile
  let peInfo ← sys.parseInput input
  let found ← onStore none (extractSignature sys.build (sys.rounds + 1) input peInfo)
  let pkcs7Der ← present "no signature found — file must be signed first" found
  let timestamped ← onNetwork (some "failed to add timestamps")
    (addTimestamps sys.signing.tsa pkcs7Der args.ts args.t)
  onStore (some "failed to write output PE")
    (writeSignedPe sys.build input args.outfile peInfo timestamped)
  eprintln ("Added timestamp: " ++ sys.arrow args.infile args.outfile)

/-- `main`, on the parsed arguments. -/
def main : Invocation → sys.Run Unit
  | .sign args => sys.cmdSign args
  | .verify args => sys.cmdVerify args
  | .extractData args => sys.cmdExtractData args
  | .extractSignature args => sys.cmdExtractSignature args
  | .attachSignature args => sys.cmdAttachSignature args
  | .removeSignature args => sys.cmdRemoveSignature args
  | .add args => sys.cmdAdd args

end Platform

end Commands

end Rsigncode
