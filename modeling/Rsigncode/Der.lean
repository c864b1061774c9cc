import Rsigncode.Error
import Rsigncode.Lib.Tlv

/-! The DER walk and rewrite of `crypto/signing.rs`. A slice or an index outside the
buffer is a panic; `usize` sums are exact. -/
namespace Rsigncode

open FileStore Window Number

def index (b : Bytes) (i : Nat) : Res UInt8 :=
  match b[i]? with
  | some x => .ok x
  | none => .error .panic

def subslice (b : Bytes) (start stop : Nat) : Res Bytes :=
  if start ≤ stop ∧ stop ≤ b.length then .ok (slice b start stop) else .error .panic

def okOr {α : Type} (x : Option α) (e : Fault) : Res α :=
  match x with
  | some a => .ok a
  | none => .error e

def encodeLen (len : Nat) (out : Bytes) : Bytes :=
  if len < 0x80 then out ++ [UInt8.ofNat len]
  else
    let bytes := be 8 len
    let start := (bytes.findIdx? (· != 0)).getD (bytes.length - 1)
    let sig := bytes.drop start
    out ++ [0x80 ||| UInt8.ofNat sig.length] ++ sig

def emitTlv (tag : UInt8) (content : Bytes) : Bytes := encodeLen content.length [tag] ++ content

def malformed (m : String) : Fault := .error (.signing ("malformed DER: " ++ m))

def readLength (b : Bytes) (pos : Nat) (l0 : UInt8) : Res (Nat × Nat) :=
  if l0 &&& 0x80 = 0 then pure (pos + 2, l0.toNat)
  else
    let n := (l0 &&& 0x7f).toNat
    if n = 0 ∨ n > 4 ∨ pos + 2 + n > b.length then .error (malformed "unsupported length encoding")
    else do
      let len ← (List.range n).foldlM (fun len i => do
        let x ← index b (pos + 2 + i)
        pure ((len <<< 8) ||| x.toNat)) 0
      pure (pos + 2 + n, len)

/-- The header at `pos`: the tag, where the content starts and where it ends. -/
def readHeader (b : Bytes) (pos : Nat) : Res (UInt8 × Nat × Nat) :=
  if pos + 1 ≥ b.length then .error (malformed "truncated TLV header")
  else do
    let tag ← index b pos
    let l0 ← index b (pos + 1)
    let (contentStart, len) ← readLength b pos l0
    let stop := contentStart + len
    if stop > b.length then .error (malformed "length exceeds buffer")
    else pure (tag, contentStart, stop)

def derSequenceContent (der : Bytes) : Res Bytes := do
  let (tag, cs, ce) ← readHeader der 0
  if tag ≠ 0x30 then .error (.error (.signing "expected SEQUENCE")) else subslice der cs ce

structure Child where
  tag : UInt8
  fullStart : Nat
  contentStart : Nat
  contentEnd : Nat
  deriving DecidableEq, Repr

/-- Each round moves on by a header at least, so `stop - p` rounds are enough. -/
def childrenLoop (b : Bytes) (stop : Nat) : Nat → Nat → Res (List Child)
  | 0, _ => pure []
  | rounds + 1, p =>
    if p < stop then do
      let (tag, cs, ce) ← readHeader b p
      let rest ← childrenLoop b stop rounds ce
      pure (⟨tag, p, cs, ce⟩ :: rest)
    else pure []

def children (b : Bytes) (start stop : Nat) : Res (List Child) :=
  childrenLoop b stop (stop - start) start

def Child.children (c : Child) (b : Bytes) : Res (List Child) :=
  Rsigncode.children b c.contentStart c.contentEnd

def authenticodeSignedDataVersion : Bytes := [0x02, 0x01, 0x01]
def cmsSignedDataVersion : Bytes := [0x02, 0x01, 0x03]

def cannotFixUp (m : String) : Fault := .error (.signing ("cannot fix up PKCS#7 content: " ++ m))

def firstWithTag (cs : List Child) (tag : UInt8) : Option Child := cs.find? (·.tag == tag)

structure Spine where
  cs0 : Nat
  ce0 : Nat
  l0Children : List Child
  l1 : Child
  l1Children : List Child
  l2 : Child
  l2Children : List Child
  version : Child
  l3 : Child
  l3Children : List Child
  l4 : Child
  l4Children : List Child
  l5 : Child
  deriving DecidableEq, Repr

/-- The read-only first half of `rewriteAuthenticodeContent`. -/
def walkSpine (der : Bytes) : Res Spine := do
  let (t0, cs0, ce0) ← readHeader der 0
  if t0 ≠ 0x30 then .error (cannotFixUp "ContentInfo is not a SEQUENCE")
  else do
    let l0Children ← children der cs0 ce0
    let l1 ← okOr (firstWithTag l0Children 0xA0) (cannotFixUp "missing [0] content")
    let l1Children ← l1.children der
    let l2 ← okOr (firstWithTag l1Children 0x30) (cannotFixUp "missing SignedData SEQUENCE")
    let l2Children ← l2.children der
    let version ← okOr (l2Children.head?.filter (·.tag == 0x02))
      (cannotFixUp "missing SignedData version")
    let l3 ← okOr (firstWithTag l2Children 0x30) (cannotFixUp "missing encapContentInfo")
    let l3Children ← l3.children der
    let l4 ← okOr (firstWithTag l3Children 0xA0) (cannotFixUp "missing eContent [0]")
    let l4Children ← l4.children der
    let l5 ← okOr l4Children.head? (cannotFixUp "empty eContent")
    pure { cs0, ce0, l0Children, l1, l1Children, l2, l2Children, version, l3, l3Children, l4,
           l4Children, l5 }

def splice (der : Bytes) (start : Nat) (c : Child) (stop : Nat) (new : Bytes) : Res Bytes := do
  let before ← subslice der start c.fullStart
  let after ← subslice der c.contentEnd stop
  pure (before ++ new ++ after)

def newContent (der : Bytes) (s : Spine) (wrap : Bool) : Res Bytes :=
  match wrap, s.l5.tag == 0x04 with
  | true, false => do
    let x ← subslice der s.l5.fullStart s.l5.contentEnd
    pure (emitTlv 0x04 x)
  | false, true => subslice der s.l5.contentStart s.l5.contentEnd
  -- already in the wanted form; only the version changes
  | _, _ => subslice der s.l4.contentStart s.l4.contentEnd

def targetVersion (wrap : Bool) : Bytes :=
  if wrap then cmsSignedDataVersion else authenticodeSignedDataVersion

/-- The second half of `rewriteAuthenticodeContent`: the five containers again, from
the inside out, with everything beside the spine as it was. -/
def rebuild (der : Bytes) (s : Spine) (wrap : Bool) : Res Bytes := do
  let newL4Content ← newContent der s wrap
  let newL4 := emitTlv 0xA0 newL4Content
  let l3Content ← splice der s.l3.contentStart s.l4 s.l3.contentEnd newL4
  let newL3 := emitTlv 0x30 l3Content
  let l2Content ← splice der s.version.contentEnd s.l3 s.l2.contentEnd newL3
  let newL2 := emitTlv 0x30 (targetVersion wrap ++ l2Content)
  let l1Content ← splice der s.l1.contentStart s.l2 s.l1.contentEnd newL2
  let newL1 := emitTlv 0xA0 l1Content
  let l0Content ← splice der s.cs0 s.l1 s.ce0 newL1
  pure (emitTlv 0x30 l0Content)

def rewriteAuthenticodeContent (der : Bytes) (wrap : Bool) : Res Bytes := do
  let s ← walkSpine der
  let version ← subslice der s.version.fullStart s.version.contentEnd
  if wrap == (s.l5.tag == 0x04) && version == targetVersion wrap then pure der
  else rebuild der s wrap

def unwrapAuthenticodeContent (der : Bytes) : Res Bytes := rewriteAuthenticodeContent der false

def normalizeAuthenticodeSignature (der : Bytes) : Res Bytes := unwrapAuthenticodeContent der

def checkAuthenticodeEnvelope (der : Bytes) : Res Unit := do
  let normalized ← normalizeAuthenticodeSignature der
  if normalized = der then pure ()
  else .error (.error (.verification
    ("signature is not in the form Windows accepts: SignedData must be version 1 " ++
      "with SpcIndirectDataContent not wrapped in an OCTET STRING")))

def wrapAuthenticodeContent (der : Bytes) : Res Bytes := rewriteAuthenticodeContent der true

def cannotReadContent (m : String) : Fault :=
  .error (.signing ("cannot read PKCS#7 content: " ++ m))

def childWithTag (b : Bytes) (start stop : Nat) (tag : UInt8) (what : String) : Res Child := do
  let cs ← children b start stop
  okOr (firstWithTag cs tag) (cannotReadContent what)

def spcContentFromPkcs7 (der : Bytes) : Res Bytes := do
  let (t0, cs0, ce0) ← readHeader der 0
  if t0 ≠ 0x30 then .error (cannotReadContent "ContentInfo is not a SEQUENCE")
  else do
    let l1 ← childWithTag der cs0 ce0 0xA0 "missing [0] content"
    let l2 ← childWithTag der l1.contentStart l1.contentEnd 0x30 "missing SignedData SEQUENCE"
    let l3 ← childWithTag der l2.contentStart l2.contentEnd 0x30 "missing encapContentInfo"
    let l4 ← childWithTag der l3.contentStart l3.contentEnd 0xA0 "missing eContent [0]"
    let l4Children ← l4.children der
    let l5 ← okOr l4Children.head? (cannotReadContent "empty eContent")
    if l5.tag = 0x04 then subslice der l5.contentStart l5.contentEnd
    else subslice der l5.fullStart l5.contentEnd

def cannotReadRequest (m : String) : Fault :=
  .error (.signing ("cannot read signing request: " ++ m))

def extractSpcContent (blob : Bytes) : Res Bytes := do
  let (tag, cs, ce) ← readHeader blob 0
  if tag ≠ 0x30 then .error (cannotReadRequest "expected a SEQUENCE")
  else do
    let content ← children blob cs ce
    match content.head?.map Child.tag with
    | some 0x30 => pure blob
    | some 0x06 => spcContentFromPkcs7 blob
    | _ => .error (cannotReadRequest "neither SpcIndirectDataContent nor PKCS#7 ContentInfo")

structure SpcIndirectDataContent (Oid : Type) where
  digest : Bytes
  digestAlgorithm : Oid

structure ParsedSpcIndirectData (Oid : Type) where
  contentDer : Bytes
  digest : Bytes
  digestAlgorithm : Oid

/-- `fromDer` is the derived DER decoder; its error is the text it displays. -/
def parseSpcIndirectData {Oid : Type}
    (fromDer : Bytes → Except String (SpcIndirectDataContent Oid)) (blob : Bytes) :
    Res (ParsedSpcIndirectData Oid) := do
  let contentDer ← extractSpcContent blob
  match fromDer contentDer with
  | .error e => .error (.error (.signing ("not a valid SpcIndirectDataContent: " ++ e)))
  | .ok spc => pure { contentDer, digest := spc.digest, digestAlgorithm := spc.digestAlgorithm }

end Rsigncode
