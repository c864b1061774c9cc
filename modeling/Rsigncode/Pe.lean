import Rsigncode.Error

/-! The PE container: `format/pe.rs`. Each function takes the handle where it
stands and does not return its final position, because every one of them seeks
before it reads or writes. -/
namespace Rsigncode

open FileStore Window Number

def dosMagic : Nat := 0x5A4D
def peSignature : Nat := 0x00004550
def pe32Magic : Nat := 0x10B
def pe32plusMagic : Nat := 0x20B
def winCertRevision20 : Nat := 0x0200
def winCertTypePkcsSignedData : Nat := 0x0002

structure PeInfo where
  pe32plus : Bool
  headerSize : Nat
  checksumOffset : Nat
  certTableOffset : Nat
  sigpos : Nat
  siglen : Nat
  fileend : Nat
  deriving DecidableEq, Repr

/-- `{n:0wX}`: upper-case hexadecimal, at least `w` digits. -/
def hexUpper (w n : Nat) : String :=
  let ds := (Nat.toDigits 16 n).map Char.toUpper
  String.ofList (List.replicate (w - ds.length) '0' ++ ds)

def readU16 (f : File) : Proc (Nat × File) := do
  let (buf, f) ← f.readExact 2
  pure (ofLe buf, f)

def readU32 (f : File) : Proc (Nat × File) := do
  let (buf, f) ← f.readExact 4
  pure (ofLe buf, f)

def pe32plusOffset (pe32plus : Bool) : Nat := if pe32plus then 16 else 0

/-- A directory entry counts only when its table ends the file; the sum is formed
after the cheaper tests have passed. -/
def signatureDirectory (b : Build) (sigpos siglen filesize : Nat) : Res (Nat × Nat) := do
  let trailing ←
    if sigpos = 0 ∨ siglen = 0 ∨ sigpos ≥ filesize then pure false
    else do
      let stop ← b.add sigpos siglen
      pure (stop == filesize)
  pure (if (sigpos ≠ 0 ∨ siglen ≠ 0) ∧ trailing = false then (0, 0) else (sigpos, siglen))

def parsePe (b : Build) (f : File) : Proc PeInfo := do
  let f ← f.seekEnd
  let filesize := asU32 f.pos
  let f := f.seek 0
  .rejectIf (filesize < 64) (.error (.invalidPe "file too short"))
  let (magic, f) ← readU16 f
  .rejectIf (magic ≠ dosMagic) (.error (.invalidPe "bad DOS magic"))
  let f := f.seek 0x3C
  let (headerSize, f) ← readU32 f
  .rejectIf (headerSize < 44 ∨ headerSize > filesize)
    (.error (.invalidPe ("unexpected SizeOfHeaders: 0x" ++ hexUpper 8 headerSize)))
  let needed ← .ofExcept (b.add headerSize 176)
  .rejectIf (filesize < needed) (.error (.invalidPe "PE file too short for headers"))
  let f := f.seek headerSize
  let (peSig, f) ← readU32 f
  .rejectIf (peSig ≠ peSignature) (.error (.invalidPe "bad PE signature"))
  let f := f.seek (headerSize + 24)
  let (optMagic, f) ← readU16 f
  .rejectIf (optMagic ≠ pe32plusMagic ∧ optMagic ≠ pe32Magic)
    (.error (.invalidPe ("unknown optional header magic: 0x" ++ hexUpper 4 optMagic)))
  let pe32plus := optMagic == pe32plusMagic
  let f := f.seek (headerSize + 116 + pe32plusOffset pe32plus)
  let (nrvas, f) ← readU32 f
  .rejectIf (nrvas < 5) (.error (.invalidPe "PE file has no certificate table resource"))
  let certTableOffset := headerSize + 152 + pe32plusOffset pe32plus
  let f := f.seek certTableOffset
  let (sigpos, f) ← readU32 f
  let (siglen, _) ← readU32 f
  let (sigpos, siglen) ← .ofExcept (signatureDirectory b sigpos siglen filesize)
  pure {
    pe32plus, headerSize
    checksumOffset := headerSize + 88
    certTableOffset, sigpos, siglen
    fileend := filesize }

abbrev Hasher := Bytes

def Hasher.update (h : Hasher) (x : Bytes) : Hasher := h ++ x

def bufferSize : Nat := 65536

/-- Each round reads at least one byte, so `remaining` rounds are enough. -/
def hashLoop : Nat → File → Hasher → Nat → Proc Hasher
  | 0, _, hasher, _ => pure hasher
  | rounds + 1, f, hasher, remaining =>
    if remaining = 0 then pure hasher
    else do
      let (buf, f) ← f.read (min remaining bufferSize)
      if buf = [] then pure hasher
      else hashLoop rounds f (hasher.update buf) (remaining - buf.length)

def hashRange (f : File) (hasher : Hasher) (start stop : Nat) : Proc Hasher :=
  if stop ≤ start then pure hasher
  else hashLoop (stop - start) (f.seek start) hasher (stop - start)

def authenticodeDigest (f : File) (pe : PeInfo) (hasher : Hasher) : Proc Hasher := do
  let fileend := if pe.sigpos > 0 then pe.sigpos else pe.fileend
  let hasher ← hashRange f hasher 0 pe.checksumOffset
  let hasher ← hashRange f hasher (pe.checksumOffset + 4) pe.certTableOffset
  let hasher ← hashRange f hasher (pe.certTableOffset + 8) fileend
  let pad := (8 - fileend % 8) % 8
  pure (if pad > 0 then hasher.update (zeros pad) else hasher)

/-- The table walk. Nothing bounds its rounds, so the bound is the caller's. -/
def extractLoop (b : Build) (f : File) (pe : PeInfo) : Nat → Nat → Proc (Option Bytes)
  | 0, pos => if pos < pe.siglen then .fail .fuel else pure none
  | rounds + 1, pos =>
    if pos < pe.siglen then do
      let start ← .ofExcept (b.add pe.sigpos pos)
      let f := f.seek start
      let (len, f) ← readU32 f
      .rejectIf (len < 8)
        (.error (.invalidPe ("malformed WIN_CERTIFICATE: length " ++ toString len ++ " < 8")))
      let (revision, f) ← readU16 f
      let (certType, f) ← readU16 f
      if revision = winCertRevision20 ∧ certType = winCertTypePkcsSignedData then do
        let (der, _) ← f.readExact (len - 8)
        pure (some der)
      else do
        let aligned ← .ofExcept (b.add len ((8 - len % 8) % 8))
        let pos ← .ofExcept (b.add pos aligned)
        extractLoop b f pe rounds pos
    else pure none

def extractSignature (b : Build) (rounds : Nat) (f : File) (pe : PeInfo) : Proc (Option Bytes) :=
  if pe.sigpos = 0 ∨ pe.siglen = 0 then pure none
  else extractLoop b f pe rounds 0

def copyLoop : Nat → File → File → Nat → Proc Unit
  | 0, _, _, _ => pure ()
  | rounds + 1, src, dst, remaining =>
    if remaining = 0 then pure ()
    else do
      let (buf, src) ← src.read (min remaining bufferSize)
      if buf = [] then pure ()
      else do
        let dst ← dst.writeAll buf
        copyLoop rounds src dst (remaining - buf.length)

def copyRange (src dst : File) (start stop : Nat) : Proc Unit :=
  if stop ≤ start then pure ()
  else copyLoop (stop - start) (src.seek start) (dst.seek start) (stop - start)

def checksumWord (b : Build) (checksumOffset : Nat) (checksum offset : Nat) (lo hi : UInt8) :
    Res (Nat × Nat) := do
  let skip ←
    if offset = asU32 checksumOffset then pure true
    else do
      let next ← b.add (asU32 checksumOffset) 2
      pure (offset == next)
  let val := if skip then 0 else ofLe [lo, hi]
  let checksum ← b.add checksum val
  let checksum ← b.add (checksum &&& 0xFFFF) (checksum >>> 16)
  let offset ← b.add offset 2
  pure (checksum, offset)

/-- The pairs of one buffer; an odd last byte is left out. -/
def checksumPairs (b : Build) (checksumOffset : Nat) : Nat × Nat → Bytes → Res (Nat × Nat)
  | (checksum, offset), lo :: hi :: rest => do
    let next ← checksumWord b checksumOffset checksum offset lo hi
    checksumPairs b checksumOffset next rest
  | state, _ => pure state

def checksumLoop (b : Build) (checksumOffset : Nat) :
    Nat → File → Nat × Nat → Proc (Nat × Nat)
  | 0, _, state => pure state
  | rounds + 1, f, state => do
    let (buf, f) ← f.read bufferSize
    if buf = [] then pure state
    else do
      let state ← .ofExcept (checksumPairs b checksumOffset state buf)
      checksumLoop b checksumOffset rounds f state

def peCalcChecksum (b : Build) (f : File) (checksumOffset : Nat) : Proc Nat := do
  let f ← f.seekEnd
  let fileLen := asU32 f.pos
  let rounds := f.pos + 1
  let f := f.seek 0
  let (checksum, _) ← checksumLoop b checksumOffset rounds f (0, 0)
  let checksum ← .ofExcept (b.add (checksum &&& 0xFFFF) (checksum >>> 16))
  .ofExcept (b.add checksum fileLen)

def writePadding (output : File) (pad : Nat) : Proc File :=
  if pad > 0 then output.writeAll (zeros pad) else pure output

def writeSignedPeTo (b : Build) (input output : File) (pe : PeInfo) (pkcs7Der : Bytes) :
    Proc Unit := do
  let dataEnd := if pe.sigpos > 0 then pe.sigpos else pe.fileend
  copyRange input output 0 dataEnd
  let output := output.seek pe.checksumOffset
  let output ← output.writeAll (zeros 4)
  let output := output.seek pe.certTableOffset
  let output ← output.writeAll (zeros 8)
  let output ← output.seekEnd
  let fileLen := output.pos
  let filePad := (8 - fileLen % 8) % 8
  let output ← writePadding output filePad
  let newSigpos := asU32 output.pos
  let sigPad := (8 - pkcs7Der.length % 8) % 8
  let totalCertLen := asU32 (pkcs7Der.length + 8 + sigPad)
  let output ← output.writeAll (le 4 totalCertLen)
  let output ← output.writeAll (le 2 winCertRevision20)
  let output ← output.writeAll (le 2 winCertTypePkcsSignedData)
  let output ← output.writeAll pkcs7Der
  let output ← writePadding output sigPad
  let output := output.seek pe.certTableOffset
  let output ← output.writeAll (le 4 newSigpos)
  let output ← output.writeAll (le 4 totalCertLen)
  let checksum ← peCalcChecksum b output pe.checksumOffset
  let output := output.seek pe.checksumOffset
  let _ ← output.writeAll (le 4 checksum)
  pure ()

def writeSignedPe (b : Build) (input : File) (outputPath : Path) (pe : PeInfo)
    (pkcs7Der : Bytes) : Proc Unit := do
  let output ← createTruncate outputPath
  writeSignedPeTo b input output pe pkcs7Der

def writeUnsignedPeTo (b : Build) (input output : File) (pe : PeInfo) : Proc Unit := do
  .rejectIf (pe.sigpos = 0) (.error .noSignature)
  copyRange input output 0 pe.sigpos
  let output := output.seek pe.checksumOffset
  let output ← output.writeAll (zeros 4)
  let output := output.seek pe.certTableOffset
  let output ← output.writeAll (zeros 8)
  let checksum ← peCalcChecksum b output pe.checksumOffset
  let output := output.seek pe.checksumOffset
  let _ ← output.writeAll (le 4 checksum)
  pure ()

def writeUnsignedPe (b : Build) (input : File) (outputPath : Path) (pe : PeInfo) : Proc Unit := do
  let output ← createTruncate outputPath
  writeUnsignedPeTo b input output pe

end Rsigncode
