import Rsigncode.Verify

/-! The printed report: `print_verify_result`. The texts of its `println!` calls, and the lines
that they come to. -/
namespace Rsigncode

variable {Time : Type} (hexEncode : FileStore.Bytes → String) (strftime : Time → String)

def shownLine {α : Type} (text : α → String) (x : Option α) : List String := (x.map text).toList

def printTimestampInfo (ts : TimestampInfo Time) : List String :=
  "\nCountersignatures:" ::
    (shownLine (fun t => "\tTimestamp time: " ++ strftime t) ts.time ++
      shownLine ("\tHash Algorithm: " ++ ·) ts.hashAlgorithm ++
      shownLine ("\tIssuer: " ++ ·) ts.issuer ++
      shownLine ("\tSerial: " ++ ·) ts.serial)

def printFindings (sig : SignatureResult Time) : List String :=
  ("\nSignature Index: " ++ toString sig.index ++
      (if sig.index == 0 then "  (Primary Signature)" else "") ++ "\n") ::
    ("Message digest algorithm: " ++ sig.digestAlgorithm) ::
    "\nAuthenticated attributes:" ::
    ("\tMessage digest: " ++ hexEncode sig.messageDigest) ::
    (shownLine (fun t => "\tSigning time: " ++ strftime t) sig.signingTime ++
      shownLine ("\tText description: " ++ ·) sig.programName ++
      shownLine ("\tURL description: " ++ ·) sig.programUrl ++
      (sig.timestampInfo.map (printTimestampInfo strftime)).getD []) ++
    ("\nSigner's certificate:" ::
      "\t------------------" ::
      (match sig.signerSubject with
        | some subj => ["\tSigner #" ++ toString sig.index ++ ":", "\t\tSubject: " ++ subj]
        | none => [])) ++
    shownLine ("\t\tIssuer : " ++ ·) sig.signerIssuer ++
    shownLine ("\t\tSerial : " ++ ·) sig.signerSerial ++
    (if sig.notBefore.isSome || sig.notAfter.isSome then
      "\t\tCertificate expiration date:" ::
        (shownLine ("\t\t\tnotBefore : " ++ ·) sig.notBefore ++
          shownLine ("\t\t\tnotAfter : " ++ ·) sig.notAfter)
    else [])

def printChecks (sig : SignatureResult Time) : List String :=
  shownLine (fun ok => "\nLeaf hash match: " ++ if ok then "ok" else "failed") sig.leafHashOk ++
    [match sig.timestampOk with
      | some true => "\nTimestamp Server Signature verification: ok"
      | some false => "\nTimestamp Server Signature verification: failed"
      | none =>
        if sig.timestampInfo.isSome then "\nTimestamp Server Signature verification is disabled"
        else "\nTimestamp is not available"] ++
    (match sig.chainOk with
      | some true => ["Signature CRL verification: ok"]
      | some false => ["Signature CRL verification: failed"]
      | none => []) ++
    ["Signature verification: " ++ (if sig.digestOk && sig.signatureOk then "ok" else "failed") ++
      "\n"]

def printVerifyResult (result : VerifyResult Time) : List String :=
  result.signatures.flatMap (fun sig => printFindings hexEncode strftime sig ++ printChecks sig) ++
    ["Number of verified signatures: " ++ toString result.signatures.length]

def linesOf (text : String) : List String := (text.toList.splitOn '\n').map String.ofList

/-- The lines of the output. Each `println!` ends one, and nothing is behind the last. -/
def outputLines (texts : List String) : List String :=
  ((texts.flatMap fun text => text.toList ++ ['\n']).splitOn '\n').dropLast.map String.ofList

def failedLines : List String := [
  "Leaf hash match: failed",
  "Timestamp Server Signature verification: failed",
  "Signature CRL verification: failed",
  "Signature verification: failed"]

def OneLine (text : String) : Prop := '\n' ∉ text.toList

instance (text : String) : Decidable (OneLine text) := inferInstanceAs (Decidable (¬ _))

def TimestampInfo.quoted (strftime : Time → String) (ts : TimestampInfo Time) : List String :=
  (ts.time.map strftime).toList ++ ts.hashAlgorithm.toList ++ ts.issuer.toList ++ ts.serial.toList

def SignatureResult.quoted (sig : SignatureResult Time) : List String :=
  sig.digestAlgorithm :: hexEncode sig.messageDigest ::
    ((sig.signingTime.map strftime).toList ++ sig.programName.toList ++ sig.programUrl.toList ++
      (sig.timestampInfo.map (·.quoted strftime)).getD [] ++ sig.signerSubject.toList ++
      sig.signerIssuer.toList ++ sig.signerSerial.toList ++ sig.notBefore.toList ++
      sig.notAfter.toList)

variable {hexEncode strftime}

theorem outputLines_eq (texts : List String) : outputLines texts = texts.flatMap linesOf := by
  have cut : (texts.flatMap fun text => text.toList ++ ['\n']).splitOn '\n' =
      (texts.flatMap fun text => text.toList.splitOn '\n') ++ [[]] := by
    induction texts with
    | nil => rfl
    | cons text texts ih =>
      rw [List.flatMap_cons, List.append_assoc, List.singleton_append,
        List.splitOn_append_cons_self, ih, List.flatMap_cons, List.append_assoc]
  rw [outputLines, cut, List.dropLast_concat, List.map_flatMap]
  rfl

theorem linesOf_newline (a b : String) : linesOf (a ++ "\n" ++ b) = linesOf a ++ linesOf b := by
  have newline : "\n".toList = ['\n'] := by decide +kernel
  simp only [linesOf, String.toList_append, newline, List.append_assoc, List.singleton_append,
    List.splitOn_append_cons_self, List.map_append]

theorem linesOf_oneLine {text : String} (single : OneLine text) : linesOf text = [text] := by
  rw [linesOf, List.splitOn_eq_singleton single, List.map_singleton, String.ofList_toList]

theorem OneLine.append {a b : String} (first : OneLine a) (second : OneLine b) :
    OneLine (a ++ b) := by
  rw [OneLine, String.toList_append, List.mem_append]
  exact fun here => here.elim first second

theorem oneLine_toString (n : Nat) : OneLine (toString n) := by
  intro here
  rw [Nat.toString_eq_ofList_toDigits, String.toList_ofList] at here
  exact absurd (Nat.isDigit_of_mem_toDigits (by decide) (by decide) here) (by decide)

def Innocent (text : String) : Prop := ∀ line ∈ linesOf text, line ∉ failedLines

instance (text : String) : Decidable (Innocent text) := inferInstanceAs (Decidable (∀ _, _))

def beginnings : List (List Char) := [
  ['L'], ['T'],
  ['S', 'i', 'g', 'n', 'a', 't', 'u', 'r', 'e', ' ', 'C'],
  ['S', 'i', 'g', 'n', 'a', 't', 'u', 'r', 'e', ' ', 'v']]

theorem failedLines_begin : ∀ line ∈ failedLines, ∃ x ∈ beginnings, x <+: line.toList := by
  decide +kernel

def Apart (a : String) : Prop :=
  OneLine a ∧ ∀ x ∈ beginnings, ¬ (x <+: a.toList ∨ a.toList <+: x)

instance (a : String) : Decidable (Apart a) := inferInstanceAs (Decidable (_ ∧ _))

theorem innocent_quote {a b : String} (apart : Apart a) (single : OneLine b) :
    Innocent (a ++ b) := by
  rw [Innocent, linesOf_oneLine (apart.1.append single), List.forall_mem_singleton]
  intro here
  obtain ⟨x, begins, whole⟩ := failedLines_begin _ here
  rw [String.toList_append] at whole
  exact apart.2 x begins (List.prefix_or_prefix_of_prefix whole (List.prefix_append _ _))

theorem Innocent.around {text : String} (h : Innocent text) : Innocent ("\n" ++ text ++ "\n") := by
  have cut : linesOf ("" ++ "\n" ++ (text ++ "\n" ++ "")) = linesOf "" ++ (linesOf text ++
    linesOf "") := by rw [linesOf_newline, linesOf_newline]
  rw [String.empty_append, String.append_empty, ← String.append_assoc] at cut
  have blank : Innocent "" := by decide +kernel
  rw [Innocent, cut, List.forall_mem_append, List.forall_mem_append]
  exact ⟨blank, h, blank⟩

theorem shownLine_innocent {α : Type} {a : String} {text : α → String} {x : Option α}
    (apart : Apart a) (single : ∀ quote ∈ (x.map text).toList, OneLine quote) :
    ∀ line ∈ shownLine (fun v => a ++ text v) x, Innocent line := by
  cases x with
  | none => exact fun _ here => absurd here List.not_mem_nil
  | some v =>
    exact List.forall_mem_singleton.mpr (innocent_quote apart (List.forall_mem_singleton.mp single))

theorem printTimestampInfo_innocent {ts : TimestampInfo Time}
    (single : ∀ quote ∈ ts.quoted strftime, OneLine quote) :
    ∀ text ∈ printTimestampInfo strftime ts, Innocent text := by
  simp only [TimestampInfo.quoted, List.forall_mem_append] at single
  obtain ⟨⟨⟨time, hashAlgorithm⟩, issuer⟩, serial⟩ := single
  simp only [printTimestampInfo, List.forall_mem_cons, List.forall_mem_append]
  exact ⟨by decide +kernel, ⟨⟨shownLine_innocent (by decide +kernel) time,
    shownLine_innocent (by decide +kernel) (by simpa using hashAlgorithm)⟩,
    shownLine_innocent (by decide +kernel) (by simpa using issuer)⟩,
    shownLine_innocent (by decide +kernel) (by simpa using serial)⟩

theorem printFindings_innocent {sig : SignatureResult Time}
    (single : ∀ quote ∈ sig.quoted hexEncode strftime, OneLine quote) :
    ∀ text ∈ printFindings hexEncode strftime sig, Innocent text := by
  simp only [SignatureResult.quoted, List.forall_mem_cons, List.forall_mem_append] at single
  obtain ⟨digestAlgorithm, messageDigest, ⟨⟨⟨⟨⟨⟨⟨signingTime, programName⟩, programUrl⟩,
    timestampInfo⟩, signerSubject⟩, signerIssuer⟩, signerSerial⟩, notBefore⟩, notAfter⟩ := single
  have index : Innocent ("\nSignature Index: " ++ toString sig.index ++
      (if sig.index == 0 then "  (Primary Signature)" else "") ++ "\n") := by
    have heading : Innocent ("Signature Index: " ++ (toString sig.index ++
        if sig.index == 0 then "  (Primary Signature)" else "")) := by
      refine innocent_quote (by decide +kernel) ((oneLine_toString _).append ?_)
      split <;> decide +kernel
    have whole := heading.around
    simp only [← String.append_assoc] at whole
    exact whole
  have countersigned : ∀ text ∈ (sig.timestampInfo.map (printTimestampInfo strftime)).getD [],
      Innocent text := by
    cases given : sig.timestampInfo with
    | none => simp
    | some ts =>
      rw [given] at timestampInfo
      exact printTimestampInfo_innocent timestampInfo
  have subject : ∀ text ∈ (match sig.signerSubject with
      | some subj => ["\tSigner #" ++ toString sig.index ++ ":", "\t\tSubject: " ++ subj]
      | none => []), Innocent text := by
    cases given : sig.signerSubject with
    | none => simp
    | some subj =>
      rw [given] at signerSubject
      simp only [List.forall_mem_cons, String.append_assoc]
      exact ⟨innocent_quote (by decide +kernel) ((oneLine_toString _).append (by decide +kernel)),
        innocent_quote (by decide +kernel) (signerSubject _ (by simp)), by simp⟩
  have expiration : ∀ text ∈ (if sig.notBefore.isSome || sig.notAfter.isSome then
      "\t\tCertificate expiration date:" ::
        (shownLine ("\t\t\tnotBefore : " ++ ·) sig.notBefore ++
          shownLine ("\t\t\tnotAfter : " ++ ·) sig.notAfter)
      else []), Innocent text := by
    split
    · simp only [List.forall_mem_cons, List.forall_mem_append]
      exact ⟨by decide +kernel, shownLine_innocent (by decide +kernel) (by simpa using notBefore),
        shownLine_innocent (by decide +kernel) (by simpa using notAfter)⟩
    · simp
  simp only [printFindings, List.cons_append, List.forall_mem_cons, List.forall_mem_append]
  refine ⟨index, innocent_quote (by decide +kernel) digestAlgorithm, by decide +kernel,
    innocent_quote (by decide +kernel) messageDigest, ?_⟩
  exact ⟨⟨⟨⟨⟨⟨⟨shownLine_innocent (by decide +kernel) signingTime,
    shownLine_innocent (by decide +kernel) (by simpa using programName)⟩,
    shownLine_innocent (by decide +kernel) (by simpa using programUrl)⟩, countersigned⟩,
    by decide +kernel, by decide +kernel, subject⟩,
    shownLine_innocent (by decide +kernel) (by simpa using signerIssuer)⟩,
    shownLine_innocent (by decide +kernel) (by simpa using signerSerial)⟩, expiration⟩

theorem printChecks_innocent_iff (sig : SignatureResult Time) :
    (∀ text ∈ printChecks sig, Innocent text) ↔ sig.passes = true := by
  have leafHash : (∀ text ∈ shownLine (fun ok => "\nLeaf hash match: " ++
      if ok then "ok" else "failed") sig.leafHashOk, Innocent text) ↔
      sig.leafHashOk.getD true = true := by
    rcases sig.leafHashOk with _ | _ | _ <;> decide +kernel
  have timestamp : Innocent (match sig.timestampOk with
      | some true => "\nTimestamp Server Signature verification: ok"
      | some false => "\nTimestamp Server Signature verification: failed"
      | none =>
        if sig.timestampInfo.isSome then "\nTimestamp Server Signature verification is disabled"
        else "\nTimestamp is not available") ↔ sig.timestampOk.getD true = true := by
    generalize sig.timestampInfo.isSome = given
    rcases sig.timestampOk with _ | _ | _ <;> cases given <;> decide +kernel
  have chain : (∀ text ∈ (match sig.chainOk with
      | some true => ["Signature CRL verification: ok"]
      | some false => ["Signature CRL verification: failed"]
      | none => []), Innocent text) ↔ sig.chainOk.getD true = true := by
    rcases sig.chainOk with _ | _ | _ <;> decide +kernel
  have final : Innocent ("Signature verification: " ++
      (if sig.digestOk && sig.signatureOk then "ok" else "failed") ++ "\n") ↔
      (sig.digestOk && sig.signatureOk) = true := by
    cases sig.digestOk && sig.signatureOk <;> decide +kernel
  simp only [printChecks, List.forall_mem_append, List.forall_mem_singleton, leafHash, timestamp,
    chain, final]
  simp only [SignatureResult.passes, Bool.and_eq_true]
  constructor
  · rintro ⟨⟨⟨leafHashOk, timestampOk⟩, chainOk⟩, signed⟩
    exact ⟨⟨⟨signed, chainOk⟩, timestampOk⟩, leafHashOk⟩
  · rintro ⟨⟨⟨signed, chainOk⟩, timestampOk⟩, leafHashOk⟩
    exact ⟨⟨⟨leafHashOk, timestampOk⟩, chainOk⟩, signed⟩

/-- The lines of the report tell of a failed check exactly where verification fails, unless
there is no signature at all. A quoted text that breaks the line could be taken for one. -/
theorem printVerifyResult_failed_iff (result : VerifyResult Time)
    (single : ∀ sig ∈ result.signatures, ∀ quote ∈ sig.quoted hexEncode strftime, OneLine quote) :
    result.allOk = true ↔ result.signatures ≠ [] ∧
      ∀ line ∈ outputLines (printVerifyResult hexEncode strftime result), line ∉ failedLines := by
  have count : Innocent ("Number of verified signatures: " ++ toString result.signatures.length) :=
    innocent_quote (by decide +kernel) (oneLine_toString _)
  have entry : ∀ sig ∈ result.signatures, sig.passes = true ↔
      ∀ text ∈ printFindings hexEncode strftime sig ++ printChecks sig, Innocent text := by
    intro sig here
    rw [List.forall_mem_append, printChecks_innocent_iff]
    exact (and_iff_right (printFindings_innocent (single sig here))).symm
  have lines : (∀ line ∈ outputLines (printVerifyResult hexEncode strftime result),
      line ∉ failedLines) ↔
      ∀ text ∈ printVerifyResult hexEncode strftime result, Innocent text := by
    rw [outputLines_eq]
    simp only [List.mem_flatMap, forall_exists_index, and_imp, Innocent]
    exact ⟨fun all text here line => all line text here,
      fun all line text here => all text here line⟩
  rw [lines, printVerifyResult, List.forall_mem_append, List.forall_mem_singleton,
    and_iff_left count]
  simp only [VerifyResult.allOk, Bool.and_eq_true, Bool.not_eq_true', List.isEmpty_eq_false_iff,
    List.all_eq_true, List.mem_flatMap]
  refine and_congr_right fun _ => ⟨?_, ?_⟩
  · rintro all text ⟨sig, here, listed⟩
    exact (entry sig here).mp (all sig here) text listed
  · intro all sig here
    exact (entry sig here).mpr fun text listed => all text ⟨sig, here, listed⟩

def otherImage (programName : String) : VerifyResult Unit where
  signatures := [{ index := 0, programName := some programName, signatureOk := true }]

theorem printVerifyResult_failed_iff_other : (otherImage "prog").allOk = false ∧
    ∃ line ∈ outputLines (printVerifyResult (fun _ => "") (fun _ => "") (otherImage "prog")),
      line ∈ failedLines := by
  have quoted : ∀ sig ∈ (otherImage "prog").signatures,
      ∀ quote ∈ sig.quoted (fun _ => "") (fun _ => ""), OneLine quote := by decide +kernel
  have told := printVerifyResult_failed_iff (otherImage "prog") quoted
  have rejected : (otherImage "prog").allOk = false := rfl
  refine ⟨rejected, ?_⟩
  by_contra none
  push Not at none
  exact absurd (rejected.symm.trans (told.mpr ⟨List.cons_ne_nil _ _, none⟩)) (by decide)

example : "Signature CRL verification: failed" ∈ outputLines (printFindings (fun _ => "")
    (fun _ => "") { index := 0, programName := some "\nSignature CRL verification: failed" :
      SignatureResult Unit }) := by decide +kernel

end Rsigncode
