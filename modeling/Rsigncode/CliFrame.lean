import Rsigncode.Cli
import Rsigncode.PePaths
import Rsigncode.SignVerify

/-! What a command changes: the file it is told to write, when it gets that far. -/
namespace Rsigncode

open FileStore

section Pe

theorem copyLoop_others {p : Path} (rounds : Nat) (src : File) {dst : File} (remaining : Nat)
    (here : dst.path = p) : Prog.Within (Others p) (copyLoop rounds src dst remaining) := by
  induction rounds generalizing src dst remaining with
  | zero => exact Prog.within_pure (Others.refl p) ()
  | succ rounds ih =>
    rw [copyLoop]
    split
    · exact Prog.within_pure (Others.refl p) ()
    · have look : Prog.Within (Others p) (src.read (min remaining bufferSize) : Proc _) :=
        fun s => SameFiles.others p (read_sameFiles _ _ s)
      refine look.bind (Others.trans p) ?_
      rintro ⟨buf, src⟩
      dsimp only
      split
      · exact Prog.within_pure (Others.refl p) ()
      · exact writeAll_others here fun dst here => ih src _ here

theorem copyRange_others {p : Path} (src : File) {dst : File} (start stop : Nat)
    (here : dst.path = p) : Prog.Within (Others p) (copyRange src dst start stop) := by
  rw [copyRange]
  split
  · exact Prog.within_pure (Others.refl p) ()
  · exact copyLoop_others _ _ _ here

theorem writePadding_others {p : Path} {f : File} {n : Nat} {rest : File → Proc Unit}
    (here : f.path = p) (next : ∀ g : File, g.path = p → Prog.Within (Others p) (rest g)) :
    Prog.Within (Others p) (writePadding f n >>= rest) := by
  unfold writePadding
  split
  · exact writeAll_others here next
  · exact next f here

theorem storeChecksum_others (b : Build) {p : Path} {output : File} (cso : Nat)
    (here : output.path = p) : Prog.Within (Others p) (storeChecksum b output cso) := by
  have look : Prog.Within (Others p) (peCalcChecksum b output cso) :=
    fun s => SameFiles.others p (peCalcChecksum_sameFiles b output cso s)
  exact look.bind (Others.trans p) fun _ =>
    writeAll_others here fun _ _ => Prog.within_pure (Others.refl p) ()

theorem writeSignedPeTo_others (b : Build) {p : Path} (input : File) {output : File}
    (pe : PeInfo) (d : Bytes) (here : output.path = p) :
    Prog.Within (Others p) (writeSignedPeTo b input output pe d) := by
  refine (copyRange_others input 0 _ here).bind (Others.trans p) fun _ => ?_
  refine writeAll_others here fun _ here => writeAll_others here fun _ here =>
    seekEnd_others here fun _ here => writePadding_others here fun _ here =>
    writeAll_others here fun _ here => writeAll_others here fun _ here =>
    writeAll_others here fun _ here => writeAll_others here fun _ here =>
    writePadding_others here fun _ here => writeAll_others here fun _ here =>
    writeAll_others here fun _ here => storeChecksum_others b _ here

theorem writeUnsignedPeTo_others (b : Build) {p : Path} (input : File) {output : File}
    (pe : PeInfo) (here : output.path = p) :
    Prog.Within (Others p) (writeUnsignedPeTo b input output pe) := by
  have test : Prog.Within (Others p)
      (Prog.rejectIf (pe.sigpos = 0) (.error .noSignature) : Proc Unit) := by
    unfold Prog.rejectIf
    split
    · exact Prog.within_fail (Others.refl p) _
    · exact Prog.within_pure (Others.refl p) ()
  refine test.bind (Others.trans p) fun _ =>
    (copyRange_others input 0 _ here).bind (Others.trans p) fun _ => ?_
  exact writeAll_others here fun _ here => writeAll_others here fun _ here =>
    storeChecksum_others b _ here

theorem createTruncate_then {p : Path} {rest : File → Proc Unit}
    (next : ∀ f : File, f.path = p → Prog.Within (Others p) (rest f)) :
    Prog.Within (Others p) (createTruncate p >>= rest) := by
  refine Prog.Within.bind_returned (Others.trans p) (createTruncate_others p) ?_
  intro s f t run
  cases run
  exact next _ rfl

theorem writeSignedPe_others (b : Build) (input : File) (p : Path) (pe : PeInfo) (d : Bytes) :
    Prog.Within (Others p) (writeSignedPe b input p pe d) :=
  createTruncate_then fun _ here => writeSignedPeTo_others b input pe d here

theorem writeUnsignedPe_others (b : Build) (input : File) (p : Path) (pe : PeInfo) :
    Prog.Within (Others p) (writeUnsignedPe b input p pe) :=
  createTruncate_then fun _ here => writeUnsignedPeTo_others b input pe here

theorem writeSignedPe_never (b : Build) (input : File) (p : Path) (pe : PeInfo) (d : Bytes)
    (e : Error) : Prog.Never (.error e) (writeSignedPe b input p pe d) := by
  have padding : ∀ (f : File) (n : Nat), Prog.Never (.error e) (writePadding f n) := by
    intro f n
    unfold writePadding
    split
    · exact writeAll_never _ _ _
    · exact Prog.never_pure f
  refine Prog.Never.bind (fun _ h => nomatch h) fun output => ?_
  exact (copyRange_never _ _ _ _ _).bind fun _ => (writeAll_never _ _ _).bind fun _ =>
    (writeAll_never _ _ _).bind fun _ => (seekEnd_never _ _).bind fun _ =>
    (padding _ _).bind fun _ => (writeAll_never _ _ _).bind fun _ =>
    (writeAll_never _ _ _).bind fun _ => (writeAll_never _ _ _).bind fun _ =>
    (writeAll_never _ _ _).bind fun _ => (padding _ _).bind fun _ =>
    (writeAll_never _ _ _).bind fun _ => (writeAll_never _ _ _).bind fun _ =>
    (peCalcChecksum_never _ _ _ e).bind fun _ => (writeAll_never _ _ _).bind fun _ =>
    Prog.never_pure ()

end Pe

section Steps
variable {T α β : Type}

def OnFiles (R : Store → Store → Prop) (w w' : World T) : Prop := R w.store w'.store

theorem OnFiles.trans {R : Store → Store → Prop} (trans : ∀ a b c, R a b → R b c → R a c)
    (a b c : World T) (h : OnFiles R a b) (g : OnFiles R b c) : OnFiles R a c :=
  trans a.store b.store c.store h g

def Looks (x : Command T α) : Prop := Prog.Within (OnFiles SameFiles) x

def Halt.IsFailed (h : Halt) : Prop := ∃ context cause, h = .failed context cause

/-- The step changes the file at `out` alone, and no file where it ends in one of these ways. -/
structure Careful (refusal : Halt → Prop) (out : Path) (x : Command T α) : Prop where
  others : Prog.Within (OnFiles (Others out)) x
  refuses : Prog.Refuses refusal (OnFiles SameFiles) x

theorem looks_onStore {context : Option String} {x : Proc α} (h : Prog.Within SameFiles x) :
    Looks (T := T) (onStore context x) := h.zoom fun _ _ same => same

theorem looks_loading {context : Option String} {x : Loading α}
    (h : Prog.Within SameFiles x) : Looks (T := T) (loading context x) :=
  h.zoom fun _ _ same => same

theorem looks_onNetwork {context : Option String} (x : Prog (Network T) Fault α) :
    Looks (onNetwork context x) :=
  Prog.Within.zoom (R := fun _ _ => True) (fun _ => trivial) fun w _ _ => SameFiles.refl w.store

theorem looks_pure (a : α) : Looks (T := T) (pure a) :=
  Prog.within_pure (fun w => SameFiles.refl w.store) a

theorem looks_fail (h : Halt) : Looks (T := T) (.fail h : Command T α) :=
  Prog.within_fail (fun w => SameFiles.refl w.store) h

theorem looks_present (text : String) (x : Option α) : Looks (T := T) (present text x) := by
  cases x with
  | none => exact looks_fail _
  | some a => exact looks_pure a

theorem Looks.bind {x : Command T α} {f : α → Command T β} (hx : Looks x)
    (hf : ∀ a, Looks (f a)) : Looks (x >>= f) :=
  Prog.Within.bind (OnFiles.trans SameFiles.trans) hx hf

theorem Looks.others {out : Path} {x : Command T α} (hx : Looks x) :
    Prog.Within (OnFiles (Others out)) x := by
  intro w
  have same : SameFiles w.store (x.run w).2.store := hx w
  exact same.others out

theorem Careful.after_look {refusal : Halt → Prop} {out : Path} {x : Command T α}
    {f : α → Command T β} (hx : Looks x) (hf : ∀ a, Careful refusal out (f a)) :
    Careful refusal out (x >>= f) where
  others := Prog.Within.bind (OnFiles.trans (Others.trans out)) hx.others fun a => (hf a).others
  refuses := Prog.Refuses.bind (OnFiles.trans SameFiles.trans) hx fun a => (hf a).refuses

theorem println_never (lines : List String) (h : Halt) :
    Prog.Never h (println lines : Command T Unit) := fun _ failed => nomatch failed

theorem eprintln_never (line : String) (h : Halt) :
    Prog.Never h (eprintln line : Command T Unit) := fun _ failed => nomatch failed

theorem looks_println (lines : List String) : Looks (println lines : Command T Unit) :=
  fun w => SameFiles.refl w.store

theorem looks_eprintln (line : String) : Looks (eprintln line : Command T Unit) :=
  fun w => SameFiles.refl w.store

/-- Writing comes last but for the message on it, and is not refused. -/
theorem careful_write {refusal : Halt → Prop} {out : Path} {x : Command T Unit}
    (others : Prog.Within (OnFiles (Others out)) x) (never : ∀ h, refusal h → Prog.Never h x)
    (line : String) : Careful refusal out (x >>= fun _ => eprintln line) where
  others := Prog.Within.bind (OnFiles.trans (Others.trans out)) others
    fun _ => (looks_eprintln line).others
  refuses := (Prog.refuses_of_never never).bind_never fun _ h _ => eprintln_never line h

theorem careful_fsWrite {out : Path} (d : Bytes) (line : String) :
    Careful (T := T) Halt.IsFailed out (fsWrite out d >>= fun _ => eprintln line) := by
  refine careful_write (fun w => ?_) (fun h _ w failed => ?_) line
  · exact setData_others out w.store d
  · cases failed

theorem careful_writeSignedPe (context : Option String) (b : Build) (input : File) (out : Path)
    (pe : PeInfo) (d : Bytes) (line : String) :
    Careful (T := T) Halt.IsFailed out (onStore context (writeSignedPe b input out pe d) >>=
      fun _ => eprintln line) := by
  have others := writeSignedPe_others b input out pe d
  refine careful_write (others.zoom fun w t h => ?_) ?_ line
  · exact h
  rintro _ ⟨c, cause, rfl⟩
  refine Prog.Never.zoom fun fault same => ?_
  cases fault with
  | error e => exact writeSignedPe_never b input out pe d e
  | panic => cases same
  | fuel => cases same

def Halt.IsOther (h : Halt) : Prop :=
  h.IsFailed ∧ ∀ context, h ≠ .failed context (.library .noSignature)

theorem careful_writeUnsignedPe (context : Option String) (b : Build) (input : File) (out : Path)
    (pe : PeInfo) (line : String) :
    Careful (T := T) Halt.IsOther out (onStore context (writeUnsignedPe b input out pe) >>=
      fun _ => eprintln line) := by
  have others := writeUnsignedPe_others b input out pe
  refine careful_write (others.zoom fun w t h => ?_) ?_ line
  · exact h
  rintro _ ⟨⟨c, cause, rfl⟩, other⟩
  refine Prog.Never.zoom fun fault same => ?_
  cases fault with
  | error e =>
    obtain ⟨rfl, rfl⟩ := Halt.failed.inj same
    by_cases unsigned : pe.sigpos = 0
    · intro s failed
      rw [writeUnsignedPe_refused unsigned] at failed
      cases failed
      exact other context rfl
    · exact Prog.Never.bind (fun _ h => nomatch h)
        fun output => writeUnsignedPeTo_never b input output e unsigned
  | panic => cases same
  | fuel => cases same

end Steps

section Loading
variable {Key Cert : Type} (cli : CliCrates Key Cert)

theorem fsRead_inspects (refused : Cause) (p : Path) : Inspects (fsRead refused p) := by
  refine ⟨fun files => (files p).elim (.error refused) .ok, fun s => ?_⟩
  cases here : s.files p <;> simp only [fsRead, here, Option.elim]

theorem certificateError_inspects {α : Type} (text : String) (x : Except String α) :
    Inspects (certificateError text x) := by
  cases x with
  | error e => exact inspects_fail _
  | ok a => exact inspects_pure a

theorem firstCert_inspects (certs : List Cert) : Inspects (firstCert certs) := by
  cases certs with
  | nil => exact inspects_fail _
  | cons cert certs => exact inspects_pure _

theorem KeyMaterial.fromPem_inspects (certPath keyPath : Path) :
    Inspects (KeyMaterial.fromPem cli certPath keyPath) :=
  (fsRead_inspects _ _).bind fun _ => (fsRead_inspects _ _).bind fun _ =>
    (certificateError_inspects _ _).bind fun _ => (firstCert_inspects _).bind fun _ =>
    (certificateError_inspects _ _).bind fun _ => inspects_pure _

theorem KeyMaterial.addExtraCertsPem_inspects (km : KeyMaterial Key Cert) (path : Path) :
    Inspects (km.addExtraCertsPem cli path) :=
  (fsRead_inspects _ _).bind fun _ => (certificateError_inspects _ _).bind fun _ =>
    inspects_pure _

theorem loadPemCerts_inspects (path : Path) : Inspects (loadPemCerts cli path) :=
  (fsRead_inspects _ _).bind fun _ => (certificateError_inspects _ _).bind fun _ =>
    (inspects_rejectIf _ _).bind fun _ => inspects_pure _

end Loading

theorem verifyPeRich_looks (crates : Crates) (opts : VerifyOptions crates.Cert) (b : Build)
    (rounds : Nat) (f : File) :
    Prog.Within SameFiles (verifyPeRich crates opts b rounds f) :=
  (parsePe_inspects b f).within.bind SameFiles.trans fun pe =>
    (extractSignature_inspects b rounds f pe).within.bind SameFiles.trans fun _ =>
    (Prog.within_ofExcept SameFiles.refl _).bind SameFiles.trans fun _ =>
    (Prog.within_ofExcept SameFiles.refl _).bind SameFiles.trans fun blobs =>
    Prog.Within.bind SameFiles.trans
      (fun s => (verifyBlobs_yields f pe 0 blobs s).sameFiles)
      fun _ => Prog.within_pure SameFiles.refl _

section Commands
variable {Key D S : Type} {sys : Platform Key D S}

namespace Platform

theorem looks_openInput (infile : Path) : Looks (sys.openInput infile) :=
  (looks_loading (fsRead_inspects _ _).within).bind fun _ => looks_pure _

theorem looks_parseInput (input : File) : Looks (sys.parseInput input) :=
  looks_onStore (parsePe_inspects sys.build input).within

theorem looks_ofExcept {α : Type} (context : Option String) (r : Res α) :
    Looks (onStore context (.ofExcept r) : sys.Run α) :=
  looks_onStore (Prog.within_ofExcept SameFiles.refl r)

theorem looks_digest (context : Option String) (f : File) (pe : PeInfo) (algo : HashAlgorithm) :
    Looks (onStore context (peDigest sys.crates f pe algo) : sys.Run Bytes) :=
  looks_onStore fun s => (peDigest_yields f pe algo s).sameFiles

theorem looks_extract (context : Option String) (f : File) (pe : PeInfo) :
    Looks (onStore context (extractSignature sys.build (sys.rounds + 1) f pe) : sys.Run _) :=
  looks_onStore (extractSignature_inspects sys.build (sys.rounds + 1) f pe).within

theorem looks_optionally {α β : Type} {x : Option α} {d : β} {f : α → sys.Run β}
    (hf : ∀ a, Looks (f a)) : Looks (sys.optionally x d f) := by
  cases x with
  | none => exact looks_pure d
  | some a => exact hf a

theorem looks_rejectIf (c : Prop) [Decidable c] (h : Halt) :
    Looks (.rejectIf c h : sys.Run Unit) := by
  unfold Prog.rejectIf
  split
  · exact looks_fail h
  · exact looks_pure ()

theorem careful_writeOut (pem : Bool) (outfile : Path) (der : Bytes) (line : String) :
    Careful Halt.IsFailed outfile (sys.writeOut pem outfile der >>= fun _ => eprintln line) := by
  unfold writeOut
  split <;> exact careful_fsWrite _ line

theorem careful_cmdSign (args : SignArgs) :
    Careful Halt.IsFailed args.outfile (sys.cmdSign args) :=
  .after_look (looks_ofExcept _ _) fun _ => .after_look (looks_present _ _) fun _ =>
    .after_look (looks_present _ _) fun _ =>
    .after_look (looks_loading (KeyMaterial.fromPem_inspects _ _ _).within) fun km =>
    .after_look (looks_optionally fun ac =>
      looks_loading (km.addExtraCertsPem_inspects _ ac).within) fun _ =>
    .after_look (looks_openInput _) fun _ => .after_look (looks_parseInput _) fun _ =>
    .after_look (looks_digest _ _ _ _) fun _ => .after_look (looks_onNetwork _) fun _ =>
    careful_writeSignedPe _ _ _ _ _ _ _

theorem looks_cmdVerify (args : VerifyArgs) : Looks (sys.cmdVerify args) := by
  refine (looks_openInput _).bind fun _ =>
    (looks_optionally fun _ => looks_loading (loadPemCerts_inspects _ _).within).bind fun _ =>
    (looks_optionally fun _ => looks_loading (loadPemCerts_inspects _ _).within).bind fun _ =>
    (looks_onStore (verifyPeRich_looks _ _ _ _ _)).bind fun result =>
    (looks_println _).bind fun _ => ?_
  split
  · exact looks_println _
  · exact looks_fail _

theorem careful_cmdExtractData (args : ExtractDataArgs) :
    Careful Halt.IsFailed args.outfile (sys.cmdExtractData args) :=
  .after_look (looks_ofExcept _ _) fun _ => .after_look (looks_openInput _) fun _ =>
    .after_look (looks_parseInput _) fun _ => .after_look (looks_digest _ _ _ _) fun _ =>
    .after_look (looks_ofExcept _ _) fun _ => careful_writeOut _ _ _ _

theorem careful_cmdExtractSignature (args : ExtractSignatureArgs) :
    Careful Halt.IsFailed args.outfile (sys.cmdExtractSignature args) :=
  .after_look (looks_openInput _) fun _ => .after_look (looks_parseInput _) fun _ =>
    .after_look (looks_extract _ _ _) fun _ => .after_look (looks_present _ _) fun _ =>
    careful_writeOut _ _ _ _

theorem careful_cmdAttachSignature (args : AttachSignatureArgs) :
    Careful Halt.IsFailed args.outfile (sys.cmdAttachSignature args) :=
  .after_look (looks_loading (fsRead_inspects _ _).within) fun _ =>
    .after_look (looks_ofExcept _ _) fun _ => .after_look (looks_openInput _) fun _ =>
    .after_look (looks_parseInput _) fun _ => careful_writeSignedPe _ _ _ _ _ _ _

theorem careful_cmdRemoveSignature (args : RemoveSignatureArgs) :
    Careful Halt.IsOther args.outfile (sys.cmdRemoveSignature args) :=
  .after_look (looks_openInput _) fun _ => .after_look (looks_parseInput _) fun _ =>
    careful_writeUnsignedPe _ _ _ _ _ _

theorem careful_cmdAdd (args : AddArgs) : Careful Halt.IsFailed args.outfile (sys.cmdAdd args) :=
  .after_look (looks_rejectIf _ _) fun _ => .after_look (looks_openInput _) fun _ =>
    .after_look (looks_parseInput _) fun _ => .after_look (looks_extract _ _ _) fun _ =>
    .after_look (looks_present _ _) fun _ => .after_look (looks_onNetwork _) fun _ =>
    careful_writeSignedPe _ _ _ _ _ _ _

end Platform

def Invocation.outfile : Invocation → Option Path
  | .sign args => some args.outfile
  | .verify _ => none
  | .extractData args => some args.outfile
  | .extractSignature args => some args.outfile
  | .attachSignature args => some args.outfile
  | .removeSignature args => some args.outfile
  | .add args => some args.outfile

/-- The `Err`s that a command returns before it has opened its output. A removal opens it
before it looks for the signature. -/
def Invocation.Refusal (inv : Invocation) (h : Halt) : Prop :=
  h.IsFailed ∧ ∀ args context, inv = .removeSignature args →
    h ≠ .failed context (.library .noSignature)

def Invocation.Writes (inv : Invocation) (r : Except Halt Unit) (p : Path) : Prop :=
  inv.outfile = some p ∧ ∀ h, r = .error h → ¬ inv.Refusal h

theorem Careful.mono {refusal refusal' : Halt → Prop} {out : Path} {x : sys.Run Unit}
    (h : Careful refusal out x) (fewer : ∀ e, refusal' e → refusal e) :
    Careful refusal' out x :=
  ⟨h.others, fun s t e run refused => h.refuses s t e run (fewer e refused)⟩

theorem careful_main {inv : Invocation} {out : Path} (told : inv.outfile = some out) :
    Careful inv.Refusal out (sys.main inv) := by
  have failed : ∀ e, inv.Refusal e → e.IsFailed := fun _ h => h.1
  cases inv <;> cases told
  case sign args => exact (sys.careful_cmdSign args).mono failed
  case extractData args => exact (sys.careful_cmdExtractData args).mono failed
  case extractSignature args => exact (sys.careful_cmdExtractSignature args).mono failed
  case attachSignature args => exact (sys.careful_cmdAttachSignature args).mono failed
  case removeSignature args =>
    exact (sys.careful_cmdRemoveSignature args).mono fun _ h => ⟨h.1, fun c => h.2 args c rfl⟩
  case add args => exact (sys.careful_cmdAdd args).mono failed

theorem main_spares {inv : Invocation} {w : World (SignedData sys.crates.Cert D S)} {p : Path}
    (spared : ¬ inv.Writes ((sys.main inv).run w).1 p) :
    ((sys.main inv).run w).2.store.files p = w.store.files p := by
  cases told : inv.outfile with
  | none =>
    cases inv with
    | verify args => exact congrFun (sys.looks_cmdVerify args w) p
    | _ => cases told
  | some out =>
    by_cases here : p = out
    · subst here
      by_contra changed
      refine spared ⟨told, fun h ended refused => changed ?_⟩
      exact congrFun ((careful_main told).refuses w _ h (Prod.ext ended rfl) refused) p
    · exact (careful_main told).others w p here

/-- A session: commands one after the other, with how each ended. What each of them leaves
is allowed. -/
inductive Session (sys : Platform Key D S)
    (allowed : World (SignedData sys.crates.Cert D S) → Prop)
    (w : World (SignedData sys.crates.Cert D S)) :
    List (Invocation × Except Halt Unit) → World (SignedData sys.crates.Cert D S) → Prop where
  | start : Session sys allowed w [] w
  | step {done : List (Invocation × Except Halt Unit)}
      {v : World (SignedData sys.crates.Cert D S)} (inv : Invocation)
      (session : Session sys allowed w done v) (fits : allowed ((sys.main inv).run v).2) :
      Session sys allowed w (done ++ [(inv, ((sys.main inv).run v).1)]) ((sys.main inv).run v).2

/-- In a session, a file changes only by a command that is told to write it and that does
not refuse: an `Err` is harmless, except where a signature to remove is missing. -/
theorem session_spares {allowed : World (SignedData sys.crates.Cert D S) → Prop}
    {w v : World (SignedData sys.crates.Cert D S)}
    {done : List (Invocation × Except Halt Unit)} (session : Session sys allowed w done v)
    {p : Path} (spared : ∀ call ∈ done, ¬ call.1.Writes call.2 p) :
    v.store.files p = w.store.files p := by
  induction session with
  | start => rfl
  | step inv session fits ih =>
    rw [List.forall_mem_append, List.forall_mem_singleton] at spared
    exact (main_spares spared.2).trans (ih spared.1)

end Commands

section Sample

/-- One certificate and one key, whatever the files hold. PEM is the DER behind a dash. -/
def smallPlatform : Platform Unit Unit Unit where
  crates := smallCrates
  signing := smallSigning
  cli := {
    fromPemMultiple := fun _ => .ok [[1]]
    fromDer := fun _ => .ok [1]
    fromPkcs8Pem := fun _ => .ok ()
    fromPkcs8Der := fun _ => .ok ()
    pemEncode := fun _ der => 0x2d :: der
    pemParse := fun text => if text.head? = some 0x2d then some text.tail else none
    debug := id
    display := id }
  strftime _ := ""
  build := .release
  rounds := 1
  certEq := inferInstanceAs (DecidableEq Bytes)

def smallWorld : World (SignedData Bytes Unit Unit) where
  store := workspace (smallPe 0 0) uncut
  network := ⟨fun _ => ⟨fun _ _ => .error "", fun _ _ => .error ""⟩, []⟩

def signatureWorld : World (SignedData Bytes Unit Unit) :=
  { smallWorld with store := smallWorld.store.setData "sig" smallSignature }

def attachSmall : Invocation :=
  .attachSignature { infile := "in", outfile := "out", sigin := "sig" }

def attachedWorld : World (SignedData Bytes Unit Unit) :=
  ((smallPlatform.main attachSmall).run signatureWorld).2

def addNothing : Invocation := .add { infile := "out", outfile := "in" }

theorem attachSmall_writes :
    attachedWorld.store.data "out" ≠ signatureWorld.store.data "out" := by
  decide +kernel

theorem addNothing_run (w : World (SignedData Bytes Unit Unit)) :
    (smallPlatform.main addNothing).run w =
      (.error (.failed none (.message "at least one -t or --ts URL is required")), w) := rfl

/-- The first command writes its own output, the second refuses before it opens one. -/
theorem session_spares_small :
    Session smallPlatform (fun _ => True) signatureWorld
      [(attachSmall, ((smallPlatform.main attachSmall).run signatureWorld).1),
        (addNothing, .error (.failed none (.message "at least one -t or --ts URL is required")))]
      attachedWorld ∧
    attachedWorld.store.files "in" = signatureWorld.store.files "in" ∧
    attachedWorld.store.data "out" ≠ signatureWorld.store.data "out" := by
  have first : Session smallPlatform (fun _ => True) signatureWorld
      [(attachSmall, ((smallPlatform.main attachSmall).run signatureWorld).1)] attachedWorld :=
    .step attachSmall .start trivial
  have session := Session.step addNothing first trivial
  simp only [addNothing_run, List.singleton_append] at session
  refine ⟨session, ?_, attachSmall_writes⟩
  apply session_spares session
  intro call here
  rcases List.mem_cons.mp here with rfl | here
  · rintro ⟨told, -⟩
    exact absurd (Option.some.inj told) (by decide)
  · cases List.mem_singleton.mp here
    exact fun writes => writes.2 _ rfl ⟨⟨none, _, rfl⟩, fun args context same => by cases same⟩

end Sample

end Rsigncode
