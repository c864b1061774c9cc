import Rsigncode.CliInPlace
import Rsigncode.VerifyEnds

/-! How the program can end other than with `Ok` or `Err`: it panics in the DER rewriting of
octets that it was given, and it goes on for ever in the walk through a table. -/
namespace Rsigncode

open FileStore Prog Window

/-- The fault of an `Err`, or a panic of the rewriting on octets that are among these, in a
direction that goes with them. -/
inductive Fault.Traced (R : Bytes → Bool → Prop) : Fault → Prop where
  | error (e : Error) : Traced R (.error e)
  | panic {der : Bytes} {wrap : Bool} (here : R der wrap) (overruns : Overruns der wrap) :
      Traced R .panic

section Traced
variable {R : Bytes → Bool → Prop} {α : Type}

theorem Res.Returns.traced {x : Res α} (h : x.Returns) {e : Fault} (failed : x = .error e) :
    e.Traced R := by
  rcases h with ⟨a, rfl⟩ | ⟨err, rfl⟩ <;> cases failed
  exact .error err

theorem rewrite_traced {der : Bytes} {wrap : Bool} (here : R der wrap) {e : Fault}
    (failed : rewriteAuthenticodeContent der wrap = .error e) : e.Traced R := by
  cases e with
  | error e => exact .error e
  | panic => exact .panic here (rewrite_eq_panic.mp failed)
  | fuel => exact absurd failed (rewrite_ne_fuel der wrap)

theorem mapErr_traced {x : Res α} {f : Error → Error} (h : ∀ e, x = .error e → e.Traced R)
    {e : Fault} (failed : x.mapErr f = .error e) : e.Traced R := by
  rcases x with (_ | _ | _) | _ <;> cases failed
  · exact .error _
  · exact h _ rfl
  · exact h _ rfl

end Traced

section Network
variable {R : Bytes → Bool → Prop} {Cert D S : Type}

theorem firstSignature_returns (d : SignedData Cert D S) : (firstSignature d).Returns := by
  unfold firstSignature
  split
  · exact Res.returns_error _
  · exact Res.returns_pure _

theorem pushUnsignedAttribute_fails (attr : Attribute) :
    Fails (Fault.Traced R) (pushUnsignedAttribute attr : Mutates Cert D S Unit) := by
  intro d e u run
  rw [pushUnsignedAttribute] at run
  dsimp only at run
  split at run <;> cases run
  exact .error _

variable [DecidableEq Cert]

theorem attach_fails (enc : Encoders Cert D S) (ts : Timestamp Cert D S) :
    Fails (Fault.Traced R) (ts.attach enc) := by
  cases ts with
  | rfc3161 token => exact pushUnsignedAttribute_fails _
  | authenticode tsaResponse =>
    rw [Timestamp.attach, attachAuthenticodeTimestamp]
    split
    · exact pushUnsignedAttribute_fails _
    · split
      · intro d e u run
        cases run
        exact .error _
      · refine Fails.bind (fun d e u run => ?_) fun _ _ _ _ => pushUnsignedAttribute_fails _
        rw [bringCertificates] at run
        dsimp only at run
        split at run <;> cases run

theorem apply_traced {enc : Encoders Cert D S} (ts : Timestamp Cert D S)
    {d : SignedData Cert D S} {e : Fault} (failed : Mutates.apply (ts.attach enc) d = .error e) :
    e.Traced R := by
  rw [Mutates.apply] at failed
  rcases run : (ts.attach enc).run d with ⟨e' | _, u⟩ <;> rw [run] at failed <;> cases failed
  exact attach_fails enc ts d _ u run

theorem addTimestamps_fails (crates : TimestampCrates Cert D S) {pkcs7Der : Bytes}
    (given : R pkcs7Der true) (encoded : ∀ d, R (crates.enc.signedData d) false)
    (rfc3161Urls authenticodeUrls : List String) :
    Fails (Fault.Traced R) (addTimestamps crates pkcs7Der rfc3161Urls authenticodeUrls) := by
  have tokens : ∀ signature urls d,
      Fails (Fault.Traced R) (addRfc3161 crates signature urls d) := by
    intro signature urls d
    unfold addRfc3161
    split
    · exact fails_pure d
    · refine (Retry.Attempts.firstOk_fails (fun i servers e failed => ?_) (.error _) _).bind
        fun _ token _ _ => fails_ofExcept fun e failed => ?_
      · exact (requestRfc3161_returns servers signature i.1).traced failed
      · exact apply_traced (.rfc3161 token) failed
  have responses : ∀ signature urls d,
      Fails (Fault.Traced R) (addAuthenticode crates signature urls d) := by
    intro signature urls d
    unfold addAuthenticode
    split
    · exact fails_pure d
    · refine (Retry.Attempts.firstOk_fails (fun url servers e failed => ?_) (.error _) _).bind
        fun _ response _ _ => fails_ofExcept fun e failed => ?_
      · exact (requestAuthenticode_returns (crates.served servers) signature url).traced failed
      · exact apply_traced (.authenticode response) failed
  unfold addTimestamps
  split
  · exact fails_pure pkcs7Der
  · refine (fails_ofExcept fun e failed => ?_).bind fun _ _ _ _ =>
      (fails_ofExcept fun e failed => ?_).bind fun _ d _ _ =>
      (fails_ofExcept fun e failed => ?_).bind fun _ signature _ _ =>
      (tokens signature _ d).bind fun _ d _ _ => (responses signature _ d).bind fun _ d _ _ =>
      (fails_ofExcept fun e failed => ?_).bind fun _ _ _ made => fails_ofExcept fun e failed => ?_
    · exact mapErr_traced (fun e => rewrite_traced given) failed
    · exact (mapErr_returns _ _ _).traced failed
    · exact (firstSignature_returns d).traced failed
    · cases failed
    · cases made
      exact rewrite_traced (encoded d) failed

end Network

section Signing

theorem fromName_returns (name : String) : (HashAlgorithm.fromName name).Returns := by
  unfold HashAlgorithm.fromName
  split
  · exact Res.returns_ok _
  · exact Res.returns_ok _
  · exact Res.returns_ok _
  · exact Res.returns_ok _
  · exact Res.returns_error _

theorem orRefused_returns {α : Type} (crate : DerCrate) (text : String) (call : DerCall)
    (given : Bytes) (x : Option α) : (orRefused crate text call given x).Returns := by
  cases x with
  | none => exact Res.returns_error _
  | some a => exact Res.returns_ok a

theorem buildSpcIndirectData_returns (crate : DerCrate) (digest : Bytes) (opts : SigningOptions) :
    (buildSpcIndirectData crate digest opts).Returns := by
  have refused := fun {α : Type} => orRefused_returns (α := α) crate
  exact (refused _ _ _ _).bind fun _ _ => (refused _ _ _ _).bind fun _ _ =>
    (refused _ _ _ _).bind fun _ _ => (refused _ _ _ _).bind fun _ _ =>
    (refused _ _ _ _).bind fun _ _ => (refused _ _ _ _).bind fun _ _ => refused _ _ _ _

theorem optionally_returns {α β : Type} (x : Option α) {f : α → Res β}
    (h : ∀ a, (f a).Returns) : (optionally x f).Returns := by
  cases x with
  | none => exact Res.returns_pure _
  | some a => exact (h a).bind fun _ _ => Res.returns_pure _

theorem buildOpusInfo_returns (crate : DerCrate) (opts : SigningOptions) :
    (buildOpusInfo crate opts).Returns :=
  (optionally_returns _ fun _ => (orRefused_returns crate _ _ _ _).bind fun _ _ =>
    Res.returns_pure _).bind fun _ _ =>
  (optionally_returns _ fun _ => (orRefused_returns crate _ _ _ _).bind fun _ _ =>
    Res.returns_pure _).bind fun _ _ => orRefused_returns crate _ _ _ _

variable {Key Cert D S : Type} (crates : SigningCrates Key Cert D S)

theorem oidToDer_returns (oid : Oid) : (oidToDer crates oid).Returns := by
  unfold oidToDer
  split
  · exact Res.returns_ok _
  · exact Res.returns_error _

theorem authenticodeSigner_returns (signingKey : Key) (signerCert : Cert) (spcContent : Bytes)
    (opts : SignOptions) :
    (authenticodeSigner crates signingKey signerCert spcContent opts).Returns := by
  refine (derSequenceContent_returns spcContent).bind fun _ _ =>
    (buildOpusInfo_returns crates.der _).bind fun _ _ => (Res.returns_pure _).bind fun _ _ =>
    (oidToDer_returns crates _).bind fun _ _ => (Res.returns_pure _).bind fun _ _ => ?_
  rw [withExtraAttributes_eq]
  exact Res.returns_ok _

theorem buildExtractDataPkcs7_returns (digest : Bytes) (opts : SignOptions) :
    (buildExtractDataPkcs7 crates digest opts).Returns :=
  (buildSpcIndirectData_returns _ _ _).bind fun _ _ => mapErr_returns _ _ _

/-- Octets that the CMS crate has made of a message of this program, normalized or not. -/
inductive Crafted : Bytes → Prop where
  | built {builder : SignedDataBuilder Key Cert} {der : Bytes}
      (made : crates.buildDer builder = .ok der) : Crafted der
  | encoded (d : SignedData Cert D S) : Crafted (crates.tsa.enc.signedData d)
  | normalized {der out : Bytes} (crafted : Crafted der)
      (made : normalizeAuthenticodeSignature der = .ok out) : Crafted out

variable [DecidableEq Cert] {crates}

theorem addTimestamps_crafted {pkcs7Der out : Bytes} (crafted : Crafted crates pkcs7Der)
    {rfc3161Urls authenticodeUrls : List String} {s t : Network (SignedData Cert D S)}
    (run : (addTimestamps crates.tsa pkcs7Der rfc3161Urls authenticodeUrls).run s = (.ok out, t)) :
    Crafted crates out := by
  unfold addTimestamps at run
  split at run
  · cases run
    exact crafted
  · obtain ⟨_, _, -, run₁⟩ := bind_eq_ok.mp run
    obtain ⟨_, _, -, run₂⟩ := bind_eq_ok.mp run₁
    obtain ⟨_, _, -, run₃⟩ := bind_eq_ok.mp run₂
    obtain ⟨_, _, -, run₄⟩ := bind_eq_ok.mp run₃
    obtain ⟨d, _, -, run₅⟩ := bind_eq_ok.mp run₄
    obtain ⟨encoded, _, made, run₆⟩ := bind_eq_ok.mp run₅
    cases made
    exact .normalized (.encoded d) (ofExcept_eq_ok.mp run₆).1

theorem signSpcIndirectData_fails {R : Bytes → Bool → Prop}
    (h : ∀ der wrap, Crafted crates der → R der wrap) (signingKey : Key) (signerCert : Cert)
    (extraCerts : List Cert) (spcContent : Bytes) (opts : SignOptions) :
    Fails (Fault.Traced R)
      (signSpcIndirectData crates signingKey signerCert extraCerts spcContent opts) := by
  refine (fails_rejectIf (.error _)).bind fun _ _ _ _ =>
    (fails_ofExcept fun e failed => ?_).bind fun _ signer _ _ =>
    (fails_ofExcept fun e failed => ?_).bind fun _ der _ built => ?_
  · exact (authenticodeSigner_returns crates _ _ _ _).traced failed
  · exact (mapErr_returns _ _ _).traced failed
  have crafted : Crafted crates der := .built (mapErr_eq_ok.mp (ofExcept_eq_ok.mp built).1)
  have last : ∀ out, Crafted crates out → Fails (Fault.Traced R)
      (.ofExcept (normalizeAuthenticodeSignature out) : Networked Cert D S Bytes) :=
    fun out crafted => fails_ofExcept fun e => rewrite_traced (h out false crafted)
  split
  · exact (addTimestamps_fails crates.tsa (h der true crafted)
      (fun d => h _ false (.encoded d)) _ _).bind
        fun _ out _ run => last out (addTimestamps_crafted crafted run)
  · exact last der crafted

theorem createAuthenticodeSignature_fails {R : Bytes → Bool → Prop}
    (h : ∀ der wrap, Crafted crates der → R der wrap) (signingKey : Key) (signerCert : Cert)
    (extraCerts : List Cert) (digest : Bytes) (opts : SignOptions) :
    Fails (Fault.Traced R)
      (createAuthenticodeSignature crates signingKey signerCert extraCerts digest opts) :=
  (fails_ofExcept fun _ => (buildSpcIndirectData_returns _ _ _).traced).bind
    fun _ _ _ _ => signSpcIndirectData_fails h _ _ _ _ _

end Signing

section Service

structure Child.Inside (c : Child) (b : Bytes) : Prop where
  starts : c.fullStart ≤ c.contentStart
  ends : c.contentStart ≤ c.contentEnd
  le : c.contentEnd ≤ b.length

theorem childrenAt_inside {b : Bytes} {p : Nat} {ts : List Tlv} (h : At b p (Tlv.flat ts)) :
    ∀ c ∈ childrenAt p ts, c.Inside b := by
  induction ts generalizing p with
  | nil => exact fun c here => absurd here List.not_mem_nil
  | cons t ts ih =>
    obtain ⟨here, after⟩ := at_append.mp h
    rw [childrenAt, List.forall_mem_cons]
    refine ⟨⟨?_, ?_, here.le⟩, ih after⟩
    · exact Nat.le_add_right _ _
    · simp only [childAt, Tlv.bytes_length, Tlv.header_length]
      omega

theorem children_inside {b : Bytes} {start stop : Nat} {cs : List Child}
    (inside : start ≤ b.length) (read : children b start stop = .ok cs) : ∀ c ∈ cs, c.Inside b := by
  obtain ⟨ts, here, -, rfl⟩ := (children_eq_ok inside).mp read
  exact childrenAt_inside here

theorem childWithTag_inside {b : Bytes} {start stop : Nat} {tag : UInt8} {what : String}
    {c : Child} (inside : start ≤ b.length) (found : childWithTag b start stop tag what = .ok c) :
    c.Inside b := by
  obtain ⟨cs, read, hit⟩ := Res.bind_eq_ok.mp found
  exact children_inside inside read c (List.mem_of_find?_eq_some (okOr_eq_ok.mp hit))

theorem childWithTag_returns (b : Bytes) (start stop : Nat) (tag : UInt8) (what : String) :
    (childWithTag b start stop tag what).Returns :=
  (children_returns b start stop).bind fun cs _ => okOr_returns (firstWithTag cs tag) _

theorem spcContentFromPkcs7_returns (der : Bytes) : (spcContentFromPkcs7 der).Returns := by
  refine (readHeader_returns der 0).bind ?_
  rintro ⟨tag, cs, ce⟩ read
  obtain ⟨t, here, -, rfl, rfl⟩ := readHeader_eq_ok.mp read
  have start : 0 + t.header.length ≤ der.length := by
    have room := here.le
    rw [Tlv.bytes_length] at room
    omega
  dsimp only
  split
  · exact Res.returns_error _
  refine (childWithTag_returns _ _ _ _ _).bind fun l1 found₁ => ?_
  have inside₁ := childWithTag_inside start found₁
  refine (childWithTag_returns _ _ _ _ _).bind fun l2 found₂ => ?_
  have inside₂ := childWithTag_inside (Nat.le_trans inside₁.ends inside₁.le) found₂
  refine (childWithTag_returns _ _ _ _ _).bind fun l3 found₃ => ?_
  have inside₃ := childWithTag_inside (Nat.le_trans inside₂.ends inside₂.le) found₃
  refine (childWithTag_returns _ _ _ _ _).bind fun l4 found₄ => ?_
  have inside₄ := childWithTag_inside (Nat.le_trans inside₃.ends inside₃.le) found₄
  refine (children_returns _ _ _).bind fun cs listed => (okOr_returns _ _).bind fun l5 first => ?_
  have inside₅ := children_inside (Nat.le_trans inside₄.ends inside₄.le) listed l5
    (List.mem_of_head? (okOr_eq_ok.mp first))
  split
  · rw [subslice_of_le inside₅.ends inside₅.le]
    exact Res.returns_ok _
  · rw [subslice_of_le (Nat.le_trans inside₅.starts inside₅.ends) inside₅.le]
    exact Res.returns_ok _

theorem parseSpcIndirectData_returns {O : Type}
    (fromDer : Bytes → Except String (SpcIndirectDataContent O)) (blob : Bytes) :
    (parseSpcIndirectData fromDer blob).Returns := by
  refine Res.Returns.bind ?_ fun content _ => ?_
  · refine (readHeader_returns blob 0).bind fun _ _ => ?_
    dsimp only
    split
    · exact Res.returns_error _
    · refine (children_returns _ _ _).bind fun content _ => ?_
      split
      · exact Res.returns_pure _
      · exact spcContentFromPkcs7_returns blob
      · exact Res.returns_error _
  · split
    · exact Res.returns_error _
    · exact Res.returns_pure _

variable {Key Cert D S : Type} [DecidableEq Cert]

/-- A signing service comes back from every request, whatever its octets: what it may panic
in rewriting are not these, but what the CMS crate has encoded. -/
theorem service_fails (crates : SigningCrates Key Cert D S) (request : Bytes)
    (signingKey : Key) (signerCert : Cert) (extraCerts : List Cert) (opts : SignOptions) :
    Fails (Fault.Traced fun der _ => Crafted crates der) (do
      let parsed ← .ofExcept (parseSpcIndirectData (spcFromDer crates.der) request)
      signSpcIndirectData crates signingKey signerCert extraCerts parsed.contentDer opts :
        Networked Cert D S Bytes) :=
  (fails_ofExcept fun _ => (parseSpcIndirectData_returns _ request).traced).bind
    fun _ _ _ _ => signSpcIndirectData_fails (fun _ _ crafted => crafted) _ _ _ _ _

end Service

/-- An `Err`, a traced panic, or a walk that has no end where there is one. -/
inductive Halt.Traced (R : Bytes → Bool → Prop) (endless : Prop) : Halt → Prop where
  | failed (context : Option String) (cause : Cause) : Traced R endless (.failed context cause)
  | panic {der : Bytes} {wrap : Bool} (here : R der wrap) (overruns : Overruns der wrap) :
      Traced R endless .panic
  | fuel (walk : endless) : Traced R endless .fuel

def Only {T α : Type} (s : Store) (P : Halt → Prop) (x : Command T α) : Prop :=
  ∀ (w : World T), SameFiles s w.store → ∀ h v, x.run w = (.error h, v) → P h

section Steps
variable {T α β : Type} {s : Store} {R : Bytes → Bool → Prop} {endless : Prop}

theorem Fault.Traced.halt {e : Fault} (h : e.Traced R) (context : Option String) :
    (e.halt context).Traced R endless := by
  cases h with
  | error e => exact .failed _ _
  | panic here overruns => exact .panic here overruns

theorem Only.after {P : Halt → Prop} {x : Command T α} {f : α → Command T β} (hx : Looks x)
    (first : Only s P x)
    (hf : ∀ (w : World T) a u, SameFiles s w.store → x.run w = (.ok a, u) → Only s P (f a)) :
    Only s P (x >>= f) := by
  intro w same h v run
  rcases bind_eq_error.mp run with failed | ⟨a, u, ok, rest⟩
  · exact first w same h v failed
  · have looked : OnFiles SameFiles w (x.run w).2 := hx w
    rw [ok] at looked
    exact hf w a u same ok u (same.next looked) h v rest

theorem Only.after_look {P : Halt → Prop} {x : Command T α} {f : α → Command T β}
    (hx : Looks x) (first : Only s P x) (hf : ∀ a, Only s P (f a)) : Only s P (x >>= f) :=
  .after hx first fun _ a _ _ _ => hf a

theorem Only.printed {P : Halt → Prop} {x : Command T Unit} (h : Only s P x) (line : String) :
    Only s P (x >>= fun _ => eprintln line) := by
  intro w same e v run
  rcases bind_eq_error.mp run with failed | ⟨_, u, -, rest⟩
  · exact h w same e v failed
  · exact absurd rest (eprintln_never line e).run_ne

theorem only_of_never {P : Halt → Prop} {x : Command T α} (h : ∀ e, Never e x) : Only s P x :=
  fun _ _ e _ run => absurd run (h e).run_ne

theorem traced_of_not_lost {e : Fault} (h : ¬ e.Lost) : e.Traced R := by
  cases e with
  | error e => exact .error e
  | panic => exact absurd panic_lost h
  | fuel => exact absurd fuel_lost h

theorem only_onStore {P : Halt → Prop} {context : Option String} {x : Proc α}
    (hx : ∀ t e u, SameFiles s t → x.run t = (.error e, u) → P (e.halt context)) :
    Only s P (onStore context x : Command T α) := by
  intro w same h v run
  obtain ⟨e, u, failed, rfl, -⟩ := zoom_eq_error.mp run
  exact hx _ e u same failed

theorem only_ofExcept {context : Option String} {x : Res α}
    (hx : ∀ e, x = .error e → e.Traced R) :
    Only s (Halt.Traced R endless) (onStore context (.ofExcept x) : Command T α) :=
  only_onStore fun _ e _ _ failed => (hx e (ofExcept_eq_error.mp failed).1).halt context

theorem only_onNetwork {context : Option String} {x : Prog (Network T) Fault α}
    (hx : Fails (Fault.Traced R) x) :
    Only s (Halt.Traced R endless) (onNetwork context x) := by
  intro w _ h v run
  obtain ⟨e, u, failed, rfl, -⟩ := zoom_eq_error.mp run
  exact (hx _ e u failed).halt context

theorem only_loading {context : Option String} {x : Loading α} :
    Only s (Halt.Traced R endless) (loading context x : Command T α) := by
  intro w _ h v run
  obtain ⟨cause, u, -, rfl, -⟩ := zoom_eq_error.mp run
  exact .failed _ _

theorem only_optionally {Key D S : Type} {sys : Platform Key D S} {α β : Type} {x : Option α}
    {d : β} {context : Option String} {f : α → Loading β} :
    Only s (Halt.Traced R endless) (sys.optionally x d fun a => loading context (f a)) := by
  cases x with
  | none => exact only_of_never fun _ => never_pure d
  | some a => exact only_loading

theorem only_bail {text : String} :
    Only s (Halt.Traced R endless) (bail text : Command T α) := by
  intro w _ h v run
  cases run
  exact .failed _ _

theorem only_present {text : String} {x : Option α} :
    Only s (Halt.Traced R endless) (present text x : Command T α) := by
  intro w _ h v run
  cases x <;> cases run
  exact .failed _ _

theorem only_rejectIf {c : Prop} [Decidable c] {context : Option String} {cause : Cause} :
    Only s (Halt.Traced R endless) (.rejectIf c (.failed context cause) : Command T Unit) :=
  fun _ _ _ _ run => fails_rejectIf (.failed context cause) _ _ _ run

end Steps

section Commands
variable {Key D S : Type} {sys : Platform Key D S} {s : Store}

/-- The octets that a command rewrites on these files, and in which direction. -/
inductive Invocation.Rewrites (sys : Platform Key D S) (s : Store) :
    Invocation → Bytes → Bool → Prop where
  | signed {args : SignArgs} {der : Bytes} (wrap : Bool) (crafted : Crafted sys.signing der) :
      Rewrites sys s (.sign args) der wrap
  | found {args : VerifyArgs} {x : Bytes}
      (bears : Bears (sys.rounds + 1) (s.data args.infile) x) :
      Rewrites sys s (.verify args) x true
  | collected {args : VerifyArgs} {x blob : Bytes} {blobs : List Bytes} (wrap : Bool)
      (bears : Bears (sys.rounds + 1) (s.data args.infile) x)
      (collected : collectSignatureBlobs sys.crates x = .ok blobs) (here : blob ∈ blobs) :
      Rewrites sys s (.verify args) blob wrap
  | sent {args : AttachSignatureArgs} {d : Bytes} (there : s.files args.sigin = some d) :
      Rewrites sys s (.attachSignature args) (sys.signatureOf d) false
  | timestamped {args : AddArgs} {x : Bytes}
      (bears : Bears (sys.rounds + 1) (s.data args.infile) x) :
      Rewrites sys s (.add args) x true
  | encoded {args : AddArgs} (d : SignedData sys.crates.Cert D S) :
      Rewrites sys s (.add args) (sys.signing.tsa.enc.signedData d) false

inductive Invocation.Walks : Invocation → Prop where
  | verify (args : VerifyArgs) : Walks (.verify args)
  | extractSignature (args : ExtractSignatureArgs) : Walks (.extractSignature args)
  | add (args : AddArgs) : Walks (.add args)

def Invocation.Endless (sys : Platform Key D S) (s : Store) (inv : Invocation) : Prop :=
  inv.Walks ∧ ∃ pe, parseBytes .release (s.data inv.infile) = .ok pe ∧
    extractBytes .release (sys.rounds + 1) (s.data inv.infile) pe = .error .fuel

section
variable {P : Halt → Prop} {R : Bytes → Bool → Prop} {endless : Prop}

theorem only_openInput {infile : Path} :
    Only s (Halt.Traced R endless) (sys.openInput infile) :=
  .after_look (looks_loading (fsRead_inspects _ _).within) only_loading
    fun _ => only_of_never fun _ => never_pure _

theorem only_writeOut {pem : Bool} {outfile : Path} {der : Bytes} :
    Only s P (sys.writeOut pem outfile der) := by
  have never : ∀ d e, Never e (fsWrite outfile d : sys.Run Unit) := by
    intro d e w same
    cases same
  unfold Platform.writeOut
  split <;> exact only_of_never (never _)

theorem only_digest {context : Option String} {f : File} {pe : PeInfo} {algo : HashAlgorithm} :
    Only s P (onStore context (peDigest sys.crates f pe algo) : sys.Run Bytes) := by
  refine only_onStore fun t e u _ failed => ?_
  have yields : Yields (peDigest sys.crates f pe algo) t _ := peDigest_yields f pe algo t
  have outcome := yields.outcome
  rw [failed] at outcome
  cases outcome

variable (release : sys.build = .release)
include release

theorem only_parsed {α : Type} {infile : Path} {f : File → PeInfo → sys.Run α}
    (hf : ∀ pe, parseBytes .release (s.data infile) = .ok pe →
      Only s (Halt.Traced R endless) (f ⟨infile, 0⟩ pe)) :
    Only s (Halt.Traced R endless)
      (sys.openInput infile >>= fun input => sys.parseInput input >>= f input) := by
  refine .after (sys.looks_openInput infile) only_openInput fun _ input _ _ opened => ?_
  cases openInput_eq_ok opened
  refine .after (sys.looks_parseInput _) (only_onStore fun t e u _ failed => ?_)
    fun _ pe _ same parsed => hf pe ?_
  · refine Fault.Traced.halt (traced_of_not_lost fun lost => ?_) _
    rw [release] at failed
    exact absurd failed (parsePe_never lost _).run_ne
  · have parsed := parseInput_eq_ok parsed
    rwa [data_congr same, release] at parsed

theorem only_writeSignedPe {context : Option String} {infile outfile : Path} {pe : PeInfo}
    {x : Bytes} : Only s P (onStore context
      (writeSignedPe sys.build ⟨infile, 0⟩ outfile pe x) : sys.Run Unit) := by
  refine only_onStore fun t e u _ failed => ?_
  obtain ⟨_, _, ok, -⟩ := writeSignedPe_release ⟨infile, 0⟩ outfile pe x t
  rw [release, ok] at failed
  cases failed

theorem only_writeUnsignedPe {context : Option String} {infile outfile : Path} {pe : PeInfo} :
    Only s (Halt.Traced R endless) (onStore context
      (writeUnsignedPe sys.build ⟨infile, 0⟩ outfile pe) : sys.Run Unit) := by
  refine only_onStore fun t e u _ failed => Fault.Traced.halt
    (traced_of_not_lost fun lost => ?_) _
  have checksum : ∀ f cso, Never e (storeChecksum .release f cso) := by
    intro f cso s
    obtain ⟨_, _, ok, -⟩ := storeChecksum_release f cso s
    rw [ok]
    exact fun same => nomatch same
  have never : Never e (writeUnsignedPe .release ⟨infile, 0⟩ outfile pe) :=
    Never.bind (fun _ h => nomatch h) fun _ => lost.never_rejectIf.bind fun _ =>
      (copyRange_never _ _ _ _ _).bind fun _ => (writeAll_never _ _ _).bind fun _ =>
      (writeAll_never _ _ _).bind fun _ => checksum _ _
  rw [release] at failed
  exact absurd failed never.run_ne

theorem only_extract {context : Option String} {inv : Invocation} {pe : PeInfo} (walks : inv.Walks)
    (parsed : parseBytes .release (s.data inv.infile) = .ok pe) :
    Only s (Halt.Traced R (inv.Endless sys s)) (onStore context
      (extractSignature sys.build (sys.rounds + 1) ⟨inv.infile, 0⟩ pe) : sys.Run _) := by
  refine only_onStore fun t e u same failed => ?_
  rw [extractSignature_at, data_congr same, release] at failed
  have failed := (Prod.mk.inj failed).1
  cases e with
  | error e => exact .failed _ _
  | panic => exact absurd failed (extractBytes_ne_error panic_lost nofun _ _ _)
  | fuel => exact .fuel ⟨walks, pe, parsed, failed⟩

theorem only_verify {context : Option String} {args : VerifyArgs}
    {opts : VerifyOptions sys.crates.Cert} :
    Only s (Halt.Traced (Invocation.Rewrites sys s (.verify args))
        (Invocation.Endless sys s (.verify args)))
      (onStore context (verifyPeRich sys.crates opts sys.build (sys.rounds + 1) ⟨args.infile, 0⟩) :
        sys.Run _) := by
  refine only_onStore fun t e u same failed => ?_
  have outcome := (verifyPeRich_at sys.build t args.infile sys.crates opts (sys.rounds + 1)
    uncut).outcome
  rw [failed, data_congr same, release] at outcome
  cases e with
  | error e => exact .failed _ _
  | panic =>
    rcases (verifyBytes_eq_error panic_lost).mp outcome.symm with
      ⟨pe, parsed, walk⟩ | ⟨x, pe, parsed, extracted, failed⟩
    · exact absurd walk (extractBytes_ne_error panic_lost nofun _ _ _)
    · have bears : Bears (sys.rounds + 1) (s.data args.infile) x := ⟨pe, parsed, extracted⟩
      rcases (verifySignature_eq_error panic_lost).mp failed with
        form | ⟨before, blob, after, collected, -, check | ⟨-, form⟩⟩
      · exact .panic (.found bears) (cmsForm_eq_panic.mp form)
      · exact .panic (.collected false bears collected (by simp)) (check_eq_panic.mp check)
      · exact .panic (.collected true bears collected (by simp)) (cmsForm_eq_panic.mp form)
  | fuel =>
    rcases (verifyBytes_eq_error fuel_lost).mp outcome.symm with
      ⟨pe, parsed, walk⟩ | ⟨x, pe, parsed, extracted, failed⟩
    · exact .fuel ⟨.verify args, pe, parsed, walk⟩
    · rcases (verifySignature_eq_error fuel_lost).mp failed with
        form | ⟨before, blob, after, collected, -, check | ⟨-, form⟩⟩
      · exact absurd form (cmsForm_ne_fuel x)
      · exact absurd check (check_ne_fuel blob)
      · exact absurd form (cmsForm_ne_fuel blob)

end

/-- In a release build, a command ends with `Ok` or with `Err` but for two defects: it panics
in rewriting octets whose lengths overrun, and these it was sent, has found in the file or has
got from the CMS crate; and it does not end where the walk through a table does not. -/
theorem main_lost (release : sys.build = .release) {inv : Invocation} {h : Halt}
    {w v : World (SignedData sys.crates.Cert D S)} (run : (sys.main inv).run w = (.error h, v)) :
    h.Traced (inv.Rewrites sys w.store) (inv.Endless sys w.store) := by
  suffices only : Only w.store (Halt.Traced (inv.Rewrites sys w.store) (inv.Endless sys w.store))
      (sys.main inv) from only w (SameFiles.refl _) h v run
  clear run
  cases inv
  case sign args =>
    exact .after_look (sys.looks_ofExcept _ _) (only_ofExcept fun _ =>
        (fromName_returns args.h).traced) fun _ =>
      .after_look (looks_present _ _) only_present fun _ =>
      .after_look (looks_present _ _) only_present fun _ =>
      .after_look (looks_loading (KeyMaterial.fromPem_inspects _ _ _).within) only_loading fun km =>
      .after_look (sys.looks_optionally fun ac =>
        looks_loading (km.addExtraCertsPem_inspects _ ac).within) only_optionally fun _ =>
      only_parsed release fun pe parsed =>
      .after_look (sys.looks_digest _ _ _ _) only_digest fun _ =>
      .after_look (looks_onNetwork _) (only_onNetwork (createAuthenticodeSignature_fails
        (fun _ wrap crafted => .signed wrap crafted) _ _ _ _ _)) fun _ =>
      (only_writeSignedPe release).printed _
  case verify args =>
    refine .after (sys.looks_openInput _) only_openInput fun _ input _ _ opened => ?_
    cases openInput_eq_ok opened
    refine .after_look (sys.looks_optionally fun _ =>
        looks_loading (loadPemCerts_inspects _ _).within) only_optionally fun _ =>
      .after_look (sys.looks_optionally fun _ =>
        looks_loading (loadPemCerts_inspects _ _).within) only_optionally fun _ =>
      .after_look (looks_onStore (verifyPeRich_looks _ _ _ _ _)) (only_verify release)
        fun result => .after_look (looks_println _) (only_of_never (println_never _)) fun _ => ?_
    split
    · exact only_of_never (println_never _)
    · exact only_bail
  case extractData args =>
    exact .after_look (sys.looks_ofExcept _ _) (only_ofExcept fun _ =>
        (fromName_returns args.h).traced) fun _ =>
      only_parsed release fun pe parsed =>
      .after_look (sys.looks_digest _ _ _ _) only_digest fun _ =>
      .after_look (sys.looks_ofExcept _ _) (only_ofExcept fun _ =>
        (buildExtractDataPkcs7_returns _ _ _).traced) fun _ => only_writeOut.printed _
  case extractSignature args =>
    exact only_parsed release fun pe parsed =>
      .after_look (sys.looks_extract _ _ _) (only_extract release (.extractSignature args) parsed)
        fun _ => .after_look (looks_present _ _) only_present fun _ => only_writeOut.printed _
  case attachSignature args =>
    refine .after (looks_loading (fsRead_inspects _ _).within) only_loading
      fun _ sigData _ same read => ?_
    have there := fsRead_outcome.mp ((loading_eq_ok (fsRead_inspects _ _)).mp read).1
    rw [same] at there
    exact .after_look (sys.looks_ofExcept _ _) (only_ofExcept fun _ =>
        rewrite_traced (.sent there)) fun _ =>
      only_parsed release fun pe parsed => (only_writeSignedPe release).printed _
  case removeSignature args =>
    exact only_parsed release fun pe parsed => (only_writeUnsignedPe release).printed _
  case add args =>
    refine .after_look (sys.looks_rejectIf _ _) only_rejectIf fun _ =>
      only_parsed release fun pe parsed =>
      .after (sys.looks_extract _ _ _) (only_extract release (.add args) parsed)
        fun w₁ found _ same₁ extracted => ?_
    refine .after (looks_present _ _) only_present fun _ pkcs7Der _ _ here => ?_
    obtain ⟨rfl, -⟩ := present_eq_ok.mp here
    have bears : Bears (sys.rounds + 1) (w.store.data args.infile) pkcs7Der := by
      obtain ⟨t, extracted, -⟩ := onStore_eq_ok.mp extracted
      rw [extractSignature_at, data_congr same₁, release] at extracted
      exact ⟨pe, parsed, (Prod.mk.inj extracted).1⟩
    exact .after_look (looks_onNetwork _) (only_onNetwork (addTimestamps_fails _
        (.timestamped bears) .encoded _ _)) fun _ => (only_writeSignedPe release).printed _

end Commands

section Sample

def overrunWorld : World (SignedData Bytes Unit Unit) :=
  { smallWorld with store := smallWorld.store.setData "sig" overrunDer }

theorem attachSmall_panics :
    (smallPlatform.main attachSmall).run overrunWorld = (.error .panic, overrunWorld) := by
  rfl

theorem main_lost_small : ∃ der wrap,
    attachSmall.Rewrites smallPlatform overrunWorld.store der wrap ∧ Overruns der wrap := by
  cases main_lost rfl attachSmall_panics with
  | panic here overruns => exact ⟨_, _, here, overruns⟩

end Sample

end Rsigncode
