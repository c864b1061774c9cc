import Rsigncode.CliFrame
import Rsigncode.ShelfFiles

/-! The shelves of a file system: each command moves one image from its input to its
output, with another signature on it. -/
namespace Rsigncode

open FileStore Window Function

section Steps
variable {T α β : Type} {w v : World T}

theorem Looks.bind_eq_ok {x : Command T α} {f : α → Command T β} {b : β} (hx : Looks x)
    (run : (x >>= f).run w = (.ok b, v)) : ∃ a u, x.run w = (.ok a, u) ∧
      SameFiles w.store u.store ∧ (f a).run u = (.ok b, v) := by
  obtain ⟨a, u, first, rest⟩ := Prog.bind_eq_ok.mp run
  have same : OnFiles SameFiles w (x.run w).2 := hx w
  rw [first] at same
  exact ⟨a, u, first, same, rest⟩

def Offline (x : Command T α) : Prop := Prog.Within (fun w v => v.network = w.network) x

theorem offline_onStore (context : Option String) (x : Proc α) :
    Offline (T := T) (onStore context x) :=
  Prog.Within.zoom (R := fun _ _ => True) (fun _ => trivial) fun _ _ _ => rfl

theorem offline_loading (context : Option String) (x : Loading α) :
    Offline (T := T) (loading context x) :=
  Prog.Within.zoom (R := fun _ _ => True) (fun _ => trivial) fun _ _ _ => rfl

theorem offline_pure (a : α) : Offline (T := T) (pure a) := fun _ => rfl

theorem offline_fail (h : Halt) : Offline (T := T) (.fail h : Command T α) := fun _ => rfl

theorem offline_present (text : String) (x : Option α) : Offline (T := T) (present text x) := by
  cases x with
  | none => exact offline_fail _
  | some a => exact offline_pure a

theorem Offline.after {x : Command T α} {r : Except Halt α} (hx : Offline x)
    (run : x.run w = (r, v)) : v.network = w.network := by
  have same : (x.run w).2.network = w.network := hx w
  rwa [run] at same

theorem onStore_eq_ok {context : Option String} {x : Proc α} {a : α} :
    (onStore context x).run w = (.ok a, v) ↔
      ∃ t, x.run w.store = (.ok a, t) ∧ { w with store := t } = v := Prog.zoom_eq_ok

theorem onNetwork_eq_ok {context : Option String} {x : Prog (Network T) Fault α} {a : α} :
    (onNetwork context x).run w = (.ok a, v) ↔
      ∃ n, x.run w.network = (.ok a, n) ∧ { w with network := n } = v := Prog.zoom_eq_ok

theorem loading_eq_ok {context : Option String} {x : Loading α}
    (hx : Inspects x) {a : α} :
    (loading context x).run w = (.ok a, v) ↔ (x.run w.store).1 = .ok a ∧ v = w := by
  have here := hx.run_eq (SameFiles.refl w.store)
  refine Prog.zoom_eq_ok.trans ⟨?_, ?_⟩
  · rintro ⟨t, run, rfl⟩
    rw [here] at run
    obtain ⟨outcome, rfl⟩ := Prod.mk.inj run
    exact ⟨outcome, rfl⟩
  · rintro ⟨outcome, rfl⟩
    exact ⟨v.store, here.trans (by rw [outcome]), rfl⟩

theorem fsRead_outcome {refused : Cause} {p : Path} {s : Store} {d : Bytes} :
    ((fsRead refused p).run s).1 = .ok d ↔ s.files p = some d := by
  cases here : s.files p <;> simp [fsRead, here]

theorem written_eq_ok {context : Option String} {x : Proc Unit} {line : String}
    (run : (onStore context x >>= fun _ => eprintln line).run w = (.ok (), v)) :
    x.run w.store = (.ok (), v.store) := by
  obtain ⟨_, u, first, rest⟩ := Prog.bind_eq_ok.mp run
  obtain ⟨t, done, rfl⟩ := onStore_eq_ok.mp first
  cases rest
  exact done

theorem present_eq_ok {text : String} {x : Option α} {a : α} :
    (present text x : Command T α).run w = (.ok a, v) ↔ x = some a ∧ v = w := by
  cases x with
  | none => simp [present, bail]
  | some b => simp [present, eq_comm]

end Steps

section Commands
variable {Key D S : Type} {sys : Platform Key D S} {w v : World (SignedData sys.crates.Cert D S)}

theorem offline_openInput (infile : Path) : Offline (sys.openInput infile) :=
  Prog.Within.bind (fun _ _ _ same same' => same'.trans same) (offline_loading _ _)
    fun _ => offline_pure _

theorem offline_optionally {α β : Type} {x : Option α} {d : β} {f : α → sys.Run β}
    (hf : ∀ a, Offline (f a)) : Offline (sys.optionally x d f) := by
  cases x with
  | none => exact offline_pure d
  | some a => exact hf a

theorem offline_rejectIf (c : Prop) [Decidable c] (h : Halt) :
    Offline (.rejectIf c h : sys.Run Unit) := by
  unfold Prog.rejectIf
  split
  · exact offline_fail h
  · exact offline_pure ()

theorem openInput_eq_ok {infile : Path} {input : File}
    (run : (sys.openInput infile).run w = (.ok input, v)) : input = ⟨infile, 0⟩ := by
  obtain ⟨_, _, -, rest⟩ := Prog.bind_eq_ok.mp run
  exact (Prog.pure_eq_ok.mp rest).1

theorem parseInput_eq_ok {infile : Path} {pe : PeInfo}
    (run : (sys.parseInput ⟨infile, 0⟩).run w = (.ok pe, v)) :
    parseBytes sys.build (w.store.data infile) = .ok pe := by
  obtain ⟨t, parsed, -⟩ := onStore_eq_ok.mp run
  rw [parsePe_at] at parsed
  exact (Prod.mk.inj parsed).1

def Invocation.source : Invocation → Option Path
  | .sign args => some args.infile
  | .attachSignature args => some args.infile
  | .removeSignature args => some args.infile
  | .add args => some args.infile
  | _ => none

def KeyMaterial.Extends (sys : Platform Key D S) (s : Store)
    (pem km : KeyMaterial Key sys.crates.Cert) (path : Option Path) : Prop :=
  match path with
  | some ac => ((pem.addExtraCertsPem sys.cli ac).run s).1 = .ok km
  | none => km = pem

def SignArgs.Loads (args : SignArgs) (sys : Platform Key D S) (s : Store)
    (km : KeyMaterial Key sys.crates.Cert) : Prop :=
  ∃ certfile keyfile pem, args.certs = some certfile ∧ args.key = some keyfile ∧
    ((KeyMaterial.fromPem sys.cli certfile keyfile).run s).1 = .ok pem ∧
    pem.Extends sys s km args.ac

def SignArgs.options (args : SignArgs) (hashAlgo : HashAlgorithm) : SignOptions where
  hashAlgo
  programName := args.n
  programUrl := args.i
  rfc3161Urls := args.ts
  authenticodeUrls := args.t

/-- What such a command puts out, in terms of the files and the servers it is run on, and of
the shelf it was given. -/
def Invocation.Puts (sys : Platform Key D S) (w : World (SignedData sys.crates.Cert D S))
    (shelf shelf' : Shelf) : Invocation → Prop
  | .sign args => ∃ hashAlgo km x n, HashAlgorithm.fromName args.h = .ok hashAlgo ∧
      args.Loads sys w.store km ∧
      (createAuthenticodeSignature sys.signing km.signingKey km.signerCert km.extraCerts
        (hashAlgo.finalize sys.crates shelf.image) (args.options hashAlgo)).run w.network =
          (.ok x, n) ∧
      shelf' = shelf.carry (.sign x)
  | .attachSignature args => ∃ d x, w.store.files args.sigin = some d ∧
      normalizeAuthenticodeSignature (sys.signatureOf d) = .ok x ∧ shelf' = shelf.carry (.sign x)
  | .removeSignature _ => shelf' = shelf.carry .remove
  | .add args => ∃ y x n, shelf.signature = some y ∧
      (addTimestamps sys.signing.tsa (padded y) args.ts args.t).run w.network = (.ok x, n) ∧
      shelf' = shelf.carry (.sign x)
  | _ => False

def Made (sys : Platform Key D S) (inv : Invocation) (infile out : Path)
    (w v : World (SignedData sys.crates.Cert D S)) : Prop :=
  ∀ shelf, Shelved sys.build (w.store.data infile) shelf →
    (v.store.data out).length < 2 ^ 32 - 2 ^ 16 →
    ∃ shelf', inv.Puts sys w shelf shelf' ∧ Shelved sys.build (v.store.data out) shelf'

section
variable {u : World (SignedData sys.crates.Cert D S)} {infile out : Path} {pe : PeInfo}
  {shelf : Shelf}

theorem parsed_before (same : SameFiles w.store u.store)
    (parsed : (sys.parseInput ⟨infile, 0⟩).run u = (.ok pe, v)) :
    parseBytes sys.build (w.store.data infile) = .ok pe := by
  rw [← data_congr same]
  exact parseInput_eq_ok parsed

theorem digest_before {context : Option String} {hashAlgo : HashAlgorithm} {digest : Bytes}
    (same : SameFiles w.store u.store)
    (shelved : Shelved sys.build (w.store.data infile) shelf)
    (parsed : parseBytes sys.build (w.store.data infile) = .ok pe)
    (run : (onStore context (peDigest sys.crates ⟨infile, 0⟩ pe hashAlgo)).run u =
      (.ok digest, v)) : digest = hashAlgo.finalize sys.crates shelf.image := by
  obtain ⟨t, computed, -⟩ := onStore_eq_ok.mp run
  have yields : Yields (peDigest sys.crates ⟨infile, 0⟩ pe hashAlgo) u.store _ :=
    peDigest_yields ⟨infile, 0⟩ pe hashAlgo u.store
  have outcome := yields.outcome
  rw [computed, data_congr same, shelved.image parsed] at outcome
  exact Except.ok.inj outcome

theorem signature_before {context : Option String} {found : Option Bytes}
    (same : SameFiles w.store u.store)
    (shelved : Shelved sys.build (w.store.data infile) shelf)
    (parsed : parseBytes sys.build (w.store.data infile) = .ok pe)
    (run : (onStore context (extractSignature sys.build (sys.rounds + 1) ⟨infile, 0⟩ pe)).run u =
      (.ok found, v)) : found = shelf.signature.map padded := by
  obtain ⟨t, extracted, -⟩ := onStore_eq_ok.mp run
  rw [extractSignature_at, data_congr same, shelved.extracted parsed] at extracted
  exact (Except.ok.inj (Prod.mk.inj extracted).1).symm

theorem signed_after {context : Option String} {x : Bytes} {line : String}
    (same : SameFiles w.store u.store)
    (shelved : Shelved sys.build (w.store.data infile) shelf)
    (parsed : parseBytes sys.build (w.store.data infile) = .ok pe) (apart : infile ≠ out)
    (run : (onStore context (writeSignedPe sys.build ⟨infile, 0⟩ out pe x) >>=
      fun _ => eprintln line).run u = (.ok (), v))
    (small : (v.store.data out).length < 2 ^ 32 - 2 ^ 16) :
    Shelved sys.build (v.store.data out) (shelf.carry (.sign x)) := by
  rw [← data_congr same] at shelved parsed
  exact shelved.writeSignedPe parsed apart (written_eq_ok run) small

theorem loaded_before {α : Type} {context : Option String} {x : Loading α} (hx : Inspects x)
    (same : SameFiles w.store u.store) {a : α}
    (run : (loading context x).run u = (.ok a, v)) : (x.run w.store).1 = .ok a := by
  have outcome := ((loading_eq_ok hx).mp run).1
  rw [hx.run_eq same] at outcome
  exact outcome

theorem extra_before {context : Option String} {path : Option Path}
    {km pem : KeyMaterial Key sys.crates.Cert} (same : SameFiles w.store u.store)
    (run : (sys.optionally path pem fun ac =>
      loading context (pem.addExtraCertsPem sys.cli ac)).run u = (.ok km, v)) :
    pem.Extends sys w.store km path := by
  cases path with
  | none => exact (Prog.pure_eq_ok.mp run).1
  | some ac => exact loaded_before (KeyMaterial.addExtraCertsPem_inspects _ _ _) same run

end

theorem cmdSign_made {args : SignArgs} (apart : args.infile ≠ args.outfile)
    (run : (sys.cmdSign args).run w = (.ok (), v)) :
    Made sys (.sign args) args.infile args.outfile w v := by
  obtain ⟨hashAlgo, w₁, named, same₁, run⟩ := (sys.looks_ofExcept _ _).bind_eq_ok run
  obtain ⟨certfile, w₂, certs, same₂, run⟩ := (looks_present _ _).bind_eq_ok run
  obtain ⟨keyfile, w₃, key, same₃, run⟩ := (looks_present _ _).bind_eq_ok run
  obtain ⟨pem, w₄, loaded, same₄, run⟩ :=
    (looks_loading (KeyMaterial.fromPem_inspects _ _ _).within).bind_eq_ok run
  obtain ⟨km, w₅, extended, same₅, run⟩ := (sys.looks_optionally fun ac =>
    looks_loading (KeyMaterial.addExtraCertsPem_inspects _ _ ac).within).bind_eq_ok run
  obtain ⟨input, w₆, opened, same₆, run⟩ := (sys.looks_openInput _).bind_eq_ok run
  obtain ⟨pe, w₇, parse, same₇, run⟩ := (sys.looks_parseInput _).bind_eq_ok run
  obtain ⟨digest, w₈, hashed, same₈, run⟩ := (sys.looks_digest _ _ _ _).bind_eq_ok run
  obtain ⟨x, w₉, created, same₉, written⟩ := (looks_onNetwork _).bind_eq_ok run
  cases openInput_eq_ok opened
  intro shelf shelved small
  have before : SameFiles w.store w₃.store := (same₁.next same₂).next same₃
  have same : SameFiles w.store w₆.store := ((before.next same₄).next same₅).next same₆
  have loads : args.Loads sys w.store km := ⟨certfile, keyfile, pem, (present_eq_ok.mp certs).1,
    (present_eq_ok.mp key).1, loaded_before (KeyMaterial.fromPem_inspects _ _ _) before loaded,
    extra_before (before.next same₄) extended⟩
  have parsed := parsed_before same parse
  cases digest_before (same.next same₇) shelved parsed hashed
  obtain ⟨_, algo, -⟩ := onStore_eq_ok.mp named
  obtain ⟨n, made, -⟩ := onNetwork_eq_ok.mp created
  rw [(offline_onStore _ _).after hashed, (offline_onStore _ _).after parse,
    (offline_openInput _).after opened,
    (offline_optionally fun _ => offline_loading _ _).after extended,
    (offline_loading _ _).after loaded, (offline_present _ _).after key,
    (offline_present _ _).after certs, (offline_onStore _ _).after named] at made
  exact ⟨_, ⟨hashAlgo, km, x, n, (Prod.mk.inj algo).1, loads, made, rfl⟩,
    signed_after (((same.next same₇).next same₈).next same₉) shelved parsed apart written
      small⟩

theorem cmdAttachSignature_made {args : AttachSignatureArgs} (apart : args.infile ≠ args.outfile)
    (run : (sys.cmdAttachSignature args).run w = (.ok (), v)) :
    Made sys (.attachSignature args) args.infile args.outfile w v := by
  obtain ⟨sigData, w₁, loaded, same₁, run⟩ :=
    (looks_loading (fsRead_inspects _ _).within).bind_eq_ok run
  obtain ⟨x, w₂, normalized, same₂, run⟩ := (sys.looks_ofExcept _ _).bind_eq_ok run
  obtain ⟨input, w₃, opened, same₃, run⟩ := (sys.looks_openInput _).bind_eq_ok run
  obtain ⟨pe, w₄, parsed, same₄, run⟩ := (sys.looks_parseInput _).bind_eq_ok run
  cases openInput_eq_ok opened
  intro shelf shelved small
  have same : SameFiles w.store w₃.store := (same₁.next same₂).next same₃
  have parsed := parsed_before same parsed
  obtain ⟨_, form, -⟩ := onStore_eq_ok.mp normalized
  have there := fsRead_outcome.mp (loaded_before (fsRead_inspects _ _) (SameFiles.refl _) loaded)
  exact ⟨_, ⟨sigData, x, there, (Prod.mk.inj form).1, rfl⟩,
    signed_after (same.next same₄) shelved parsed apart run small⟩

theorem cmdRemoveSignature_made {args : RemoveSignatureArgs}
    (apart : args.infile ≠ args.outfile)
    (run : (sys.cmdRemoveSignature args).run w = (.ok (), v)) :
    Made sys (.removeSignature args) args.infile args.outfile w v := by
  obtain ⟨input, w₁, opened, same₁, run⟩ := (sys.looks_openInput _).bind_eq_ok run
  obtain ⟨pe, w₂, parsed, same₂, run⟩ := (sys.looks_parseInput _).bind_eq_ok run
  cases openInput_eq_ok opened
  intro shelf shelved small
  have parsed := parsed_before same₁ parsed
  rw [← data_congr (same₁.next same₂)] at shelved parsed
  exact ⟨_, rfl, shelved.writeUnsignedPe parsed apart (written_eq_ok run) small⟩

theorem cmdAdd_made {args : AddArgs} (apart : args.infile ≠ args.outfile)
    (run : (sys.cmdAdd args).run w = (.ok (), v)) :
    Made sys (.add args) args.infile args.outfile w v := by
  obtain ⟨_, w₁, asked, same₁, run⟩ := (sys.looks_rejectIf _ _).bind_eq_ok run
  obtain ⟨input, w₂, opened, same₂, run⟩ := (sys.looks_openInput _).bind_eq_ok run
  obtain ⟨pe, w₃, parse, same₃, run⟩ := (sys.looks_parseInput _).bind_eq_ok run
  obtain ⟨found, w₄, extracted, same₄, run⟩ := (sys.looks_extract _ _ _).bind_eq_ok run
  obtain ⟨pkcs7Der, w₅, there, same₅, run⟩ := (looks_present _ _).bind_eq_ok run
  obtain ⟨x, w₆, added, same₆, written⟩ := (looks_onNetwork _).bind_eq_ok run
  cases openInput_eq_ok opened
  intro shelf shelved small
  have same : SameFiles w.store w₂.store := same₁.next same₂
  have parsed := parsed_before same parse
  have signature := signature_before (same.next same₃) shelved parsed extracted
  rw [(present_eq_ok.mp there).1] at signature
  obtain ⟨y, worn, rfl⟩ := Option.map_eq_some_iff.mp signature.symm
  obtain ⟨n, timestamped, -⟩ := onNetwork_eq_ok.mp added
  rw [(offline_present _ _).after there, (offline_onStore _ _).after extracted,
    (offline_onStore _ _).after parse, (offline_openInput _).after opened,
    (offline_rejectIf _ _).after asked] at timestamped
  exact ⟨_, ⟨y, x, n, worn, timestamped, rfl⟩, signed_after
    ((((same.next same₃).next same₄).next same₅).next same₆) shelved parsed apart written small⟩

theorem main_made {inv : Invocation} {infile out : Path} (reads : inv.source = some infile)
    (told : inv.outfile = some out) (apart : infile ≠ out)
    (run : (sys.main inv).run w = (.ok (), v)) : Made sys inv infile out w v := by
  cases inv <;> cases reads <;> cases told
  case sign args => exact cmdSign_made apart run
  case attachSignature args => exact cmdAttachSignature_made apart run
  case removeSignature args => exact cmdRemoveSignature_made apart run
  case add args => exact cmdAdd_made apart run

end Commands

/-- What is known of the files: the shelves that some of them show. -/
abbrev Shelves := Path → Option Shelf

def Tracks (b : Build) (known : Shelves) (s : Store) : Prop :=
  ∀ p shelf, known p = some shelf → Shelved b (s.data p) shelf

theorem Tracks.of_same {b : Build} {known : Shelves} {s t : Store} (h : Tracks b known s)
    (same : ∀ p, t.files p = s.files p) : Tracks b known t := by
  intro p shelf here
  rw [data_congr (funext same)]
  exact h p shelf here

theorem Tracks.update {b : Build} {known : Shelves} {s t : Store} {out : Path}
    (h : Tracks b known s) (others : Others out s t) {shelf : Option Shelf}
    (now : ∀ x, shelf = some x → Shelved b (t.data out) x) :
    Tracks b (update known out shelf) t := by
  intro p x here
  by_cases same : p = out
  · subst same
    rw [update_self] at here
    exact now x here
  · rw [update_of_ne same] at here
    have kept : t.data p = s.data p := by rw [Store.data, others p same, ← Store.data]
    rw [kept]
    exact h p x here

section Sessions
variable {Key D S : Type} {sys : Platform Key D S} {w v : World (SignedData sys.crates.Cert D S)}

/-- One command, on what is known. It moves an image between two files where it succeeds on
a known one; where it may have written otherwise, what it has written is not known. -/
inductive Moves (sys : Platform Key D S) (w : World (SignedData sys.crates.Cert D S))
    (known : Shelves) (inv : Invocation) : Except Halt Unit → Shelves → Prop where
  | idle {r : Except Halt Unit} (spares : ∀ p, ¬ inv.Writes r p) : Moves sys w known inv r known
  | lost {r : Except Halt Unit} {out : Path} (writes : inv.Writes r out)
      (unknown : r = .ok () → ∀ infile shelf, inv.source = some infile →
        known infile = some shelf → infile = out) :
      Moves sys w known inv r (update known out none)
  | puts {infile out : Path} {shelf shelf' : Shelf} (reads : inv.source = some infile)
      (told : inv.outfile = some out) (apart : infile ≠ out) (here : known infile = some shelf)
      (put : inv.Puts sys w shelf shelf') :
      Moves sys w known inv (.ok ()) (update known out shelf')

theorem main_moves {known : Shelves} (tracks : Tracks sys.build known w.store) (inv : Invocation)
    (small : ∀ p, (((sys.main inv).run w).2.store.data p).length < 2 ^ 32 - 2 ^ 16) :
    ∃ known', Moves sys w known inv ((sys.main inv).run w).1 known' ∧
      Tracks sys.build known' ((sys.main inv).run w).2.store := by
  by_cases writes : ∃ out, inv.Writes ((sys.main inv).run w).1 out
  · obtain ⟨out, writes⟩ := writes
    have others : Others out w.store ((sys.main inv).run w).2.store :=
      (careful_main writes.1).others w
    by_cases moved : ((sys.main inv).run w).1 = .ok () ∧ ∃ infile shelf,
        inv.source = some infile ∧ known infile = some shelf ∧ infile ≠ out
    · obtain ⟨done, infile, shelf, reads, here, apart⟩ := moved
      obtain ⟨shelf', put, shelved⟩ := main_made reads writes.1 apart
        (Prod.ext done rfl : (sys.main inv).run w = (.ok (), _)) shelf
        (tracks infile shelf here) (small out)
      refine ⟨update known out shelf', done ▸ .puts reads writes.1 apart here put,
        tracks.update others fun x same => ?_⟩
      cases same
      exact shelved
    · refine ⟨update known out none, .lost writes fun done infile shelf reads here => ?_,
        tracks.update others fun x none => nomatch none⟩
      by_contra apart
      exact moved ⟨done, infile, shelf, reads, here, apart⟩
  · exact ⟨known, .idle fun p writes' => writes ⟨p, writes'⟩,
      tracks.of_same fun p => main_spares fun writes' => writes ⟨p, writes'⟩⟩

inductive AllMoves (sys : Platform Key D S) (w : World (SignedData sys.crates.Cert D S))
    (known : Shelves) : List (Invocation × Except Halt Unit) →
      World (SignedData sys.crates.Cert D S) → Shelves → Prop where
  | start : AllMoves sys w known [] w known
  | step {done : List (Invocation × Except Halt Unit)} {known' known'' : Shelves}
      {v : World (SignedData sys.crates.Cert D S)} {inv : Invocation}
      (moves : AllMoves sys w known done v known')
      (move : Moves sys v known' inv ((sys.main inv).run v).1 known'') :
      AllMoves sys w known (done ++ [(inv, ((sys.main inv).run v).1)])
        ((sys.main inv).run v).2 known''

theorem Invocation.Puts.image {inv : Invocation} {shelf shelf' : Shelf}
    (h : inv.Puts sys w shelf shelf') : shelf'.image = shelf.image := by
  cases inv with
  | sign args =>
    obtain ⟨_, _, _, _, -, -, -, rfl⟩ := h
    rfl
  | attachSignature args =>
    obtain ⟨_, _, -, -, rfl⟩ := h
    rfl
  | removeSignature args =>
    cases h
    rfl
  | add args =>
    obtain ⟨_, _, _, -, -, rfl⟩ := h
    rfl
  | _ => cases h

theorem AllMoves.image {known known' : Shelves} {done : List (Invocation × Except Halt Unit)}
    (moves : AllMoves sys w known done v known') {p : Path} {shelf : Shelf}
    (here : known' p = some shelf) :
    ∃ q first, known q = some first ∧ first.image = shelf.image := by
  induction moves generalizing p shelf with
  | start => exact ⟨p, shelf, here, rfl⟩
  | @step done known' known'' v inv moves move ih =>
    generalize ((sys.main inv).run v).1 = r at move
    cases move with
    | idle => exact ih here
    | @lost _ out =>
      by_cases same : p = out
      · rw [same, update_self] at here
        cases here
      · rw [update_of_ne same] at here
        exact ih here
    | @puts infile out given _ _ _ _ known put =>
      by_cases same : p = out
      · rw [same, update_self] at here
        cases here
        rw [put.image]
        exact ih known
      · rw [update_of_ne same] at here
        exact ih here

/-- Whatever commands are run on PE files, each file that is known at the end holds an image
of the beginning, and is verified as that image with the signature that was last moved onto
it. -/
theorem session_refines_shelves {known : Shelves} (tracks : Tracks sys.build known w.store)
    {done : List (Invocation × Except Halt Unit)}
    (session : Session sys (fun u => ∀ p, (u.store.data p).length < 2 ^ 32 - 2 ^ 16) w done v) :
    ∃ known', AllMoves sys w known done v known' ∧ ∀ p shelf, known' p = some shelf →
      (∃ q first, known q = some first ∧ first.image = shelf.image) ∧
      ((∀ x, shelf.signature = some x → ∃ s, Transparent x s) →
        ∀ opts rounds reads, verifyBytes sys.crates opts sys.build (rounds + 1) reads
          (v.store.data p) = shelf.verify sys.crates opts) := by
  have simulated : ∃ known', AllMoves sys w known done v known' ∧
      Tracks sys.build known' v.store := by
    induction session with
    | start => exact ⟨known, .start, tracks⟩
    | step inv session small ih =>
      obtain ⟨known', moves, now⟩ := ih
      obtain ⟨known'', move, next⟩ := main_moves now inv small
      exact ⟨known'', .step moves move, next⟩
  obtain ⟨known', moves, now⟩ := simulated
  exact ⟨known', moves, fun p shelf here => ⟨moves.image here,
    fun transparent opts rounds reads => (now p shelf here).verify transparent rounds reads⟩⟩

end Sessions

section Sample

def smallKnown : Shelves :=
  update (fun _ => none) "in" (some ⟨digestStream (smallPe 0 0) (smallFrame.info 0 0 240), none⟩)

theorem smallKnown_tracks : Tracks .release smallKnown signatureWorld.store := by
  intro p shelf here
  by_cases same : p = "in"
  · subst same
    cases (update_self "in" _ _).symm.trans here
    have held : signatureWorld.store.data "in" = smallPe 0 0 :=
      (data_setData_ne _ (by decide)).trans (workspace_input _ _)
    rw [held]
    exact Accepts.shelved (smallPe_unsigned .release) rfl (by rw [smallPe_length]; decide)
  · rw [smallKnown, update_of_ne same] at here
    cases here

theorem attachSmall_short (p : Path) :
    (((smallPlatform.main attachSmall).run signatureWorld).2.store.data p).length <
      2 ^ 32 - 2 ^ 16 := by
  by_cases out : p = "out"
  · subst out
    decide +kernel
  · have careful : Careful attachSmall.Refusal "out" (smallPlatform.main attachSmall) :=
      careful_main rfl
    have kept := careful.others signatureWorld p out
    rw [Store.data, kept]
    by_cases sig : p = "sig"
    · subst sig
      decide +kernel
    · by_cases here : p = "in"
      · subst here
        decide +kernel
      · simp [signatureWorld, smallWorld, Store.setData, workspace, input, output, sig, here, out]

theorem session_refines_shelves_small : ∃ known', AllMoves smallPlatform signatureWorld smallKnown
    [(attachSmall, ((smallPlatform.main attachSmall).run signatureWorld).1)]
    ((smallPlatform.main attachSmall).run signatureWorld).2 known' ∧
    ∀ p shelf, known' p = some shelf →
      (∃ q first, smallKnown q = some first ∧ first.image = shelf.image) ∧
      ((∀ x, shelf.signature = some x → ∃ s, Transparent x s) →
        ∀ opts rounds reads, verifyBytes smallPlatform.crates opts .release (rounds + 1) reads
          (((smallPlatform.main attachSmall).run signatureWorld).2.store.data p) =
            shelf.verify smallPlatform.crates opts) :=
  session_refines_shelves smallKnown_tracks (.step attachSmall .start attachSmall_short)

end Sample

end Rsigncode
