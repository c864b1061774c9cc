import Rsigncode.CliShelf

/-! The verify command, and what it says of a file that the sign command has written. -/
namespace Rsigncode

open FileStore Window Function

section Verify
variable {Key D S : Type} {sys : Platform Key D S} {w v : World (SignedData sys.crates.Cert D S)}

theorem openInput_run {infile : Path} {d : Bytes} (there : w.store.files infile = some d) :
    (sys.openInput infile).run w = (.ok ⟨infile, 0⟩, w) :=
  Prog.bind_ok ((loading_eq_ok (fsRead_inspects _ _)).mpr ⟨fsRead_outcome.mpr there, rfl⟩)

theorem openInput_there {infile : Path} {input : File}
    (run : (sys.openInput infile).run w = (.ok input, v)) :
    ∃ d, w.store.files infile = some d ∧ input = ⟨infile, 0⟩ ∧ v = w := by
  obtain ⟨d, u, opened, rest⟩ := Prog.bind_eq_ok.mp run
  obtain ⟨there, rfl⟩ := (loading_eq_ok (fsRead_inspects _ _)).mp opened
  obtain ⟨rfl, rfl⟩ := Prog.pure_eq_ok.mp rest
  exact ⟨d, fsRead_outcome.mp there, rfl, rfl⟩

def Loaded (sys : Platform Key D S) (s : Store) (path : Option Path)
    (certs : List sys.crates.Cert) : Prop :=
  match path with
  | some p => ((loadPemCerts sys.cli p).run s).1 = .ok certs
  | none => certs = []

theorem optionally_loaded {context : Option String} {path : Option Path}
    {certs : List sys.crates.Cert} :
    (sys.optionally path [] fun p => loading context (loadPemCerts sys.cli p)).run w =
      (.ok certs, v) ↔ Loaded sys w.store path certs ∧ v = w := by
  cases path with
  | none =>
    refine Prog.pure_eq_ok.trans ⟨?_, ?_⟩ <;> rintro ⟨rfl, rfl⟩ <;> exact ⟨rfl, rfl⟩
  | some p => exact loading_eq_ok (loadPemCerts_inspects _ _)

theorem verifyPeRich_outcome {opts : VerifyOptions sys.crates.Cert} {infile : Path}
    {result : VerifyResult sys.crates.Time} {s t : Store}
    (run : (verifyPeRich sys.crates opts sys.build (sys.rounds + 1) ⟨infile, 0⟩).run s =
      (.ok result, t)) :
    verifyBytes sys.crates opts sys.build (sys.rounds + 1) uncut (s.data infile) = .ok result := by
  have outcome :=
    (verifyPeRich_at sys.build s infile sys.crates opts (sys.rounds + 1) uncut).outcome
  rw [run] at outcome
  exact outcome.symm

theorem verifyPeRich_of_outcome {opts : VerifyOptions sys.crates.Cert} {infile : Path}
    {result : VerifyResult sys.crates.Time} {s : Store}
    (h : verifyBytes sys.crates opts sys.build (sys.rounds + 1) uncut (s.data infile) =
      .ok result) :
    ∃ t, (verifyPeRich sys.crates opts sys.build (sys.rounds + 1) ⟨infile, 0⟩).run s =
      (.ok result, t) :=
  have same := verifyPeRich_at sys.build s infile sys.crates opts (sys.rounds + 1) uncut
  ⟨_, Prod.ext (same.outcome.trans h) rfl⟩

theorem data_of_files {s : Store} {p : Path} {d : Bytes} (there : s.files p = some d) :
    s.data p = d := by
  rw [Store.data, there, Option.getD_some]

theorem println_run (lines : List String) (w : World (SignedData sys.crates.Cert D S)) :
    (println lines).run w = (.ok (), { w with stdout := w.stdout ++ lines }) := rfl

def Platform.succeeded (sys : Platform Key D S) (result : VerifyResult sys.crates.Time) :
    List String :=
  printVerifyResult sys.crates.hexEncode sys.strftime result ++ ["Succeeded"]

def Platform.printed (sys : Platform Key D S) (result : VerifyResult sys.crates.Time) :
    List String :=
  if result.allOk then sys.succeeded result
  else printVerifyResult sys.crates.hexEncode sys.strftime result

def told (ok : Bool) : Except Halt Unit :=
  if ok then .ok () else .error (.failed none (.message "Failed"))

theorem told_eq_ok {ok : Bool} : told ok = .ok () ↔ ok = true := by
  cases ok <;> simp [told]

theorem cmdVerify_ends {args : VerifyArgs} {d : Bytes} {caCerts tsaCerts : List sys.crates.Cert}
    {result : VerifyResult sys.crates.Time} (there : w.store.files args.infile = some d)
    (loaded : Loaded sys w.store args.cafile caCerts)
    (loaded' : Loaded sys w.store args.tsaCafile tsaCerts)
    (accepted : verifyBytes sys.crates ⟨caCerts, args.requireLeafHash, args.ignoreTimestamp⟩
      sys.build (sys.rounds + 1) uncut d = .ok result) :
    ∃ v, (sys.cmdVerify args).run w = (told result.allOk, v) ∧
      v.stdout = w.stdout ++ sys.printed result := by
  rw [← data_of_files there] at accepted
  obtain ⟨t, verified⟩ := verifyPeRich_of_outcome accepted
  rw [Platform.cmdVerify, Prog.bind_ok (openInput_run there),
    Prog.bind_ok (optionally_loaded.mpr ⟨loaded, rfl⟩),
    Prog.bind_ok (optionally_loaded.mpr ⟨loaded', rfl⟩),
    Prog.bind_ok (onStore_eq_ok.mpr ⟨t, verified, rfl⟩), Prog.bind_ok (println_run _ _)]
  unfold Platform.printed
  cases result.allOk with
  | true => exact ⟨_, rfl, List.append_assoc _ _ _⟩
  | false => exact ⟨_, rfl, rfl⟩

/-- The verify command succeeds exactly on a file that is there, with certificate files that
load, where the library accepts the contents; it prints the report and the success. -/
theorem cmdVerify_ok_iff (args : VerifyArgs) (lines : List String) :
    (∃ v, (sys.cmdVerify args).run w = (.ok (), v) ∧ v.stdout = w.stdout ++ lines) ↔
      ∃ d caCerts tsaCerts result, w.store.files args.infile = some d ∧
        Loaded sys w.store args.cafile caCerts ∧ Loaded sys w.store args.tsaCafile tsaCerts ∧
        verifyBytes sys.crates ⟨caCerts, args.requireLeafHash, args.ignoreTimestamp⟩ sys.build
          (sys.rounds + 1) uncut d = .ok result ∧
        result.allOk = true ∧ lines = sys.succeeded result := by
  constructor
  · rintro ⟨v, run, printed⟩
    obtain ⟨input, _, opened, run₁⟩ := Prog.bind_eq_ok.mp run
    obtain ⟨d, there, rfl, rfl⟩ := openInput_there opened
    obtain ⟨caCerts, _, first, run₂⟩ := Prog.bind_eq_ok.mp run₁
    obtain ⟨loaded, rfl⟩ := optionally_loaded.mp first
    obtain ⟨tsaCerts, _, second, run₃⟩ := Prog.bind_eq_ok.mp run₂
    obtain ⟨loaded', rfl⟩ := optionally_loaded.mp second
    obtain ⟨result, _, third, run₄⟩ := Prog.bind_eq_ok.mp run₃
    obtain ⟨t, verified, rfl⟩ := onStore_eq_ok.mp third
    have accepted := verifyPeRich_outcome verified
    rw [data_of_files there] at accepted
    refine ⟨d, caCerts, tsaCerts, result, there, loaded, loaded', accepted, ?_⟩
    rw [Prog.bind_ok (println_run _ _)] at run₄
    cases ok : result.allOk with
    | false =>
      rw [ok] at run₄
      cases run₄
    | true =>
      rw [ok] at run₄
      cases run₄
      exact ⟨rfl, (List.append_cancel_left (printed.symm.trans (List.append_assoc _ _ _)))⟩
  · rintro ⟨d, caCerts, tsaCerts, result, there, loaded, loaded', accepted, ok, rfl⟩
    obtain ⟨v, run, printed⟩ := cmdVerify_ends there loaded loaded' accepted
    rw [ok] at run
    rw [Platform.printed, if_pos ok] at printed
    exact ⟨v, run, printed⟩

end Verify

end Rsigncode
