import Rsigncode.PeDigest

/-! The walk through the attribute certificate table, round by round, and when it ends. -/
namespace Rsigncode

open FileStore Window Number

inductive Round where
  | done (found : Option Bytes)
  | next (f : File) (pos : Nat)

/-- One iteration of the loop of `extractLoop`. -/
def extractRound (b : Build) (f : File) (pe : PeInfo) (pos : Nat) : Proc Round :=
  if pos < pe.siglen then do
    let start ← .ofExcept (b.add pe.sigpos pos)
    let f := f.seek start
    let (len, f) ← readU32 f
    .rejectIf (len < 8)
      (.error (.invalidPe ("malformed WIN_CERTIFICATE: length " ++ toString len ++ " < 8")))
    let (revision, f) ← readU16 f
    let (certType, f) ← readU16 f
    if revision = winCertRevision20 ∧ certType = winCertTypePkcsSignedData then do
      let (der, _) ← f.readExact (len - 8)
      pure (.done (some der))
    else do
      let aligned ← .ofExcept (b.add len ((8 - len % 8) % 8))
      let pos ← .ofExcept (b.add pos aligned)
      pure (.next f pos)
  else pure (.done none)

def Round.resume (loop : File → Nat → Proc (Option Bytes)) : Round → Proc (Option Bytes)
  | .done found => pure found
  | .next f pos => loop f pos

theorem extractLoop_succ (b : Build) (f : File) (pe : PeInfo) (rounds pos : Nat) :
    extractLoop b f pe (rounds + 1) pos =
      extractRound b f pe pos >>= Round.resume fun f pos => extractLoop b f pe rounds pos := by
  rw [extractLoop, extractRound]
  split
  · simp only [Prog.bind_assoc]
    congr 1; funext start
    congr 1; funext ⟨len, f⟩
    congr 1; funext _
    congr 1; funext ⟨revision, f⟩
    congr 1; funext ⟨certType, f⟩
    dsimp only
    split <;> simp only [Prog.bind_assoc, Prog.pure_bind, Round.resume]
  · rfl

def IsSignature (d : Bytes) (start : Nat) : Prop :=
  u16At d (start + 4) = winCertRevision20 ∧ u16At d (start + 6) = winCertTypePkcsSignedData

theorem extractRound_eq_ok {b : Build} {f : File} {pe : PeInfo} {pos : Nat} {r : Round}
    {s t : Store} (small : pe.sigpos + pe.siglen < 2 ^ 32) (inTable : pos < pe.siglen) :
    (extractRound b f pe pos).run s = (.ok r, t) ↔
      t = s ∧ pe.sigpos + pos + 8 ≤ (s.data f.path).length ∧
      8 ≤ u32At (s.data f.path) (pe.sigpos + pos) ∧
      (IsSignature (s.data f.path) (pe.sigpos + pos) ∧
          pe.sigpos + pos + u32At (s.data f.path) (pe.sigpos + pos) ≤ (s.data f.path).length ∧
          r = .done (some (slice (s.data f.path) (pe.sigpos + pos + 8)
            (pe.sigpos + pos + u32At (s.data f.path) (pe.sigpos + pos)))) ∨
        ¬ IsSignature (s.data f.path) (pe.sigpos + pos) ∧ ∃ aligned pos',
          b.add (u32At (s.data f.path) (pe.sigpos + pos))
            (pad8 (u32At (s.data f.path) (pe.sigpos + pos))) = .ok aligned ∧
          b.add pos aligned = .ok pos' ∧ r = .next (f.seek (pe.sigpos + pos + 8)) pos') := by
  have sum : b.add pe.sigpos pos = .ok (pe.sigpos + pos) := add_of_lt (by omega)
  rw [extractRound, if_pos inTable]
  generalize pe.sigpos + pos = start at *
  by_cases here : IsSignature (s.data f.path) start
  · obtain ⟨revision, certType⟩ := id here
    have joined : 8 ≤ u32At (s.data f.path) start →
        start + (8 + (u32At (s.data f.path) start - 8)) = start + u32At (s.data f.path) start := by
      omega
    simp only [Prog.bind_eq_ok, Prog.ofExcept_eq_ok, readU32_eq_ok, readU16_eq_ok,
      Prog.rejectIf_eq_ok, Prod.exists, seek_pos, seek_path, seek_seek, and_assoc, exists_and_left,
      exists_eq_left, exists_const, sum, Except.ok.injEq, exists_eq_left', Nat.add_assoc,
      Nat.reduceAdd, revision, certType, and_self, if_true, readExact_eq_ok, Prog.pure_eq_ok, here,
      not_true_eq_false, false_and, or_false, true_and]
    constructor
    · rintro ⟨-, whole, -, header, inside, rfl, rfl⟩
      have whole := Nat.not_lt.mp whole
      rw [joined whole] at inside ⊢
      exact ⟨rfl, header, whole, inside, rfl⟩
    · rintro ⟨rfl, header, whole, inside, rfl⟩
      rw [joined whole]
      exact ⟨by omega, by omega, by omega, header, inside, rfl, rfl⟩
  · have other := here
    simp only [IsSignature] at other
    simp only [Prog.bind_eq_ok, Prog.ofExcept_eq_ok, readU32_eq_ok, readU16_eq_ok,
      Prog.rejectIf_eq_ok, Prod.exists, seek_pos, seek_path, seek_seek, and_assoc, exists_and_left,
      exists_eq_left, exists_const, sum, Except.ok.injEq, exists_eq_left', Nat.add_assoc,
      Nat.reduceAdd, other, if_false, Prog.pure_eq_ok, here, not_false_eq_true, false_and, false_or,
      true_and]
    constructor
    · rintro ⟨-, whole, -, header, aligned, rounded, pos', moved, rfl, rfl⟩
      exact ⟨rfl, header, Nat.not_lt.mp whole, aligned, rounded, pos', moved, rfl⟩
    · rintro ⟨rfl, header, whole, aligned, rounded, pos', moved, rfl⟩
      exact ⟨by omega, by omega, by omega, header, aligned, rounded, pos', moved, rfl, rfl⟩

/-- An entry in the table that is no signature, so that the walk goes past it. -/
structure Foreign (d : Bytes) (pe : PeInfo) (pos : Nat) : Prop where
  inTable : pos < pe.siglen
  header : pe.sigpos + pos + 8 ≤ d.length
  whole : 8 ≤ u32At d (pe.sigpos + pos)
  other : ¬ IsSignature d (pe.sigpos + pos)

def entryEnd (d : Bytes) (pe : PeInfo) (pos : Nat) : Nat :=
  pos + (u32At d (pe.sigpos + pos) + pad8 (u32At d (pe.sigpos + pos)))

theorem extractRound_next {b : Build} {f g : File} {pe : PeInfo} {pos pos' : Nat} {s t : Store}
    (small : pe.sigpos + pe.siglen < 2 ^ 32) :
    (extractRound b f pe pos).run s = (.ok (.next g pos'), t) ↔
      t = s ∧ g = f.seek (pe.sigpos + pos + 8) ∧ Foreign (s.data f.path) pe pos ∧
        ∃ aligned, b.add (u32At (s.data f.path) (pe.sigpos + pos))
          (pad8 (u32At (s.data f.path) (pe.sigpos + pos))) = .ok aligned ∧
          b.add pos aligned = .ok pos' := by
  by_cases inTable : pos < pe.siglen
  · rw [extractRound_eq_ok small inTable]
    constructor
    · rintro ⟨rfl, header, whole, ⟨-, -, answer⟩ | ⟨other, aligned, _, rounded, moved, same⟩⟩
      · cases answer
      · cases same
        exact ⟨rfl, rfl, ⟨inTable, header, whole, other⟩, aligned, rounded, moved⟩
    · rintro ⟨rfl, rfl, ⟨-, header, whole, other⟩, aligned, rounded, moved⟩
      exact ⟨rfl, header, whole, .inr ⟨other, aligned, pos', rounded, moved, rfl⟩⟩
  · rw [extractRound, if_neg inTable, Prog.pure_eq_ok]
    constructor
    · rintro ⟨answer, -⟩
      cases answer
    · rintro ⟨-, -, foreign, -⟩
      exact absurd foreign.inTable inTable

theorem add_rounded {b : Build} {len pos aligned pos' : Nat} (hl : len < 2 ^ 32)
    (hp : pos < 2 ^ 32) (rounded : b.add len (pad8 len) = .ok aligned)
    (moved : b.add pos aligned = .ok pos') :
    pos + (len + pad8 len) < 2 ^ 32 ∧ pos' = pos + (len + pad8 len) ∨
      2 ^ 32 ≤ pos + (len + pad8 len) ∧ b = .release ∧ pos' ≤ pos := by
  have pad := pad8_lt len
  have exact := add_pad8 len
  cases b with
  | release =>
    have wrapped := add_eq_ok rounded
    have wrapped' := add_eq_ok moved
    simp only [asU32] at wrapped wrapped'
    by_cases fits : pos + (len + pad8 len) < 2 ^ 32
    · exact .inl ⟨fits, by omega⟩
    · exact .inr ⟨by omega, rfl, by omega⟩
  | checked =>
    unfold Build.add at rounded moved
    split at rounded
    · cases rounded
      split at moved
      · rename_i fits
        cases moved
        exact .inl ⟨fits, rfl⟩
      · cases moved
    · cases rounded

theorem extractRound_never_fuel (b : Build) (f : File) (pe : PeInfo) (pos : Nat) :
    Prog.Never .fuel (extractRound b f pe pos) := by
  have other : Fault.fuel ≠ .panic := by decide
  have add := fun x y => Prog.never_ofExcept (σ := Store) (add_ne_error other b x y)
  have read : Fault.fuel ≠ OfIo.ofIo .unexpectedEof := by decide
  unfold extractRound
  split
  · refine (add _ _).bind fun start => (readU32_never read _).bind ?_
    rintro ⟨len, f⟩
    refine (Prog.never_rejectIf (by simp)).bind fun _ => (readU16_never read _).bind ?_
    rintro ⟨revision, f⟩
    refine (readU16_never read _).bind ?_
    rintro ⟨certType, f⟩
    dsimp only
    split
    · exact (readExact_never _ _ read).bind fun _ => Prog.never_pure _
    · exact (add _ _).bind fun _ => (add _ _).bind fun _ => Prog.never_pure _
  · exact Prog.never_pure _

def roundBytes (b : Build) (d : Bytes) (pe : PeInfo) (pos : Nat) : Res Round :=
  ((extractRound b input pe pos).run (workspace d uncut)).1

inductive Walked (b : Build) (d : Bytes) (pe : PeInfo) : Nat → Prop where
  | start : Walked b d pe 0
  | step {pos pos' : Nat} {f : File} (walked : Walked b d pe pos)
      (round : roundBytes b d pe pos = .ok (.next f pos')) : Walked b d pe pos'

/-- Where the entries of the table end, going past one that is no signature after another. -/
inductive Passed (d : Bytes) (pe : PeInfo) : Nat → Prop where
  | start : Passed d pe 0
  | step {pos : Nat} (passed : Passed d pe pos) (foreign : Foreign d pe pos) :
      Passed d pe (entryEnd d pe pos)

/-- Every iteration that does not return moves on, and an iteration for each eight bytes
of the table is enough. -/
structure WalkEnds (b : Build) (d : Bytes) (pe : PeInfo) : Prop where
  progress : ∀ {pos pos' : Nat} {f : File}, Walked b d pe pos →
    roundBytes b d pe pos = .ok (.next f pos') → pos < pos'
  finishes : ∀ rounds, (pe.siglen + 7) / 8 ≤ rounds → extractBytes b rounds d pe ≠ .error .fuel

theorem entryEnd_ge {d : Bytes} {pe : PeInfo} {pos : Nat} (foreign : Foreign d pe pos) :
    pos + 8 ≤ entryEnd d pe pos := by
  have whole := foreign.whole
  rw [entryEnd]
  omega

theorem extractRound_moves {b : Build} {f g : File} {pe : PeInfo} {pos pos' : Nat} {s t : Store}
    (small : pe.sigpos + pe.siglen < 2 ^ 32)
    (run : (extractRound b f pe pos).run s = (.ok (.next g pos'), t)) :
    t = s ∧ g.path = f.path ∧ Foreign (s.data f.path) pe pos ∧
      (entryEnd (s.data f.path) pe pos < 2 ^ 32 ∧ pos' = entryEnd (s.data f.path) pe pos ∨
        2 ^ 32 ≤ entryEnd (s.data f.path) pe pos ∧ b = .release ∧ pos' ≤ pos) := by
  obtain ⟨rfl, rfl, foreign, aligned, rounded, moved⟩ := (extractRound_next small).mp run
  have inTable := foreign.inTable
  exact ⟨rfl, rfl, foreign, add_rounded (u32At_lt _ _) (by omega) rounded moved⟩

/-- Where no sum can wrap, the loop is done once the rounds left cover the table. -/
theorem extractLoop_finishes {b : Build} {f : File} {pe : PeInfo} {rounds pos : Nat} {s : Store}
    (small : pe.sigpos + pe.siglen < 2 ^ 32)
    (fits : b = .release → ∀ pos, Passed (s.data f.path) pe pos →
      Foreign (s.data f.path) pe pos → entryEnd (s.data f.path) pe pos < 2 ^ 32)
    (passed : Passed (s.data f.path) pe pos) (enough : pe.siglen ≤ pos + 8 * rounds) :
    ((extractLoop b f pe rounds pos).run s).1 ≠ .error .fuel := by
  induction rounds generalizing f pos with
  | zero =>
    rw [extractLoop, if_neg (by omega)]
    exact Prog.never_pure _ s
  | succ rounds ih =>
    rw [extractLoop_succ]
    rcases run : (extractRound b f pe pos).run s with ⟨e | found | ⟨g, pos'⟩, t⟩
    · have never := extractRound_never_fuel b f pe pos s
      rw [run] at never
      rw [Prog.bind_error run]
      exact fun same => never (congrArg Except.error (Except.error.inj same))
    · rw [Prog.bind_ok run]
      exact Prog.never_pure _ t
    · rw [Prog.bind_ok run]
      obtain ⟨rfl, path, foreign, ⟨-, rfl⟩ | ⟨beyond, release, -⟩⟩ := extractRound_moves small run
      · have moved := entryEnd_ge foreign
        rw [← path] at fits passed foreign moved ⊢
        exact ih fits (passed.step foreign) (by omega)
      · have below := fits release pos passed foreign
        omega

theorem roundBytes_eq_ok {b : Build} {d : Bytes} {pe : PeInfo} {pos : Nat} {r : Round} :
    roundBytes b d pe pos = .ok r ↔
      ∃ t, (extractRound b input pe pos).run (workspace d uncut) = (.ok r, t) := by
  rw [roundBytes]
  constructor
  · intro h
    exact ⟨_, Prod.ext h rfl⟩
  · rintro ⟨t, run⟩
    rw [run]

theorem roundBytes_moves {b : Build} {d : Bytes} {pe : PeInfo} {pos pos' : Nat} {f : File}
    (small : pe.sigpos + pe.siglen < 2 ^ 32)
    (round : roundBytes b d pe pos = .ok (.next f pos')) :
    Foreign d pe pos ∧ (entryEnd d pe pos < 2 ^ 32 ∧ pos' = entryEnd d pe pos ∨
      2 ^ 32 ≤ entryEnd d pe pos ∧ b = .release ∧ pos' ≤ pos) := by
  obtain ⟨t, run⟩ := roundBytes_eq_ok.mp round
  simpa only [workspace_input] using (extractRound_moves small run).2.2

theorem roundBytes_foreign {d : Bytes} {pe : PeInfo} {pos : Nat}
    (small : pe.sigpos + pe.siglen < 2 ^ 32) (foreign : Foreign d pe pos) :
    ∃ f pos', roundBytes .release d pe pos = .ok (.next f pos') := by
  obtain ⟨aligned, rounded⟩ : ∃ aligned, Build.release.add (u32At d (pe.sigpos + pos))
      (pad8 (u32At d (pe.sigpos + pos))) = .ok aligned := ⟨_, add_release _ _⟩
  obtain ⟨pos', moved⟩ : ∃ pos', Build.release.add pos aligned = .ok pos' := ⟨_, add_release _ _⟩
  refine ⟨_, pos', roundBytes_eq_ok.mpr ⟨_, (extractRound_next small).mpr
    ⟨rfl, rfl, ?_, aligned, ?_, moved⟩⟩⟩ <;> rwa [workspace_input]

theorem WalkEnds.walked_end {d : Bytes} {pe : PeInfo} {pos : Nat} (ends : WalkEnds .release d pe)
    (small : pe.sigpos + pe.siglen < 2 ^ 32) (walked : Walked .release d pe pos)
    (foreign : Foreign d pe pos) :
    Walked .release d pe (entryEnd d pe pos) ∧ entryEnd d pe pos < 2 ^ 32 := by
  obtain ⟨f, pos', round⟩ := roundBytes_foreign small foreign
  have moved := ends.progress walked round
  obtain ⟨-, ⟨below, rfl⟩ | ⟨-, -, back⟩⟩ := roundBytes_moves small round
  · exact ⟨walked.step round, below⟩
  · omega

theorem WalkEnds.walked {d : Bytes} {pe : PeInfo} {pos : Nat} (ends : WalkEnds .release d pe)
    (small : pe.sigpos + pe.siglen < 2 ^ 32) (passed : Passed d pe pos) :
    Walked .release d pe pos := by
  induction passed with
  | start => exact .start
  | step _ foreign ih => exact (ends.walked_end small ih foreign).1

theorem roundBytes_fits {b : Build} {d : Bytes} {pe : PeInfo} {pos pos' : Nat} {f : File}
    (small : pe.sigpos + pe.siglen < 2 ^ 32)
    (fits : b = .release → Foreign d pe pos → entryEnd d pe pos < 2 ^ 32)
    (round : roundBytes b d pe pos = .ok (.next f pos')) :
    Foreign d pe pos ∧ pos' = entryEnd d pe pos := by
  obtain ⟨foreign, ⟨-, same⟩ | ⟨beyond, release, -⟩⟩ := roundBytes_moves small round
  · exact ⟨foreign, same⟩
  · have below := fits release foreign
    omega

theorem Walked.passed {b : Build} {d : Bytes} {pe : PeInfo} {pos : Nat}
    (small : pe.sigpos + pe.siglen < 2 ^ 32)
    (fits : b = .release → ∀ pos, Passed d pe pos → Foreign d pe pos → entryEnd d pe pos < 2 ^ 32)
    (walked : Walked b d pe pos) : Passed d pe pos := by
  induction walked with
  | start => exact .start
  | step _ round ih =>
    obtain ⟨foreign, rfl⟩ := roundBytes_fits small (fun release => fits release _ ih) round
    exact ih.step foreign

/-- The walk ends as it should exactly when no entry it passes ends, rounded up, past what
a position can hold; a checked build panics there instead. -/
theorem walkEnds_iff {b : Build} {d : Bytes} {pe : PeInfo} (accepted : parseBytes b d = .ok pe)
    (signed : 0 < pe.sigpos) :
    WalkEnds b d pe ↔ (b = .release → ∀ pos, Passed d pe pos → Foreign d pe pos →
      entryEnd d pe pos < 2 ^ 32) := by
  have accepts := parseBytes_eq_ok.mp accepted
  have small := accepts.table_small
  constructor
  · rintro ends rfl pos passed foreign
    exact (ends.walked_end small (ends.walked small passed) foreign).2
  · intro fits
    refine ⟨fun {pos pos' f} walked round => ?_, fun rounds enough => ?_⟩
    · have passed := walked.passed small fits
      obtain ⟨foreign, rfl⟩ := roundBytes_fits small (fun release => fits release pos passed) round
      have moved := entryEnd_ge foreign
      omega
    · have table := accepts.table
      rw [extractBytes, extractSignature, if_neg (by omega)]
      refine extractLoop_finishes small ?_ ?_ (by omega)
      · rwa [workspace_input]
      · rw [workspace_input]
        exact .start

def smallTable (table : Bytes) : Bytes :=
  smallFrame.file (zeros 4) (directoryEntry 224 table.length) table

theorem smallTable_length (table : Bytes) : (smallTable table).length = 224 + table.length :=
  smallFrame.file_length (by decide) (directoryEntry_length _ _)

theorem smallTable_parse (b : Build) {table : Bytes} (some : 16 ≤ table.length)
    (small : table.length < 2 ^ 31) : parseBytes b (smallTable table) =
      .ok (smallFrame.info 224 table.length (224 + table.length)) := by
  refine parseBytes_eq_ok.mpr (smallFrame.accepts b (by decide) (directoryEntry_length _ _)
    (smallTable_length table) (by omega) ?_ ?_)
  · have size : smallFrame.headerSize = 64 := rfl
    omega
  · rw [directoryEntry_low _ (by omega), directoryEntry_high _ (by omega)]
    exact signatureDirectory_trailing b (by omega) (by omega) rfl (by omega)

def foreignTable : Bytes := le 4 12 ++ le 2 0x0100 ++ le 2 2 ++ zeros 24

theorem foreignTable_first : Foreign (smallTable foreignTable) (smallFrame.info 224 32 256) 0 ∧
    entryEnd (smallTable foreignTable) (smallFrame.info 224 32 256) 0 = 16 :=
  ⟨⟨by decide, by rw [smallTable_length]; decide, by decide +kernel, by
    rw [IsSignature]; decide +kernel⟩, by decide +kernel⟩

theorem walkEnds_iff_foreign : Passed (smallTable foreignTable) (smallFrame.info 224 32 256) 16 ∧
    WalkEnds .release (smallTable foreignTable) (smallFrame.info 224 32 256) := by
  obtain ⟨first, moved⟩ := foreignTable_first
  have last : ¬ Foreign (smallTable foreignTable) (smallFrame.info 224 32 256) 16 :=
    fun foreign => absurd foreign.whole (by decide +kernel)
  have accepted : parseBytes .release (smallTable foreignTable) =
      .ok (smallFrame.info 224 32 256) := smallTable_parse .release (by decide) (by decide)
  refine ⟨moved ▸ .step .start first, (walkEnds_iff accepted (by decide)).mpr ?_⟩
  intro _ pos passed foreign
  have here : pos = 0 ∨ pos = 16 := by
    clear foreign
    induction passed with
    | start => exact .inl rfl
    | step _ foreign ih =>
      rcases ih with rfl | rfl
      · exact .inr moved
      · exact absurd foreign last
  rcases here with rfl | rfl
  · rw [moved]
    decide
  · exact absurd foreign last

def spinTable : Bytes := le 4 0xFFFFFFFF ++ zeros 12

theorem spin_foreign : Foreign (smallTable spinTable) (smallFrame.info 224 16 240) 0 :=
  ⟨by decide, by rw [smallTable_length]; decide, by decide +kernel, by
    rw [IsSignature]; decide +kernel⟩

/-- Its length rounds up to nothing, and the loop reads it again for ever. -/
theorem spin_never_ends (rounds : Nat) :
    extractBytes .release rounds (smallTable spinTable) (smallFrame.info 224 16 240) =
      .error .fuel := by
  have loop : ∀ f : File, f.path = input.path →
      ((extractLoop .release f (smallFrame.info 224 16 240) rounds 0).run
        (workspace (smallTable spinTable) uncut)).1 = .error .fuel := by
    induction rounds with
    | zero => exact fun _ _ => rfl
    | succ rounds ih =>
      intro f path
      have data : (workspace (smallTable spinTable) uncut).data f.path = smallTable spinTable := by
        rw [path, workspace_input]
      have round : (extractRound .release f (smallFrame.info 224 16 240) 0).run
          (workspace (smallTable spinTable) uncut) = (.ok (.next _ 0), _) :=
        (extractRound_next (by decide)).mpr
          ⟨rfl, rfl, by rw [data]; exact spin_foreign, 0, by rw [data]; decide +kernel, by decide⟩
      rw [extractLoop_succ, Prog.bind_ok round]
      exact ih _ path
  exact loop input rfl

theorem walk_spins : ¬ ∀ (b : Build) (d : Bytes) (pe : PeInfo), d.length < 2 ^ 32 →
    parseBytes b d = .ok pe → 0 < pe.sigpos → WalkEnds b d pe := by
  intro claim
  have ends := claim .release (smallTable spinTable) (smallFrame.info 224 16 240)
    (by rw [smallTable_length]; decide)
    (smallTable_parse .release (by decide) (by decide)) (by decide)
  exact ends.finishes 2 (by decide) (spin_never_ends 2)

end Rsigncode
