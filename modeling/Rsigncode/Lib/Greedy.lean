import Mathlib.Data.List.Sort

/-! Walks in a graph, and the one walk of a procedure that commits to its first choice.
What the procedure meets depends on which choice comes first; the walks do not. -/
namespace Greedy

variable {α : Type} {goal : α → Prop} {next : α → α → Prop} {pick : α → Option α}

variable (goal next) in
def Reaches : Nat → α → Prop
  | 0, a => goal a
  | n + 1, a => goal a ∨ ∃ b, next a b ∧ Reaches n b

variable (goal next) in
/-- A walk of `n` vertices, or of fewer when it ends in a dead end, meets no goal. -/
def Avoids : Nat → α → Prop
  | 0, _ => True
  | n + 1, a => ¬ goal a ∧ ((∀ b, ¬ next a b) ∨ ∃ b, next a b ∧ Avoids n b)

variable (goal) in
def Meets (pick : α → Option α) (n : Nat) (a : α) : Prop :=
  Reaches goal (fun a b => pick a = some b) n a

structure Picks (next : α → α → Prop) (pick : α → Option α) : Prop where
  edge : ∀ {a b}, pick a = some b → next a b
  stuck : ∀ {a}, pick a = none → ∀ b, ¬ next a b

theorem Reaches.of_goal {n : Nat} {a : α} (h : goal a) : Reaches goal next n a := by
  cases n with
  | zero => exact h
  | succ n => exact .inl h

theorem Reaches.succ {n : Nat} {a : α} (h : Reaches goal next n a) :
    Reaches goal next (n + 1) a := by
  induction n generalizing a with
  | zero => exact .inl h
  | succ n ih =>
    obtain here | ⟨b, edge, rest⟩ := h
    · exact .inl here
    · exact .inr ⟨b, edge, ih rest⟩

theorem Reaches.mono {m n : Nat} {a : α} (h : Reaches goal next m a) (le : m ≤ n) :
    Reaches goal next n a := by
  induction le with
  | refl => exact h
  | step _ ih => exact ih.succ

theorem Avoids.pred {n : Nat} {a : α} (h : Avoids goal next (n + 1) a) :
    Avoids goal next n a := by
  induction n generalizing a with
  | zero => trivial
  | succ n ih =>
    obtain ⟨here, dead | ⟨b, edge, rest⟩⟩ := h
    · exact ⟨here, .inl dead⟩
    · exact ⟨here, .inr ⟨b, edge, ih rest⟩⟩

theorem Avoids.anti {m n : Nat} {a : α} (h : Avoids goal next n a) (le : m ≤ n) :
    Avoids goal next m a := by
  induction le with
  | refl => exact h
  | step _ ih => exact ih h.pred

theorem Meets.reaches (picks : Picks next pick) {n : Nat} {a : α} (h : Meets goal pick n a) :
    Reaches goal next n a := by
  induction n generalizing a with
  | zero => exact h
  | succ n ih =>
    obtain here | ⟨b, taken, rest⟩ := h
    · exact .inl here
    · exact .inr ⟨b, picks.edge taken, ih rest⟩

theorem Avoids.of_not_meets (picks : Picks next pick) {n : Nat} {a : α}
    (h : ¬ Meets goal pick n a) : Avoids goal next (n + 1) a := by
  induction n generalizing a with
  | zero =>
    refine ⟨h, ?_⟩
    cases taken : pick a with
    | none => exact .inl (picks.stuck taken)
    | some b => exact .inr ⟨b, picks.edge taken, trivial⟩
  | succ n ih =>
    refine ⟨fun here => h (.inl here), ?_⟩
    cases taken : pick a with
    | none => exact .inl (picks.stuck taken)
    | some b => exact .inr ⟨b, picks.edge taken, ih fun rest => h (.inr ⟨b, taken, rest⟩)⟩

/-- A procedure that never takes a longer way to a goal than it has to finds one. -/
theorem Reaches.meets (picks : Picks next pick)
    (best : ∀ {a b c}, pick a = some b → next a c → ∀ m, Reaches goal next m c →
      Reaches goal next m b)
    {n : Nat} {a : α} (h : Reaches goal next n a) : Meets goal pick n a := by
  induction n generalizing a with
  | zero => exact h
  | succ n ih =>
    obtain here | ⟨c, edge, rest⟩ := h
    · exact .inl here
    · cases taken : pick a with
      | none => exact absurd edge (picks.stuck taken c)
      | some b => exact .inr ⟨b, taken, ih (best taken edge n rest)⟩

/-- A procedure that stays away from the goals as long as it can meets none. -/
theorem Avoids.not_meets (picks : Picks next pick)
    (worst : ∀ {a b c}, pick a = some b → next a c → ∀ m, Avoids goal next m c →
      Avoids goal next m b)
    {n : Nat} {a : α} (h : Avoids goal next (n + 1) a) : ¬ Meets goal pick n a := by
  induction n generalizing a with
  | zero => exact h.1
  | succ n ih =>
    obtain ⟨here, away⟩ := h
    rintro (met | ⟨b, taken, rest⟩)
    · exact here met
    · obtain dead | ⟨c, edge, away⟩ := away
      · exact dead b (picks.edge taken)
      · exact ih (worst taken edge (n + 1) away) rest

/-- Of two vertices one satisfies every member of a growing family that the other does. -/
theorem total_of_mono (P : Nat → α → Prop) (mono : ∀ {m n a}, P m a → m ≤ n → P n a) (a b : α) :
    (∀ m, P m b → P m a) ∨ (∀ m, P m a → P m b) := by
  by_contra none
  simp only [not_or, not_forall] at none
  obtain ⟨⟨m, mb, ma⟩, n, na, nb⟩ := none
  obtain le | le := Nat.le_total m n
  · exact nb (mono mb le)
  · exact ma (mono na le)

theorem total_of_anti (P : Nat → α → Prop) (anti : ∀ {m n a}, P n a → m ≤ n → P m a) (a b : α) :
    (∀ m, P m b → P m a) ∨ (∀ m, P m a → P m b) := by
  have total := total_of_mono (fun m a => ¬ P m a) (fun not le holds => not (anti holds le)) b a
  simpa only [not_imp_not] using total

theorem find?_of_pairwise {r : α → α → Prop} (refl : ∀ a, r a a) {l : List α}
    (sorted : l.Pairwise r) {p : α → Bool} {b c : α} (found : l.find? p = some b) (here : c ∈ l)
    (passes : p c = true) : r b c := by
  induction sorted with
  | nil => cases here
  | @cons a l first _ ih =>
    rw [List.find?_cons] at found
    cases test : p a with
    | true =>
      simp only [test, Option.some.injEq] at found
      subst found
      cases here with
      | head => exact refl _
      | tail _ later => exact first c later
    | false =>
      simp only [test] at found
      cases here with
      | head => rw [passes] at test; cases test
      | tail _ later => exact ih found later

/-- A list can be ordered so that the first member to pass a test is the best of those
that pass it, whatever the test. -/
theorem exists_perm_first {r : α → α → Prop} (total : ∀ a b, r a b ∨ r b a)
    (trans : ∀ {a b c}, r a b → r b c → r a c) (l : List α) :
    ∃ l' : List α, l'.Perm l ∧ ∀ {p : α → Bool} {b c}, l'.find? p = some b → c ∈ l → p c = true →
      r b c := by
  classical
  have : Std.Total r := ⟨total⟩
  have : IsTrans α r := ⟨fun _ _ _ => trans⟩
  have perm := List.perm_insertionSort r l
  refine ⟨l.insertionSort r, perm, fun found here => ?_⟩
  exact find?_of_pairwise (fun a => (total a a).elim id id) (List.pairwise_insertionSort r l)
    found (perm.mem_iff.mpr here)

end Greedy
