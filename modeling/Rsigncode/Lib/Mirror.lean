import Rsigncode.Lib.FileStore

/-! Two runs side by side, each on a file of its own. Where both files hold the same, what
only reads them ends the same. -/
namespace FileStore

variable {ε α α' β β' : Type}

/-- From these stores, which both keep, the two programs fail alike or return related
results. -/
def Mirrors (s t : Store) (r : α → α' → Prop) (x : Prog Store ε α) (y : Prog Store ε α') : Prop :=
  (∃ e, x.run s = (.error e, s) ∧ y.run t = (.error e, t)) ∨
    ∃ a a', x.run s = (.ok a, s) ∧ y.run t = (.ok a', t) ∧ r a a'

structure Twin (s t : Store) (f g : File) : Prop where
  pos : f.pos = g.pos
  data : s.data f.path = t.data g.path

variable {s t : Store}

theorem Twin.seek {f g : File} (h : Twin s t f g) (n : Nat) : Twin s t (f.seek n) (g.seek n) :=
  ⟨rfl, h.data⟩

theorem mirrors_pure {r : α → α' → Prop} {a : α} {a' : α'} (h : r a a') :
    Mirrors s t r (pure a : Prog Store ε α) (pure a') :=
  .inr ⟨a, a', rfl, rfl, h⟩

theorem mirrors_ofExcept (x : Except ε α) :
    Mirrors s t Eq (Prog.ofExcept x) (Prog.ofExcept x) := by
  cases x with
  | error e => exact .inl ⟨e, rfl, rfl⟩
  | ok a => exact .inr ⟨a, a, rfl, rfl, rfl⟩

theorem mirrors_rejectIf (c : Prop) [Decidable c] (e : ε) :
    Mirrors s t Eq (Prog.rejectIf c e) (Prog.rejectIf c e) := by
  unfold Prog.rejectIf
  split
  · exact mirrors_ofExcept (.error e)
  · exact mirrors_pure rfl

theorem Mirrors.bind {r : α → α' → Prop} {q : β → β' → Prop} {x : Prog Store ε α}
    {y : Prog Store ε α'} {f : α → Prog Store ε β} {g : α' → Prog Store ε β'}
    (h : Mirrors s t r x y) (next : ∀ a a', r a a' → Mirrors s t q (f a) (g a')) :
    Mirrors s t q (x >>= f) (y >>= g) := by
  rcases h with ⟨e, left, right⟩ | ⟨a, a', left, right, related⟩
  · exact .inl ⟨e, Prog.bind_error left, Prog.bind_error right⟩
  · have rest := next a a' related
    unfold Mirrors at rest ⊢
    rwa [Prog.bind_ok left, Prog.bind_ok right]

theorem Mirrors.bind_eq {q : β → β' → Prop} {x y : Prog Store ε α} {f : α → Prog Store ε β}
    {g : α → Prog Store ε β'} (h : Mirrors s t Eq x y)
    (next : ∀ a, Mirrors s t q (f a) (g a)) : Mirrors s t q (x >>= f) (y >>= g) :=
  h.bind fun a _ same => same ▸ next a

theorem Mirrors.outcome {x y : Prog Store ε α} (h : Mirrors s t Eq x y) :
    x.run s = ((y.run t).1, s) := by
  rcases h with ⟨e, left, right⟩ | ⟨a, a', left, right, rfl⟩
  · rw [left, right]
  · rw [left, right]

variable {f g : File}

def Along (s t : Store) (x : α × File) (y : α × File) : Prop :=
  x.1 = y.1 ∧ Twin s t x.2 y.2

theorem readExact_mirrors [OfIo ε] (h : Twin s t f g) (n : Nat) :
    Mirrors s t (Along s t) (f.readExact n : Prog Store ε _) (g.readExact n) := by
  unfold Mirrors File.readExact
  dsimp only
  rw [h.data, h.pos]
  by_cases inside : g.pos + n ≤ (t.data g.path).length
  · rw [if_pos inside, if_pos inside]
    exact .inr ⟨_, _, rfl, rfl, rfl, h.seek _⟩
  · rw [if_neg inside, if_neg inside]
    exact .inl ⟨_, rfl, rfl⟩

theorem seekEnd_mirrors (h : Twin s t f g) :
    Mirrors s t (Twin s t) (f.seekEnd : Prog Store ε _) g.seekEnd := by
  refine .inr ⟨_, _, rfl, rfl, ?_⟩
  rw [h.data]
  exact h.seek _

end FileStore
