import Mathlib.Algebra.GroupWithZero.Nat
import Rsigncode.Lib.Prog

/-! Requests to an environment that answers each one as it likes, and attempts made in
turn until one succeeds. What an attempt came to is a function of the answer to it, so a
whole run is told by the verdicts on the answers in order. -/
namespace Retry

/-- How the requests still to come are answered, and what has happened so far. -/
structure Env (A E : Type) where
  answers : Nat → A
  log : List E

section
variable {A E ι ε α : Type}

structure Env.Like (R : A → A → Prop) (s t : Env A E) : Prop where
  log : s.log = t.log
  answers : ∀ k, R (s.answers k) (t.answers k)

def Env.record (s : Env A E) (events : List E) : Env A E := { s with log := s.log ++ events }

def ask (event : E) (read : A → Except ε α) : Prog (Env A E) ε α := ⟨fun s =>
  (read (s.answers 0), { answers := fun k => s.answers (k + 1), log := s.log ++ [event] })⟩

/-- What an attempt asks, what it makes of the answer, which failures it is tried again
after, and what is recorded then. -/
structure Attempts (A E ι ε α : Type) where
  event : ι → E
  judge : ι → A → Except ε α
  caught : ε → Bool
  note : ι → ε → List E

variable (p : Attempts A E ι ε α)

/-- Each attempt in turn until one succeeds; `left` is the failure that is left. -/
def Attempts.firstOk (left : ε) : List ι → Prog (Env A E) ε α
  | [] => .fail left
  | i :: rest => ⟨fun s =>
    match (ask (p.event i) (p.judge i)).run s with
    | (.ok a, t) => (.ok a, t)
    | (.error e, t) =>
      if p.caught e then (firstOk e rest).run (t.record (p.note i e)) else (.error e, t)⟩

inductive Attempts.Lost : List ι → Env A E → List ε → Env A E → Prop where
  | nil (s : Env A E) : Lost [] s [] s
  | cons {i : ι} {rest : List ι} {s t : Env A E} {e : ε} {es : List ε}
      (failed : p.judge i (s.answers 0) = .error e) (caught : p.caught e = true)
      (others : Lost rest
        { answers := fun k => s.answers (k + 1), log := s.log ++ p.event i :: p.note i e } es t) :
      Lost (i :: rest) s (e :: es) t

end

namespace Attempts
variable {A E ι ε α : Type} {p : Attempts A E ι ε α} {l : List ι} {s t : Env A E} {es : List ε}

theorem firstOk_cons_lost {i : ι} {e : ε} (failed : p.judge i (s.answers 0) = .error e)
    (caught : p.caught e = true) (left : ε) (rest : List ι) :
    (p.firstOk left (i :: rest)).run s = (p.firstOk e rest).run
      { answers := fun k => s.answers (k + 1), log := s.log ++ p.event i :: p.note i e } := by
  simp only [firstOk, ask, failed, caught, if_true, Env.record, List.append_assoc,
    List.singleton_append]

theorem Lost.firstOk_eq (h : p.Lost l s es t) (left : ε) (rest : List ι) :
    (p.firstOk left (l ++ rest)).run s = (p.firstOk (es.getLast?.getD left) rest).run t := by
  induction h generalizing left with
  | nil s => rfl
  | @cons i rest' s t e es failed caught others ih =>
    rw [List.cons_append, firstOk_cons_lost failed caught, ih]
    cases es with
    | nil => rfl
    | cons e' es => rw [List.getLast?_cons_cons, List.getLast?_cons, Option.getD_some,
        Option.getD_some]

theorem Lost.answers (h : p.Lost l s es t) (k : Nat) :
    t.answers k = s.answers (l.length + k) := by
  induction h generalizing k with
  | nil s => rw [List.length_nil, Nat.zero_add]
  | @cons i rest s t e es failed caught others ih =>
    rw [ih, List.length_cons]
    exact congrArg s.answers (by omega)

theorem Lost.length (h : p.Lost l s es t) : es.length = l.length := by
  induction h with
  | nil s => rfl
  | cons failed caught others ih => rw [List.length_cons, List.length_cons, ih]

theorem Lost.judged (h : p.Lost l s es t) {k : Nat} {i : ι} (here : l[k]? = some i) :
    ∃ e, es[k]? = some e ∧ p.judge i (s.answers k) = .error e ∧ p.caught e = true := by
  induction h generalizing k with
  | nil s => cases here
  | @cons j rest s t e es failed caught others ih =>
    cases k with
    | zero =>
      cases here
      exact ⟨e, rfl, failed, caught⟩
    | succ k => exact ih here

theorem Lost.log (h : p.Lost l s es t) :
    t.log = s.log ++ (l.zip es).flatMap fun x => p.event x.1 :: p.note x.1 x.2 := by
  induction h with
  | nil s => exact (List.append_nil _).symm
  | cons failed caught others ih =>
    rw [ih, List.zip_cons_cons, List.flatMap_cons, List.append_assoc]

variable (p l s) in
theorem lost_or : (∃ es t, p.Lost l s es t) ∨
    ∃ before i after es t, l = before ++ i :: after ∧ p.Lost before s es t ∧
      ∀ e, p.judge i (t.answers 0) = .error e → p.caught e = false := by
  induction l generalizing s with
  | nil => exact .inl ⟨[], s, .nil s⟩
  | cons i rest ih =>
    by_cases again : ∃ e, p.judge i (s.answers 0) = .error e ∧ p.caught e = true
    · obtain ⟨e, failed, caught⟩ := again
      rcases ih { answers := fun k => s.answers (k + 1), log := s.log ++ p.event i :: p.note i e }
        with ⟨es, t, lost⟩ | ⟨before, j, after, es, t, rfl, lost, stops⟩
      · exact .inl ⟨e :: es, t, .cons failed caught lost⟩
      · exact .inr ⟨i :: before, j, after, e :: es, t, rfl, .cons failed caught lost, stops⟩
    · exact .inr ⟨[], i, rest, [], s, rfl, .nil s, fun e failed =>
        Bool.eq_false_iff.mpr fun caught => again ⟨e, failed, caught⟩⟩

theorem firstOk_eq_ok {left : ε} {a : α} :
    (p.firstOk left l).run s = (.ok a, t) ↔ ∃ before i after es u, l = before ++ i :: after ∧
      p.Lost before s es u ∧ p.judge i (u.answers 0) = .ok a ∧
      t = { answers := fun k => u.answers (k + 1), log := u.log ++ [p.event i] } := by
  constructor
  · intro run
    rcases lost_or p l s with ⟨es, u, lost⟩ | ⟨before, i, after, es, u, rfl, lost, stops⟩
    · have whole := lost.firstOk_eq left []
      rw [List.append_nil, run] at whole
      cases whole
    · rw [lost.firstOk_eq] at run
      cases verdict : p.judge i (u.answers 0) with
      | error e =>
        simp [firstOk, ask, verdict, stops e verdict] at run
      | ok b =>
        simp only [firstOk, ask, verdict, Prod.mk.injEq, Except.ok.injEq] at run
        obtain ⟨rfl, rfl⟩ := run
        exact ⟨before, i, after, es, u, rfl, lost, verdict, rfl⟩
  · rintro ⟨before, i, after, es, u, rfl, lost, verdict, rfl⟩
    rw [lost.firstOk_eq]
    simp only [firstOk, ask, verdict]

/-- A run whose failures are all caught fails with the last of them, after all attempts. -/
theorem firstOk_eq_error {left e : ε}
    (all : ∀ i ∈ l, ∀ a e, p.judge i a = .error e → p.caught e = true) :
    (p.firstOk left l).run s = (.error e, t) ↔
      ∃ es, p.Lost l s es t ∧ e = es.getLast?.getD left := by
  constructor
  · intro run
    rcases lost_or p l s with ⟨es, u, lost⟩ | ⟨before, i, after, es, u, rfl, lost, stops⟩
    · have whole := lost.firstOk_eq left []
      rw [List.append_nil, run] at whole
      cases whole
      exact ⟨es, lost, rfl⟩
    · rw [lost.firstOk_eq] at run
      cases verdict : p.judge i (u.answers 0) with
      | error e' =>
        have caught := all i (by simp) _ e' verdict
        rw [stops e' verdict] at caught
        cases caught
      | ok b =>
        simp only [firstOk, ask, verdict] at run
        cases run
  · rintro ⟨es, lost, rfl⟩
    have whole := lost.firstOk_eq left []
    rwa [List.append_nil] at whole

def events (p : Attempts A E ι ε α) (tried : List ι) (failures : List ε) : List E :=
  (tried.zip (failures.map some ++ [none])).flatMap fun x =>
    p.event x.1 :: (x.2.map (p.note x.1)).getD []

/-- A run makes a first part of the attempts, all but the last of which fail. It comes to
what the last one came to, and goes on to the end of the list unless that one succeeds. -/
structure Ran (p : Attempts A E ι ε α) (left : ε) (l : List ι) (s : Env A E) (r : Except ε α)
    (t : Env A E) (tried rest : List ι) (failures : List ε) : Prop where
  split : l = tried ++ rest
  failed : ∀ (k : Nat) (e : ε), failures[k]? = some e →
    ∃ i, tried[k]? = some i ∧ p.judge i (s.answers k) = .error e
  result : ∀ i, tried.getLast? = some i → r = p.judge i (s.answers (tried.length - 1))
  untried : tried = [] → l = [] ∧ r = .error left
  stopped : rest ≠ [] → ∃ a, r = .ok a
  count : failures.length = if r.toBool then tried.length - 1 else tried.length
  answers : ∀ k, t.answers k = s.answers (tried.length + k)
  log : t.log = s.log ++ p.events tried failures

theorem Lost.events_eq (h : p.Lost l s es t) : t.log = s.log ++ p.events l es := by
  have same := h.length
  rw [h.log, events]
  congr 1
  clear h
  induction l generalizing es with
  | nil => rfl
  | cons i l ih =>
    cases es with
    | nil => cases same
    | cons e es =>
      rw [List.length_cons, List.length_cons, Nat.add_right_cancel_iff] at same
      rw [List.zip_cons_cons, List.map_cons, List.cons_append, List.zip_cons_cons,
        List.flatMap_cons, List.flatMap_cons, ih same]
      rfl

theorem events_append {tried : List ι} (same : es.length = tried.length) (i : ι) :
    p.events (tried ++ [i]) es = p.events tried es ++ [p.event i] := by
  simp only [events]
  induction tried generalizing es with
  | nil =>
    rw [List.length_nil, List.length_eq_zero_iff] at same
    rw [same]
    rfl
  | cons j tried ih =>
    cases es with
    | nil => cases same
    | cons e es =>
      rw [List.length_cons, List.length_cons, Nat.add_right_cancel_iff] at same
      rw [List.cons_append, List.map_cons, List.cons_append, List.zip_cons_cons,
        List.zip_cons_cons, List.flatMap_cons, List.flatMap_cons, ih same, List.append_assoc]

/-- The requests can be read off the log, where no note is taken for one. -/
theorem filterMap_events {β : Type} {f : E → Option β} {g : ι → β} {tried : List ι}
    {failures : List ε} (whole : tried.length ≤ failures.length + 1)
    (request : ∀ i, f (p.event i) = some (g i)) (note : ∀ i e, (p.note i e).filterMap f = []) :
    (p.events tried failures).filterMap f = tried.map g := by
  have last : ∀ i, ([p.event i] : List E).filterMap f = [g i] := fun i => by
    rw [List.filterMap_cons_some (request i), List.filterMap_nil]
  simp only [events]
  induction tried generalizing failures with
  | nil => rfl
  | cons i tried ih =>
    cases failures with
    | nil =>
      cases List.length_eq_zero_iff.mp (Nat.le_zero.mp (Nat.le_of_succ_le_succ whole))
      exact last i
    | cons e failures =>
      rw [List.map_cons, List.cons_append, List.zip_cons_cons, List.flatMap_cons,
        List.filterMap_append, ih (Nat.le_of_succ_le_succ whole),
        List.filterMap_cons_some (request i)]
      simp only [Option.map_some, Option.getD_some, note, List.map_cons, List.singleton_append]

/-- What the notes add up to; the attempt that succeeds has none. -/
theorem sum_events {w : E → Nat} {v : ι → Nat} {tried : List ι} {failures : List ε}
    (request : ∀ i, w (p.event i) = 0) (note : ∀ i e, ((p.note i e).map w).sum = v i) :
    ((p.events tried failures).map w).sum = ((tried.take failures.length).map v).sum := by
  simp only [events]
  induction tried generalizing failures with
  | nil => simp
  | cons i tried ih =>
    cases failures with
    | nil => simp [request]
    | cons e failures =>
      rw [List.map_cons, List.cons_append, List.zip_cons_cons, List.flatMap_cons, List.map_append,
        List.sum_append, ih]
      simp [request, note]

theorem exists_ran (p : Attempts A E ι ε α) (left : ε) (l : List ι) (s : Env A E)
    (all : ∀ i a e, p.judge i a = .error e → p.caught e = true) :
    ∃ r t tried rest failures, (p.firstOk left l).run s = (r, t) ∧
      Ran p left l s r t tried rest failures := by
  rcases lost_or p l s with ⟨es, u, lost⟩ | ⟨before, i, after, es, u, rfl, lost, stops⟩
  · have size := lost.length
    refine ⟨_, u, l, [], es, firstOk_eq_error (fun i _ => all i) |>.mpr ⟨es, lost, rfl⟩, ?_⟩
    exact {
      split := (List.append_nil l).symm
      failed := by
        intro k e here
        have inside : k < l.length := size ▸ (List.getElem?_eq_some_iff.mp here).1
        obtain ⟨e', there, judged, -⟩ := lost.judged (List.getElem?_eq_getElem inside)
        cases here.symm.trans there
        exact ⟨_, List.getElem?_eq_getElem inside, judged⟩
      result := by
        intro i last
        rw [List.getLast?_eq_getElem?] at last
        obtain ⟨e, there, judged, -⟩ := lost.judged last
        rw [judged, List.getLast?_eq_getElem?, size, there, Option.getD_some]
      untried := by
        rintro rfl
        rw [List.length_nil, List.length_eq_zero_iff] at size
        rw [size]
        exact ⟨rfl, rfl⟩
      stopped := fun some => absurd rfl some
      count := size
      answers := lost.answers
      log := lost.events_eq }
  · have size := lost.length
    cases verdict : p.judge i (u.answers 0) with
    | error e =>
      have caught := all i _ e verdict
      rw [stops e verdict] at caught
      cases caught
    | ok a =>
      refine ⟨_, _, before ++ [i], after, es,
        firstOk_eq_ok.mpr ⟨before, i, after, es, u, rfl, lost, verdict, rfl⟩, ?_⟩
      rw [lost.answers, Nat.add_zero] at verdict
      exact {
        split := by rw [List.append_assoc, List.singleton_append]
        failed := by
          intro k e here
          have inside : k < before.length := size ▸ (List.getElem?_eq_some_iff.mp here).1
          obtain ⟨e', there, judged, -⟩ := lost.judged (List.getElem?_eq_getElem inside)
          cases here.symm.trans there
          exact ⟨_, (List.getElem?_append_left inside).trans (List.getElem?_eq_getElem inside),
            judged⟩
        result := by
          intro j last
          rw [List.getLast?_concat] at last
          cases last
          rw [List.length_append, List.length_singleton, Nat.add_sub_cancel, verdict]
        untried := fun none => by simp at none
        stopped := fun _ => ⟨a, rfl⟩
        count := by
          rw [List.length_append, List.length_singleton, Nat.add_sub_cancel]
          exact size
        answers := by
          intro k
          rw [List.length_append, List.length_singleton, Nat.add_assoc, Nat.add_comm 1 k]
          exact lost.answers (k + 1)
        log := by
          rw [events_append size]
          dsimp only
          rw [lost.events_eq, List.append_assoc] }

theorem firstOk_fails {P : ε → Prop} (judged : ∀ i a e, p.judge i a = .error e → P e) {left : ε}
    (hleft : P left) (l : List ι) : Prog.Fails P (p.firstOk left l) := by
  induction l generalizing left with
  | nil => exact Prog.fails_ofExcept fun _ same => Except.error.inj same ▸ hleft
  | cons i rest ih =>
    intro s e t run
    cases verdict : p.judge i (s.answers 0) with
    | ok a =>
      simp only [firstOk, ask, verdict] at run
      cases run
    | error e' =>
      have failed := judged i _ e' verdict
      simp only [firstOk, ask, verdict] at run
      split at run
      · exact ih failed _ e t run
      · cases run
        exact failed

theorem firstOk_alike {R : A → A → Prop}
    (same : ∀ i a b, R a b → p.judge i a = p.judge i b) (left : ε) (l : List ι) :
    Prog.Alike (Env.Like R) (p.firstOk left l) := by
  induction l generalizing left with
  | nil => exact Prog.alike_ofExcept (.error left)
  | cons i rest ih =>
    intro s t related
    have judged := same i _ _ (related.answers 0)
    have next : ∀ events, Env.Like R
        { answers := fun k => s.answers (k + 1), log := s.log ++ events }
        { answers := fun k => t.answers (k + 1), log := t.log ++ events } := fun events =>
      ⟨by rw [related.log], fun k => related.answers (k + 1)⟩
    cases verdict : p.judge i (t.answers 0) with
    | ok a => simpa only [firstOk, ask, judged, verdict, true_and] using next [p.event i]
    | error e =>
      simp only [firstOk, ask, judged, verdict]
      by_cases caught : p.caught e = true
      · simp only [if_pos caught, Env.record, List.append_assoc]
        exact ih e _ _ (next _)
      · simpa only [if_neg caught, true_and] using next [p.event i]

end Attempts

end Retry
