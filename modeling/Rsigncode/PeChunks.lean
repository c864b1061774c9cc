import Rsigncode.PeLoops

/-! Ranges of a file, hashed and copied through a buffer. How the system cuts the
reads shows in neither. -/
namespace Rsigncode

open FileStore Window

structure Copied (s t : Store) (src dst : Path) (start stop : Nat) : Prop where
  bytes : ∀ i, (t.data dst)[i]? =
    if start ≤ i ∧ i < stop then (s.data src)[i]? else (s.data dst)[i]?
  others : ∀ q, q ≠ dst → t.files q = s.files q

/-- The two handles may stand on one file. -/
theorem copyRange_copied (src dst : File) (start stop : Nat) {s : Store}
    (inside : stop ≤ (s.data src.path).length) (reaches : start ≤ (s.data dst.path).length) :
    ∃ t, (copyRange src dst start stop).run s = (.ok (), t) ∧
      Copied s t src.path dst.path start stop := by
  by_cases path : src.path = dst.path
  · obtain ⟨t, run, wrote⟩ := copyRange_self src dst start stop s path
    refine ⟨t, run, fun i => ?_, wrote.others⟩
    rw [wrote.data, path, ite_self]
  · obtain ⟨t, run, wrote⟩ := copyRange_run src dst start stop s path
    refine ⟨t, run, fun i => ?_, wrote.others⟩
    rw [wrote.data, overwrite_slice_getElem? inside reaches]

theorem Copied.data_eq {s s' t t' : Store} {src dst : Path} {start stop : Nat}
    (same : SameFiles s s') (h : Copied s t src dst start stop)
    (h' : Copied s' t' src dst start stop) (q : Path) : t'.data q = t.data q := by
  by_cases here : q = dst
  · subst here
    apply List.ext_getElem?
    intro i
    rw [h'.bytes, h.bytes, data_congr same, data_congr same]
  · simp only [Store.data, h'.others q here, h.others q here]
    rw [same]

/-- The hasher is fed the range and the destination gets it, for all cuts alike: a store
with the same files and other reads ends with the same hasher and the same files. -/
theorem chunks_do_not_show (src dst : File) (hasher : Hasher) (start stop : Nat) {s : Store}
    (inside : stop ≤ (s.data src.path).length) (reaches : start ≤ (s.data dst.path).length) :
    (∃ t, (hashRange src hasher start stop).run s =
        (.ok (hasher ++ slice (s.data src.path) start stop), t) ∧ SameFiles s t) ∧
      (∃ t, (copyRange src dst start stop).run s = (.ok (), t) ∧
        Copied s t src.path dst.path start stop) ∧
      ∀ s', SameFiles s s' →
        ((hashRange src hasher start stop).run s').1 = ((hashRange src hasher start stop).run s).1 ∧
        ∀ q, ((copyRange src dst start stop).run s').2.data q =
          ((copyRange src dst start stop).run s).2.data q := by
  have hashed := hashRange_run src hasher start stop s
  have copied := copyRange_copied src dst start stop inside reaches
  refine ⟨hashed, copied, fun s' same => ?_⟩
  obtain ⟨t, run, -⟩ := hashed
  obtain ⟨t', run', -⟩ := hashRange_run src hasher start stop s'
  obtain ⟨u, copy, done⟩ := copied
  obtain ⟨u', copy', done'⟩ := copyRange_copied src dst start stop (s := s')
    (by rwa [data_congr same]) (by rwa [data_congr same])
  refine ⟨?_, fun q => ?_⟩
  · rw [run', run, data_congr same]
  · rw [copy', copy]
    exact done.data_eq same done' q

def threeBytes : Store where
  files p := if p = "a" then some [1, 2, 3] else if p = "b" then some [9, 9, 9, 9] else none
  reads _ := some 0

theorem chunks_do_not_show_three : ∃ t,
    (copyRange ⟨"a", 0⟩ ⟨"b", 0⟩ 1 3).run threeBytes = (.ok (), t) ∧
      Copied threeBytes t "a" "b" 1 3 :=
  (chunks_do_not_show ⟨"a", 0⟩ ⟨"b", 0⟩ [] 1 3 (s := threeBytes) (by decide) (by decide)).2.1

end Rsigncode
