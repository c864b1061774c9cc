import Rsigncode.RewriteSpec

/-! Runs of siblings. Reading what was written gives back every tag and content, and
writing what was read gives back the bytes where their lengths are the shortest. -/
namespace Rsigncode

open FileStore Window Number Tlv

def emitForest (ps : List (UInt8 × Bytes)) : Bytes := ps.flatMap fun p => emitTlv p.1 p.2

/-- The full ranges follow one another from `start` to `stop`. -/
def Tiles : List Child → Nat → Nat → Prop
  | [], start, stop => start = stop
  | c :: cs, start, stop => c.fullStart = start ∧ Tiles cs c.contentEnd stop

def childEntry (b : Bytes) (c : Child) : UInt8 × Res Bytes :=
  (c.tag, subslice b c.contentStart c.contentEnd)

def ShortestLength (b : Bytes) (c : Child) : Prop :=
  Tlv.Shortest (slice b (c.fullStart + 1) c.contentStart) (c.contentEnd - c.contentStart)

theorem exists_emitForest {ps : List (UInt8 × Bytes)} (small : ∀ p ∈ ps, p.2.length < 2 ^ 32) :
    ∃ ts : List Tlv, flat ts = emitForest ps ∧ ts.map (fun t => (t.tag, t.content)) = ps := by
  induction ps with
  | nil => exact ⟨[], rfl, rfl⟩
  | cons p ps ih =>
    have first := small p List.mem_cons_self
    obtain ⟨ts, bytes, pairs⟩ := ih fun q hq => small q (List.mem_cons_of_mem p hq)
    refine ⟨Tlv.emit p.1 p.2 first :: ts, ?_, ?_⟩
    · rw [flat_cons, bytes, ← emitTlv_eq p.1 first]
      rfl
    · rw [List.map_cons, pairs]
      rfl

theorem childrenAt_tiles (ts : List Tlv) (p : Nat) :
    Tiles (childrenAt p ts) p (p + (flat ts).length) := by
  induction ts generalizing p with
  | nil => rfl
  | cons t ts ih =>
    refine ⟨rfl, ?_⟩
    rw [flat_cons, List.length_append, ← Nat.add_assoc]
    exact ih (p + t.bytes.length)

theorem childrenAt_entries {b : Bytes} {ts : List Tlv} {p : Nat} (h : At b p (flat ts)) :
    (childrenAt p ts).map (childEntry b) = ts.map fun t => (t.tag, .ok t.content) := by
  induction ts generalizing p with
  | nil => rfl
  | cons t ts ih =>
    obtain ⟨here, rest⟩ := at_append.mp h
    have first : childEntry b (childAt p t) = (t.tag, .ok t.content) :=
      congrArg (Prod.mk t.tag) (subslice_at (at_content here) (t.bytes_end p))
    rw [childrenAt, List.map_cons, List.map_cons, first, ih rest]

theorem minimal_of_shortestLength {b : Bytes} {p : Nat} {t : Tlv} (here : At b p t.bytes)
    (shortest : ShortestLength b (childAt p t)) : t.Minimal := by
  have size : p + t.bytes.length - (p + t.header.length) = t.content.length := by
    rw [t.bytes_length]
    omega
  have octets : slice b (p + 1) (p + t.header.length) = t.len := by
    rw [Tlv.bytes, Tlv.header, List.cons_append, at_cons, at_append] at here
    exact here.2.1.slice_eq (by rw [t.header_length, Nat.add_assoc])
  rw [ShortestLength, childAt, octets, size] at shortest
  exact t.form.eq_lengthOctets shortest

theorem emit_childrenAt {b : Bytes} {ts : List Tlv} {p : Nat} (h : At b p (flat ts))
    (shortest : ∀ c ∈ childrenAt p ts, ShortestLength b c) :
    (childrenAt p ts).flatMap (fun c => emitTlv c.tag (childContent b c)) = flat ts := by
  induction ts generalizing p with
  | nil => rfl
  | cons t ts ih =>
    obtain ⟨here, rest⟩ := at_append.mp h
    have minimal := minimal_of_shortestLength here (shortest _ List.mem_cons_self)
    have first : emitTlv (childAt p t).tag (childContent b (childAt p t)) = t.bytes :=
      emitTlv_minimal minimal rfl (childContent_childAt here).symm
    rw [childrenAt, List.flatMap_cons, first, flat_cons,
      ih rest fun c hc => shortest c (List.mem_cons_of_mem _ hc)]

theorem children_start_le {b : Bytes} {start stop : Nat} {cs : List Child} (nonempty : start < stop)
    (read : children b start stop = .ok cs) : start ≤ b.length := by
  have rounds : stop - start = stop - start - 1 + 1 := by omega
  rw [children, rounds, childrenLoop, if_pos nonempty] at read
  obtain ⟨⟨tag, cs, ce⟩, header, -⟩ := Res.bind_eq_ok.mp read
  obtain ⟨t, here, -⟩ := readHeader_eq_ok.mp header
  exact Nat.le_of_add_right_le here.le

theorem children_of_emitForest {ps : List (UInt8 × Bytes)} (before after : Bytes)
    (small : ∀ p ∈ ps, p.2.length < 2 ^ 32) :
    ∃ cs, children (before ++ emitForest ps ++ after) before.length
        (before.length + (emitForest ps).length) = .ok cs ∧
      cs.map (childEntry (before ++ emitForest ps ++ after)) = ps.map (fun p => (p.1, .ok p.2)) ∧
      Tiles cs before.length (before.length + (emitForest ps).length) := by
  obtain ⟨ts, bytes, pairs⟩ := exists_emitForest small
  rw [← bytes]
  have stand := at_middle before (flat ts) after
  refine ⟨childrenAt before.length ts, children_at stand rfl, ?_, childrenAt_tiles ts _⟩
  rw [childrenAt_entries stand, ← pairs, List.map_map]
  rfl

theorem emitForest_of_children {b : Bytes} {start stop : Nat} {cs : List Child}
    (nonempty : start < stop) (read : children b start stop = .ok cs)
    (ends : cs.getLast?.map Child.contentEnd = some stop)
    (shortest : ∀ c ∈ cs, ShortestLength b c) :
    emitForest (cs.map fun c => (c.tag, childContent b c)) = slice b start stop := by
  obtain ⟨ts, stand, -, rfl⟩ := (children_eq_ok (children_start_le nonempty read)).mp read
  have fills : Fills (childrenAt start ts) start stop := by
    rw [Fills, ends, Option.getD_some]
  rw [emitForest, List.flatMap_map, emit_childrenAt stand shortest,
    stand.slice_eq ((fills_childrenAt ts start stop).mp fills)]

/-- On whole runs of siblings the reader inverts the writer, inside any other bytes, and
the writer inverts the reader wherever the lengths are the shortest. -/
theorem forest_round_trips :
    (∀ (ps : List (UInt8 × Bytes)) (before after : Bytes), (∀ p ∈ ps, p.2.length < 2 ^ 32) →
      ∃ cs, children (before ++ emitForest ps ++ after) before.length
          (before.length + (emitForest ps).length) = .ok cs ∧
        cs.map (childEntry (before ++ emitForest ps ++ after)) = ps.map (fun p => (p.1, .ok p.2)) ∧
        Tiles cs before.length (before.length + (emitForest ps).length)) ∧
    (∀ (b : Bytes) (start stop : Nat) (cs : List Child), start < stop →
      children b start stop = .ok cs → cs.getLast?.map Child.contentEnd = some stop →
      (∀ c ∈ cs, ShortestLength b c) →
      emitForest (cs.map fun c => (c.tag, childContent b c)) = slice b start stop) :=
  ⟨fun _ before after small => children_of_emitForest before after small,
    fun _ _ _ _ nonempty read ends shortest => emitForest_of_children nonempty read ends shortest⟩

def sampleChildren : List Child := [⟨0x02, 1, 3, 4⟩, ⟨0x04, 4, 6, 6⟩]

theorem forest_round_trips_sample :
    (∃ cs, children ([0xFF] ++ emitForest [(0x02, [7]), (0x04, [])] ++ [0xEE]) 1 6 = .ok cs) ∧
      emitForest (sampleChildren.map fun c =>
        (c.tag, childContent [0xFF, 2, 1, 7, 4, 0, 0xEE] c)) = [2, 1, 7, 4, 0] := by
  constructor
  · obtain ⟨cs, read, -⟩ := forest_round_trips.1 [(0x02, [7]), (0x04, [])] [0xFF] [0xEE]
      (by decide)
    exact ⟨cs, read⟩
  · exact forest_round_trips.2 [0xFF, 2, 1, 7, 4, 0, 0xEE] 1 6 sampleChildren (by decide)
      (by decide) (by decide) (by unfold ShortestLength Tlv.Shortest; decide)

end Rsigncode
