import ToolkitCpp.GuardedRuns
import ToolkitCpp.Text
import Mathlib.Data.Fintype.Basic

/-!
# Control points

`LogDebugPoint` keeps 16 slots. `open` looks for a free one under a lock and stores the loop name
without it. A call of `logDbgPoint_New(name, -1)` is therefore two steps here, the scan and the
store, and the other calls are one step each. `calls` lists the calls of `logDbgPoint_New` with
the index that each was given, whichever thread made them.
-/
namespace ToolkitCpp.ControlPoints
open GuardedRuns

abbrev debugPointsMax : ℕ := 16

abbrev Index := Fin debugPointsMax

/-- One entry of `m_loopName`, `m_fileName` and `m_fileLine`; a null pointer is `none`. -/
structure Slot where
  loopName : Option Str := none
  fileName : Option Str := none
  fileLine : ℤ := 0
  deriving DecidableEq, Repr

def Slot.isFree (p : Slot) : Bool := p.loopName.isNone && p.fileName.isNone && p.fileLine == 0

abbrev LogDebugPoint := Index → Slot

/-- The loop of `findFreeIndex` below `n`, downwards. -/
def scanBelow (t : LogDebugPoint) : (n : ℕ) → n ≤ debugPointsMax → Option Index
  | 0, _ => none
  | n + 1, h => if (t ⟨n, h⟩).isFree then some ⟨n, h⟩ else scanBelow t n (Nat.le_of_succ_le h)

def findFreeIndex (t : LogDebugPoint) : Index := (scanBelow t debugPointsMax le_rfl).getD 0

def index? (idx : ℤ) : Option Index :=
  if h : 0 ≤ idx ∧ idx < debugPointsMax then some ⟨idx.toNat, by omega⟩ else none

def store (t : LogDebugPoint) (loopName : Option Str) (i : Index) : LogDebugPoint :=
  Function.update t i { t i with loopName := loopName }

def close (t : LogDebugPoint) (idx : ℤ) : LogDebugPoint :=
  match index? idx with
  | none => t
  | some i => Function.update t i {}

def set (t : LogDebugPoint) (idx : ℤ) (file : Option Str) (line : ℤ) : LogDebugPoint :=
  match index? idx with
  | none => t
  | some i => Function.update t i { t i with fileName := file, fileLine := line }

def clear (t : LogDebugPoint) (idx : ℤ) : LogDebugPoint := set t idx none 0

inductive Phase
  | scanned
  | live
  | deleted
  deriving DecidableEq, Repr

structure Call where
  name : Option Str
  idx : Index
  phase : Phase := .scanned
  deriving DecidableEq, Repr

structure Log where
  table : LogDebugPoint := fun _ => {}
  calls : List Call := []

/-- Call `i` of `logDbgPoint_New` is named by its position. -/
inductive Event
  | scan (name : Option Str)
  | store (i : ℕ)
  | set (i : ℕ) (file : Option Str) (line : ℤ)
  | clear (i : ℕ)
  | delete (i : ℕ)
  deriving DecidableEq, Repr

def Log.setPhase (s : Log) (i : ℕ) (phase : Phase) : List Call :=
  s.calls.modify i fun c => { c with phase := phase }

def Log.step (s : Log) : Event → Log
  | .scan name => { s with calls := s.calls ++ [{ name := name, idx := findFreeIndex s.table }] }
  | .store i =>
      match s.calls[i]? with
      | none => s
      | some c => ⟨ControlPoints.store s.table c.name c.idx, s.setPhase i .live⟩
  | .set i file line =>
      match s.calls[i]? with
      | none => s
      | some c => { s with table := ControlPoints.set s.table c.idx file line }
  | .clear i =>
      match s.calls[i]? with
      | none => s
      | some c => { s with table := ControlPoints.clear s.table c.idx }
  | .delete i =>
      match s.calls[i]? with
      | none => s
      | some c => ⟨close s.table c.idx, s.setPhase i .deleted⟩

def Log.inPhase (s : Log) (i : ℕ) (phase : Phase) : Prop :=
  s.calls[i]?.map Call.phase = some phase

/-- A thread uses an index that it was given and has not deleted. -/
def Log.Possible (s : Log) : Event → Prop
  | .scan _ => True
  | .store i => s.inPhase i .scanned
  | .set i _ _ => s.inPhase i .live
  | .clear i => s.inPhase i .live
  | .delete i => s.inPhase i .live

instance (s : Log) (i : ℕ) (phase : Phase) : Decidable (s.inPhase i phase) :=
  inferInstanceAs (Decidable (_ = _))

instance (s : Log) : DecidablePred s.Possible
  | .scan _ => isTrue trivial
  | .store _ => inferInstanceAs (Decidable (Log.inPhase _ _ _))
  | .set _ _ _ => inferInstanceAs (Decidable (Log.inPhase _ _ _))
  | .clear _ => inferInstanceAs (Decidable (Log.inPhase _ _ _))
  | .delete _ => inferInstanceAs (Decidable (Log.inPhase _ _ _))

def logs : System Log Event := ⟨Log.Possible, Log.step⟩

instance (s : Log) (e : Event) : Decidable (logs.possible s e) :=
  inferInstanceAs (Decidable (s.Possible e))

/-- Call `i` is in this phase and has this index. -/
def Log.At (s : Log) (i : ℕ) (phase : Phase) (idx : Index) : Prop :=
  ∃ c, s.calls[i]? = some c ∧ c.phase = phase ∧ c.idx = idx

/-- A live control point has this index. -/
def Log.Held (s : Log) (idx : Index) : Prop := ∃ c ∈ s.calls, c.phase = .live ∧ c.idx = idx

def Log.AllInUse (s : Log) : Prop := ∀ idx, s.Held idx

/-- The index that a call returns is not held by another live point unless all slots are in
use; and if they are, the loop name of every live point stays as it is. -/
def Allocates (s : Log) : Event → Prop
  | .store i =>
      ∀ c ∈ s.calls[i]?, (s.Held c.idx → s.AllInUse) ∧
        (s.AllInUse → ∀ d ∈ s.calls, d.phase = .live →
          ((s.step (.store i)).table d.idx).loopName = (s.table d.idx).loopName)
  | .scan _ => True
  | .set _ _ _ => True
  | .clear _ => True
  | .delete _ => True

instance (s : Log) (idx : Index) : Decidable (s.Held idx) :=
  inferInstanceAs (Decidable (∃ c ∈ s.calls, _))

instance (s : Log) : Decidable s.AllInUse := inferInstanceAs (Decidable (∀ _ : Index, _))

instance (s : Log) : DecidablePred (Allocates s)
  | .scan _ => isTrue trivial
  | .store i =>
      match h : s.calls[i]? with
      | none => isTrue (by simp [Allocates, h])
      | some c =>
        decidable_of_iff
          ((s.Held c.idx → s.AllInUse) ∧
            (s.AllInUse → ∀ d ∈ s.calls, d.phase = .live →
              ((s.step (.store i)).table d.idx).loopName = (s.table d.idx).loopName))
          (by simp [Allocates, h])
  | .set _ _ _ => isTrue trivial
  | .clear _ => isTrue trivial
  | .delete _ => isTrue trivial

/-- A search comes to an index that is held: no slot looks free and slot 0 is held, or the
highest slot that looks free is held. -/
def Log.FindsHeld (s : Log) : Prop :=
  (∀ i, (s.table i).isFree = false) ∧ s.Held 0 ∨
    ∃ i, (s.table i).isFree = true ∧ (∀ j, i < j → (s.table j).isFree = false) ∧ s.Held i

/-- The index of call `i` is held by another point from this step on: already when it is found,
or because another call found it too and stores its name first. -/
def Exposes (i : ℕ) (s : Log) : Event → Prop
  | .scan _ => i = s.calls.length ∧ s.FindsHeld
  | .store j => j ≠ i ∧ ∃ idx, s.At i .scanned idx ∧ s.At j .scanned idx
  | .set _ _ _ => False
  | .clear _ => False
  | .delete _ => False

/-- Call `i` does not store its name, and no deletion frees its index. -/
def Stays (i : ℕ) (s : Log) : Event → Prop
  | .scan _ => True
  | .store j => j ≠ i
  | .set _ _ _ => True
  | .clear _ => True
  | .delete j => ∃ idx, s.At i .scanned idx ∧ ∃ k, k ≠ j ∧ s.At k .live idx

/-- Call `i` stores its name while some slot is not in use, or changes the name in its slot. -/
def Clashes (i : ℕ) (s : Log) (e : Event) : Prop :=
  e = .store i ∧ ¬ (s.AllInUse ∧ ∀ c ∈ s.calls[i]?, (s.table c.idx).loopName = c.name)

def Exposed (i : ℕ) (s : Log) : Prop := ∃ idx, s.At i .scanned idx ∧ s.Held idx

lemma scanBelow_spec (t : LogDebugPoint) (n : ℕ) (h : n ≤ debugPointsMax) :
    (scanBelow t n h = none ∧ ∀ j : Index, j < n → (t j).isFree = false) ∨
      ∃ i : Index, scanBelow t n h = some i ∧ i < n ∧ (t i).isFree = true ∧
        ∀ j : Index, i < j → j < n → (t j).isFree = false := by
  induction n with
  | zero => exact .inl ⟨rfl, fun j hj => absurd hj (Nat.not_lt_zero j)⟩
  | succ n ih =>
    rw [scanBelow]
    split_ifs with hfree
    · refine .inr ⟨⟨n, h⟩, rfl, Nat.lt_succ_self n, hfree, fun j hlt hj => ?_⟩
      have : n < j.val := hlt
      omega
    · have htop : ∀ j : Index, j.val = n → (t j).isFree = false := by
        rintro ⟨j, hj⟩ rfl
        exact Bool.eq_false_iff.mpr hfree
      rcases ih (Nat.le_of_succ_le h) with ⟨hnone, hall⟩ | ⟨i, hsome, hi, hfound, habove⟩
      · refine .inl ⟨hnone, fun j hj => ?_⟩
        rcases Nat.lt_succ_iff_lt_or_eq.mp hj with hlt | heq
        · exact hall j hlt
        · exact htop j heq
      · refine .inr ⟨i, hsome, Nat.lt_succ_of_lt hi, hfound, fun j hlt hj => ?_⟩
        rcases Nat.lt_succ_iff_lt_or_eq.mp hj with hbelow | heq
        · exact habove j hlt hbelow
        · exact htop j heq

lemma findFreeIndex_spec (t : LogDebugPoint) :
    (findFreeIndex t = 0 ∧ ∀ j, (t j).isFree = false) ∨
      ((t (findFreeIndex t)).isFree = true ∧
        ∀ j, findFreeIndex t < j → (t j).isFree = false) := by
  rcases scanBelow_spec t debugPointsMax le_rfl with ⟨hnone, hall⟩ | ⟨i, hsome, -, hfree, habove⟩
  · refine .inl ⟨?_, fun j => hall j j.isLt⟩
    rw [findFreeIndex, hnone]
    rfl
  · have hindex : findFreeIndex t = i := by
      rw [findFreeIndex, hsome]
      rfl
    rw [hindex]
    exact .inr ⟨hfree, fun j hlt => habove j hlt j.isLt⟩

variable {s : Log}

/-- The two conditions determine the index, so a search that finds a held one is a
`FindsHeld`. -/
lemma held_findFreeIndex_iff : s.Held (findFreeIndex s.table) ↔ s.FindsHeld := by
  rcases findFreeIndex_spec s.table with ⟨hzero, hall⟩ | ⟨hfree, habove⟩
  · rw [hzero]
    constructor
    · intro hheld
      exact .inl ⟨hall, hheld⟩
    · rintro (⟨-, hheld⟩ | ⟨i, hi, -, -⟩)
      · exact hheld
      · rw [hall i] at hi
        exact Bool.noConfusion hi
  · constructor
    · intro hheld
      exact .inr ⟨_, hfree, habove, hheld⟩
    · rintro (⟨hall, -⟩ | ⟨i, hi, hiabove, hheld⟩)
      · rw [hall] at hfree
        exact Bool.noConfusion hfree
      · rcases lt_trichotomy i (findFreeIndex s.table) with hlt | heq | hgt
        · rw [hiabove _ hlt] at hfree
          exact Bool.noConfusion hfree
        · rwa [← heq]
        · rw [habove _ hgt] at hi
          exact Bool.noConfusion hi

lemma held_iff {idx : Index} : s.Held idx ↔ ∃ i, s.At i .live idx := by
  constructor
  · rintro ⟨c, hc, hlive⟩
    obtain ⟨i, hi⟩ := List.mem_iff_getElem?.mp hc
    exact ⟨i, c, hi, hlive⟩
  · rintro ⟨i, c, hi, hlive⟩
    exact ⟨c, List.mem_of_getElem? hi, hlive⟩

lemma at_setPhase {t : Log} {i k : ℕ} {phase q : Phase} {c : Call} {idx : Index}
    (hc : s.calls[i]? = some c) (ht : t.calls = s.setPhase i phase) :
    t.At k q idx ↔ if i = k then phase = q ∧ c.idx = idx else s.At k q idx := by
  unfold Log.At
  rw [ht, Log.setPhase, List.getElem?_modify]
  by_cases h : i = k
  · subst h
    simp [hc]
  · simp [h]

lemma inPhase_iff {i : ℕ} {phase : Phase} :
    s.inPhase i phase ↔ ∃ c, s.calls[i]? = some c ∧ c.phase = phase := by
  rw [Log.inPhase, Option.map_eq_some_iff]

lemma at_of_calls {t : Log} (h : t.calls = s.calls) {i : ℕ} {phase : Phase} {idx : Index} :
    t.At i phase idx ↔ s.At i phase idx := by
  unfold Log.At
  rw [h]

/-- The exposure of a call depends on the list of calls only. -/
lemma exposed_of_calls {t : Log} (h : t.calls = s.calls) {i : ℕ} : Exposed i t ↔ Exposed i s := by
  simp only [Exposed, held_iff, at_of_calls h]

lemma exposed_scan (s : Log) (i : ℕ) (name : Option Str) :
    Exposed i (s.step (.scan name)) ↔ Exposes i s (.scan name) ∨ Exposed i s := by
  have hat : ∀ k phase idx, (s.step (.scan name)).At k phase idx ↔
      s.At k phase idx ∨ k = s.calls.length ∧ phase = .scanned ∧ findFreeIndex s.table = idx := by
    intro k phase idx
    simp only [Log.At, Log.step]
    rcases lt_trichotomy k s.calls.length with hlt | heq | hgt
    · simp [List.getElem?_append_left hlt, hlt.ne]
    · subst heq
      simp [eq_comm]
    · have hold : s.calls[k]? = none := List.getElem?_eq_none hgt.le
      have hnew : (s.calls ++ [⟨name, findFreeIndex s.table, .scanned⟩])[k]? = none := by
        apply List.getElem?_eq_none
        rw [List.length_append, List.length_singleton]
        exact hgt
      simp [hold, hnew, hgt.ne']
  have hheld : ∀ idx, (s.step (.scan name)).Held idx ↔ s.Held idx := by
    intro idx
    simp only [held_iff, hat, reduceCtorEq, false_and, and_false, or_false]
  simp only [Exposed, Exposes, hheld, hat, ← held_findFreeIndex_iff]
  constructor
  · rintro ⟨idx, hold | ⟨hi, -, rfl⟩, hidx⟩
    · exact .inr ⟨idx, hold, hidx⟩
    · exact .inl ⟨hi, hidx⟩
  · rintro (⟨hi, hidx⟩ | ⟨idx, hold, hidx⟩)
    · exact ⟨_, .inr ⟨hi, trivial, rfl⟩, hidx⟩
    · exact ⟨idx, .inl hold, hidx⟩

lemma exposed_store (i j : ℕ) (hj : s.inPhase j .scanned) :
    Exposed i (s.step (.store j)) ↔ Exposes i s (.store j) ∨ Exposed i s ∧ Stays i s (.store j) := by
  obtain ⟨c, hc, hphase⟩ := inPhase_iff.mp hj
  have hcalls : (s.step (.store j)).calls = s.setPhase j .live := by
    simp only [Log.step, hc]
  have hheld : ∀ idx, (s.step (.store j)).Held idx ↔ s.Held idx ∨ c.idx = idx := by
    intro idx
    simp only [held_iff, at_setPhase hc hcalls]
    constructor
    · rintro ⟨k, hk⟩
      split_ifs at hk
      · exact .inr hk.2
      · exact .inl ⟨k, hk⟩
    · rintro (⟨k, hk⟩ | hidx)
      · have hne : j ≠ k := by
          rintro rfl
          obtain ⟨d, hd, hlive, -⟩ := hk
          rw [hc, Option.some.injEq] at hd
          rw [← hd, hphase] at hlive
          exact Phase.noConfusion hlive
        exact ⟨k, by rwa [if_neg hne]⟩
      · exact ⟨j, by simp [hidx]⟩
  have hpending : ∀ idx, s.At j .scanned idx ↔ c.idx = idx := by
    intro idx
    simp [Log.At, hc, hphase]
  simp only [Exposed, Exposes, Stays, hheld, at_setPhase hc hcalls, hpending]
  by_cases hij : j = i
  · simp [hij]
  · simp only [ne_eq, hij, not_false_eq_true, true_and, and_true]
    constructor
    · rintro ⟨idx, hat, hidx | hidx⟩
      · exact .inr ⟨idx, hat, hidx⟩
      · exact .inl ⟨idx, hat, hidx⟩
    · rintro (⟨idx, hat, hidx⟩ | ⟨idx, hat, hidx⟩)
      · exact ⟨idx, hat, .inr hidx⟩
      · exact ⟨idx, hat, .inl hidx⟩

lemma exposed_delete (i j : ℕ) (hj : s.inPhase j .live) :
    Exposed i (s.step (.delete j)) ↔ Exposed i s ∧ Stays i s (.delete j) := by
  obtain ⟨c, hc, hphase⟩ := inPhase_iff.mp hj
  have hcalls : (s.step (.delete j)).calls = s.setPhase j .deleted := by
    simp only [Log.step, hc]
  have hheld : ∀ idx, (s.step (.delete j)).Held idx ↔ ∃ k, k ≠ j ∧ s.At k .live idx := by
    intro idx
    simp only [held_iff, at_setPhase hc hcalls]
    refine exists_congr fun k => ?_
    by_cases hjk : j = k
    · simp [hjk]
    · simp [hjk, Ne.symm hjk]
  have hpending : ∀ idx, (s.step (.delete j)).At i .scanned idx ↔ s.At i .scanned idx := by
    intro idx
    rw [at_setPhase hc hcalls]
    by_cases hji : j = i
    · subst hji
      simp [Log.At, hc, hphase]
    · rw [if_neg hji]
  simp only [Exposed, Stays, hheld, hpending]
  constructor
  · rintro ⟨idx, hat, k, hk, hlive⟩
    exact ⟨⟨idx, hat, held_iff.mpr ⟨k, hlive⟩⟩, idx, hat, k, hk, hlive⟩
  · rintro ⟨-, h⟩
    exact h

lemma exposed_step (i : ℕ) {e : Event} (he : s.Possible e) :
    Exposed i (s.step e) ↔ Exposes i s e ∨ Exposed i s ∧ Stays i s e := by
  cases e with
  | scan name =>
    rw [exposed_scan]
    simp only [Stays, and_true]
  | store j => exact exposed_store i j he
  | delete j =>
    rw [exposed_delete i j he]
    simp only [Exposes, false_or]
  | set j file line =>
    obtain ⟨c, hc, -⟩ := inPhase_iff.mp he
    have hcalls : (s.step (.set j file line)).calls = s.calls := by simp only [Log.step, hc]
    rw [exposed_of_calls hcalls]
    simp only [Exposes, Stays, false_or, and_true]
  | clear j =>
    obtain ⟨c, hc, -⟩ := inPhase_iff.mp he
    have hcalls : (s.step (.clear j)).calls = s.calls := by simp only [Log.step, hc]
    rw [exposed_of_calls hcalls]
    simp only [Exposes, Stays, false_or, and_true]

/-- The loop names of the live points stay exactly when the name stored is the one in the slot,
which is held when all are. -/
lemma names_kept_iff {j : ℕ} {c : Call} (hc : s.calls[j]? = some c) (hall : s.AllInUse) :
    (∀ d ∈ s.calls, d.phase = .live →
        ((s.step (.store j)).table d.idx).loopName = (s.table d.idx).loopName) ↔
      (s.table c.idx).loopName = c.name := by
  have htable : (s.step (.store j)).table = store s.table c.name c.idx := by
    simp only [Log.step, hc]
  rw [htable]
  constructor
  · intro hkept
    obtain ⟨d, hd, hlive, hidx⟩ := hall c.idx
    have hname := hkept d hd hlive
    rw [hidx, store, Function.update_self] at hname
    exact hname.symm
  · intro hname d _ _
    by_cases hidx : d.idx = c.idx
    · rw [hidx, store, Function.update_self]
      exact hname.symm
    · rw [store, Function.update_of_ne hidx]

lemma allocates_iff {e : Event} (he : s.Possible e) :
    Allocates s e ↔ ∀ i, ¬ (Exposed i s ∧ Clashes i s e) := by
  cases e with
  | store j =>
    obtain ⟨c, hc, hphase⟩ := inPhase_iff.mp he
    have hexposed : Exposed j s ↔ s.Held c.idx := by simp [Exposed, Log.At, hc, hphase]
    have hclashes : ∀ i, Exposed i s ∧ Clashes i s (.store j) ↔
        i = j ∧ ¬ (s.Held c.idx → s.AllInUse ∧ (s.table c.idx).loopName = c.name) := by
      intro i
      by_cases hij : i = j
      · subst hij
        simp [hexposed, Clashes, hc]
      · simp [Clashes, hij, Ne.symm hij]
    have hone : (∀ i, ¬ (Exposed i s ∧ Clashes i s (.store j))) ↔
        (s.Held c.idx → s.AllInUse ∧ (s.table c.idx).loopName = c.name) := by
      simp only [hclashes]
      exact ⟨fun h => not_not.mp fun hn => h j ⟨rfl, hn⟩, fun h i hi => hi.2 h⟩
    rw [hone]
    simp only [Allocates, hc, Option.mem_def, Option.some.injEq, forall_eq']
    constructor
    · rintro ⟨huse, hkept⟩ hheld
      exact ⟨huse hheld, (names_kept_iff hc (huse hheld)).mp (hkept (huse hheld))⟩
    · intro h
      refine ⟨fun hheld => (h hheld).1, fun hall => ?_⟩
      exact (names_kept_iff hc hall).mpr (h (hall c.idx)).2
  | scan name => simp [Allocates, Clashes]
  | set j file line => simp [Allocates, Clashes]
  | clear j => simp [Allocates, Clashes]
  | delete j => simp [Allocates, Clashes]

/-- Over every interleaving: the calls of `logDbgPoint_New` give out indices as they should
exactly when no call that finds a held index, or whose index another call takes first, goes on to
store its name before the index is free again. -/
theorem points_exclusive_iff (es : List Event) (hl : logs.Legal {} es) :
    logs.EachStep Allocates {} es ↔
      ∀ i, ¬ logs.Follows (Exposes i) (Stays i) (Clashes i) {} es := by
  have hrule := hl.eachStep_iff_not_follows (G := fun _ => True) (X := Exposed) (A := Exposes)
    (N := Stays) (F := Clashes) (C := Allocates) (fun _ _ _ _ => trivial)
    (fun s e _ he => allocates_iff he) (fun i s e _ he => exposed_step i he) trivial
  have hnone : ∀ i, ¬ Exposed i {} := by
    rintro i ⟨idx, ⟨c, hc, -⟩, -⟩
    simp at hc
  rw [hrule]
  simp only [hnone, false_and, not_false_eq_true, true_and]

/-- Two loops one after the other. -/
theorem points_exclusive_iff_two : ¬ logs.Follows (Exposes 1) (Stays 1) (Clashes 1) {}
    [.scan (txt "read"), .store 0, .scan (txt "write"), .set 0 (txt "main.cpp") 12, .store 1] :=
  (points_exclusive_iff _ (by decide)).mp (by decide) 1

/-- Two threads search before either stores its name. -/
theorem point_shared : ¬ ∀ es, logs.Legal {} es → logs.EachStep Allocates {} es := by
  intro h
  have hrun := h [.scan (txt "read"), .scan (txt "write"), .store 0, .store 1] (by decide)
  exact absurd hrun (by decide)

end ToolkitCpp.ControlPoints
