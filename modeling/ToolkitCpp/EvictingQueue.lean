import Mathlib.Data.List.Nodup
import Mathlib.Data.List.Range
import ToolkitCpp.GuardedRuns

/-!
# First-in first-out queues that evict

A queue whose arrivals may displace its oldest element, kept together with a record of what
has arrived and how it left. `Access` says what one access can do; order and bound of whole
runs follow from it.
-/
namespace ToolkitCpp.EvictingQueue
open GuardedRuns

structure Ledger (α : Type*) where
  waiting : List α
  arrived : List α
  evicted : List α
  taken : List α

variable {α : Type*} {capacity : ℕ} {l l' : Ledger α}

/-- One access to a queue whose arrivals displace the oldest element once more than
`capacity` are waiting. -/
inductive Access (capacity : ℕ) : Ledger α → Ledger α → Prop
  | look (l : Ledger α) : Access capacity l l
  | arrive (l : Ledger α) (a : α) (hroom : l.waiting.length ≤ capacity) :
      Access capacity l ⟨l.waiting ++ [a], l.arrived ++ [a], l.evicted, l.taken⟩
  | displace (l : Ledger α) (m : α) (rest : List α) (a : α) (hq : l.waiting = m :: rest)
      (hfull : capacity < l.waiting.length) :
      Access capacity l ⟨rest ++ [a], l.arrived ++ [a], l.evicted ++ [m], l.taken⟩
  | take (l : Ledger α) (m : α) (rest : List α) (hq : l.waiting = m :: rest) :
      Access capacity l ⟨rest, l.arrived, l.evicted, l.taken ++ [m]⟩

/-- What an observer of a queue has seen: the arrivals, what they displaced, and what was handed
out, which may carry more than the element. -/
structure Record (α β : Type*) where
  arrived : List α := []
  evicted : List α := []
  taken : List β := []
  deriving DecidableEq, Repr

section Record

variable {β : Type*} (r : Record α β) (element : β → α)

def Record.ledger (waiting : List α) : Ledger α :=
  ⟨waiting, r.arrived, r.evicted, r.taken.map element⟩

/-- `a` arrives, and of the queue `before` only what is in `after` remains. -/
def Record.arrive [DecidableEq α] (a : α) (before after : List α) : Record α β :=
  { r with
    arrived := r.arrived ++ [a]
    evicted := r.evicted ++ before.filter (· ∉ after) }

def Record.take (b : Option β) : Record α β := { r with taken := r.taken ++ b.toList }

/-- A queue that gives up its front before it grows beyond one more than its capacity. -/
lemma Record.arrive_access [DecidableEq α] {q : List α} {a : α} (hnew : (q ++ [a]).Nodup)
    {after : List α} (hafter : after = (if q.length > capacity then q.tail else q) ++ [a]) :
    Access capacity (r.ledger element q) ((r.arrive a q after).ledger element after) := by
  subst hafter
  split_ifs with hfull
  · cases q with
    | nil => simp at hfull
    | cons m rest =>
      have hm : m ∉ rest ++ [a] := (List.nodup_cons.mp hnew).1
      have hgone : (m :: rest).filter (· ∉ rest ++ [a]) = [m] := by
        rw [List.filter_cons_of_pos (by simpa using hm), List.filter_eq_nil_iff.mpr]
        intro x hx
        simp [hx]
      rw [Record.arrive, List.tail_cons, hgone]
      exact Access.displace (r.ledger element (m :: rest)) m rest a rfl hfull
  · have hkept : q.filter (· ∉ q ++ [a]) = [] := by
      rw [List.filter_eq_nil_iff]
      intro x hx
      simp [hx]
    rw [Record.arrive, hkept, List.append_nil]
    exact Access.arrive (r.ledger element q) a (Nat.le_of_not_lt hfull)

end Record

/-- The elements taken and then those waiting are the ones that arrived without those
evicted, in order of arrival and without repetition. -/
structure Ledger.InOrder [DecidableEq α] (l : Ledger α) : Prop where
  kept : l.taken ++ l.waiting = l.arrived.filter (· ∉ l.evicted)
  once : l.arrived.Nodup
  known : ∀ a ∈ l.evicted, a ∈ l.arrived

/-- If anything was evicted between two states, it was the oldest element of a queue longer
than the capacity. -/
def EvictsOldest (capacity : ℕ) (l l' : Ledger α) : Prop :=
  l'.evicted = l.evicted ∨
    ∃ m rest, l.waiting = m :: rest ∧ capacity < l.waiting.length ∧
      l'.evicted = l.evicted ++ [m]

lemma Access.evictsOldest (h : Access capacity l l') : EvictsOldest capacity l l' := by
  cases h with
  | look => exact Or.inl rfl
  | arrive a hroom => exact Or.inl rfl
  | displace m rest a hq hfull => exact Or.inr ⟨m, rest, hq, hfull, rfl⟩
  | take m rest hq => exact Or.inl rfl

lemma Access.length_le (h : Access capacity l l') (hl : l.waiting.length ≤ capacity + 1) :
    l'.waiting.length ≤ capacity + 1 := by
  cases h with
  | look => exact hl
  | arrive a hroom => simpa using hroom
  | displace m rest a hq hfull => simpa [hq] using hl
  | take m rest hq =>
    simp only [hq, List.length_cons] at hl
    exact Nat.le_of_succ_le hl

/-- Only an arrival at a queue of exactly `capacity` elements makes it longer than that. -/
lemma Access.length_le_iff (h : Access capacity l l') (hl : l.waiting.length ≤ capacity) :
    l'.waiting.length ≤ capacity ↔
      l'.arrived = l.arrived ∨ l.waiting.length < capacity := by
  cases h with
  | look => exact iff_of_true hl (Or.inl rfl)
  | arrive a hroom => simp [Nat.succ_le_iff]
  | displace m rest a hq hfull => exact absurd hl (Nat.not_le.mpr hfull)
  | take m rest hq =>
    simp only [hq, List.length_cons] at hl
    exact iff_of_true (Nat.le_of_succ_le hl) (Or.inl rfl)

section Order

variable [DecidableEq α]

lemma Ledger.InOrder.empty : (⟨[], [], [], []⟩ : Ledger α).InOrder :=
  ⟨rfl, List.nodup_nil, by simp⟩

lemma Ledger.InOrder.nodup (h : l.InOrder) : (l.taken ++ l.waiting).Nodup :=
  h.kept ▸ h.once.filter _

/-- The part of the record that an arrival leaves alone. -/
lemma filter_arrival {xs es : List α} {a : α} (hnew : a ∉ xs) (hes : ∀ e ∈ es, e ∈ xs) :
    (xs ++ [a]).filter (· ∉ es) = xs.filter (· ∉ es) ++ [a] := by
  have ha : a ∉ es := fun h => hnew (hes a h)
  simp [List.filter_append, ha]

/-- Evicting one more element takes it out of the elements kept so far. -/
lemma filter_evicted {xs es before after : List α} {m : α}
    (hkept : before ++ m :: after = xs.filter (· ∉ es)) (honce : (before ++ m :: after).Nodup) :
    xs.filter (· ∉ es ++ [m]) = before ++ after := by
  have hsplit : xs.filter (· ∉ es ++ [m]) = (xs.filter (· ∉ es)).filter (· ≠ m) := by
    rw [List.filter_filter]
    refine List.filter_congr fun a _ => ?_
    simp [and_comm]
  have hmem := List.nodup_middle.mp honce
  rw [List.nodup_cons] at hmem
  rw [hsplit, ← hkept, List.filter_append, List.filter_cons_of_neg (by simp), ← List.filter_append,
    List.filter_eq_self]
  intro a ha
  have hne : a ≠ m := fun h => hmem.1 (h ▸ ha)
  simpa using hne

/-- An access keeps the order, provided that what arrives has not arrived before. -/
lemma Access.inOrder (h : Access capacity l l') (hl : l.InOrder) (honce : l'.arrived.Nodup) :
    l'.InOrder := by
  cases h with
  | look => exact hl
  | arrive a hroom =>
    have hnew : a ∉ l.arrived := fun ha =>
      List.disjoint_of_nodup_append honce ha (List.mem_singleton_self a)
    refine ⟨?_, honce, ?_⟩
    · rw [filter_arrival hnew hl.known, ← hl.kept, List.append_assoc]
    · intro b hb
      exact List.mem_append_left _ (hl.known b hb)
  | displace m rest a hq hfull =>
    have hnew : a ∉ l.arrived := fun ha =>
      List.disjoint_of_nodup_append honce ha (List.mem_singleton_self a)
    have hkept := hl.kept
    have hnodup := hl.nodup
    rw [hq] at hkept hnodup
    have hm : m ∈ l.arrived := by
      have hmem : m ∈ l.arrived.filter (· ∉ l.evicted) :=
        hkept ▸ List.mem_append_right _ List.mem_cons_self
      exact List.mem_of_mem_filter hmem
    have hknown : ∀ b ∈ l.evicted ++ [m], b ∈ l.arrived := by
      intro b hb
      rcases List.mem_append.mp hb with hb | hb
      · exact hl.known b hb
      · exact List.mem_singleton.mp hb ▸ hm
    refine ⟨?_, honce, ?_⟩
    · rw [filter_arrival hnew hknown, filter_evicted hkept hnodup, List.append_assoc]
    · intro b hb
      exact List.mem_append_left _ (hknown b hb)
  | take m rest hq =>
    refine ⟨?_, hl.once, hl.known⟩
    rw [← hl.kept, hq, List.append_assoc, List.singleton_append]

end Order

section Numbers

/-! Elements numbered in the order of their arrival, where `n` is the next number. -/

lemma nodup_of_upward (number : α → ℕ) {xs : List α}
    (hup : (xs.map number).Pairwise (· < ·)) : xs.Nodup :=
  List.Nodup.of_map number (hup.imp fun hlt => hlt.ne)

lemma upward_succ {ns : List ℕ} {n : ℕ} (h : (ns ++ [n]).Pairwise (· < ·)) :
    (ns ++ [n] ++ [n + 1]).Pairwise (· < ·) := by
  have hbound : ∀ x ∈ ns ++ [n], x < n + 1 := by
    intro x hx
    rcases List.mem_append.mp hx with hx | hx
    · have hlt := (List.pairwise_append.mp h).2.2 x hx n (by simp)
      omega
    · rw [List.mem_singleton.mp hx]
      omega
  exact List.pairwise_append.mpr ⟨h, by simp, by simpa using hbound⟩

end Numbers

/-! A system is a queue when each of its possible steps, out of a state that satisfies an
invariant, is an access to the ledger in view. -/

section Systems

variable {S E : Type*} {M : System S E} {I : S → Prop} {view : S → Ledger α}

structure IsQueue (M : System S E) (capacity : ℕ) (I : S → Prop) (view : S → Ledger α) :
    Prop where
  keeps : ∀ s e, I s → M.possible s e → I (M.step s e)
  access : ∀ s e, I s → M.possible s e → Access capacity (view s) (view (M.step s e))

theorem IsQueue.inOrder [DecidableEq α] (h : IsQueue M capacity I view)
    (honce : ∀ s, I s → (view s).arrived.Nodup) {s : S} {es : List E} (hl : M.Legal s es)
    (hs : I s) (ho : (view s).InOrder) :
    M.Along (fun s => (view s).InOrder) s es ∧
      M.EachStep (fun s e => EvictsOldest capacity (view s) (view (M.step s e))) s es := by
  constructor
  · have hboth : M.Along (fun s => I s ∧ (view s).InOrder) s es := by
      refine hl.along ?_ ⟨hs, ho⟩
      rintro s e ⟨hs, ho⟩ hp
      have hnext := h.keeps s e hs hp
      exact ⟨hnext, (h.access s e hs hp).inOrder ho (honce _ hnext)⟩
    exact hboth.imp fun s h => h.2
  · exact hl.eachStep h.keeps (fun s e hs hp => (h.access s e hs hp).evictsOldest) hs

theorem IsQueue.length_le (h : IsQueue M capacity I view) {s : S} {es : List E}
    (hl : M.Legal s es) (hs : I s) (hlen : (view s).waiting.length ≤ capacity + 1) :
    M.Along (fun s => (view s).waiting.length ≤ capacity + 1) s es := by
  have hboth : M.Along (fun s => I s ∧ (view s).waiting.length ≤ capacity + 1) s es := by
    refine hl.along ?_ ⟨hs, hlen⟩
    rintro s e ⟨hs, hlen⟩ hp
    exact ⟨h.keeps s e hs hp, (h.access s e hs hp).length_le hlen⟩
  exact hboth.imp fun s h => h.2

/-- The queue stays within its capacity exactly when nothing arrives while it is full. -/
theorem IsQueue.length_le_iff (h : IsQueue M capacity I view) {C : S → E → Prop}
    (hC : ∀ s e, I s → M.possible s e → (C s e ↔
      (view (M.step s e)).arrived = (view s).arrived ∨ (view s).waiting.length < capacity))
    {s : S} {es : List E} (hl : M.Legal s es) (hs : I s)
    (hlen : (view s).waiting.length ≤ capacity) :
    M.Along (fun s => (view s).waiting.length ≤ capacity) s es ↔ M.EachStep C s es := by
  refine hl.along_iff_eachStep (G := fun s => I s ∧ (view s).waiting.length ≤ capacity)
    (fun s h => h.2) ?_ ?_ ⟨hs, hlen⟩
  · rintro s e ⟨hs, hlen⟩ hp hc
    exact ⟨h.keeps s e hs hp,
      ((h.access s e hs hp).length_le_iff hlen).mpr ((hC s e hs hp).mp hc)⟩
  · rintro s e ⟨hs, hlen⟩ hp hc hle
    exact hc ((hC s e hs hp).mpr (((h.access s e hs hp).length_le_iff hlen).mp hle))

end Systems

end ToolkitCpp.EvictingQueue
