import ToolkitCpp.WatchDogWorker

/-!
# Delivery and stopping of the watchdog worker

`m_sendOne` is meant to guarantee that the last status still goes out when `stop()` is called.
The worker reads the status before it clears the flag, so a status written between the two loses
the flag without having been read. And the worker sets `m_localWorks` itself when its thread
starts, which undoes a `stop()` that came first.
-/
namespace ToolkitCpp.WatchDog
open GuardedRuns

variable {C O : Type} (I : IWatchDogClient C O)

def Event.isWork : Event O → Bool
  | .work _ => true
  | _ => false

/-- `notify` is called with statuses for which the worker has a message. -/
def Event.hasMessage : Event O → Bool
  | .notify status => (message status).isSome
  | _ => true

def threads : System (Worker C) (Event O) := ⟨fun _ e => e.hasMessage = true, Worker.step I⟩

instance (s : Worker C) (e : Event O) : Decidable ((threads I).possible s e) :=
  inferInstanceAs (Decidable (e.hasMessage = true))

/-- The worker has just entered its loop; `notify` calls may be under way or done. -/
structure Worker.Entered (s : Worker C) : Prop where
  atCreate : s.pc = .createMsg
  running : s.owner = .running
  fresh : ∀ c ∈ s.calls, (message c.status).isSome ∧ c.created = false ∧ c.sent = false
  lastDone : ∀ i ∈ s.last, ∃ c, s.calls[i]? = some c ∧ c.pc = .done

/-- The worker leaves its loop. -/
def Ends (s : Worker C) (e : Event O) : Prop :=
  e.isWork = true ∧ s.pc = .loopTest ∧ s.goesOn = false

/-- When the worker ends, the status of the last `notify` completed before `stop()` has been
passed to `createMsg` and `sendMsg`. -/
def Delivers (s : Worker C) (e : Event O) : Prop :=
  Ends s e → ∀ i ∈ s.last, s.calls[i]?.map Call.sent = some true

instance (s : Worker C) (e : Event O) : Decidable (Ends s e) :=
  inferInstanceAs (Decidable (_ ∧ _))

instance (s : Worker C) (e : Event O) : Decidable (Delivers s e) :=
  inferInstanceAs (Decidable (_ → _))

/-- Call `i` writes the status `v`. -/
def Writes (i : ℕ) (v : Statuses) (s : Worker C) (e : Event O) : Prop :=
  e = .advance i ∧ ∃ c, s.calls[i]? = some c ∧ c.pc = .setStatus ∧ c.status = v

def Wrote (i : ℕ) (v : Statuses) (s : Worker C) : Prop :=
  ∃ c, s.calls[i]? = some c ∧ c.pc ≠ .setStatus ∧ c.status = v

/-- The worker finds the status `v`. -/
def Reads (v : Statuses) (s : Worker C) (e : Event O) : Prop :=
  e.isWork = true ∧ s.pc = .createMsg ∧ s.outputStatus = v

def EndsAfter (i : ℕ) (s : Worker C) (e : Event O) : Prop := Ends s e ∧ s.last = some i

/-- Any step but a read of `m_outputStatus` by the worker. -/
def NoRead (s : Worker C) (e : Event O) : Prop := ¬ (e.isWork = true ∧ s.pc = .createMsg)

/-- The worker finds another status than `v`. -/
def ReadsOther (v : Statuses) (s : Worker C) (e : Event O) : Prop :=
  e.isWork = true ∧ s.pc = .createMsg ∧ s.outputStatus ≠ v

/-- Call `i` writes its status `v` between the worker's read of `m_outputStatus` and its
`m_sendOne = false`. The worker does not read again and ends when this is the last call that was
completed before `stop()`. -/
def Missed (i : ℕ) (v : Statuses) : Worker C → List (Event O) → Prop :=
  (threads I).Follows (fun s e => Writes i v s e ∧ s.pc = .resetSendOne) NoRead (EndsAfter i)

/-- When the worker reads next, another `notify` or the timeout has replaced the status `v` of
call `i`, which it does not find later either. It ends when this is the last call that was
completed before `stop()`. -/
def Replaced (i : ℕ) (v : Statuses) (s : Worker C) (es : List (Event O)) : Prop :=
  let replaced := (threads I).ReachesThen NoRead (ReadsOther v)
    ((threads I).Reaches (fun s e => ¬ Reads v s e) (EndsAfter i))
  Wrote i v s ∧ replaced s es ∨
    (threads I).ReachesThen (fun _ _ => True) (Writes i v) replaced s es

/-- The worker is not between the choice of a message and `sendMsg`. -/
def Worker.Settled (s : Worker C) : Prop := s.pc ≠ .resetSendOne ∧ s.pc ≠ .sendMsg

structure Call.Sound (settled : Prop) (c : Call) : Prop where
  hasMessage : (message c.status).isSome
  unwritten : c.pc = .setStatus → c.created = false
  sentCreated : c.sent = true → c.created = true
  createdSent : settled → c.created = true → c.sent = true

structure Worker.Sound (s : Worker C) : Prop where
  calls : ∀ c ∈ s.calls, c.Sound s.Settled
  lastDone : ∀ i ∈ s.last, ∃ c, s.calls[i]? = some c ∧ c.pc = .done

/-- Call `i` has written its status `v`, and the worker has not found it. -/
def Exposed (i : ℕ × Statuses) (s : Worker C) : Prop :=
  ∃ c, s.calls[i.1]? = some c ∧ c.pc ≠ .setStatus ∧ c.status = i.2 ∧ c.created = false

lemma Call.create_pc (v : Statuses) (c : Call) : (c.create v).pc = c.pc := by
  unfold Call.create
  split_ifs <;> rfl

lemma Call.create_status (v : Statuses) (c : Call) : (c.create v).status = c.status := by
  unfold Call.create
  split_ifs <;> rfl

lemma Call.create_sent (v : Statuses) (c : Call) : (c.create v).sent = c.sent := by
  unfold Call.create
  split_ifs <;> rfl

lemma Call.create_created (v : Statuses) (c : Call) :
    (c.create v).created = (c.created || decide (c.status = v ∧ c.pc ≠ .setStatus)) := by
  unfold Call.create
  split_ifs with h <;> simp [h]

lemma Call.Sound.create {settled settled' : Prop} {c : Call} (h : c.Sound settled)
    (hn : ¬ settled') (v : Statuses) : (c.create v).Sound settled' where
  hasMessage := by rw [c.create_status]; exact h.hasMessage
  unwritten hpc := by
    rw [c.create_pc] at hpc
    simp [c.create_created, h.unwritten hpc, hpc]
  sentCreated hs := by
    rw [c.create_sent] at hs
    simp [c.create_created, h.sentCreated hs]
  createdSent hs := absurd hs hn

lemma Call.Sound.send {settled settled' : Prop} {c : Call} (h : c.Sound settled) :
    c.send.Sound settled' where
  hasMessage := h.hasMessage
  unwritten := h.unwritten
  sentCreated hs := hs
  createdSent _ hc := hc

lemma Call.Sound.imp {settled settled' : Prop} {c : Call} (h : c.Sound settled)
    (himp : settled' → settled) : c.Sound settled' where
  hasMessage := h.hasMessage
  unwritten := h.unwritten
  sentCreated := h.sentCreated
  createdSent hs := h.createdSent (himp hs)

variable {I} {s t : Worker C}

lemma Worker.Sound.same (hs : s.Sound) (hcalls : t.calls = s.calls) (hlast : t.last = s.last)
    (himp : t.Settled → s.Settled) : t.Sound where
  calls c hc := (hs.calls c (hcalls ▸ hc)).imp himp
  lastDone := by
    rw [hcalls, hlast]
    exact hs.lastDone

/-- The worker marks all calls at once. -/
lemma Worker.Sound.marked (hs : s.Sound) {f : Call → Call} (hcalls : t.calls = s.calls.map f)
    (hlast : t.last = s.last) (hpc : ∀ c, (f c).pc = c.pc)
    (hf : ∀ c ∈ s.calls, (f c).Sound t.Settled) : t.Sound where
  calls c hc := by
    rw [hcalls, List.mem_map] at hc
    obtain ⟨c', hc', rfl⟩ := hc
    exact hf c' hc'
  lastDone i hi := by
    rw [hlast] at hi
    obtain ⟨c, hc, hdone⟩ := hs.lastDone i hi
    refine ⟨f c, ?_, (hpc c).trans hdone⟩
    rw [hcalls, List.getElem?_map, hc]
    rfl

lemma Worker.Sound.work (hs : s.Sound) (o : O) : (s.work I o).Sound := by
  cases hpc : s.pc with
  | createMsg =>
    cases hm : message s.outputStatus with
    | none =>
      simp only [Worker.work, hpc, hm]
      exact hs.same rfl rfl fun _ => by simp [Worker.Settled, hpc]
    | some text =>
      simp only [Worker.work, hpc, hm]
      exact hs.marked rfl rfl (Call.create_pc _) fun c hc =>
        (hs.calls c hc).create (by simp [Worker.Settled]) _
  | sendMsg =>
    simp only [Worker.work, hpc]
    exact hs.marked rfl rfl (fun _ => rfl) fun c hc => (hs.calls c hc).send
  | resetSendOne =>
    simp only [Worker.work, hpc]
    exact hs.same rfl rfl fun h => absurd rfl h.2
  | _ =>
    simp only [Worker.work, hpc]
    exact hs.same rfl rfl fun _ => by simp [Worker.Settled, hpc]

lemma Worker.Sound.notify (hs : s.Sound) {v : Statuses} (hv : (message v).isSome)
    (hcalls : t.calls = s.calls ++ [Call.begin v]) (hlast : t.last = s.last)
    (hpc : t.pc = s.pc) : t.Sound where
  calls c hc := by
    rw [hcalls, List.mem_append, List.mem_singleton] at hc
    rcases hc with hc | rfl
    · apply (hs.calls c hc).imp
      rw [Worker.Settled, hpc]
      exact id
    · exact ⟨hv, fun _ => rfl, fun h => Bool.noConfusion h, fun _ h => Bool.noConfusion h⟩
  lastDone i hi := by
    rw [hlast] at hi
    obtain ⟨c, hc, hdone⟩ := hs.lastDone i hi
    refine ⟨c, ?_, hdone⟩
    rw [hcalls, List.getElem?_append_left (List.getElem?_eq_some_iff.mp hc).1]
    exact hc

/-- `start()` has launched the worker. -/
def Worker.Launched (s : Worker C) : Prop := s.owner = .running ∨ s.owner.stopCalled = true

/-- After the launch the owner's thread touches neither the calls nor the worker's place. -/
lemma Worker.Launched.own (hs : s.Launched) (o : O) : (s.own I o).Launched ∧
    (s.own I o).calls = s.calls ∧ (s.own I o).last = s.last ∧ (s.own I o).pc = s.pc := by
  rcases hs with hrun | hstop
  · simp [Worker.own, hrun, Worker.Launched, OwnerPc.stopCalled]
  · obtain ⟨-, hcalls, hlast, hpc, hstop'⟩ := Worker.own_kept (I := I) hstop o
    exact ⟨.inr hstop', hcalls, hlast, hpc⟩

/-- A call moves on. It is not the last one before it returns, so the last one stays. -/
lemma Worker.Sound.moved (hs : s.Sound) {i : ℕ} {c : Call} {pc : NotifyPc}
    (hi : s.calls[i]? = some c) (hopen : c.pc ≠ .done) (hwrote : pc ≠ .setStatus)
    (hcalls : t.calls = s.calls.set i { c with pc := pc }) (hpc : t.pc = s.pc)
    (hlast : ∀ j ∈ t.last, j = i ∧ pc = .done ∨ j ∈ s.last) : t.Sound where
  calls x hx := by
    have hsound := hs.calls c (List.mem_of_getElem? hi)
    have hsettled : t.Settled → s.Settled := by
      rw [Worker.Settled, Worker.Settled, hpc]
      exact id
    rw [hcalls] at hx
    rcases List.mem_or_eq_of_mem_set hx with hx | rfl
    · exact (hs.calls x hx).imp hsettled
    · exact ⟨hsound.hasMessage, fun h => absurd h hwrote, hsound.sentCreated,
        fun h => hsound.createdSent (hsettled h)⟩
  lastDone j hj := by
    rw [hcalls]
    rcases hlast j hj with ⟨rfl, hdone⟩ | hj
    · exact ⟨_, List.getElem?_set_self (List.getElem?_eq_some_iff.mp hi).1, hdone⟩
    · obtain ⟨x, hx, hdone⟩ := hs.lastDone j hj
      have hne : i ≠ j := by
        rintro rfl
        rw [hi, Option.some.injEq] at hx
        exact hopen (hx ▸ hdone)
      exact ⟨x, by rw [List.getElem?_set_ne hne]; exact hx, hdone⟩

lemma Worker.Sound.advance (hs : s.Sound) (i : ℕ) : (s.advance i).Sound := by
  cases hi : s.calls[i]? with
  | none =>
    simp only [Worker.advance, hi]
    exact hs
  | some c =>
    cases hpc : c.pc with
    | setStatus =>
      simp only [Worker.advance, hi, hpc]
      exact hs.moved hi (by simp [hpc]) (by simp) rfl rfl fun j hj => .inr hj
    | setSendOne =>
      simp only [Worker.advance, hi, hpc]
      exact hs.moved hi (by simp [hpc]) (by simp) rfl rfl fun j hj => .inr hj
    | updateTime =>
      simp only [Worker.advance, hi, hpc]
      refine hs.moved hi (by simp [hpc]) (by simp) rfl rfl ?_
      intro j hj
      simp only at hj
      split_ifs at hj
      · exact .inr hj
      · exact .inl ⟨(Option.some.inj hj).symm, rfl⟩
    | done =>
      simp only [Worker.advance, hi, hpc]
      exact hs

lemma Worker.Sound.step (hs : s.Sound) (hlaunched : s.Launched) {e : Event O}
    (he : e.hasMessage = true) : (s.step I e).Sound ∧ (s.step I e).Launched := by
  cases e with
  | work o =>
    refine ⟨hs.work o, ?_⟩
    rw [Worker.Launched, Worker.step, Worker.work_owner]
    exact hlaunched
  | own o =>
    obtain ⟨hlaunched', hcalls, hlast, hpc⟩ := hlaunched.own (I := I) o
    refine ⟨hs.same hcalls hlast ?_, hlaunched'⟩
    rw [Worker.Settled, Worker.step, hpc]
    exact id
  | notify v =>
    have hv : (message v).isSome := he
    refine ⟨hs.notify hv (s.notify_calls I v) (s.notify_last I v) (s.notify_pc I v), ?_⟩
    rw [Worker.Launched, Worker.step, s.notify_owner]
    exact hlaunched
  | advance i =>
    refine ⟨hs.advance i, ?_⟩
    rw [Worker.Launched, Worker.step, (s.advance_kept i).2.2.1]
    exact hlaunched
  | setWorking b => exact ⟨hs.same rfl rfl id, hlaunched⟩
  | setWdSets d => exact ⟨hs.same rfl rfl id, hlaunched⟩
  | tick n => exact ⟨hs.same rfl rfl id, hlaunched⟩

/-! What a step does to the exposure of a status. -/

variable {i : ℕ × Statuses}

lemma exposed_same (h : t.calls = s.calls) : Exposed i t ↔ Exposed i s := by
  rw [Exposed, Exposed, h]

lemma exposed_marked {f : Call → Call} (hcalls : t.calls = s.calls.map f)
    (hf : ∀ c, (f c).pc = c.pc ∧ (f c).status = c.status)
    (hcreated : ∀ c, c.pc ≠ .setStatus → c.status = i.2 →
      ((f c).created = false ↔ c.created = false)) :
    Exposed i t ↔ Exposed i s := by
  rw [Exposed, Exposed, hcalls, List.getElem?_map]
  constructor
  · rintro ⟨c', hc', hpc, hstatus, hnot⟩
    obtain ⟨c, hc, rfl⟩ := Option.map_eq_some_iff.mp hc'
    rw [(hf c).1] at hpc
    rw [(hf c).2] at hstatus
    exact ⟨c, hc, hpc, hstatus, (hcreated c hpc hstatus).mp hnot⟩
  · rintro ⟨c, hc, hpc, hstatus, hnot⟩
    refine ⟨f c, by rw [hc]; rfl, ?_, ?_, (hcreated c hpc hstatus).mpr hnot⟩
    · rw [(hf c).1]
      exact hpc
    · rw [(hf c).2]
      exact hstatus

/-- The worker's thread ends the exposure of the status that it finds. -/
lemma exposed_work (hs : s.Sound) (o : O) :
    Exposed i (s.work I o) ↔ Exposed i s ∧ ¬ Reads i.2 s (.work o : Event O) := by
  have hother : s.pc ≠ .createMsg → ¬ Reads i.2 s (.work o : Event O) := fun h hr => h hr.2.1
  cases hpc : s.pc with
  | createMsg =>
    by_cases hv : s.outputStatus = i.2
    · have hr : Reads i.2 s (.work o : Event O) := ⟨rfl, hpc, hv⟩
      refine iff_of_false ?_ fun h => h.2 hr
      rintro ⟨c', hc', hwrote, hstatus, hnot⟩
      cases hm : message s.outputStatus with
      | none =>
        simp only [Worker.work, hpc, hm] at hc'
        have hsome := (hs.calls c' (List.mem_of_getElem? hc')).hasMessage
        rw [hstatus, ← hv, hm] at hsome
        cases hsome
      | some text =>
        simp only [Worker.work, hpc, hm, List.getElem?_map] at hc'
        obtain ⟨c, hc, rfl⟩ := Option.map_eq_some_iff.mp hc'
        rw [c.create_pc] at hwrote
        rw [c.create_status] at hstatus
        simp [c.create_created, hstatus, hv, hwrote] at hnot
    · have hr : ¬ Reads i.2 s (.work o : Event O) := fun h => hv h.2.2
      rw [and_iff_left hr]
      cases hm : message s.outputStatus with
      | none => exact exposed_same (by simp only [Worker.work, hpc, hm])
      | some text =>
        refine exposed_marked (f := Call.create s.outputStatus)
          (by simp only [Worker.work, hpc, hm]) (fun c => ⟨c.create_pc _, c.create_status _⟩) ?_
        intro c _ hstatus
        simp [c.create_created, hstatus, Ne.symm hv]
  | sendMsg =>
    rw [and_iff_left (hother (by simp [hpc]))]
    exact exposed_marked (f := Call.send) (by simp only [Worker.work, hpc])
      (fun c => ⟨rfl, rfl⟩) fun c _ _ => Iff.rfl
  | _ =>
    rw [and_iff_left (hother (by simp [hpc]))]
    exact exposed_same (by simp only [Worker.work, hpc])

lemma exposed_notify (v : Statuses) : Exposed i (s.notify I v) ↔ Exposed i s := by
  constructor
  · rintro ⟨c, hc, hpc, hrest⟩
    rw [s.notify_calls, List.getElem?_append] at hc
    split_ifs at hc with hlt
    · exact ⟨c, hc, hpc, hrest⟩
    · rw [List.getElem?_singleton] at hc
      split_ifs at hc
      rw [Option.some.injEq] at hc
      exact absurd (hc ▸ rfl) hpc
  · rintro ⟨c, hc, hrest⟩
    refine ⟨c, ?_, hrest⟩
    rw [s.notify_calls, List.getElem?_append_left (List.getElem?_eq_some_iff.mp hc).1]
    exact hc

lemma exposed_moved {j : ℕ} {c : Call} {pc : NotifyPc} (hj : s.calls[j]? = some c)
    (hwrote : pc ≠ .setStatus) (hcalls : t.calls = s.calls.set j { c with pc := pc }) :
    Exposed i t ↔ i.1 = j ∧ c.status = i.2 ∧ c.created = false ∨ i.1 ≠ j ∧ Exposed i s := by
  have hlt := (List.getElem?_eq_some_iff.mp hj).1
  rw [Exposed, hcalls]
  by_cases hij : i.1 = j
  · rw [hij, List.getElem?_set_self hlt]
    simp [hwrote]
  · rw [List.getElem?_set_ne (Ne.symm hij)]
    simp [hij, Exposed]

lemma Worker.advance_calls {j : ℕ} {c : Call} (hj : s.calls[j]? = some c) :
    ∃ pc, pc ≠ .setStatus ∧ (s.advance j).calls = s.calls.set j { c with pc := pc } := by
  cases hpc : c.pc with
  | setStatus => exact ⟨.setSendOne, by simp, by simp only [Worker.advance, hj, hpc]⟩
  | setSendOne => exact ⟨.updateTime, by simp, by simp only [Worker.advance, hj, hpc]⟩
  | updateTime => exact ⟨.done, by simp, by simp only [Worker.advance, hj, hpc]⟩
  | done =>
    refine ⟨.done, by simp, ?_⟩
    obtain ⟨hlt, hget⟩ := List.getElem?_eq_some_iff.mp hj
    simp only [Worker.advance, hj, hpc]
    rw [← hpc, ← hget, List.set_getElem_self]

/-- A call exposes its status by writing it. -/
lemma exposed_advance (hs : s.Sound) (j : ℕ) :
    Exposed i (s.advance j) ↔ Writes i.1 i.2 s (.advance j : Event O) ∨ Exposed i s := by
  cases hj : s.calls[j]? with
  | none =>
    have hno : ¬ Writes i.1 i.2 s (.advance j : Event O) := by
      rintro ⟨he, c, hc, -⟩
      cases he
      rw [hj] at hc
      cases hc
    rw [or_iff_right hno]
    exact exposed_same (by simp only [Worker.advance, hj])
  | some c =>
    have hwrites : Writes i.1 i.2 s (.advance j : Event O) ↔
        i.1 = j ∧ c.pc = .setStatus ∧ c.status = i.2 := by
      constructor
      · rintro ⟨he, c', hc', hpc, hstatus⟩
        cases he
        rw [hj, Option.some.injEq] at hc'
        subst hc'
        exact ⟨rfl, hpc, hstatus⟩
      · rintro ⟨rfl, hpc, hstatus⟩
        exact ⟨rfl, c, hj, hpc, hstatus⟩
    have hhere : i.1 = j → (Exposed i s ↔ c.pc ≠ .setStatus ∧ c.status = i.2 ∧
        c.created = false) := by
      rintro rfl
      simp [Exposed, hj]
    have hsound := hs.calls c (List.mem_of_getElem? hj)
    obtain ⟨pc, hwrote, hcalls⟩ := Worker.advance_calls hj
    rw [hwrites, exposed_moved hj hwrote hcalls]
    by_cases hij : i.1 = j
    · rw [hhere hij]
      by_cases hpc : c.pc = .setStatus
      · simp [hij, hpc, hsound.unwritten hpc]
      · simp [hij, hpc]
    · simp [hij]

lemma exposed_step (hs : s.Sound) (hlaunched : s.Launched) (e : Event O) :
    Exposed i (s.step I e) ↔ Writes i.1 i.2 s e ∨ Exposed i s ∧ ¬ Reads i.2 s e := by
  have hno : ∀ {e : Event O}, (∀ j, e ≠ .advance j) → ¬ Writes i.1 i.2 s e :=
    fun h hw => h i.1 hw.1
  have hnot : ∀ {e : Event O}, e.isWork = false → ¬ Reads i.2 s e := by
    intro e he hr
    exact Bool.noConfusion (he.symm.trans hr.1)
  cases e with
  | work o =>
    rw [or_iff_right (hno fun j h => by cases h)]
    exact exposed_work hs o
  | own o =>
    rw [or_iff_right (hno fun j h => by cases h), and_iff_left (hnot rfl)]
    exact exposed_same (hlaunched.own o).2.1
  | notify v =>
    rw [or_iff_right (hno fun j h => by cases h), and_iff_left (hnot rfl)]
    exact exposed_notify v
  | advance j =>
    rw [and_iff_left (hnot rfl)]
    exact exposed_advance hs j
  | setWorking b =>
    rw [or_iff_right (hno fun j h => by cases h), and_iff_left (hnot rfl)]
    exact exposed_same rfl
  | setWdSets d =>
    rw [or_iff_right (hno fun j h => by cases h), and_iff_left (hnot rfl)]
    exact exposed_same rfl
  | tick n =>
    rw [or_iff_right (hno fun j h => by cases h), and_iff_left (hnot rfl)]
    exact exposed_same rfl

/-- The end of the worker misses the last call exactly when its status is still exposed. -/
lemma delivers_iff (hs : s.Sound) (e : Event O) :
    Delivers s e ↔ ∀ i : ℕ × Statuses, ¬ (Exposed i s ∧ EndsAfter i.1 s e) := by
  constructor
  · rintro h i ⟨⟨c, hc, -, -, hnot⟩, hend, hlast⟩
    have hsent := h hend i.1 hlast
    rw [hc, Option.map_some, Option.some.injEq] at hsent
    have hcreated := (hs.calls c (List.mem_of_getElem? hc)).sentCreated hsent
    rw [hnot] at hcreated
    cases hcreated
  · intro h hend i hi
    obtain ⟨c, hc, hdone⟩ := hs.lastDone i hi
    have hsound := hs.calls c (List.mem_of_getElem? hc)
    have hsettled : s.Settled := by simp [Worker.Settled, hend.2.1]
    rw [hc, Option.map_some, Option.some.injEq]
    apply hsound.createdSent hsettled
    by_contra hnot
    exact h (i, c.status) ⟨⟨c, hc, by simp [hdone], rfl, Bool.eq_false_iff.mpr hnot⟩, hend, hi⟩

lemma Worker.Entered.sound (hs : s.Entered) : s.Sound where
  calls c hc := by
    obtain ⟨hm, hcreated, hsent⟩ := hs.fresh c hc
    refine ⟨hm, fun _ => hcreated, fun h => ?_, fun _ h => ?_⟩
    · rw [hsent] at h
      cases h
    · rw [hcreated] at h
      cases h
  lastDone := hs.lastDone

lemma Worker.Entered.exposed_iff (hs : s.Entered) : Exposed i s ↔ Wrote i.1 i.2 s := by
  constructor
  · rintro ⟨c, hc, hpc, hstatus, -⟩
    exact ⟨c, hc, hpc, hstatus⟩
  · rintro ⟨c, hc, hpc, hstatus⟩
    exact ⟨c, hc, hpc, hstatus, (hs.fresh c (List.mem_of_getElem? hc)).2.1⟩

/-! Without a read, the flag that call `i` sets keeps the worker in its loop. -/

/-- The flag of call `i` is set or still to be set, and the worker does not clear it before it has
read again. -/
structure Flagged (i : ℕ) (s : Worker C) : Prop where
  flag : s.calls[i]?.map Call.pc = some .setSendOne ∨ s.sendOne = true
  launched : s.Launched
  place : s.pc ≠ .setLocalWorks ∧ s.pc ≠ .clearSendOne ∧ s.pc ≠ .resetSendOne

lemma Worker.own_sendOne (s : Worker C) (o : O) : (s.own I o).sendOne = s.sendOne := by
  unfold Worker.own
  split
  case h_6 | h_9 => split_ifs <;> rfl
  all_goals rfl

lemma Worker.work_calls_pc (s : Worker C) (o : O) (j : ℕ) :
    (s.work I o).calls[j]?.map Call.pc = s.calls[j]?.map Call.pc := by
  have hcreate : Call.pc ∘ Call.create s.outputStatus = Call.pc :=
    funext fun c => c.create_pc _
  have hsend : Call.pc ∘ Call.send = Call.pc := rfl
  cases hpc : s.pc with
  | createMsg =>
    cases hm : message s.outputStatus with
    | none => simp only [Worker.work, hpc, hm]
    | some text => simp only [Worker.work, hpc, hm, List.getElem?_map, Option.map_map, hcreate]
  | sendMsg => simp only [Worker.work, hpc, List.getElem?_map, Option.map_map, hsend]
  | _ => simp only [Worker.work, hpc]

/-- A step of the worker other than a read does not clear the flag. -/
lemma Worker.work_flag {o : O} (hread : s.pc ≠ .createMsg)
    (hplace : s.pc ≠ .setLocalWorks ∧ s.pc ≠ .clearSendOne ∧ s.pc ≠ .resetSendOne) :
    (s.work I o).sendOne = s.sendOne ∧ (s.work I o).pc ≠ .setLocalWorks ∧
      (s.work I o).pc ≠ .clearSendOne ∧ (s.work I o).pc ≠ .resetSendOne := by
  obtain ⟨hlocal, hclear, hreset⟩ := hplace
  cases hpc : s.pc with
  | createMsg => exact absurd hpc hread
  | setLocalWorks => exact absurd hpc hlocal
  | clearSendOne => exact absurd hpc hclear
  | resetSendOne => exact absurd hpc hreset
  | loopTest => cases hg : s.goesOn <;> simp [Worker.work, hpc, hg]
  | testOff => by_cases hoff : s.outputStatus = .off <;> simp [Worker.work, hpc, hoff]
  | testElapsed =>
    simp only [Worker.work, hpc]
    split_ifs <;> simp
  | _ => simp [Worker.work, hpc]

lemma Worker.advance_flag {j : ℕ} (s : Worker C) (k : ℕ)
    (h : s.calls[j]?.map Call.pc = some .setSendOne ∨ s.sendOne = true) :
    (s.advance k).calls[j]?.map Call.pc = some .setSendOne ∨ (s.advance k).sendOne = true := by
  cases hk : s.calls[k]? with
  | none => simpa only [Worker.advance, hk] using h
  | some c =>
    have hother : ∀ pc, c.pc ≠ .setSendOne → s.calls[j]?.map Call.pc = some .setSendOne →
        (s.calls.set k { c with pc := pc })[j]?.map Call.pc = some .setSendOne := by
      intro pc hc hj
      have hne : k ≠ j := by
        rintro rfl
        rw [hk, Option.map_some, Option.some.injEq] at hj
        exact hc hj
      rwa [List.getElem?_set_ne hne]
    cases hpc : c.pc with
    | setStatus =>
      simp only [Worker.advance, hk, hpc]
      exact h.imp_left (hother _ (by simp [hpc]))
    | setSendOne =>
      simp only [Worker.advance, hk, hpc]
      exact .inr trivial
    | updateTime =>
      simp only [Worker.advance, hk, hpc]
      exact h.imp_left (hother _ (by simp [hpc]))
    | done => simpa only [Worker.advance, hk, hpc] using h

lemma Flagged.step {j : ℕ} (h : Flagged j s) {e : Event O} (he : NoRead s e) :
    Flagged j (s.step I e) := by
  cases e with
  | work o =>
    obtain ⟨hone, hplace⟩ := Worker.work_flag (I := I) (o := o)
      (fun hpc => he ⟨rfl, hpc⟩) h.place
    refine ⟨?_, ?_, hplace⟩
    · rw [Worker.step, s.work_calls_pc, hone]
      exact h.flag
    · rw [Worker.Launched, Worker.step, Worker.work_owner]
      exact h.launched
  | own o =>
    obtain ⟨hlaunched, hcalls, -, hpc⟩ := h.launched.own (I := I) o
    refine ⟨?_, hlaunched, ?_⟩
    · rw [Worker.step, hcalls, s.own_sendOne]
      exact h.flag
    · rw [Worker.step, hpc]
      exact h.place
  | notify v =>
    refine ⟨h.flag.imp_left ?_, h.launched, h.place⟩
    intro hj
    obtain ⟨c, hc, -⟩ := Option.map_eq_some_iff.mp hj
    rw [Worker.step, s.notify_calls, List.getElem?_append_left (List.getElem?_eq_some_iff.mp hc).1]
    exact hj
  | advance k =>
    obtain ⟨-, hpc, howner, -⟩ := s.advance_kept k
    refine ⟨s.advance_flag k h.flag, ?_, ?_⟩
    · rw [Worker.Launched, Worker.step, howner]
      exact h.launched
    · rw [Worker.step, hpc]
      exact h.place
  | setWorking b => exact ⟨h.flag, h.launched, h.place⟩
  | setWdSets d => exact ⟨h.flag, h.launched, h.place⟩
  | tick n => exact ⟨h.flag, h.launched, h.place⟩

/-- So a status written outside the window is read again before the worker ends. -/
lemma Flagged.not_reaches {j : ℕ} {es : List (Event O)} (hl : (threads I).Legal s es)
    (hs : s.Sound) (h : Flagged j s) : ¬ (threads I).Reaches NoRead (EndsAfter j) s es := by
  refine hl.not_reaches (X := fun s => s.Sound ∧ Flagged j s) ?_ ?_ ⟨hs, h⟩
  · rintro s e ⟨hs, h⟩ he hread
    exact ⟨(hs.step h.launched he).1, h.step hread⟩
  · rintro s e ⟨hs, h⟩ ⟨hend, hlast⟩
    obtain ⟨c, hc, hdone⟩ := hs.lastDone j hlast
    have hone : s.sendOne = true := by
      rcases h.flag with hflag | hone
      · simp [hc, hdone] at hflag
      · exact hone
    have hgoes : s.goesOn = true := by simp [Worker.goesOn, hone]
    exact Bool.noConfusion (hgoes.symm.trans hend.2.2)

/-- The worker is in its loop, from which it does not return to the statements before it. -/
structure Worker.Looping (s : Worker C) : Prop where
  sound : s.Sound
  launched : s.Launched
  entered : s.pc ≠ .setLocalWorks ∧ s.pc ≠ .clearSendOne

lemma Worker.Looping.step (h : s.Looping) {e : Event O} (he : e.hasMessage = true) :
    (s.step I e).Looping := by
  obtain ⟨hsound, hlaunched⟩ := h.sound.step (I := I) h.launched he
  refine ⟨hsound, hlaunched, ?_⟩
  rcases s.step_kept I e with ⟨o, rfl⟩ | ⟨o, rfl⟩ | ⟨hpc, -⟩
  · obtain ⟨hlocal, hclear⟩ := h.entered
    by_cases hread : s.pc = .createMsg
    · cases hm : message s.outputStatus <;> simp [Worker.step, Worker.work, hread, hm]
    · by_cases hreset : s.pc = .resetSendOne
      · simp [Worker.step, Worker.work, hreset]
      · have hflag := Worker.work_flag (I := I) (o := o) hread ⟨hlocal, hclear, hreset⟩
        exact ⟨hflag.2.1, hflag.2.2.1⟩
  · rw [Worker.step, (h.launched.own o).2.2.2]
    exact h.entered
  · rw [hpc]
    exact h.entered

lemma Worker.Looping.flagged_of_writes (h : s.Looping) {j : ℕ} {v : Statuses} {e : Event O}
    (hw : Writes j v s e) (hpc : s.pc ≠ .resetSendOne) : Flagged j (s.step I e) := by
  obtain ⟨rfl, c, hc, hset, -⟩ := hw
  have hlt := (List.getElem?_eq_some_iff.mp hc).1
  simp only [Worker.step, Worker.advance, hc, hset]
  refine ⟨.inl ?_, h.launched, h.entered.1, h.entered.2, hpc⟩
  simp [hlt]

lemma notReads_iff (v : Statuses) (s : Worker C) (e : Event O) :
    ¬ Reads v s e ↔ NoRead s e ∨ ReadsOther v s e := by
  simp only [Reads, NoRead, ReadsOther]
  tauto

/-- Before its first read the worker does not leave the loop. -/
lemma Worker.Entered.not_reaches (hs : s.Entered) {j : ℕ} {es : List (Event O)}
    (hl : (threads I).Legal s es) : ¬ (threads I).Reaches NoRead (EndsAfter j) s es := by
  refine hl.not_reaches (X := fun s => s.Launched ∧ s.pc = .createMsg) ?_ ?_
    ⟨.inl hs.running, hs.atCreate⟩
  · rintro s e ⟨hlaunched, hpc⟩ - hread
    rcases s.step_kept I e with ⟨o, rfl⟩ | ⟨o, rfl⟩ | ⟨hpc', howner, -⟩
    · exact absurd ⟨rfl, hpc⟩ hread
    · obtain ⟨hlaunched', -, -, hpc'⟩ := hlaunched.own (I := I) o
      exact ⟨hlaunched', hpc'.trans hpc⟩
    · refine ⟨?_, hpc'.trans hpc⟩
      rw [Worker.Launched]
      exact howner.symm ▸ hlaunched
  · rintro s e ⟨-, hpc⟩ ⟨hend, -⟩
    exact WorkerPc.noConfusion (hpc.symm.trans hend.2.1)

/-- Over all interleavings after the worker has entered its loop: it never ends with the status
of the last `notify` completed before `stop()` undelivered, exactly when no such status is written
between a read and the clearing of `m_sendOne` with no read to follow, and none is replaced before
the worker reads it. -/
theorem notify_delivered_iff (I : IWatchDogClient C O) (s : Worker C) (hs : s.Entered)
    (es : List (Event O)) (hl : (threads I).Legal s es) :
    (threads I).EachStep Delivers s es ↔ ∀ i v, ¬ Missed I i v s es ∧ ¬ Replaced I i v s es := by
  have hloop : s.Looping := ⟨hs.sound, .inl hs.running, by simp [hs.atCreate]⟩
  have hiff := hl.eachStep_iff_not_follows (G := fun s => s.Sound ∧ s.Launched) (X := Exposed)
    (A := fun i => Writes i.1 i.2) (N := fun i s e => ¬ Reads i.2 s e)
    (F := fun i => EndsAfter i.1) (C := Delivers)
    (fun s e h he => h.1.step h.2 he) (fun s e h _ => delivers_iff h.1 e)
    (fun i s e h _ => exposed_step h.1 h.2 e) ⟨hs.sound, .inl hs.running⟩
  rw [hiff, Prod.forall]
  apply forall_congr'
  intro i
  apply forall_congr'
  intro v
  -- without a read in between, the write falls into the window
  have hwindow : ∀ s e es, s.Looping → (threads I).Legal s (e :: es) →
      (threads I).Reaches NoRead (EndsAfter i) ((threads I).step s e) es →
        (Writes i v s e ↔ Writes i v s e ∧ s.pc = .resetSendOne) := by
    intro s e es h hl hreach
    refine ⟨fun hw => ⟨hw, ?_⟩, And.left⟩
    by_contra hpc
    exact (h.flagged_of_writes hw hpc).not_reaches hl.2 (h.step hl.1).sound hreach
  have hstart := System.reaches_iff_reachesThen (M := threads I) (F := EndsAfter i)
    (notReads_iff v) s es
  have hlater := hl.follows_iff_reachesThen (notReads_iff v) (fun _ _ h he => h.step he)
    hwindow hloop
  rw [hs.exposed_iff, hstart, hlater, or_iff_right (hs.not_reaches hl), Missed, Replaced]
  tauto

/-- A client that does nothing. -/
def silentClient : IWatchDogClient Unit Unit :=
  ⟨fun _ => 2000, fun c _ => c, fun c _ => (c, true), fun c _ => c, fun c _ => (c, true), id⟩

/-- `start()` has returned and the worker has entered its loop. -/
def justEntered : Worker Unit :=
  { Worker.initial silentClient () none true false 0 with
    outputStatus := .ok
    pc := .createMsg
    owner := .running
    calls := [⟨.ok, .done, false, false⟩]
    last := some 0 }

lemma justEntered_entered : justEntered.Entered := by
  refine ⟨rfl, rfl, by decide, ?_⟩
  intro i hi
  cases hi
  exact ⟨_, rfl, rfl⟩

theorem notify_delivered_iff_stop :
    (threads silentClient).EachStep Delivers justEntered
        [.work (), .work (), .work (), .own (), .work (), .work (), .work (), .work ()] ↔
      ∀ i v, ¬ Missed silentClient i v justEntered
          [.work (), .work (), .work (), .own (), .work (), .work (), .work (), .work ()] ∧
        ¬ Replaced silentClient i v justEntered
          [.work (), .work (), .work (), .own (), .work (), .work (), .work (), .work ()] :=
  notify_delivered_iff silentClient justEntered justEntered_entered _ (by decide)

/-- A status written between the worker's read and its reset of `m_sendOne` is never sent when
`stop()` follows. -/
theorem notify_lost : ¬ ∀ (C O : Type) (I : IWatchDogClient C O) (s : Worker C),
    s.Entered → ∀ es : List (Event O), (threads I).Legal s es →
      (threads I).EachStep Delivers s es := by
  intro h
  have hrun := h Unit Unit silentClient justEntered justEntered_entered
    [.work (), .notify .errDiskWrite, .advance 1, .advance 1, .advance 1, .work (), .work (),
      .own (), .work (), .work (), .work (), .work ()]
    (by decide)
  exact absurd hrun (by decide)

def allThreads (I : IWatchDogClient C O) : System (Worker C) (Event O) :=
  ⟨fun _ _ => True, Worker.step I⟩

/-- Once `stop()` has cleared `m_localWorks`, it stays so, and only `m_sendOne` can keep the
worker in its loop. -/
def StopKept (s : Worker C) : Prop :=
  s.owner.stopCalled = true → s.localWorks = false ∧ s.goesOn = s.sendOne

instance (s : Worker C) : Decidable (StopKept s) := inferInstanceAs (Decidable (_ → _))

/-- `stop()` clears `m_localWorks` before the new thread has executed its first statement. -/
def StopsFirst (s : Worker C) : Event O → Prop
  | .own _ => s.owner = .running ∧ s.pc = .setLocalWorks
  | _ => False

def StopSafe (s : Worker C) : Prop :=
  s.owner.stopCalled = true → s.localWorks = false ∧ s.pc ≠ .setLocalWorks

def StopExposed (s : Worker C) : Prop :=
  s.owner.stopCalled = true ∧ s.localWorks = false ∧ s.pc = .setLocalWorks

lemma stopKept_of_false (h : s.owner.stopCalled = true → s.localWorks = false) : StopKept s := by
  intro hstop
  refine ⟨h hstop, ?_⟩
  simp [Worker.goesOn, h hstop]

lemma StopSafe.own (hs : StopSafe s) {o : O} (hA : ¬ StopsFirst s (.own o)) :
    StopSafe (s.own I o) := by
  by_cases hstop : s.owner.stopCalled = true
  · obtain ⟨hlocal, -, -, hpc, -⟩ := Worker.own_kept (I := I) hstop o
    intro _
    rw [hlocal, hpc]
    exact hs hstop
  · intro hnext
    cases h : s.owner with
    | running =>
      simp only [Worker.own, h, true_and]
      exact fun hpc => hA ⟨h, hpc⟩
    | updateTime ret => cases ret <;> simp [Worker.own, h, OwnerPc.stopCalled] at hnext
    | awaitNotify i =>
      simp only [Worker.own, h] at hnext
      split_ifs at hnext
      · simp [OwnerPc.stopCalled] at hnext
      · exact absurd hnext hstop
    | join | stopMsg | stopSend | close | stopped =>
      exact absurd (by simp [h, OwnerPc.stopCalled]) hstop
    | _ => simp [Worker.own, h, OwnerPc.stopCalled] at hnext

lemma StopSafe.step (hs : StopSafe s) {e : Event O} (hA : ¬ StopsFirst s e) :
    StopSafe (s.step I e) := by
  rcases s.step_kept I e with ⟨o, rfl⟩ | ⟨o, rfl⟩ | ⟨hpc, howner, hlocal, -⟩
  · intro hnext
    rw [Worker.step, Worker.work_owner] at hnext
    obtain ⟨hlocal, hpc⟩ := hs hnext
    obtain ⟨hsame, hpc'⟩ := Worker.work_kept (I := I) hpc o
    exact ⟨hsame.trans hlocal, hpc'⟩
  · exact hs.own hA
  · rw [StopSafe, hpc, howner, hlocal]
    exact hs

lemma StopExposed.wait (hs : StopExposed s) {e : Event O} (he : e.isWork = false) :
    StopExposed (s.step I e) := by
  rcases s.step_kept I e with ⟨o, rfl⟩ | ⟨o, rfl⟩ | ⟨hpc, howner, hlocal, -⟩
  · exact Bool.noConfusion he
  · obtain ⟨hlocal, -, -, hpc, hstop⟩ := Worker.own_kept (I := I) hs.1 o
    exact ⟨hstop, hlocal.trans hs.2.1, hpc.trans hs.2.2⟩
  · rw [StopExposed, hpc, howner, hlocal]
    exact hs

/-- Over all interleavings of `start()`, its worker thread, `stop()` and the other calls: the stop
request is kept exactly when `stop()` does not come before the first statement of the thread and
that statement after it. -/
theorem stop_kept_iff (I : IWatchDogClient C O) (cli : C) (isWorking : Option Bool)
    (localWorks sendOne : Bool) (now : ℕ) (es : List (Event O)) :
    (allThreads I).Along StopKept
        (Worker.initial I cli isWorking localWorks sendOne now) es ↔
      ¬ (allThreads I).Window StopsFirst (fun e => e.isWork = false) (fun e => e.isWork = true)
        (Worker.initial I cli isWorking localWorks sendOne now) es := by
  have hl := System.legal_of_forall (M := allThreads I) (fun _ _ => trivial)
    (Worker.initial I cli isWorking localWorks sendOne now) es
  refine (hl.along_iff_not_window (G := StopSafe) (X := StopExposed) ?_ ?_ ?_ ?_ ?_ ?_ ?_).1 ?_
  · intro s hs
    exact stopKept_of_false fun hstop => (hs hstop).1
  · intro s hs
    exact stopKept_of_false fun _ => hs.2.1
  · intro s e _ _ hA
    cases e with
    | own o =>
      have hstep : (allThreads I).step s (.own o) = { s with localWorks := false, owner := .join } :=
        by simp only [allThreads, Worker.step, Worker.own, hA.1]
      rw [hstep]
      exact ⟨rfl, rfl, hA.2⟩
    | _ => exact hA.elim
  · intro s e hs _ hA
    exact hs.step hA
  · intro s e hs _ he hkept
    cases e with
    | work o =>
      have hstep : (allThreads I).step s (.work o) =
          { s with localWorks := true, pc := .clearSendOne } := by
        simp only [allThreads, Worker.step, Worker.work, hs.2.2]
      rw [hstep] at hkept
      exact Bool.noConfusion (hkept hs.1).1
    | _ => exact Bool.noConfusion he
  · intro s e hs _ _ he
    exact hs.wait he
  · intro s e _ _ hF hN
    exact absurd (Bool.eq_false_iff.mpr hF) hN
  · intro hstop
    exact Bool.noConfusion hstop

/-- `stop()` overtakes the first statement of the new thread. -/
theorem stop_lost : ¬ ∀ (C O : Type) (I : IWatchDogClient C O) (cli : C)
    (isWorking : Option Bool) (localWorks sendOne : Bool) (now : ℕ)
    (es : List (Event O)), (allThreads I).Along StopKept
      (Worker.initial I cli isWorking localWorks sendOne now) es := by
  intro h
  have hrun := h Unit Unit silentClient () none false false 0
    [.own (), .own (), .own (), .own (), .own (), .advance 0, .advance 0, .advance 0, .own (),
      .own (), .own (), .work ()]
  exact absurd hrun (by decide)

end ToolkitCpp.WatchDog
