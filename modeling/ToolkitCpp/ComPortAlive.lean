import ToolkitCpp.ComPort

/-!
# What `checkAlivePort` notices

The three reasons for which a port is closed, over whole runs: incomplete reads, silence, and
errors of an earlier session. Each fails in part: a read that ends with an error resets the
counter of reads, a read that receives nothing counts as activity, and the counter of writes
outlives the session.
-/
namespace ToolkitCpp.ComPort
open GuardedRuns Clock

/-- `checkAlivePort` returns false and the port is closed. -/
def TComPortManager.Dies (p : TComPortManager) (now : ℕ) : Prop :=
  (p.checkAlivePort now).2 = false ∧ (p.checkAlivePort now).1.fd < 0

instance (p : TComPortManager) (now : ℕ) : Decidable (p.Dies now) :=
  inferInstanceAs (Decidable (_ ∧ _))

lemma TComPortManager.setPortOptions_cases (p : TComPortManager) (o : OpenAnswer) :
    p.setPortOptions o = (p, true) ∨ p.setPortOptions o = ({ p with status := .error }, false) := by
  unfold TComPortManager.setPortOptions
  split_ifs <;> simp

lemma TComPortManager.prepare_spec (p : TComPortManager) (path : Str) :
    (p.prepare path).errorCountRead = (if 0 ≤ p.fd then 0 else p.errorCountRead) ∧
      (p.prepare path).errorCountWrite = p.errorCountWrite ∧
      (p.prepare path).timeActivity = (if 0 ≤ p.fd then 0 else p.timeActivity) ∧
      (p.prepare path).maxWaitBytesSec = p.maxWaitBytesSec ∧
      (p.prepare path).maxErrorCountRead = p.maxErrorCountRead ∧
      (p.prepare path).maxErrorCountWrite = p.maxErrorCountWrite := by
  by_cases hopen : 0 ≤ p.fd
  · simp [TComPortManager.prepare, TComPortManager.closePort, hopen]
  · simp only [TComPortManager.prepare, ge_iff_le, if_neg hopen, and_self]

/-- `openPort` leaves the settings and the counter of writes alone. The counter of reads and the
time are reset where an open port is closed first. -/
lemma TComPortManager.openPort_spec (p : TComPortManager) (path : Str) (o : OpenAnswer) (now : ℕ) :
    let r := p.openPort path o now
    r.1.errorCountRead = (if 0 ≤ p.fd ∨ r.2 = true then 0 else p.errorCountRead) ∧
      r.1.errorCountWrite = p.errorCountWrite ∧
      r.1.timeActivity =
        (if r.2 = true then getChrono now else if 0 ≤ p.fd then 0 else p.timeActivity) ∧
      r.1.maxWaitBytesSec = p.maxWaitBytesSec ∧ r.1.maxErrorCountRead = p.maxErrorCountRead ∧
      r.1.maxErrorCountWrite = p.maxErrorCountWrite ∧ (r.2 = true → 0 ≤ r.1.fd) := by
  obtain ⟨hread, hwrite, htime, hwait, hmaxRead, hmaxWrite⟩ := p.prepare_spec path
  unfold TComPortManager.openPort
  generalize p.prepare path = q at *
  by_cases hpath : path = []
  · simp [hpath, hread, hwrite, htime, hwait, hmaxRead, hmaxWrite]
  cases hfd : o.fd with
  | none => simp [hpath, hread, hwrite, htime, hwait, hmaxRead, hmaxWrite]
  | some fd =>
    rcases TComPortManager.setPortOptions_cases { q with fd := fd } o with h | h
    · simp only [if_neg hpath, h]
      simp [hwrite, hwait, hmaxRead, hmaxWrite]
    · simp only [if_neg hpath, h]
      simp [hread, hwrite, htime, hwait, hmaxRead, hmaxWrite]

lemma TComPortManager.checkAlivePort_cases (p : TComPortManager) (now : ℕ) :
    p.checkAlivePort now = (p, true) ∧ 0 ≤ p.fd ∨ p.checkAlivePort now = (p, false) ∧ p.fd < 0 ∨
      p.checkAlivePort now = (p.closePort, false) ∧ 0 ≤ p.fd := by
  simp only [TComPortManager.checkAlivePort, TComPortManager.closePort]
  split_ifs <;> simp_all

lemma dies_iff {p : TComPortManager} {now : ℕ} (hopen : 0 ≤ p.fd) :
    p.Dies now ↔ p.maxWaitBytesSec > 0 ∧ getChrono now - p.timeActivity > p.maxWaitBytesSec ∨
      p.errorCountRead > p.maxErrorCountRead ∨ p.errorCountWrite > p.maxErrorCountWrite := by
  simp only [TComPortManager.Dies, TComPortManager.checkAlivePort, TComPortManager.closePort]
  split_ifs <;> simp_all

lemma dies_of_closed {p : TComPortManager} {now : ℕ} (h : p.fd < 0) : p.Dies now := by
  rcases p.checkAlivePort_cases now with ⟨-, hopen⟩ | ⟨hcheck, hclosed⟩ | ⟨-, hopen⟩
  · omega
  · rw [TComPortManager.Dies, hcheck]
    exact ⟨rfl, hclosed⟩
  · omega

lemma stays_iff {p : TComPortManager} {now : ℕ} (hopen : 0 ≤ p.fd) :
    p.checkAlivePort now = (p, true) ↔ ¬ p.Dies now := by
  rcases p.checkAlivePort_cases now with ⟨h, -⟩ | ⟨-, hclosed⟩ | ⟨h, -⟩
  · simp [TComPortManager.Dies, h]
  · omega
  · simp [TComPortManager.Dies, TComPortManager.closePort, h]

variable {s : Session}

/-- `checkAlivePort` does nothing or closes the port. -/
lemma Session.step_checkAlivePort (s : Session) :
    s.step .checkAlivePort = s ∨ s.step .checkAlivePort = s.step .closePort := by
  rcases s.port.checkAlivePort_cases s.now with ⟨h, -⟩ | ⟨h, hfd⟩ | ⟨h, hfd⟩
  · left
    simp [Session.step, TComPortManager.step, Session.observe, h]
  · left
    simp [Session.step, TComPortManager.step, Session.observe, h, not_le.mpr hfd]
  · right
    simp [Session.step, TComPortManager.step, Session.observe, h, hfd]

/-- An incomplete read adds one to the counter, a complete one resets it, and after too many
incomplete ones `checkAlivePort` closes the port. -/
def CountsReads (s : Session) (e : Event) : Prop :=
  match e with
  | .readBytes c =>
      (s.port.readBytes c s.now).1.errorCountRead =
        if c.obtained < c.numByte then s.port.errorCountRead + 1 else 0
  | .checkAlivePort => s.port.maxErrorCountRead < s.incomplete → s.port.Dies s.now
  | _ => True

instance (s : Session) : DecidablePred (CountsReads s)
  | .readBytes _ => inferInstanceAs (Decidable (_ = _))
  | .checkAlivePort => inferInstanceAs (Decidable (_ → _))
  | .openPort _ _ => isTrue trivial
  | .closePort => isTrue trivial
  | .writeBytes _ _ => isTrue trivial
  | .tick _ => isTrue trivial

/-- In an incomplete read no `poll` or `read` fails and the bytes obtained do not pass the range of
`int`, and the counter has not reached its end. -/
def EndsRegularly (s : Session) (e : Event) : Prop :=
  match e with
  | .readBytes c => c.obtained < c.numByte →
      ((∀ it ∈ c.iterations, ¬ it.Fails c.mlsecTimeout) ∧ c.obtained < 2 ^ 31) ∧
        s.incomplete < 2 ^ 31 - 1
  | _ => True

/-- The counter of reads is the number of consecutive incomplete ones. -/
def Session.ReadsCounted (s : Session) : Prop :=
  s.port.errorCountRead = s.incomplete ∧ s.incomplete < 2 ^ 31

lemma readBytes_count (hs : s.ReadsCounted) {c : ReadCall} (hc : c.Possible) :
    (s.port.readBytes c s.now).1.errorCountRead =
        (if c.obtained < c.numByte then s.port.errorCountRead + 1 else 0) ↔
      (c.obtained < c.numByte →
        ((∀ it ∈ c.iterations, ¬ it.Fails c.mlsecTimeout) ∧ c.obtained < 2 ^ 31) ∧
          s.incomplete < 2 ^ 31 - 1) := by
  obtain ⟨hcount, hlt⟩ := hs
  rw [← hc.returned_nonneg_iff]
  simp only [TComPortManager.readBytes, hcount, int32_eq]
  rcases hc.right with ⟨hread, hsmall⟩ | ⟨hneg, hge⟩
  · rw [hread, toSize_natCast (by omega)]
    by_cases hinc : c.obtained < c.numByte
    · rw [if_pos hinc, if_pos hinc]
      omega
    · rw [if_neg hinc, if_neg hinc]
      omega
  · rw [if_neg (not_lt.mpr hge)]
    by_cases hinc : c.obtained < c.numByte
    · rw [if_pos hinc]
      omega
    · rw [if_neg hinc]
      omega

lemma Session.ReadsCounted.closePort (s : Session) : (s.step .closePort).ReadsCounted :=
  ⟨rfl, Nat.two_pow_pos 31⟩

lemma Session.ReadsCounted.step (hs : s.ReadsCounted) {e : Event} (he : e.Possible)
    (hregular : EndsRegularly s e) : (s.step e).ReadsCounted := by
  cases e with
  | openPort path o =>
    obtain ⟨hcount, hlt⟩ := hs
    obtain ⟨hread, -⟩ := s.port.openPort_spec path o s.now
    simp only [Session.ReadsCounted, Session.step, TComPortManager.step, hread, Session.observe,
      Session.closed]
    split_ifs <;> simp_all
  | closePort => exact .closePort s
  | readBytes c =>
    have hcount := (readBytes_count hs he).mpr hregular
    simp only [Session.ReadsCounted, Session.step, TComPortManager.step, hcount, hs.1,
      Session.observe]
    split_ifs with hinc
    · have hmax := (hregular hinc).2
      omega
    · exact ⟨rfl, Nat.two_pow_pos 31⟩
  | writeBytes numByte n =>
    simp only [Session.ReadsCounted, Session.step, TComPortManager.step,
      TComPortManager.writeBytes, Session.observe]
    split_ifs
    · exact ⟨rfl, Nat.two_pow_pos 31⟩
    · exact hs
    · exact hs
  | checkAlivePort =>
    rcases s.step_checkAlivePort with h | h <;> rw [h]
    · exact hs
    · exact .closePort s
  | tick ns => exact hs

/-- Over every run: incomplete and complete reads are counted, and too many of them close the port,
exactly when in no incomplete read a `poll` or `read` fails or the sum of the bytes passes the range
of `int`, and none comes after `2 ^ 31 - 1` others. -/
theorem reads_counted_iff (maxWaitBytesSec maxErrorCountRead maxErrorCountWrite : ℤ) (now : ℕ)
    (es : List Event)
    (hl : sessions.Legal
      (.initial maxWaitBytesSec maxErrorCountRead maxErrorCountWrite now) es) :
    sessions.EachStep CountsReads
        (.initial maxWaitBytesSec maxErrorCountRead maxErrorCountWrite now) es ↔
      sessions.EachStep EndsRegularly
        (.initial maxWaitBytesSec maxErrorCountRead maxErrorCountWrite now) es := by
  refine hl.eachStep_iff (G := Session.ReadsCounted) ?_ ?_ ⟨rfl, Nat.two_pow_pos 31⟩
  · intro s e hs he
    cases e with
    | readBytes c => exact readBytes_count hs he
    | checkAlivePort =>
      refine iff_of_true ?_ trivial
      intro hmany
      by_cases hopen : 0 ≤ s.port.fd
      · rw [dies_iff hopen, hs.1]
        exact .inr (.inl hmany)
      · exact dies_of_closed (not_le.mp hopen)
    | _ => exact Iff.rfl
  · intro s e hs he hregular
    exact hs.step he hregular

/-- A call that asks for one byte and gets the given answer of `poll`. -/
def ReadCall.once (poll : Poll) : ReadCall := ⟨1, 100, [⟨0, poll⟩]⟩

def ttyS0 : Str := txt "/dev/ttyS0"

theorem reads_counted_iff_timeout : sessions.EachStep EndsRegularly (.initial (-1) 1 1 0)
    [.openPort ttyS0 {}, .readBytes (.once .timeout), .readBytes (.once .timeout),
      .checkAlivePort] := by
  refine (reads_counted_iff (-1) 1 1 0 _ ?_).mp ?_
  · decide
  · decide

/-- A read that fails in `poll` resets the counter. -/
theorem reads_miscounted : ¬ ∀ (maxWaitBytesSec maxErrorCountRead maxErrorCountWrite : ℤ) (now : ℕ)
    (es : List Event),
    sessions.Legal (.initial maxWaitBytesSec maxErrorCountRead maxErrorCountWrite now) es →
      sessions.EachStep CountsReads
        (.initial maxWaitBytesSec maxErrorCountRead maxErrorCountWrite now) es := by
  intro h
  have hrun := h (-1) 1 1 0 [.openPort ttyS0 {}, .readBytes (.once .error)] (by decide)
  exact absurd hrun (by decide)

/-- More than `m_MaxWaitBytesSec` seconds have passed since the given time. -/
def Session.waitedSince (s : Session) (t : ℕ) : Prop :=
  (s.now : ℤ) - t > s.port.maxWaitBytesSec * 1000000000

instance (s : Session) : DecidablePred s.waitedSince :=
  fun _ => inferInstanceAs (Decidable (_ < _))

structure Session.Silent (s : Session) : Prop where
  enabled : 0 < s.port.maxWaitBytesSec
  isOpen : 0 ≤ s.port.fd
  opened : ∀ t ∈ s.openedAt, s.waitedSince t
  received : ∀ t ∈ s.receivedAt, s.waitedSince t

instance (s : Session) : Decidable s.Silent :=
  decidable_of_iff (_ ∧ _ ∧ _ ∧ _)
    ⟨fun h => ⟨h.1, h.2.1, h.2.2.1, h.2.2.2⟩, fun h => ⟨h.enabled, h.isOpen, h.opened, h.received⟩⟩

def DetectsSilence (s : Session) (e : Event) : Prop :=
  e = .checkAlivePort → s.Silent → s.port.Dies s.now

instance (s : Session) (e : Event) : Decidable (DetectsSilence s e) :=
  inferInstanceAs (Decidable (_ → _ → _))

/-- The whole seconds since the last activity of any kind exceed the limit, or one of the counters
does. -/
def Noticed (s : Session) (e : Event) : Prop :=
  e = .checkAlivePort → s.Silent →
    getChrono s.now - s.activeAt.elim 0 getChrono > s.port.maxWaitBytesSec ∨
      s.port.errorCountRead > s.port.maxErrorCountRead ∨
      s.port.errorCountWrite > s.port.maxErrorCountWrite

/-- What the fields of the manager say about the calls so far. -/
structure Session.Tracks (s : Session) : Prop where
  activity : s.port.timeActivity = s.activeAt.elim 0 getChrono
  writes : s.port.errorCountWrite = int32 s.shortWrites

lemma Session.Tracks.initial (maxWaitBytesSec maxErrorCountRead maxErrorCountWrite : ℤ) (now : ℕ) :
    (Session.initial maxWaitBytesSec maxErrorCountRead maxErrorCountWrite now).Tracks where
  activity := rfl
  writes := (by decide : (0 : ℤ) = int32 0)

lemma Session.Tracks.closePort (hs : s.Tracks) : (s.step .closePort).Tracks where
  activity := rfl
  writes := hs.writes

lemma Session.Tracks.openPort (hs : s.Tracks) (path : Str) (o : OpenAnswer) :
    (s.step (.openPort path o)).Tracks := by
  obtain ⟨hact, hwr⟩ := hs
  obtain ⟨-, hwrite, htime, -⟩ := s.port.openPort_spec path o s.now
  constructor
  · simp only [Session.step, TComPortManager.step, htime, Session.observe, Session.closed]
    split_ifs <;> simp_all
  · simp only [Session.step, TComPortManager.step, hwrite, hwr, Session.observe, Session.closed]
    split_ifs <;> rfl

lemma Session.Tracks.writeBytes (hs : s.Tracks) {numByte : ℕ} {n : ℤ} (hnum : numByte < 2 ^ 64)
    (hn : n = -1 ∨ 0 ≤ n ∧ n ≤ numByte) : (s.step (.writeBytes numByte n)).Tracks := by
  have hwr := hs.writes
  constructor
  · rfl
  simp only [Session.step, TComPortManager.step, TComPortManager.writeBytes, Session.observe]
  rcases hn with rfl | ⟨hpos, hle⟩
  · simpa [TComPortManager.closePort] using hwr
  lift n to ℕ using hpos
  have hne : (n : ℤ) ≠ -1 := by omega
  have hcast : (n : ℤ) < numByte ↔ n < numByte := Int.ofNat_lt
  simp only [if_neg hne, hcast, toSize_natCast (by omega : n < 2 ^ 64)]
  by_cases hshort : n < numByte
  · simp only [if_pos hshort, hwr, int32_eq]
    push_cast
    omega
  · simp only [if_neg hshort]
    decide

lemma Session.Tracks.step (hs : s.Tracks) {e : Event} (he : e.Possible) : (s.step e).Tracks := by
  cases e with
  | openPort path o => exact hs.openPort path o
  | closePort => exact hs.closePort
  | readBytes c => exact ⟨rfl, hs.writes⟩
  | writeBytes numByte n => exact hs.writeBytes he.1 he.2
  | checkAlivePort =>
    rcases s.step_checkAlivePort with h | h <;> rw [h]
    · exact hs
    · exact hs.closePort
  | tick ns => exact ⟨hs.activity, hs.writes⟩

/-- Over every run: silence is detected exactly when, each time, the last call that counts as
activity is long enough ago or a counter is too high. -/
theorem silence_detected_iff (maxWaitBytesSec maxErrorCountRead maxErrorCountWrite : ℤ) (now : ℕ)
    (es : List Event)
    (hl : sessions.Legal
      (.initial maxWaitBytesSec maxErrorCountRead maxErrorCountWrite now) es) :
    sessions.EachStep DetectsSilence
        (.initial maxWaitBytesSec maxErrorCountRead maxErrorCountWrite now) es ↔
      sessions.EachStep Noticed
        (.initial maxWaitBytesSec maxErrorCountRead maxErrorCountWrite now) es := by
  refine hl.eachStep_iff (G := Session.Tracks) ?_ ?_ (.initial ..)
  · intro s e hs _
    apply forall_congr'
    intro _
    apply forall_congr'
    intro hsilent
    simp only [dies_iff hsilent.isOpen, hs.activity, hsilent.enabled, gt_iff_lt, true_and]
  · intro s e hs he _
    exact hs.step he

theorem silence_detected_iff_quiet : sessions.EachStep Noticed (.initial 3 1 1 0)
    [.openPort ttyS0 {}, .tick 4000000000, .checkAlivePort] := by
  refine (silence_detected_iff 3 1 1 0 _ ?_).mp ?_
  · decide
  · decide

/-- The calls among which silence is to be detected. -/
def Event.Listens : Event → Prop
  | .closePort => False
  | .writeBytes .. => False
  | _ => True

/-- Six seconds of silence with a limit of three, and a read that received nothing in between. -/
theorem silence_overlooked : ¬ ∀ (maxWaitBytesSec maxErrorCountRead maxErrorCountWrite : ℤ)
    (now : ℕ) (es : List Event), (∀ e ∈ es, e.Listens) →
    sessions.Legal (.initial maxWaitBytesSec maxErrorCountRead maxErrorCountWrite now) es →
      sessions.EachStep DetectsSilence
        (.initial maxWaitBytesSec maxErrorCountRead maxErrorCountWrite now) es := by
  intro h
  have hrun := h 3 1 1 0
    [.openPort ttyS0 {}, .tick 5000000000, .readBytes (.once .timeout), .tick 1000000000,
      .checkAlivePort]
    (by simp [Event.Listens]) (by decide)
  exact absurd hrun (by decide)

/-- After an `openPort` that returns true, `checkAlivePort` returns true and leaves the port
open. -/
def StartsClean (s : Session) (e : Event) : Prop :=
  match e with
  | .openPort path o =>
      (s.port.openPort path o s.now).2 = true → ∀ now,
        0 ≤ (s.port.openPort path o s.now).1.fd ∧
          (s.port.openPort path o s.now).1.checkAlivePort now =
            ((s.port.openPort path o s.now).1, true)
  | _ => True

def FewShortWrites (s : Session) (e : Event) : Prop :=
  match e with
  | .openPort path o =>
      (s.port.openPort path o s.now).2 = true → int32 s.shortWrites ≤ s.port.maxErrorCountWrite
  | _ => True

lemma Session.step_settings (s : Session) (e : Event) :
    (s.step e).port.maxWaitBytesSec = s.port.maxWaitBytesSec ∧
      (s.step e).port.maxErrorCountRead = s.port.maxErrorCountRead ∧
      (s.step e).port.maxErrorCountWrite = s.port.maxErrorCountWrite := by
  cases e with
  | openPort path o =>
    obtain ⟨-, -, -, hwait, hread, hwrite, -⟩ := s.port.openPort_spec path o s.now
    exact ⟨hwait, hread, hwrite⟩
  | writeBytes numByte n =>
    simp only [Session.step, TComPortManager.step, TComPortManager.writeBytes]
    split_ifs <;> exact ⟨rfl, rfl, rfl⟩
  | checkAlivePort => rcases s.step_checkAlivePort with h | h <;> rw [h] <;> exact ⟨rfl, rfl, rfl⟩
  | _ => exact ⟨rfl, rfl, rfl⟩

/-- The time plays no role, and a counter at zero is not too high. -/
structure Session.Lenient (s : Session) : Prop extends s.Tracks where
  noWait : s.port.maxWaitBytesSec ≤ 0
  reads : 0 ≤ s.port.maxErrorCountRead

lemma startsClean_iff (hs : s.Lenient) (e : Event) : StartsClean s e ↔ FewShortWrites s e := by
  cases e with
  | openPort path o =>
    obtain ⟨hread, hwrite, -, hwait, hmaxRead, hmaxWrite, hfd⟩ := s.port.openPort_spec path o s.now
    apply forall_congr'
    intro hok
    have hpos := hfd hok
    simp only [stays_iff hpos, dies_iff hpos, hread, hwrite, hwait, hmaxRead, hmaxWrite, hok, hpos,
      or_true, if_true, hs.writes, true_and, gt_iff_lt, not_lt.mpr hs.noWait, not_lt.mpr hs.reads,
      false_and, false_or, not_lt, forall_const]
  | _ => exact Iff.rfl

/-- Over every run: a new session starts clean exactly when the short writes before it do not
exceed the limit. -/
theorem reopened_clean_iff (maxWaitBytesSec maxErrorCountRead maxErrorCountWrite : ℤ) (now : ℕ)
    (hwait : maxWaitBytesSec ≤ 0) (hread : 0 ≤ maxErrorCountRead) (es : List Event)
    (hl : sessions.Legal
      (.initial maxWaitBytesSec maxErrorCountRead maxErrorCountWrite now) es) :
    sessions.EachStep StartsClean
        (.initial maxWaitBytesSec maxErrorCountRead maxErrorCountWrite now) es ↔
      sessions.EachStep FewShortWrites
        (.initial maxWaitBytesSec maxErrorCountRead maxErrorCountWrite now) es := by
  refine hl.eachStep_iff (G := Session.Lenient) ?_ ?_ ⟨.initial .., hwait, hread⟩
  · intro s e hs _
    exact startsClean_iff hs e
  · intro s e hs he _
    obtain ⟨hwait', hread', -⟩ := s.step_settings e
    exact ⟨hs.toTracks.step he, hwait'.trans_le hs.noWait, hs.reads.trans_eq hread'.symm⟩

theorem reopened_clean_iff_once : sessions.EachStep StartsClean (.initial (-1) 1 1 0)
    [.openPort ttyS0 {}, .writeBytes 2 1, .closePort, .openPort ttyS0 {}] := by
  refine (reopened_clean_iff (-1) 1 1 0 ?_ ?_ _ ?_).mpr
    ⟨fun _ => by decide, trivial, trivial, fun _ => by decide, trivial⟩
  · decide
  · decide
  · decide

/-- Two short writes close the port, and again the reopened one. -/
theorem reopened_dies : ¬ ∀ (maxWaitBytesSec maxErrorCountRead maxErrorCountWrite : ℤ) (now : ℕ)
    (es : List Event), maxWaitBytesSec ≤ 0 → 0 ≤ maxErrorCountRead → 0 ≤ maxErrorCountWrite →
    sessions.Legal (.initial maxWaitBytesSec maxErrorCountRead maxErrorCountWrite now) es →
      sessions.EachStep StartsClean
        (.initial maxWaitBytesSec maxErrorCountRead maxErrorCountWrite now) es := by
  intro h
  obtain ⟨-, -, -, -, hopen, -⟩ := h (-1) 1 1 0
    [.openPort ttyS0 {}, .writeBytes 2 1, .writeBytes 2 1, .checkAlivePort, .openPort ttyS0 {}]
    (by decide) (by decide) (by decide) (by decide)
  exact absurd (hopen (by decide) 0).2 (by decide)

end ToolkitCpp.ComPort
