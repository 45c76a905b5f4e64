import ToolkitCpp.PipeListen

/-!
# What the listener delivers, over whole runs

The listener asks again for the whole object after a short read, and keeps its position
after a rejected header. Both results below say what follows for complete runs: the region
about to be filled stays inside its buffer, and the messages arrive, exactly on the runs
that take neither branch.
-/
namespace ToolkitCpp.Pipe
open GuardedRuns

def Config.InBounds : Config → Prop
  | .running st _ => st.shift + st.needReadBytes ≤ st.capacity
  | .overrun => False

instance (c : Config) : Decidable c.InBounds :=
  match c with
  | .running _ _ => inferInstanceAs (Decidable (_ ≤ _))
  | .overrun => isFalse id

/-- The read returns all that was asked for and, when it is a header, one that passes
the test. -/
def CleanRead : Config → ReadEvent → Prop
  | .running st stream, .got k => k = st.needReadBytes ∧
      (st.ptrToRead = .primeHead → (PrimaryHeader.ofBytes (stream.take headSize)).WellFormed)
  | _, _ => True

def Config.AtBoundary : Config → Prop
  | .running st _ => st.Ready ∨ ∃ n < 2 ^ 32, st.Payload n
  | .overrun => False

lemma startListen_atBoundary (stream : Bytes) : (startListen stream).AtBoundary :=
  Or.inl Listener.initial_ready

lemma Config.AtBoundary.facts {st : Listener} {stream : Bytes}
    (h : (Config.running st stream).AtBoundary) :
    st.shift = 0 ∧ st.needReadBytes = st.capacity ∧ st.needReadBytes < 2 ^ 32 := by
  rcases h with hr | ⟨n, hn, hp⟩
  · simp [Listener.capacity, hr.target, hr.need, hr.shift, headSize]
  · refine ⟨hp.shift, ?_, ?_⟩
    · simp [Listener.capacity, hp.target, hp.need, hp.size]
    · rw [hp.need]
      exact hn

lemma Config.AtBoundary.inBounds {c : Config} (h : c.AtBoundary) : c.InBounds := by
  cases c with
  | overrun => exact h
  | running st stream =>
    obtain ⟨hshift, hcap, _⟩ := h.facts
    simp only [InBounds]
    omega

lemma listenStep_got {st : Listener} {stream : Bytes} {k : ℕ} (h : st.shift + k ≤ st.capacity) :
    listenStep (.running st stream) (.got k) =
      .running (st.afterRead (stream.take k)) (stream.drop k) := by
  simp only [listenStep, if_pos h]

lemma short_stuck {st : Listener} {stream : Bytes} {k : ℕ}
    (hb : (Config.running st stream).AtBoundary) (hpos : Possible (.running st stream) (.got k))
    (hshort : k ≠ st.needReadBytes) :
    (st.afterRead (stream.take k)).Stuck ∧
      (st.afterRead (stream.take k)).incoming = st.incoming ∧
      listenStep (.running st stream) (.got k) =
        .running (st.afterRead (stream.take k)) (stream.drop k) := by
  obtain ⟨hk, hneed, hav, hint⟩ := possible_got.mp hpos
  obtain ⟨hshift, hcap, hbound⟩ := hb.facts
  have hlen : (stream.take k).length = k := by simp [hav]
  have hne := short_ne (k := k) (n := st.needReadBytes) (by omega) hint hbound
  have hread := st.afterRead_short (stream.take k) (by rwa [hlen])
  refine ⟨?_, by simp [hread], listenStep_got (by omega)⟩
  rw [hread]
  refine ⟨?_, ?_, ?_⟩
  · simp only [hlen]
    omega
  · simpa [Listener.capacity] using hcap
  · simpa using hbound

lemma clean_step {c : Config} {e : ReadEvent} (hb : c.AtBoundary) (hpos : Possible c e)
    (hc : CleanRead c e) : (listenStep c e).AtBoundary := by
  cases c with
  | overrun => exact absurd hb id
  | running st stream =>
    cases e with
    | failed => exact hb
    | idle => exact hb
    | got k =>
      obtain ⟨hk, _, hav, hint⟩ := possible_got.mp hpos
      obtain ⟨rfl, hw⟩ := hc
      have hlen : (stream.take st.needReadBytes).length = st.needReadBytes := by simp [hav]
      rw [listenStep_got hb.inBounds]
      rcases hb with hr | ⟨n, _, hp⟩
      · rw [hr.need] at hlen ⊢
        exact Or.inr ⟨_, UInt32.toNat_lt _, (hr.header_read _ hlen (hw hr.target)).1⟩
      · rw [hp.need] at hlen hk hint ⊢
        exact Or.inl (hp.message_read _ hlen hk hint).1

lemma dirty_step {c : Config} {e : ReadEvent} (hb : c.AtBoundary) (hpos : Possible c e)
    (hc : ¬ CleanRead c e) : ¬ (listenStep c e).InBounds := by
  cases c with
  | overrun => exact absurd hb id
  | running st stream =>
    cases e with
    | failed => exact absurd trivial hc
    | idle => exact absurd trivial hc
    | got k =>
      by_cases hfull : k = st.needReadBytes
      · have hrej : st.ptrToRead = .primeHead ∧
            ¬ (PrimaryHeader.ofBytes (stream.take headSize)).WellFormed := by
          by_contra hn
          exact hc ⟨hfull, fun ht => by_contra fun hw => hn ⟨ht, hw⟩⟩
        obtain ⟨_, _, hav, _⟩ := possible_got.mp hpos
        subst hfull
        rw [listenStep_got hb.inBounds]
        rcases hb with hr | ⟨n, _, hp⟩
        · have hlen : (stream.take headSize).length = headSize := by
            rw [hr.need] at hav
            simp [hav]
          rw [hr.need, hr.header_rejected _ hlen hrej.2]
          simp [Config.InBounds, Listener.capacity, hr.target, hr.need, headSize]
        · rw [hp.target] at hrej
          exact absurd hrej.1 (by decide)
      · obtain ⟨hs, _, hstep⟩ := short_stuck hb hpos hfull
        have hmoved := hs.moved
        have hneed := hs.need
        rw [hstep]
        simp only [Config.InBounds]
        omega

/-- The region about to be filled stays inside its target along a run exactly when every
read of the run is whole and every header read passes the test. -/
theorem listen_inBounds_iff (stream : Bytes) (es : List ReadEvent)
    (hl : listen.Legal (startListen stream) es) :
    listen.Along Config.InBounds (startListen stream) es ↔
      listen.EachStep CleanRead (startListen stream) es :=
  hl.along_iff_eachStep (fun _ => Config.AtBoundary.inBounds)
    (fun _ _ => clean_step) (fun _ _ => dirty_step) (startListen_atBoundary stream)

theorem listen_inBounds_iff_frame :
    listen.Along Config.InBounds (startListen (frame [7])) [.idle, .got 8, .got 1] ↔
      listen.EachStep CleanRead (startListen (frame [7])) [.idle, .got 8, .got 1] :=
  listen_inBounds_iff _ _ (by decide)

/-- One byte of a header read alone already puts the next read past the header. -/
theorem listen_leaves_bounds : ¬ ∀ (stream : Bytes) (es : List ReadEvent),
    listen.Legal (startListen stream) es →
      listen.Along Config.InBounds (startListen stream) es := by
  intro h
  exact absurd (h [0xE8] [.got 1] (by decide)) (by decide)

def Config.Finished : Config → Prop
  | .running _ stream => stream = []
  | .overrun => True

/-- All bytes are consumed and exactly these payloads went to `addToIncoming`, in order. -/
def Config.Delivered (ms : List Bytes) : Config → Prop
  | .running st stream => stream = [] ∧ st.incoming = ms
  | .overrun => False

def readSizes (es : List ReadEvent) : List ℕ :=
  es.filterMap fun e => match e with
    | .got k => some k
    | _ => none

def wholeReads (ms : List Bytes) : List ℕ := ms.flatMap fun m => [headSize, m.length]

def Sendable (ms : List Bytes) : Prop := ∀ m ∈ ms, m ≠ [] ∧ m.length < 2 ^ 32

lemma stuck_run {st : Listener} {stream : Bytes} {es : List ReadEvent} (hs : st.Stuck)
    (hl : listen.Legal (.running st stream) es) {ms : List Bytes}
    (hd : (listen.run (.running st stream) es).Delivered ms) : ms = st.incoming := by
  let I : Config → Prop
    | .running st' _ => st'.Stuck ∧ st'.incoming = st.incoming
    | .overrun => True
  have hI : I (listen.run (.running st stream) es) := by
    refine hl.invariant ?_ ⟨hs, rfl⟩
    intro c e hc hpos
    cases c with
    | overrun => exact absurd hpos id
    | running st' stream' =>
      cases e with
      | failed => exact hc
      | idle => exact hc
      | got k =>
        obtain ⟨hk, hneed, hav, hint⟩ := possible_got.mp hpos
        have hlen : (stream'.take k).length = k := by simp [hav]
        change I (listenStep (.running st' stream') (.got k))
        simp only [listenStep]
        split_ifs with hfit
        · obtain ⟨h1, h2⟩ := hc.1.short (stream'.take k) (by rwa [hlen]) (by rwa [hlen])
          exact ⟨h1, h2.trans hc.2⟩
        · trivial
  cases hc : listen.run (.running st stream) es with
  | overrun => rw [hc] at hd; exact absurd hd id
  | running st' stream' =>
    rw [hc] at hd hI
    exact hd.2.symm.trans hI.2

lemma ready_got {st : Listener} {m : Bytes} {rest : Bytes} {k : ℕ} (hr : st.Ready)
    (hm : m.length < 2 ^ 32) (hpos : Possible (.running st (frame m ++ rest)) (.got k)) :
    ∃ st' stream', listenStep (.running st (frame m ++ rest)) (.got k) = .running st' stream' ∧
      st'.incoming = st.incoming ∧
      (k = headSize ∧ st'.Payload m.length ∧ stream' = m ++ rest ∨ k ≠ headSize ∧ st'.Stuck) := by
  have hb : (Config.running st (frame m ++ rest)).AtBoundary := Or.inl hr
  by_cases hfull : k = st.needReadBytes
  · have hle : headSize ≤ (frame m).length := by simp [frame_length]
    have htake : (frame m ++ rest).take headSize = (frame m).take headSize :=
      List.take_append_of_le_length hle
    have hdrop : (frame m ++ rest).drop headSize = m ++ rest := by
      rw [List.drop_append_of_le_length hle, frame_drop]
    obtain ⟨hw, hsize⟩ := frame_header hm
    obtain ⟨hpay, hinc⟩ := hr.header_read ((frame m).take headSize)
      (by simp [frame_length]) hw
    rw [hsize] at hpay
    refine ⟨_, _, listenStep_got (hfull ▸ hb.inBounds), ?_⟩
    rw [hfull, hr.need, htake, hdrop]
    exact ⟨hinc, Or.inl ⟨rfl, hpay, rfl⟩⟩
  · obtain ⟨hs, hinc, hstep⟩ := short_stuck hb hpos hfull
    exact ⟨_, _, hstep, hinc, Or.inr ⟨hr.need ▸ hfull, hs⟩⟩

lemma payload_got {st : Listener} {m : Bytes} {rest : Bytes} {k : ℕ} (hp : st.Payload m.length)
    (hm : m.length < 2 ^ 32) (hpos : Possible (.running st (m ++ rest)) (.got k)) :
    ∃ st' stream', listenStep (.running st (m ++ rest)) (.got k) = .running st' stream' ∧
      (k = m.length ∧ st'.Ready ∧ stream' = rest ∧ st'.incoming = st.incoming ++ [m] ∨
        k ≠ m.length ∧ st'.Stuck ∧ st'.incoming = st.incoming) := by
  have hb : (Config.running st (m ++ rest)).AtBoundary := Or.inr ⟨_, hm, hp⟩
  by_cases hfull : k = st.needReadBytes
  · obtain ⟨hk, _, _, hint⟩ := possible_got.mp hpos
    have hkm : k = m.length := hfull.trans hp.need
    obtain ⟨hr, hinc⟩ := hp.message_read m rfl (hkm ▸ hk) (hkm ▸ hint)
    refine ⟨_, _, listenStep_got (hfull ▸ hb.inBounds), ?_⟩
    rw [hkm, List.take_left, List.drop_left]
    exact Or.inl ⟨rfl, hr, rfl, hinc⟩
  · obtain ⟨hs, hinc, hstep⟩ := short_stuck hb hpos hfull
    exact ⟨_, _, hstep, Or.inr ⟨hp.need ▸ hfull, hs, hinc⟩⟩

/-- Runs that start between two messages deliver everything exactly when all of their reads
are whole. -/
def ReadyDelivers (es : List ReadEvent) : Prop :=
  ∀ (st : Listener) (ms : List Bytes), st.Ready → Sendable ms →
    listen.Legal (.running st (ms.flatMap frame)) es →
    (listen.run (.running st (ms.flatMap frame)) es).Finished →
    ((listen.run (.running st (ms.flatMap frame)) es).Delivered (st.incoming ++ ms) ↔
      readSizes es = wholeReads ms)

/-- The same for runs that start between a header and its message. -/
def PayloadDelivers (es : List ReadEvent) : Prop :=
  ∀ (st : Listener) (m : Bytes) (ms : List Bytes), st.Payload m.length →
    Sendable (m :: ms) →
    listen.Legal (.running st (m ++ ms.flatMap frame)) es →
    (listen.run (.running st (m ++ ms.flatMap frame)) es).Finished →
    ((listen.run (.running st (m ++ ms.flatMap frame)) es).Delivered
        (st.incoming ++ m :: ms) ↔
      readSizes es = m.length :: wholeReads ms)

lemma readyDelivers_nil : ReadyDelivers [] := by
  intro st ms _ _ _ hf
  have hms : ms = [] := by
    cases ms with
    | nil => rfl
    | cons m ms =>
      have hlen := congrArg List.length (show (m :: ms).flatMap frame = [] from hf)
      simp [frame_length, headSize] at hlen
  subst hms
  simp [Config.Delivered, readSizes, wholeReads]

lemma payloadDelivers_nil : PayloadDelivers [] := by
  intro st m ms _ hs _ hf
  have hm := (hs m (by simp)).1
  have hnil : m ++ ms.flatMap frame = [] := hf
  exact absurd (List.append_eq_nil_iff.mp hnil).1 hm

/-- A read between two messages has to return a whole header. -/
lemma ReadyDelivers.got {es : List ReadEvent} (ih : PayloadDelivers es) (k : ℕ) :
    ReadyDelivers (.got k :: es) := by
  intro st ms hr hs hl hf
  have hpos : Possible (.running st (ms.flatMap frame)) (.got k) := hl.1
  cases ms with
  | nil =>
    obtain ⟨hk, _, hav, _⟩ := possible_got.mp hpos
    simp only [List.flatMap_nil, List.length_nil] at hav
    omega
  | cons m ms =>
    rw [List.flatMap_cons] at hpos hf ⊢
    obtain ⟨st', stream', hstep, hinc, hcase⟩ := ready_got hr (hs m (by simp)).2 hpos
    have hl' := hl.2
    rw [List.flatMap_cons, listen_step, hstep] at hl'
    rw [System.run_cons, listen_step, hstep] at hf ⊢
    rcases hcase with ⟨rfl, hp, rfl⟩ | ⟨hne, hstuck⟩
    · rw [← hinc, ih st' m ms hp hs hl' hf]
      simp [readSizes, wholeReads]
    · constructor
      · intro hd
        have := stuck_run hstuck hl' hd
        simp [hinc] at this
      · intro hsizes
        simp [readSizes, wholeReads, hne] at hsizes

/-- A read after a header has to return the whole message. -/
lemma PayloadDelivers.got {es : List ReadEvent} (ih : ReadyDelivers es) (k : ℕ) :
    PayloadDelivers (.got k :: es) := by
  intro st m ms hp hs hl hf
  have hpos : Possible (.running st (m ++ ms.flatMap frame)) (.got k) := hl.1
  obtain ⟨st', stream', hstep, hcase⟩ := payload_got hp (hs m (by simp)).2 hpos
  have hl' := hl.2
  rw [listen_step, hstep] at hl'
  rw [System.run_cons, listen_step, hstep] at hf ⊢
  rcases hcase with ⟨rfl, hr, rfl, hinc⟩ | ⟨hne, hstuck, hinc⟩
  · have hms : Sendable ms := fun x hx => hs x (by simp [hx])
    have := ih st' ms hr hms hl' hf
    rw [hinc, List.append_assoc, List.singleton_append] at this
    rw [this]
    simp [readSizes]
  · constructor
    · intro hd
      have := stuck_run hstuck hl' hd
      simp [hinc] at this
    · intro hsizes
      simp [readSizes, hne] at hsizes

lemma delivered_iff (es : List ReadEvent) : ReadyDelivers es ∧ PayloadDelivers es := by
  induction es with
  | nil => exact ⟨readyDelivers_nil, payloadDelivers_nil⟩
  | cons e es ih =>
    obtain ⟨ihReady, ihPayload⟩ := ih
    cases e with
    | failed =>
      exact ⟨fun st ms hr hs hl hf => ihReady st ms hr hs hl.2 hf,
        fun st m ms hp hs hl hf => ihPayload st m ms hp hs hl.2 hf⟩
    | idle =>
      exact ⟨fun st ms hr hs hl hf => ihReady st ms hr hs hl.2 hf,
        fun st m ms hp hs hl hf => ihPayload st m ms hp hs hl.2 hf⟩
    | got k => exact ⟨ReadyDelivers.got ihPayload k, PayloadDelivers.got ihReady k⟩

/-- For every list of messages and every complete run over their frames: `addToIncoming`
is called once per message, in order and with its payload, exactly when every read
returned the whole header or the whole payload it asked for. -/
theorem startListen_delivers_iff (ms : List Bytes) (es : List ReadEvent) (hs : Sendable ms)
    (hl : listen.Legal (startListen (ms.flatMap frame)) es)
    (hf : (listen.run (startListen (ms.flatMap frame)) es).Finished) :
    (listen.run (startListen (ms.flatMap frame)) es).Delivered ms ↔
      readSizes es = wholeReads ms :=
  (delivered_iff es).1 Listener.initial ms Listener.initial_ready hs hl hf

theorem startListen_delivers_iff_pair :
    (listen.run (startListen ([[1, 2], [3]].flatMap frame))
        [.got 8, .idle, .got 2, .got 8, .got 1]).Delivered [[1, 2], [3]] ↔
      readSizes [.got 8, .idle, .got 2, .got 8, .got 1] = wholeReads [[1, 2], [3]] :=
  startListen_delivers_iff [[1, 2], [3]] _ (by unfold Sendable; decide) (by decide)
    (show _ = _ by decide)

/-- A two-byte payload read one byte at a time is never delivered. -/
theorem startListen_loses_message : ¬ ∀ (ms : List Bytes) (es : List ReadEvent), Sendable ms →
    listen.Legal (startListen (ms.flatMap frame)) es →
    (listen.run (startListen (ms.flatMap frame)) es).Finished →
      (listen.run (startListen (ms.flatMap frame)) es).Delivered ms := by
  intro h
  have hd := h [[1, 2]] [.got 8, .got 1, .got 1] (by unfold Sendable; decide) (by decide)
    (show _ = _ by decide)
  exact absurd hd.2 (by decide)

end ToolkitCpp.Pipe
