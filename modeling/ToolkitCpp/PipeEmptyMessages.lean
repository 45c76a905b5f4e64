import ToolkitCpp.PipeDelivery

/-!
# Empty messages on the command pipe

After a header that announces no data the listener asks for zero bytes, which `timeoutRead` never
reports as read. So the messages that reach `addToIncoming`, with every read whole, are those
before the first empty one.
-/
namespace ToolkitCpp.Pipe
open GuardedRuns

/-- `sendToStream` has put the whole frame into the pipe and reports success. The result of
`write` is kept in an `int`. -/
def Sent (m : Bytes) : Prop :=
  ∃ pipe os, (sendToStream pipe m os).2 = (frame m, true) ∧ os.dataRet < 2 ^ 31

/-- The read returns all that was asked for. -/
def WholeRead : Config → ReadEvent → Prop
  | .running st _, .got k => k = st.needReadBytes
  | .running _ _, .failed => True
  | .running _ _, .idle => True
  | .overrun, _ => True

/-- What the listener asks for is not there, or is nothing. -/
def Config.Exhausted : Config → Prop
  | .running st stream => ¬ (0 < st.needReadBytes ∧ st.needReadBytes ≤ stream.length)
  | .overrun => True

/-- Exactly these payloads went to `addToIncoming`, in order. -/
def Config.Received (ms : List Bytes) : Config → Prop
  | .running st _ => st.incoming = ms
  | .overrun => False

/-- No message follows an empty one, other empty ones apart. -/
def EmptyLast (ms : List Bytes) : Prop := ms.Pairwise fun m m' => m = [] → m' = []

instance (c : Config) (e : ReadEvent) : Decidable (WholeRead c e) :=
  match c, e with
  | .running _ _, .got _ => inferInstanceAs (Decidable (_ = _))
  | .running _ _, .failed => isTrue trivial
  | .running _ _, .idle => isTrue trivial
  | .overrun, _ => isTrue trivial

instance (c : Config) : Decidable c.Exhausted :=
  match c with
  | .running _ _ => inferInstanceAs (Decidable (¬ (_ ∧ _)))
  | .overrun => isTrue trivial

instance (ms : List Bytes) (c : Config) : Decidable (c.Received ms) :=
  match c with
  | .running _ _ => inferInstanceAs (Decidable (_ = _))
  | .overrun => isFalse id

lemma Sent.length_lt {m : Bytes} (h : Sent m) : m.length < 2 ^ 31 := by
  obtain ⟨pipe, os, hsent, hint⟩ := h
  have hwritten : (sendToStream pipe m os).2.1.length ≤ headSize + os.dataRet.toNat := by
    simp only [sendToStream, accepted]
    split_ifs
    all_goals
      simp only [List.length_nil, List.length_append, List.length_take, PrimaryHeader.bytes_length]
      omega
  rw [hsent, frame_length] at hwritten
  omega

def nonEmpty (m : Bytes) : Bool := !m.isEmpty

/-- Runs of whole reads that start between two messages end with the messages before the first
empty one. -/
def ReadyListens (es : List ReadEvent) : Prop :=
  ∀ (st : Listener) (ms : List Bytes), st.Ready → (∀ m ∈ ms, m.length < 2 ^ 31) →
    listen.Legal (.running st (ms.flatMap frame)) es →
    listen.EachStep WholeRead (.running st (ms.flatMap frame)) es →
    (listen.run (.running st (ms.flatMap frame)) es).Exhausted →
    (listen.run (.running st (ms.flatMap frame)) es).Received
      (st.incoming ++ ms.takeWhile nonEmpty)

/-- The same for runs that start between a header and its message. -/
def PayloadListens (es : List ReadEvent) : Prop :=
  ∀ (st : Listener) (m : Bytes) (ms : List Bytes), st.Payload m.length →
    (∀ x ∈ m :: ms, x.length < 2 ^ 31) →
    listen.Legal (.running st (m ++ ms.flatMap frame)) es →
    listen.EachStep WholeRead (.running st (m ++ ms.flatMap frame)) es →
    (listen.run (.running st (m ++ ms.flatMap frame)) es).Exhausted →
    (listen.run (.running st (m ++ ms.flatMap frame)) es).Received
      (st.incoming ++ (m :: ms).takeWhile nonEmpty)

lemma readyListens_nil : ReadyListens [] := by
  intro st ms hr _ _ _ hend
  cases ms with
  | nil => simp [Config.Received]
  | cons m ms =>
    refine absurd ?_ hend
    rw [hr.need]
    simp only [List.flatMap_cons, List.length_append, frame_length, headSize]
    omega

lemma payloadListens_nil : PayloadListens [] := by
  intro st m ms hp _ _ _ hend
  cases m with
  | nil => simp [Config.Received, nonEmpty]
  | cons b m =>
    refine absurd ?_ hend
    rw [hp.need, List.length_append]
    simp only [List.length_cons]
    omega

/-- A whole read between two messages is a header. -/
lemma ReadyListens.got {es : List ReadEvent} (ih : PayloadListens es) (k : ℕ) :
    ReadyListens (.got k :: es) := by
  intro st ms hr hs hl hw hend
  have hpos : Possible (.running st (ms.flatMap frame)) (.got k) := hl.1
  cases ms with
  | nil =>
    obtain ⟨hk, _, hav, _⟩ := possible_got.mp hpos
    simp only [List.flatMap_nil, List.length_nil] at hav
    omega
  | cons m ms =>
    have hm : m.length < 2 ^ 31 := hs m (by simp)
    rw [List.flatMap_cons] at hl hw hpos hend ⊢
    obtain ⟨st', stream', hstep, hinc, hcase⟩ := ready_got hr (by omega) hpos
    have hwhole : k = headSize := hr.need ▸ hw.1
    have hl' := hl.2
    have hw' := hw.2
    rw [listen_step, hstep] at hl' hw'
    rw [System.run_cons, listen_step, hstep] at hend ⊢
    rcases hcase with ⟨-, hp, rfl⟩ | ⟨hne, -⟩
    · rw [← hinc]
      exact ih st' m ms hp hs hl' hw' hend
    · exact absurd hwhole hne

/-- A whole read after a header is the message, which is not empty. -/
lemma PayloadListens.got {es : List ReadEvent} (ih : ReadyListens es) (k : ℕ) :
    PayloadListens (.got k :: es) := by
  intro st m ms hp hs hl hw hend
  have hpos : Possible (.running st (m ++ ms.flatMap frame)) (.got k) := hl.1
  have hm : m.length < 2 ^ 31 := hs m (by simp)
  obtain ⟨st', stream', hstep, hcase⟩ := payload_got hp (by omega) hpos
  have hwhole : k = m.length := hp.need ▸ hw.1
  have hl' := hl.2
  have hw' := hw.2
  rw [listen_step, hstep] at hl' hw'
  rw [System.run_cons, listen_step, hstep] at hend ⊢
  rcases hcase with ⟨-, hr, rfl, hinc⟩ | ⟨hne, -⟩
  · have hrest := ih st' ms hr (fun x hx => hs x (by simp [hx])) hl' hw' hend
    have hfull : nonEmpty m = true := by
      obtain ⟨hk, -⟩ := possible_got.mp hpos
      cases m with
      | nil => exact absurd hwhole hk.ne'
      | cons b m => rfl
    rw [hinc, List.append_assoc, List.singleton_append] at hrest
    rwa [List.takeWhile_cons_of_pos hfull]
  · exact absurd hwhole hne

lemma listens (es : List ReadEvent) : ReadyListens es ∧ PayloadListens es := by
  induction es with
  | nil => exact ⟨readyListens_nil, payloadListens_nil⟩
  | cons e es ih =>
    obtain ⟨ihReady, ihPayload⟩ := ih
    cases e with
    | failed =>
      exact ⟨fun st ms hr hs hl hw hend => ihReady st ms hr hs hl.2 hw.2 hend,
        fun st m ms hp hs hl hw hend => ihPayload st m ms hp hs hl.2 hw.2 hend⟩
    | idle =>
      exact ⟨fun st ms hr hs hl hw hend => ihReady st ms hr hs hl.2 hw.2 hend,
        fun st m ms hp hs hl hw hend => ihPayload st m ms hp hs hl.2 hw.2 hend⟩
    | got k => exact ⟨ReadyListens.got ihPayload k, PayloadListens.got ihReady k⟩

/-- The messages before the first empty one are all that are not empty exactly when none comes
after it. -/
lemma takeWhile_nonEmpty_iff (ms : List Bytes) :
    ms.takeWhile nonEmpty = ms.filter nonEmpty ↔ EmptyLast ms := by
  induction ms with
  | nil => simp [EmptyLast]
  | cons m ms ih =>
    unfold EmptyLast at ih ⊢
    rw [List.pairwise_cons]
    cases m with
    | nil =>
      have hnone : ms.filter nonEmpty = [] ↔ ∀ m ∈ ms, m = [] := by
        simp [List.filter_eq_nil_iff, nonEmpty]
      have hpair : (∀ m ∈ ms, m = []) → ms.Pairwise fun m m' : Bytes => m = [] → m' = [] := by
        intro hall
        exact List.pairwise_of_forall_mem_list fun _ _ m' hm' _ => hall m' hm'
      have hhead : ¬ nonEmpty [] = true := by decide
      rw [List.takeWhile_cons_of_neg hhead, List.filter_cons_of_neg hhead, eq_comm, hnone]
      exact ⟨fun h => ⟨fun m hm _ => h m hm, hpair h⟩, fun h m hm => h.1 m hm rfl⟩
    | cons b m =>
      have hhead : nonEmpty (b :: m) = true := rfl
      rw [List.takeWhile_cons_of_pos hhead, List.filter_cons_of_pos hhead, List.cons.injEq,
        eq_self, true_and, ih]
      simp

/-- For every sequence of messages that were sent and every run of whole reads up to the point
where nothing more can be read: the messages that are not empty have all arrived, in order and
intact, exactly when none of them was sent after an empty one. -/
theorem nonEmpty_received_iff (ms : List Bytes) (es : List ReadEvent) (hs : ∀ m ∈ ms, Sent m)
    (hl : listen.Legal (startListen (ms.flatMap frame)) es)
    (hw : listen.EachStep WholeRead (startListen (ms.flatMap frame)) es)
    (hend : (listen.run (startListen (ms.flatMap frame)) es).Exhausted) :
    (listen.run (startListen (ms.flatMap frame)) es).Received (ms.filter nonEmpty) ↔
      EmptyLast ms := by
  have hreceived := (listens es).1 Listener.initial ms Listener.initial_ready
    (fun m hm => (hs m hm).length_lt) hl hw hend
  rw [← takeWhile_nonEmpty_iff]
  cases hrun : listen.run (startListen (ms.flatMap frame)) es with
  | overrun =>
    rw [startListen] at hrun
    rw [hrun] at hreceived
    exact hreceived.elim
  | running st stream =>
    rw [startListen] at hrun
    rw [hrun] at hreceived
    have hincoming : st.incoming = ms.takeWhile nonEmpty := hreceived
    simp only [Config.Received, hincoming]

lemma sent_of_length {m : Bytes} (h : m.length < 2 ^ 31) : Sent m := by
  refine ⟨{ maxSize := 2 ^ 31, isOpen := true }, ⟨0, headSize, m.length⟩, ?_, by simpa using h⟩
  rw [sendToStream_frame _ _ rfl (by simp only; omega) h]

lemma all_sent {ms : List Bytes} (h : (ms.all fun m => decide (m.length < 256)) = true) :
    ∀ m ∈ ms, Sent m := by
  intro m hm
  have hlen : m.length < 256 := of_decide_eq_true (List.all_eq_true.mp h m hm)
  exact sent_of_length (by omega)

theorem nonEmpty_received_iff_last :
    (listen.run (startListen ([[1, 2], [3], []].flatMap frame))
      [.got 8, .idle, .got 2, .got 8, .got 1, .got 8]).Received [[1, 2], [3]] :=
  (nonEmpty_received_iff [[1, 2], [3], []] [.got 8, .idle, .got 2, .got 8, .got 1, .got 8]
    (all_sent (by decide)) (by decide) (by decide) (by decide)).mpr (by unfold EmptyLast; decide)

/-- An empty message keeps the message behind it from being delivered. -/
theorem empty_message_blocks : ¬ ∀ (ms : List Bytes) (es : List ReadEvent), (∀ m ∈ ms, Sent m) →
    listen.Legal (startListen (ms.flatMap frame)) es →
    listen.EachStep WholeRead (startListen (ms.flatMap frame)) es →
    (listen.run (startListen (ms.flatMap frame)) es).Exhausted →
      (listen.run (startListen (ms.flatMap frame)) es).Received (ms.filter nonEmpty) := by
  intro h
  have hreceived := h [[], [1]] [.got 8, .idle] (all_sent (by decide)) (by decide) (by decide)
    (by decide)
  exact absurd hreceived (by decide)

end ToolkitCpp.Pipe
