import ToolkitCpp.WatchDogDelivery

/-!
# Keep-alive messages to systemd

`SystemdClient` under the watchdog worker. A message that has been sent is cleared, and an
iteration of the worker that finds a status without a message builds none; `sendMsg` then
returns before it has notified systemd of anything.
-/
namespace ToolkitCpp.WatchDog
open GuardedRuns

/-- `notified` records the calls of `sd_notify` with their results. -/
structure SystemdClient where
  messageStatus : Str := txt "none"
  delaySendMessageMs : ℕ := 2000
  pid : ℕ := 1
  notified : List (Str × ℤ) := []
  deriving DecidableEq, Repr

/-- The results of `sd_watchdog_enabled`, with the timer value that it stores, and of the
calls of `sd_notify`. -/
structure SystemdAnswer where
  enabled : ℤ := 1
  timerUsec : ℕ := 10000000
  ready : ℤ := 1
  watchdog : ℤ := 1
  status : ℤ := 1
  deriving DecidableEq, Repr

def keepAlive : Str := txt "WATCHDOG=1"

def SystemdClient.openClient (c : SystemdClient) (o : SystemdAnswer) : SystemdClient × Bool :=
  if o.enabled > 0 then
    let ready := txt "READY=1\nSTATUS=Start processing...\nMAINPID=" ++ toString c.pid
    ({ c with
        delaySendMessageMs :=
          if c.delaySendMessageMs > o.timerUsec / 1000 / 2 then o.timerUsec / 1000 / 2
          else c.delaySendMessageMs
        notified := c.notified ++ [(ready, o.ready), (keepAlive, o.watchdog)] }, true)
  else (c, false)

def SystemdClient.createMsg (c : SystemdClient) (msg : Str) : SystemdClient :=
  { c with messageStatus := msg }

def SystemdClient.sendMsg (c : SystemdClient) (o : SystemdAnswer) : SystemdClient × Bool :=
  if c.messageStatus = [] then (c, false)
  else
    let st := txt "STATUS=" ++ c.messageStatus ++ txt "\n"
    ({ c with
        messageStatus := if o.status < 0 then c.messageStatus else []
        notified := c.notified ++ [(keepAlive, o.watchdog), (st, o.status)] },
      decide (o.status > 0))

def systemd : IWatchDogClient SystemdClient SystemdAnswer where
  delaySendMessageMs := SystemdClient.delaySendMessageMs
  setWdSets c delay := { c with delaySendMessageMs := delay }
  openClient := SystemdClient.openClient
  createMsg := SystemdClient.createMsg
  sendMsg := SystemdClient.sendMsg
  close := id

/-- The last call of `sd_notify` has failed. -/
def SystemdClient.refused (c : SystemdClient) : Bool := c.notified.getLast?.any fun n => n.2 < 0

/-- The worker calls `sendMsg`. -/
def Sends (s : Worker SystemdClient) (e : Event SystemdAnswer) : Prop :=
  e.isWork = true ∧ s.pc = .sendMsg

/-- A call of `sendMsg` by the worker sends `WATCHDOG=1`. -/
def KeepsAlive (s : Worker SystemdClient) (e : Event SystemdAnswer) : Prop :=
  Sends s e →
    keepAlive ∈ ((s.step systemd e).cli.notified.drop s.cli.notified.length).map Prod.fst

instance (s : Worker SystemdClient) (e : Event SystemdAnswer) : Decidable (Sends s e) :=
  inferInstanceAs (Decidable (_ ∧ _))

instance (s : Worker SystemdClient) (e : Event SystemdAnswer) : Decidable (KeepsAlive s e) :=
  inferInstanceAs (Decidable (_ → _))

/-- The worker finds a status without a message although the last call of `sd_notify` has not
failed, so that no older message is left either. -/
def SkipsMessage (s : Worker SystemdClient) (e : Event SystemdAnswer) : Prop :=
  e.isWork = true ∧ s.pc = .createMsg ∧ message s.outputStatus = none ∧ s.cli.refused = false

/-- The worker is on its way to `sendMsg` without a message. -/
def Speechless (s : Worker SystemdClient) : Prop := ¬ s.Settled ∧ s.cli.messageStatus = []

/-- A message that was sent is cleared, and one that was refused is kept until the worker builds
the next one. -/
def Worker.Fed (s : Worker SystemdClient) : Prop :=
  (s.cli.messageStatus = [] → s.cli.refused = false) ∧
    (s.Settled → s.cli.refused = false → s.cli.messageStatus = [])

/-- While the worker's thread runs the owner leaves the client alone. -/
def Worker.Kept (s : Worker SystemdClient) : Prop :=
  match s.owner with
  | .startSend => s.pc = .notLaunched ∧ s.cli.messageStatus ≠ []
  | .notifyOK => s.pc = .notLaunched ∧ s.Fed
  | .awaitNotify _ => s.pc = .notLaunched ∧ s.Fed
  | .launch => s.pc = .notLaunched ∧ s.Fed
  | .running => s.Fed
  | .join => s.Fed
  | .stopMsg => s.pc = .ended
  | .stopSend => s.pc = .ended
  | .close => s.pc = .ended
  | .stopped => s.pc = .ended
  | _ => s.pc = .notLaunched

lemma message_ne_nil {v : Statuses} {text : Str} (h : message v = some text) : text ≠ [] := by
  rintro rfl
  cases v <;> simp [message, txt] at h

/-- What a call of `sendMsg` with a message leaves. -/
lemma SystemdClient.sendMsg_spec {c : SystemdClient} (h : c.messageStatus ≠ [])
    (o : SystemdAnswer) :
    ((c.sendMsg o).1.messageStatus = [] ↔ (c.sendMsg o).1.refused = false) ∧
      (c.sendMsg o).1.notified =
        c.notified ++ [(keepAlive, o.watchdog),
          (txt "STATUS=" ++ c.messageStatus ++ txt "\n", o.status)] := by
  by_cases ho : o.status < 0 <;> simp [SystemdClient.sendMsg, SystemdClient.refused, h, ho]

lemma SystemdClient.sendMsg_nil {c : SystemdClient} (h : c.messageStatus = [])
    (o : SystemdAnswer) : (c.sendMsg o).1 = c := by
  simp [SystemdClient.sendMsg, h]

variable {s t : Worker SystemdClient}

lemma Worker.Fed.same (hs : s.Fed) (hcli : t.cli = s.cli) (hsettled : t.Settled → s.Settled) :
    t.Fed := by
  rw [Worker.Fed, hcli]
  exact ⟨hs.1, fun h => hs.2 (hsettled h)⟩

lemma Worker.Fed.sendMsg (hs : s.Fed) {o : SystemdAnswer} (hcli : t.cli = (s.cli.sendMsg o).1) :
    t.Fed := by
  rw [Worker.Fed, hcli]
  by_cases h : s.cli.messageStatus = []
  · rw [SystemdClient.sendMsg_nil h]
    exact ⟨hs.1, fun _ _ => h⟩
  · have hiff := (SystemdClient.sendMsg_spec h o).1
    exact ⟨hiff.mp, fun _ => hiff.mpr⟩

lemma Worker.Fed.work (hs : s.Fed) (o : SystemdAnswer) : (s.work systemd o).Fed := by
  cases hpc : s.pc with
  | createMsg =>
    cases hm : message s.outputStatus with
    | none =>
      refine hs.same ?_ ?_
      · simp only [Worker.work, hpc, hm]
      · simp [Worker.work, hpc, hm, Worker.Settled]
    | some text =>
      have hne := message_ne_nil hm
      simp [Worker.work, hpc, hm, Worker.Fed, Worker.Settled, systemd, SystemdClient.createMsg, hne]
  | sendMsg => exact hs.sendMsg (o := o) (by simp only [Worker.work, hpc, systemd])
  | _ =>
    refine hs.same ?_ ?_
    · simp only [Worker.work, hpc]
    · simp [Worker.work, hpc, Worker.Settled]

lemma Worker.Kept.fed (hs : s.Kept) (hnot : s.pc ≠ .notLaunched) (hend : s.pc ≠ .ended) :
    s.Fed := by
  cases h : s.owner <;> simp_all [Worker.Kept]

/-- Nothing that a thread outside the worker and its owner does is noticed here. -/
lemma Worker.Kept.same (hs : s.Kept) (howner : t.owner = s.owner) (hpc : t.pc = s.pc)
    (hmsg : t.cli.messageStatus = s.cli.messageStatus)
    (hnotified : t.cli.notified = s.cli.notified) : t.Kept := by
  have hfed : t.Fed ↔ s.Fed := by
    simp only [Worker.Fed, Worker.Settled, SystemdClient.refused, hpc, hmsg, hnotified]
  simp only [Worker.Kept, howner, hpc, hmsg, hfed] at hs ⊢
  exact hs

lemma Worker.work_idle (h : s.pc = .notLaunched ∨ s.pc = .ended) (o : SystemdAnswer) :
    s.work systemd o = s := by
  rcases h with h | h <;> simp only [Worker.work, h]

lemma Worker.Kept.work (hs : s.Kept) (o : SystemdAnswer) : (s.work systemd o).Kept := by
  by_cases hidle : s.pc = .notLaunched ∨ s.pc = .ended
  · rw [Worker.work_idle hidle]
    exact hs
  · rw [not_or] at hidle
    have hfed := (hs.fed hidle.1 hidle.2).work o
    have howner := s.work_owner (I := systemd) o
    cases h : s.owner <;> rw [h] at howner <;> simp_all [Worker.Kept]

lemma Worker.Kept.notLaunched (hs : s.Kept)
    (h : s.owner = .notifyOK ∨ (∃ i, s.owner = .awaitNotify i) ∨ s.owner = .launch) :
    s.pc = .notLaunched ∧ s.Fed := by
  rcases h with h | ⟨i, h⟩ | h <;> simpa only [Worker.Kept, h] using hs

lemma Worker.Kept.own (hs : s.Kept) (o : SystemdAnswer) : (s.own systemd o).Kept := by
  cases h : s.owner with
  | updateTime ret => cases ret <;> simp_all [Worker.Kept, Worker.own]
  | startMsg => simp_all [Worker.Kept, Worker.own, systemd, SystemdClient.createMsg, txt]
  | startSend =>
    obtain ⟨hpc, hne⟩ : s.pc = .notLaunched ∧ s.cli.messageStatus ≠ [] := by
      simpa only [Worker.Kept, h] using hs
    have hiff := (SystemdClient.sendMsg_spec hne o).1
    simp only [Worker.Kept, Worker.own, h]
    exact ⟨hpc, hiff.mp, fun _ => hiff.mpr⟩
  | notifyOK =>
    obtain ⟨hpc, hfed⟩ := hs.notLaunched (.inl h)
    simp only [Worker.Kept, Worker.own, h]
    exact ⟨hpc, hfed.same rfl fun hset => hset⟩
  | awaitNotify i =>
    obtain ⟨hpc, hfed⟩ := hs.notLaunched (.inr (.inl ⟨i, h⟩))
    simp only [Worker.own, h]
    split_ifs
    · simp only [Worker.Kept]
      exact ⟨hpc, hfed.same rfl fun hset => hset⟩
    · exact hs
  | launch =>
    obtain ⟨hpc, hfed⟩ := hs.notLaunched (.inr (.inr h))
    simp only [Worker.Kept, Worker.own, h]
    exact hfed.same rfl fun _ => by simp [Worker.Settled, hpc]
  | running =>
    simp only [Worker.Kept, h] at hs
    simp only [Worker.Kept, Worker.own, h]
    exact hs.same rfl fun hset => hset
  | join =>
    simp only [Worker.own, h]
    split_ifs with hend
    · simpa only [Worker.Kept] using hend
    · exact hs
  | _ => simp_all [Worker.Kept, Worker.own]

/-- The settings are no concern of the messages. -/
lemma systemd_setWdSets {c c' : SystemdClient} (h : c' = c ∨ ∃ delay, c' = systemd.setWdSets c delay) :
    c'.messageStatus = c.messageStatus ∧ c'.notified = c.notified := by
  rcases h with rfl | ⟨delay, rfl⟩
  · exact ⟨rfl, rfl⟩
  · exact ⟨rfl, rfl⟩

lemma Worker.Kept.step (hs : s.Kept) (e : Event SystemdAnswer) : (s.step systemd e).Kept := by
  rcases s.step_kept systemd e with ⟨o, rfl⟩ | ⟨o, rfl⟩ | ⟨hpc, howner, -, hcli⟩
  · exact hs.work o
  · exact hs.own o
  · obtain ⟨hmsg, hnotified⟩ := systemd_setWdSets hcli
    exact hs.same howner hpc hmsg hnotified

lemma speechless_same (hpc : t.pc = s.pc) (hmsg : t.cli.messageStatus = s.cli.messageStatus) :
    Speechless t ↔ Speechless s := by
  rw [Speechless, Speechless, Worker.Settled, Worker.Settled, hpc, hmsg]

lemma speechless_own (hs : s.Kept) (o : SystemdAnswer) :
    Speechless (s.own systemd o) ↔ Speechless s := by
  cases h : s.owner with
  | awaitNotify i =>
    simp only [Worker.own, h]
    split_ifs <;> exact Iff.rfl
  | join =>
    simp only [Worker.own, h]
    split_ifs <;> exact Iff.rfl
  | notifyOK => exact speechless_same (by simp [Worker.own, h]) (by simp [Worker.own, h])
  | running => exact speechless_same (by simp [Worker.own, h]) (by simp [Worker.own, h])
  | _ => simp_all [Worker.Kept, Worker.own, Speechless, Worker.Settled]

/-- Only from the `switch` does the worker come on its way to `sendMsg`. -/
lemma Worker.work_settled (hs : s.Settled) (hpc : s.pc ≠ .createMsg) (o : SystemdAnswer) :
    (s.work systemd o).Settled := by
  cases h : s.pc with
  | createMsg => exact absurd h hpc
  | resetSendOne => exact absurd h hs.1
  | sendMsg => exact absurd h hs.2
  | loopTest | testOff | testElapsed =>
    simp only [Worker.work, h]
    split_ifs <;> simp [Worker.Settled]
  | _ => simp [Worker.work, h, Worker.Settled]

lemma speechless_createMsg (hs : s.Kept) (hpc : s.pc = .createMsg) (o : SystemdAnswer) :
    Speechless (s.work systemd o) ↔ SkipsMessage s (.work o) := by
  have hfed := hs.fed (by simp [hpc]) (by simp [hpc])
  cases hm : message s.outputStatus with
  | none =>
    have hiff : s.cli.messageStatus = [] ↔ s.cli.refused = false :=
      ⟨hfed.1, hfed.2 (by simp [Worker.Settled, hpc])⟩
    simp [Worker.work, hpc, hm, Speechless, Worker.Settled, SkipsMessage, Event.isWork, hiff]
  | some text =>
    have hne := message_ne_nil hm
    simp [Worker.work, hpc, hm, Speechless, Worker.Settled, SkipsMessage, systemd,
      SystemdClient.createMsg, hne]

lemma speechless_work (hs : s.Kept) (o : SystemdAnswer) :
    Speechless (s.work systemd o) ↔
      SkipsMessage s (.work o) ∨ Speechless s ∧ ¬ Sends s (.work o) := by
  cases hpc : s.pc with
  | createMsg =>
    have hnot : ¬ Speechless s := fun h => h.1 (by simp [Worker.Settled, hpc])
    rw [speechless_createMsg hs hpc]
    exact ⟨.inl, fun h => h.resolve_right fun h => hnot h.1⟩
  | resetSendOne => simp [Worker.work, hpc, Speechless, Worker.Settled, SkipsMessage, Sends]
  | sendMsg =>
    simp [Worker.work, hpc, Speechless, Worker.Settled, SkipsMessage, Sends, Event.isWork]
  | _ =>
    have hsettled : s.Settled := by simp [Worker.Settled, hpc]
    have hnext := Worker.work_settled hsettled (by simp [hpc]) o
    refine iff_of_false (fun h => h.1 hnext) ?_
    rintro (h | h)
    · simp [SkipsMessage, hpc] at h
    · exact h.1.1 hsettled

lemma speechless_step (hs : s.Kept) (e : Event SystemdAnswer) :
    Speechless (s.step systemd e) ↔ SkipsMessage s e ∨ Speechless s ∧ ¬ Sends s e := by
  cases hwork : e.isWork with
  | true =>
    cases e with
    | work o => exact speechless_work hs o
    | _ => exact Bool.noConfusion hwork
  | false =>
    have hsame : Speechless (s.step systemd e) ↔ Speechless s := by
      rcases s.step_kept systemd e with ⟨o, rfl⟩ | ⟨o, rfl⟩ | ⟨hpc, -, -, hcli⟩
      · exact Bool.noConfusion hwork
      · exact speechless_own hs o
      · exact speechless_same hpc (systemd_setWdSets hcli).1
    simp [hsame, SkipsMessage, Sends, hwork]

lemma keepsAlive_iff (s : Worker SystemdClient) (e : Event SystemdAnswer) :
    KeepsAlive s e ↔ ¬ (Speechless s ∧ Sends s e) := by
  by_cases he : Sends s e
  · obtain ⟨hwork, hpc⟩ := he
    cases e with
    | work o =>
      have hcli : (s.step systemd (.work o)).cli = (s.cli.sendMsg o).1 := by
        simp only [Worker.step, Worker.work, hpc, systemd]
      rw [KeepsAlive, hcli]
      by_cases h : s.cli.messageStatus = []
      · simp [SystemdClient.sendMsg_nil h, Speechless, Worker.Settled, Sends, Event.isWork, hpc, h]
      · simp [(SystemdClient.sendMsg_spec h o).2, Speechless, h]
    | _ => exact Bool.noConfusion hwork
  · simp [KeepsAlive, he]

/-- Over every interleaving and every outcome of `sd_notify`: each iteration sends `WATCHDOG=1`
exactly when none of them goes on to `sendMsg` after it has found a status without a message while
the last call of `sd_notify` had not failed. -/
theorem keep_alive_iff (cli : SystemdClient) (isWorking : Option Bool) (localWorks sendOne : Bool)
    (now : ℕ) (es : List (Event SystemdAnswer)) :
    (allThreads systemd).EachStep KeepsAlive
        (Worker.initial systemd cli isWorking localWorks sendOne now) es ↔
      ¬ (allThreads systemd).Follows SkipsMessage (fun s e => ¬ Sends s e) Sends
        (Worker.initial systemd cli isWorking localWorks sendOne now) es := by
  have hl := System.legal_of_forall (M := allThreads systemd) (fun _ _ => trivial)
    (Worker.initial systemd cli isWorking localWorks sendOne now) es
  have hiff := hl.eachStep_iff_not_follows (G := Worker.Kept) (C := KeepsAlive)
    (X := fun _ : Unit => Speechless) (A := fun _ => SkipsMessage) (N := fun _ s e => ¬ Sends s e)
    (F := fun _ => Sends) (fun s e hs _ => hs.step e)
    (fun s e _ _ => (keepsAlive_iff s e).trans ⟨fun h _ => h, fun h => h ()⟩)
    (fun _ s e hs _ => speechless_step hs e) rfl
  have hstart : ¬ Speechless (Worker.initial systemd cli isWorking localWorks sendOne now) := by
    simp [Speechless, Worker.Settled, Worker.initial]
  simpa [hstart] using hiff

/-- Once a message was sent, a status without a message silences the next iteration. -/
theorem keep_alive_missed : ¬ ∀ (cli : SystemdClient) (isWorking : Option Bool)
    (localWorks sendOne : Bool) (now : ℕ) (es : List (Event SystemdAnswer)),
    (allThreads systemd).EachStep KeepsAlive
      (Worker.initial systemd cli isWorking localWorks sendOne now) es := by
  intro h
  have hrun := h {} none false false 0
    [.own {}, .own {}, .own {}, .own {}, .own {}, .advance 0, .advance 0, .advance 0, .own {},
      .own {}, .work {}, .work {}, .work {}, .notify .off, .advance 1, .work {}, .work {},
      .work {}]
  exact absurd hrun (by decide)

end ToolkitCpp.WatchDog
