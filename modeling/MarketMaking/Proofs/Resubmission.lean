import Mathlib
import MarketMaking.Proofs.Cycle
import MarketMaking.Proofs.Stopwatch

/-! Requests sent again. A pulse sends one batch as often as it takes, and at most the last of these
submissions is accepted (`Maker.batch_applied_once`). -/

namespace MarketMaking
open Process

namespace RetryPolicy
open Stopwatch

def settles : Except RemoteError α → Bool
  | .ok _ => true
  | .error e => !e.isTransient

theorem transient_of_unsettled {answer : Except RemoteError α}
    (unsettled : settles answer = false) :
    ∃ e, answer = .error e ∧ e.isTransient = true := by
  cases answer with
  | ok a => cases unsettled
  | error e => exact ⟨e, rfl, by simpa [settles] using unsettled⟩

structure Persists (p : RetryPolicy) (op : Timed σ (Except RemoteError α)) (s : σ)
    (answer : Except RemoteError α) (w : Stopwatch σ (Except RemoteError α)) : Prop where
  count : w.calls.length = callsUntil p.attempts fun k => settles (op.answer s k)
  call : ∀ k c, w.calls[k]? = some c → c.answer = op.answer s k
  last : ∃ c, w.calls.getLast? = some c ∧ c.answer = answer
  exhausted : ∀ e, answer = .error e → e.isTransient = true →
    w.calls.length = p.attempts ∧ ∀ c ∈ w.calls, ∃ e, c.answer = .error e ∧ e.isTransient = true

-- The layers of an answer: what is not worth another attempt counts as a success.
def layers : Except RemoteError α → Except RemoteError (Except RemoteError α)
  | .ok a => .ok (.ok a)
  | .error e => if e.isTransient then .error e else .ok (.error e)

theorem isOk_layers (answer : Except RemoteError α) : (layers answer).isOk = settles answer := by
  cases answer with
  | ok a => rfl
  | error e =>
    cases transient : e.isTransient <;>
      simp [layers, settles, transient, Except.isOk, Except.toBool]

theorem bind_layers (answer : Except RemoteError α) : (layers answer).bind id = answer := by
  cases answer with
  | ok a => rfl
  | error e => cases transient : e.isTransient <;> simp [layers, transient, Except.bind]

theorem runTransient_eq {m : Type → Type} [Monad m] [LawfulMonad m] (p : RetryPolicy)
    (pause : Duration → m Unit) (request : m (Except RemoteError α)) :
    p.runTransient pause request = (·.bind id) <$> p.run pause (layers <$> request) := by
  rw [map_eq_pure_bind]
  refine congrArg (fun operation => p.run pause operation >>= fun a => pure (a.bind id)) ?_
  rw [map_eq_pure_bind]
  refine bind_congr fun answer => ?_
  cases answer with
  | ok a => rfl
  | error e => cases transient : e.isTransient <;> simp [layers, transient]

theorem persists_of_went {p : RetryPolicy} {op : Timed σ (Except RemoteError α)} {s : σ}
    {start n : Nat} {answer : Except RemoteError α} {w : Stopwatch σ (Except RemoteError α)}
    (more : 0 < n) (count : n = callsUntil p.attempts fun k => settles (op.answer s k))
    (went : Went op p.pauses n { state := s, now := start } w)
    (answered : answer = op.answer s (n - 1)) : p.Persists op s answer w := by
  refine ⟨went.length.trans count, fun k c here => (went.call here).2 ▸ rfl,
    ⟨_, went.last more, answered.symm⟩, fun e failed transient => ?_⟩
  have unsettled : settles (op.answer s (n - 1)) = false := by
    rw [← answered, failed, settles, transient]
    rfl
  obtain ⟨all, none⟩ := @callsUntil_exhausted p.attempts (fun k => settles (op.answer s k))
    (count ▸ unsettled)
  refine ⟨went.length.trans (count.trans all), fun c here => ?_⟩
  obtain ⟨k, found⟩ := List.getElem?_of_mem here
  obtain ⟨inside, rfl⟩ := went.call found
  exact transient_of_unsettled (none k (all ▸ count ▸ inside))

theorem runTransient_persists (p : RetryPolicy) (op : Timed σ (Except RemoteError α)) (s : σ)
    (start : Nat) :
    let (answer, w) := p.runTransient pause (call op) { state := s, now := start }
    p.Persists op s answer w := by
  obtain ⟨went, answered⟩ := attempt_went op layers p.first p.more { state := s, now := start }
  simp only [isOk_layers] at went answered
  rw [runTransient_eq]
  have final := congrArg (·.bind id) answered
  simp only [bind_layers] at final
  exact persists_of_went (callsUntil_pos _ _) rfl went final

end RetryPolicy

structure Submission where
  batch : Batch
  answer : Except RemoteError Receipt

namespace Process

def beside (p : Process σ α) : Process (σ × ρ) α := OptionT.mk fun s =>
  ((p.from s.1).1, ((p.from s.1).2, s.2))

end Process

def Submission.note (sent : Submission) : Process (σ × List Submission) Unit := OptionT.mk fun s =>
  (some (), (s.1, s.2 ++ [sent]))

def Venue.recorded (v : Venue σ) : Venue (σ × List Submission) where
  fetch := v.fetch.beside
  submit b := do
    let answer ← (v.submit b).beside
    Submission.note ⟨b, answer⟩
    return answer
  cancel target okIfMissing := (v.cancel target okIfMissing).beside
  pause d := (v.pause d).beside
  now s := v.now s.1

namespace Process
variable {p : Process (σ × ρ) α} {q : Process σ α} {next : α → Process (σ × ρ) β}
  {next' : α → Process σ β}

def Erases (p : Process (σ × ρ) α) (q : Process σ α) : Prop :=
  ∀ s r, ((p.from (s, r)).1, (p.from (s, r)).2.1) = q.from s

theorem erases_beside (q : Process σ α) : (q.beside (ρ := ρ)).Erases q := fun _ _ => rfl

theorem erases_pure (a : α) : Erases (pure a : Process (σ × ρ) α) (pure a) := fun _ _ => rfl

theorem Erases.bind (first : p.Erases q) (rest : ∀ a, (next a).Erases (next' a)) :
    (p >>= next).Erases (q >>= next') := by
  intro s r
  rw [from_bind, from_bind, ← first s r]
  rcases p.from (s, r) with ⟨_ | a, s', r'⟩
  · rfl
  · exact rest a s' r'

end Process

namespace RetryPolicy
variable {pause : Duration → Process (σ × ρ) Unit} {pause' : Duration → Process σ Unit}

theorem erases_attempt {operation : Process (σ × ρ) (Except ε α)}
    {operation' : Process σ (Except ε α)} (waits : ∀ d, (pause d).Erases (pause' d))
    (once : operation.Erases operation') (current : Duration) (more : List Duration) :
    (attempt pause operation current more).Erases (attempt pause' operation' current more) := by
  induction more generalizing current with
  | nil => exact once
  | cons next rest ih =>
    refine once.bind fun answer => ?_
    cases answer with
    | ok a => exact erases_pure _
    | error e => exact (waits current).bind fun _ => ih next

theorem erases_runTransient {request : Process (σ × ρ) (Except RemoteError α)}
    {request' : Process σ (Except RemoteError α)} (p : RetryPolicy)
    (waits : ∀ d, (pause d).Erases (pause' d)) (once : request.Erases request') :
    (p.runTransient pause request).Erases (p.runTransient pause' request') := by
  refine Erases.bind (erases_attempt waits (once.bind fun answer => ?_) _ _) fun _ => erases_pure _
  cases answer with
  | ok a => exact erases_pure _
  | error e => dsimp only; split <;> exact erases_pure _

end RetryPolicy

namespace Process

theorem beside_bind (p : Process σ α) (next : α → Process σ β) :
    (p >>= next).beside (ρ := ρ) = p.beside >>= fun a => (next a).beside := by
  funext s
  change Process.from (p >>= next).beside s = Process.from (p.beside >>= fun a => (next a).beside) s
  simp only [beside, from_mk, from_bind]
  rcases p.from s.1 with ⟨_ | a, t⟩ <;> rfl

theorem ensures_beside {before : σ → Prop} {after : Option α → σ → Prop} {q : Process σ α}
    (ensured : Ensures before q after) (keeps : ρ → Prop) :
    Ensures (fun s => before s.1 ∧ keeps s.2) (q.beside (ρ := ρ))
      fun answer s => after answer s.1 ∧ keeps s.2 :=
  fun s start => ⟨ensured s.1 start.1, start.2⟩

end Process

theorem RetryPolicy.attempt_beside (pause : Duration → Process σ Unit)
    (operation : Process σ (Except ε α)) (current : Duration) (more : List Duration) :
    attempt (fun d => (pause d).beside (ρ := ρ)) operation.beside current more =
      (attempt pause operation current more).beside := by
  induction more generalizing current with
  | nil => rfl
  | cons next rest ih =>
    unfold attempt
    rw [beside_bind]
    refine bind_congr fun answer => ?_
    cases answer with
    | ok a => rfl
    | error e =>
      simp only [beside_bind]
      exact bind_congr fun _ => ih next

namespace Maker

theorem fetch_recorded (m : Maker) (v : Venue σ) : m.fetch v.recorded = (m.fetch v).beside :=
  RetryPolicy.attempt_beside v.pause v.fetch m.fetchPolicy.first m.fetchPolicy.more

theorem fetched_recorded {m : Maker} {v : Venue σ} {s : σ} {log : List Submission}
    {t : σ × List Submission} (fetched : (m.fetch v.recorded).from (s, log) = (answer, t)) :
    (m.fetch v).from s = (answer, t.1) ∧ t.2 = log := by
  rw [fetch_recorded] at fetched
  cases fetched
  exact ⟨rfl, rfl⟩

theorem submit_recorded (m : Maker) (v : Venue σ) (b : Batch) :
    (m.submit v.recorded b).Erases (m.submit v b) := by
  refine RetryPolicy.erases_runTransient m.submitPolicy (fun d => erases_beside _) fun s r => ?_
  simp only [Venue.recorded, beside, Submission.note, from_bind, from_mk, from_pure]
  rcases (v.submit b).from s with ⟨_ | answer, t⟩ <;> rfl

theorem tryPulse_recorded (m : Maker) (v : Venue σ) (quote : Except ProducerError Quote)
    (incentives : Decimal) (s : σ) (log : List Submission) :
    let tried := m.tryPulse v.recorded quote incentives (s, log)
    (tried.1, tried.2.1, tried.2.2.1) = m.tryPulse v quote incentives s := by
  rcases quote with e | ⟨desired⟩ | _
  · rfl
  · unfold tryPulse
    simp only [fetch_recorded, beside, from_mk]
    rcases (m.fetch v).from s with ⟨_ | e | listing, t⟩
    · rfl
    · rfl
    · simp only
      rcases m.prepare desired incentives listing with ⟨stop | ready, n⟩
      · rfl
      · simp only
        split
        · rfl
        · have same := n.submit_recorded v ready.batch t log
          revert same
          rcases (n.submit v.recorded ready.batch).from (t, log) with ⟨_ | e | receipt, u, log'⟩ <;>
          · intro same
            rw [← same]
  · rfl

theorem pulse_recorded (m : Maker) (v : Venue σ) (quote : Except ProducerError Quote)
    (incentives : Decimal) (s : σ) (log : List Submission) :
    let ended := m.pulse v.recorded quote incentives (s, log)
    (ended.1, ended.2.1, ended.2.2.1) = m.pulse v quote incentives s := by
  have clock : ∀ t log', v.recorded.now (t, log') = v.now t := fun _ _ => rfl
  have same := m.tryPulse_recorded v quote incentives s log
  unfold pulse
  revert same
  rcases m.tryPulse v.recorded quote incentives (s, log) with ⟨answer, n, t, log'⟩
  intro same
  rw [← same]
  rcases answer with (e | h) | _ | receipt | e
  · simp only [conclude, clock]
    cases v.now t <;> rfl
  · rfl
  · rfl
  · simp only [conclude, clock]
    cases v.now t <;> rfl
  · rfl

end Maker

def Retried (b : Batch) (log : List Submission) : Prop :=
  ∀ sent ∈ log, sent.batch = b ∧ ∃ e, sent.answer = .error e ∧ e.isTransient = true

-- Submissions of one batch of which the last was answered like this, after all others had failed
-- for a time.
def Ended (b : Batch) (answer : Except RemoteError Receipt) (log : List Submission) : Prop :=
  ∃ earlier, log = earlier ++ [⟨b, answer⟩] ∧ Retried b earlier

theorem Ended.retried (ended : Ended b (.error e) log) (transient : e.isTransient = true) :
    Retried b log := by
  obtain ⟨earlier, rfl, retried⟩ := ended
  intro sent here
  cases List.mem_append.mp here with
  | inl before => exact retried sent before
  | inr last =>
    cases List.mem_singleton.mp last
    exact ⟨rfl, e, rfl, transient⟩

theorem Retried.not_ok (retried : Retried b log) (here : sent ∈ log) (receipt : Receipt) :
    sent.answer ≠ .ok receipt := by
  obtain ⟨-, e, failed, -⟩ := retried sent here
  rw [failed]
  nofun

namespace Surroundings
open Floor
variable {w : Surroundings τ} {fade : Fade} {f : Floor τ}

theorem submit_noted (fades : w.Fades fade) (b : Batch) :
    Ensures (fun s => Drifts fade f s.1 ∧ Retried b s.2) (w.venue.recorded.submit b)
      (Ending (fun s => Drifts fade f s.1 ∧ Retried b s.2)
        (fun e s => Drifts fade f s.1 ∧ Ended b (.error e) s.2)
        fun receipt s => (∃ h, Drifts fade f h ∧ h.Applies b receipt s.1) ∧
          Ended b (.ok receipt) s.2) := by
  refine Ensures.bind (ensures_beside (submit_once fades b) (Retried b)) (fun _ cut => cut) ?_
  intro answer s reached
  cases answer <;> exact ⟨reached.1, s.2, rfl, reached.2⟩

end Surroundings

namespace Maker
open Floor
variable {w : Surroundings τ} {fade : Fade}

theorem submit_noted (m : Maker) (fades : w.Fades fade) (b : Batch) (f : Floor τ) :
    Ending (fun s => Drifts fade f s.1 ∧ Retried b s.2)
      (fun e s => Drifts fade f s.1 ∧ Ended b (.error e) s.2)
      (fun receipt s => (∃ h, Drifts fade f h ∧ h.Applies b receipt s.1) ∧
        Ended b (.ok receipt) s.2)
      ((m.submit w.venue.recorded b).from (f, [])).1
      ((m.submit w.venue.recorded b).from (f, [])).2 := by
  have ends : Ensures (fun s => Drifts fade f s.1 ∧ Retried b s.2)
      (m.submit w.venue.recorded b) _ :=
    m.submitPolicy.runTransient_ensures
      (fun e s transient failed => ⟨failed.1, failed.2.retried transient⟩)
      (fun d => ensures_beside (Surroundings.pause_drifts fades d) (Retried b))
      (Surroundings.submit_noted fades b)
  exact ends (f, []) ⟨Drifts.refl f, nofun⟩

end Maker

-- What a pulse from one floor to another has sent. An accepted batch was applied to a floor on
-- which nothing had been placed since the pulse began.
structure AtMostOnce (f : Floor τ) (log : List Submission) (f' : Floor τ) : Prop where
  same : ∃ b, ∀ sent ∈ log, sent.batch = b
  retried : ∀ sent ∈ log.dropLast, ∃ e, sent.answer = .error e ∧ e.isTransient = true
  once : log.countP (·.answer.isOk) ≤ 1
  accepted : ∀ sent ∈ log, ∀ receipt, sent.answer = .ok receipt →
    log.getLast? = some sent ∧
      ∃ g : Floor τ, g.exchange.issued = f.exchange.issued ∧ g.Applies sent.batch receipt f'
  refused : (∀ sent ∈ log, ∀ receipt, sent.answer ≠ .ok receipt) →
    f'.exchange.issued = f.exchange.issued

section Accounts
variable {f f' : Floor τ}

theorem Retried.countP (retried : Retried b log) : log.countP (·.answer.isOk) = 0 := by
  refine List.countP_eq_zero.mpr fun sent here => ?_
  obtain ⟨-, e, failed, -⟩ := retried sent here
  rw [failed]
  nofun

theorem Retried.atMostOnce (retried : Retried b log)
    (issued : f'.exchange.issued = f.exchange.issued) : AtMostOnce f log f' where
  same := ⟨b, fun sent here => (retried sent here).1⟩
  retried sent here := (retried sent (List.mem_of_mem_dropLast here)).2
  once := by rw [retried.countP]; exact Nat.zero_le _
  accepted sent here receipt answered := absurd answered (retried.not_ok here receipt)
  refused _ := issued

theorem Ended.atMostOnce (ended : Ended b answer log)
    (accepted : ∀ receipt, answer = .ok receipt →
      ∃ g : Floor τ, g.exchange.issued = f.exchange.issued ∧ g.Applies b receipt f')
    (refused : (∀ receipt, answer ≠ .ok receipt) → f'.exchange.issued = f.exchange.issued) :
    AtMostOnce f log f' := by
  obtain ⟨earlier, rfl, retried⟩ := ended
  refine ⟨⟨b, fun sent here => ?_⟩, fun sent here => ?_, ?_, fun sent here receipt answered => ?_,
    fun none => ?_⟩
  · cases List.mem_append.mp here with
    | inl before => exact (retried sent before).1
    | inr last => rw [List.mem_singleton.mp last]
  · rw [List.dropLast_concat] at here
    exact (retried sent here).2
  · rw [List.countP_append, retried.countP, Nat.zero_add]
    exact List.countP_le_length
  · cases List.mem_append.mp here with
    | inl before => exact absurd answered (retried.not_ok before receipt)
    | inr last =>
      cases List.mem_singleton.mp last
      exact ⟨List.getLast?_concat, accepted receipt answered⟩
  · exact refused (none _ (List.mem_append_right _ (List.mem_singleton.mpr rfl)))

theorem untouched_atMostOnce (issued : f'.exchange.issued = f.exchange.issued) :
    AtMostOnce f [] f' :=
  Retried.atMostOnce (b := Batch.empty) nofun issued

end Accounts

namespace Maker
open Floor

theorem fetched_noted {m : Maker} {w : Surroundings τ} {f : Floor τ}
    {t : Floor τ × List Submission}
    (fetched : (m.fetch w.venue.recorded).from (f, []) = (answer, t)) :
    t.1.exchange.issued = f.exchange.issued ∧ t.2 = [] := by
  obtain ⟨fetched, unsent⟩ := fetched_recorded fetched
  have ends := m.fetch_ends w.fades_thinning f
  rw [fetched] at ends
  refine ⟨?_, unsent⟩
  rcases answer with _ | _ | listing
  · exact ends.issued
  · exact ends.issued
  · obtain ⟨h, before, lists⟩ := ends
    exact lists.issued.trans before.issued

theorem submitted_noted {n : Maker} {w : Surroundings τ} {b : Batch}
    {t u : Floor τ × List Submission} {answer : Option (Except RemoteError Receipt)}
    (unsent : t.2 = []) (submitted : (n.submit w.venue.recorded b).from t = (answer, u)) :
    Ending (fun s => Drifts .thinning t.1 s.1 ∧ Retried b s.2)
      (fun e s => Drifts .thinning t.1 s.1 ∧ Ended b (.error e) s.2)
      (fun receipt s => (∃ h, Drifts .thinning t.1 h ∧ h.Applies b receipt s.1) ∧
        Ended b (.ok receipt) s.2) answer u := by
  obtain ⟨g, log⟩ := t
  cases unsent
  have ends := n.submit_noted w.fades_thinning b g
  rwa [submitted] at ends

theorem tryPulse_noted (m : Maker) (w : Surroundings τ) (quote : Except ProducerError Quote)
    (incentives : Decimal) (f : Floor τ) :
    let tried := m.tryPulse w.venue.recorded quote incentives (f, [])
    AtMostOnce f tried.2.2.2 tried.2.2.1 ∧
      ∀ receipt, tried.1 = .ok (.completed (some receipt)) →
        ∃ sent, tried.2.2.2.getLast? = some sent ∧ sent.answer = .ok receipt := by
  have tries := m.tryPulse_tries w.venue.recorded quote incentives (f, [])
  revert tries
  rcases m.tryPulse w.venue.recorded quote incentives (f, []) with ⟨answer, n, k, log⟩
  intro tries
  cases tries with
  | unquoted | suppressed => exact ⟨untouched_atMostOnce rfl, nofun⟩
  | unlisted fetched | unfetched fetched | unprepared fetched | settled fetched =>
    obtain ⟨issued, rfl⟩ := fetched_noted fetched
    exact ⟨untouched_atMostOnce issued, nofun⟩
  | unanswered fetched prepared submitted =>
    obtain ⟨issued, unsent⟩ := fetched_noted fetched
    obtain ⟨meanwhile, retried⟩ := submitted_noted unsent submitted
    exact ⟨retried.atMostOnce (meanwhile.issued.trans issued), nofun⟩
  | refused fetched prepared submitted =>
    obtain ⟨issued, unsent⟩ := fetched_noted fetched
    obtain ⟨meanwhile, ended⟩ := submitted_noted unsent submitted
    exact ⟨ended.atMostOnce nofun fun _ => meanwhile.issued.trans issued, nofun⟩
  | accepted fetched prepared submitted =>
    obtain ⟨issued, unsent⟩ := fetched_noted fetched
    obtain ⟨⟨g, meanwhile, applies⟩, ended⟩ := submitted_noted unsent submitted
    refine ⟨ended.atMostOnce ?_ fun none => absurd rfl (none _), ?_⟩
    · intro other same
      cases same
      exact ⟨g, meanwhile.issued.trans issued, applies⟩
    · intro other completed
      cases completed
      obtain ⟨earlier, last, -⟩ := ended
      exact ⟨_, last ▸ List.getLast?_concat, rfl⟩

theorem pulse_noted (m : Maker) (w : Surroundings τ) (quote : Except ProducerError Quote)
    (incentives : Decimal) (f : Floor τ) :
    let ended := m.pulse w.venue.recorded quote incentives (f, [])
    AtMostOnce f ended.2.2.2 ended.2.2.1 ∧
      ∀ receipt, ended.1 = .ok (.completed (some receipt)) →
        ∃ sent, ended.2.2.2.getLast? = some sent ∧ sent.answer = .ok receipt := by
  obtain ⟨once, reported⟩ := m.tryPulse_noted w quote incentives f
  obtain ⟨-, kept⟩ := m.pulse_published w.venue.recorded quote incentives (f, [])
  dsimp only
  rw [kept]
  exact ⟨once, fun receipt completed => reported receipt (pulse_completed m _ _ _ _ completed)⟩

theorem batch_applied_once :
    (∀ (σ α : Type) (p : RetryPolicy) (op : Timed σ (Except RemoteError α)) (s : σ) (start : Nat),
      let (answer, w) :=
        p.runTransient Stopwatch.pause (Stopwatch.call op) { state := s, now := start }
      p.Persists op s answer w) ∧
    ∀ (τ : Type) (w : Surroundings τ) (m : Maker) (quote : Except ProducerError Quote)
      (incentives : Decimal) (f : Floor τ),
      let ended := m.pulse w.venue.recorded quote incentives (f, [])
      (ended.1, ended.2.1, ended.2.2.1) = m.pulse w.venue quote incentives f ∧
        AtMostOnce f ended.2.2.2 ended.2.2.1 ∧
        ∀ receipt, ended.1 = .ok (.completed (some receipt)) →
          ∃ sent, ended.2.2.2.getLast? = some sent ∧ sent.answer = .ok receipt :=
  ⟨fun _ _ p op s start => p.runTransient_persists op s start,
    fun _ w m quote incentives f => ⟨m.pulse_recorded w.venue quote incentives f [],
      m.pulse_noted w quote incentives f⟩⟩

end Maker
end MarketMaking
