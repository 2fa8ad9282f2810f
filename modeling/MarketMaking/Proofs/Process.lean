import MarketMaking.Retry
import MarketMaking.Venue

/-! What a process answers and leaves behind. A retried request keeps whatever every attempt and
every pause keeps: `run_ensures` and `runTransient_ensures` lift the account of one attempt to the
account of all of them. -/

namespace MarketMaking

namespace Process

@[simp] theorem from_mk (run : σ → Option α × σ) (s : σ) :
    Process.from (OptionT.mk run) s = run s := rfl

@[simp] theorem from_pure (a : α) (s : σ) : Process.from (pure a) s = (some a, s) := rfl

theorem from_bind (p : Process σ α) (next : α → Process σ β) (s : σ) :
    Process.from (p >>= next) s = match p.from s with
      | (some a, s) => (next a).from s
      | (none, s) => (none, s) := by
  simp only [Process.from, OptionT.run_bind, Option.elimM, StateT.run_bind]
  change (match (p.run.run s) with | (a, s) => _) = _
  rcases p.run.run s with ⟨_ | a, after⟩ <;> rfl

theorem from_bind_of_some {p : Process σ α} {next : α → Process σ β}
    (answered : p.from s = (some a, after)) :
    Process.from (p >>= next) s = (next a).from after := by
  rw [from_bind, answered]

def Ensures (before : σ → Prop) (p : Process σ α) (after : Option α → σ → Prop) : Prop :=
  ∀ s, before s → after (p.from s).1 (p.from s).2

def Ending (cut : σ → Prop) (failed : ε → σ → Prop) (done : α → σ → Prop) :
    Option (Except ε α) → σ → Prop
  | none, s => cut s
  | some (.error e), s => failed e s
  | some (.ok a), s => done a s

theorem ending_const {kept : σ → Prop} {answer : Option (Except ε α)} {s : σ} :
    Ending kept (fun _ => kept) (fun _ => kept) answer s ↔ kept s := by
  rcases answer with _ | _ | _ <;> exact Iff.rfl

theorem Ensures.bind {p : Process σ α} {next : α → Process σ β} (first : Ensures before p middle)
    (cut : ∀ s, middle none s → after none s)
    (rest : ∀ a, Ensures (middle (some a)) (next a) after) : Ensures before (p >>= next) after := by
  intro s start
  have reached := first s start
  rw [from_bind]
  revert reached
  rcases p.from s with ⟨_ | a, s'⟩
  · exact cut s'
  · exact rest a s'

end Process

namespace RetryPolicy
open Process

variable {kept : σ → Prop} {failed : ε → σ → Prop} {done : α → σ → Prop}
  {pause : Duration → Process σ Unit} {operation : Process σ (Except ε α)}

-- A failed attempt has to leave the next one the state that every attempt starts from.
theorem attempt_ensures (again : ∀ e s, failed e s → kept s)
    (waits : ∀ d, Ensures kept (pause d) fun _ => kept)
    (once : Ensures kept operation (Ending kept failed done)) (current : Duration)
    (more : List Duration) :
    Ensures kept (attempt pause operation current more) (Ending kept failed done) := by
  induction more generalizing current with
  | nil => exact once
  | cons next rest ih =>
    refine Ensures.bind once (fun _ cut => cut) ?_
    intro answer
    cases answer with
    | ok a => exact fun _ reached => reached
    | error e =>
      have rests : Ensures (failed e) (pause current) fun _ => kept :=
        fun s reached => waits current s (again e s reached)
      exact Ensures.bind rests (fun _ cut => cut) fun _ => ih next

theorem run_ensures (p : RetryPolicy) (again : ∀ e s, failed e s → kept s)
    (waits : ∀ d, Ensures kept (pause d) fun _ => kept)
    (once : Ensures kept operation (Ending kept failed done)) :
    Ensures kept (p.run pause operation) (Ending kept failed done) :=
  attempt_ensures again waits once p.first p.more

theorem run_of_ok (p : RetryPolicy) (answered : operation.from s = (some (.ok a), after)) :
    (p.run pause operation).from s = (some (.ok a), after) := by
  unfold run
  cases p.more with
  | nil => exact answered
  | cons next rest =>
    unfold attempt
    rw [from_bind_of_some answered, from_pure]

private def layered (request : Process σ (Except RemoteError α)) :
    Process σ (Except RemoteError (Except RemoteError α)) := do
  match ← request with
  | .error e => if e.isTransient then return .error e else return .ok (.error e)
  | .ok a => return .ok (.ok a)

-- Only a transient failure has to leave the next attempt the state that every attempt starts from.
theorem runTransient_ensures {failed : RemoteError → σ → Prop}
    {request : Process σ (Except RemoteError α)} (p : RetryPolicy)
    (again : ∀ e s, e.isTransient = true → failed e s → kept s)
    (waits : ∀ d, Ensures kept (pause d) fun _ => kept)
    (once : Ensures kept request (Ending kept failed done)) :
    Ensures kept (p.runTransient pause request) (Ending kept failed done) := by
  have attempts : Ensures kept (p.run pause (layered request))
      (Ending kept (fun e s => e.isTransient = true ∧ failed e s)
        fun final s => Ending kept failed done (some final) s) := by
    refine run_ensures p (fun e s reached => again e s reached.1 reached.2) waits
      (Ensures.bind once (fun _ cut => cut) ?_)
    intro answer s reached
    cases answer with
    | ok a => exact reached
    | error e => cases transient : e.isTransient <;> simpa [transient, Ending] using reached
  refine Ensures.bind attempts (fun _ cut => cut) ?_
  intro final s reached
  cases final with
  | error e => exact reached.2
  | ok last => cases last <;> exact reached

theorem runTransient_keeps {request : Process σ (Except RemoteError α)} (p : RetryPolicy)
    (waits : ∀ d, Ensures kept (pause d) fun _ => kept)
    (once : Ensures kept request fun _ => kept) :
    Ensures kept (p.runTransient pause request) fun _ => kept := by
  have all : Ensures kept (p.runTransient pause request)
      (Ending kept (fun _ => kept) fun _ => kept) :=
    p.runTransient_ensures (fun _ _ _ failed => failed) waits fun s before =>
      ending_const.mpr (once s before)
  exact fun s before => ending_const.mp (all s before)

theorem runTransient_of_ok {request : Process σ (Except RemoteError α)} (p : RetryPolicy)
    (answered : request.from s = (some (.ok a), after)) :
    (p.runTransient pause request).from s = (some (.ok a), after) := by
  have first : (layered request).from s = (some (.ok (.ok a)), after) := by
    unfold layered
    rw [from_bind_of_some answered, from_pure]
  exact from_bind_of_some (run_of_ok p first)

theorem runTransient_of_lasting {request : Process σ (Except RemoteError α)} (p : RetryPolicy)
    (lasting : e.isTransient = false) (answered : request.from s = (some (.error e), after)) :
    (p.runTransient pause request).from s = (some (.error e), after) := by
  have first : (layered request).from s = (some (.ok (.error e)), after) := by
    unfold layered
    rw [from_bind_of_some answered]
    simp [lasting]
  exact from_bind_of_some (run_of_ok p first)

end RetryPolicy
end MarketMaking
