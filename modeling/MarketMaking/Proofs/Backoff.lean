import Mathlib
import MarketMaking.Retry

/-! Pauses that double up to a cap. Capping after each doubling, and saturating where a doubling
leaves the range, give the pauses of doubling without any bound with the cap applied last. -/

namespace MarketMaking
namespace Duration

theorem nanos_min (a b : Duration) : (min a b).nanos = min a.nanos b.nanos := by
  show (if a.nanos ≤ b.nanos then a else b).nanos = min a.nanos b.nanos
  split
  · rename_i below
    exact (Nat.min_eq_left below).symm
  · rename_i above
    exact (Nat.min_eq_right (Nat.le_of_not_le above)).symm

-- Where doubling saturates, the cap is in force already.
theorem nanos_min_double {pause cap : Duration} {n : Nat} (here : pause.nanos = min n cap.nanos) :
    (min pause.double cap).nanos = min (n * 2) cap.nanos := by
  have within := cap.nanos_le
  have doubled : pause.double.nanos = min (2 * pause.nanos) longest := rfl
  rw [nanos_min, doubled, here]
  omega

end Duration

namespace RetryPolicy
variable {cap pause : Duration}

def capped (initial cap attempts : Nat) : List Nat :=
  (List.range attempts).map fun i => min (initial * 2 ^ i) cap

theorem capped_succ (initial cap attempts : Nat) :
    capped initial cap (attempts + 1) = min initial cap :: capped (initial * 2) cap attempts := by
  rw [capped, List.range_succ_eq_map, List.map_cons, List.map_map, pow_zero, Nat.mul_one]
  congr 1
  refine List.map_congr_left fun i _ => ?_
  rw [Function.comp_apply, Nat.pow_succ', Nat.mul_assoc]

-- By induction on the attempts that are left, for every pause that is a number under the cap.
theorem nanos_doubling (attempts : Nat) {n : Nat} (here : pause.nanos = min n cap.nanos) :
    (doubling cap attempts pause).map (·.nanos) = capped n cap.nanos attempts := by
  induction attempts generalizing pause n with
  | zero => rfl
  | succ attempts ih =>
    rw [doubling, List.map_cons, capped_succ, here, ih (Duration.nanos_min_double here)]

theorem capped_rising (initial cap attempts : Nat) :
    (capped initial cap attempts).Pairwise (· ≤ ·) := by
  refine List.pairwise_map.mpr (List.pairwise_lt_range.imp fun {i j} earlier => ?_)
  have powers : 2 ^ i ≤ 2 ^ j := Nat.pow_le_pow_right (by omega) (Nat.le_of_lt earlier)
  exact min_le_min_right cap (Nat.mul_le_mul_left initial powers)

theorem capped_le {initial cap attempts n : Nat} (here : n ∈ capped initial cap attempts) :
    n ≤ cap := by
  obtain ⟨i, -, rfl⟩ := List.mem_map.mp here
  exact Nat.min_le_right _ _

structure Doubles (initial cap : Duration) (attempts : Nat) (pauses : List Duration) : Prop where
  closed : pauses.map (·.nanos) = capped initial.nanos cap.nanos attempts
  rising : pauses.Pairwise (· ≤ ·)
  within : ∀ d ∈ pauses, d ≤ cap

theorem doubles_of_closed {initial : Duration} {attempts : Nat} {pauses : List Duration}
    (closed : pauses.map (·.nanos) = capped initial.nanos cap.nanos attempts) :
    Doubles initial cap attempts pauses := by
  refine ⟨closed, ?_, fun d here => ?_⟩
  · have rising := capped_rising initial.nanos cap.nanos attempts
    rw [← closed, List.pairwise_map] at rising
    exact rising
  · have listed : d.nanos ∈ pauses.map (·.nanos) := List.mem_map_of_mem here
    rw [closed] at listed
    exact capped_le listed

theorem Doubles.length {initial : Duration} {attempts : Nat} {pauses : List Duration}
    (doubles : Doubles initial cap attempts pauses) : pauses.length = attempts := by
  rw [← List.length_map (·.nanos), doubles.closed, capped, List.length_map, List.length_range]

theorem exponential_closed_form (name : String) (attempts : Nat) (initial cap : Duration) :
    match exponential name attempts initial cap with
    | .error cause => cause = .capacity ∧ capacity ≤ attempts
    | .ok (.error e) => e = .invalidRetryPolicy name ∧ attempts = 0
    | .ok (.ok p) => 0 < attempts ∧ attempts < capacity ∧ p.name = name ∧ p.attempts = attempts ∧
        Doubles initial cap attempts p.pauses := by
  by_cases full : capacity ≤ attempts
  · rw [exponential, if_pos full]
    exact ⟨rfl, full⟩
  rw [exponential, if_neg full]
  cases attempts with
  | zero => exact ⟨rfl, rfl⟩
  | succ attempts =>
    have closed := nanos_doubling (attempts + 1) (Duration.nanos_min initial cap)
    have doubles := doubles_of_closed closed
    exact ⟨Nat.succ_pos _, Nat.lt_of_not_le full, rfl, doubles.length, doubles⟩

theorem pauses_without_room :
    let made := exponential "endless" 18446744073709551615 (.ofMillis 100) (.ofMillis 5000)
    made = .error .capacity ∧ ¬ ∃ p, made = .ok (.ok p) := by
  intro made
  have full : made = .error .capacity := if_pos (by decide)
  refine ⟨full, fun ⟨p, policy⟩ => ?_⟩
  cases full.symm.trans policy

end RetryPolicy
end MarketMaking
