import MarketMaking.Failure

/-! Bounded retries: with `n` pauses an operation is attempted at most `n` times, and the last pause
is never taken. A run looks at no error; what must not be repeated is handed to it as a success. -/

namespace MarketMaking

structure RetryPolicy where
  name : String
  first : Duration
  more : List Duration
  deriving DecidableEq

namespace RetryPolicy

def pauses (p : RetryPolicy) : List Duration := p.first :: p.more
def attempts (p : RetryPolicy) : Nat := p.pauses.length

theorem attempts_pos (p : RetryPolicy) : 0 < p.attempts := Nat.succ_pos _

def ofPauses (name : String) : List Duration → Except GatewayError RetryPolicy
  | [] => .error (.invalidRetryPolicy name)
  | pause :: more => .ok ⟨name, pause, more⟩

-- How many pauses there is no room for: at two words each they would take `2 ^ 63` bytes.
def capacity : Nat := 576460752303423488

def fixed (name : String) (attempts : Nat) (pause : Duration) :
    Checked (Except GatewayError RetryPolicy) :=
  if capacity ≤ attempts then .error .capacity
  else .ok (ofPauses name (List.replicate attempts pause))

def doubling (cap : Duration) : (attempts : Nat) → Duration → List Duration
  | 0, _ => []
  | attempts + 1, pause => pause :: doubling cap attempts (min pause.double cap)

def exponential (name : String) (attempts : Nat) (initial cap : Duration) :
    Checked (Except GatewayError RetryPolicy) :=
  if capacity ≤ attempts then .error .capacity
  else .ok (ofPauses name (doubling cap attempts (min initial cap)))

section Running
variable {m : Type → Type} [Monad m]

def attempt (pause : Duration → m Unit) (operation : m (Except ε α)) :
    Duration → List Duration → m (Except ε α)
  | _, [] => operation
  | current, next :: rest => do
    match ← operation with
    | .ok a => return .ok a
    | .error _ =>
      pause current
      attempt pause operation next rest

def run (p : RetryPolicy) (pause : Duration → m Unit) (operation : m (Except ε α)) :
    m (Except ε α) :=
  attempt pause operation p.first p.more

-- Runs a request to the exchange, repeating it only while its failures are transient. Any other
-- failure is passed through the run as a success.
def runTransient (p : RetryPolicy) (pause : Duration → m Unit)
    (request : m (Except RemoteError α)) : m (Except RemoteError α) := do
  let final ← p.run pause do
    match ← request with
    | .error e => if e.isTransient then return .error e else return .ok (.error e)
    | .ok a => return .ok (.ok a)
  return final.bind id

end Running

end RetryPolicy
end MarketMaking
