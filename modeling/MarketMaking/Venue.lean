import MarketMaking.Exchange
import MarketMaking.Timestamp

/-! What a market maker acts on: an exchange that answers requests, and time that passes between
them. Anything that takes time may be cut off; what was done before stays done. -/

namespace MarketMaking

-- A process answers `none` when it is cut off.
abbrev Process (σ : Type) := OptionT (StateM σ)

def Process.from (p : Process σ α) (s : σ) : Option α × σ := p.run.run s

structure Venue (σ : Type) where
  fetch : Process σ (Except RemoteError (List Order))
  submit : Batch → Process σ (Except RemoteError Receipt)
  cancel : (target : Order) → (okIfMissing : Bool) → Process σ (Except RemoteError Unit)
  pause : Duration → Process σ Unit
  now : σ → Checked Timestamp

def Exchange.venue (now : Exchange → Timestamp) : Venue Exchange where
  fetch := liftM Exchange.fetch
  submit b := liftM (Exchange.submit b)
  cancel target okIfMissing := liftM (Exchange.cancel target okIfMissing)
  pause _ := pure ()
  now x := .ok (now x)

end MarketMaking
