import MarketMaking.Duration
import MarketMaking.Order

/-! What can go wrong in a pulse, by whom it is reported: the exchange, the producer of quotes, the
tracker of orders in flight, or the clock. -/

namespace MarketMaking

inductive RemoteError where
  | transient (reason : String)
  | rejected (reason : String)
  | orderNotFound (reason : String)
  | partialFailure (reason : String)
  deriving DecidableEq

namespace RemoteError

def isTransient : RemoteError → Bool
  | .transient _ => true
  | _ => false

def message : RemoteError → String
  | .transient reason => "Transient remote failure: " ++ reason
  | .rejected reason => "Rejected by remote: " ++ reason
  | .orderNotFound reason => "Order not found: " ++ reason
  | .partialFailure reason => "Partial failure: " ++ reason

end RemoteError

inductive ProducerError where
  | missingData (reason : String)
  | invalidState (reason : String)
  deriving DecidableEq

def ProducerError.message : ProducerError → String
  | .missingData reason => "Missing model data: " ++ reason
  | .invalidState reason => "Invalid model state: " ++ reason

inductive TrackingError where
  | missingClientId
  | duplicateClientId (id : ClientId)
  deriving DecidableEq

def TrackingError.message : TrackingError → String
  | .missingClientId => "Order has no client id and cannot be tracked"
  | .duplicateClientId id => "Client id " ++ id.toText ++ " is already tracked"

inductive CycleError where
  | producer (e : ProducerError)
  | remote (e : RemoteError)
  | tracking (e : TrackingError)
  | timeout (after : Duration)
  deriving DecidableEq

namespace CycleError

def isTransient : CycleError → Bool
  | .remote e => e.isTransient
  | _ => false

def message : CycleError → String
  | .producer e => "Producer error: " ++ e.message
  | .remote e => "Remote error: " ++ e.message
  | .tracking e => "Tracking error: " ++ e.message
  | .timeout after => "Pulse timed out after " ++ after.toText

end CycleError

inductive GatewayError where
  | invalidRetryPolicy (name : String)
  | remote (e : RemoteError)
  deriving DecidableEq

def GatewayError.message : GatewayError → String
  | .invalidRetryPolicy name =>
    "Invalid retry policy: " ++ name ++ ": at least one pause is required"
  | .remote e => "Remote error: " ++ e.message

end MarketMaking
