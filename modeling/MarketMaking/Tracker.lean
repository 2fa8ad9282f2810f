import MarketMaking.Failure

/-! Orders in flight. The listing of an exchange lags behind submissions, so every order is
remembered under its client id from before it is sent until a listing shows it. One that too many
listings miss is given up: its submission failed, or it was filled before it was ever listed. -/

namespace MarketMaking

structure TrackerConfig where
  -- The most orders remembered; at least one is. The oldest gives way to a new one.
  maxTracked : UInt64 := 64
  maxUnconfirmed : UInt64 := 3
  deriving DecidableEq

structure Tracked where
  id : ClientId
  order : Order
  missed : Nat
  deriving DecidableEq

structure Tracker where
  config : TrackerConfig := {}
  entries : List Tracked := []
  deriving DecidableEq

namespace Tracker

def capacity (t : Tracker) : Nat := max t.config.maxTracked.toNat 1

def ids (t : Tracker) : List ClientId := t.entries.map (·.id)
def orders (t : Tracker) : List Order := t.entries.map (·.order)
def length (t : Tracker) : Nat := t.entries.length
def isEmpty (t : Tracker) : Bool := t.entries.isEmpty
def contains (t : Tracker) (id : ClientId) : Bool := t.entries.any (·.id == id)

def evict (t : Tracker) : List Tracked := t.entries.drop (t.length + 1 - t.capacity)

def track (t : Tracker) (o : Order) : Except TrackingError Tracker :=
  match o.clientId with
  | none => .error .missingClientId
  | some id =>
    if t.contains id then .error (.duplicateClientId id)
    else .ok { t with entries := t.evict ++ [⟨id, o, 0⟩] }

-- A listing without repeats: an order that repeats the client id of any order before it is left
-- out, and so is one that repeats the exchange id of an order kept before it.
def distinct (clientIds : List ClientId) (exchangeIds : List String) : List Order → List Order
  | [] => []
  | o :: rest =>
    match o.clientId with
    | some id =>
      if clientIds.contains id then distinct clientIds exchangeIds rest
      else byExchangeId (id :: clientIds) o rest
    | none => byExchangeId clientIds o rest
where
  byExchangeId (clientIds : List ClientId) (o : Order) (rest : List Order) : List Order :=
    match o.exchangeId with
    | some id =>
      if exchangeIds.contains id then distinct clientIds exchangeIds rest
      else o :: distinct clientIds (id :: exchangeIds) rest
    | none => o :: distinct clientIds exchangeIds rest

def lists (remote : List Order) (id : ClientId) : Bool := remote.any (·.clientId == some id)

def observe (t : Tracker) (remote : List Order) (e : Tracked) : Option Tracked :=
  if lists remote e.id then none
  else if t.config.maxUnconfirmed.toNat < e.missed + 1 then none
  else some { e with missed := e.missed + 1 }

def existing (t : Tracker) (remote : List Order) : List Order × Tracker :=
  let t := { t with entries := t.entries.filterMap (t.observe remote) }
  (distinct [] [] remote ++ t.orders, t)

def untrack (t : Tracker) (id : ClientId) : Option Order × Tracker :=
  ((t.entries.find? (·.id == id)).map (·.order),
    { t with entries := t.entries.filter (·.id != id) })

-- The first draw that no order in flight has for its id, and the draws after it. None if the draws
-- given hold no such id.
def nextId (t : Tracker) : List ClientId → Option (ClientId × List ClientId)
  | [] => none
  | id :: draws => if t.contains id then t.nextId draws else some (id, draws)

end Tracker
end MarketMaking
