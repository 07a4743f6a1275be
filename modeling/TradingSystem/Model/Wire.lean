import TradingSystem.Lib.Decimal
import TradingSystem.Lib.Effects
import TradingSystem.Model.Order

/-!
# Wire formats (`Order.cpp`, `Order_Request.hpp`, `Trade.hpp`, `MarketData.hpp`)

Orders and requests travel as comma-separated text. A decoder of an order or a request is a pure function
that may throw; the decoder of market data writes the snapshot of a client field by field.
-/

namespace TradingSystem

open Lib Stream

/-- A text of the source, which is ASCII. -/
def bytes (s : String) : Bytes := s.toList.map Char.toUInt8

def comma : UInt8 := 44

/-- `std::to_string` -/
def stdToString (x : UInt64) : Bytes := Decimal.print x.toNat

/-- `std::stoull`; an `std::out_of_range` is an `std::logic_error`. -/
def stoull (str : Bytes) : Except Exn UInt64 :=
  match Decimal.read str with
  | .ok v => .ok v
  | .error .noConversion => .error (.invalidArgument "stoull")
  | .error .outOfRange => .error (.logicError "stoull")

/-- `Price(long long)` applied to a `u_int64_t`. -/
def Price.ofUInt64 (value : UInt64) : Price := .ofInt value.toBitVec.toInt

namespace Order

def serialize (o : Order) : Bytes :=
  (if o.bidOrAsk = .bid then bytes "BUY" else bytes "SELL") ++ bytes "," ++ stdToString o.mVolume ++ bytes "," ++
    o.mName ++ bytes "," ++ stdToString o.mOrderID ++ bytes "," ++ stdToString o.mPrice.mPriceValueInCent

def deserialize (data : Bytes) : Except Exn Order :=
  match getlines comma data with
  | [part0, part1, part2, part3, part4] => do
    let side := if part0 = bytes "BUY" then .bid else .ask
    let volume ← stoull part1
    let orderId ← stoull part3
    let priceVal ← stoull part4
    return ⟨side, volume, part2, orderId, .ofUInt64 priceVal⟩
  | _ => throw (.runtimeError "Invalid order data")

end Order

/-- `requestType` -/
inductive RequestType where
  | new
  | cancel
  deriving DecidableEq, Repr

structure OrderRequest where
  requestOrder : Order
  clientId : UInt64
  type : RequestType
  deriving DecidableEq, Repr

namespace OrderRequest

def serialize (r : OrderRequest) : Bytes :=
  stdToString r.clientId ++ bytes "," ++ (if r.type = .new then bytes "NEW" else bytes "CANCEL") ++ bytes "," ++
    r.requestOrder.serialize

/-- The last five of the seven parts are joined again and decoded as an order. -/
def deserialize (data : Bytes) : Except Exn OrderRequest :=
  match getlines comma data with
  | [part0, part1, part2, part3, part4, part5, part6] => do
    let clientId ← stoull part0
    let type := if part1 = bytes "NEW" then .new else .cancel
    let orderData := part2 ++ bytes "," ++ part3 ++ bytes "," ++ part4 ++ bytes "," ++ part5 ++ bytes "," ++ part6
    let order ← Order.deserialize orderData
    return ⟨order, clientId, type⟩
  | _ => throw (.runtimeError "Invalid order request data")

end OrderRequest

def Trade.serialise (t : Trade) : Bytes := stdToString t.mTradePrice ++ bytes ":" ++ stdToString t.mTradeVolume

structure MarketDataSnapshot where
  bestBid : UInt64
  bestAsk : UInt64
  bidVolume : UInt64
  askVolume : UInt64
  deriving DecidableEq, Repr

namespace MarketDataSnapshot

/-- `MarketDataSnapshot{}` -/
def zero : MarketDataSnapshot := ⟨0, 0, 0, 0⟩

def serialise (s : MarketDataSnapshot) : Bytes :=
  stdToString s.bestBid ++ bytes "," ++ stdToString s.bestAsk ++ bytes "," ++ stdToString s.bidVolume ++
    bytes "," ++ stdToString s.askVolume

end MarketDataSnapshot

/-- `MarketData::deserialise` on the stored snapshot. One token is reused for the four fields. -/
def MarketData.deserialise (marketDataString : Bytes) : EStateM Exn MarketDataSnapshot Unit := do
  let (token, ss) := getline comma [] (ofList marketDataString)
  let bestBid ← ofExcept (stoull token)
  modify fun s => { s with bestBid := bestBid }
  let (token, ss) := getline comma token ss
  let bestAsk ← ofExcept (stoull token)
  modify fun s => { s with bestAsk := bestAsk }
  let (token, ss) := getline comma token ss
  let bidVolume ← ofExcept (stoull token)
  modify fun s => { s with bidVolume := bidVolume }
  let (token, _) := getline comma token ss
  let askVolume ← ofExcept (stoull token)
  modify fun s => { s with askVolume := askVolume }

end TradingSystem
