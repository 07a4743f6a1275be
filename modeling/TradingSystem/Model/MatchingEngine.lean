import TradingSystem.Lib.Machine
import TradingSystem.Model.OrderBook

/-!
# The matching engine (`MatchingEngine.hpp`, `MatchingEngine.cpp`, `OrderIdGenerator.cpp`)

The engine works on an order book and on the process-wide counter of `OrderIdGenerator`. Its mutex makes
each of `addOrder`, `cancelOrder` and `matchLimitOrders` one step, so the engine is a machine whose
inputs are the calls.
-/

namespace TradingSystem

open Lib

structure MatchingEngine where
  orderBook : OrderBook
  atomicOrderID : UInt64

abbrev EngineM := EStateM Exn MatchingEngine

namespace MatchingEngine

/-- A fresh engine over `OrderBook(size)`, when the counter stands at `counter`. -/
def new (size : Nat) (counter : UInt64) : MatchingEngine := ⟨.new size, counter⟩

def onBook {α : Type} : BookM α → EngineM α := zoom orderBook fun b e => { e with orderBook := b }

/-- `OrderIdGenerator::incrementOrder` -/
def incrementOrder : EngineM UInt64 := do
  modify fun e => { e with atomicOrderID := e.atomicOrderID + 1 }
  return (← get).atomicOrderID

def addOrder (orderData : Order) : EngineM UInt64 := do
  let order ← onBook OrderBook.acquire
  onBook (OrderBook.modifyOrder order fun _ => orderData)
  let orderId ← incrementOrder
  onBook (OrderBook.modifyOrder order fun o => { o with mOrderID := orderId })
  if (← onBook (OrderBook.deref order)).bidOrAsk = .bid then
    onBook (OrderBook.addBid order)
  else
    onBook (OrderBook.addAsk order)
  return (← onBook (OrderBook.deref order)).mOrderID

/-- The trade branch of `matchLimitOrders` up to the construction of the trade. -/
def fillOrders (bestBid bestAsk : Nat) (tradePrice : UInt64) : BookM Trade := do
  let tradeVolume := widen (min (← OrderBook.deref bestAsk).getVolume (← OrderBook.deref bestBid).getVolume)
  OrderBook.modifyOrder bestAsk fun o => (o.reduceVolume tradeVolume).2
  OrderBook.modifyOrder bestBid fun o => (o.reduceVolume tradeVolume).2
  return ⟨bestBid, bestAsk, tradeVolume, tradePrice⟩

/-- `if (bestAsk->GetVolume() == 0) orderBook.removeAsk(bestAsk->getOrderId())` -/
def removeFilledAsk (bestAsk : Nat) : BookM Unit := do
  if (← OrderBook.deref bestAsk).getVolume = 0 then
    OrderBook.removeAsk (← OrderBook.deref bestAsk).getOrderId

/-- `if (bestBid->GetVolume() == 0) orderBook.removeBid(bestBid->getOrderId())` -/
def removeFilledBid (bestBid : Nat) : BookM Unit := do
  if (← OrderBook.deref bestBid).getVolume = 0 then
    OrderBook.removeBid (← OrderBook.deref bestBid).getOrderId

def matchBook : BookM (Option Trade) :=
  tryCatch (do
    let bestAsk ← OrderBook.getBestAsk
    let bestBid ← OrderBook.getBestBid
    let bidPrice := widen (← OrderBook.deref bestBid).getPrice.getPriceInTicks
    let askPrice := widen (← OrderBook.deref bestAsk).getPrice.getPriceInTicks
    if bidPrice ≥ askPrice then
      let trade ← fillOrders bestBid bestAsk askPrice
      removeFilledAsk bestAsk
      removeFilledBid bestBid
      return some trade
    else return none)
  fun
    | .runtimeError _ => return none
    | e => throw e

def matchLimitOrders : EngineM (Option Trade) := onBook matchBook

def cancelOrder (orderId : UInt64) : EngineM Unit := onBook (OrderBook.removeOrderFromOrderId orderId)

/-! ### The engine as a machine -/

inductive Call where
  | addOrder (orderData : Order)
  | cancelOrder (orderId : UInt64)
  | matchLimitOrders

deriving instance DecidableEq for Except

inductive Reply where
  | added (result : Except Exn UInt64)
  | cancelled (result : Except Exn Unit)
  | matched (result : Except Exn (Option Trade))
  deriving DecidableEq

/-- What a caller sees of a computation, and the state it leaves. -/
def observe {α : Type} (x : EngineM α) (e : MatchingEngine) : Except Exn α × MatchingEngine :=
  match x e with
  | .ok a e' => (.ok a, e')
  | .error err e' => (.error err, e')

def step (e : MatchingEngine) : Call → Reply × MatchingEngine
  | .addOrder orderData => (observe (addOrder orderData) e).map .added id
  | .cancelOrder orderId => (observe (cancelOrder orderId) e).map .cancelled id
  | .matchLimitOrders => (observe matchLimitOrders e).map .matched id

def machine : Machine MatchingEngine Call Reply := ⟨step⟩

/-- Reachable from a fresh `OrderBook(101)`, whatever the counter had issued before. -/
def Reachable (e : MatchingEngine) : Prop := ∃ counter, machine.Reachable (new 101 counter) e

end MatchingEngine

end TradingSystem
