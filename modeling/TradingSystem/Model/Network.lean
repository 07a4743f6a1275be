import TradingSystem.Model.MatchingEngine
import TradingSystem.Model.Wire

/-!
# Servers and clients (`TCP_Server.hpp`, `TCPOrderSession.hpp`, `UDPServer.hpp`, `UDPMarketDataReceiver.hpp`)

Order entry is one connection between a session and a thread of the server, with the bytes in flight each
way. Market data is an iteration of the publisher, one step for each access to the book because it does not
take the mutex of the engine, and the loop of a receiver, one step for each datagram.

Of the transport, a write puts its bytes in flight in order, and a read takes some of them, at most as many
as its buffer holds.
-/

namespace TradingSystem

open Lib

/-- `e.what()` of an `std::exception`. -/
def Exn.what : Exn → String
  | .runtimeError what => what
  | .invalidArgument what => what
  | .logicError what => what
  | .undefined => "" -- not an exception

/-- The size of every receive buffer. -/
def bufferSize : Nat := 1024

namespace TCPServer

open MatchingEngine

/-- The dispatch of a decoded request, and the reply. -/
def execute (request : OrderRequest) : EngineM Bytes :=
  match request.type with
  | .new =>
    tryCatch (do
      let assignedId ← addOrder request.requestOrder
      return stdToString assignedId)
    fun
      | .undefined => throw .undefined
      | e => return bytes "Order rejected: " ++ bytes e.what
  | .cancel =>
    tryCatch (do
      let orderId := request.requestOrder.mOrderID
      cancelOrder orderId
      return bytes "Order cancelled: " ++ stdToString orderId)
    fun
      | .undefined => throw .undefined
      | _ => return bytes "Cancel failed: order not found"

/-- One round of the loop of a client thread, on what the read returned. -/
def serve (receivedData : Bytes) : EngineM Bytes := do
  let request ← ofExcept (OrderRequest.deserialize receivedData)
  execute request

end TCPServer

/-! ### Order entry -/

/-- What the owner of a session calls. -/
inductive SessionCall where
  | placeOrder (order : Order)
  | cancelOrder (orderId : UInt64)

/-- The request that the session makes of a call. -/
def SessionCall.request (nextClientId : UInt64) : SessionCall → OrderRequest
  | .placeOrder order => ⟨order, nextClientId, .new⟩
  | .cancelOrder orderId => ⟨⟨.bid, 0, [], orderId, .ofInt 0⟩, nextClientId, .cancel⟩

/-- A session, its connection, and the thread that serves it. -/
structure Connection where
  /-- What the session has still to do. -/
  calls : List SessionCall
  nextClientId : UInt64
  /-- The session has written and waits in `read_some`. -/
  awaiting : Bool
  toServer : Bytes
  toClient : Bytes
  /-- The thread is in its loop. -/
  serving : Bool
  engine : MatchingEngine
  /-- The requests written so far; no step reads this list. -/
  sent : List OrderRequest
  /-- The requests given to the engine so far; no step reads this list. -/
  executed : List OrderRequest

namespace Connection

def new (calls : List SessionCall) (engine : MatchingEngine) : Connection :=
  ⟨calls, 1000, false, [], [], true, engine, [], []⟩

inductive Event where
  /-- The session makes its next call and writes the request. -/
  | send
  /-- `read_some` of the server finds `n` bytes. -/
  | serverRead (n : Nat)
  /-- `read_some` of the session finds `n` bytes. -/
  | clientRead (n : Nat)
  /-- Someone else calls the engine. -/
  | engineCall (c : MatchingEngine.Call)

/-- `placeOrder` or `cancelOrder` up to the read. -/
def send (s : Connection) : Connection :=
  match s.calls with
  | [] => s
  | c :: calls =>
    if s.awaiting then s
    else { s with
      calls := calls
      nextClientId := s.nextClientId + 1
      awaiting := true
      toServer := s.toServer ++ (c.request s.nextClientId).serialize
      sent := s.sent ++ [c.request s.nextClientId] }

/-- What `read_some` of the server returns when it finds `n` bytes. -/
def chunk (s : Connection) (n : Nat) : Bytes := s.toServer.take (min n bufferSize)

/-- The request in a chunk, if the decoder does not throw. -/
def decoded (chunk : Bytes) : List OrderRequest :=
  match OrderRequest.deserialize chunk with
  | .ok request => [request]
  | .error _ => []

/-- A round of the client thread. What `serve` throws ends the loop. -/
def serverRead (s : Connection) (n : Nat) : Connection :=
  if s.serving ∧ s.chunk n ≠ [] then
    match TCPServer.serve (s.chunk n) s.engine with
    | .ok response engine => { s with
        toServer := s.toServer.drop (min n bufferSize)
        toClient := s.toClient ++ response
        engine := engine
        executed := s.executed ++ decoded (s.chunk n) }
    | .error _ engine => { s with
        toServer := s.toServer.drop (min n bufferSize)
        serving := false
        engine := engine
        executed := s.executed ++ decoded (s.chunk n) }
  else s

/-- The rest of `placeOrder` or `cancelOrder`. -/
def clientRead (s : Connection) (n : Nat) : Connection :=
  if s.awaiting ∧ s.toClient.take (min n bufferSize) ≠ [] then
    { s with awaiting := false, toClient := s.toClient.drop (min n bufferSize) }
  else s

def next (s : Connection) : Event → Connection
  | .send => s.send
  | .serverRead n => s.serverRead n
  | .clientRead n => s.clientRead n
  | .engineCall c => { s with engine := MatchingEngine.machine.next s.engine c }

def machine : Machine Connection Event Unit := ⟨fun s event => ((), s.next event)⟩

end Connection

/-! ### Market data -/

namespace UDPServer

open OrderBook

/-- Where an iteration of the publisher is, and its local variables so far. -/
inductive Progress where
  | begun
  | haveBid (bestBid : Nat)
  | haveBoth (bestBid bestAsk : Nat)
  | haveBidPrice (bestBid bestAsk : Nat) (bidPrice : UInt64)
  | havePrices (bestBid bestAsk : Nat) (bidPrice askPrice : UInt64)
  | haveBidVolume (bestBid bestAsk : Nat) (bidPrice askPrice bidVol : UInt64)
  | sent (snapshot : MarketDataSnapshot)
  deriving DecidableEq, Repr

/-- The next access to the book. -/
def access : Progress → BookM Progress
  | .begun => return .haveBid (← getBestBid)
  | .haveBid bestBid => return .haveBoth bestBid (← getBestAsk)
  | .haveBoth bestBid bestAsk =>
    return .haveBidPrice bestBid bestAsk (widen (← deref bestBid).getPrice.getPriceInTicks)
  | .haveBidPrice bestBid bestAsk bidPrice =>
    return .havePrices bestBid bestAsk bidPrice (widen (← deref bestAsk).getPrice.getPriceInTicks)
  | .havePrices bestBid bestAsk bidPrice askPrice => do
    let (bidVol, _) ← getVolumeAtLevelFromPrice (← deref bestBid).getPrice
    return .haveBidVolume bestBid bestAsk bidPrice askPrice bidVol
  | .haveBidVolume _ bestAsk bidPrice askPrice bidVol => do
    let (_, askVol) ← getVolumeAtLevelFromPrice (← deref bestAsk).getPrice
    return .sent ⟨bidPrice, askPrice, bidVol, askVol⟩
  | .sent snapshot => return .sent snapshot

/-- An exception sends the empty snapshot. -/
def advance (progress : Progress) : BookM Progress :=
  tryCatch (access progress) fun
    | .undefined => throw .undefined
    | _ => return .sent .zero

/-- An iteration that nothing interrupts. -/
def publish : BookM Progress := do
  let haveBid ← advance .begun
  let haveBoth ← advance haveBid
  let haveBidPrice ← advance haveBoth
  let havePrices ← advance haveBidPrice
  let haveBidVolume ← advance havePrices
  advance haveBidVolume

/-- An iteration beside the engine. -/
structure Iteration where
  engine : MatchingEngine
  progress : Progress
  /-- The books from the first access to the last; no step reads this list. -/
  window : List OrderBook

namespace Iteration

def start (engine : MatchingEngine) : Iteration := ⟨engine, .begun, []⟩

inductive Event where
  /-- The publisher makes its next access. -/
  | access
  /-- Someone calls the engine. -/
  | engineCall (c : MatchingEngine.Call)

/-- The first access is made and the last is not. -/
def underway (s : Iteration) : Bool :=
  match s.progress with
  | .begun => false
  | .sent _ => false
  | _ => true

def next (s : Iteration) : Event → Iteration
  | .access =>
    match MatchingEngine.onBook (advance s.progress) s.engine with
    | .ok progress engine => ⟨engine, progress, if s.progress = .begun then [s.engine.orderBook] else s.window⟩
    | .error _ _ => s -- undefined, the only throw that is not handled
  | .engineCall c =>
    let engine := MatchingEngine.machine.next s.engine c
    { s with engine := engine, window := if s.underway then s.window ++ [engine.orderBook] else s.window }

def machine : Machine Iteration Event Unit := ⟨fun s event => ((), s.next event)⟩

end Iteration

end UDPServer

namespace UDPMarketDataReceiver

/-- A round of the loop. A datagram is cut to the size of the buffer. -/
def receive (datagram : Bytes) : EStateM Exn MarketDataSnapshot Unit :=
  let data := datagram.take bufferSize
  if bytes "TRADE:" <+: data then return
  else MarketData.deserialise data

/-- The receiver on the stored snapshot. The output is what the round throws, if it throws. -/
def machine : Machine MarketDataSnapshot Bytes (Except Exn Unit) where
  step snapshot datagram :=
    match receive datagram snapshot with
    | .ok _ snapshot' => (.ok (), snapshot')
    | .error e snapshot' => (.error e, snapshot')

end UDPMarketDataReceiver

end TradingSystem
