import Mathlib.Logic.Function.Basic
import TradingSystem.Model.Network

/-!
# The trading system (`TradingSystem.cpp`, `TraderClient.hpp`, `SimulatedTraders.hpp`)

The threads of the process around one engine: a thread of the server for each connection, the matching loop of
`TradingSystem::start`, which sends the trades, and the publisher. At the other end of a connection is the
session of a client, whose calls wait for their response, or any other program, which writes what it likes. Every
step is one access to what the threads share.

A connection has its number before it is accepted, and each number is one connection.
-/

namespace TradingSystem

open Lib

/-- What a call of a session returns or throws. -/
inductive SessionResult where
  | placed (result : Except Exn UInt64)
  | cancelled (response : Bytes)
  deriving DecidableEq

/-- The text of a response in an exception. -/
def text (data : Bytes) : String := String.ofList (data.map fun b => Char.ofNat b.toNat)

/-- `TCPOrderSession::placeOrder` and `TCPOrderSession::cancelOrder` once they have read the response. -/
def SessionCall.result (resp : Bytes) : SessionCall → SessionResult
  | .placeOrder _ =>
    match stoull resp with
    | .ok orderId => .placed (.ok orderId)
    | .error _ => .placed (.error (.runtimeError ("Order rejected: " ++ text resp)))
  | .cancelOrder _ => .cancelled resp

/-! ### Clients -/

namespace TraderClient

def placeOrder (ticker side : Bytes) (qty priceInCents : UInt64) : SessionCall :=
  .placeOrder ⟨if side = bytes "BUY" then .bid else .ask, qty, ticker, 0, .ofUInt64 priceInCents⟩

def cancelOrder (orderId : UInt64) : SessionCall := .cancelOrder orderId

/-- What the distributions of `TraderClient` draw. -/
structure Draw where
  side : Nat
  volume : Nat
  price : Nat
  side_le : side ≤ 1
  volume_mem : 1 ≤ volume ∧ volume ≤ 100
  price_mem : 950 ≤ price ∧ price ≤ 1050

/-- The next call of `startRandomClientThread` after a result. An exception of `placeOrder` ends the process. -/
def nextCall (draw : Draw) : Option SessionResult → Option SessionCall
  | none | some (.cancelled _) =>
    some (placeOrder (bytes "TSLA") (if draw.side = 1 then bytes "BUY" else bytes "SELL") (UInt64.ofNat draw.volume)
      (UInt64.ofNat draw.price))
  | some (.placed (.ok orderId)) => some (cancelOrder orderId)
  | some (.placed (.error _)) => none

/-- `::toupper` -/
def toupper (c : UInt8) : UInt8 := if 97 ≤ c ∧ c ≤ 122 then c - 32 else c

/-- What the terminal makes of the inputs to place an order; without a call it shows that the price must be between
950 and 1050. An exception of `std::stoull` ends the process. -/
def orderForm (tickerSymbol side qty price : Bytes) : Except Exn (Option SessionCall) := do
  -- simple validation for a valid price
  if (← stoull price) < 950 ∨ (← stoull price) > 1050 then
    return none
  return some (placeOrder tickerSymbol (side.map toupper) (← stoull qty) (← stoull price))

/-- What the terminal makes of the input to cancel an order. -/
def cancelForm (orderId : Bytes) : Except Exn SessionCall := return cancelOrder (← stoull orderId)

end TraderClient

/-! ### The process -/

/-- A connection, the thread that serves it, and the session at its other end. -/
structure Peer where
  nextClientId : UInt64
  /-- The call that waits for its response. -/
  pending : Option SessionCall
  /-- What the last call returned. -/
  last : Option SessionResult
  toServer : Bytes
  toClient : Bytes
  /-- The thread is in its loop. -/
  serving : Bool

structure System where
  engine : MatchingEngine
  peer : Nat → Peer
  /-- The trade that the matching loop has to send. -/
  unsent : Option Trade
  publisher : UDPServer.Progress
  /-- The datagrams sent so far. -/
  feed : List Bytes

namespace System

def start (engine : MatchingEngine) : System :=
  ⟨engine, fun _ => ⟨1000, none, none, [], [], true⟩, none, .begun, []⟩

inductive Event where
  /-- The owner of session `i` makes a call, and the session writes the request. -/
  | call (i : Nat) (c : SessionCall)
  /-- Some other program writes on connection `i`. -/
  | write (i : Nat) (data : Bytes)
  /-- `read_some` of the thread of connection `i` finds `n` bytes. -/
  | serverRead (i n : Nat)
  /-- A round of the thread of connection `i` whose client is gone: `read_some` finds the last `n` bytes, or throws if
  there are none, and `write_some` throws. -/
  | disconnected (i n : Nat)
  /-- `read_some` of session `i` finds `n` bytes. -/
  | clientRead (i n : Nat)
  /-- The matching loop calls `matchLimitOrders`. -/
  | matchOrders
  | sendTrade
  /-- The publisher makes its next access, or sends its snapshot. -/
  | publish

inductive Output where
  | called (i : Nat) (c : SessionCall)
  | returned (i : Nat) (c : SessionCall) (result : SessionResult)

def setPeer (s : System) (i : Nat) (peer : Peer) : System :=
  { s with peer := Function.update s.peer i peer }

/-- `placeOrder` or `cancelOrder` up to the read. -/
def call (s : System) (i : Nat) (c : SessionCall) : List Output × System :=
  let peer := s.peer i
  match peer.pending with
  | some _ => ([], s)
  | none => ([.called i c], s.setPeer i { peer with
      nextClientId := peer.nextClientId + 1
      pending := some c
      toServer := peer.toServer ++ (c.request peer.nextClientId).serialize })

def write (s : System) (i : Nat) (data : Bytes) : System :=
  s.setPeer i { s.peer i with toServer := (s.peer i).toServer ++ data }

/-- A round of the thread of a connection. -/
def serverRead (s : System) (i n : Nat) : System :=
  let receivedData : Bytes := (s.peer i).toServer.take (min n bufferSize)
  let peer : Peer := { s.peer i with toServer := (s.peer i).toServer.drop (min n bufferSize) }
  if peer.serving ∧ receivedData ≠ [] then
    match TCPServer.serve receivedData s.engine with
    | .ok response engine => { s.setPeer i { peer with toClient := peer.toClient ++ response } with engine := engine }
    | .error _ engine => { s.setPeer i { peer with serving := false } with engine := engine }
  else s

/-- A round that ends in the handler `Client disconnected`, after the request was executed if one was read. -/
def disconnected (s : System) (i n : Nat) : System :=
  let receivedData : Bytes := (s.peer i).toServer.take (min n bufferSize)
  let peer : Peer := { s.peer i with
    toServer := (s.peer i).toServer.drop (min n bufferSize)
    serving := false }
  if (s.peer i).serving then
    if receivedData = [] then s.setPeer i peer
    else
      match TCPServer.serve receivedData s.engine with
      | .ok _ engine => { s.setPeer i peer with engine := engine }
      | .error _ engine => { s.setPeer i peer with engine := engine }
  else s

/-- The rest of `placeOrder` or `cancelOrder`. -/
def clientRead (s : System) (i n : Nat) : List Output × System :=
  let peer := s.peer i
  let resp := peer.toClient.take (min n bufferSize)
  match peer.pending with
  | some c =>
    if resp ≠ [] then
      ([.returned i c (c.result resp)], s.setPeer i { peer with
        pending := none
        last := some (c.result resp)
        toClient := peer.toClient.drop (min n bufferSize) })
    else ([], s)
  | none => ([], s)

/-- The matching loop up to the test of the trade. -/
def matchOrders (s : System) : System :=
  match s.unsent with
  | some _ => s
  | none =>
    match MatchingEngine.matchLimitOrders s.engine with
    | .ok trade engine => { s with engine := engine, unsent := trade }
    | .error _ _ => s -- the exceptions that are not handled

/-- `UDPServer::sendTrade` -/
def sendTrade (s : System) : System :=
  match s.unsent with
  | some trade => { s with unsent := none, feed := s.feed ++ [bytes "TRADE:" ++ trade.serialise] }
  | none => s

def publish (s : System) : System :=
  match s.publisher with
  | .sent snapshot => { s with publisher := .begun, feed := s.feed ++ [snapshot.serialise] }
  | progress =>
    match MatchingEngine.onBook (UDPServer.advance progress) s.engine with
    | .ok progress engine => { s with engine := engine, publisher := progress }
    | .error _ _ => s -- undefined, the only throw that is not handled

def step (s : System) : Event → List Output × System
  | .call i c => s.call i c
  | .write i data => ([], s.write i data)
  | .serverRead i n => ([], s.serverRead i n)
  | .disconnected i n => ([], s.disconnected i n)
  | .clientRead i n => s.clientRead i n
  | .matchOrders => ([], s.matchOrders)
  | .sendTrade => ([], s.sendTrade)
  | .publish => ([], s.publish)

def machine : Machine System Event (List Output) := ⟨step⟩

end System

end TradingSystem
