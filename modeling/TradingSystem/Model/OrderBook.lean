import TradingSystem.Lib.Bitmap
import TradingSystem.Model.ObjectPool

/-!
# The order book (`OrderBook.hpp`, `OrderBook.cpp`)

The source writes most member functions twice, for bids and for asks. Each pair is one definition here
with the side as an argument, and the members of the pair keep their names as its two instances.

A `std::vector` is an `Array`; `operator[]` does not check its index, so a computation that would read
or write past the end throws `Exn.undefined`.
-/

namespace TradingSystem

open Lib

/-- Price levels stored in one word of a bitmap. -/
def chunk : Nat := 64

def startOfPrice : Int := 950

def numOfLevels : Int := 101

def poolSize : Nat := 10000

structure OrderLocation where
  price : Price
  side : Side
  isValid : Bool
  deriving DecidableEq, Repr

/-- `OrderLocation{}` -/
def OrderLocation.empty : OrderLocation := ⟨⟨0⟩, .bid, false⟩

structure OrderBook where
  mOrderPool : ObjectPool Order 10000
  mBidBitmap : Bitmap
  mAskBitmap : Bitmap
  mBidpriceLevel : Array (List Nat)
  mAskPriceLevel : Array (List Nat)
  orderIdtoPriceMapping : Nat → OrderLocation

/-- A member function of the book. -/
abbrev BookM := EStateM Exn OrderBook

namespace OrderBook

/-- The constructor. -/
def new (size : Nat) : OrderBook where
  mOrderPool := .new Order.default
  mBidBitmap := Array.replicate ((size + chunk - 1) / chunk) 0
  mAskBitmap := Array.replicate ((size + chunk - 1) / chunk) 0
  mBidpriceLevel := Array.replicate size []
  mAskPriceLevel := Array.replicate size []
  orderIdtoPriceMapping := fun _ => .empty

/-! ### The state by side -/

def bitmap (b : OrderBook) : Side → Bitmap
  | .bid => b.mBidBitmap
  | .ask => b.mAskBitmap

def priceLevel (b : OrderBook) : Side → Array (List Nat)
  | .bid => b.mBidpriceLevel
  | .ask => b.mAskPriceLevel

def setBitmap (b : OrderBook) (s : Side) (ws : Bitmap) : OrderBook :=
  match s with
  | .bid => { b with mBidBitmap := ws }
  | .ask => { b with mAskBitmap := ws }

def setPriceLevel (b : OrderBook) (s : Side) (levels : Array (List Nat)) : OrderBook :=
  match s with
  | .bid => { b with mBidpriceLevel := levels }
  | .ask => { b with mAskPriceLevel := levels }

/-- The order a pointer points to. -/
def order (b : OrderBook) (p : Nat) : Order := b.mOrderPool.pool p

/-- The order a pointer points to, overwritten. -/
def setOrder (b : OrderBook) (p : Nat) (o : Order) : OrderBook :=
  { b with mOrderPool := b.mOrderPool.write p o }

/-- `orderId % POOL_SIZE` -/
def mapIndex (orderId : UInt64) : Nat := orderId.toNat % poolSize

def setLocation (b : OrderBook) (orderId : UInt64) (loc : OrderLocation) : OrderBook :=
  { b with orderIdtoPriceMapping := fun i =>
      if i = mapIndex orderId then loc else b.orderIdtoPriceMapping i }

def deref (p : Nat) : BookM Order := do
  return (← get).order p

def modifyOrder (p : Nat) (f : Order → Order) : BookM Unit :=
  modify fun b => b.setOrder p (f (b.order p))

def acquire : BookM Nat := zoom mOrderPool (fun p b => { b with mOrderPool := p }) ObjectPool.acquire

def release (slot : Nat) : BookM Unit :=
  zoom mOrderPool (fun p b => { b with mOrderPool := p }) (ObjectPool.release slot)

/-- `priceLevel[i]` for an `int` index. -/
def levelAt (s : Side) (i : Int) : BookM (List Nat) := do
  match ((← get).priceLevel s)[(widen i).toNat]? with
  | some deque => return deque
  | none => throw .undefined

/-- `priceLevel[i] = deque` for an `int` index. -/
def setLevelAt (s : Side) (i : Int) (deque : List Nat) : BookM Unit := do
  let levels := (← get).priceLevel s
  if (widen i).toNat < levels.size then
    modify fun b => b.setPriceLevel s (levels.setIfInBounds (widen i).toNat deque)
  else throw .undefined

/-! ### Prices and levels -/

def priceToIndex (price : Price) : BookM Int := do
  let index := narrow (price.mPriceValueInCent - widen startOfPrice)
  if index < 0 ∨ index ≥ numOfLevels then throw (.invalidArgument "Invalid price to bid/ask")
  return index

def indexToPrice (levelIndex : Int) : BookM Price := do
  if levelIndex < 0 ∨ levelIndex ≥ narrow (UInt64.ofNat (← get).mBidpriceLevel.size) then
    throw (.invalidArgument ("Invalid level index: " ++ toString levelIndex))
  return Price.ofInt (startOfPrice + levelIndex)

def indexToBitmapIndex (levelIndex : Int) : Nat × Nat :=
  ((widen (levelIndex.tdiv chunk)).toNat, (widen (levelIndex.tmod chunk)).toNat)

def priceToBitmapIndex (price : Price) : BookM (Nat × Nat) := do
  return indexToBitmapIndex (← priceToIndex price)

/-- Apply a word update of the bitmap at the bit of a price. -/
def updateBit (update : Bitmap → Nat → Nat → Bitmap) (s : Side) (price : Price) : BookM Unit := do
  let (wordPos, bitPos) ← priceToBitmapIndex price
  let words := (← get).bitmap s
  if wordPos < words.size then modify fun b => b.setBitmap s (update words wordPos bitPos)
  else throw .undefined

def setBitTo1 : Side → Price → BookM Unit := updateBit Bitmap.orBit

def setBitTo0 : Side → Price → BookM Unit := updateBit Bitmap.andNotBit

def setBidBitTo1 : Price → BookM Unit := setBitTo1 .bid

def setAskBitTo1 : Price → BookM Unit := setBitTo1 .ask

def setBidBitTo0 : Price → BookM Unit := setBitTo0 .bid

def setAskBitTo0 : Price → BookM Unit := setBitTo0 .ask

/-! ### Best levels -/

def findBestBidLevel (b : OrderBook) : Int := b.mBidBitmap.highest

def findBestAskLevel (b : OrderBook) : Int := b.mAskBitmap.lowest

def findBestLevel (b : OrderBook) : Side → Int
  | .bid => b.findBestBidLevel
  | .ask => b.findBestAskLevel

/-- The front of the best queue of a side. -/
def getBest (s : Side) (noOrders : String) : BookM Nat := do
  let bestLevel := (← get).findBestLevel s
  if bestLevel = -1 then throw (.runtimeError noOrders)
  match ← levelAt s bestLevel with
  | [] => throw (.runtimeError "bitmapp shows the level marked but the deque is empty")
  | front :: _ => return front

def getBestBid : BookM Nat := getBest .bid "No bids in the OrderBook!"

def getBestAsk : BookM Nat := getBest .ask "No Asks in the OrderBook"

/-! ### Adding and removing -/

def add (s : Side) (order : Nat) : BookM Unit := do
  let level ← priceToIndex (← deref order).mPrice
  setLevelAt s level ((← levelAt s level) ++ [order])
  setBitTo1 s (← deref order).getPrice
  let o ← deref order
  modify fun b => b.setLocation o.mOrderID ⟨o.mPrice, s, true⟩

def addBid : Nat → BookM Unit := add .bid

def addAsk : Nat → BookM Unit := add .ask

/-- Remove the front of the best queue, whose order must be `orderId`. -/
def remove (s : Side) (mismatch : String) (orderId : UInt64) : BookM Unit := do
  let bestLevel := (← get).findBestLevel s
  if bestLevel = -1 then return
  match ← levelAt s bestLevel with
  | [] => setBitTo0 s (← indexToPrice bestLevel) -- clear stale bit
  | front :: rest =>
    if (← deref front).getOrderId ≠ orderId then throw (.logicError mismatch)
    release front
    setLevelAt s bestLevel rest
    modify fun b => b.setLocation orderId .empty
    if rest = [] then setBitTo0 s (← indexToPrice bestLevel)

def removeBid : UInt64 → BookM Unit :=
  remove .bid "orderId does not match the order at the front of that queue level"

def removeAsk : UInt64 → BookM Unit :=
  remove .ask "orderId does not match the order at thr front of that queue level"

/-- Summed in `u_int64_t`. -/
def volumeOf (b : OrderBook) (deque : List Nat) : UInt64 :=
  deque.foldl (fun total p => total + (b.order p).mVolume) 0

def getVolumeAtLevelFromPrice (price : Price) : BookM (UInt64 × UInt64) := do
  let level ← priceToIndex price
  let totalBidVolume := (← get).volumeOf (← levelAt .bid level)
  let totalAskVolume := (← get).volumeOf (← levelAt .ask level)
  return (totalBidVolume, totalAskVolume)

/-! ### Cancelling -/

def orderIdToPrice (orderId : UInt64) : BookM (Price × Side) := do
  let loc := (← get).orderIdtoPriceMapping (mapIndex orderId)
  if !loc.isValid then
    throw (.runtimeError ("there was no orderID with this number:" ++ toString orderId))
  return (loc.price, loc.side)

/-- The search loop of `removeOrderFromOrderId`: `seen` is the part of the queue before the iterator. -/
def eraseOrder (s : Side) (price : Price) (orderIndex : Int) (orderId : UInt64) :
    (seen deque : List Nat) → BookM Unit
  | _, [] => return
  | seen, it :: rest => do
    if (← deref it).mOrderID = orderId then
      release it
      setLevelAt s orderIndex (seen ++ rest)
      if seen ++ rest = [] then setBitTo0 s price
    else eraseOrder s price orderIndex orderId (seen ++ [it]) rest

def removeOrderFromOrderId (orderId : UInt64) : BookM Unit :=
  tryCatch (do
    let (price, side) ← orderIdToPrice orderId
    let orderIndex ← priceToIndex price
    eraseOrder side price orderIndex orderId [] (← levelAt side orderIndex)
    modify fun b => b.setLocation orderId .empty)
  fun
    | .runtimeError _ => return -- it might have been matched already
    | e => throw e

/-! ### Trades -/

/-- The lines that `Trade::printTrade` writes. It reads the prices through the pointers. -/
def printTrade (t : Trade) : BookM (List String) := do
  let askPrice := (← deref t.mAskOrder).getPrice.mPriceValueInCent
  let bidPrice := (← deref t.mBidOrder).getPrice.mPriceValueInCent
  return ["Trade Details:", "Ask Price: " ++ toString askPrice, "Bid Price: " ++ toString bidPrice,
    "Volume: " ++ toString t.mTradeVolume]

end OrderBook

end TradingSystem
