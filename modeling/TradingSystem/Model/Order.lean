import TradingSystem.Lib.Narrow

/-!
# Orders, prices and trades (`order.hpp`, `Order.cpp`, `Price.hpp`, `Trade.hpp`)

A `u_int64_t` is a `UInt64`. A C++ `int` is an `Int`, and every conversion between the two types that
the source makes is written out with `narrow` and `widen`.
-/

namespace TradingSystem

open Lib

/-- What the code throws. `runtimeError` is `std::runtime_error`, `invalidArgument` and `logicError` are
`std::invalid_argument` and `std::logic_error`. `undefined` is not an exception of the source: it stands
for an unchecked vector access past the end, and no handler of the source catches it. -/
inductive Exn where
  | runtimeError (what : String)
  | invalidArgument (what : String)
  | logicError (what : String)
  | undefined
  deriving DecidableEq, Repr

inductive Side where
  | bid
  | ask
  deriving DecidableEq, Repr

structure Price where
  mPriceValueInCent : UInt64
  deriving DecidableEq, Repr

namespace Price

/-- `Price(long long)` applied to an `int`. -/
def ofInt (value : Int) : Price := ⟨widen value⟩

def getPriceInTicks (p : Price) : Int := narrow p.mPriceValueInCent

end Price

/-- A ticker is a `std::string`, a sequence of bytes. -/
abbrev Bytes := List UInt8

structure Order where
  bidOrAsk : Side
  mVolume : UInt64
  mName : Bytes
  mOrderID : UInt64
  mPrice : Price
  deriving DecidableEq, Repr

namespace Order

/-- The default constructor, which fills the order pool. -/
def default : Order := ⟨.bid, 0, [], 0, ⟨0⟩⟩

def getVolume (o : Order) : Int := narrow o.mVolume

def getOrderId (o : Order) : UInt64 := o.mOrderID

def getPrice (o : Order) : Price := o.mPrice

/-- The value returned and the order afterwards. The reduction passes through an `int`. -/
def reduceVolume (o : Order) (volumeReduction : UInt64) : UInt64 × Order :=
  if o.mVolume = 0 then (0, o)
  else
    let feasableReduction := narrow (min o.mVolume volumeReduction)
    (widen feasableReduction, { o with mVolume := o.mVolume - widen feasableReduction })

end Order

/-- A trade points at its two orders; a pointer into the order pool is a slot number. -/
structure Trade where
  mBidOrder : Nat
  mAskOrder : Nat
  mTradeVolume : UInt64
  mTradePrice : UInt64
  deriving DecidableEq, Repr

namespace Trade

def getPrice (t : Trade) : UInt64 := t.mTradePrice

def getVolume (t : Trade) : UInt64 := t.mTradeVolume

end Trade

end TradingSystem
