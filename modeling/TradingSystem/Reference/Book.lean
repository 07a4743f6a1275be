import TradingSystem.Lib.SortedList
import TradingSystem.Model.MatchingEngine

/-!
# The reference book

What the matching engine is for: a price-time order book that keeps each side as one list, sorted by price
(bids from the highest, asks from the lowest) and then by order id. It has no levels, no slots and no
location array, and no capacity. Its answers name orders by their ids.
-/

namespace TradingSystem

open Lib MatchingEngine

/-- A trade as a caller reads it through the two pointers. -/
structure TradeReport where
  bidId : UInt64
  askId : UInt64
  volume : UInt64
  price : UInt64
  deriving DecidableEq

inductive Answer where
  | added (result : Except Exn UInt64)
  | cancelled (result : Except Exn Unit)
  | matched (result : Except Exn (Option TradeReport))
  deriving DecidableEq

/-- The priority of side `s`: the better price first, then the smaller id. -/
def Before (s : Side) (o o' : Order) : Prop :=
  (match s with
    | .bid => o'.mPrice.mPriceValueInCent < o.mPrice.mPriceValueInCent
    | .ask => o.mPrice.mPriceValueInCent < o'.mPrice.mPriceValueInCent) ∨
  (o.mPrice.mPriceValueInCent = o'.mPrice.mPriceValueInCent ∧ o.mOrderID < o'.mOrderID)

instance (s : Side) : DecidableRel (Before s) := fun o o' => by
  cases s <;> exact inferInstanceAs (Decidable (_ ∨ _))

structure ReferenceBook where
  orders : Side → List Order
  counter : UInt64

namespace ReferenceBook

def new (counter : UInt64) : ReferenceBook := ⟨fun _ => [], counter⟩

/-- A refused order consumes an id too. -/
def addOrder (r : ReferenceBook) (o : Order) : Answer × ReferenceBook :=
  let orderId := r.counter + 1
  if 950 ≤ o.mPrice.mPriceValueInCent ∧ o.mPrice.mPriceValueInCent ≤ 1050 then
    (.added (.ok orderId),
      { orders := fun s => if s = o.bidOrAsk then
          (r.orders s).orderedInsert (Before s) { o with mOrderID := orderId } else r.orders s
        counter := orderId })
  else (.added (.error (.invalidArgument "Invalid price to bid/ask")), { r with counter := orderId })

def cancelOrder (r : ReferenceBook) (orderId : UInt64) : Answer × ReferenceBook :=
  (.cancelled (.ok ()), { r with orders := fun s => (r.orders s).filter fun o => o.mOrderID ≠ orderId })

/-- What is left at the head of a side after `volume` of its head `o` is traded. -/
def settle (o : Order) (volume : UInt64) (rest : List Order) : List Order :=
  if o.mVolume = volume then rest else { o with mVolume := o.mVolume - volume } :: rest

def matchLimitOrders (r : ReferenceBook) : Answer × ReferenceBook :=
  match r.orders .bid, r.orders .ask with
  | bid :: bids, ask :: asks =>
    if bid.mPrice.mPriceValueInCent ≥ ask.mPrice.mPriceValueInCent then
      let volume := min bid.mVolume ask.mVolume
      (.matched (.ok (some ⟨bid.mOrderID, ask.mOrderID, volume, ask.mPrice.mPriceValueInCent⟩)),
        { r with orders := fun
            | .bid => settle bid volume bids
            | .ask => settle ask volume asks })
    else (.matched (.ok none), r)
  | _, _ => (.matched (.ok none), r)

def step (r : ReferenceBook) : Call → Answer × ReferenceBook
  | .addOrder o => r.addOrder o
  | .cancelOrder orderId => r.cancelOrder orderId
  | .matchLimitOrders => r.matchLimitOrders

def machine : Machine ReferenceBook Call Answer := ⟨step⟩

/-! ### What a match does -/

section Match

variable {r : ReferenceBook} {bid ask : Order} {bids asks : List Order}

/-- Two heads that cross trade the smaller volume, at the price of the ask. -/
theorem matchLimitOrders_crossed (hbids : r.orders .bid = bid :: bids) (hasks : r.orders .ask = ask :: asks)
    (hcross : bid.mPrice.mPriceValueInCent ≥ ask.mPrice.mPriceValueInCent) :
    r.matchLimitOrders.1 = .matched (.ok (some ⟨bid.mOrderID, ask.mOrderID, min bid.mVolume ask.mVolume,
        ask.mPrice.mPriceValueInCent⟩)) ∧
      r.matchLimitOrders.2.counter = r.counter ∧
      r.matchLimitOrders.2.orders .bid = settle bid (min bid.mVolume ask.mVolume) bids ∧
      r.matchLimitOrders.2.orders .ask = settle ask (min bid.mVolume ask.mVolume) asks := by
  rw [matchLimitOrders, hbids, hasks]
  simp only [if_pos hcross, true_and]

theorem matchLimitOrders_uncrossed (hbids : r.orders .bid = bid :: bids)
    (hasks : r.orders .ask = ask :: asks)
    (hcross : ¬ bid.mPrice.mPriceValueInCent ≥ ask.mPrice.mPriceValueInCent) :
    r.matchLimitOrders = (.matched (.ok none), r) := by
  rw [matchLimitOrders, hbids, hasks]
  exact if_neg hcross

theorem matchLimitOrders_empty {s : Side} (h : r.orders s = []) :
    r.matchLimitOrders = (.matched (.ok none), r) := by
  unfold matchLimitOrders
  cases s with
  | bid => rw [h]
  | ask =>
    rw [h]
    cases r.orders .bid <;> rfl

end Match

end ReferenceBook

/-! ### The order of a side -/

instance (s : Side) : Std.Irrefl (Before s) where
  irrefl o := by
    cases s <;> simp [Before]

instance (s : Side) : IsTrans Order (Before s) where
  trans o o' o'' := by
    cases s <;> simp only [Before, UInt64.lt_iff_toNat_lt, ← UInt64.toNat_inj] <;> omega

instance (s : Side) : Std.Antisymm (Before s) where
  antisymm o o' h h' := absurd (IsTrans.trans o o' o h h') (Std.Irrefl.irrefl o)

/-- Orders with different ids are comparable. -/
theorem before_total (s : Side) {o o' : Order} (h : o.mOrderID ≠ o'.mOrderID) :
    Before s o o' ∨ Before s o' o := by
  rw [ne_eq, ← UInt64.toNat_inj] at h
  cases s <;> simp only [Before, UInt64.lt_iff_toNat_lt, ← UInt64.toNat_inj] <;> omega

end TradingSystem
