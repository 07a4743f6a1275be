import TradingSystem.Engine.Drain
import TradingSystem.Engine.Priority

/-!
# Orders that have left

An order leaves the book by a fill or by a cancel, and its slot is soon another order's. Its id is not: ids are drawn
from a counter, so until this wraps no later order gets the id of one that has left. What has left never trades again.
-/

namespace TradingSystem

open Lib OrderBook

namespace MatchingEngine

/-- Id `k` is not above the counter, so it was issued if this has not wrapped, and no order rests under it. -/
structure Departed (k : UInt64) (e : MatchingEngine) : Prop where
  issued : k.toNat ≤ e.atomicOrderID.toNat
  gone : ∀ p ∈ e.orderBook.resting, (e.orderBook.order p).mOrderID ≠ k

/-- A match would not trade the order with id `k`. -/
def Untraded (k : UInt64) (e : MatchingEngine) : Prop :=
  ∀ trade, (e.step .matchLimitOrders).1 = .matched (.ok (some trade)) →
    (e.orderBook.order trade.mBidOrder).mOrderID ≠ k ∧ (e.orderBook.order trade.mAskOrder).mOrderID ≠ k

variable {e : MatchingEngine} {k : UInt64}

theorem idsIssued_le (e : MatchingEngine) (c : Call) : idsIssued e c ≤ 1 := by
  cases c with
  | addOrder o =>
    unfold idsIssued
    split_ifs
    · exact Nat.zero_le 1
    · exact Nat.le_refl 1
  | cancelOrder orderId => exact Nat.zero_le 1
  | matchLimitOrders => exact Nat.zero_le 1

theorem departed_next (hb : WellFormed e.orderBook) (h : Departed k e) {c : Call} (hc : NoWrap e c) :
    Departed k (machine.next e c) := by
  constructor
  · rw [toNat_counter_next hb hc]
    exact Nat.le_add_right_of_le h.issued
  · intro p hp
    rcases mem_resting_next hb hp with hold | ⟨o, rest, l, rfl, hfree, -, hnext⟩
    · rw [mOrderID_next hb c hold]
      exact h.gone p hold
    · rw [hnext, order_accepted, if_pos rfl]
      show e.nextId ≠ k
      have hissued := h.issued
      have hid := toNat_nextId hfree hc
      rintro rfl
      omega

theorem Departed.untraded (hb : WellFormed e.orderBook) (h : Departed k e) : Untraded k e := by
  intro trade htrade
  rcases match_cases hb with ⟨-, hstep⟩ | ⟨lb, la, bid, ask, -, hbid, hask, -, hstep⟩
  · rw [hstep] at htrade
    cases htrade
  · rw [hstep] at htrade
    cases htrade
    exact ⟨h.gone bid hbid.resting, h.gone ask hask.resting⟩

/-- **What has left never trades again**, in any run that does not wrap the counter. -/
theorem states_untraded (h : Reachable e) (hissued : k.toNat ≤ e.atomicOrderID.toNat)
    (hgone : ∀ p ∈ e.orderBook.resting, (e.orderBook.order p).mOrderID ≠ k) {cs : List Call}
    (hwrap : e.atomicOrderID.toNat + machine.total idsIssued e cs < 2 ^ 64) : machine.States (Untraded k) e cs := by
  have hstates := (along_noWrap h.wellFormed hwrap).states
    (I := fun e => WellFormed e.orderBook ∧ Departed k e)
    (fun e c h hc => ⟨wellFormed_next h.1 c, departed_next h.1 h.2 hc⟩) ⟨h.wellFormed, hissued, hgone⟩
  exact hstates.mono fun e h => h.2.untraded h.1

/-- A bid is cancelled, a second one takes its slot, and an ask trades with the second. -/
theorem states_untraded_example :
    machine.States (Untraded 1) (machine.run (new 101 0) [.addOrder ⟨.bid, 5, [], 0, ⟨1000⟩⟩, .cancelOrder 1])
      [.addOrder ⟨.bid, 5, [], 0, ⟨1000⟩⟩, .addOrder ⟨.ask, 5, [], 0, ⟨1000⟩⟩, .matchLimitOrders] :=
  states_untraded ⟨0, _, rfl⟩ (by decide +kernel) (by decide +kernel) (by decide +kernel)

end MatchingEngine

end TradingSystem
