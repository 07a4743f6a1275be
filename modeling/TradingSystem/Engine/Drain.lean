import TradingSystem.Engine.Conversions

/-!
# Matching until nothing crosses

A match narrows both volumes and reduces both orders by the smaller `int`. The order that it is the
volume of keeps none of its low 32 bits, so at least this one leaves, whatever the two 64-bit volumes
are. A book with `n` resting orders is therefore uncrossed, or one-sided, after `n - 1` matches at most.
-/

namespace TradingSystem

open Lib Lib.Effects OrderBook

namespace OrderBook

variable {b : OrderBook} {lb la bid ask : Nat}

/-- Reducing a volume by what reads the same as an `int` leaves a volume that reads 0. -/
theorem getVolume_reduceVolume {o : Order} {v : UInt64} (h : v = widen o.getVolume) :
    (o.reduceVolume v).2.getVolume = 0 := by
  have hmod := toNat_widen_narrow_mod o.mVolume
  rw [Order.getVolume, MatchingEngine.reduceVolume_mVolume]
  apply narrow_sub_widen_narrow
  rw [h, Order.getVolume, toNat_min]
  rcases Nat.le_total o.mVolume.toNat (widen (narrow o.mVolume)).toNat with hle | hle
  · rw [Nat.min_eq_left hle]
  · rw [Nat.min_eq_right hle, hmod]

/-- The order whose volume is the smaller `int` is filled. -/
theorem exists_filled (hne : bid ≠ ask) : ∃ q, b.Filled bid ask q := by
  rcases Int.le_total (b.order ask).getVolume (b.order bid).getVolume with hle | hle
  · refine ⟨ask, Or.inr rfl, ?_⟩
    rw [order_reduced hne, if_pos (Or.inr rfl)]
    exact getVolume_reduceVolume (by rw [tradeVolume, Int.min_eq_left hle])
  · refine ⟨bid, Or.inl rfl, ?_⟩
    rw [order_reduced hne, if_pos (Or.inl rfl)]
    exact getVolume_reduceVolume (by rw [tradeVolume, Int.min_eq_right hle])

theorem resting_nodup (hb : WellFormed b) : b.resting.Nodup := (List.nodup_append.mp hb.nodup).1

theorem length_resting_settled (hb : WellFormed b) (hbid : b.Top .bid lb bid) (hask : b.Top .ask la ask) :
    (b.settled lb la bid ask).resting.length < b.resting.length := by
  obtain ⟨q, hq⟩ := exists_filled (b := b) (hbid.ne hb hask)
  have hresting : q ∈ b.resting := by
    rcases hq.1 with rfl | rfl
    · exact hbid.resting
    · exact hask.resting
  have hgone : q ∉ (b.settled lb la bid ask).resting := fun h =>
    ((mem_resting_settled hb hbid hask).mp h).2 hq
  have hnodup := List.nodup_cons.mpr ⟨hgone, resting_nodup (wellFormed_settled hb hbid hask)⟩
  have hsub : q :: (b.settled lb la bid ask).resting ⊆ b.resting :=
    List.cons_subset.mpr ⟨hresting, fun p hp => ((mem_resting_settled hb hbid hask).mp hp).1⟩
  exact (List.subperm_of_subset hnodup hsub).length_le

/-- Two orders rest before a match. -/
theorem two_le_length_resting (hb : WellFormed b) (hbid : b.Top .bid lb bid) (hask : b.Top .ask la ask) :
    2 ≤ b.resting.length := by
  have hnodup : [bid, ask].Nodup := by simp [hbid.ne hb hask]
  have hsub : [bid, ask] ⊆ b.resting := by simp [hbid.resting, hask.resting]
  exact (List.subperm_of_subset hnodup hsub).length_le

end OrderBook

namespace MatchingEngine

/-- No bid rests, or no ask, or the best bid is below the best ask. -/
def Uncrossed (b : OrderBook) : Prop :=
  (∃ s, ∀ l, b.queue s l = []) ∨ ∃ lb la, IsBest b .bid lb ∧ IsBest b .ask la ∧ lb < la

/-- A match changes nothing on an uncrossed book, and on another one it trades. -/
theorem match_cases {e : MatchingEngine} (hb : WellFormed e.orderBook) :
    (Uncrossed e.orderBook ∧ e.step .matchLimitOrders = (.matched (.ok none), e)) ∨
      ∃ lb la bid ask, ¬ Uncrossed e.orderBook ∧ e.orderBook.Top .bid lb bid ∧
        e.orderBook.Top .ask la ask ∧ la ≤ lb ∧ e.step .matchLimitOrders =
          (.matched (.ok (some ⟨bid, ask, e.orderBook.tradeVolume bid ask, widen (950 + la)⟩)),
            { e with orderBook := e.orderBook.settled lb la bid ask }) := by
  rcases top_or_empty hb .bid with hnone | ⟨lb, bid, hbid⟩
  · exact Or.inl ⟨Or.inl ⟨.bid, hnone⟩, (Effect.oneSided .bid hnone).step_eq hb⟩
  rcases top_or_empty hb .ask with hnone | ⟨la, ask, hask⟩
  · exact Or.inl ⟨Or.inl ⟨.ask, hnone⟩, (Effect.oneSided .ask hnone).step_eq hb⟩
  by_cases hle : la ≤ lb
  · refine Or.inr ⟨lb, la, bid, ask, ?_, hbid, hask, hle,
      (Effect.traded hbid hask hle).step_eq hb⟩
    rintro (⟨s, hnone⟩ | ⟨lb', la', hbid', hask', hlt⟩)
    · cases s with
      | bid => exact hbid.1.1 (hnone lb)
      | ask => exact hask.1.1 (hnone la)
    · rw [hbid.1.unique hbid', hask.1.unique hask'] at hle
      exact absurd hlt (Nat.not_lt.mpr hle)
  · have hlt : lb < la := Nat.lt_of_not_le hle
    exact Or.inl ⟨Or.inr ⟨lb, la, hbid.1, hask.1, hlt⟩,
      (Effect.uncrossed hbid hask hlt).step_eq hb⟩

/-- What calling `matchLimitOrders` again and again does from a state. -/
structure Draining (e : MatchingEngine) : Prop where
  drained : ∃ ts : List Trade, ts.length ≤ e.orderBook.resting.length - 1 ∧
    ∀ n, machine.outputs e (List.replicate (ts.length + n) .matchLimitOrders) =
      (ts.map fun t => .matched (.ok (some t))) ++ List.replicate n (.matched (.ok none))
  removes : ∀ t, (e.step .matchLimitOrders).1 = .matched (.ok (some t)) →
    (t.mBidOrder ∈ e.orderBook.resting ∧ t.mAskOrder ∈ e.orderBook.resting) ∧
      (t.mBidOrder ∉ (machine.next e .matchLimitOrders).orderBook.resting ∨
        t.mAskOrder ∉ (machine.next e .matchLimitOrders).orderBook.resting)
  idle : (e.step .matchLimitOrders).1 = .matched (.ok none) → machine.next e .matchLimitOrders = e
  idle_iff : (e.step .matchLimitOrders).1 = .matched (.ok none) ↔ Uncrossed e.orderBook

/-- A match lowers the number of matches that are left. -/
theorem match_progress {e : MatchingEngine} (hb : WellFormed e.orderBook) :
    machine.step e .matchLimitOrders = (.matched (.ok none), e) ∨
      (∃ t, (machine.step e .matchLimitOrders).1 = .matched (.ok (some t))) ∧
        WellFormed (machine.next e .matchLimitOrders).orderBook ∧
        (machine.next e .matchLimitOrders).orderBook.resting.length - 1 < e.orderBook.resting.length - 1 := by
  rcases match_cases hb with ⟨-, hstep⟩ | ⟨lb, la, bid, ask, -, hbid, hask, -, hstep⟩
  · exact Or.inl hstep
  · have hnext : machine.next e .matchLimitOrders =
        { e with orderBook := e.orderBook.settled lb la bid ask } := next_of_step hstep
    have hlt := length_resting_settled hb hbid hask
    have htwo := two_le_length_resting hb hbid hask
    refine Or.inr ⟨⟨_, congrArg Prod.fst hstep⟩, wellFormed_next hb _, ?_⟩
    rw [hnext]
    dsimp only
    omega

/-- **Matching drains to an uncrossed book** from every reachable state. -/
theorem draining_of_reachable {e : MatchingEngine} (h : Reachable e) : Draining e := by
  have hb := h.wellFormed
  constructor
  · exact Machine.outputs_replicate (I := fun e : MatchingEngine => WellFormed e.orderBook)
      (m := fun e => e.orderBook.resting.length - 1) (fun _ hb => match_progress hb) hb
  · intro t ht
    obtain ⟨lb, la, hbid, hask, -, -, hnext⟩ := trade_effect hb ht
    refine ⟨⟨hbid.resting, hask.resting⟩, ?_⟩
    obtain ⟨q, hfilled⟩ := exists_filled (b := e.orderBook) (hbid.ne hb hask)
    have hgone : q ∉ (e.orderBook.settled lb la t.mBidOrder t.mAskOrder).resting := fun hq =>
      ((mem_resting_settled hb hbid hask).mp hq).2 hfilled
    rw [hnext]
    rcases hfilled.1 with rfl | rfl
    · exact Or.inl hgone
    · exact Or.inr hgone
  · intro hidle
    rcases match_cases hb with ⟨-, hstep⟩ | ⟨lb, la, bid, ask, -, -, -, -, hstep⟩
    · exact next_of_step hstep
    · rw [hstep] at hidle
      cases hidle
  · rcases match_cases hb with ⟨huncrossed, hstep⟩ | ⟨lb, la, bid, ask, hcrossed, -, -, -, hstep⟩
    · exact iff_of_true (congrArg Prod.fst hstep) huncrossed
    · refine iff_of_false (fun hidle => ?_) hcrossed
      rw [hstep] at hidle
      cases hidle

/-- A bid of `2 ^ 32` and one of `2 ^ 32 - 1` against two asks. -/
theorem draining_example :
    Draining (machine.run (new 101 0) [.addOrder ⟨.bid, 4294967296, [], 0, ⟨1000⟩⟩,
      .addOrder ⟨.bid, 4294967295, [], 0, ⟨1000⟩⟩, .addOrder ⟨.ask, 5, [], 0, ⟨990⟩⟩,
      .addOrder ⟨.ask, 7, [], 0, ⟨1000⟩⟩]) :=
  draining_of_reachable ⟨0, _, rfl⟩

end MatchingEngine

end TradingSystem
