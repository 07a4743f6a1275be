import TradingSystem.Engine.Representation

/-!
# Where 64-bit values pass through an `int`

A volume is narrowed to an `int` by `GetVolume` and again inside `reduceVolume`, a price by
`priceToIndex` and `getPriceInTicks`. The first half says for which volumes a match is exact, the second
for which prices the limits of the book are honoured.
-/

namespace TradingSystem

open Lib Lib.Effects OrderBook

namespace MatchingEngine

/-! ### Volumes -/

/-- The volumes that the conversions do no harm: both small, both within `2 ^ 31` of `2 ^ 64`, or the larger
one small again, and still the larger, in its low 32 bits. -/
def ExactVolumes (vb va : UInt64) : Prop :=
  (max vb va).toNat < 2 ^ 31 ∨ 2 ^ 64 - 2 ^ 31 ≤ (min vb va).toNat ∨
    ((min vb va).toNat < (max vb va).toNat % 2 ^ 32 ∧ (max vb va).toNat % 2 ^ 32 < 2 ^ 31)

instance (vb va : UInt64) : Decidable (ExactVolumes vb va) := inferInstanceAs (Decidable (_ ∨ _ ∨ _))

/-- The volume of a trade is right when the smaller volume is an `int` and the larger one does not read as
something smaller. -/
theorem widen_min_narrow_iff (x y : UInt64) : widen (min (narrow x) (narrow y)) = min x y ↔
    2 ^ 64 - 2 ^ 31 ≤ (min x y).toNat ∨
      ((min x y).toNat ≤ (max x y).toNat % 2 ^ 32 ∧ (max x y).toNat % 2 ^ 32 < 2 ^ 31) := by
  have hx := x.toNat_lt
  have hy := y.toNat_lt
  rw [← UInt64.toNat_inj, toNat_widen, toNat_min, toNat_max, narrow_eq, narrow_eq]
  split_ifs <;> omega

theorem reduceVolume_mVolume (o : Order) (v : UInt64) :
    (o.reduceVolume v).2.mVolume = o.mVolume - widen (narrow (min o.mVolume v)) := by
  unfold Order.reduceVolume
  split_ifs with hzero
  · rw [hzero]
    have hmin : min 0 v = (0 : UInt64) := by
      rw [← UInt64.toNat_inj, toNat_min]
      simp
    rw [hmin]
    rfl
  · rfl

/-- A reduction by no more than the volume is exact when the reduction is an `int`. -/
theorem reduceVolume_exact {o : Order} {v : UInt64} (hle : v ≤ o.mVolume)
    (hv : v.toNat < 2 ^ 31 ∨ 2 ^ 64 - 2 ^ 31 ≤ v.toNat) : (o.reduceVolume v).2.mVolume = o.mVolume - v := by
  have hmin : min o.mVolume v = v := by
    rw [UInt64.le_iff_toNat_le] at hle
    rw [← UInt64.toNat_inj, toNat_min]
    omega
  have hround : widen (narrow v) = v := by
    have hlt := v.toNat_lt
    rw [← UInt64.toNat_inj, toNat_widen, narrow_eq]
    split_ifs <;> omega
  rw [reduceVolume_mVolume, hmin, hround]

/-- What a match of the two orders should do with their volumes. -/
structure ExactMatch (e : MatchingEngine) (bid ask : Nat) : Prop where
  trade : ∃ price, (e.step .matchLimitOrders).1 = .matched (.ok (some ⟨bid, ask,
    min (e.orderBook.order bid).mVolume (e.orderBook.order ask).mVolume, price⟩))
  bidVolume : ((e.step .matchLimitOrders).2.orderBook.order bid).mVolume =
    (e.orderBook.order bid).mVolume - min (e.orderBook.order bid).mVolume (e.orderBook.order ask).mVolume
  askVolume : ((e.step .matchLimitOrders).2.orderBook.order ask).mVolume =
    (e.orderBook.order ask).mVolume - min (e.orderBook.order bid).mVolume (e.orderBook.order ask).mVolume
  bidLeaves : bid ∉ (e.step .matchLimitOrders).2.orderBook.resting ↔
    ((e.step .matchLimitOrders).2.orderBook.order bid).mVolume = 0
  askLeaves : ask ∉ (e.step .matchLimitOrders).2.orderBook.resting ↔
    ((e.step .matchLimitOrders).2.orderBook.order ask).mVolume = 0

/-- Whether a volume left over reads 0 exactly when it is 0. -/
theorem narrow_sub_eq_zero_iff {x v : UInt64} (hle : v ≤ x) :
    (narrow (x - v) = 0 ↔ x - v = 0) ↔ ((x.toNat - v.toNat) % 2 ^ 32 = 0 → x.toNat = v.toNat) := by
  have hsub : (x - v).toNat = x.toNat - v.toNat := UInt64.toNat_sub_of_le _ _ hle
  rw [UInt64.le_iff_toNat_le] at hle
  rw [narrow_eq_zero_iff, hsub, ← UInt64.toNat_inj, hsub]
  constructor
  · intro h hmod
    have := h.mp hmod
    simp at this
    omega
  · intro h
    simp
    omega

theorem min_le (x y : UInt64) : min x y ≤ x ∧ min x y ≤ y := by
  rw [UInt64.le_iff_toNat_le, UInt64.le_iff_toNat_le, toNat_min]
  omega

/-- The trade volume is right and both volumes left over read 0 only when they are 0: in numbers. -/
theorem exactVolumes_iff (vb va : UInt64) : ExactVolumes vb va ↔
    widen (min (narrow va) (narrow vb)) = min vb va ∧
      (narrow (vb - min vb va) = 0 ↔ vb - min vb va = 0) ∧
      (narrow (va - min vb va) = 0 ↔ va - min vb va = 0) := by
  have hb := vb.toNat_lt
  have ha := va.toNat_lt
  rw [min_comm (narrow va), widen_min_narrow_iff, narrow_sub_eq_zero_iff (min_le vb va).1,
    narrow_sub_eq_zero_iff (min_le vb va).2, ExactVolumes, toNat_min, toNat_max]
  rcases Nat.le_total vb.toNat va.toNat with hle | hle
  · rw [Nat.min_eq_left hle, Nat.max_eq_right hle]
    omega
  · rw [Nat.min_eq_right hle, Nat.max_eq_left hle]
    omega

/-- One of the two orders leaves when its volume reads 0. -/
theorem not_mem_resting_settled {b : OrderBook} (hb : WellFormed b) {lb la bid ask q : Nat}
    (hbid : b.Top .bid lb bid) (hask : b.Top .ask la ask) (hq : q = bid ∨ q = ask) :
    q ∉ (b.settled lb la bid ask).resting ↔
      narrow ((b.settled lb la bid ask).order q).mVolume = 0 := by
  have hresting : q ∈ b.resting := by
    rcases hq with rfl | rfl
    · exact hbid.resting
    · exact hask.resting
  rw [mem_resting_settled hb hbid hask, order_settled]
  constructor
  · intro h
    by_contra hv
    exact h ⟨hresting, fun hfilled => hv hfilled.2⟩
  · intro hv h
    exact h.2 ⟨hq, hv⟩

/-- A trade of the smaller volume leaves the differences. -/
theorem mVolume_settled_of_min {b : OrderBook} {bid ask q : Nat} (lb la : Nat) (hne : bid ≠ ask)
    (hq : q = bid ∨ q = ask)
    (htrade : b.tradeVolume bid ask = min (b.order bid).mVolume (b.order ask).mVolume) :
    ((b.settled lb la bid ask).order q).mVolume =
      (b.order q).mVolume - min (b.order bid).mVolume (b.order ask).mVolume := by
  have hsmall := (widen_min_narrow_iff (b.order bid).mVolume (b.order ask).mVolume).mp
    (by rw [min_comm (narrow _)]; exact htrade)
  have hint : (min (b.order bid).mVolume (b.order ask).mVolume).toNat < 2 ^ 31 ∨
      2 ^ 64 - 2 ^ 31 ≤ (min (b.order bid).mVolume (b.order ask).mVolume).toNat := by
    omega
  have hle : min (b.order bid).mVolume (b.order ask).mVolume ≤ (b.order q).mVolume := by
    rcases hq with rfl | rfl
    · exact (min_le _ _).1
    · exact (min_le _ _).2
  rw [order_settled, order_reduced hne, if_pos hq, htrade, reduceVolume_exact hle hint]

/-- **A match is exact exactly for these volumes.** -/
theorem exactMatch_iff {e : MatchingEngine} (h : Reachable e) {bid ask : Nat}
    (hbid : getBestBid e.orderBook = .ok bid e.orderBook) (hask : getBestAsk e.orderBook = .ok ask e.orderBook)
    (hcross : (e.orderBook.order bid).getPrice.getPriceInTicks ≥
      (e.orderBook.order ask).getPrice.getPriceInTicks) :
    ExactMatch e bid ask ↔ ExactVolumes (e.orderBook.order bid).mVolume (e.orderBook.order ask).mVolume := by
  have hb := h.wellFormed
  obtain ⟨lb, hbid⟩ := getBest_ok hb hbid
  obtain ⟨la, hask⟩ := getBest_ok hb hask
  have hle : la ≤ lb := by
    rw [price_top hb hbid, price_top hb hask] at hcross
    omega
  have hstep := (Effect.traded hbid hask hle).step_eq hb
  have hne := hbid.ne hb hask
  have hbidLeaves := not_mem_resting_settled hb hbid hask (Or.inl rfl)
  have haskLeaves := not_mem_resting_settled hb hbid hask (Or.inr rfl)
  rw [exactVolumes_iff]
  constructor
  · rintro ⟨⟨price, htrade⟩, hbidVolume, haskVolume, hbidOut, haskOut⟩
    rw [hstep] at htrade hbidVolume haskVolume hbidOut haskOut
    simp only [Reply.matched.injEq, Except.ok.injEq, Option.some.injEq, Trade.mk.injEq] at htrade
    dsimp only at hbidVolume haskVolume hbidOut haskOut
    rw [hbidLeaves, hbidVolume] at hbidOut
    rw [haskLeaves, haskVolume] at haskOut
    exact ⟨htrade.2.2.1, hbidOut, haskOut⟩
  · rintro ⟨htrade, hbidZero, haskZero⟩
    have hbidVolume := mVolume_settled_of_min lb la hne (Or.inl rfl) htrade
    have haskVolume := mVolume_settled_of_min lb la hne (Or.inr rfl) htrade
    constructor <;> rw [hstep]
    · exact ⟨_, by rw [← htrade]; rfl⟩
    · exact hbidVolume
    · exact haskVolume
    · exact hbidLeaves.trans (by rw [hbidVolume]; exact hbidZero)
    · exact haskLeaves.trans (by rw [haskVolume]; exact haskZero)

/-- A bid of 5 and an ask of 3 at one price. -/
theorem exactMatch_example : ∃ e, Reachable e ∧ ExactMatch e 9999 9998 := by
  have hreach : Reachable (machine.run (new 101 0)
      [.addOrder ⟨.bid, 5, [], 0, ⟨1000⟩⟩, .addOrder ⟨.ask, 3, [], 0, ⟨1000⟩⟩]) := ⟨0, _, rfl⟩
  have hb := hreach.wellFormed
  have hbid := top_of_findBestLevel hb (s := .bid) (l := 50) (p := 9999)
    (by decide +kernel) (by decide +kernel)
  have hask := top_of_findBestLevel hb (s := .ask) (l := 50) (p := 9998)
    (by decide +kernel) (by decide +kernel)
  exact ⟨_, hreach, (exactMatch_iff hreach (getBestBid_top hb hbid) (getBestAsk_top hb hask)
    (by decide +kernel)).mpr (by decide +kernel)⟩

/-- A bid of `2 ^ 32` against an ask of 5: nothing is traded and the whole bid leaves. -/
theorem wide_bid_vanishes :
    let e := machine.run (new 101 0)
      [.addOrder ⟨.bid, 4294967296, [], 0, ⟨1000⟩⟩, .addOrder ⟨.ask, 5, [], 0, ⟨1000⟩⟩]
    (e.step .matchLimitOrders).1 = .matched (.ok (some ⟨9999, 9998, 0, 1000⟩)) ∧
      (e.step .matchLimitOrders).2.orderBook.resting = [9998] ∧
      ((e.step .matchLimitOrders).2.orderBook.order 9999).mVolume = 4294967296 ∧ ¬ ExactMatch e 9999 9998 := by
  intro e
  have htrade : (e.step .matchLimitOrders).1 = .matched (.ok (some ⟨9999, 9998, 0, 1000⟩)) := by
    decide +kernel
  refine ⟨htrade, by decide +kernel, by decide +kernel, fun h => ?_⟩
  obtain ⟨price, hexact⟩ := h.trade
  rw [htrade] at hexact
  simp only [Reply.matched.injEq, Except.ok.injEq, Option.some.injEq, Trade.mk.injEq] at hexact
  exact absurd hexact.2.2.1 (by decide +kernel)

/-! ### Prices -/

/-- The prices that the conversion to `int` does no harm. -/
def ExactPrice (price : Price) : Prop :=
  price.mPriceValueInCent.toNat < 2 ^ 32 ∨
    ¬ (950 ≤ price.mPriceValueInCent.toNat % 2 ^ 32 ∧ price.mPriceValueInCent.toNat % 2 ^ 32 ≤ 1050)

instance (price : Price) : Decidable (ExactPrice price) := inferInstanceAs (Decidable (_ ∨ _))

/-- `addOrder` accepts the prices from 950 to 1050, each at its own level. -/
structure LimitsKept (e : MatchingEngine) (o : Order) : Prop where
  accepts : (∃ k e', addOrder o e = .ok k e') ↔
    950 ≤ o.mPrice.mPriceValueInCent.toNat ∧ o.mPrice.mPriceValueInCent.toNat ≤ 1050
  rests : ∀ k e', addOrder o e = .ok k e' → ∃ slot,
    e'.orderBook.queue o.bidOrAsk (o.mPrice.mPriceValueInCent.toNat - 950) =
      e.orderBook.queue o.bidOrAsk (o.mPrice.mPriceValueInCent.toNat - 950) ++ [slot] ∧
    e'.orderBook.order slot = { o with mOrderID := k }

/-- A trade is at a price between the 64-bit prices of its ask and its bid. -/
def TradesWithinPrices (e : MatchingEngine) : Prop :=
  ∀ t, (e.step .matchLimitOrders).1 = .matched (.ok (some t)) →
    (e.orderBook.order t.mAskOrder).mPrice.mPriceValueInCent ≤ t.mTradePrice ∧
      t.mTradePrice ≤ (e.orderBook.order t.mBidOrder).mPrice.mPriceValueInCent

/-- A price without a level is refused, and it is outside the range. -/
theorem limitsKept_of_refused {e : MatchingEngine} {p : Nat} {rest : List Nat}
    (hfree : e.orderBook.freeStack = p :: rest) {o : Order} (hlevel : levelOf o.mPrice = none) :
    LimitsKept e o := by
  have hthrow := addOrder_refused hfree hlevel
  have hout := levelOf_eq_none.mp hlevel
  constructor
  · rw [hthrow]
    refine ⟨?_, fun hin => ?_⟩
    · rintro ⟨k, e', h⟩
      cases h
    · omega
  · intro k e' h
    rw [hthrow] at h
    cases h

/-- An order in a queue is right when it is the queue of its price. -/
theorem limitsKept_iff_of_accepted {e : MatchingEngine} (hb : WellFormed e.orderBook) {p : Nat}
    {rest : List Nat} (hfree : e.orderBook.freeStack = p :: rest) {o : Order} {l : Nat}
    (hlevel : levelOf o.mPrice = some l) :
    LimitsKept e o ↔ o.mPrice.mPriceValueInCent.toNat = 950 + l := by
  have hok := addOrder_accepted hb hfree hlevel
  obtain ⟨hl, hmod⟩ := levelOf_eq_some.mp hlevel
  constructor
  · intro h
    have hin := h.accepts.mp ⟨_, _, hok⟩
    omega
  · intro hval
    constructor
    · exact ⟨fun _ => by omega, fun _ => ⟨_, _, hok⟩⟩
    · intro k e' h
      rw [hok] at h
      cases h
      have hsub : o.mPrice.mPriceValueInCent.toNat - 950 = l := by omega
      refine ⟨p, ?_, ?_⟩
      · rw [hsub, queue_accepted hb hfree hlevel, if_pos ⟨rfl, rfl⟩]
      · rw [order_accepted, if_pos rfl]

theorem limitsKept_iff {e : MatchingEngine} (hb : WellFormed e.orderBook) {o : Order}
    (hfree : e.orderBook.freeStack ≠ []) : LimitsKept e o ↔ ExactPrice o.mPrice := by
  obtain ⟨p, rest, hfree⟩ := List.exists_cons_of_ne_nil hfree
  unfold ExactPrice
  cases hlevel : levelOf o.mPrice with
  | none =>
    have hout := levelOf_eq_none.mp hlevel
    exact iff_of_true (limitsKept_of_refused hfree hlevel) (Or.inr (by omega))
  | some l =>
    obtain ⟨hl, hmod⟩ := levelOf_eq_some.mp hlevel
    rw [limitsKept_iff_of_accepted hb hfree hlevel]
    omega

/-- The bid's price is never below the price of a trade; the ask's is never above when it has 32 bits. -/
theorem tradesWithinPrices_of_resting {e : MatchingEngine} (hb : WellFormed e.orderBook)
    (h : ∀ p ∈ e.orderBook.resting, (e.orderBook.order p).mPrice.mPriceValueInCent.toNat < 2 ^ 32) :
    TradesWithinPrices e := by
  intro t ht
  obtain ⟨lb, la, hbid, hask, hle, hprice, -⟩ := trade_effect hb ht
  obtain ⟨hlb, hbidPrice⟩ := levelOf_eq_some.mp (hb.filed _ _ _ hbid.mem).2
  obtain ⟨hla, haskPrice⟩ := levelOf_eq_some.mp (hb.filed _ _ _ hask.mem).2
  have haskLt := h t.mAskOrder hask.resting
  rw [UInt64.le_iff_toNat_le, UInt64.le_iff_toNat_le, hprice]
  omega

/-- The submitted price of every call is exact. -/
def SubmitsExactPrice (_ : MatchingEngine) (c : Call) : Prop := ∀ o, c = .addOrder o → ExactPrice o.mPrice

/-- **The limits are kept exactly for these prices**, and a run that submits no others trades within the
prices of its orders. -/
theorem limits_kept_iff (counter : UInt64) (cs : List Call) :
    (∀ o, (machine.run (new 101 counter) cs).orderBook.freeStack ≠ [] →
        (LimitsKept (machine.run (new 101 counter) cs) o ↔ ExactPrice o.mPrice)) ∧
      (machine.Along SubmitsExactPrice (new 101 counter) cs →
        machine.States TradesWithinPrices (new 101 counter) cs) := by
  have hb : WellFormed (machine.run (new 101 counter) cs).orderBook :=
    Reachable.wellFormed ⟨counter, cs, rfl⟩
  refine ⟨fun o hfree => limitsKept_iff hb hfree, fun hrun => ?_⟩
  have hstates := hrun.states (I := fun e => WellFormed e.orderBook ∧
      ∀ p ∈ e.orderBook.resting, (e.orderBook.order p).mPrice.mPriceValueInCent.toNat < 2 ^ 32) ?_ ?_
  · exact hstates.mono fun e h => tradesWithinPrices_of_resting h.1 h.2
  · rintro e c ⟨hb, hprices⟩ hsubmit
    refine ⟨wellFormed_next hb c, fun p hp => ?_⟩
    rcases mem_resting_next hb hp with hold | ⟨o, rest, l, rfl, hfree, hlevel, hnext⟩
    · rw [order_next hb c hold]
      exact hprices p hold
    · obtain ⟨hl, hmod⟩ := levelOf_eq_some.mp hlevel
      have hexact := hsubmit o rfl
      rw [hnext, order_accepted, if_pos rfl]
      rcases hexact with hlt | hout
      · exact hlt
      · omega
  · exact ⟨wellFormed_new counter, fun p hp => absurd hp (not_resting_new counter p)⟩

/-- After a bid and an ask at 1000, every further order is judged by its price alone, and the trades of the
run were within the prices. -/
theorem limits_kept_example :
    (∃ e, Reachable e ∧ LimitsKept e ⟨.bid, 5, [], 0, ⟨950⟩⟩) ∧
      machine.States TradesWithinPrices (new 101 0)
        [.addOrder ⟨.bid, 5, [], 0, ⟨1000⟩⟩, .addOrder ⟨.ask, 5, [], 0, ⟨1000⟩⟩, .matchLimitOrders] := by
  have h := limits_kept_iff 0
    [.addOrder ⟨.bid, 5, [], 0, ⟨1000⟩⟩, .addOrder ⟨.ask, 5, [], 0, ⟨1000⟩⟩, .matchLimitOrders]
  refine ⟨⟨_, ⟨0, _, rfl⟩, (h.1 _ (by decide +kernel)).mpr (by decide +kernel)⟩, h.2 ?_⟩
  refine ⟨?_, ?_, ?_, trivial⟩
  · rintro o ⟨⟩
    decide
  · rintro o ⟨⟩
    decide
  · rintro o ⟨⟩

/-- An ask at `2 ^ 32 + 1000` is accepted, and sold at 1000. -/
theorem ask_sold_below_its_price :
    let e := machine.run (new 101 0)
      [.addOrder ⟨.ask, 5, [], 0, ⟨4294968296⟩⟩, .addOrder ⟨.bid, 5, [], 0, ⟨1000⟩⟩]
    ¬ LimitsKept (new 101 0) ⟨.ask, 5, [], 0, ⟨4294968296⟩⟩ ∧
      (e.step .matchLimitOrders).1 = .matched (.ok (some ⟨9998, 9999, 5, 1000⟩)) ∧
      (e.orderBook.order 9999).mPrice = ⟨4294968296⟩ ∧ ¬ TradesWithinPrices e := by
  intro e
  have htrade : (e.step .matchLimitOrders).1 = .matched (.ok (some ⟨9998, 9999, 5, 1000⟩)) := by
    decide +kernel
  refine ⟨?_, htrade, by decide +kernel, fun h => ?_⟩
  · rw [limitsKept_iff (wellFormed_new 0) (by decide +kernel)]
    decide
  · exact absurd (h _ htrade).1 (by decide +kernel)

end MatchingEngine

end TradingSystem
