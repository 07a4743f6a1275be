import TradingSystem.Engine.Drain
import TradingSystem.Reference.Refinement

/-!
# The order that crosses

When nothing crosses, an order that is accepted is the only one that can cross the other side, and stays so until the
next order: cancels and matches only take orders away. Every trade up to the next order is therefore a trade of this
one. A bid pays the price of the asks it meets, which is its own price at most; an ask is paid the price of its level,
not that of the bids, and this is its own price if that is less than `2 ^ 32`.
-/

namespace TradingSystem

open Lib OrderBook

namespace MatchingEngine

/-- Wherever a bid and an ask cross, the one on side `s` is the order in slot `p`, at level `l`. -/
def Crosses (b : OrderBook) (s : Side) (l p : Nat) : Prop :=
  ∀ lb la bid ask, bid ∈ b.queue .bid lb → ask ∈ b.queue .ask la → la ≤ lb →
    match s with
    | .bid => bid = p ∧ lb = l
    | .ask => ask = p ∧ la = l

/-- What holds from the acceptance of an order with id `k` to the next order. -/
structure Taking (e : MatchingEngine) (s : Side) (l p : Nat) (k : UInt64) : Prop where
  book : WellFormed e.orderBook
  crosses : Crosses e.orderBook s l p
  id : (e.orderBook.order p).mOrderID = k

/-- What the trades of an order with id `k` at level `l` of side `s` are. -/
def LevelTrade (s : Side) (l : Nat) (k : UInt64) (t : TradeReport) : Prop :=
  match s with
  | .bid => t.bidId = k ∧ t.price.toNat ≤ 950 + l
  | .ask => t.askId = k ∧ t.price.toNat = 950 + l

variable {e : MatchingEngine} {s : Side} {l p : Nat} {k : UInt64}

theorem uncrossed_of_idle (hb : WellFormed e.orderBook)
    (h : (e.step .matchLimitOrders).1 = .matched (.ok none)) : Uncrossed e.orderBook := by
  rcases match_cases hb with ⟨huncrossed, -⟩ | ⟨_, _, _, _, -, -, -, -, hstep⟩
  · exact huncrossed
  · rw [hstep] at h
    cases h

theorem not_crossing (h : Uncrossed e.orderBook) {lb la bid ask : Nat} (hbid : bid ∈ e.orderBook.queue .bid lb)
    (hask : ask ∈ e.orderBook.queue .ask la) : lb < la := by
  rcases h with ⟨s, hempty⟩ | ⟨lb', la', hbest, hbest', hlt⟩
  · cases s with
    | bid =>
      rw [hempty] at hbid
      cases hbid
    | ask =>
      rw [hempty] at hask
      cases hask
  · have hlb : lb ≤ lb' := hbest.2 lb (List.ne_nil_of_mem hbid)
    have hla : la' ≤ la := hbest'.2 la (List.ne_nil_of_mem hask)
    omega

theorem taking_accepted (hb : WellFormed e.orderBook) (h : Uncrossed e.orderBook) {o : Order} {rest : List Nat}
    (hfree : e.orderBook.freeStack = p :: rest) (hlevel : levelOf o.mPrice = some l) :
    Taking (machine.next e (.addOrder o)) o.bidOrAsk l p e.nextId := by
  have hnext := (Effect.accepted o hfree hlevel).next_eq hb
  refine ⟨wellFormed_next hb _, fun lb la bid ask hbid hask hle => ?_, ?_⟩
  · have hmem : ∀ {s l' q}, q ∈ (e.accepted p o l).orderBook.queue s l' →
        q ∈ e.orderBook.queue s l' ∨ (q = p ∧ s = o.bidOrAsk ∧ l' = l) := by
      intro s l' q hq
      rw [queue_accepted hb hfree hlevel] at hq
      split_ifs at hq with hsame
      · rcases List.mem_append.mp hq with hq | hq
        · exact Or.inl hq
        · exact Or.inr ⟨List.mem_singleton.mp hq, hsame⟩
      · exact Or.inl hq
    rw [hnext] at hbid hask
    rcases hmem hbid with hold | ⟨hp, hside, hl⟩
    · rcases hmem hask with hold' | ⟨hp, hside, hl⟩
      · exact absurd hle (Nat.not_le.mpr (not_crossing h hold hold'))
      · rw [← hside]
        exact ⟨hp, hl⟩
    · rw [← hside]
      exact ⟨hp, hl⟩
  · rw [hnext, order_accepted, if_pos rfl]

/-- A cancel or a match only takes orders away. -/
theorem taking_next (h : Taking e s l p k) {c : Call} (hc : ∀ o, c ≠ .addOrder o) :
    Taking (machine.next e c) s l p k := by
  have hmem : ∀ {s l q}, q ∈ (machine.next e c).orderBook.queue s l → q ∈ e.orderBook.queue s l := by
    intro s l q hq
    rcases mem_queue_next h.book hq with hq | ⟨o, rest, hadd, -⟩
    · exact hq
    · exact absurd hadd (hc o)
  refine ⟨wellFormed_next h.book c, fun lb la bid ask hbid hask hle => h.crosses lb la bid ask (hmem hbid)
    (hmem hask) hle, ?_⟩
  refine step_induction (P := fun _ e' => (e'.orderBook.order p).mOrderID = k) h.book fun r e' heffect => ?_
  cases heffect with
  | full | refused | accepted => exact absurd rfl (hc _)
  | unknown | missed | oneSided | uncrossed => exact h.id
  | erased =>
    rw [order_dequeue]
    exact h.id
  | traded =>
    rw [order_settled, mOrderID_reduced]
    exact h.id

/-- A trade is one of the order that crosses. -/
theorem levelTrade_step (h : Taking e s l p k) (c : Call) {t : TradeReport}
    (ht : (observed.step e c).1 = .matched (.ok (some t))) : LevelTrade s l k t := by
  refine step_induction (c := c) (P := fun r e' => answer e' r = .matched (.ok (some t)) → LevelTrade s l k t) h.book
    (fun r e' heffect ht => ?_) ht
  cases heffect with
  | full | refused | accepted | unknown | missed | erased | oneSided | uncrossed => cases ht
  | @traded lb la bid ask hbid hask hle =>
    have hprice : (widen (950 + la)).toNat = 950 + la := by
      have hla := hask.1.lt h.book
      rw [toNat_widen]
      omega
    have hcrosses := h.crosses lb la bid ask hbid.mem hask.mem hle
    cases ht
    cases s with
    | bid =>
      obtain ⟨rfl, rfl⟩ := hcrosses
      constructor
      · show ((e.orderBook.settled lb la bid ask).order bid).mOrderID = k
        rw [order_settled, mOrderID_reduced, h.id]
      · show (widen (950 + la)).toNat ≤ 950 + lb
        rw [hprice]
        omega
    | ask =>
      obtain ⟨rfl, rfl⟩ := hcrosses
      constructor
      · show ((e.orderBook.settled lb la bid ask).order ask).mOrderID = k
        rw [order_settled, mOrderID_reduced, h.id]
      · exact hprice

theorem levelTrade_run (h : Taking e s l p k) {cs : List Call} (hcs : ∀ c ∈ cs, ∀ o, c ≠ .addOrder o)
    {t : TradeReport} (ht : .matched (.ok (some t)) ∈ observed.outputs e cs) : LevelTrade s l k t := by
  induction cs generalizing e with
  | nil => cases ht
  | cons c cs ih =>
    obtain ⟨hc, hrest⟩ := List.forall_mem_cons.mp hcs
    rcases List.mem_cons.mp ht with ht | ht
    · exact levelTrade_step h c ht.symm
    · exact ih (taking_next h hc) hrest ht

/-- What the trades of order `o`, accepted at level `l` with id `k`, are. -/
def TakerTrade (o : Order) (l : Nat) (k : UInt64) (t : TradeReport) : Prop :=
  match o.bidOrAsk with
  | .bid => t.bidId = k ∧ t.price.toNat ≤ 950 + l ∧ t.price ≤ o.mPrice.mPriceValueInCent
  | .ask => t.askId = k ∧ t.price.toNat = 950 + l ∧
      (o.mPrice.mPriceValueInCent.toNat < 2 ^ 32 → t.price = o.mPrice.mPriceValueInCent)

/-- The price of a level is that of its orders, or less: an order with a price of `2 ^ 32` or more may be at it. -/
theorem LevelTrade.taker {o : Order} {t : TradeReport} (hlevel : levelOf o.mPrice = some l)
    (h : LevelTrade o.bidOrAsk l k t) : TakerTrade o l k t := by
  obtain ⟨-, hprice⟩ := levelOf_eq_some.mp hlevel
  unfold TakerTrade
  cases hside : o.bidOrAsk with
  | bid =>
    rw [hside] at h
    obtain ⟨hid, hpaid⟩ := h
    refine ⟨hid, hpaid, UInt64.le_iff_toNat_le.mpr ?_⟩
    omega
  | ask =>
    rw [hside] at h
    obtain ⟨hid, hpaid⟩ := h
    refine ⟨hid, hpaid, fun hsmall => UInt64.toNat_inj.mp ?_⟩
    omega

/-- **Only the newest order trades** on a book where nothing crossed before it, however matches and cancels follow:
each trade up to the next order is one of its, a bid pays its price at most, and an ask is paid the price of its
level. -/
theorem takerTrades {e : MatchingEngine} (h : Reachable e) (huncrossed : Uncrossed e.orderBook) {o : Order} {l : Nat}
    (hfree : e.orderBook.freeStack ≠ []) (hlevel : levelOf o.mPrice = some l) {cs : List Call}
    (hcs : ∀ c ∈ cs, ∀ o', c ≠ .addOrder o') {t : TradeReport}
    (ht : .matched (.ok (some t)) ∈ observed.outputs (machine.next e (.addOrder o)) cs) :
    TakerTrade o l e.nextId t := by
  obtain ⟨p, rest, hfree⟩ := List.exists_cons_of_ne_nil hfree
  exact (levelTrade_run (taking_accepted h.wellFormed huncrossed hfree hlevel) hcs ht).taker hlevel

/-- A bid at 1010 takes an ask at 1000, and after the cancel of an unknown id one at 1005. -/
theorem takerTrades_example :
    let e := machine.run (new 101 0) [.addOrder ⟨.ask, 5, [], 0, ⟨1000⟩⟩, .addOrder ⟨.ask, 5, [], 0, ⟨1005⟩⟩]
    TakerTrade ⟨.bid, 9, [], 0, ⟨1010⟩⟩ 60 e.nextId ⟨3, 2, 4, 1005⟩ := by
  have hcs : ∀ c ∈ [Call.matchLimitOrders, .cancelOrder 7, .matchLimitOrders], ∀ o', c ≠ .addOrder o' := by simp
  exact takerTrades ⟨0, _, rfl⟩
    (uncrossed_of_idle (Reachable.wellFormed ⟨0, _, rfl⟩) (by decide +kernel)) (by decide +kernel)
    (by decide +kernel) hcs (by decide +kernel)

end MatchingEngine

end TradingSystem
