import TradingSystem.Engine.Effect

/-!
# The representation invariant over whole runs

`Represented` states, in the words of the source, what a reader of `OrderBook.cpp` expects to hold
between two calls: the bitmaps, the best-level searches and the queues agree, and the defensive branches
(a stale bit, an empty queue under a set bit, a wrong order at the front) are dead. It is read off
`WellFormed`, the invariant that the proofs carry.
-/

namespace TradingSystem

open Lib Lib.Effects OrderBook

namespace MatchingEngine

/-! ### The removals inside a match -/

/-- In a match on book `b`, the removal of side `s` is called with `orderId` when the book is `b'`. -/
inductive RemovalCall (b : OrderBook) : (s : Side) → (orderId : UInt64) → (b' : OrderBook) → Prop
  | removeAsk {bid ask : Nat} {price : UInt64} {trade : Trade} {b' : OrderBook} :
      getBestAsk b = .ok ask b → getBestBid b = .ok bid b →
      widen (b.order bid).getPrice.getPriceInTicks ≥ widen (b.order ask).getPrice.getPriceInTicks →
      fillOrders bid ask price b = .ok trade b' →
      (b'.order ask).getVolume = 0 → RemovalCall b .ask (b'.order ask).getOrderId b'
  | removeBid {bid ask : Nat} {price : UInt64} {trade : Trade} {b' b'' : OrderBook} :
      getBestAsk b = .ok ask b → getBestBid b = .ok bid b →
      widen (b.order bid).getPrice.getPriceInTicks ≥ widen (b.order ask).getPrice.getPriceInTicks →
      fillOrders bid ask price b = .ok trade b' → removeFilledAsk ask b' = .ok () b'' →
      (b''.order bid).getVolume = 0 → RemovalCall b .bid (b''.order bid).getOrderId b''

/-- `removeBid` and `removeAsk` reach their last branch: there is a best level, its queue is not empty and
the order at its front is the one asked for. -/
def RemovesFront (b : OrderBook) (s : Side) (orderId : UInt64) : Prop :=
  ∃ (level p : Nat) (rest : List Nat), b.findBestLevel s = level ∧
    levelAt s level b = .ok (p :: rest) b ∧ (b.order p).getOrderId = orderId

theorem Top.removesFront {b : OrderBook} (hb : WellFormed b) {s : Side} {l p : Nat} (h : b.Top s l p) :
    RemovesFront b s (b.order p).getOrderId := by
  obtain ⟨hbest, rest, hq⟩ := h
  refine ⟨l, p, rest, hbest.findBestLevel hb, ?_, rfl⟩
  rw [levelAt_run hb s (hbest.lt hb), hq]

/-- A removal inside a match starts from a well-formed book whose top is the order to remove. -/
theorem RemovalCall.top {b b' : OrderBook} (hb : WellFormed b) {s : Side} {orderId : UInt64}
    (h : RemovalCall b s orderId b') :
    WellFormed b' ∧ ∃ l p, b'.Top s l p ∧ (b'.order p).getOrderId = orderId := by
  cases h with
  | removeAsk hask hbid hcross hfill hvolume =>
    obtain ⟨la, hask⟩ := getBest_ok hb hask
    rw [fillOrders_run] at hfill
    cases hfill
    exact ⟨wellFormed_reduced hb _ _, la, _, hask.reduced _ _, rfl⟩
  | removeBid hask hbid hcross hfill hremove hvolume =>
    obtain ⟨la, hask⟩ := getBest_ok hb hask
    obtain ⟨lb, hbid⟩ := getBest_ok hb hbid
    rw [fillOrders_run] at hfill
    cases hfill
    have hwf := wellFormed_reduced hb
    rw [removeFilledAsk_run (hwf _ _) (hask.reduced _ _)] at hremove
    cases hremove
    exact ⟨wellFormed_dropFilled (hwf _ _) (hask.reduced _ _).mem, lb, _,
      (hbid.reduced _ _).dropAsk (hwf _ _) (hask.reduced _ _), rfl⟩

/-! ### The number of levels is fixed -/

theorem size_priceLevel_settled {b : OrderBook} {lb la bid ask : Nat} (hb : WellFormed b)
    (hbid : b.Top .bid lb bid) (hask : b.Top .ask la ask) (s : Side) :
    ((b.settled lb la bid ask).priceLevel s).size = (b.priceLevel s).size := by
  apply settled_keeps (I := fun b' => (b'.priceLevel s).size = (b.priceLevel s).size) hb hbid hask
  · simp [reduced]
  · intro b' s' l p _ hI _ _
    simpa using hI

theorem size_priceLevel_next {e : MatchingEngine} (hb : WellFormed e.orderBook) (c : Call) (s : Side) :
    ((machine.next e c).orderBook.priceLevel s).size = (e.orderBook.priceLevel s).size := by
  refine step_induction (P := fun _ e' => (e'.orderBook.priceLevel s).size = (e.orderBook.priceLevel s).size)
    hb fun r e' h => ?_
  cases h with
  | full | unknown | oneSided | uncrossed => rfl
  | refused | accepted | missed | erased => simp [stored, accepted, take]
  | traded hbid hask => exact size_priceLevel_settled hb hbid hask s

theorem Reachable.size_priceLevel {e : MatchingEngine} (h : Reachable e) (s : Side) :
    (e.orderBook.priceLevel s).size = 101 := by
  obtain ⟨counter, h⟩ := h
  have hboth : WellFormed e.orderBook ∧ (e.orderBook.priceLevel s).size = 101 := by
    apply h.invariant (I := fun e => WellFormed e.orderBook ∧ (e.orderBook.priceLevel s).size = 101)
    · refine ⟨wellFormed_new counter, ?_⟩
      cases s <;> exact Array.size_replicate
    · rintro e c ⟨hb, hsize⟩
      exact ⟨wellFormed_next hb c, (size_priceLevel_next hb c s).trans hsize⟩
  exact hboth.2

/-! ### The invariant in the words of the source -/

structure Represented (e : MatchingEngine) : Prop where
  levels : ∀ s, (e.orderBook.priceLevel s).size = 101
  bit_iff : ∀ s i, (e.orderBook.bitmap s).testBit i = true ↔ e.orderBook.queue s i ≠ []
  filed : ∀ s (i : Nat), ∀ p ∈ e.orderBook.queue s i, (e.orderBook.order p).bidOrAsk = s ∧
    priceToIndex (e.orderBook.order p).mPrice e.orderBook = .ok (i : Int) e.orderBook
  /-- `findBestBidLevel` is the greatest level with a bid, or -1. -/
  bestBidLevel : (e.orderBook.findBestBidLevel = -1 ∧ ∀ i, e.orderBook.queue .bid i = []) ∨
    ∃ level : Nat, e.orderBook.findBestBidLevel = level ∧ e.orderBook.queue .bid level ≠ [] ∧
      ∀ i, e.orderBook.queue .bid i ≠ [] → i ≤ level
  /-- `findBestAskLevel` is the least level with an ask, or -1. -/
  bestAskLevel : (e.orderBook.findBestAskLevel = -1 ∧ ∀ i, e.orderBook.queue .ask i = []) ∨
    ∃ level : Nat, e.orderBook.findBestAskLevel = level ∧ e.orderBook.queue .ask level ≠ [] ∧
      ∀ i, e.orderBook.queue .ask i ≠ [] → level ≤ i
  /-- No set bit over an empty queue where `getBestBid` and `getBestAsk` look. -/
  bestQueue : ∀ s, e.orderBook.findBestLevel s = -1 ∨
    ∃ p rest, levelAt s (e.orderBook.findBestLevel s) e.orderBook = .ok (p :: rest) e.orderBook
  /-- The removals inside a match meet no stale bit and no other order. -/
  removals : ∀ s orderId b', RemovalCall e.orderBook s orderId b' → RemovesFront b' s orderId
  matching : ∃ t e', matchLimitOrders e = .ok t e'
  cancelling : ∀ orderId, ∃ e', cancelOrder orderId e = .ok () e'
  /-- `addOrder` throws for want of a slot or for the price. -/
  adding : ∀ o err e', addOrder o e = .error err e' →
    (e.orderBook.freeStack = [] ∧
        err = .runtimeError "freeStack is full: there are no objects to acquire") ∨
      (priceToIndex o.mPrice e.orderBook =
          .error (.invalidArgument "Invalid price to bid/ask") e.orderBook ∧
        err = .invalidArgument "Invalid price to bid/ask")

theorem bestQueue_of_wellFormed {b : OrderBook} (hb : WellFormed b) (s : Side) :
    b.findBestLevel s = -1 ∨ ∃ p rest, levelAt s (b.findBestLevel s) b = .ok (p :: rest) b := by
  rcases findBestLevel_spec hb s with ⟨hnone, -⟩ | ⟨l, hl, hbest⟩
  · exact Or.inl hnone
  · obtain ⟨p, rest, hq⟩ := List.exists_cons_of_ne_nil hbest.1
    refine Or.inr ⟨p, rest, ?_⟩
    rw [hl, levelAt_run hb s (hbest.lt hb), hq]

theorem matchLimitOrders_ok {e : MatchingEngine} (hb : WellFormed e.orderBook) :
    ∃ t e', matchLimitOrders e = .ok t e' := by
  rcases top_or_empty hb .bid with hnone | ⟨lb, bid, hbid⟩
  · exact ⟨_, _, onBook_ok (matchBook_empty hb hnone)⟩
  · rcases top_or_empty hb .ask with hnone | ⟨la, ask, hask⟩
    · exact ⟨_, _, onBook_ok (matchBook_empty hb hnone)⟩
    · rcases Nat.lt_or_ge lb la with hlt | hle
      · exact ⟨_, _, onBook_ok (matchBook_uncrossed hb hbid hask hlt)⟩
      · exact ⟨_, _, onBook_ok (matchBook_crossed hb hbid hask hle)⟩

theorem addOrder_error {e e' : MatchingEngine} (hb : WellFormed e.orderBook) {o : Order} {err : Exn}
    (h : addOrder o e = .error err e') :
    (e.orderBook.freeStack = [] ∧ e' = e ∧
        err = .runtimeError "freeStack is full: there are no objects to acquire") ∨
      ∃ p rest, e.orderBook.freeStack = p :: rest ∧ levelOf o.mPrice = none ∧ e' = e.stored p o ∧
        err = .invalidArgument "Invalid price to bid/ask" := by
  cases hfree : e.orderBook.freeStack with
  | nil =>
    rw [addOrder_full hfree] at h
    cases h
    exact Or.inl ⟨rfl, rfl, rfl⟩
  | cons p rest =>
    cases hlevel : levelOf o.mPrice with
    | none =>
      rw [addOrder_refused hfree hlevel] at h
      cases h
      exact Or.inr ⟨p, rest, rfl, rfl, rfl, rfl⟩
    | some l =>
      rw [addOrder_accepted hb hfree hlevel] at h
      cases h

/-- **Every reachable engine is represented as the source means it to be.** -/
theorem represented_of_reachable {e : MatchingEngine} (h : Reachable e) : Represented e := by
  have hb := h.wellFormed
  constructor
  · exact h.size_priceLevel
  · exact hb.bits
  · intro s i p hp
    obtain ⟨hside, hlevel⟩ := hb.filed s i p hp
    exact ⟨hside, priceToIndex_ok hlevel⟩
  · exact findBestLevel_spec hb .bid
  · exact findBestLevel_spec hb .ask
  · exact bestQueue_of_wellFormed hb
  · intro s orderId b' hcall
    obtain ⟨hb', l, p, htop, rfl⟩ := hcall.top hb
    exact Top.removesFront hb' htop
  · exact matchLimitOrders_ok hb
  · exact fun orderId => ⟨_, onBook_ok (removeOrderFromOrderId_run hb orderId)⟩
  · intro o err e' hthrow
    rcases addOrder_error hb hthrow with ⟨hfree, -, rfl⟩ | ⟨p, rest, hfree, hlevel, -, rfl⟩
    · exact Or.inl ⟨hfree, rfl⟩
    · refine Or.inr ⟨?_, rfl⟩
      rw [priceToIndex_run, hlevel]

/-- After a bid, a crossing ask, a refused order and a match. -/
theorem represented_example :
    Represented (machine.run (new 101 0)
      [.addOrder ⟨.bid, 5, [], 0, ⟨1000⟩⟩, .addOrder ⟨.ask, 3, [], 0, ⟨990⟩⟩,
        .addOrder ⟨.ask, 3, [], 0, ⟨7⟩⟩, .matchLimitOrders]) :=
  represented_of_reachable ⟨0, _, rfl⟩

end MatchingEngine

end TradingSystem
