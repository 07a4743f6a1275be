import TradingSystem.Engine.Drain

/-!
# What a trade says later

A trade points at the slots of its two orders. A filled order has left its slot by the time that the caller
gets the trade, and the slot is on top of the free stack: the next order overwrites it, and the trade then shows
the price of that order. The volume and the price of the trade itself are copies and stay.
-/

namespace TradingSystem

open Lib Lib.Effects OrderBook

namespace MatchingEngine

/-- What trade `t` shows in state `e'` is what its orders were in state `e`. -/
structure Describes (e : MatchingEngine) (t : Trade) (e' : MatchingEngine) : Prop where
  askPrice : (e'.orderBook.order t.mAskOrder).getPrice = (e.orderBook.order t.mAskOrder).getPrice
  bidPrice : (e'.orderBook.order t.mBidOrder).getPrice = (e.orderBook.order t.mBidOrder).getPrice
  price : t.getPrice = widen (e.orderBook.order t.mAskOrder).getPrice.getPriceInTicks
  volume : t.getVolume = widen (min (e.orderBook.order t.mAskOrder).getVolume
    (e.orderBook.order t.mBidOrder).getVolume)

/-- `printTrade` then writes the lines that it would have written before the match. -/
theorem Describes.printTrade {e e' : MatchingEngine} {t : Trade} (h : Describes e t e') : ∃ lines,
    OrderBook.printTrade t e.orderBook = .ok lines e.orderBook ∧
      OrderBook.printTrade t e'.orderBook = .ok lines e'.orderBook := by
  refine ⟨_, rfl, ?_⟩
  rw [OrderBook.printTrade, deref_bind, deref_bind, h.askPrice, h.bidPrice]
  rfl

/-- The call writes order `o` to slot `p`: `addOrder` writes to the top slot before it looks at the price. -/
def Writes (e : MatchingEngine) (c : Call) (p : Nat) (o : Order) : Prop :=
  c = .addOrder o ∧ e.orderBook.freeStack.head? = some p

/-- What the call writes to a slot of the trade has the price that the order of the slot had. -/
def KeepsPrices (e₀ : MatchingEngine) (t : Trade) (e : MatchingEngine) (c : Call) : Prop :=
  ∀ p o, Writes e c p o → p = t.mAskOrder ∨ p = t.mBidOrder → o.getPrice = (e₀.orderBook.order p).getPrice

theorem getPrice_write {e : MatchingEngine} (hb : WellFormed e.orderBook) {c : Call} {p : Nat} {o : Order}
    (h : Writes e c p o) : ((machine.next e c).orderBook.order p).getPrice = o.getPrice := by
  obtain ⟨rfl, hp⟩ := h
  obtain ⟨rest, htop⟩ := List.head?_eq_some_iff.mp hp
  refine step_induction (c := .addOrder o) (P := fun _ e' => (e'.orderBook.order p).getPrice = o.getPrice) hb
    fun r e' h => ?_
  cases h with
  | full o hfree =>
    rw [hfree] at htop
    cases htop
  | refused o hfree =>
    rw [order_stored, if_pos (List.cons.inj (htop.symm.trans hfree)).1]
    rfl
  | accepted o hfree =>
    rw [order_accepted, if_pos (List.cons.inj (htop.symm.trans hfree)).1]
    rfl

/-- Only a write changes the price in a slot. -/
theorem getPrice_keep {e : MatchingEngine} (hb : WellFormed e.orderBook) {c : Call} {p : Nat}
    (h : ∀ o, ¬ Writes e c p o) :
    ((machine.next e c).orderBook.order p).getPrice = (e.orderBook.order p).getPrice := by
  have hother : ∀ o slot rest, c = .addOrder o → e.orderBook.freeStack = slot :: rest → p ≠ slot :=
    fun o slot rest hc hfree hp => h o ⟨hc, by rw [hfree, hp, List.head?_cons]⟩
  refine step_induction (P := fun _ e' => (e'.orderBook.order p).getPrice = (e.orderBook.order p).getPrice) hb
    fun r e' h => ?_
  cases h with
  | full | unknown | oneSided | uncrossed | missed => rfl
  | refused o hfree => rw [order_stored, if_neg (hother o _ _ rfl hfree)]
  | accepted o hfree => rw [order_accepted, if_neg (hother o _ _ rfl hfree)]
  | erased => simp
  | traded =>
    dsimp only
    rw [order_settled, order_reduced_eq]
    rfl

/-- A slot of the trade shows the right price after a step exactly when no other price was written to it. -/
theorem shows_next_iff {e : MatchingEngine} (hb : WellFormed e.orderBook) (c : Call) {p : Nat} {price : Price}
    (h : (e.orderBook.order p).getPrice = price) :
    ((machine.next e c).orderBook.order p).getPrice = price ↔ ∀ o, Writes e c p o → o.getPrice = price := by
  constructor
  · intro hshow o ho
    rw [← getPrice_write hb ho, hshow]
  · intro hsame
    by_cases hno : ∀ o, ¬ Writes e c p o
    · rw [getPrice_keep hb hno, h]
    · obtain ⟨o, ho⟩ := not_forall_not.mp hno
      rw [getPrice_write hb ho, hsame o ho]

theorem describes_next_iff {e₀ e : MatchingEngine} {t : Trade} (hb : WellFormed e.orderBook)
    (h : Describes e₀ t e) (c : Call) : Describes e₀ t (machine.next e c) ↔ KeepsPrices e₀ t e c := by
  have hask := shows_next_iff hb c h.askPrice
  have hbid := shows_next_iff hb c h.bidPrice
  constructor
  · rintro h' p o ho (rfl | rfl)
    · exact hask.mp h'.askPrice o ho
    · exact hbid.mp h'.bidPrice o ho
  · intro hkeep
    exact ⟨hask.mpr fun o ho => hkeep _ o ho (Or.inl rfl), hbid.mpr fun o ho => hkeep _ o ho (Or.inr rfl),
      h.price, h.volume⟩

/-- A match leaves the prices of its orders in their slots, those of the filled ones too. -/
theorem describes_match {e : MatchingEngine} (hb : WellFormed e.orderBook) {t : Trade}
    (ht : (e.step .matchLimitOrders).1 = .matched (.ok (some t))) :
    Describes e t (machine.next e .matchLimitOrders) := by
  rcases match_cases hb with ⟨-, hstep⟩ | ⟨lb, la, bid, ask, -, hbid, hask, -, hstep⟩
  · rw [hstep] at ht
    cases ht
  · rw [hstep] at ht
    cases ht
    have hno : ∀ p o, ¬ Writes e .matchLimitOrders p o := fun p o ho => by cases ho.1
    refine ⟨getPrice_keep hb (hno _), getPrice_keep hb (hno _), ?_, rfl⟩
    rw [price_top hb hask]
    rfl

/-- **A trade keeps describing its two orders**, along a run after the match, exactly when no order of another
price is written to their slots. -/
theorem describes_iff {e : MatchingEngine} (h : Reachable e) {t : Trade}
    (ht : (e.step .matchLimitOrders).1 = .matched (.ok (some t))) (cs : List Call) :
    machine.States (Describes e t) (machine.next e .matchLimitOrders) cs ↔
      machine.Along (KeepsPrices e t) (machine.next e .matchLimitOrders) cs := by
  have hb := h.wellFormed
  apply Machine.states_iff_along (J := fun e : MatchingEngine => WellFormed e.orderBook)
  · exact fun _ c hb => wellFormed_next hb c
  · exact fun _ c hb hdescribes => describes_next_iff hb hdescribes c
  · exact wellFormed_next hb _
  · exact describes_match hb ht

/-- The engine before a bid of 5 at 1000 and an ask of 5 at 990 trade. -/
def beforeTrade : MatchingEngine :=
  machine.run (new 101 0) [.addOrder ⟨.bid, 5, [], 0, ⟨1000⟩⟩, .addOrder ⟨.ask, 5, [], 0, ⟨990⟩⟩]

/-- Both orders are filled, and the next order, of the price of the bid, is given the slot of the bid. -/
theorem describes_example :
    machine.States (Describes beforeTrade ⟨9999, 9998, 5, 990⟩) (machine.next beforeTrade .matchLimitOrders)
      [.addOrder ⟨.ask, 7, [], 0, ⟨1000⟩⟩] := by
  refine (describes_iff ⟨0, _, rfl⟩ (by decide +kernel) _).mpr ⟨fun p o ho _ => ?_, trivial⟩
  obtain ⟨hcall, hp⟩ := ho
  cases hcall
  have htop : (machine.next beforeTrade .matchLimitOrders).orderBook.freeStack.head? = some 9999 := by
    decide +kernel
  obtain rfl := Option.some.inj (htop.symm.trans hp)
  decide +kernel

/-- The next order after the match, an ask at 1050, is given the slot of the bid: the trade then shows a bid at
1050. -/
theorem trade_overwritten :
    (beforeTrade.step .matchLimitOrders).1 = .matched (.ok (some ⟨9999, 9998, 5, 990⟩)) ∧
      ¬ Describes beforeTrade ⟨9999, 9998, 5, 990⟩
        (machine.run beforeTrade [.matchLimitOrders, .addOrder ⟨.ask, 7, [], 0, ⟨1050⟩⟩]) := by
  refine ⟨by decide +kernel, fun h => ?_⟩
  exact absurd h.bidPrice (by decide +kernel)

end MatchingEngine

end TradingSystem
