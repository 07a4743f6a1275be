import TradingSystem.Engine.Drain

/-!
# Tickers

No function of the engine reads `mName`: orders of all tickers share the queues, and two of different
tickers trade. Erasing the tickers from a state and from a call commutes with every step, so runs that
differ only in tickers give the same replies. Where every order carries one ticker, so do both sides of
every trade.
-/

namespace TradingSystem

open Lib Lib.Effects OrderBook

/-! ### Erasing the tickers -/

def Order.unnamed (o : Order) : Order := { o with mName := [] }

def OrderBook.unnamed (b : OrderBook) : OrderBook :=
  { b with mOrderPool := { b.mOrderPool with pool := fun p => (b.order p).unnamed } }

theorem Order.unnamed_reduceVolume (o : Order) (v : UInt64) :
    (o.unnamed.reduceVolume v).2 = (o.reduceVolume v).2.unnamed := by
  unfold Order.reduceVolume
  show (if o.mVolume = 0 then _ else _ : UInt64 × Order).2 =
    (if o.mVolume = 0 then _ else _ : UInt64 × Order).2.unnamed
  split_ifs <;> rfl

namespace OrderBook

variable (b : OrderBook) (s : Side) (l p : Nat) (o : Order) (k : UInt64) (loc : OrderLocation)

@[simp] theorem order_unnamed : b.unnamed.order p = (b.order p).unnamed := rfl
@[simp] theorem queue_unnamed : b.unnamed.queue s l = b.queue s l := by cases s <;> rfl
@[simp] theorem location_unnamed : b.unnamed.location k = b.location k := rfl
@[simp] theorem bitmap_unnamed : b.unnamed.bitmap s = b.bitmap s := by cases s <;> rfl
@[simp] theorem findOrder_unnamed : b.unnamed.findOrder s l k = b.findOrder s l k := by
  rw [findOrder, queue_unnamed]
  rfl

theorem unnamed_take : b.take.unnamed = b.unnamed.take := rfl

theorem unnamed_setOrder : (b.setOrder p o).unnamed = b.unnamed.setOrder p o.unnamed := by
  simp only [unnamed, setOrder, ObjectPool.write, OrderBook.mk.injEq, ObjectPool.mk.injEq, and_true]
  funext q
  simp only [order]
  split_ifs <;> rfl

theorem unnamed_enqueue : (b.enqueue s l p).unnamed = b.unnamed.enqueue s l p := by cases s <;> rfl

theorem unnamed_dequeue : (b.dequeue s l p).unnamed = b.unnamed.dequeue s l p := by cases s <;> rfl

theorem unnamed_dropFilled : (b.dropFilled s l p).unnamed = b.unnamed.dropFilled s l p := by
  unfold dropFilled
  show _ = if (b.order p).getVolume = 0 then _ else _
  split_ifs
  · exact unnamed_dequeue b s l p
  · rfl

theorem unnamed_reduced (bid ask : Nat) : (b.reduced bid ask).unnamed = b.unnamed.reduced bid ask := by
  have hvolume : b.unnamed.tradeVolume bid ask = b.tradeVolume bid ask := rfl
  simp only [reduced, unnamed_setOrder, hvolume, ← Order.unnamed_reduceVolume, ← order_unnamed]

theorem unnamed_settled (lb la bid ask : Nat) :
    (b.settled lb la bid ask).unnamed = b.unnamed.settled lb la bid ask := by
  simp only [settled, unnamed_dropFilled, unnamed_reduced]

variable {b s l p}

theorem Top.unnamed (h : b.Top s l p) : b.unnamed.Top s l p := h.congr fun l' => queue_unnamed b s l'

end OrderBook

namespace MatchingEngine

def unnamed (e : MatchingEngine) : MatchingEngine := { e with orderBook := e.orderBook.unnamed }

def Call.unnamed : Call → Call
  | .addOrder o => .addOrder o.unnamed
  | c => c

theorem unnamed_stored (e : MatchingEngine) (p : Nat) (o : Order) :
    (e.stored p o).unnamed = e.unnamed.stored p o.unnamed := by
  simp only [stored, unnamed, unnamed_setOrder, unnamed_take]
  rfl

theorem unnamed_accepted (e : MatchingEngine) (p : Nat) (o : Order) (l : Nat) :
    (e.accepted p o l).unnamed = e.unnamed.accepted p o.unnamed l := by
  have hstored : (e.stored p o).orderBook.unnamed = (e.unnamed.stored p o.unnamed).orderBook :=
    congrArg MatchingEngine.orderBook (unnamed_stored e p o)
  simp only [accepted, unnamed, unnamed_enqueue, hstored]
  rfl

/-- An outcome stays one when the tickers are erased. -/
theorem Effect.unnamed {e e' : MatchingEngine} {c : Call} {r : Reply} (h : Effect e c r e') :
    Effect e.unnamed c.unnamed r e'.unnamed := by
  cases h with
  | full o hfree => exact .full o.unnamed hfree
  | @refused o p rest hfree hlevel =>
    rw [unnamed_stored]
    exact .refused o.unnamed hfree hlevel
  | @accepted o p rest l hfree hlevel =>
    rw [unnamed_accepted]
    exact .accepted o.unnamed hfree hlevel
  | unknown orderId hvalid => exact .unknown orderId hvalid
  | missed orderId hvalid hlevel hfind =>
    exact .missed (e := e.unnamed) orderId hvalid hlevel (by simpa [MatchingEngine.unnamed] using hfind)
  | @erased orderId l p hvalid hlevel hfind =>
    simp only [MatchingEngine.unnamed, unnamed_dequeue]
    exact .erased (e := e.unnamed) orderId hvalid hlevel (by simpa [MatchingEngine.unnamed] using hfind)
  | oneSided s hnone =>
    exact .oneSided (e := e.unnamed) s fun l => by simpa [MatchingEngine.unnamed] using hnone l
  | uncrossed hbid hask hlt => exact .uncrossed (e := e.unnamed) hbid.unnamed hask.unnamed hlt
  | traded hbid hask hle =>
    simp only [MatchingEngine.unnamed, unnamed_settled]
    exact .traded (e := e.unnamed) hbid.unnamed hask.unnamed hle

theorem wellFormed_unnamed {b : OrderBook} (hb : WellFormed b) : WellFormed b.unnamed := by
  have hlevels : ∀ s, b.unnamed.priceLevel s = b.priceLevel s := fun s => by cases s <;> rfl
  constructor
  · simpa only [hlevels] using hb.levels_lo
  · simpa only [hlevels] using hb.levels_hi
  · simpa only [hlevels, bitmap_unnamed] using hb.words
  · simpa only [bitmap_unnamed, queue_unnamed] using hb.bits
  · intro s l p hp
    rw [queue_unnamed] at hp
    exact hb.filed s l p hp
  · exact hb.nodup
  · exact hb.bounded
  · intro i hi
    obtain ⟨s, l, p, hp, hlocated⟩ := hb.located i hi
    exact ⟨s, l, p, by rwa [queue_unnamed], hlocated⟩

/-- **A step and the erasure of the tickers commute.** -/
theorem step_unnamed {e : MatchingEngine} (hb : WellFormed e.orderBook) (c : Call) :
    e.unnamed.step c.unnamed = ((e.step c).1, (e.step c).2.unnamed) :=
  (step_effect hb c).unnamed.step_eq (wellFormed_unnamed hb)

theorem run_unnamed {e : MatchingEngine} (hb : WellFormed e.orderBook) (cs : List Call) :
    machine.outputs e.unnamed (cs.map Call.unnamed) = machine.outputs e cs ∧
      machine.run e.unnamed (cs.map Call.unnamed) = (machine.run e cs).unnamed := by
  induction cs generalizing e with
  | nil => exact ⟨rfl, rfl⟩
  | cons c cs ih =>
    have hstep := step_unnamed hb c
    have hnext : machine.next e.unnamed c.unnamed = (machine.next e c).unnamed := congrArg Prod.snd hstep
    obtain ⟨houtputs, hrun⟩ := ih (wellFormed_next hb c)
    have hreply : (machine.step e.unnamed c.unnamed).1 = (machine.step e c).1 := by
      show (e.unnamed.step c.unnamed).1 = (e.step c).1
      rw [hstep]
    simp only [List.map_cons, Machine.outputs, Machine.run, hnext, houtputs, hrun, hreply, true_and]

/-! ### Runs with one ticker -/

/-- Every resting order has this ticker. -/
def AllNamed (name : Bytes) (e : MatchingEngine) : Prop :=
  ∀ p ∈ e.orderBook.resting, (e.orderBook.order p).mName = name

theorem allNamed_next {name : Bytes} {e : MatchingEngine} (hb : WellFormed e.orderBook) (h : AllNamed name e)
    {c : Call} (hc : ∀ o, c = .addOrder o → o.mName = name) : AllNamed name (machine.next e c) := by
  intro p hp
  rcases mem_resting_next hb hp with hold | ⟨o, rest, l, hadd, hfree, -, hnext⟩
  · rw [order_next hb c hold]
    exact h p hold
  · rw [hnext, order_accepted, if_pos rfl]
    exact hc o hadd

theorem allNamed_run {name : Bytes} (counter : UInt64) {cs : List Call}
    (h : ∀ o, Call.addOrder o ∈ cs → o.mName = name) : AllNamed name (machine.run (new 101 counter) cs) := by
  have halong : machine.Along (fun _ c => ∀ o, c = .addOrder o → o.mName = name) (new 101 counter) cs := by
    apply Machine.Along.of_forall
    rintro c hc - o rfl
    exact h o hc
  have hboth := halong.invariant (I := fun e => WellFormed e.orderBook ∧ AllNamed name e)
    (fun e c h hc => ⟨wellFormed_next h.1 c, allNamed_next h.1 h.2 hc⟩)
    ⟨wellFormed_new counter, fun p hp => absurd hp (not_resting_new counter p)⟩
  exact hboth.2

/-! ### What tickers decide -/

/-- Tickers decide nothing in a run. -/
structure TickersIgnored (counter : UInt64) (cs : List Call) : Prop where
  replies : ∀ cs', cs'.map Call.unnamed = cs.map Call.unnamed →
    machine.outputs (new 101 counter) cs' = machine.outputs (new 101 counter) cs ∧
      (machine.run (new 101 counter) cs').unnamed = (machine.run (new 101 counter) cs).unnamed
  oneTicker : ∀ name, (∀ o, Call.addOrder o ∈ cs → o.mName = name) → ∀ t,
    ((machine.run (new 101 counter) cs).step .matchLimitOrders).1 = .matched (.ok (some t)) →
      ((machine.run (new 101 counter) cs).orderBook.order t.mBidOrder).mName =
        ((machine.run (new 101 counter) cs).orderBook.order t.mAskOrder).mName
  crossing : ∀ lb la p q, p ∈ (machine.run (new 101 counter) cs).orderBook.queue .bid lb →
    q ∈ (machine.run (new 101 counter) cs).orderBook.queue .ask la → la ≤ lb → ∃ t lb' la',
      ((machine.run (new 101 counter) cs).step .matchLimitOrders).1 = .matched (.ok (some t)) ∧
        (machine.run (new 101 counter) cs).orderBook.Top .bid lb' t.mBidOrder ∧
        (machine.run (new 101 counter) cs).orderBook.Top .ask la' t.mAskOrder

/-- A bid and an ask that cross are enough for a match of the tops. -/
theorem match_of_crossing {e : MatchingEngine} (hb : WellFormed e.orderBook) {lb la p q : Nat}
    (hp : p ∈ e.orderBook.queue .bid lb) (hq : q ∈ e.orderBook.queue .ask la) (hle : la ≤ lb) :
    ∃ t lb' la', (e.step .matchLimitOrders).1 = .matched (.ok (some t)) ∧
      e.orderBook.Top .bid lb' t.mBidOrder ∧ e.orderBook.Top .ask la' t.mAskOrder := by
  rcases match_cases hb with ⟨huncrossed, -⟩ | ⟨lb', la', bid, ask, -, hbid, hask, -, hstep⟩
  · rcases huncrossed with ⟨s, hnone⟩ | ⟨lb', la', hbid, hask, hlt⟩
    · cases s with
      | bid => exact absurd (hnone lb) (List.ne_nil_of_mem hp)
      | ask => exact absurd (hnone la) (List.ne_nil_of_mem hq)
    · have hlb : lb ≤ lb' := hbid.2 lb (List.ne_nil_of_mem hp)
      have hla : la' ≤ la := hask.2 la (List.ne_nil_of_mem hq)
      omega
  · exact ⟨_, lb', la', congrArg Prod.fst hstep, hbid, hask⟩

/-- **Tickers take no part in matching.** -/
theorem tickersIgnored (counter : UInt64) (cs : List Call) : TickersIgnored counter cs := by
  have hb : WellFormed (machine.run (new 101 counter) cs).orderBook :=
    Reachable.wellFormed ⟨counter, cs, rfl⟩
  constructor
  · intro cs' hsame
    obtain ⟨houtputs, hrun⟩ := run_unnamed (wellFormed_new counter) cs
    obtain ⟨houtputs', hrun'⟩ := run_unnamed (wellFormed_new counter) cs'
    rw [← houtputs, ← houtputs', ← hrun, ← hrun', hsame]
    exact ⟨rfl, rfl⟩
  · intro name hname t ht
    have hall := allNamed_run counter hname
    obtain ⟨lb, la, hbid, hask, -⟩ := trade_effect hb ht
    rw [hall _ hbid.resting, hall _ hask.resting]
  · exact fun lb la p q hp hq hle => match_of_crossing hb hp hq hle

/-- A bid of one ticker, then a bid and an ask of another at the same price: the first bid trades with the
ask, and the two orders of one ticker never do. -/
theorem tickers_trade_across :
    let e := machine.run (new 101 0) [.addOrder ⟨.bid, 5, [84], 0, ⟨1000⟩⟩,
      .addOrder ⟨.bid, 5, [65], 0, ⟨1000⟩⟩, .addOrder ⟨.ask, 5, [65], 0, ⟨1000⟩⟩]
    (∃ t, (e.step .matchLimitOrders).1 = .matched (.ok (some t)) ∧
      (e.orderBook.order t.mBidOrder).mName ≠ (e.orderBook.order t.mAskOrder).mName) ∧
    ((machine.next e .matchLimitOrders).step .matchLimitOrders).1 = .matched (.ok none) := by
  intro e
  have htrade : (e.step .matchLimitOrders).1 = .matched (.ok (some ⟨9999, 9997, 5, 1000⟩)) := by
    decide +kernel
  exact ⟨⟨_, htrade, by decide +kernel⟩, by decide +kernel⟩

end MatchingEngine

end TradingSystem
