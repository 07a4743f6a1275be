import TradingSystem.Engine.Drain
import TradingSystem.Network.Feed
import TradingSystem.System.Sessions

/-!
# What the process publishes

The publisher reads the book without the mutex of the engine, so the order it holds a pointer to can leave, and
its slot can be given to another order between two accesses. A price outside the limits gets into a slot in one
way: with an order that is refused, and then the slot is neither free nor in a queue, and nothing writes it again.
The accesses that follow look up a level for this price, find none, and the empty snapshot is sent. So whatever
the interleaving, no snapshot shows a price outside the limits.
-/

namespace TradingSystem

open Lib Lib.Effects OrderBook MatchingEngine

/-! ### Slots that hold a price of no level -/

/-- If the slot holds a price of no level, it is not free. -/
def Abandoned (b : OrderBook) (p : Nat) : Prop := levelOf (b.order p).mPrice = none → p ∉ b.freeStack

/-- From `b` to `b'` the slot stays abandoned, and keeps its price if this has no level. -/
structure StaysAbandoned (b b' : OrderBook) (p : Nat) : Prop where
  abandoned : Abandoned b' p
  price : levelOf (b.order p).mPrice = none → levelOf (b'.order p).mPrice = none

theorem abandoned_of_level {b : OrderBook} {p l : Nat} (h : levelOf (b.order p).mPrice = some l) : Abandoned b p :=
  fun hnone => by rw [h] at hnone; cases hnone

theorem staysAbandoned_dequeue {b b' : OrderBook} {s : Side} {l p q : Nat} (hb : WellFormed b')
    (h : StaysAbandoned b b' p) (hq : q ∈ b'.queue s l) : StaysAbandoned b (b'.dequeue s l q) p := by
  refine ⟨fun hnone => ?_, fun hnone => ?_⟩
  · rw [order_dequeue] at hnone
    rw [freeStack_dequeue, List.mem_cons, not_or]
    refine ⟨?_, h.abandoned hnone⟩
    -- a slot in a queue holds the price of its level
    rintro rfl
    rw [(hb.filed s l p hq).2] at hnone
    cases hnone
  · rw [order_dequeue]
    exact h.price hnone

/-- **One call** writes no slot that holds a price of no level. -/
theorem staysAbandoned_next {e : MatchingEngine} (hb : WellFormed e.orderBook) (c : Call) {p : Nat}
    (h : Abandoned e.orderBook p) : StaysAbandoned e.orderBook (machine.next e c).orderBook p := by
  have hself : StaysAbandoned e.orderBook e.orderBook p := ⟨h, id⟩
  refine step_induction (P := fun _ e' => StaysAbandoned e.orderBook e'.orderBook p) hb fun r e' heffect => ?_
  cases heffect with
  | full | unknown | oneSided | uncrossed => exact hself
  | missed => exact ⟨h, id⟩
  | @refused o q rest hfree hlevel =>
    have hnodup : (q :: rest).Nodup := hfree ▸ (List.nodup_append.mp hb.nodup).2.1
    have hrest : (e.stored q o).orderBook.freeStack = rest := by
      simp [stored, hfree]
    refine ⟨fun hnone => ?_, fun hnone => ?_⟩
    · rw [hrest]
      rw [order_stored] at hnone
      split_ifs at hnone with hpq
      · exact hpq ▸ (List.nodup_cons.mp hnodup).1
      · exact fun hmem => h hnone (hfree ▸ List.mem_cons_of_mem q hmem)
    · rw [order_stored]
      split_ifs
      · exact hlevel
      · exact hnone
  | @accepted o q rest l hfree hlevel =>
    have hrest : (e.accepted q o l).orderBook.freeStack = rest := by
      simp [accepted, stored, hfree]
    refine ⟨fun hnone => ?_, fun hnone => ?_⟩
    · rw [hrest]
      rw [order_accepted] at hnone
      split_ifs at hnone with hpq
      · rw [hlevel] at hnone
        cases hnone
      · exact fun hmem => h hnone (hfree ▸ List.mem_cons_of_mem q hmem)
    · rw [order_accepted, if_neg]
      · exact hnone
      · rintro rfl
        exact h hnone (hfree ▸ List.mem_cons_self)
  | erased orderId _ _ hfind => exact staysAbandoned_dequeue hb hself (findOrder_mem hfind).1
  | @traded lb la bid ask hbid hask =>
    refine settled_keeps (I := fun b => StaysAbandoned e.orderBook b p) hb hbid hask ?_
      fun b' s l q hb' hI hq _ => staysAbandoned_dequeue hb' hI hq
    have hprice : ((e.orderBook.reduced bid ask).order p).mPrice = (e.orderBook.order p).mPrice := by
      rw [order_reduced_eq]
    refine ⟨fun hnone => ?_, fun hnone => ?_⟩
    · rw [hprice] at hnone
      exact h hnone
    · rw [hprice]
      exact hnone

/-! ### The prices that the publisher reads -/

/-- A price within the limits. -/
def Quotable (price : UInt64) : Prop := 950 ≤ price.toNat ∧ price.toNat ≤ 1050

/-- A snapshot that is empty, or that shows two prices within the limits. -/
def Quotes (snapshot : MarketDataSnapshot) : Prop :=
  snapshot = .zero ∨ Quotable snapshot.bestBid ∧ Quotable snapshot.bestAsk

theorem quotable_trade {e : MatchingEngine} (hb : WellFormed e.orderBook) {trade : Trade}
    (h : (e.step .matchLimitOrders).1 = .matched (.ok (some trade))) : Quotable trade.mTradePrice := by
  rcases match_cases hb with ⟨-, hstep⟩ | ⟨lb, la, bid, ask, -, -, hask, -, hstep⟩
  · rw [hstep] at h
    cases h
  · rw [hstep] at h
    cases h
    have hla := hask.1.lt hb
    show Quotable (widen (950 + la))
    rw [Quotable, toNat_widen]
    omega

theorem quotable_ticks {price : Price} {l : Nat} (h : levelOf price = some l) :
    Quotable (widen price.getPriceInTicks) := by
  have hl := (levelOf_eq_some.mp h).1
  have hticks : (tickPrice l).toNat = 950 + l := toNat_tickPrice hl
  rw [tickPrice, ← getPriceInTicks_of_levelOf h] at hticks
  rw [Quotable, hticks]
  omega

namespace UDPServer

/-- The price that was read of a side is within the limits, or it will not be sent. -/
def Safe (b : OrderBook) : Sight → Prop
  | .unseen => True
  | .fetched p => Abandoned b p
  | .priced p price => Abandoned b p ∧ (Quotable price ∨ levelOf (b.order p).mPrice = none)
  | .summed price _ => Quotable price

variable {b : OrderBook} {s : Side} {sight sight' : Sight}

theorem safe_looks (hb : WellFormed b) (h : Safe b sight) (hlook : Looks b s sight sight') : Safe b sight' := by
  cases hlook with
  | fetch htop => exact abandoned_of_level (hb.filed s _ _ htop.mem).2
  | price p =>
    refine ⟨h, ?_⟩
    cases hlevel : levelOf (b.order p).mPrice with
    | none => exact Or.inr rfl
    | some l => exact Or.inl (quotable_ticks hlevel)
  | sum price hlevel =>
    refine h.2.resolve_right fun hnone => ?_
    rw [hlevel] at hnone
    cases hnone

theorem safe_call {e : MatchingEngine} (hb : WellFormed e.orderBook) (c : Call) (h : Safe e.orderBook sight) :
    Safe (MatchingEngine.machine.next e c).orderBook sight := by
  cases sight with
  | unseen => trivial
  | fetched p => exact (staysAbandoned_next hb c h).abandoned
  | priced p price =>
    have hstays := staysAbandoned_next hb c h.1
    exact ⟨hstays.abandoned, h.2.imp_right hstays.price⟩
  | summed price volume => exact h

/-- An iteration that will send an empty snapshot, or that is safe on both sides. -/
def SafeProgress (b : OrderBook) (progress : Progress) : Prop :=
  progress = .sent .zero ∨ ∀ s, Safe b (progress.sight s)

theorem SafeProgress.quotes {snapshot : MarketDataSnapshot} (h : SafeProgress b (.sent snapshot)) :
    Quotes snapshot := by
  rcases h with h | h
  · exact Or.inl (Progress.sent.inj h)
  · exact Or.inr ⟨h .bid, h .ask⟩

theorem safeProgress_advance (hb : WellFormed b) {progress progress' : Progress} (h : SafeProgress b progress)
    (hadvance : advance progress b = .ok progress' b) : SafeProgress b progress' := by
  rcases h with rfl | h
  · rw [advance_sent] at hadvance
    cases hadvance
    exact Or.inl rfl
  · obtain ⟨progress'', hspec, -, hcase⟩ := advance_spec hb progress
    rw [hspec] at hadvance
    cases hadvance
    refine hcase.imp_right fun hlooks s => ?_
    rcases hlooks s with hsame | hlook
    · rw [hsame]
      exact h s
    · exact safe_looks hb (h s) hlook

end UDPServer

/-! ### What is sent -/

def Message.trade? : Message → Option Trade
  | .snapshot _ => none
  | .trade t => some t

theorem Message.step_datagram (m : Message) (current : MarketDataSnapshot) :
    UDPMarketDataReceiver.machine.step current m.datagram = (.ok (), m.snapshot?.getD current) := by
  simp only [UDPMarketDataReceiver.machine, m.receive_datagram]

namespace System

/-- What `matchLimitOrders` returns to the matching loop in a step. -/
def returnedTrade (s : System) : Event → List Trade
  | .matchOrders =>
    match s.unsent, (s.engine.step .matchLimitOrders).1 with
    | none, .matched (.ok trade) => trade.toList
    | _, _ => []
  | _ => []

/-- What `matchLimitOrders` returns to the matching loop in a run. -/
def returnedTrades (s : System) : List Event → List Trade
  | [] => []
  | event :: events => s.returnedTrade event ++ returnedTrades (s.step event).2 events

/-- The messages that were sent: every trade that was returned, once and in order, but for the one that is still to
be sent, among snapshots that are empty or within the limits. The prices of the trades are within them too. -/
structure Sent (s : System) (returned : List Trade) (messages : List Message) : Prop where
  feed : s.feed = messages.map Message.datagram
  trades : messages.filterMap Message.trade? ++ s.unsent.toList = returned
  prices : ∀ trade ∈ returned, Quotable trade.mTradePrice
  snapshots : ∀ snapshot ∈ messages.filterMap Message.snapshot?, Quotes snapshot

/-- What the process has sent, and what the publisher is about to send. -/
structure Publishing (s : System) (returned : List Trade) : Prop where
  book : WellFormed s.engine.orderBook
  safe : UDPServer.SafeProgress s.engine.orderBook s.publisher
  sent : ∃ messages, Sent s returned messages

section Steps

variable {s s' : System} {returned : List Trade} {messages : List Message}

/-- A step that touches the connections only. -/
structure Aside (s s' : System) : Prop where
  publisher : s'.publisher = s.publisher
  feed : s'.feed = s.feed
  unsent : s'.unsent = s.unsent
  engine : s'.engine = s.engine

theorem Aside.refl (s : System) : Aside s s := ⟨rfl, rfl, rfl, rfl⟩

theorem aside_setPeer (s : System) (i : Nat) (peer : Peer) : Aside s (s.setPeer i peer) := ⟨rfl, rfl, rfl, rfl⟩

theorem aside_call (s : System) (i : Nat) (c : SessionCall) : Aside s (s.call i c).2 := by
  unfold call
  dsimp only
  split
  · exact .refl s
  · exact aside_setPeer s i _

theorem aside_clientRead (s : System) (i n : Nat) : Aside s (s.clientRead i n).2 := by
  unfold clientRead
  dsimp only
  split
  · split_ifs
    · exact aside_setPeer s i _
    · exact .refl s
  · exact .refl s

/-- A step of a connection: it calls the engine once at most, and publishes nothing. -/
structure Serves (s s' : System) : Prop where
  publisher : s'.publisher = s.publisher
  feed : s'.feed = s.feed
  unsent : s'.unsent = s.unsent
  engine : s'.engine = s.engine ∨ ∃ c, s'.engine = MatchingEngine.machine.next s.engine c

theorem Aside.serves (h : Aside s s') : Serves s s' := ⟨h.publisher, h.feed, h.unsent, Or.inl h.engine⟩

theorem serves_serverRead (hb : WellFormed s.engine.orderBook) (i n : Nat) : Serves s (s.serverRead i n) := by
  by_cases hread : (s.peer i).serving = true ∧ (s.peer i).toServer.take (min n bufferSize) ≠ []
  · cases hdecode : OrderRequest.deserialize ((s.peer i).toServer.take (min n bufferSize)) with
    | ok r =>
      rw [serverRead_ok hb hread.1 hread.2 hdecode]
      exact ⟨rfl, rfl, rfl, Or.inr ⟨r.call, rfl⟩⟩
    | error err =>
      rw [serverRead_error hread.1 hread.2 hdecode]
      exact (aside_setPeer s i _).serves
  · rw [serverRead_idle hread]
    exact (Aside.refl s).serves

theorem serves_disconnected (hb : WellFormed s.engine.orderBook) (i n : Nat) : Serves s (s.disconnected i n) := by
  by_cases hserving : (s.peer i).serving = true
  · rw [disconnected_eq hb hserving]
    refine ⟨rfl, rfl, rfl, ?_⟩
    rcases requested_cases s i n with hnone | ⟨c, hone⟩
    · rw [hnone]
      exact Or.inl rfl
    · rw [hone]
      exact Or.inr ⟨c, rfl⟩
  · rw [disconnected_idle hserving]
    exact (Aside.refl s).serves

theorem Publishing.serves (h : Publishing s returned) (hstep : Serves s s') : Publishing s' (returned ++ []) := by
  obtain ⟨messages, hsent⟩ := h.sent
  rw [List.append_nil]
  have hsent' : Sent s' returned messages :=
    ⟨hstep.feed.trans hsent.feed, by rw [hstep.unsent]; exact hsent.trades, hsent.prices, hsent.snapshots⟩
  rcases hstep.engine with hengine | ⟨c, hengine⟩
  · exact ⟨hengine ▸ h.book, by rw [hengine, hstep.publisher]; exact h.safe, messages, hsent'⟩
  · refine ⟨hengine ▸ wellFormed_next h.book c, ?_, messages, hsent'⟩
    rw [hengine, hstep.publisher]
    exact h.safe.imp_right fun hsafe side => UDPServer.safe_call h.book c (hsafe side)

theorem publishing_matchOrders (h : Publishing s returned) :
    Publishing s.matchOrders (returned ++ s.returnedTrade .matchOrders) := by
  obtain ⟨messages, hsent⟩ := h.sent
  cases hunsent : s.unsent with
  | some trade =>
    have hnone : s.returnedTrade .matchOrders = [] := by
      simp only [returnedTrade, hunsent]
    rw [hnone, matchOrders_unsent hunsent, List.append_nil]
    exact h
  | none =>
    obtain ⟨trade, hreply, hnext⟩ := matchOrders_eq h.book hunsent
    have hreturned : s.returnedTrade .matchOrders = trade.toList := by
      simp only [returnedTrade, hunsent, hreply]
    have htrades := hsent.trades
    rw [hunsent, Option.toList_none, List.append_nil] at htrades
    have hprices : ∀ t ∈ returned ++ trade.toList, Quotable t.mTradePrice := by
      refine List.forall_mem_append.mpr ⟨hsent.prices, fun t ht => ?_⟩
      rw [Option.mem_toList.mp ht] at hreply
      exact quotable_trade h.book hreply
    rw [hreturned, hnext]
    exact ⟨wellFormed_next h.book _, h.safe.imp_right fun hsafe side => UDPServer.safe_call h.book _ (hsafe side),
      messages, hsent.feed, congrArg (· ++ trade.toList) htrades, hprices, hsent.snapshots⟩

theorem publishing_sendTrade (h : Publishing s returned) : Publishing s.sendTrade (returned ++ []) := by
  obtain ⟨messages, hsent⟩ := h.sent
  rw [List.append_nil]
  unfold sendTrade
  split
  · next trade hunsent =>
    have htrades := hsent.trades
    rw [hunsent] at htrades
    refine ⟨h.book, h.safe, messages ++ [.trade trade], ?_, ?_, hsent.prices, ?_⟩
    · rw [hsent.feed, List.map_append]
      rfl
    · rw [List.filterMap_append, ← htrades]
      exact List.append_nil _
    · have hnone : List.filterMap Message.snapshot? [.trade trade] = [] := rfl
      rw [List.filterMap_append, hnone, List.append_nil]
      exact hsent.snapshots
  · exact h

theorem publishing_publish (h : Publishing s returned) : Publishing s.publish (returned ++ []) := by
  obtain ⟨messages, hsent⟩ := h.sent
  rw [List.append_nil]
  unfold publish
  split
  · next snapshot hpublisher =>
    have hquotes : Quotes snapshot := UDPServer.SafeProgress.quotes (hpublisher ▸ h.safe)
    refine ⟨h.book, Or.inr fun side => trivial, messages ++ [.snapshot snapshot], ?_, ?_, hsent.prices, ?_⟩
    · rw [hsent.feed, List.map_append]
      rfl
    · have hnone : List.filterMap Message.trade? [.snapshot snapshot] = [] := rfl
      rw [List.filterMap_append, hnone, List.append_nil]
      exact hsent.trades
    · rw [List.filterMap_append]
      intro snapshot' hmem
      rcases List.mem_append.mp hmem with hmem | hmem
      · exact hsent.snapshots snapshot' hmem
      · rwa [List.mem_singleton.mp hmem]
  · obtain ⟨progress', hadvance, -⟩ := UDPServer.advance_spec h.book s.publisher
    rw [onBook_ok hadvance]
    exact ⟨h.book, UDPServer.safeProgress_advance h.book h.safe hadvance, messages, hsent.feed, hsent.trades,
      hsent.prices, hsent.snapshots⟩

theorem publishing_step (h : Publishing s returned) (event : Event) :
    Publishing (s.step event).2 (returned ++ s.returnedTrade event) := by
  cases event with
  | call i c => exact h.serves (aside_call s i c).serves
  | write i data => exact h.serves (aside_setPeer s i _).serves
  | serverRead i n => exact h.serves (serves_serverRead h.book i n)
  | disconnected i n => exact h.serves (serves_disconnected h.book i n)
  | clientRead i n => exact h.serves (aside_clientRead s i n).serves
  | matchOrders => exact publishing_matchOrders h
  | sendTrade => exact publishing_sendTrade h
  | publish => exact publishing_publish h

theorem publishing_run (h : Publishing s returned) (events : List Event) :
    Publishing (machine.run s events) (returned ++ s.returnedTrades events) := by
  induction events generalizing s returned with
  | nil =>
    rw [returnedTrades, List.append_nil]
    exact h
  | cons event events ih =>
    rw [returnedTrades, ← List.append_assoc]
    exact ih (publishing_step h event)

theorem publishing_start (counter : UInt64) : Publishing (start (.new 101 counter)) [] :=
  ⟨wellFormed_new counter, Or.inr fun _ => trivial, [], rfl, rfl, nofun, nofun⟩

end Steps

/-! ### The runs -/

/-- **Trades are published exactly once and in order**, and no trade and no snapshot shows a price outside the limits,
in every interleaving of the connections, the matching loop and the publisher. -/
theorem exists_sent (counter : UInt64) (events : List Event) :
    ∃ messages, Sent (machine.run (start (.new 101 counter)) events)
      (returnedTrades (start (.new 101 counter)) events) messages :=
  (publishing_run (publishing_start counter) events).sent

/-- What a receiver makes of datagrams of messages within the limits. -/
theorem quotes_receive {messages : List Message}
    (h : ∀ snapshot ∈ messages.filterMap Message.snapshot?, Quotes snapshot) (data : List Bytes)
    (hdata : ∀ d ∈ data, d ∈ messages.map Message.datagram) {current : MarketDataSnapshot} (hcurrent : Quotes current) :
    (∀ r ∈ UDPMarketDataReceiver.machine.outputs current data, r = .ok ()) ∧
      Quotes (UDPMarketDataReceiver.machine.run current data) := by
  induction data generalizing current with
  | nil => exact ⟨nofun, hcurrent⟩
  | cons d data ih =>
    obtain ⟨hd, hrest⟩ := List.forall_mem_cons.mp hdata
    obtain ⟨m, hm, rfl⟩ := List.mem_map.mp hd
    have hnext : Quotes (m.snapshot?.getD current) := by
      cases hsnapshot : m.snapshot? with
      | none => exact hcurrent
      | some snapshot => exact h snapshot (List.mem_filterMap.mpr ⟨m, hm, hsnapshot⟩)
    obtain ⟨houtputs, hrun⟩ := ih hrest hnext
    rw [Machine.outputs, Machine.run, Machine.next, m.step_datagram]
    exact ⟨List.forall_mem_cons.mpr ⟨rfl, houtputs⟩, hrun⟩

/-- **A client is never shown a price outside the limits**: whatever part of the feed reaches its receiver, in
whatever order, no round throws and the stored snapshot is empty or within the limits. -/
theorem received_quotes (counter : UInt64) (events : List Event) (data : List Bytes)
    (hdata : ∀ d ∈ data, d ∈ (machine.run (start (.new 101 counter)) events).feed) :
    (∀ r ∈ UDPMarketDataReceiver.machine.outputs .zero data, r = .ok ()) ∧
      Quotes (UDPMarketDataReceiver.machine.run .zero data) := by
  obtain ⟨messages, hsent⟩ := (publishing_run (publishing_start counter) events).sent
  rw [hsent.feed] at hdata
  exact quotes_receive hsent.snapshots data hdata (Or.inl rfl)

/-- Two orders rest, and the receiver gets the snapshot of both. -/
theorem received_quotes_example :
    let events : List Event := [.call 0 (.placeOrder ⟨.bid, 5, bytes "TSLA", 0, ⟨1000⟩⟩),
      .call 1 (.placeOrder ⟨.ask, 5, bytes "TSLA", 0, ⟨1010⟩⟩), .serverRead 0 1024, .serverRead 1 1024,
      .publish, .publish, .publish, .publish, .publish, .publish, .publish]
    (∀ r ∈ UDPMarketDataReceiver.machine.outputs .zero [bytes "1000,1010,5,5"], r = .ok ()) ∧
      Quotes (UDPMarketDataReceiver.machine.run .zero [bytes "1000,1010,5,5"]) ∧
      (machine.run (start (.new 101 0)) events).feed = [bytes "1000,1010,5,5"] := by
  intro events
  have hfeed : (machine.run (start (.new 101 0)) events).feed = [bytes "1000,1010,5,5"] := by decide +kernel
  obtain ⟨houtputs, hrun⟩ := received_quotes 0 events [bytes "1000,1010,5,5"] fun d hd => by rwa [hfeed]
  exact ⟨houtputs, hrun, hfeed⟩

end System

end TradingSystem
