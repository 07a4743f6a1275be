import TradingSystem.Engine.Drain
import TradingSystem.Engine.Holders
import TradingSystem.System.Sessions

/-!
# The simulated traders (`SimulatedTraders.hpp`, `TraderClient::startRandomClientThread`)

A client places an order, waits, cancels it and starts over. It holds the id of its order from the moment the
engine issues it to the moment the engine has cancelled it (`Peer.held`). Where the process serves no one else, the
counter does not wrap and 10000 ids are not issued while a client holds one, the clients are holders of the engine
(`Held`): no order is refused, and what rests is held.
-/

namespace TradingSystem

open Lib Lib.Effects MatchingEngine

/-! ### Requests fit in a buffer -/

theorem Order.length_serialize_le (o : Order) : o.serialize.length ≤ 68 + o.mName.length := by
  have hvolume := length_stdToString_le o.mVolume
  have hid := length_stdToString_le o.mOrderID
  have hprice := length_stdToString_le o.mPrice.mPriceValueInCent
  have hword : o.sideWord.length ≤ 4 := by
    unfold sideWord
    split_ifs <;> decide
  simp only [serialize_eq, header, terminated_cons, terminated_nil, List.length_append,
    List.length_cons, List.length_nil]
  omega

theorem OrderRequest.length_serialize_le (r : OrderRequest) :
    r.serialize.length ≤ 96 + r.requestOrder.mName.length := by
  have hid := length_stdToString_le r.clientId
  have horder := r.requestOrder.length_serialize_le
  have hword : r.typeWord.length ≤ 6 := by
    unfold typeWord
    split_ifs <;> decide
  simp only [serialize_eq_append, terminated_cons, terminated_nil, List.length_append,
    List.length_cons, List.length_nil]
  omega

/-! ### The calls of a client -/

/-- What the clients call: an order that the book accepts and a buffer holds, or a cancel. -/
def SessionCall.Sound : SessionCall → Prop
  | .placeOrder order => (∃ l, levelOf order.mPrice = some l) ∧ comma ∉ order.mName ∧ order.mName.length ≤ 900
  | .cancelOrder _ => True

theorem SessionCall.Sound.commaFree {c : SessionCall} (h : c.Sound) : c.CommaFree := by
  cases c with
  | placeOrder order => exact h.2.1
  | cancelOrder orderId => trivial

theorem SessionCall.Sound.fits {c : SessionCall} (h : c.Sound) (id : UInt64) :
    (c.request id).serialize.length ≤ bufferSize := by
  have hlength := (c.request id).length_serialize_le
  have hname : (c.request id).requestOrder.mName.length ≤ 900 := by
    cases c with
    | placeOrder order => exact h.2.2
    | cancelOrder orderId => exact Nat.zero_le _
  rw [bufferSize]
  omega

namespace TraderClient

theorem levelOf_inRange {price : UInt64} (hlow : 950 ≤ price.toNat) (hhigh : price.toNat ≤ 1050) :
    ∃ l, levelOf (Price.ofUInt64 price) = some l := by
  refine ⟨price.toNat - 950, ?_⟩
  rw [Price.ofUInt64_eq, levelOf_eq_some]
  dsimp only
  omega

theorem levelOf_drawn (draw : Draw) : ∃ l, levelOf (Price.ofUInt64 (UInt64.ofNat draw.price)) = some l := by
  have hprice := draw.price_mem
  have hvalue : (UInt64.ofNat draw.price).toNat = draw.price := UInt64.toNat_ofNat_of_lt' (by
    rw [UInt64.size]
    omega)
  exact levelOf_inRange (by omega) (by omega)

/-- A client with no order places one, and a client with an order cancels it. -/
theorem nextCall_cases {draw : Draw} {last : Option SessionResult} {c : SessionCall}
    (h : nextCall draw last = some c) : c.Sound ∧
      ((∃ order, c = .placeOrder order ∧ (last = none ∨ ∃ text, last = some (.cancelled text))) ∨
        ∃ orderId, c = .cancelOrder orderId ∧ last = some (.placed (.ok orderId))) := by
  have hplace : ∀ side qty, (placeOrder (bytes "TSLA") side qty (UInt64.ofNat draw.price)).Sound := fun side qty =>
    ⟨levelOf_drawn draw, show comma ∉ bytes "TSLA" by decide, show (bytes "TSLA").length ≤ 900 by decide⟩
  match last, h with
  | none, h =>
    obtain rfl := Option.some.inj h
    exact ⟨hplace _ _, Or.inl ⟨_, rfl, Or.inl rfl⟩⟩
  | some (.cancelled text), h =>
    obtain rfl := Option.some.inj h
    exact ⟨hplace _ _, Or.inl ⟨_, rfl, Or.inr ⟨text, rfl⟩⟩⟩
  | some (.placed (.ok orderId)), h =>
    obtain rfl := Option.some.inj h
    exact ⟨trivial, Or.inr ⟨orderId, rfl, rfl⟩⟩

end TraderClient

/-- The id of the order that the client of a session has not cancelled yet. -/
def Peer.held (peer : Peer) : Option UInt64 :=
  match peer.pending, peer.last with
  | none, some (.placed (.ok orderId)) => some orderId
  | none, _ => none
  | some (.placeOrder _), _ => (stoull peer.toClient).toOption
  | some (.cancelOrder orderId), _ => if peer.toClient = [] then some orderId else none

theorem Peer.held_of_idle {peer : Peer} (hpending : peer.pending = none)
    (hlast : peer.last = none ∨ ∃ text, peer.last = some (.cancelled text)) : peer.held = none := by
  rcases hlast with hlast | ⟨text, hlast⟩ <;> simp only [Peer.held, hpending, hlast]

theorem Peer.held_of_placed {peer : Peer} {orderId : UInt64} (hpending : peer.pending = none)
    (hlast : peer.last = some (.placed (.ok orderId))) : peer.held = some orderId := by
  simp only [Peer.held, hpending, hlast]

theorem Peer.held_of_placing {peer : Peer} (order : Order) (hpending : peer.pending = some (.placeOrder order)) :
    peer.held = (stoull peer.toClient).toOption := by
  simp only [Peer.held, hpending]

theorem Peer.held_of_cancelling {peer : Peer} (orderId : UInt64)
    (hpending : peer.pending = some (.cancelOrder orderId)) :
    peer.held = if peer.toClient = [] then some orderId else none := by
  simp only [Peer.held, hpending]

deriving instance DecidableEq for SessionCall
deriving instance DecidableEq for System.Output

namespace System

/-- The next round of the thread of connection `i` adds an order, which gets the next id. -/
def Draws (s : System) (i : Nat) : Prop :=
  (s.peer i).toServer ≠ [] ∧ ∃ order, (s.peer i).pending = some (.placeOrder order)

/-- The process serves the simulated traders and no one else: the first `n` connections are theirs and stay open, a
read returns all that is in flight, and an id that is drawn is not one after a wrap, nor the 10000th after one that a
client holds. -/
def Simulated (n : Nat) (s : System) : Event → Prop
  | .call i c => i < n ∧ ∃ draw, TraderClient.nextCall draw (s.peer i).last = some c
  | .write _ _ | .disconnected _ _ => False
  | .serverRead i k => i < n ∧ (s.peer i).toServer.length ≤ k ∧ (s.Draws i →
      s.engine.atomicOrderID.toNat + 1 < 2 ^ 64 ∧
        ∀ j < n, ∀ orderId ∈ (s.peer j).held, s.engine.atomicOrderID.toNat + 1 < orderId.toNat + 10000)
  | .clientRead i k => i < n ∧ (s.peer i).toClient.length ≤ k
  | .matchOrders | .sendTrade | .publish => True

/-- Where a client is in its loop. -/
inductive Phase (peer : Peer) : Prop
  | idle : peer.pending = none → (peer.last = none ∨ ∃ text, peer.last = some (.cancelled text)) →
      peer.toServer = [] → peer.toClient = [] → Phase peer
  | placing (order : Order) (id : UInt64) : peer.pending = some (.placeOrder order) →
      SessionCall.Sound (.placeOrder order) → peer.toServer = (SessionCall.request id (.placeOrder order)).serialize →
      peer.toClient = [] → Phase peer
  | placed (order : Order) (orderId : UInt64) : peer.pending = some (.placeOrder order) → peer.toServer = [] →
      peer.toClient = stdToString orderId → Phase peer
  | holding (orderId : UInt64) : peer.pending = none → peer.last = some (.placed (.ok orderId)) →
      peer.toServer = [] → peer.toClient = [] → Phase peer
  | cancelling (orderId id : UInt64) : peer.pending = some (.cancelOrder orderId) →
      peer.toServer = (SessionCall.request id (.cancelOrder orderId)).serialize → peer.toClient = [] → Phase peer
  | cancelled (orderId : UInt64) : peer.pending = some (.cancelOrder orderId) → peer.toServer = [] →
      peer.toClient = bytes "Order cancelled: " ++ stdToString orderId → Phase peer

/-- The clients are in their loops, and are the holders of what rests. -/
structure Trading (n : Nat) (s : System) : Prop where
  held : Held n (fun i => (s.peer i).held) s.engine
  serving : ∀ i, (s.peer i).serving = true
  phase : ∀ i, Phase (s.peer i)
  accepted : ∀ i err, (s.peer i).last ≠ some (.placed (.error err))

section Steps

variable {n i k : Nat} {s : System}

theorem trading_start (n : Nat) (counter : UInt64) : Trading n (start (.new 101 counter)) :=
  ⟨held_new n counter, fun _ => rfl, fun _ => .idle rfl (Or.inl rfl) rfl rfl, nofun⟩

theorem held_setPeer (s : System) (i : Nat) (peer : Peer) :
    (fun j => ((s.setPeer i peer).peer j).held) = Function.update (fun j => (s.peer j).held) i peer.held := by
  funext j
  rw [setPeer_peer]
  by_cases hj : j = i
  · rw [if_pos hj, hj, Function.update_self]
  · rw [if_neg hj, Function.update_of_ne hj]

/-- A client moves on, and the engine with it. -/
theorem Trading.setPeer (h : Trading n s) {peer : Peer} {e : MatchingEngine} {held : Option UInt64}
    (hheld : Held n (Function.update (fun j => (s.peer j).held) i held) e) (hpeer : peer.held = held)
    (hserving : peer.serving = true) (hphase : Phase peer)
    (haccepted : ∀ err, peer.last ≠ some (.placed (.error err))) :
    Trading n { s.setPeer i peer with engine := e } := by
  have hcases : ∀ (P : Peer → Prop), P peer → (∀ j, P (s.peer j)) → ∀ j, P ((s.setPeer i peer).peer j) := by
    intro P hpeer hothers j
    rw [setPeer_peer]
    split_ifs
    · exact hpeer
    · exact hothers j
  refine ⟨?_, hcases (fun peer => peer.serving = true) hserving h.serving, hcases Phase hphase h.phase,
    hcases (fun peer => ∀ err, peer.last ≠ some (.placed (.error err))) haccepted h.accepted⟩
  rwa [← hpeer, ← held_setPeer] at hheld

/-- A client moves on with the id it has. -/
theorem Trading.move (h : Trading n s) {peer : Peer} (hheld : peer.held = (s.peer i).held)
    (hserving : peer.serving = (s.peer i).serving) (hphase : Phase peer)
    (haccepted : ∀ err, peer.last ≠ some (.placed (.error err))) : Trading n (s.setPeer i peer) := by
  refine h.setPeer (e := s.engine) ?_ hheld (hserving.trans (h.serving i)) hphase haccepted
  rw [Function.update_eq_self i fun j => (s.peer j).held]
  exact h.held

theorem trading_call (h : Trading n s) {c : SessionCall} (hsim : Simulated n s (.call i c)) :
    Trading n (s.call i c).2 := by
  obtain ⟨-, draw, hnext⟩ := hsim
  obtain ⟨hsound, hcase⟩ := TraderClient.nextCall_cases hnext
  unfold call
  dsimp only
  have hpeer := h.phase i
  cases hpending : (s.peer i).pending with
  | some c' => exact h
  | none =>
    rcases hcase with ⟨order, rfl, hlast⟩ | ⟨orderId, rfl, hlast⟩
    · cases hpeer with
      | idle _ _ hserver hclient =>
        refine h.move ?_ rfl (.placing order (s.peer i).nextClientId rfl hsound ?_ hclient) (h.accepted i)
        · rw [Peer.held_of_placing order rfl, Peer.held_of_idle hpending hlast, hclient]
          rfl
        · rw [hserver, List.nil_append]
      | holding orderId _ hlast' =>
        rcases hlast with hlast | ⟨text, hlast⟩ <;> rw [hlast] at hlast' <;> cases hlast'
      | placing _ _ hother | placed _ _ hother | cancelling _ _ hother | cancelled _ hother =>
        rw [hpending] at hother
        cases hother
    · cases hpeer with
      | holding orderId' _ hlast' hserver hclient =>
        refine h.move ?_ rfl (.cancelling orderId (s.peer i).nextClientId rfl ?_ hclient) (h.accepted i)
        · rw [Peer.held_of_cancelling orderId rfl, Peer.held_of_placed hpending hlast, if_pos hclient]
        · rw [hserver, List.nil_append]
      | idle _ hlast' =>
        rcases hlast' with hlast' | ⟨text, hlast'⟩ <;> rw [hlast] at hlast' <;> cases hlast'
      | placing _ _ hother | placed _ _ hother | cancelling _ _ hother | cancelled _ hother =>
        rw [hpending] at hother
        cases hother

/-- A thread that has nothing to read waits. -/
theorem serverRead_nil (hserver : (s.peer i).toServer = []) : s.serverRead i k = s :=
  serverRead_idle fun hread => hread.2 (by rw [hserver, List.take_nil])

theorem clientRead_nil (hclient : (s.peer i).toClient = []) : s.clientRead i k = ([], s) :=
  clientRead_idle (Or.inr (by rw [hclient, List.take_nil]))

/-- A thread that reads the request of a call makes the call. -/
theorem serverRead_request (h : Trading n s) {c : SessionCall} {id : UInt64} (hsound : c.Sound)
    (hserver : (s.peer i).toServer = (c.request id).serialize) (hclient : (s.peer i).toClient = [])
    (hk : (s.peer i).toServer.length ≤ k) : s.serverRead i k = { s.setPeer i { s.peer i with
      toServer := []
      toClient := TCPServer.replyText (c.request id) (s.engine.step c.call).1 } with
      engine := MatchingEngine.machine.next s.engine c.call } := by
  have hall : (s.peer i).toServer.length ≤ min k bufferSize :=
    Nat.le_min.mpr ⟨hk, by rw [hserver]; exact hsound.fits id⟩
  have htake : (s.peer i).toServer.take (min k bufferSize) = (c.request id).serialize := by
    rw [List.take_of_length_le hall, hserver]
  rw [serverRead_ok h.held.book (h.serving i) (htake ▸ OrderRequest.serialize_ne_nil _)
    (htake ▸ OrderRequest.deserialize_serialize (hsound.commaFree.request id)), SessionCall.call_request,
    List.drop_eq_nil_of_le hall, hclient, List.nil_append]

theorem trading_serverRead (h : Trading n s) (hn : n ≤ 10000) (hsim : Simulated n s (.serverRead i k)) :
    Trading n (s.serverRead i k) := by
  obtain ⟨hi, hk, hdraws⟩ := hsim
  cases h.phase i with
  | idle _ _ hserver | placed _ _ _ hserver | holding _ _ _ hserver | cancelled _ _ hserver =>
    rwa [serverRead_nil hserver]
  | placing order id hpending hsound hserver hclient =>
    obtain ⟨l, hlevel⟩ := hsound.1
    obtain ⟨hcounter, hrecent⟩ := hdraws ⟨hserver ▸ OrderRequest.serialize_ne_nil _, order, hpending⟩
    have htimely : Timely (fun j => (s.peer j).held) s.engine :=
      ⟨hcounter, fun j orderId hj => hrecent j (h.held.within j orderId hj) orderId hj⟩
    have hnone : (s.peer i).held = none := by
      rw [Peer.held_of_placing order hpending, hclient]
      rfl
    obtain ⟨hreply, hheld⟩ := h.held.add hn htimely hi hnone hlevel
    rw [serverRead_request h hsound hserver hclient hk, SessionCall.call, hreply]
    refine h.setPeer hheld ((Peer.held_of_placing order ?_).trans ?_) (h.serving i)
      (.placed order s.engine.nextId hpending rfl rfl) (h.accepted i)
    · exact hpending
    · exact congrArg Except.toOption (stoull_stdToString s.engine.nextId)
  | cancelling orderId id hpending hserver hclient =>
    have hsome : (s.peer i).held = some orderId := by
      rw [Peer.held_of_cancelling orderId hpending, if_pos hclient]
    have hreply := congrArg Prod.fst (step_cancelOrder h.held.book orderId)
    rw [serverRead_request (c := .cancelOrder orderId) h trivial hserver hclient hk, SessionCall.call, hreply]
    have hne : bytes "Order cancelled: " ++ stdToString orderId ≠ [] :=
      List.append_ne_nil_of_right_ne_nil _ (stdToString_ne_nil _)
    refine h.setPeer (h.held.cancel hsome) ((Peer.held_of_cancelling orderId ?_).trans (if_neg hne)) (h.serving i)
      (.cancelled orderId hpending rfl rfl) (h.accepted i)
    exact hpending

theorem trading_clientRead (h : Trading n s) (hsim : Simulated n s (.clientRead i k)) :
    Trading n (s.clientRead i k).2 := by
  obtain ⟨-, hk⟩ := hsim
  cases h.phase i with
  | idle _ _ _ hclient | placing _ _ _ _ _ hclient | holding _ _ _ _ hclient | cancelling _ _ _ _ hclient =>
    rwa [clientRead_nil hclient]
  | placed order orderId hpending hserver hclient =>
    have hall : (s.peer i).toClient.length ≤ min k bufferSize := by
      refine Nat.le_min.mpr ⟨hk, ?_⟩
      rw [hclient, bufferSize]
      exact (length_stdToString_le orderId).trans (by omega)
    have htake : (s.peer i).toClient.take (min k bufferSize) = stdToString orderId := by
      rw [List.take_of_length_le hall, hclient]
    have hresult : SessionCall.result (stdToString orderId) (.placeOrder order) = .placed (.ok orderId) := by
      simp only [SessionCall.result, stoull_stdToString]
    rw [clientRead_ready hpending (htake ▸ stdToString_ne_nil _), List.drop_eq_nil_of_le hall, htake, hresult]
    refine h.move ?_ rfl (.holding orderId rfl rfl hserver rfl) fun err herr => by cases herr
    rw [Peer.held_of_placed rfl rfl, Peer.held_of_placing order hpending, hclient, stoull_stdToString]
    rfl
  | cancelled orderId hpending hserver hclient =>
    have hne : bytes "Order cancelled: " ++ stdToString orderId ≠ [] :=
      List.append_ne_nil_of_right_ne_nil _ (stdToString_ne_nil _)
    have hall : (s.peer i).toClient.length ≤ min k bufferSize := by
      refine Nat.le_min.mpr ⟨hk, ?_⟩
      have hlength := length_stdToString_le orderId
      have hword : (bytes "Order cancelled: ").length = 17 := rfl
      rw [hclient, List.length_append, hword, bufferSize]
      omega
    have htake : (s.peer i).toClient.take (min k bufferSize) = bytes "Order cancelled: " ++ stdToString orderId := by
      rw [List.take_of_length_le hall, hclient]
    rw [clientRead_ready hpending (htake ▸ hne), List.drop_eq_nil_of_le hall, htake]
    refine h.move ?_ rfl (.idle rfl (Or.inr ⟨_, rfl⟩) hserver rfl) fun err herr => by cases herr
    rw [Peer.held_of_idle rfl (Or.inr ⟨_, rfl⟩), Peer.held_of_cancelling orderId hpending, hclient, if_neg hne]

theorem trading_step (h : Trading n s) (hn : n ≤ 10000) {event : Event} (hsim : Simulated n s event) :
    Trading n (s.step event).2 := by
  cases event with
  | call i c => exact trading_call h hsim
  | write i data => exact hsim.elim
  | disconnected i k => exact hsim.elim
  | serverRead i k => exact trading_serverRead h hn hsim
  | clientRead i k => exact trading_clientRead h hsim
  | matchOrders =>
    show Trading n s.matchOrders
    cases hunsent : s.unsent with
    | some trade =>
      unfold matchOrders
      rw [hunsent]
      exact h
    | none =>
      obtain ⟨trade, -, hnext⟩ := matchOrders_eq h.held.book hunsent
      rw [hnext]
      exact ⟨h.held.match, h.serving, h.phase, h.accepted⟩
  | sendTrade =>
    show Trading n s.sendTrade
    unfold sendTrade
    split
    · exact ⟨h.held, h.serving, h.phase, h.accepted⟩
    · exact h
  | publish =>
    show Trading n s.publish
    obtain ⟨publisher, feed, hpublish⟩ := publish_eq h.held.book
    rw [hpublish]
    exact ⟨h.held, h.serving, h.phase, h.accepted⟩

end Steps

/-! ### The runs -/

/-- The trade that the next match makes, if any, is one between two clients, each with the order that it holds. -/
def BetweenClients (n : Nat) (s : System) : Prop :=
  ∀ trade, (s.engine.step .matchLimitOrders).1 = .matched (.ok (some trade)) → ∃ i < n, ∃ j < n, i ≠ j ∧
    (s.peer i).held = some (s.engine.orderBook.order trade.mBidOrder).mOrderID ∧
    (s.peer j).held = some (s.engine.orderBook.order trade.mAskOrder).mOrderID

/-- Every client is served and no order of one was refused; a client has one order in the book at most, and it is
the order it holds; two clients trade with each other and none with itself; all slots are free or rest. -/
structure Orderly (n : Nat) (s : System) : Prop where
  serving : ∀ i, (s.peer i).serving = true
  accepted : ∀ i err, (s.peer i).last ≠ some (.placed (.error err))
  holder : ∀ p ∈ s.engine.orderBook.resting, ∃ i < n, (s.peer i).held = some (s.engine.orderBook.order p).mOrderID
  one : ∀ p ∈ s.engine.orderBook.resting, ∀ q ∈ s.engine.orderBook.resting,
    (s.engine.orderBook.order p).mOrderID = (s.engine.orderBook.order q).mOrderID → p = q
  unique : ∀ i j orderId, (s.peer i).held = some orderId → (s.peer j).held = some orderId → i = j
  parties : BetweenClients n s
  few : s.engine.orderBook.resting.length ≤ n
  pool : s.engine.orderBook.freeStack.length + s.engine.orderBook.resting.length = 10000

theorem Trading.betweenClients {n : Nat} {s : System} (h : Trading n s) : BetweenClients n s := by
  intro trade htrade
  rcases match_cases h.held.book with ⟨-, hstep⟩ | ⟨lb, la, bid, ask, -, hbid, hask, -, hstep⟩
  · rw [hstep] at htrade
    cases htrade
  · rw [hstep] at htrade
    cases htrade
    obtain ⟨i, hi⟩ := h.held.holder bid hbid.resting
    obtain ⟨j, hj⟩ := h.held.holder ask hask.resting
    refine ⟨i, h.held.within i _ hi, j, h.held.within j _ hj, ?_, hi, hj⟩
    -- the ids of a client's orders are the same, and two resting orders have different ids
    rintro rfl
    have hid := Option.some.inj (hi.symm.trans hj)
    exact hbid.ne h.held.book hask ((h.held.indexed bid hbid.resting).inj (h.held.indexed ask hask.resting) hid)

theorem Trading.orderly {n : Nat} {s : System} (h : Trading n s) : Orderly n s where
  serving := h.serving
  accepted := h.accepted
  holder p hp := by
    obtain ⟨i, hi⟩ := h.held.holder p hp
    exact ⟨i, h.held.within i _ hi, hi⟩
  one p hp q hq hid := (h.held.indexed p hp).inj (h.held.indexed q hq) hid
  unique := h.held.unique
  parties := h.betweenClients
  few := h.held.length_resting_le_holders
  pool := h.held.pool

/-- **The simulated traders never fill the pool**: no order of theirs is refused and none is left behind. -/
theorem orderly_of_simulated {n : Nat} (hn : n ≤ 10000) (counter : UInt64) {events : List Event}
    (halong : machine.Along (Simulated n) (start (.new 101 counter)) events) :
    machine.States (Orderly n) (start (.new 101 counter)) events :=
  (halong.states (fun _ _ hs hP => trading_step hs hn hP) (trading_start n counter)).mono fun _ hs => hs.orderly

/-- Two clients trade with each other, and the second cancels what is left of its order. -/
theorem orderly_example :
    machine.States (Orderly 2) (start (.new 101 0)) [
      .call 0 (TraderClient.placeOrder (bytes "TSLA") (bytes "BUY") 5 1000),
      .call 1 (TraderClient.placeOrder (bytes "TSLA") (bytes "SELL") 7 990),
      .serverRead 1 1024, .serverRead 0 1024, .matchOrders, .clientRead 1 1024,
      .call 1 (TraderClient.cancelOrder 1), .serverRead 1 1024] := by
  refine orderly_of_simulated (by decide) 0 ⟨⟨by decide, ⟨1, 5, 1000, by decide, by decide, by decide⟩, rfl⟩,
    ⟨by decide, ⟨0, 7, 990, by decide, by decide, by decide⟩, rfl⟩,
    ⟨by decide, by decide +kernel, fun _ => ⟨by decide +kernel, fun _ _ _ _ => Nat.lt_add_left _ ?_⟩⟩,
    ⟨by decide, by decide +kernel, fun _ => ⟨by decide +kernel, fun _ _ _ _ => Nat.lt_add_left _ ?_⟩⟩,
    trivial, ⟨by decide, by decide +kernel⟩,
    ⟨by decide, ⟨0, 7, 990, by decide, by decide, by decide⟩, by decide +kernel⟩,
    ⟨by decide, by decide +kernel, fun _ => ⟨by decide +kernel, fun _ _ _ _ => Nat.lt_add_left _ ?_⟩⟩, trivial⟩
  · decide +kernel
  · decide +kernel
  · decide +kernel

end System

end TradingSystem
