import TradingSystem.Engine.Departures
import TradingSystem.System.Quotes
import TradingSystem.System.Traders

/-!
# A cancel is final

The reply to a cancel is the same whether the order rested or not. What it tells a simulated trader is about the time
that follows: when the reply is written no order rests under the id, and the id is not issued again. The trade that
the matching loop has found may still be on its way to the feed, but no trade is found after the cancel has returned.
-/

namespace TradingSystem

open Lib MatchingEngine

theorem MatchingEngine.Held.departed {n i : Nat} {held : Nat → Option UInt64} {e : MatchingEngine} {k : UInt64}
    (h : Held n held e) (hi : held i = some k) : Departed k (MatchingEngine.machine.next e (.cancelOrder k)) := by
  have hc : ∀ o, Call.cancelOrder k ≠ .addOrder o := fun o ho => by cases ho
  constructor
  · rw [atomicOrderID_of_not_add h.book hc]
    exact h.issued i k hi
  · intro p hp hid
    obtain ⟨j, hj⟩ := (h.cancel hi).holder p hp
    rw [hid] at hj
    by_cases hji : j = i
    · rw [hji, Function.update_self] at hj
      cases hj
    · rw [Function.update_of_ne hji] at hj
      exact hji (h.unique j i k hj hi)

/-- The id whose cancel was answered, until the session reads the answer. -/
def Peer.answered (peer : Peer) : Option UInt64 :=
  match peer.pending with
  | some (.cancelOrder orderId) => if peer.toClient = [] then none else some orderId
  | _ => none

theorem Peer.of_answered {peer : Peer} {k : UInt64} (h : peer.answered = some k) :
    peer.pending = some (.cancelOrder k) ∧ peer.toClient ≠ [] := by
  unfold answered at h
  split at h
  · next orderId hpending =>
    split_ifs at h with hclient
    rw [hpending, Option.some.inj h]
    exact ⟨rfl, hclient⟩
  · cases h

theorem Peer.answered_eq {peer : Peer} {k : UInt64} (hpending : peer.pending = some (.cancelOrder k))
    (hclient : peer.toClient ≠ []) : peer.answered = some k := by
  unfold answered
  rw [hpending]
  exact if_neg hclient

namespace System

/-- No order rests under an id whose cancel was answered. -/
def Cleared (s : System) : Prop := ∀ i k, (s.peer i).answered = some k → Departed k s.engine

variable {n i : Nat} {s : System} {k : UInt64} {event : Event}

/-- A step calls the engine once at most, and does not wrap the counter. -/
theorem engine_step (h : Trading n s) (hsim : Simulated n s event) : (s.step event).2.engine = s.engine ∨
    ∃ c, NoWrap s.engine c ∧ (s.step event).2.engine = MatchingEngine.machine.next s.engine c := by
  cases event with
  | call i c => exact Or.inl (aside_call s i c).engine
  | write i data => exact hsim.elim
  | disconnected i m => exact hsim.elim
  | serverRead i m =>
    obtain ⟨-, hk, hdraws⟩ := hsim
    show (s.serverRead i m).engine = s.engine ∨ ∃ c, NoWrap s.engine c ∧ (s.serverRead i m).engine = _
    cases h.phase i with
    | idle _ _ hserver | placed _ _ _ hserver | holding _ _ _ hserver | cancelled _ _ hserver =>
      rw [serverRead_nil hserver]
      exact Or.inl rfl
    | placing order id hpending hsound hserver hclient =>
      obtain ⟨hcounter, -⟩ := hdraws ⟨hserver ▸ OrderRequest.serialize_ne_nil _, order, hpending⟩
      have hissued := idsIssued_le s.engine (.addOrder order)
      rw [serverRead_request h hsound hserver hclient hk]
      exact Or.inr ⟨.addOrder order, by unfold NoWrap; omega, rfl⟩
    | cancelling orderId id hpending hserver hclient =>
      rw [serverRead_request (c := .cancelOrder orderId) h trivial hserver hclient hk]
      exact Or.inr ⟨.cancelOrder orderId, s.engine.atomicOrderID.toNat_lt, rfl⟩
  | clientRead i m => exact Or.inl (aside_clientRead s i m).engine
  | matchOrders =>
    cases hunsent : s.unsent with
    | some trade =>
      left
      show s.matchOrders.engine = s.engine
      rw [matchOrders_unsent hunsent]
    | none =>
      obtain ⟨trade, -, hnext⟩ := matchOrders_eq h.held.book hunsent
      right
      refine ⟨.matchLimitOrders, s.engine.atomicOrderID.toNat_lt, ?_⟩
      show s.matchOrders.engine = _
      rw [hnext]
  | sendTrade =>
    left
    show s.sendTrade.engine = s.engine
    unfold sendTrade
    split <;> rfl
  | publish =>
    left
    obtain ⟨publisher, feed, hpublish⟩ := publish_eq h.held.book
    show s.publish.engine = s.engine
    rw [hpublish]

theorem departed_step (h : Trading n s) (hsim : Simulated n s event) (hk : Departed k s.engine) :
    Departed k (s.step event).2.engine := by
  rcases engine_step h hsim with hengine | ⟨c, hc, hengine⟩
  · rwa [hengine]
  · rw [hengine]
    exact departed_next h.held.book hk hc

theorem cleared_start (counter : UInt64) : Cleared (start (.new 101 counter)) := fun _ _ hanswered => by
  cases hanswered

theorem answered_setPeer {peer : Peer} {j : Nat} (h : ((s.setPeer i peer).peer j).answered = some k) :
    (s.peer j).answered = some k ∨ peer.answered = some k := by
  rw [setPeer_peer] at h
  split_ifs at h
  · exact Or.inr h
  · exact Or.inl h

theorem Phase.toClient_eq {peer : Peer} (h : Phase peer) (hpending : peer.pending = none) : peer.toClient = [] := by
  cases h with
  | idle _ _ _ hclient | holding _ _ _ _ hclient => exact hclient
  | placing _ _ hother | placed _ _ hother | cancelling _ _ hother | cancelled _ hother =>
    rw [hpending] at hother
    cases hother

theorem answered_serverRead (h : Trading n s) {m j : Nat} (hk : (s.peer i).toServer.length ≤ m)
    (hanswered : ((s.serverRead i m).peer j).answered = some k) :
    (s.peer j).answered = some k ∨ Departed k (s.serverRead i m).engine := by
  cases h.phase i with
  | idle _ _ hserver | placed _ _ _ hserver | holding _ _ _ hserver | cancelled _ _ hserver =>
    rw [serverRead_nil hserver] at hanswered
    exact Or.inl hanswered
  | placing order id hpending hsound hserver hclient =>
    rw [serverRead_request h hsound hserver hclient hk] at hanswered
    refine Or.inl ((answered_setPeer hanswered).resolve_right fun hpeer => ?_)
    have hcancel : (s.peer i).pending = some (.cancelOrder k) := (Peer.of_answered hpeer).1
    rw [hpending] at hcancel
    cases hcancel
  | cancelling orderId id hpending hserver hclient =>
    have hheld : (s.peer i).held = some orderId := by
      rw [Peer.held_of_cancelling orderId hpending, if_pos hclient]
    rw [serverRead_request (c := .cancelOrder orderId) h trivial hserver hclient hk] at hanswered ⊢
    refine (answered_setPeer hanswered).imp_right fun hpeer => ?_
    have hcancel : (s.peer i).pending = some (.cancelOrder k) := (Peer.of_answered hpeer).1
    rw [hpending] at hcancel
    cases hcancel
    exact h.held.departed hheld

/-- Only the thread of a connection answers. -/
theorem answered_step (h : Trading n s) (hsim : Simulated n s event) {j : Nat}
    (hanswered : ((s.step event).2.peer j).answered = some k) :
    (s.peer j).answered = some k ∨ Departed k (s.step event).2.engine := by
  cases event with
  | call i c =>
    have hanswered : ((s.call i c).2.peer j).answered = some k := hanswered
    unfold call at hanswered
    dsimp only at hanswered
    split at hanswered
    · exact Or.inl hanswered
    · next hpending =>
      refine Or.inl ((answered_setPeer hanswered).resolve_right fun hpeer => ?_)
      exact (Peer.of_answered hpeer).2 ((h.phase i).toClient_eq hpending)
  | write i data => exact hsim.elim
  | disconnected i m => exact hsim.elim
  | serverRead i m => exact answered_serverRead h hsim.2.1 hanswered
  | clientRead i m =>
    have hanswered : ((s.clientRead i m).2.peer j).answered = some k := hanswered
    unfold clientRead at hanswered
    dsimp only at hanswered
    split at hanswered
    · split_ifs at hanswered
      · refine Or.inl ((answered_setPeer hanswered).resolve_right fun hpeer => ?_)
        cases (Peer.of_answered hpeer).1
      · exact Or.inl hanswered
    · exact Or.inl hanswered
  | matchOrders =>
    have hpeers : s.matchOrders.peer = s.peer := by
      unfold matchOrders
      split
      · rfl
      · split <;> rfl
    exact Or.inl (hpeers ▸ hanswered)
  | sendTrade =>
    have hpeers : s.sendTrade.peer = s.peer := by
      unfold sendTrade
      split <;> rfl
    exact Or.inl (hpeers ▸ hanswered)
  | publish =>
    have hpeers : s.publish.peer = s.peer := by
      obtain ⟨publisher, feed, hpublish⟩ := publish_eq h.held.book
      rw [hpublish]
    exact Or.inl (hpeers ▸ hanswered)

theorem cleared_step (h : Trading n s) (hcleared : Cleared s) (hsim : Simulated n s event) :
    Cleared (s.step event).2 := by
  intro j k hanswered
  rcases answered_step h hsim hanswered with hbefore | hdeparted
  · exact departed_step h hsim (hcleared j k hbefore)
  · exact hdeparted

/-- A cancel that returns was answered. -/
theorem answered_of_returned {result : SessionResult} (h : .returned i (.cancelOrder k) result ∈ (s.step event).1) :
    (s.peer i).answered = some k := by
  cases event with
  | call j c =>
    have h : .returned i (.cancelOrder k) result ∈ (s.call j c).1 := h
    unfold call at h
    dsimp only at h
    split at h <;> simp at h
  | clientRead j m =>
    have h : .returned i (.cancelOrder k) result ∈ (s.clientRead j m).1 := h
    unfold clientRead at h
    dsimp only at h
    split at h
    · next c hpending =>
      split_ifs at h with hresp
      · cases List.mem_singleton.mp h
        exact Peer.answered_eq hpending fun hclient => hresp (by rw [hclient, List.take_nil])
      · cases h
    · cases h
  | write | serverRead | disconnected | matchOrders | sendTrade | publish => cases h

/-! ### The runs -/

theorem departed_run (h : Trading n s) (hn : n ≤ 10000) (hk : Departed k s.engine) {events : List Event}
    (halong : machine.Along (Simulated n) s events) :
    machine.States (fun s => Trading n s ∧ Departed k s.engine) s events :=
  halong.states (fun _ _ hs hsim => ⟨trading_step hs.1 hn hsim, departed_step hs.1 hsim hs.2⟩) ⟨h, hk⟩

theorem departed_of_returned (h : Trading n s) (hn : n ≤ 10000) (hcleared : Cleared s) {events : List Event}
    (halong : machine.Along (Simulated n) s events) {result : SessionResult}
    (hreturned : .returned i (.cancelOrder k) result ∈ (machine.outputs s events).flatten) :
    Trading n (machine.run s events) ∧ Departed k (machine.run s events).engine := by
  induction events generalizing s with
  | nil => cases hreturned
  | cons event events ih =>
    obtain ⟨hsim, hrest⟩ := halong
    rw [Machine.outputs, List.flatten_cons] at hreturned
    rcases List.mem_append.mp hreturned with hreturned | hreturned
    · have hk := departed_step h hsim (hcleared i k (answered_of_returned hreturned))
      exact (departed_run (trading_step h hn hsim) hn hk hrest).last
    · exact ih (trading_step h hn hsim) (cleared_step h hcleared hsim) hrest hreturned

/-- **A cancel is final**: once it has returned to a simulated trader, its order is in no trade, however the process
goes on. -/
theorem untraded_of_returned (hn : n ≤ 10000) (counter : UInt64) {before after : List Event}
    (halong : machine.Along (Simulated n) (start (.new 101 counter)) (before ++ after)) {result : SessionResult}
    (hreturned : .returned i (.cancelOrder k) result ∈
      (machine.outputs (start (.new 101 counter)) before).flatten) :
    machine.States (fun s => Untraded k s.engine) (machine.run (start (.new 101 counter)) before) after := by
  obtain ⟨hbefore, hafter⟩ := (Machine.along_append _ _ _).mp halong
  obtain ⟨htrading, hk⟩ := departed_of_returned (trading_start n counter) hn (cleared_start counter) hbefore hreturned
  exact (departed_run htrading hn hk hafter).mono fun _ hs => hs.2.untraded hs.1.held.book

/-- A client cancels its order and places another, which trades. -/
theorem untraded_of_returned_example :
    let before : List Event := [.call 0 (TraderClient.placeOrder (bytes "TSLA") (bytes "BUY") 5 1000),
      .serverRead 0 1024, .clientRead 0 1024, .call 0 (TraderClient.cancelOrder 1), .serverRead 0 1024,
      .clientRead 0 1024]
    machine.States (fun s => Untraded 1 s.engine) (machine.run (start (.new 101 0)) before) [
      .call 0 (TraderClient.placeOrder (bytes "TSLA") (bytes "BUY") 5 1000),
      .call 1 (TraderClient.placeOrder (bytes "TSLA") (bytes "SELL") 7 990),
      .serverRead 0 1024, .serverRead 1 1024, .matchOrders] := by
  intro before
  have hreturned : .returned 0 (.cancelOrder 1) (.cancelled (bytes "Order cancelled: 1")) ∈
      (machine.outputs (start (.new 101 0)) before).flatten := by decide +kernel
  refine untraded_of_returned (n := 2) (by decide) 0
    ⟨⟨by decide, ⟨1, 5, 1000, by decide, by decide, by decide⟩, rfl⟩,
    ⟨by decide, by decide +kernel, fun _ => ⟨by decide +kernel, fun _ _ _ _ => Nat.lt_add_left _ ?_⟩⟩,
    ⟨by decide, by decide +kernel⟩,
    ⟨by decide, ⟨0, 7, 990, by decide, by decide, by decide⟩, by decide +kernel⟩,
    ⟨by decide, by decide +kernel, fun _ => ⟨by decide +kernel, fun _ _ _ _ => Nat.lt_add_left _ ?_⟩⟩,
    ⟨by decide, by decide +kernel⟩,
    ⟨by decide, ⟨1, 5, 1000, by decide, by decide, by decide⟩, by decide +kernel⟩,
    ⟨by decide, ⟨0, 7, 990, by decide, by decide, by decide⟩, by decide +kernel⟩,
    ⟨by decide, by decide +kernel, fun _ => ⟨by decide +kernel, fun _ _ _ _ => Nat.lt_add_left _ ?_⟩⟩,
    ⟨by decide, by decide +kernel, fun _ => ⟨by decide +kernel, fun _ _ _ _ => Nat.lt_add_left _ ?_⟩⟩, trivial, trivial⟩
    hreturned
  · decide +kernel
  · decide +kernel
  · decide +kernel
  · decide +kernel

end System

end TradingSystem
