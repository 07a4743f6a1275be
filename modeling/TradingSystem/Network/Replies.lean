import TradingSystem.Engine.Cancel
import TradingSystem.Engine.Representation
import TradingSystem.Network.Format

/-!
# The replies of the server

A decoded request is one call of the engine, and its reply is the text of what that call returns. A cancel
returns nothing and does not throw, so its reply is always that the order was cancelled: it is true when
the queue that the entry of the id leads to holds an order with this id, and false otherwise.
-/

namespace TradingSystem

open Lib Lib.Effects OrderBook MatchingEngine

/-- The call of the engine that a request asks for. -/
def OrderRequest.call (r : OrderRequest) : Call :=
  if r.type = .new then .addOrder r.requestOrder else .cancelOrder r.requestOrder.mOrderID

namespace TCPServer

/-- The text of a reply of the engine to request `r`. -/
def replyText (r : OrderRequest) : Reply → Bytes
  | .added (.ok assignedId) => stdToString assignedId
  | .added (.error e) => bytes "Order rejected: " ++ bytes e.what
  | .cancelled (.ok ()) => bytes "Order cancelled: " ++ stdToString r.requestOrder.mOrderID
  | _ => bytes "Cancel failed: order not found"

theorem execute_new {e : MatchingEngine} (hb : WellFormed e.orderBook) {r : OrderRequest} (hr : r.type = .new) :
    execute r e = .ok (replyText r (e.step r.call).1) (e.step r.call).2 := by
  rw [OrderRequest.call, if_pos hr, execute, hr]
  dsimp only
  cases hadd : addOrder r.requestOrder e with
  | ok assignedId e' =>
    rw [step_addOrder (by rw [observe, hadd])]
    apply tryCatch_ok
    rw [bind_ok hadd]
    rfl
  | error err e' =>
    rw [step_addOrder (by rw [observe, hadd]), tryCatch_error (bind_error hadd _)]
    rcases addOrder_error hb hadd with ⟨-, -, rfl⟩ | ⟨p, rest, -, -, -, rfl⟩
    · rfl
    · rfl

theorem execute_cancel {e : MatchingEngine} (hb : WellFormed e.orderBook) {r : OrderRequest}
    (hr : r.type = .cancel) : execute r e =
      .ok (bytes "Order cancelled: " ++ stdToString r.requestOrder.mOrderID)
        (machine.next e (.cancelOrder r.requestOrder.mOrderID)) := by
  have hcancel : cancelOrder r.requestOrder.mOrderID e =
      .ok () { e with orderBook := e.orderBook.cancelled r.requestOrder.mOrderID } :=
    onBook_ok (removeOrderFromOrderId_run hb _)
  have hnext : machine.next e (.cancelOrder r.requestOrder.mOrderID) =
      { e with orderBook := e.orderBook.cancelled r.requestOrder.mOrderID } :=
    next_of_step (step_cancelOrder hb _)
  rw [execute, hr, hnext]
  apply tryCatch_ok
  rw [bind_ok hcancel]
  rfl

/-- **A request is one call of the engine**, and the reply is the text of what it returns. -/
theorem execute_run {e : MatchingEngine} (hb : WellFormed e.orderBook) (r : OrderRequest) :
    execute r e = .ok (replyText r (e.step r.call).1) (e.step r.call).2 := by
  cases hr : r.type with
  | new => exact execute_new hb hr
  | cancel =>
    have hcall : r.call = .cancelOrder r.requestOrder.mOrderID := by
      rw [OrderRequest.call, hr]
      rfl
    rw [execute_cancel hb hr, hcall, step_cancelOrder hb]
    exact congrArg _ (next_of_step (step_cancelOrder hb _))

/-! ### Is the reply to a cancel true? -/

/-- An order with this id rests and the cancel takes it out of the book. -/
def Removes (e : MatchingEngine) (orderId : UInt64) : Prop :=
  ∃ p ∈ e.orderBook.resting, (e.orderBook.order p).mOrderID = orderId ∧
    p ∉ (machine.next e (.cancelOrder orderId)).orderBook.resting

/-- The server replies, and its reply says whether the order was removed. -/
def TruthfulReply (e : MatchingEngine) (r : OrderRequest) : Prop :=
  ∃ reply, execute r e = .ok reply (machine.next e (.cancelOrder r.requestOrder.mOrderID)) ∧
    (Removes e r.requestOrder.mOrderID →
      reply = bytes "Order cancelled: " ++ stdToString r.requestOrder.mOrderID) ∧
    (¬ Removes e r.requestOrder.mOrderID → reply = bytes "Cancel failed: order not found")

/-- The entry of the id is valid and leads to a queue with an order of this id. -/
def Found (b : OrderBook) (orderId : UInt64) : Prop :=
  (b.location orderId).isValid = true ∧ ∃ l, levelOf (b.location orderId).price = some l ∧
    ∃ p ∈ b.queue (b.location orderId).side l, (b.order p).mOrderID = orderId

theorem removes_iff_found {e : MatchingEngine} (hb : WellFormed e.orderBook) (orderId : UInt64) :
    Removes e orderId ↔ Found e.orderBook orderId := by
  refine step_induction (c := .cancelOrder orderId) (P := fun _ e' => (∃ p ∈ e.orderBook.resting,
    (e.orderBook.order p).mOrderID = orderId ∧ p ∉ e'.orderBook.resting) ↔ Found e.orderBook orderId)
    hb fun r e' h => ?_
  cases h with
  | unknown _ hvalid =>
    refine iff_of_false (fun ⟨p, hp, _, hgone⟩ => hgone hp) fun hfound => ?_
    rw [hfound.1] at hvalid
    cases hvalid
  | missed _ _ hlevel hfind =>
    refine iff_of_false (fun ⟨p, hp, _, hgone⟩ => hgone hp) fun ⟨_, l, hl, p, hp, hid⟩ => ?_
    obtain rfl := Option.some.inj (hlevel.symm.trans hl)
    exact findOrder_eq_none.mp hfind p hp hid
  | @erased _ l p hvalid hlevel hfind =>
    obtain ⟨hp, hid⟩ := findOrder_mem hfind
    refine iff_of_true ⟨p, mem_resting.mpr ⟨_, l, hp⟩, hid, fun hp' => ?_⟩ ⟨hvalid, l, hlevel, p, hp, hid⟩
    exact ((hb.mem_resting_dequeue hp p).mp hp').2 rfl

/-- **The reply to a cancel is truthful** exactly when the order is found through the entry of its id. -/
theorem truthfulReply_iff {e : MatchingEngine} (h : Reachable e) {r : OrderRequest} (hr : r.type = .cancel) :
    TruthfulReply e r ↔ Found e.orderBook r.requestOrder.mOrderID := by
  have hb := h.wellFormed
  rw [← removes_iff_found hb]
  constructor
  · rintro ⟨reply, hreply, -, hfailed⟩
    by_contra hno
    rw [execute_cancel hb hr] at hreply
    have htext := hfailed hno
    cases hreply
    -- the texts differ in their first letter
    exact absurd (List.cons.inj htext).1 (by decide)
  · exact fun hyes => ⟨_, execute_cancel hb hr, fun _ => rfl, fun hno => absurd hyes hno⟩

/-- Order 1 rests and is cancelled. -/
theorem truthfulReply_example :
    TruthfulReply (machine.run (new 101 0) [.addOrder ⟨.bid, 5, [], 0, ⟨1000⟩⟩])
      ⟨⟨.bid, 0, [], 1, ⟨0⟩⟩, 1000, .cancel⟩ :=
  (truthfulReply_iff ⟨0, _, rfl⟩ rfl).mpr
    ⟨by decide +kernel, 50, by decide +kernel, 9999, by decide +kernel, by decide +kernel⟩

/-- The server confirms the cancel of an order that was never issued. -/
theorem unknown_cancel_confirmed :
    (∃ e', execute ⟨⟨.bid, 0, [], 7, ⟨0⟩⟩, 1000, .cancel⟩ (new 101 0) =
      .ok (bytes "Order cancelled: 7") e') ∧
    ¬ TruthfulReply (new 101 0) ⟨⟨.bid, 0, [], 7, ⟨0⟩⟩, 1000, .cancel⟩ := by
  have hb := wellFormed_new 0
  refine ⟨⟨_, execute_cancel hb rfl⟩, fun ⟨reply, hreply, _, hfailed⟩ => ?_⟩
  have hno : ¬ Removes (new 101 0) 7 := fun ⟨p, hp, _⟩ => not_resting_new 0 p hp
  rw [execute_cancel hb rfl] at hreply
  have htext := hfailed hno
  cases hreply
  exact absurd (List.cons.inj htext).1 (by decide)

end TCPServer

end TradingSystem
