import TradingSystem.Lib.Shared
import TradingSystem.Model.System
import TradingSystem.Network.Interleaving
import TradingSystem.Network.OrderEntry

/-!
# Sessions share the engine

A session writes a request and waits for the response, so at most one text is in flight on its connection. When
every read on it returns this text, the call takes effect in one round of the thread that serves the connection:
the process is then an atomic object (`Shared`) for its sessions, whatever is written on the other connections and
whenever these close, and what the sessions see is linearizable. The engine is called by no one but the sessions, the
other connections and the matching loop (`others`).
-/

namespace TradingSystem

open Lib Lib.Effects MatchingEngine

/-! ### One call -/

/-- The call of the engine that a call of a session asks for. -/
def SessionCall.call : SessionCall → Call
  | .placeOrder order => .addOrder order
  | .cancelOrder orderId => .cancelOrder orderId

/-- What a session makes of the reply of the engine. -/
def outcome : Call → Reply → SessionResult
  | .addOrder _, .added (.ok orderId) => .placed (.ok orderId)
  | .addOrder _, .added (.error e) =>
    .placed (.error (.runtimeError ("Order rejected: Order rejected: " ++ e.what)))
  | .cancelOrder orderId, _ => .cancelled (bytes "Order cancelled: " ++ stdToString orderId)
  | _, _ => .cancelled [] -- no call of a session

theorem SessionCall.call_request (c : SessionCall) (id : UInt64) : (c.request id).call = c.call := by
  cases c <;> rfl

/-- A response fits in the buffer, and the session reads off it what the engine replied. -/
structure Conveys (c : SessionCall) (reply : Reply) (response : Bytes) : Prop where
  nonempty : response ≠ []
  fits : response.length ≤ bufferSize
  result : c.result response = outcome c.call reply

theorem conveys_rejected (order : Order) {e : Exn}
    (he : e = .runtimeError "freeStack is full: there are no objects to acquire" ∨
      e = .invalidArgument "Invalid price to bid/ask") :
    Conveys (.placeOrder order) (.added (.error e)) (bytes "Order rejected: " ++ bytes e.what) := by
  rcases he with rfl | rfl
  · exact ⟨by decide, by decide, rfl⟩
  · exact ⟨by decide, by decide, rfl⟩

theorem conveys_replyText {e : MatchingEngine} (hb : WellFormed e.orderBook) (c : SessionCall) (id : UInt64) :
    Conveys c (e.step c.call).1 (TCPServer.replyText (c.request id) (e.step c.call).1) := by
  cases c with
  | placeOrder order =>
    refine step_induction (c := .addOrder order) (P := fun reply _ => Conveys (.placeOrder order) reply
      (TCPServer.replyText (SessionCall.request id (.placeOrder order)) reply)) hb fun r e' h => ?_
    cases h with
    | full => exact conveys_rejected order (Or.inl rfl)
    | refused => exact conveys_rejected order (Or.inr rfl)
    | accepted =>
      have hlength : 20 ≤ bufferSize := by rw [bufferSize]; omega
      refine ⟨stdToString_ne_nil _, Nat.le_trans (length_stdToString_le _) hlength, ?_⟩
      unfold TCPServer.replyText
      simp only [SessionCall.result]
      rw [stoull_stdToString]
      rfl
  | cancelOrder orderId =>
    refine step_induction (c := .cancelOrder orderId) (P := fun reply _ => Conveys (.cancelOrder orderId) reply
      (TCPServer.replyText (SessionCall.request id (.cancelOrder orderId)) reply)) hb fun r e' h => ?_
    have hconveys : Conveys (.cancelOrder orderId) (.cancelled (.ok ()))
        (bytes "Order cancelled: " ++ stdToString orderId) := by
      refine ⟨List.append_ne_nil_of_right_ne_nil _ (stdToString_ne_nil _), ?_, rfl⟩
      have hlength := length_stdToString_le orderId
      have hword : (bytes "Order cancelled: ").length = 17 := rfl
      rw [List.length_append, hword, bufferSize]
      omega
    cases h <;> exact hconveys

namespace System

/-! ### The process as an atomic object -/

/-- The peers in `G` are sessions: nothing else writes on their connections, which stay open, their requests fit in a
buffer and can be decoded, and a read on their connections returns all that is in flight. -/
def Proper (G : Nat → Prop) (s : System) : Event → Prop
  | .call i c => G i → c.CommaFree ∧ (c.request (s.peer i).nextClientId).serialize.length ≤ bufferSize
  | .write i _ => ¬ G i
  | .serverRead i n => G i → (s.peer i).toServer.length ≤ n
  | .disconnected i _ => ¬ G i
  | .clientRead i n => G i → (s.peer i).toClient.length ≤ n
  | .matchOrders | .sendTrade | .publish => True

instance (c : SessionCall) : Decidable c.CommaFree :=
  match c with
  | .placeOrder order => inferInstanceAs (Decidable (comma ∉ order.mName))
  | .cancelOrder _ => inferInstanceAs (Decidable True)

instance (G : Nat → Prop) [DecidablePred G] (s : System) : DecidablePred (Proper G s)
  | .call i c => inferInstanceAs (Decidable (G i → c.CommaFree ∧
      (c.request (s.peer i).nextClientId).serialize.length ≤ bufferSize))
  | .write i _ => inferInstanceAs (Decidable (¬ G i))
  | .serverRead i n => inferInstanceAs (Decidable (G i → (s.peer i).toServer.length ≤ n))
  | .disconnected i _ => inferInstanceAs (Decidable (¬ G i))
  | .clientRead i n => inferInstanceAs (Decidable (G i → (s.peer i).toClient.length ≤ n))
  | .matchOrders | .sendTrade | .publish => inferInstanceAs (Decidable True)

/-- What the sessions in `G` see. -/
def seen (G : Nat → Prop) [DecidablePred G] (outputs : List Output) :
    List (Observation Nat Call SessionResult) :=
  outputs.filterMap fun
    | .called i c => if G i then some (.invoked i c.call) else none
    | .returned i c result => if G i then some (.returned i c.call result) else none

/-- The call of the request that the thread of a connection decodes in a round, if it decodes one. -/
def requested (s : System) (i n : Nat) : List Call :=
  if (s.peer i).serving then
    (Connection.decoded ((s.peer i).toServer.take (min n bufferSize))).map OrderRequest.call
  else []

/-- The calls of the engine that are not those of the sessions in `G`: of requests that are read on the other
connections, and of the matching loop. -/
def others (G : Nat → Prop) [DecidablePred G] (s : System) : Event → List Call
  | .serverRead i n | .disconnected i n => if G i then [] else s.requested i n
  | .matchOrders => if s.unsent.isNone then [.matchLimitOrders] else []
  | .call .. | .write .. | .clientRead .. | .sendTrade | .publish => []

/-- Where the call of a session is, from what is in flight. -/
def Served (peer : Peer) : Status Call Reply → Prop
  | .idle => peer.pending = none ∧ peer.toServer = [] ∧ peer.toClient = []
  | .waiting op => ∃ c id, peer.pending = some c ∧ c.call = op ∧ c.CommaFree ∧
      peer.toServer = (c.request id).serialize ∧ peer.toServer.length ≤ bufferSize ∧ peer.toClient = []
  | .done op reply => ∃ c, peer.pending = some c ∧ c.call = op ∧ peer.toServer = [] ∧
      Conveys c reply peer.toClient

structure Simulates (G : Nat → Prop) (s : System) (a : Shared Nat MatchingEngine Call Reply) : Prop where
  object : a.object = s.engine
  book : WellFormed s.engine.orderBook
  serving : ∀ i, G i → (s.peer i).serving = true
  served : ∀ i, G i → Served (s.peer i) (a.status i)

section Simulation

variable {G : Nat → Prop} {s : System} {a : Shared Nat MatchingEngine Call Reply} {i n : Nat}

theorem setPeer_peer (s : System) (i j : Nat) (peer : Peer) :
    (s.setPeer i peer).peer j = if j = i then peer else s.peer j :=
  Function.update_apply s.peer i peer j

theorem simulates_start {e : MatchingEngine} (hb : WellFormed e.orderBook) : Simulates G (start e) (.start e) :=
  ⟨rfl, hb, fun _ _ => rfl, fun _ _ => ⟨rfl, rfl, rfl⟩⟩

/-- The call of session `i` moves on. -/
theorem Simulates.own (h : Simulates G s a) {peer : Peer} {status : Status Call Reply}
    (hserving : peer.serving = true) (hserved : Served peer status) :
    Simulates G (s.setPeer i peer) (a.setStatus i status) := by
  refine ⟨h.object, h.book, fun j hj => ?_, fun j hj => ?_⟩
  · rw [setPeer_peer]
    split_ifs
    · exact hserving
    · exact h.serving j hj
  · rw [setPeer_peer, Shared.setStatus_status]
    split_ifs
    · exact hserved
    · exact h.served j hj

/-- Something happens on a connection that is not a session's. -/
theorem Simulates.foreign (h : Simulates G s a) (hi : ¬ G i) (peer : Peer) : Simulates G (s.setPeer i peer) a := by
  refine ⟨h.object, h.book, fun j hj => ?_, fun j hj => ?_⟩
  · rw [setPeer_peer, if_neg (by rintro rfl; exact hi hj)]
    exact h.serving j hj
  · rw [setPeer_peer, if_neg (by rintro rfl; exact hi hj)]
    exact h.served j hj

/-- The engine is called. -/
theorem Simulates.engine (h : Simulates G s a) (c : Call) :
    Simulates G { s with engine := MatchingEngine.machine.next s.engine c }
      { a with object := MatchingEngine.machine.next a.object c } :=
  ⟨by rw [h.object], wellFormed_next h.book c, h.serving, h.served⟩

/-- A step of the process is matched by steps of the atomic object that show the sessions the same, with the calls
`calls` of others. -/
def Matched (G : Nat → Prop) [DecidablePred G] (a : Shared Nat MatchingEngine Call Reply) (calls : List Call)
    (result : List Output × System) : Prop :=
  ∃ ks : List (Shared.Event Nat Call), ks.length ≤ 1 ∧
    Simulates G result.2 ((Shared.machine MatchingEngine.machine outcome).run a ks) ∧
    ((Shared.machine MatchingEngine.machine outcome).outputs a ks).flatMap Prod.fst = seen G result.1 ∧
    ks.flatMap Shared.Event.unseen = calls

variable [DecidablePred G]

theorem Simulates.stays (h : Simulates G s a) : Matched G a [] ([], s) := ⟨[], Nat.zero_le 1, h, rfl, rfl⟩

theorem matched_of_step {k : Shared.Event Nat Call} {result : List Output × System}
    {shown : List (Observation Nat Call SessionResult)} {took : List (Entry Nat Call Reply)}
    {a' : Shared Nat MatchingEngine Call Reply}
    (hstep : (Shared.machine MatchingEngine.machine outcome).step a k = ((shown, took), a'))
    (h : Simulates G result.2 a') (hseen : shown = seen G result.1) : Matched G a k.unseen result := by
  refine ⟨[k], Nat.le_refl 1, ?_, ?_, List.flatMap_singleton _ _⟩
  · rwa [Machine.run, Machine.run, Machine.next, hstep]
  · rw [Machine.outputs, Machine.outputs, hstep, List.flatMap_singleton, hseen]

/-! ### Each step is matched -/

theorem matched_call (h : Simulates G s a) {c : SessionCall} (hproper : Proper G s (.call i c)) :
    Matched G a [] (s.call i c) := by
  unfold call
  dsimp only
  by_cases hi : G i
  · obtain ⟨hfree, hfits⟩ := hproper hi
    have hserved := h.served i hi
    cases hpending : (s.peer i).pending with
    | some c' => exact h.stays
    | none =>
      cases hstatus : a.status i with
      | idle =>
        rw [hstatus] at hserved
        obtain ⟨-, hserver, hclient⟩ := hserved
        refine matched_of_step (Shared.step_invoke hstatus c.call) (h.own (h.serving i hi) ?_) (by simp [seen, hi])
        rw [hserver, List.nil_append]
        exact ⟨c, _, rfl, rfl, hfree, rfl, hfits, hclient⟩
      | waiting op =>
        rw [hstatus] at hserved
        obtain ⟨c', id, hpending', -⟩ := hserved
        rw [hpending] at hpending'
        cases hpending'
      | done op reply =>
        rw [hstatus] at hserved
        obtain ⟨c', hpending', -⟩ := hserved
        rw [hpending] at hpending'
        cases hpending'
  · cases hpending : (s.peer i).pending with
    | some c' => exact h.stays
    | none => exact ⟨[], Nat.zero_le 1, h.foreign hi _, by simp [seen, hi, Machine.outputs], rfl⟩

theorem serverRead_idle (h : ¬ ((s.peer i).serving = true ∧ (s.peer i).toServer.take (min n bufferSize) ≠ [])) :
    s.serverRead i n = s := by
  unfold serverRead
  exact if_neg h

/-- A round that decodes what it read is a call of the engine and a response. -/
theorem serverRead_ok (hb : WellFormed s.engine.orderBook) (hserving : (s.peer i).serving = true)
    (hne : (s.peer i).toServer.take (min n bufferSize) ≠ []) {r : OrderRequest}
    (hr : OrderRequest.deserialize ((s.peer i).toServer.take (min n bufferSize)) = .ok r) :
    s.serverRead i n = { s.setPeer i { s.peer i with
      toServer := (s.peer i).toServer.drop (min n bufferSize)
      toClient := (s.peer i).toClient ++ TCPServer.replyText r (s.engine.step r.call).1 } with
      engine := MatchingEngine.machine.next s.engine r.call } := by
  unfold serverRead
  simp only [hserving, ne_eq, hne, not_false_eq_true, and_self, if_true, Connection.serve_ok hb hr]

/-- A round that does not decode what it read is the last of its thread. -/
theorem serverRead_error (hserving : (s.peer i).serving = true)
    (hne : (s.peer i).toServer.take (min n bufferSize) ≠ []) {err : Exn}
    (hr : OrderRequest.deserialize ((s.peer i).toServer.take (min n bufferSize)) = .error err) :
    s.serverRead i n = s.setPeer i { s.peer i with
      toServer := (s.peer i).toServer.drop (min n bufferSize)
      serving := false } := by
  unfold serverRead
  simp only [hserving, ne_eq, hne, not_false_eq_true, and_self, if_true, OrderRequest.serve_of_error hr]
  rfl

omit [DecidablePred G] in
/-- A round of the thread of a session whose call waits is its call of the engine and the response. -/
theorem serverRead_waiting (h : Simulates G s a) (hi : G i) (hn : (s.peer i).toServer.length ≤ n) {op : Call}
    (hstatus : a.status i = .waiting op) : ∃ c response, (s.peer i).pending = some c ∧ c.call = op ∧
      Conveys c (s.engine.step op).1 response ∧ s.serverRead i n = { s.setPeer i { s.peer i with
        toServer := []
        toClient := response } with engine := MatchingEngine.machine.next s.engine op } := by
  have hserved := h.served i hi
  rw [hstatus] at hserved
  obtain ⟨c, id, hpending, rfl, hfree, hserver, hfits, hclient⟩ := hserved
  have hall : (s.peer i).toServer.length ≤ min n bufferSize := Nat.le_min.mpr ⟨hn, hfits⟩
  have htake : (s.peer i).toServer.take (min n bufferSize) = (c.request id).serialize := by
    rw [List.take_of_length_le hall, hserver]
  refine ⟨c, _, hpending, rfl, conveys_replyText h.book c id, ?_⟩
  rw [serverRead_ok h.book (h.serving i hi) (htake ▸ OrderRequest.serialize_ne_nil _)
    (htake ▸ OrderRequest.deserialize_serialize (hfree.request id)), SessionCall.call_request,
    List.drop_eq_nil_of_le hall, hclient, List.nil_append]

/-- A round of the thread of a session performs its call. -/
theorem matched_serverRead_own (h : Simulates G s a) (hi : G i) (hn : (s.peer i).toServer.length ≤ n) :
    Matched G a [] ([], s.serverRead i n) := by
  have hserved := h.served i hi
  cases hstatus : a.status i with
  | idle =>
    rw [hstatus] at hserved
    rw [serverRead_idle fun hread => hread.2 (by rw [hserved.2.1, List.take_nil])]
    exact h.stays
  | done op reply =>
    rw [hstatus] at hserved
    obtain ⟨c, -, -, hserver, -⟩ := hserved
    rw [serverRead_idle fun hread => hread.2 (by rw [hserver, List.take_nil])]
    exact h.stays
  | waiting op =>
    obtain ⟨c, response, hpending, hcall, hconveys, hnext⟩ := serverRead_waiting h hi hn hstatus
    rw [hnext]
    refine matched_of_step (Shared.step_perform hstatus) ?_ rfl
    refine (h.engine op).own (h.serving i hi) ⟨c, hpending, hcall, rfl, ?_⟩
    rw [h.object]
    exact hconveys

/-- A round asks for one call at most. -/
theorem requested_cases (s : System) (i n : Nat) : s.requested i n = [] ∨ ∃ c, s.requested i n = [c] := by
  unfold requested Connection.decoded
  split_ifs
  · split
    · exact Or.inr ⟨_, rfl⟩
    · exact Or.inl rfl
  · exact Or.inl rfl

theorem requested_ok (hserving : (s.peer i).serving = true) {r : OrderRequest}
    (hr : OrderRequest.deserialize ((s.peer i).toServer.take (min n bufferSize)) = .ok r) :
    s.requested i n = [r.call] := by
  rw [requested, if_pos hserving, Connection.decoded, hr]
  rfl

theorem requested_error {err : Exn}
    (hr : OrderRequest.deserialize ((s.peer i).toServer.take (min n bufferSize)) = .error err) :
    s.requested i n = [] := by
  rw [requested, Connection.decoded, hr]
  exact ite_self _

theorem requested_idle (h : ¬ ((s.peer i).serving = true ∧ (s.peer i).toServer.take (min n bufferSize) ≠ [])) :
    s.requested i n = [] := by
  by_cases hserving : (s.peer i).serving = true
  · have hnil : (s.peer i).toServer.take (min n bufferSize) = [] := by
      by_contra hne
      exact h ⟨hserving, hne⟩
    exact requested_error (by rw [hnil]; rfl)
  · exact if_neg hserving

/-- The last round of a thread whose client is gone executes what it reads. -/
theorem disconnected_eq (hb : WellFormed s.engine.orderBook) (hserving : (s.peer i).serving = true) :
    s.disconnected i n = { s.setPeer i { s.peer i with
      toServer := (s.peer i).toServer.drop (min n bufferSize)
      serving := false } with
      engine := MatchingEngine.machine.run s.engine (s.requested i n) } := by
  unfold disconnected
  simp only [hserving, if_true]
  split_ifs with hnil
  · rw [requested_error (by rw [hnil]; rfl)]
    rfl
  · cases hdecode : OrderRequest.deserialize ((s.peer i).toServer.take (min n bufferSize)) with
    | ok r =>
      rw [requested_ok hserving hdecode, Connection.serve_ok hb hdecode]
      rfl
    | error err =>
      rw [requested_error hdecode, OrderRequest.serve_of_error hdecode]
      rfl

theorem disconnected_idle (h : ¬ (s.peer i).serving = true) : s.disconnected i n = s := by
  unfold disconnected
  exact if_neg h

/-- A round of any other thread calls the engine, or ends. -/
theorem matched_serverRead_foreign (h : Simulates G s a) (hi : ¬ G i) :
    Matched G a (s.requested i n) ([], s.serverRead i n) := by
  by_cases hread : (s.peer i).serving = true ∧ (s.peer i).toServer.take (min n bufferSize) ≠ []
  · cases hdecode : OrderRequest.deserialize ((s.peer i).toServer.take (min n bufferSize)) with
    | ok r =>
      rw [serverRead_ok h.book hread.1 hread.2 hdecode, requested_ok hread.1 hdecode]
      exact matched_of_step (Shared.step_background a r.call) ((h.engine r.call).foreign hi _) rfl
    | error err =>
      rw [serverRead_error hread.1 hread.2 hdecode, requested_error hdecode]
      exact (h.foreign hi _).stays
  · rw [serverRead_idle hread, requested_idle hread]
    exact h.stays

theorem matched_disconnected (h : Simulates G s a) (hi : ¬ G i) :
    Matched G a (s.requested i n) ([], s.disconnected i n) := by
  by_cases hserving : (s.peer i).serving = true
  · rw [disconnected_eq h.book hserving]
    rcases requested_cases s i n with hnone | ⟨c, hone⟩
    · rw [hnone]
      exact (h.foreign hi _).stays
    · rw [hone]
      exact matched_of_step (Shared.step_background a c) ((h.engine c).foreign hi _) rfl
  · rw [disconnected_idle hserving, requested_idle fun hread => hserving hread.1]
    exact h.stays

theorem clientRead_ready {c : SessionCall} (hpending : (s.peer i).pending = some c)
    (hne : (s.peer i).toClient.take (min n bufferSize) ≠ []) : s.clientRead i n =
      ([.returned i c (c.result ((s.peer i).toClient.take (min n bufferSize)))], s.setPeer i { s.peer i with
        pending := none
        last := some (c.result ((s.peer i).toClient.take (min n bufferSize)))
        toClient := (s.peer i).toClient.drop (min n bufferSize) }) := by
  unfold clientRead
  simp only [hpending, ne_eq, hne, not_false_eq_true, if_true]

theorem clientRead_idle
    (h : (s.peer i).pending = none ∨ (s.peer i).toClient.take (min n bufferSize) = []) :
    s.clientRead i n = ([], s) := by
  unfold clientRead
  cases hpending : (s.peer i).pending with
  | none => simp only [hpending]
  | some c =>
    have hnil : (s.peer i).toClient.take (min n bufferSize) = [] := h.resolve_left (by rw [hpending]; nofun)
    simp only [hpending, hnil, ne_eq, not_true_eq_false, if_false]

theorem matched_clientRead (h : Simulates G s a) (hproper : Proper G s (.clientRead i n)) :
    Matched G a [] (s.clientRead i n) := by
  cases hpending : (s.peer i).pending with
  | none =>
    rw [clientRead_idle (Or.inl hpending)]
    exact h.stays
  | some c =>
    by_cases hne : (s.peer i).toClient.take (min n bufferSize) = []
    · rw [clientRead_idle (Or.inr hne)]
      exact h.stays
    rw [clientRead_ready hpending hne]
    by_cases hi : G i
    · have hserved := h.served i hi
      cases hstatus : a.status i with
      | idle =>
        rw [hstatus, Served, hpending] at hserved
        cases hserved.1
      | waiting op =>
        rw [hstatus] at hserved
        obtain ⟨c', id, -, -, -, -, -, hclient⟩ := hserved
        exact absurd (by rw [hclient, List.take_nil]) hne
      | done op reply =>
        rw [hstatus] at hserved
        obtain ⟨c', hpending', rfl, hserver, hconveys⟩ := hserved
        obtain rfl : c = c' := Option.some.inj (hpending.symm.trans hpending')
        have hall : (s.peer i).toClient.length ≤ min n bufferSize := Nat.le_min.mpr ⟨hproper hi, hconveys.fits⟩
        rw [List.take_of_length_le hall, List.drop_eq_nil_of_le hall]
        refine matched_of_step (Shared.step_respond hstatus) (h.own (h.serving i hi) ⟨rfl, hserver, rfl⟩) ?_
        rw [← hconveys.result]
        simp [seen, hi]
    · exact ⟨[], Nat.zero_le 1, h.foreign hi _, by simp [seen, hi, Machine.outputs], rfl⟩

theorem matchOrders_unsent {trade : Trade} (h : s.unsent = some trade) : s.matchOrders = s := by
  unfold matchOrders
  rw [h]

theorem matchLimitOrders_ok {e : MatchingEngine} (hb : WellFormed e.orderBook) : ∃ trade,
    matchLimitOrders e = .ok trade (MatchingEngine.machine.next e .matchLimitOrders) ∧
      (e.step .matchLimitOrders).1 = .matched (.ok trade) := by
  have heffect := step_effect hb .matchLimitOrders
  cases hrun : matchLimitOrders e with
  | error err e' =>
    have hstep : e.step .matchLimitOrders = (.matched (.error err), e') := by
      rw [MatchingEngine.step, observe, hrun]
      rfl
    rw [hstep] at heffect
    cases heffect
  | ok trade e' =>
    have hstep : e.step .matchLimitOrders = (.matched (.ok trade), e') := by
      rw [MatchingEngine.step, observe, hrun]
      rfl
    exact ⟨trade, by rw [next_of_step hstep], congrArg Prod.fst hstep⟩

/-- What the matching loop does when it has no trade to send. -/
theorem matchOrders_eq (hb : WellFormed s.engine.orderBook) (hunsent : s.unsent = none) : ∃ trade,
    (s.engine.step .matchLimitOrders).1 = .matched (.ok trade) ∧ s.matchOrders = { s with
      engine := MatchingEngine.machine.next s.engine .matchLimitOrders
      unsent := trade } := by
  obtain ⟨trade, hrun, hreply⟩ := matchLimitOrders_ok hb
  refine ⟨trade, hreply, ?_⟩
  unfold matchOrders
  simp only [hunsent, hrun]

theorem matched_matchOrders (h : Simulates G s a) : Matched G a (others G s .matchOrders) ([], s.matchOrders) := by
  cases hunsent : s.unsent with
  | some trade =>
    rw [matchOrders_unsent hunsent, others, hunsent]
    exact h.stays
  | none =>
    obtain ⟨trade, -, hnext⟩ := matchOrders_eq h.book hunsent
    rw [hnext, others, hunsent]
    have hengine := h.engine .matchLimitOrders
    exact matched_of_step (Shared.step_background a .matchLimitOrders)
      ⟨hengine.object, hengine.book, hengine.serving, hengine.served⟩ rfl

/-- An access of the publisher leaves the engine and the connections as they are. -/
theorem publish_eq (hb : WellFormed s.engine.orderBook) : ∃ publisher feed,
    s.publish = { s with
      publisher := publisher
      feed := feed } := by
  obtain ⟨progress', hadvance, -⟩ := UDPServer.advance_spec hb s.publisher
  unfold publish
  split
  · exact ⟨_, _, rfl⟩
  · rw [onBook_ok hadvance]
    exact ⟨_, _, rfl⟩

theorem matched_step (h : Simulates G s a) {event : Event} (hproper : Proper G s event) :
    Matched G a (others G s event) (s.step event) := by
  cases event with
  | call i c => exact matched_call h hproper
  | write i data => exact (h.foreign hproper _).stays
  | serverRead i n =>
    show Matched G a (if G i then [] else s.requested i n) ([], s.serverRead i n)
    split_ifs with hi
    · exact matched_serverRead_own h hi (hproper hi)
    · exact matched_serverRead_foreign h hi
  | disconnected i n =>
    show Matched G a (if G i then [] else s.requested i n) ([], s.disconnected i n)
    rw [if_neg hproper]
    exact matched_disconnected h hproper
  | clientRead i n => exact matched_clientRead h hproper
  | matchOrders => exact matched_matchOrders h
  | sendTrade =>
    show Matched G a [] ([], s.sendTrade)
    unfold sendTrade
    split
    · exact Simulates.stays ⟨h.object, h.book, h.serving, h.served⟩
    · exact h.stays
  | publish =>
    show Matched G a [] ([], s.publish)
    obtain ⟨publisher, feed, hpublish⟩ := publish_eq h.book
    rw [hpublish]
    exact Simulates.stays ⟨h.object, h.book, h.serving, h.served⟩

end Simulation

/-! ### The runs -/

/-- A run of the process shows its sessions what a run of the atomic object shows. -/
theorem exists_shared_run (G : Nat → Prop) [DecidablePred G] {e : MatchingEngine} (h : Reachable e)
    {events : List Event} (halong : machine.Along (Proper G) (start e) events) :
    ∃ ks : List (Shared.Event Nat Call), ks.length ≤ events.length ∧
      Simulates G (machine.run (start e) events)
        ((Shared.machine MatchingEngine.machine outcome).run (Shared.start e) ks) ∧
      Shared.trace MatchingEngine.machine outcome (Shared.start e) ks =
        (machine.outputs (start e) events).flatMap (seen G) ∧
      ks.flatMap Shared.Event.unseen = machine.collect (others G) (start e) events :=
  Machine.refinement (M := machine) (N := Shared.machine MatchingEngine.machine outcome) (R := Simulates G)
    (fun _ _ _ hs hP => matched_step hs hP) halong (simulates_start h.wellFormed)

/-- **Order entry is linearizable**: the calls of the sessions take effect one at a time, each between the moment
it is made and the moment it returns, with the results that the engine gives, among the calls of the matching loop and
those that the other connections ask for, whatever these carry and whenever the publisher runs. -/
theorem linearizable_sessions (G : Nat → Prop) [DecidablePred G] {e : MatchingEngine} (h : Reachable e)
    {events : List Event} (halong : machine.Along (Proper G) (start e) events) :
    Linearizable MatchingEngine.machine outcome e (machine.run (start e) events).engine
      (machine.collect (others G) (start e) events) ((machine.outputs (start e) events).flatMap (seen G)) := by
  obtain ⟨ks, -, hsim, hseen, hothers⟩ := exists_shared_run G h halong
  rw [← hseen, ← hsim.object, ← hothers]
  exact ⟨_, Shared.linearization_run MatchingEngine.machine outcome e ks⟩

deriving instance DecidableEq for Call

/-- Two sessions trade while a third client writes a cancel and is gone. -/
theorem linearizable_sessions_example :
    let events : List Event := [.write 2 (bytes "7,CANCEL,BUY,0,,9,0"),
      .call 0 (.placeOrder ⟨.bid, 5, bytes "TSLA", 0, ⟨1000⟩⟩), .call 1 (.placeOrder ⟨.ask, 5, bytes "TSLA", 0, ⟨1000⟩⟩),
      .serverRead 1 1024, .disconnected 2 19, .serverRead 0 1024, .matchOrders, .clientRead 0 1024, .clientRead 1 1024]
    Linearizable MatchingEngine.machine outcome (.new 101 0) (machine.run (start (.new 101 0)) events).engine
        (machine.collect (others (· < 2)) (start (.new 101 0)) events)
        ((machine.outputs (start (.new 101 0)) events).flatMap (seen (· < 2))) ∧
      machine.collect (others (· < 2)) (start (.new 101 0)) events = [.cancelOrder 9, .matchLimitOrders] ∧
      ((machine.run (start (.new 101 0)) events).peer 0).last = some (.placed (.ok 2)) := by
  intro events
  refine ⟨linearizable_sessions (· < 2) ⟨0, [], rfl⟩ ?_, ?_, ?_⟩
  · decide +kernel
  · decide +kernel
  · decide +kernel

end System

end TradingSystem
