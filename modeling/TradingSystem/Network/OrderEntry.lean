import TradingSystem.Network.Replies

/-!
# Order entry over a connection

Nothing separates the requests on a connection: the server decodes whatever one read returns, and executes it on
the engine (`engine_run`). When every read returns exactly the next request, these are the requests that were sent.
When one returns less or more, the decoder throws, or the price is a different number: a part of its digits, or its
digits and those of the next client id.
-/

namespace TradingSystem

open Lib Lib.Effects Stream MatchingEngine

/-! ### Decoding a part of the bytes in flight -/

namespace OrderRequest

theorem serialize_ne_nil (r : OrderRequest) : r.serialize ≠ [] := by
  rw [serialize_eq]
  exact List.append_ne_nil_of_right_ne_nil _ (stdToString_ne_nil _)

/-- The price of a decoded request is the number that its last piece begins with. -/
theorem stoull_of_deserialize {c : Bytes} {r : OrderRequest} (h : deserialize c = .ok r) :
    ∃ fields p, fields.length = 6 ∧ getlines comma c = fields ++ [p] ∧
      stoull p = .ok r.requestOrder.mPrice.mPriceValueInCent := by
  obtain ⟨p0, p1, p2, p3, p4, p5, p6, hjoined, hread⟩ := (accepted_iff_tolerated c).mp ⟨r, h⟩
  have hne := ne_nil_of_readable hread.2.2.2
  have hparts := pieces_of_joined [p0, p1, p2, p3, p4, p5] hjoined hne
  refine ⟨[p0, p1, p2, p3, p4, p5], p6, rfl, hparts, ?_⟩
  rw [deserialize_of_parts hparts hne] at h
  obtain ⟨v0, h0⟩ := (stoull_ok_iff p0).mpr hread.1
  obtain ⟨v3, h3⟩ := (stoull_ok_iff p3).mpr hread.2.1
  obtain ⟨v5, h5⟩ := (stoull_ok_iff p5).mpr hread.2.2.1
  obtain ⟨v6, h6⟩ := (stoull_ok_iff p6).mpr hread.2.2.2
  simp only [h0, h3, h5, h6] at h
  cases h
  exact h6

theorem head_serialize {r : OrderRequest} (hid : r.clientId ≠ 0) (tail : Bytes) :
    ∀ x ∈ (r.serialize ++ tail).head?, Decimal.isDigit x = true ∧ x ≠ 48 := by
  obtain ⟨c, cs, hcs⟩ := List.exists_cons_of_ne_nil (stdToString_ne_nil r.clientId)
  have hserialize : ∃ rest, r.serialize = c :: rest := by
    rw [serialize_eq_append, terminated_cons, hcs]
    exact ⟨_, rfl⟩
  obtain ⟨rest, hrest⟩ := hserialize
  have hne : r.clientId.toNat ≠ 0 := fun h => hid (UInt64.toNat_inj.mp h)
  rw [hrest]
  rintro x ⟨⟩
  exact ⟨Decimal.isDigit_of_mem_print (hcs ▸ List.mem_cons_self), Decimal.head_print hne hcs⟩

/-- A text with one piece has it up to its end, but for a comma, so a digit in the text is in the piece. -/
theorem last_piece_of_digit {q w p : Bytes} {d : UInt8} (hd : Decimal.isDigit d = true)
    (h : getlines comma (q ++ d :: w) = [p]) : ∃ w', p = q ++ d :: w' := by
  have hne : d ≠ comma := by
    rintro rfl
    exact absurd hd (by decide)
  rcases eq_terminated_getlines (d := comma) (q ++ d :: w) with htext | ⟨fields, p', -, hlines, htext⟩
  · rw [h, terminated_cons, terminated_nil] at htext
    rcases List.append_eq_append_iff.mp htext with ⟨a, rfl, hrest⟩ | ⟨a, rfl, hrest⟩
    · rcases List.cons_eq_append_iff.mp hrest with ⟨rfl, hw⟩ | ⟨a', rfl, -⟩
      · exact absurd (List.cons.inj hw).1.symm hne
      · exact ⟨a', rfl⟩
    · rcases List.cons_eq_append_iff.mp hrest with ⟨rfl, hw⟩ | ⟨a', rfl, hw⟩
      · exact absurd (List.cons.inj hw).1 hne
      · simp at hw
  · rw [h] at hlines
    have hsplit : [] ++ [p] = fields ++ [p'] := hlines
    obtain ⟨rfl, hp⟩ := List.append_inj' hsplit rfl
    cases hp
    exact ⟨w, htext.symm⟩

/-- **Only the whole request is decoded to the request**, where nothing follows it or what follows begins with
a digit other than 0. -/
theorem eq_serialize_of_deserialize {r : OrderRequest} (hname : comma ∉ r.requestOrder.mName) {c tail : Bytes}
    (hc : c <+: r.serialize ++ tail) (htail : ∀ x ∈ tail.head?, Decimal.isDigit x = true ∧ x ≠ 48)
    (h : deserialize c = .ok r) : c = r.serialize := by
  obtain ⟨fields, p, hlength, hlines, hprice⟩ := stoull_of_deserialize h
  have hheader := comma_not_mem_header hname
  rw [serialize_eq, List.append_assoc] at hc
  rcases prefix_append_cases hc with hc | ⟨x, rfl, hx⟩
  · -- the chunk ends before the price
    have hle := length_getlines_of_prefix hheader hc
    have hsix : r.header.length = 6 := rfl
    rw [hlines, List.length_append, hlength, hsix, List.length_singleton] at hle
    exact absurd hle (by decide)
  have hlast : getlines comma x = [p] := by
    rw [getlines_terminated_append hheader] at hlines
    exact (List.append_inj hlines (by rw [hlength]; rfl)).2
  rw [serialize_eq]
  congr 1
  rcases prefix_append_cases hx with ⟨y, hy⟩ | ⟨z, rfl, hz⟩
  · -- the chunk ends within the price
    by_contra hne
    have hxne : x ≠ [] := fun hnil => by rw [hnil] at hlast; cases hlast
    have hyne : y ≠ [] := by
      rintro rfl
      exact hne (by rw [← hy, List.append_nil])
    have hfree : comma ∉ x := fun hmem =>
      comma_not_mem_stdToString r.requestOrder.mPrice.mPriceValueInCent (hy ▸ List.mem_append_left y hmem)
    rw [getlines_last hfree hxne, List.cons.injEq] at hlast
    rw [← hlast.1, stoull_eq_ok] at hprice
    exact Decimal.read_ne_of_append hy.symm hxne hyne hprice
  · -- the chunk reaches into what follows
    cases z with
    | nil => rw [List.append_nil]
    | cons d w =>
      obtain ⟨t, rfl⟩ := hz
      obtain ⟨hdigit, hzero⟩ := htail d rfl
      obtain ⟨w', rfl⟩ := last_piece_of_digit hdigit hlast
      exact absurd (stoull_eq_ok.mp hprice) (Decimal.read_append_ne hdigit hzero w')

end OrderRequest

/-! ### Runs of a connection -/

/-- The ticker of the order, if the call places one, has no comma. -/
def SessionCall.CommaFree : SessionCall → Prop
  | .placeOrder order => comma ∉ order.mName
  | .cancelOrder _ => True

theorem SessionCall.CommaFree.request {c : SessionCall} (h : c.CommaFree) (id : UInt64) :
    comma ∉ (c.request id).requestOrder.mName := by
  cases c with
  | placeOrder order => exact h
  | cancelOrder orderId => exact List.not_mem_nil

namespace Connection

/-- The requests that were decoded are those that were sent, in order, and all of them once the server has no more
to read or to serve. -/
structure InStep (s : Connection) : Prop where
  inOrder : s.executed <+: s.sent
  all : s.toServer = [] ∨ s.serving = false → s.executed = s.sent

/-- The call of someone else. -/
def Event.engineCall? : Event → Option Call
  | .engineCall c => some c
  | _ => none

/-- What a request, or someone else, calls. -/
def engineCalls (log : List (OrderRequest ⊕ Call)) : List Call := log.map (Sum.elim OrderRequest.call id)

/-- After the events `past` from engine `e`, the server has executed on the engine the requests that were sent, each
once, in order, and all of them once it has no more to read or to serve: the engine is the run of their calls, with
the calls of others between them and nothing else. -/
structure Exact (e : MatchingEngine) (past : List Event) (s : Connection) : Prop where
  inStep : InStep s
  engine : ∃ log : List (OrderRequest ⊕ Call), log.filterMap Sum.getLeft? = s.executed ∧
    log.filterMap Sum.getRight? = past.filterMap Event.engineCall? ∧
    s.engine = MatchingEngine.machine.run e (engineCalls log)

/-- At every moment of a run. -/
def ExactRun (calls : List SessionCall) (e : MatchingEngine) (events : List Event) : Prop :=
  ∀ past, past <+: events → Exact e past (machine.run (new calls e) past)

/-- A read of the server returns the first request that was not executed, the whole of it and no more. -/
def WholeReads (s : Connection) : Event → Prop
  | .serverRead n => s.serving = true → s.chunk n ≠ [] →
      ∃ r, s.sent[s.executed.length]? = some r ∧ s.chunk n = r.serialize
  | _ => True

/-- The bytes in flight to the server are the requests that were not executed. -/
structure Framed (s : Connection) : Prop where
  serving : s.serving = true
  book : WellFormed s.engine.orderBook
  unread : ∃ unread, s.sent = s.executed ++ unread ∧ s.toServer = unread.flatMap OrderRequest.serialize
  calls : ∀ c ∈ s.calls, c.CommaFree
  names : ∀ r ∈ s.sent, comma ∉ r.requestOrder.mName

/-- No client id is 0, and none will be. -/
structure Numbered (s : Connection) : Prop where
  positive : s.nextClientId ≠ 0
  bounded : s.nextClientId.toNat + s.calls.length < 2 ^ 64
  sent : ∀ r ∈ s.sent, r.clientId ≠ 0

variable {s : Connection} {n : Nat}

theorem Framed.inStep (h : Framed s) : InStep s := by
  obtain ⟨unread, hsent, hbytes⟩ := h.unread
  refine ⟨⟨unread, hsent.symm⟩, fun hdone => ?_⟩
  have hempty : s.toServer = [] := hdone.resolve_right (by rw [h.serving]; exact Bool.noConfusion)
  cases unread with
  | nil => rw [hsent, List.append_nil]
  | cons r rest =>
    rw [hempty, List.flatMap_cons] at hbytes
    exact absurd (List.append_eq_nil_iff.mp hbytes.symm).1 r.serialize_ne_nil

theorem serve_ok {e : MatchingEngine} (hb : WellFormed e.orderBook) {c : Bytes} {r : OrderRequest}
    (h : OrderRequest.deserialize c = .ok r) : TCPServer.serve c e =
      .ok (TCPServer.replyText r (e.step r.call).1) (MatchingEngine.machine.next e r.call) := by
  rw [TCPServer.serve, h]
  exact TCPServer.execute_run hb r

/-- A read that is decoded passes one request to the engine. -/
theorem serverRead_ok (h : Framed s) (hne : s.chunk n ≠ []) {r : OrderRequest}
    (hr : OrderRequest.deserialize (s.chunk n) = .ok r) : s.serverRead n = { s with
      toServer := s.toServer.drop (min n bufferSize)
      toClient := s.toClient ++ TCPServer.replyText r (s.engine.step r.call).1
      engine := MatchingEngine.machine.next s.engine r.call
      executed := s.executed ++ [r] } := by
  rw [serverRead, if_pos ⟨h.serving, hne⟩, serve_ok h.book hr]
  simp only [decoded, hr]

/-- A read that is not decoded ends the service. -/
theorem serverRead_error (h : Framed s) (hne : s.chunk n ≠ []) {err : Exn}
    (hr : OrderRequest.deserialize (s.chunk n) = .error err) : s.serverRead n = { s with
      toServer := s.toServer.drop (min n bufferSize)
      serving := false } := by
  rw [serverRead, if_pos ⟨h.serving, hne⟩, OrderRequest.serve_of_error hr]
  simp only [decoded, hr, List.append_nil]

theorem serverRead_idle (h : ¬ (s.serving = true ∧ s.chunk n ≠ [])) : s.serverRead n = s := if_neg h

/-- A chunk is a part of what is in flight, which begins with the first request that was not executed. -/
theorem exists_unread (h : Framed s) (hne : s.chunk n ≠ []) : ∃ r rest, s.sent = s.executed ++ r :: rest ∧
    s.toServer = r.serialize ++ rest.flatMap OrderRequest.serialize ∧
      s.chunk n <+: r.serialize ++ rest.flatMap OrderRequest.serialize := by
  obtain ⟨unread, hsent, hbytes⟩ := h.unread
  cases unread with
  | nil =>
    rw [List.flatMap_nil] at hbytes
    exact absurd (by rw [chunk, hbytes, List.take_nil]) hne
  | cons r rest =>
    rw [List.flatMap_cons] at hbytes
    refine ⟨r, rest, hsent, hbytes, ?_⟩
    rw [← hbytes]
    exact List.take_prefix _ _

/-! ### A whole read keeps the frame -/

theorem framed_send (h : Framed s) : Framed s.send := by
  unfold send
  split
  · exact h
  · next c calls hcalls =>
    split_ifs
    · exact h
    · obtain ⟨unread, hsent, hbytes⟩ := h.unread
      have hfree := h.calls
      rw [hcalls] at hfree
      obtain ⟨hc, hrest⟩ := List.forall_mem_cons.mp hfree
      refine ⟨h.serving, h.book, ⟨unread ++ [c.request s.nextClientId], ?_, ?_⟩, hrest, ?_⟩
      · rw [hsent, List.append_assoc]
      · rw [hbytes, List.flatMap_append, List.flatMap_singleton]
      · intro r hr
        rcases List.mem_append.mp hr with hr | hr
        · exact h.names r hr
        · rw [List.mem_singleton.mp hr]
          exact hc.request _

theorem framed_clientRead (h : Framed s) (n : Nat) : Framed (s.clientRead n) := by
  unfold clientRead
  split_ifs
  · exact ⟨h.serving, h.book, h.unread, h.calls, h.names⟩
  · exact h

theorem framed_serverRead (h : Framed s) (hwhole : WholeReads s (.serverRead n)) : Framed (s.serverRead n) := by
  by_cases hne : s.chunk n = []
  · rwa [serverRead_idle fun hread => hread.2 hne]
  obtain ⟨r, rest, hsent, hbytes, -⟩ := exists_unread h hne
  obtain ⟨r', hr', hchunk⟩ := hwhole h.serving hne
  have hsame : r' = r := by
    rw [hsent, List.getElem?_append_right (Nat.le_refl _), Nat.sub_self] at hr'
    exact (Option.some.inj hr').symm
  subst hsame
  have hname : comma ∉ r'.requestOrder.mName := h.names r' (by rw [hsent]; simp)
  have hdecoded : OrderRequest.deserialize (s.chunk n) = .ok r' := by
    rw [hchunk]
    exact OrderRequest.deserialize_serialize hname
  rw [serverRead_ok h hne hdecoded]
  refine ⟨h.serving, wellFormed_next h.book _, ⟨rest, ?_, ?_⟩, h.calls, h.names⟩
  · rw [hsent, List.append_assoc]
    rfl
  · have hsplit := List.take_append_drop (min n bufferSize) s.toServer
    rw [← chunk, hchunk] at hsplit
    exact List.append_cancel_left (hsplit.trans hbytes)

theorem framed_next (h : Framed s) {event : Event} (hwhole : WholeReads s event) :
    Framed (machine.next s event) := by
  cases event with
  | send => exact framed_send h
  | serverRead n => exact framed_serverRead h hwhole
  | clientRead n => exact framed_clientRead h n
  | engineCall c => exact ⟨h.serving, wellFormed_next h.book c, h.unread, h.calls, h.names⟩

/-! ### Any other read breaks the order entry -/

theorem numbered_send (h : Numbered s) : Numbered s.send := by
  unfold send
  split
  · exact h
  · next c calls hcalls =>
    split_ifs
    · exact h
    · have hbound := h.bounded
      rw [hcalls, List.length_cons] at hbound
      have hnext : (s.nextClientId + 1).toNat = s.nextClientId.toNat + 1 := by
        rw [UInt64.toNat_add]
        exact Nat.mod_eq_of_lt (by rw [UInt64.toNat_one]; omega)
      refine ⟨fun hzero => ?_, ?_, fun r hr => ?_⟩
      · have := congrArg UInt64.toNat hzero
        rw [hnext] at this
        cases this
      · dsimp only
        omega
      · rcases List.mem_append.mp hr with hr | hr
        · exact h.sent r hr
        · rw [List.mem_singleton.mp hr]
          cases c <;> exact h.positive

theorem numbered_next (h : Numbered s) (event : Event) : Numbered (machine.next s event) := by
  cases event with
  | send => exact numbered_send h
  | serverRead n =>
    show Numbered (s.serverRead n)
    unfold serverRead
    split_ifs
    · split <;> exact ⟨h.positive, h.bounded, h.sent⟩
    · exact h
  | clientRead n =>
    show Numbered (s.clientRead n)
    unfold clientRead
    split_ifs
    · exact ⟨h.positive, h.bounded, h.sent⟩
    · exact h
  | engineCall c => exact ⟨h.positive, h.bounded, h.sent⟩

/-- A read that does not return the whole request, and only that, loses a request or makes up another. -/
theorem not_inStep_serverRead (h : Framed s) (hn : Numbered s) (hpart : ¬ WholeReads s (.serverRead n)) :
    ¬ InStep (s.serverRead n) := by
  simp only [WholeReads, not_forall] at hpart
  obtain ⟨-, hne, hpart⟩ := hpart
  obtain ⟨r, rest, hsent, hbytes, hprefix⟩ := exists_unread h hne
  have hindex : s.sent[s.executed.length]? = some r := by
    rw [hsent, List.getElem?_append_right (Nat.le_refl _), Nat.sub_self]
    rfl
  have hr : r ∈ s.sent := by rw [hsent]; simp
  intro hstep
  cases hdecode : OrderRequest.deserialize (s.chunk n) with
  | error err =>
    rw [serverRead_error h hne hdecode] at hstep
    have hall := hstep.all (Or.inr rfl)
    rw [hsent] at hall
    exact absurd (List.self_eq_append_right.mp hall) (List.cons_ne_nil r rest)
  | ok r' =>
    have horder := hstep.inOrder
    rw [serverRead_ok h hne hdecode, hsent, List.prefix_append_right_inj] at horder
    have hsame : r' = r := List.singleton_prefix_cons_iff.mp horder
    subst hsame
    apply hpart
    refine ⟨r', hindex, OrderRequest.eq_serialize_of_deserialize (h.names r' hr) hprefix ?_ hdecode⟩
    -- what follows the request is the next one, which begins with its client id
    cases rest with
    | nil => exact fun x hx => absurd hx (by simp)
    | cons r₂ rest =>
      rw [List.flatMap_cons]
      exact OrderRequest.head_serialize (hn.sent r₂ (by rw [hsent]; simp)) _

theorem not_inStep_next (h : Framed s) (hn : Numbered s) {event : Event} (hpart : ¬ WholeReads s event) :
    ¬ InStep (machine.next s event) := by
  cases event with
  | serverRead n => exact not_inStep_serverRead h hn hpart
  | send | clientRead | engineCall => exact absurd trivial hpart

/-! ### The engine of a connection -/

theorem serverRead_engine (hb : WellFormed s.engine.orderBook) (n : Nat) : ∃ requests : List OrderRequest,
    (s.serverRead n).executed = s.executed ++ requests ∧
      (s.serverRead n).engine = MatchingEngine.machine.run s.engine (requests.map OrderRequest.call) := by
  by_cases hread : s.serving = true ∧ s.chunk n ≠ []
  · rw [serverRead, if_pos hread]
    cases hdecode : OrderRequest.deserialize (s.chunk n) with
    | ok r =>
      rw [serve_ok hb hdecode]
      exact ⟨[r], by simp only [decoded, hdecode], rfl⟩
    | error err =>
      rw [OrderRequest.serve_of_error hdecode]
      exact ⟨[], by simp only [decoded, hdecode], rfl⟩
  · rw [serverRead_idle hread]
    exact ⟨[], (List.append_nil _).symm, rfl⟩

/-- A step calls the engine for the requests it decodes, or for someone else. -/
theorem engine_next (hb : WellFormed s.engine.orderBook) (event : Event) : ∃ log : List (OrderRequest ⊕ Call),
    (machine.next s event).executed = s.executed ++ log.filterMap Sum.getLeft? ∧
      log.filterMap Sum.getRight? = event.engineCall?.toList ∧
      (machine.next s event).engine = MatchingEngine.machine.run s.engine (engineCalls log) := by
  cases event with
  | send =>
    refine ⟨[], ?_, rfl, ?_⟩
    · show s.send.executed = _
      unfold send
      split
      · exact (List.append_nil _).symm
      · split_ifs <;> exact (List.append_nil _).symm
    · show s.send.engine = s.engine
      unfold send
      split
      · rfl
      · split_ifs <;> rfl
  | serverRead n =>
    obtain ⟨requests, hexecuted, hengine⟩ := serverRead_engine hb n
    refine ⟨requests.map Sum.inl, ?_, ?_, ?_⟩
    · rw [List.filterMap_map]
      show (s.serverRead n).executed = s.executed ++ requests.filterMap some
      rw [List.filterMap_some, hexecuted]
    · rw [List.filterMap_map]
      exact List.filterMap_none requests
    · rw [engineCalls, List.map_map]
      exact hengine
  | clientRead n =>
    refine ⟨[], ?_, rfl, ?_⟩
    · show (s.clientRead n).executed = _
      unfold clientRead
      split_ifs <;> exact (List.append_nil _).symm
    · show (s.clientRead n).engine = s.engine
      unfold clientRead
      split_ifs <;> rfl
  | engineCall c => exact ⟨[.inr c], (List.append_nil _).symm, rfl, rfl⟩

theorem engine_run (hb : WellFormed s.engine.orderBook) (past : List Event) : ∃ log : List (OrderRequest ⊕ Call),
    (machine.run s past).executed = s.executed ++ log.filterMap Sum.getLeft? ∧
      log.filterMap Sum.getRight? = past.filterMap Event.engineCall? ∧
      (machine.run s past).engine = MatchingEngine.machine.run s.engine (engineCalls log) := by
  induction past generalizing s with
  | nil => exact ⟨[], (List.append_nil _).symm, rfl, rfl⟩
  | cons event past ih =>
    obtain ⟨log, hexecuted, hothers, hengine⟩ := engine_next hb event
    have hb' : WellFormed (machine.next s event).engine.orderBook := by
      rw [hengine]
      exact Machine.run_invariant (M := MatchingEngine.machine) (I := fun e => WellFormed e.orderBook)
        (fun _ c hb => wellFormed_next hb c) hb _
    obtain ⟨log', hexecuted', hothers', hengine'⟩ := ih hb'
    refine ⟨log ++ log', ?_, ?_, ?_⟩
    · rw [Machine.run, hexecuted', hexecuted, List.filterMap_append, List.append_assoc]
    · rw [List.filterMap_append, hothers, hothers', List.filterMap_cons]
      cases event.engineCall? <;> rfl
    · rw [Machine.run, hengine', hengine, engineCalls, engineCalls, engineCalls, List.map_append, Machine.run_append]

/-! ### The runs -/

theorem framed_new {e : MatchingEngine} (h : Reachable e) {calls : List SessionCall}
    (hcalls : ∀ c ∈ calls, c.CommaFree) : Framed (new calls e) :=
  ⟨rfl, h.wellFormed, ⟨[], rfl, rfl⟩, hcalls, fun _ hr => absurd hr List.not_mem_nil⟩

/-- The engine follows the requests that are decoded in every run, so a run is exact when these are those sent. -/
theorem exactRun_iff {e : MatchingEngine} (h : Reachable e) {calls : List SessionCall} {events : List Event} :
    ExactRun calls e events ↔ machine.States InStep (new calls e) events := by
  rw [Machine.states_iff_prefix]
  refine forall₂_congr fun past _ => ⟨fun hexact => hexact.inStep, fun hstep => ⟨hstep, ?_⟩⟩
  obtain ⟨log, hexecuted, hothers, hengine⟩ := engine_run (s := new calls e) h.wellFormed past
  exact ⟨log, hexecuted.symm, hothers, hengine⟩

/-- **Order entry is exact when every read of the server returns a whole request**, and only then, as long as
the client ids do not wrap. -/
theorem exact_of_wholeReads {e : MatchingEngine} (h : Reachable e) {calls : List SessionCall}
    (hcalls : ∀ c ∈ calls, c.CommaFree) (events : List Event) :
    (machine.Along WholeReads (new calls e) events → ExactRun calls e events) ∧
      (1000 + calls.length < 2 ^ 64 → ExactRun calls e events → machine.Along WholeReads (new calls e) events) := by
  have hnew := framed_new h hcalls
  rw [exactRun_iff h]
  constructor
  · intro halong
    exact (halong.states (I := Framed) (fun _ _ hs hP => framed_next hs hP) hnew).mono fun _ hs => hs.inStep
  · intro hlength
    have hnumbered : Numbered (new calls e) := ⟨nofun, hlength, fun _ hr => absurd hr List.not_mem_nil⟩
    refine (Machine.states_iff_along_of_break (I := fun s => Framed s ∧ Numbered s) ?_ ?_ ?_
      ⟨hnew, hnumbered⟩ events).mp
    · exact fun s event hs hP => ⟨framed_next hs.1 hP, numbered_next hs.2 event⟩
    · exact fun s event hs hno => not_inStep_next hs.1 hs.2 hno
    · exact fun s hs => hs.1.inStep

/-- An order and a cancel, each read as a whole, with a match between the order and its reply. -/
theorem exact_example :
    ExactRun [.placeOrder ⟨.bid, 5, bytes "TSLA", 0, ⟨1000⟩⟩, .cancelOrder 1] (.new 101 0)
      [.send, .serverRead 26, .engineCall .matchLimitOrders, .clientRead 1, .send, .serverRead 24] := by
  have hcalls : ∀ c ∈ [SessionCall.placeOrder ⟨.bid, 5, bytes "TSLA", 0, ⟨1000⟩⟩, .cancelOrder 1],
      c.CommaFree := by
    simp only [List.forall_mem_cons]
    refine ⟨?_, trivial, fun c hc => absurd hc List.not_mem_nil⟩
    show comma ∉ bytes "TSLA"
    decide
  refine (exact_of_wholeReads ⟨0, [], rfl⟩ hcalls _).1 ⟨trivial, fun _ _ =>
    ⟨⟨⟨.bid, 5, bytes "TSLA", 0, ⟨1000⟩⟩, 1000, .new⟩, ?_, ?_⟩, trivial, trivial, trivial, fun _ _ =>
      ⟨⟨⟨.bid, 0, [], 1, ⟨0⟩⟩, 1001, .cancel⟩, ?_, ?_⟩, trivial⟩
  · decide +kernel
  · decide +kernel
  · decide +kernel
  · decide +kernel

/-- An order at 9500 whose last digit is read later: the engine gets an order at 950. -/
theorem truncated_price_executed :
    let s := new [.placeOrder ⟨.bid, 5, bytes "TSLA", 0, ⟨9500⟩⟩] (.new 101 0)
    ¬ ExactRun [.placeOrder ⟨.bid, 5, bytes "TSLA", 0, ⟨9500⟩⟩] (.new 101 0) [.send, .serverRead 25] ∧
      (machine.run s [.send, .serverRead 25]).executed.map OrderRequest.requestOrder =
        [⟨.bid, 5, bytes "TSLA", 0, ⟨950⟩⟩] ∧
      (machine.run s [.send, .serverRead 25]).engine.orderBook.queue .bid 0 = [9999] := by
  intro s
  have hexecuted : (machine.run s [.send, .serverRead 25]).executed.map OrderRequest.requestOrder =
      [⟨.bid, 5, bytes "TSLA", 0, ⟨950⟩⟩] := by decide +kernel
  have hsent : (machine.run s [.send, .serverRead 25]).sent.map OrderRequest.requestOrder =
      [⟨.bid, 5, bytes "TSLA", 0, ⟨9500⟩⟩] := by decide +kernel
  refine ⟨fun h => ?_, hexecuted, by decide +kernel⟩
  have hexact : Exact (.new 101 0) [.send, .serverRead 25] (machine.run s [.send, .serverRead 25]) :=
    h _ List.prefix_rfl
  have hprefix := hexact.inStep.inOrder.map OrderRequest.requestOrder
  rw [hexecuted, hsent] at hprefix
  exact absurd hprefix (by decide)

end Connection

end TradingSystem
