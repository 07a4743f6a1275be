import TradingSystem.Engine.Departures
import TradingSystem.System.Traders

/-!
# What the sessions are told

What a session is returned is what one run of the engine replied to one of its calls (`Agrees.subperm`), so what
holds of all replies of a run holds of all results of the sessions together: no id is returned twice, and an order
that a client of the repository makes is turned down for want of a slot only. The run follows real time
(`Linearization.precedes`), and so do the ids and the queues. And every call returns: one round of its thread and one
read are enough, whatever the others do.
-/

namespace TradingSystem

open Lib Lib.Effects MatchingEngine

/-! ### The replies of a run -/

namespace MatchingEngine

variable {e : MatchingEngine}

def Reply.orderId? : Reply → Option UInt64
  | .added (.ok orderId) => some orderId
  | _ => none

/-- An id that is issued is the next one. -/
theorem orderId_step (hb : WellFormed e.orderBook) (c : Call) {orderId : UInt64}
    (h : (e.step c).1.orderId? = some orderId) : idsIssued e c = 1 ∧ orderId = e.nextId := by
  refine step_induction (P := fun r _ => r.orderId? = some orderId → idsIssued e c = 1 ∧ orderId = e.nextId) hb
    (fun r e' heffect hid => ?_) h
  cases heffect with
  | full | refused | unknown | missed | erased | oneSided | uncrossed | traded => cases hid
  | accepted o hfree =>
    cases hid
    exact ⟨by simp [idsIssued, hfree], rfl⟩

/-- The ids of a run ascend, and are above the counter. -/
theorem ascending_orderIds (hb : WellFormed e.orderBook) {cs : List Call}
    (hfew : e.atomicOrderID.toNat + cs.length < 2 ^ 64) :
    ((machine.outputs e cs).filterMap Reply.orderId?).Pairwise (fun j k => j.toNat < k.toNat) ∧
      ∀ orderId ∈ (machine.outputs e cs).filterMap Reply.orderId?, e.atomicOrderID.toNat < orderId.toNat := by
  induction cs generalizing e with
  | nil => exact ⟨List.Pairwise.nil, fun orderId h => absurd h List.not_mem_nil⟩
  | cons c cs ih =>
    rw [List.length_cons] at hfew
    have hle := idsIssued_le e c
    have hwrap : NoWrap e c := by
      unfold NoWrap
      omega
    have hcounter := toNat_counter_next hb hwrap
    obtain ⟨hascending, habove⟩ := ih (e := machine.next e c) (wellFormed_next hb c) (by omega)
    rw [Machine.outputs, List.filterMap_cons]
    cases hid : (machine.step e c).1.orderId? with
    | none => exact ⟨hascending, fun orderId h => Nat.lt_of_le_of_lt (by omega) (habove orderId h)⟩
    | some orderId =>
      obtain ⟨hone, rfl⟩ := orderId_step hb c hid
      have hnext : e.nextId.toNat = e.atomicOrderID.toNat + 1 := by
        rw [nextId, UInt64.toNat_add]
        exact Nat.mod_eq_of_lt (by rw [UInt64.toNat_one]; omega)
      refine ⟨List.pairwise_cons.mpr ⟨fun k hk => ?_, hascending⟩, fun k hk => ?_⟩
      · have hlt := habove k hk
        omega
      · rcases List.mem_cons.mp hk with rfl | hk
        · omega
        · have hlt := habove k hk
          omega

theorem ordered_of_few {counter : UInt64} {cs : List Call} (hfew : counter.toNat + cs.length < 2 ^ 64) :
    Ordered (machine.run (new 101 counter) cs) := by
  have htotal := Machine.total_le_length (M := machine) idsIssued_le (new 101 counter) cs
  exact ordered_run (by omega)

/-- An order with a level is accepted, or there is no slot for it. -/
theorem added_of_level (hb : WellFormed e.orderBook) {o : Order} {l : Nat} (hlevel : levelOf o.mPrice = some l) :
    (∃ orderId, (e.step (.addOrder o)).1 = .added (.ok orderId)) ∨ (e.step (.addOrder o)).1 =
      .added (.error (.runtimeError "freeStack is full: there are no objects to acquire")) := by
  refine step_induction (c := .addOrder o) (P := fun r _ => (∃ orderId, r = .added (.ok orderId)) ∨
    r = .added (.error (.runtimeError "freeStack is full: there are no objects to acquire"))) hb
    fun r e' heffect => ?_
  cases heffect with
  | full => exact Or.inr rfl
  | refused _ _ hnone =>
    rw [hlevel] at hnone
    cases hnone
  | accepted => exact Or.inl ⟨_, rfl⟩

end MatchingEngine

/-! ### No id twice -/

def SessionResult.orderId? : SessionResult → Option UInt64
  | .placed (.ok orderId) => some orderId
  | _ => none

theorem orderId_outcome {c : Call} {r : Reply} {orderId : UInt64} (h : (outcome c r).orderId? = some orderId) :
    r.orderId? = some orderId := by
  cases c with
  | addOrder o =>
    cases r with
    | added result =>
      cases result with
      | ok k => exact h
      | error err => cases h
    | cancelled result => cases h
    | matched result => cases h
  | cancelOrder k => cases h
  | matchLimitOrders => cases h

/-- The ids that callers are given are ids that were issued. -/
theorem orderIds_given (log : List (Entry Nat Call Reply)) :
    List.Sublist ((given outcome log).filterMap fun r => r.2.2.orderId?)
      ((log.map Entry.out).filterMap Reply.orderId?) := by
  induction log with
  | nil => exact .slnil
  | cons x log ih =>
    have hrest : List.Sublist ((given outcome log).filterMap fun r => r.2.2.orderId?)
        (((x :: log).map Entry.out).filterMap Reply.orderId?) := by
      rw [List.map_cons, List.filterMap_cons]
      split
      · exact ih
      · exact ih.cons _
    rw [given, List.filterMap_cons]
    cases hcaller : x.caller with
    | none => exact hrest
    | some p =>
      rw [Option.map_some, List.filterMap_cons]
      dsimp only
      cases hid : (x.result outcome).2.orderId? with
      | none => exact hrest
      | some orderId =>
        rw [List.map_cons, List.filterMap_cons, orderId_outcome hid]
        exact ih.cons_cons orderId

/-- A result with an id comes from a reply with the id. -/
theorem orderId_mem {log : List (Entry Nat Call Reply)} {x : Entry Nat Call Reply} (hx : x ∈ log) {op : Call}
    {orderId : UInt64} (h : x.result outcome = (op, .placed (.ok orderId))) :
    orderId ∈ (log.map Entry.out).filterMap Reply.orderId? := by
  refine List.mem_filterMap.mpr ⟨x.out, List.mem_map_of_mem hx, orderId_outcome (c := x.op) ?_⟩
  have hresult : outcome x.op x.out = .placed (.ok orderId) := congrArg Prod.snd h
  rw [hresult]
  rfl

theorem nodup_given {e : MatchingEngine} (hb : WellFormed e.orderBook) {log : List (Entry Nat Call Reply)}
    (houtputs : MatchingEngine.machine.outputs e (log.map Entry.op) = log.map Entry.out)
    (hfew : e.atomicOrderID.toNat + log.length < 2 ^ 64) :
    ((given outcome log).filterMap fun r => r.2.2.orderId?).Nodup := by
  have hops : e.atomicOrderID.toNat + (log.map Entry.op).length < 2 ^ 64 := by rwa [List.length_map]
  have hascending := (ascending_orderIds hb hops).1
  rw [houtputs] at hascending
  refine (hascending.imp fun {j k} hlt => ?_).sublist (orderIds_given log)
  rintro rfl
  exact absurd hlt (Nat.lt_irrefl _)

namespace System

/-- **No id is returned twice** to the sessions, until the counter wraps. -/
theorem nodup_orderIds (G : Nat → Prop) [DecidablePred G] (counter : UInt64) {events : List Event}
    (halong : machine.Along (Proper G) (start (.new 101 counter)) events)
    (hfew : counter.toNat + events.length < 2 ^ 64) :
    ((returns ((machine.outputs (start (.new 101 counter)) events).flatMap (seen G))).filterMap
      fun r => r.2.2.orderId?).Nodup := by
  have hreach : Reachable (new 101 counter) := ⟨counter, [], rfl⟩
  obtain ⟨ks, hlength, -, hseen, -⟩ := exists_shared_run G hreach halong
  have h := Shared.linearization_run MatchingEngine.machine outcome (new 101 counter) ks
  have hlog := Shared.length_log_le MatchingEngine.machine outcome (Shared.start (new 101 counter)) ks
  have hnodup := nodup_given (wellFormed_new counter) h.outputs (show counter.toNat + _ < _ by omega)
  obtain ⟨given', hperm, hsub⟩ := h.agrees.subperm
  rw [← hseen]
  exact (hperm.filterMap _).nodup_iff.mp (hnodup.sublist (hsub.filterMap _))

/-- Two sessions place an order each, and are answered in the other order. -/
theorem nodup_orderIds_example :
    let events : List Event := [.call 0 (.placeOrder ⟨.bid, 5, bytes "TSLA", 0, ⟨1000⟩⟩),
      .call 1 (.placeOrder ⟨.ask, 5, bytes "TSLA", 0, ⟨1000⟩⟩), .serverRead 1 1024, .serverRead 0 1024,
      .clientRead 0 1024, .clientRead 1 1024]
    let ids := (returns ((machine.outputs (start (.new 101 7)) events).flatMap (seen (· < 2)))).filterMap
      fun r => r.2.2.orderId?
    ids.Nodup ∧ ids = [9, 8] := by
  intro events ids
  refine ⟨nodup_orderIds (· < 2) 7 ?_ ?_, ?_⟩
  · decide +kernel
  · decide
  · decide +kernel

/-! ### First come, first served -/

theorem returned_mem {G : Nat → Prop} [DecidablePred G] {outputs : List (List Output)} {i : Nat} (hi : G i)
    {c : SessionCall} {result : SessionResult} (h : .returned i c result ∈ outputs.flatten) :
    (i, c.call, result) ∈ returns (outputs.flatMap (seen G)) := by
  obtain ⟨out, hout, hx⟩ := List.mem_flatten.mp h
  refine List.mem_filterMap.mpr ⟨.returned i c.call result, List.mem_flatMap.mpr ⟨out, hout, ?_⟩, rfl⟩
  exact List.mem_filterMap.mpr ⟨.returned i c result, hx, if_pos hi⟩

/-- A session without a pending call was returned all its calls. -/
theorem length_invokedBy_of_idle {G : Nat → Prop} [DecidablePred G] {e : MatchingEngine} (h : Reachable e)
    {before : List Event} (halong : machine.Along (Proper G) (start e) before) {j : Nat} (hj : G j)
    (hidle : ((machine.run (start e) before).peer j).pending = none) :
    (invokedBy j ((machine.outputs (start e) before).flatMap (seen G))).length =
      (returnedBy j ((machine.outputs (start e) before).flatMap (seen G))).length := by
  obtain ⟨ks, -, hsim, hseen, -⟩ := exists_shared_run G h halong
  rw [← hseen]
  refine (Shared.accounted_run MatchingEngine.machine outcome e ks).length_invokedBy ?_
  have hserved := hsim.served j hj
  cases hstatus : ((Shared.machine MatchingEngine.machine outcome).run (Shared.start e) ks).status j with
  | idle => rfl
  | waiting op =>
    rw [hstatus] at hserved
    obtain ⟨c, id, hpending, -⟩ := hserved
    rw [hidle] at hpending
    cases hpending
  | done op reply =>
    rw [hstatus] at hserved
    obtain ⟨c, hpending, -⟩ := hserved
    rw [hidle] at hpending
    cases hpending

/-- **First come, first served**, across all sessions: an order whose id is returned before another session places
its order has the smaller id, and never stands behind the other. -/
theorem served_in_order (G : Nat → Prop) [DecidablePred G] (counter : UInt64) {before after : List Event}
    (halong : machine.Along (Proper G) (start (.new 101 counter)) (before ++ after))
    (hfew : counter.toNat + (before ++ after).length < 2 ^ 64) {i j : Nat} (hi : G i) (hj : G j)
    {c c' : SessionCall} {k k' : UInt64}
    (hreturned : .returned i c (.placed (.ok k)) ∈ (machine.outputs (start (.new 101 counter)) before).flatten)
    (hidle : ((machine.run (start (.new 101 counter)) before).peer j).pending = none)
    (hreturned' : .returned j c' (.placed (.ok k')) ∈
      (machine.outputs (machine.run (start (.new 101 counter)) before) after).flatten) :
    let b := (machine.run (start (.new 101 counter)) (before ++ after)).engine.orderBook
    k < k' ∧ ∀ s l, ¬ List.Sublist [k', k] ((b.queue s l).map fun p => (b.order p).mOrderID) := by
  have hreach : Reachable (new 101 counter) := ⟨counter, [], rfl⟩
  obtain ⟨ks, hlength, hsim, hseen, -⟩ := exists_shared_run G hreach halong
  have hlinear := Shared.linearization_run MatchingEngine.machine outcome (new 101 counter) ks
  have hlog := Shared.length_log_le MatchingEngine.machine outcome (Shared.start (new 101 counter)) ks
  have hbefore := ((Machine.along_append _ _ _).mp halong).1
  rw [hsim.object] at hlinear
  rw [hseen, Machine.outputs_append, List.flatMap_append] at hlinear
  obtain ⟨past, future, hsplit, ⟨x, hx, hresult⟩, x', hx', hresult'⟩ :=
    hlinear.precedes (length_invokedBy_of_idle hreach hbefore hj hidle).le
      (mem_returnedBy (returned_mem hi hreturned)) (mem_returnedBy (returned_mem hj hreturned'))
  have hlt : k.toNat < k'.toNat := by
    have hops : counter.toNat + ((past ++ future).map Entry.op).length < 2 ^ 64 := by
      rw [List.length_map, ← hsplit]
      omega
    have hascending := (ascending_orderIds (wellFormed_new counter) hops).1
    rw [← hsplit, hlinear.outputs, hsplit, List.map_append, List.filterMap_append] at hascending
    refine (List.pairwise_append.mp hascending).2.2 k ?_ k' ?_
    · exact orderId_mem hx hresult
    · exact orderId_mem hx' hresult'
  have hordered : Ordered (machine.run (start (.new 101 counter)) (before ++ after)).engine := by
    rw [← hlinear.run]
    exact ordered_of_few (by rw [List.length_map]; omega)
  refine ⟨UInt64.lt_iff_toNat_lt.mpr hlt, fun s l hsub => ?_⟩
  have hpair := (List.pairwise_map.mpr (hordered.ascending s l)).sublist hsub
  have hgt : k' < k := List.rel_of_pairwise_cons hpair (List.mem_singleton_self k)
  rw [UInt64.lt_iff_toNat_lt] at hgt
  omega

/-- A session bids at the price at which another one was told that its bid is accepted. -/
theorem served_in_order_example :
    let order : Order := ⟨.bid, 5, bytes "TSLA", 0, ⟨1000⟩⟩
    let before : List Event := [.call 0 (.placeOrder order), .serverRead 0 1024, .clientRead 0 1024]
    let after : List Event := [.call 1 (.placeOrder order), .matchOrders, .serverRead 1 1024, .clientRead 1 1024]
    let b := (machine.run (start (.new 101 7)) (before ++ after)).engine.orderBook
    ((8 : UInt64) < 9 ∧ ∀ s l, ¬ List.Sublist [9, 8] ((b.queue s l).map fun p => (b.order p).mOrderID)) ∧
      ((b.queue .bid 50).map fun p => (b.order p).mOrderID) = [8, 9] := by
  intro order before after b
  have hreturned : .returned 0 (.placeOrder order) (.placed (.ok 8)) ∈
      (machine.outputs (start (.new 101 7)) before).flatten := by decide +kernel
  have hreturned' : .returned 1 (.placeOrder order) (.placed (.ok 9)) ∈
      (machine.outputs (machine.run (start (.new 101 7)) before) after).flatten := by decide +kernel
  refine ⟨served_in_order (· < 2) 7 ?_ ?_ (by decide) (by decide) hreturned ?_ hreturned', ?_⟩
  · decide +kernel
  · decide
  · decide +kernel
  · decide +kernel

end System

namespace TraderClient

/-- What a client calls: in its random loop, or from the forms of its terminal with a ticker that a request can
carry. -/
inductive Makes : SessionCall → Prop
  | random {draw : Draw} {last : Option SessionResult} {c : SessionCall} (h : nextCall draw last = some c) : Makes c
  | order {tickerSymbol side qty price : Bytes} {c : SessionCall} (hfree : comma ∉ tickerSymbol)
      (hlength : tickerSymbol.length ≤ 900) (h : orderForm tickerSymbol side qty price = .ok (some c)) : Makes c
  | cancel {orderId : Bytes} {c : SessionCall} (h : cancelForm orderId = .ok c) : Makes c

/-- What the order form lets pass. -/
theorem orderForm_call {tickerSymbol side qty price : Bytes} {c : SessionCall}
    (h : orderForm tickerSymbol side qty price = .ok (some c)) : ∃ volume value,
      c = placeOrder tickerSymbol (side.map toupper) volume value ∧ 950 ≤ value.toNat ∧ value.toNat ≤ 1050 := by
  rw [orderForm] at h
  cases hprice : stoull price with
  | error err =>
    rw [hprice] at h
    cases h
  | ok value =>
    rw [hprice] at h
    simp only [bind, Except.bind, pure, Except.pure] at h
    split_ifs at h with hrange
    · cases h
    · cases hqty : stoull qty with
      | error err =>
        rw [hqty] at h
        cases h
      | ok volume =>
        rw [hqty] at h
        cases h
        rw [not_or, UInt64.not_lt, UInt64.not_lt, UInt64.le_iff_toNat_le, UInt64.le_iff_toNat_le] at hrange
        exact ⟨volume, value, rfl, hrange⟩

theorem Makes.sound {c : SessionCall} (h : Makes c) : c.Sound := by
  cases h with
  | random h => exact (nextCall_cases h).1
  | order hfree hlength h =>
    obtain ⟨volume, value, rfl, hlow, hhigh⟩ := orderForm_call h
    exact ⟨levelOf_inRange hlow hhigh, hfree, hlength⟩
  | @cancel orderId c h =>
    rw [cancelForm] at h
    cases hid : stoull orderId with
    | error err =>
      rw [hid] at h
      cases h
    | ok k =>
      rw [hid] at h
      cases h
      trivial

end TraderClient

namespace System

/-! ### The orders of the clients -/

/-- The sessions in `G` are those of clients. -/
def ByClients (G : Nat → Prop) : Event → Prop
  | .call i c => G i → TraderClient.Makes c
  | _ => True

variable {G : Nat → Prop} {s : System} {events : List Event} {i : Nat}

theorem called_step {event : Event} {c : SessionCall} (h : .called i c ∈ (s.step event).1) : event = .call i c := by
  cases event with
  | call j c' =>
    have h : .called i c ∈ (s.call j c').1 := h
    unfold call at h
    dsimp only at h
    split at h
    · cases h
    · cases List.mem_singleton.mp h
      rfl
  | clientRead j n =>
    have h : .called i c ∈ (s.clientRead j n).1 := h
    unfold clientRead at h
    dsimp only at h
    split at h
    · split_ifs at h
      · cases List.mem_singleton.mp h
      · cases h
    · cases h
  | write | serverRead | disconnected | matchOrders | sendTrade | publish => cases h

theorem called_run {P : System → Event → Prop} (halong : machine.Along P s events) {c : SessionCall}
    (hcalled : .called i c ∈ (machine.outputs s events).flatten) : ∃ s', P s' (.call i c) := by
  induction events generalizing s with
  | nil => cases hcalled
  | cons event events ih =>
    rw [Machine.outputs, List.flatten_cons, List.mem_append] at hcalled
    rcases hcalled with hcalled | hcalled
    · obtain rfl := called_step hcalled
      exact ⟨s, halong.1⟩
    · exact ih halong.2 hcalled

theorem called_of_invoked [DecidablePred G] {outputs : List (List Output)} {op : Call}
    (h : op ∈ invokedBy i (outputs.flatMap (seen G))) :
    ∃ c, G i ∧ c.call = op ∧ .called i c ∈ outputs.flatten := by
  obtain ⟨x, hx, hop⟩ := List.mem_filterMap.mp h
  obtain ⟨out, hout, hx⟩ := List.mem_flatMap.mp hx
  obtain ⟨y, hy, hseen⟩ := List.mem_filterMap.mp hx
  have hmem : y ∈ outputs.flatten := List.mem_flatten_of_mem hout hy
  cases y with
  | returned j c result =>
    dsimp only at hseen
    split_ifs at hseen
    cases hseen
    cases hop
  | called j c =>
    dsimp only at hseen
    split_ifs at hseen with hj
    cases hseen
    dsimp only at hop
    split_ifs at hop with hji
    subst hji
    exact ⟨c, hj, Option.some.inj hop, hmem⟩

/-- **An order of a client is turned down for want of a slot only**: every `placeOrder` of a client returns an id,
or throws that the pool is empty. -/
theorem placed_or_full (G : Nat → Prop) [DecidablePred G] {e : MatchingEngine} (h : Reachable e)
    (halong : machine.Along (fun s event => Proper G s event ∧ ByClients G event) (start e) events) (hi : G i)
    {order : Order} {result : SessionResult}
    (hreturned : .returned i (.placeOrder order) result ∈ (machine.outputs (start e) events).flatten) :
    (∃ orderId, result = .placed (.ok orderId)) ∨ result = .placed (.error (.runtimeError
      "Order rejected: Order rejected: freeStack is full: there are no objects to acquire")) := by
  obtain ⟨hproper, hclients⟩ := (Machine.along_and _ _).mp halong
  obtain ⟨ks, -, -, hseen, -⟩ := exists_shared_run G h hproper
  have hlinear := Shared.linearization_run MatchingEngine.machine outcome e ks
  rw [hseen] at hlinear
  obtain ⟨x, hx, hcaller, hresult⟩ := mem_given (hlinear.agrees.subperm.subset (returned_mem hi hreturned))
  obtain ⟨hop, hout⟩ := Prod.mk.inj hresult
  have hinvoked := (hlinear.agrees.invoked i).subset (List.mem_map_of_mem (List.mem_filter.mpr ⟨hx, by simpa⟩))
  obtain ⟨c, -, hcall, hcalled⟩ := called_of_invoked hinvoked
  obtain ⟨s', hmakes⟩ := called_run hclients hcalled
  have hsound : SessionCall.Sound (.placeOrder order) := by
    rw [hop] at hcall
    cases c with
    | placeOrder order' =>
      cases hcall
      exact (hmakes hi).sound
    | cancelOrder orderId => cases hcall
  obtain ⟨l, hlevel⟩ := hsound.1
  have hadded := forall_entry (I := fun e => WellFormed e.orderBook) (P := fun op r => op = .addOrder order →
      (∃ orderId, r = .added (.ok orderId)) ∨
        r = .added (.error (.runtimeError "freeStack is full: there are no objects to acquire")))
    (fun _ c hb => wellFormed_next hb c) (fun _ _ hb hadd => hadd ▸ added_of_level hb hlevel) h.wellFormed
    hlinear.outputs x hx hop
  rw [hop] at hout
  rw [← hout]
  rcases hadded with ⟨orderId, hreply⟩ | hreply
  · rw [hreply]
    exact Or.inl ⟨orderId, rfl⟩
  · rw [hreply]
    exact Or.inr rfl

/-- An order that is typed into the form of the terminal. -/
theorem placed_or_full_example :
    let order : Order := ⟨.bid, 5, bytes "TSLA", 0, ⟨1000⟩⟩
    let result : SessionResult := .placed (.ok 1)
    TraderClient.orderForm (bytes "TSLA") (bytes "buy") (bytes "5") (bytes "1000") = .ok (some (.placeOrder order)) ∧
      ((∃ orderId, result = .placed (.ok orderId)) ∨ result = .placed (.error (.runtimeError
        "Order rejected: Order rejected: freeStack is full: there are no objects to acquire"))) := by
  intro order result
  have hform : TraderClient.orderForm (bytes "TSLA") (bytes "buy") (bytes "5") (bytes "1000") =
      .ok (some (.placeOrder order)) := by decide +kernel
  have hclients : machine.Along (fun _ event => ByClients (· < 1) event) (start (.new 101 0))
      [.call 0 (.placeOrder order), .serverRead 0 1024, .clientRead 0 1024] :=
    ⟨fun _ => .order (by decide) (by decide) hform, trivial, trivial, trivial⟩
  have hreturned : .returned 0 (.placeOrder order) result ∈ (machine.outputs (start (.new 101 0))
      [.call 0 (.placeOrder order), .serverRead 0 1024, .clientRead 0 1024]).flatten := by decide +kernel
  refine ⟨hform, placed_or_full (· < 1) ⟨0, [], rfl⟩ ((Machine.along_and _ _).mpr ⟨?_, hclients⟩) (by decide)
    hreturned⟩
  decide +kernel

/-! ### Every call returns -/

/-- The call of peer `i` is still pending, and what was sent to it is still there. -/
structure Awaits (s s' : System) (i : Nat) : Prop where
  pending : (s'.peer i).pending = (s.peer i).pending
  toClient : (s.peer i).toClient <+: (s'.peer i).toClient

theorem awaits_of_peer {s' : System} (h : s'.peer i = s.peer i) : Awaits s s' i :=
  ⟨congrArg Peer.pending h, h ▸ List.prefix_rfl⟩

theorem awaits_setPeer {s' : System} {j : Nat} {peer : Peer} (hs' : s'.peer = (s.setPeer j peer).peer)
    (h : i = j → peer.pending = (s.peer i).pending ∧ (s.peer i).toClient <+: peer.toClient) : Awaits s s' i := by
  by_cases hij : i = j
  · obtain ⟨hpending, hclient⟩ := h hij
    have hpeer : s'.peer i = peer := by rw [hs', setPeer_peer, if_pos hij]
    exact ⟨(congrArg Peer.pending hpeer).trans hpending, by rw [hpeer]; exact hclient⟩
  · exact awaits_of_peer (by rw [hs', setPeer_peer, if_neg hij])

/-- A call that is pending stays so until it returns. -/
theorem awaits_step {c : SessionCall} (hpending : (s.peer i).pending = some c) (event : Event) :
    (∃ result, .returned i c result ∈ (s.step event).1) ∨ Awaits s (s.step event).2 i := by
  cases event with
  | call j c' =>
    refine Or.inr ?_
    show Awaits s (s.call j c').2 i
    unfold call
    dsimp only
    split
    · exact awaits_of_peer rfl
    · next hnone =>
      refine awaits_setPeer rfl fun hij => ?_
      rw [← hij, hpending] at hnone
      cases hnone
  | write j data =>
    refine Or.inr (awaits_setPeer rfl ?_)
    rintro rfl
    exact ⟨rfl, List.prefix_rfl⟩
  | serverRead j n =>
    refine Or.inr ?_
    show Awaits s (s.serverRead j n) i
    unfold serverRead
    dsimp only
    split_ifs
    · split
      · refine awaits_setPeer rfl ?_
        rintro rfl
        exact ⟨rfl, List.prefix_append _ _⟩
      · refine awaits_setPeer rfl ?_
        rintro rfl
        exact ⟨rfl, List.prefix_rfl⟩
    · exact awaits_of_peer rfl
  | disconnected j n =>
    refine Or.inr ?_
    show Awaits s (s.disconnected j n) i
    unfold disconnected
    dsimp only
    split_ifs
    · refine awaits_setPeer rfl ?_
      rintro rfl
      exact ⟨rfl, List.prefix_rfl⟩
    · split
      all_goals
        refine awaits_setPeer rfl ?_
        rintro rfl
        exact ⟨rfl, List.prefix_rfl⟩
    · exact awaits_of_peer rfl
  | clientRead j n =>
    show (∃ result, .returned i c result ∈ (s.clientRead j n).1) ∨ Awaits s (s.clientRead j n).2 i
    by_cases hready : (s.peer j).pending = none ∨ (s.peer j).toClient.take (min n bufferSize) = []
    · rw [clientRead_idle hready]
      exact Or.inr (awaits_of_peer rfl)
    · obtain ⟨hsome, hne⟩ := not_or.mp hready
      obtain ⟨c', hpending'⟩ := Option.ne_none_iff_exists'.mp hsome
      rw [clientRead_ready hpending' hne]
      by_cases hij : i = j
      · subst hij
        obtain rfl : c' = c := Option.some.inj (hpending'.symm.trans hpending)
        exact Or.inl ⟨_, List.mem_singleton_self _⟩
      · exact Or.inr (awaits_setPeer rfl fun h => absurd h hij)
  | matchOrders =>
    refine Or.inr (awaits_of_peer ?_)
    show s.matchOrders.peer i = s.peer i
    unfold matchOrders
    split
    · rfl
    · split <;> rfl
  | sendTrade =>
    refine Or.inr (awaits_of_peer ?_)
    show s.sendTrade.peer i = s.peer i
    unfold sendTrade
    split <;> rfl
  | publish =>
    refine Or.inr (awaits_of_peer ?_)
    show s.publish.peer i = s.peer i
    unfold publish
    split
    · rfl
    · split <;> rfl

/-- A read returns a call that is answered. -/
theorem returned_of_answer (halong : machine.Along (Proper G) s events) (hi : G i) {c : SessionCall}
    (hpending : (s.peer i).pending = some c) (hclient : (s.peer i).toClient ≠ []) {n : Nat}
    (hread : .clientRead i n ∈ events) : ∃ result, .returned i c result ∈ (machine.outputs s events).flatten := by
  induction events generalizing s with
  | nil => cases hread
  | cons event events ih =>
    rw [Machine.outputs, List.flatten_cons]
    rcases awaits_step hpending event with ⟨result, hreturned⟩ | hawaits
    · exact ⟨result, List.mem_append_left _ hreturned⟩
    rcases List.mem_cons.mp hread with rfl | hread
    · have hn : (s.peer i).toClient.length ≤ n := halong.1 hi
      have hne : (s.peer i).toClient.take (min n bufferSize) ≠ [] := by
        have hpos := List.length_pos_iff.mpr hclient
        rw [ne_eq, List.take_eq_nil_iff, not_or, bufferSize]
        exact ⟨by omega, hclient⟩
      have hreturned : .returned i c (c.result ((s.peer i).toClient.take (min n bufferSize))) ∈
          (s.clientRead i n).1 := by
        rw [clientRead_ready hpending hne]
        exact List.mem_singleton_self _
      exact ⟨_, List.mem_append_left _ hreturned⟩
    · have hclient' := hawaits.toClient.ne_nil hclient
      obtain ⟨result, hreturned⟩ := ih halong.2 (hawaits.pending.trans hpending) hclient' hread
      exact ⟨result, List.mem_append_right _ hreturned⟩

/-- After a round of its thread a call is answered. -/
theorem toClient_serverRead {a : Shared Nat MatchingEngine Call Reply} (h : Simulates G s a) (hi : G i)
    {c : SessionCall} (hpending : (s.peer i).pending = some c) {n : Nat} (hn : (s.peer i).toServer.length ≤ n) :
    ((s.serverRead i n).peer i).toClient ≠ [] := by
  have hserved := h.served i hi
  cases hstatus : a.status i with
  | idle =>
    rw [hstatus] at hserved
    rw [hserved.1] at hpending
    cases hpending
  | waiting op =>
    obtain ⟨c', response, -, -, hconveys, hnext⟩ := serverRead_waiting h hi hn hstatus
    rw [hnext]
    show ((s.setPeer i _).peer i).toClient ≠ []
    rw [setPeer_peer, if_pos rfl]
    exact hconveys.nonempty
  | done op reply =>
    rw [hstatus] at hserved
    obtain ⟨c', -, -, hserver, hconveys⟩ := hserved
    rw [serverRead_idle fun hread => hread.2 (by rw [hserver, List.take_nil])]
    exact hconveys.nonempty

theorem returned_of_reads [DecidablePred G] {a : Shared Nat MatchingEngine Call Reply} (h : Simulates G s a)
    (halong : machine.Along (Proper G) s events) (hi : G i) {c : SessionCall}
    (hpending : (s.peer i).pending = some c) {n n' : Nat}
    (hreads : List.Sublist [.serverRead i n, .clientRead i n'] events) :
    ∃ result, .returned i c result ∈ (machine.outputs s events).flatten := by
  induction events generalizing s a with
  | nil => cases hreads
  | cons event events ih =>
    rw [Machine.outputs, List.flatten_cons]
    rcases awaits_step hpending event with ⟨result, hreturned⟩ | hawaits
    · exact ⟨result, List.mem_append_left _ hreturned⟩
    have hpending' := hawaits.pending.trans hpending
    cases hreads with
    | cons _ hreads =>
      obtain ⟨ks, -, hsim, -⟩ := matched_step h halong.1
      obtain ⟨result, hreturned⟩ := ih hsim halong.2 hpending' hreads
      exact ⟨result, List.mem_append_right _ hreturned⟩
    | cons_cons _ hread =>
      have hclient := toClient_serverRead h hi hpending (halong.1 hi)
      obtain ⟨result, hreturned⟩ :=
        returned_of_answer halong.2 hi hpending' hclient (List.singleton_sublist.mp hread)
      exact ⟨result, List.mem_append_right _ hreturned⟩

/-- **Every call returns**: a call of a session that is pending returns in every run that has a round of the thread
of its connection and after it a read of the session, whatever else happens before, between and after. -/
theorem call_returns (G : Nat → Prop) [DecidablePred G] {e : MatchingEngine} (h : Reachable e)
    {before : List Event} (halong : machine.Along (Proper G) (start e) (before ++ events)) (hi : G i)
    {c : SessionCall} (hpending : ((machine.run (start e) before).peer i).pending = some c) {n n' : Nat}
    (hreads : List.Sublist [.serverRead i n, .clientRead i n'] events) :
    ∃ result, .returned i c result ∈ (machine.outputs (machine.run (start e) before) events).flatten := by
  obtain ⟨hbefore, hafter⟩ := (Machine.along_append _ _ _).mp halong
  obtain ⟨ks, -, hsim, -⟩ := exists_shared_run G h hbefore
  exact returned_of_reads hsim hafter hi hpending hreads

/-- The call of a session while a client that writes no request is served, and after it. -/
theorem call_returns_example :
    let before : List Event := [.write 1 (bytes "hello"), .call 0 (.placeOrder ⟨.bid, 5, bytes "TSLA", 0, ⟨1000⟩⟩)]
    let events : List Event := [.serverRead 1 3, .matchOrders, .serverRead 0 1024, .publish, .clientRead 0 1024]
    ∃ result, .returned 0 (.placeOrder ⟨.bid, 5, bytes "TSLA", 0, ⟨1000⟩⟩) result ∈
      (machine.outputs (machine.run (start (.new 101 0)) before) events).flatten := by
  intro before events
  have hreads : List.Sublist [.serverRead 0 1024, .clientRead 0 1024] events :=
    ((((List.Sublist.refl _).cons _).cons_cons _).cons _).cons _
  refine call_returns (· < 1) ⟨0, [], rfl⟩ ?_ (by decide) ?_ hreads
  · decide +kernel
  · decide +kernel

end System

end TradingSystem
