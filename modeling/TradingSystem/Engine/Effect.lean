import TradingSystem.Book.Match

/-!
# What one call does

`Effect e c r e'` lists the outcomes of a call `c` in state `e`: its reply `r` and the next state `e'`,
with everything the outcome depends on. `step_effect` says that a step from a well-formed book is one of
them; every property of runs is derived from it by cases.
-/

namespace TradingSystem

open Lib Lib.Effects OrderBook

namespace MatchingEngine

theorem onBook_ok {α : Type} {x : BookM α} {e : MatchingEngine} {b : OrderBook} {a : α}
    (h : x e.orderBook = .ok a b) : onBook x e = .ok a { e with orderBook := b } :=
  zoom_ok h

theorem onBook_error {α : Type} {x : BookM α} {e : MatchingEngine} {b : OrderBook} {err : Exn}
    (h : x e.orderBook = .error err b) : onBook x e = .error err { e with orderBook := b } :=
  zoom_error h

/-- The id the next accepted or refused order gets. -/
def nextId (e : MatchingEngine) : UInt64 := e.atomicOrderID + 1

/-- The order in the slot it was given, under its new id, before its price is looked at. -/
def stored (e : MatchingEngine) (p : Nat) (o : Order) : MatchingEngine where
  orderBook := e.orderBook.take.setOrder p { o with mOrderID := e.nextId }
  atomicOrderID := e.nextId

/-- The order in its queue. -/
def accepted (e : MatchingEngine) (p : Nat) (o : Order) (l : Nat) : MatchingEngine :=
  { e.stored p o with orderBook := (e.stored p o).orderBook.enqueue o.bidOrAsk l p }

theorem setOrder_setOrder (b : OrderBook) (p : Nat) (o o' : Order) :
    (b.setOrder p o).setOrder p o' = b.setOrder p o' := by
  simp only [OrderBook.setOrder, ObjectPool.write, OrderBook.mk.injEq, ObjectPool.mk.injEq, and_true]
  funext i
  split_ifs <;> rfl

/-- `addOrder` once it has a slot. -/
theorem addOrder_stored {e : MatchingEngine} {p : Nat} {rest : List Nat}
    (hfree : e.orderBook.freeStack = p :: rest) (o : Order) :
    addOrder o e = (do
      onBook (OrderBook.add o.bidOrAsk p)
      return (← onBook (deref p)).mOrderID) (e.stored p o) := by
  have hacquire : onBook OrderBook.acquire e = .ok p { e with orderBook := e.orderBook.take } :=
    onBook_ok (by rw [acquire_run, hfree])
  have hcopy : onBook (modifyOrder p fun _ => o) { e with orderBook := e.orderBook.take } =
      .ok () { e with orderBook := e.orderBook.take.setOrder p o } := rfl
  have hcount : incrementOrder { e with orderBook := e.orderBook.take.setOrder p o } =
      .ok e.nextId ⟨e.orderBook.take.setOrder p o, e.nextId⟩ := rfl
  have hid : onBook (modifyOrder p fun o => { o with mOrderID := e.nextId })
      ⟨e.orderBook.take.setOrder p o, e.nextId⟩ = .ok () (e.stored p o) := by
    refine onBook_ok (b := (e.stored p o).orderBook) ?_
    rw [modifyOrder, modify_run, setOrder_setOrder, order_setOrder, if_pos rfl]
    rfl
  have horder : (e.stored p o).orderBook.order p = { o with mOrderID := e.nextId } := by
    simp [stored, order_setOrder]
  rw [addOrder, bind_ok hacquire, bind_ok hcopy, bind_ok hcount, bind_ok hid,
    bind_ok (onBook_ok (deref_run _ p)), horder]
  cases hside : o.bidOrAsk <;> simp only [reduceCtorEq, if_true, if_false] <;> rfl

theorem addOrder_full {e : MatchingEngine} (hfree : e.orderBook.freeStack = []) (o : Order) :
    addOrder o e = .error (.runtimeError "freeStack is full: there are no objects to acquire") e := by
  have hacquire : OrderBook.acquire e.orderBook =
      .error (.runtimeError "freeStack is full: there are no objects to acquire") e.orderBook := by
    rw [acquire_run, hfree]
  rw [addOrder, bind_error (onBook_error hacquire)]

theorem wellFormed_stored {e : MatchingEngine} (hb : WellFormed e.orderBook) {p : Nat} {rest : List Nat}
    (hfree : e.orderBook.freeStack = p :: rest) (o : Order) : WellFormed (e.stored p o).orderBook := by
  refine hb.take.setOrder fun hp => ?_
  exact absurd rfl (hb.ne_of_free hfree hp)

theorem addOrder_refused {e : MatchingEngine} {p : Nat} {rest : List Nat}
    (hfree : e.orderBook.freeStack = p :: rest) {o : Order} (h : levelOf o.mPrice = none) :
    addOrder o e = .error (.invalidArgument "Invalid price to bid/ask") (e.stored p o) := by
  have hadd : OrderBook.add o.bidOrAsk p (e.stored p o).orderBook =
      .error (.invalidArgument "Invalid price to bid/ask") (e.stored p o).orderBook := by
    apply add_refused
    simpa [stored, order_setOrder] using h
  rw [addOrder_stored hfree, bind_error (onBook_error hadd)]

theorem addOrder_accepted {e : MatchingEngine} (hb : WellFormed e.orderBook) {p : Nat} {rest : List Nat}
    (hfree : e.orderBook.freeStack = p :: rest) {o : Order} {l : Nat} (h : levelOf o.mPrice = some l) :
    addOrder o e = .ok e.nextId (e.accepted p o l) := by
  have hadd : OrderBook.add o.bidOrAsk p (e.stored p o).orderBook =
      .ok () ((e.stored p o).orderBook.enqueue o.bidOrAsk l p) := by
    apply add_run (wellFormed_stored hb hfree o)
    simpa [stored, order_setOrder] using h
  rw [addOrder_stored hfree, bind_ok (onBook_ok hadd), bind_ok (onBook_ok (deref_run _ p))]
  simp [stored, order_setOrder, accepted]

theorem wellFormed_accepted {e : MatchingEngine} (hb : WellFormed e.orderBook) {p : Nat} {rest : List Nat}
    (hfree : e.orderBook.freeStack = p :: rest) {o : Order} {l : Nat} (h : levelOf o.mPrice = some l) :
    WellFormed (e.accepted p o l).orderBook := by
  have hmem : p ∈ e.orderBook.resting ++ e.orderBook.freeStack := by rw [hfree]; simp
  refine (wellFormed_stored hb hfree o).enqueue ?_ (hb.bounded p hmem) ?_ ?_
  · have hnodup := hb.nodup
    rw [hfree, List.perm_middle.nodup_iff, List.nodup_cons] at hnodup
    simpa [stored, hfree] using hnodup.1
  · simp [stored, order_setOrder]
  · simpa [stored, order_setOrder] using h

/-! ### The outcomes of a call -/

inductive Effect (e : MatchingEngine) : Call → Reply → MatchingEngine → Prop
  /-- No slot: nothing happens. -/
  | full (o : Order) : e.orderBook.freeStack = [] →
      Effect e (.addOrder o)
        (.added (.error (.runtimeError "freeStack is full: there are no objects to acquire"))) e
  /-- No level for the price: the slot is gone. -/
  | refused (o : Order) {p : Nat} {rest : List Nat} : e.orderBook.freeStack = p :: rest →
      levelOf o.mPrice = none →
      Effect e (.addOrder o) (.added (.error (.invalidArgument "Invalid price to bid/ask"))) (e.stored p o)
  | accepted (o : Order) {p : Nat} {rest : List Nat} {l : Nat} : e.orderBook.freeStack = p :: rest →
      levelOf o.mPrice = some l →
      Effect e (.addOrder o) (.added (.ok e.nextId)) (e.accepted p o l)
  /-- No valid entry for the id. -/
  | unknown (orderId : UInt64) : (e.orderBook.location orderId).isValid = false →
      Effect e (.cancelOrder orderId) (.cancelled (.ok ())) e
  /-- A valid entry, but no order with the id in the queue it leads to: the entry is reset. -/
  | missed (orderId : UInt64) {l : Nat} : (e.orderBook.location orderId).isValid = true →
      levelOf (e.orderBook.location orderId).price = some l →
      e.orderBook.findOrder (e.orderBook.location orderId).side l orderId = none →
      Effect e (.cancelOrder orderId) (.cancelled (.ok ()))
        { e with orderBook := e.orderBook.setLocation orderId .empty }
  | erased (orderId : UInt64) {l p : Nat} : (e.orderBook.location orderId).isValid = true →
      levelOf (e.orderBook.location orderId).price = some l →
      e.orderBook.findOrder (e.orderBook.location orderId).side l orderId = some p →
      Effect e (.cancelOrder orderId) (.cancelled (.ok ()))
        { e with orderBook := e.orderBook.dequeue (e.orderBook.location orderId).side l p }
  | oneSided (s : Side) : (∀ l, e.orderBook.queue s l = []) →
      Effect e .matchLimitOrders (.matched (.ok none)) e
  | uncrossed {lb la bid ask : Nat} : e.orderBook.Top .bid lb bid → e.orderBook.Top .ask la ask → lb < la →
      Effect e .matchLimitOrders (.matched (.ok none)) e
  | traded {lb la bid ask : Nat} : e.orderBook.Top .bid lb bid → e.orderBook.Top .ask la ask → la ≤ lb →
      Effect e .matchLimitOrders
        (.matched (.ok (some ⟨bid, ask, e.orderBook.tradeVolume bid ask, widen (950 + la)⟩)))
        { e with orderBook := e.orderBook.settled lb la bid ask }

theorem step_addOrder {e e' : MatchingEngine} {o : Order} {r : Except Exn UInt64}
    (h : observe (addOrder o) e = (r, e')) : e.step (.addOrder o) = (.added r, e') := by
  rw [step, h]
  rfl

theorem step_cancelOrder {e : MatchingEngine} (hb : WellFormed e.orderBook) (orderId : UInt64) :
    e.step (.cancelOrder orderId) =
      (.cancelled (.ok ()), { e with orderBook := e.orderBook.cancelled orderId }) := by
  have hrun : cancelOrder orderId e = .ok () { e with orderBook := e.orderBook.cancelled orderId } :=
    onBook_ok (removeOrderFromOrderId_run hb orderId)
  rw [step, observe, hrun]
  rfl

theorem step_matchLimitOrders {e : MatchingEngine} {b : OrderBook} {t : Option Trade}
    (h : matchBook e.orderBook = .ok t b) :
    e.step .matchLimitOrders = (.matched (.ok t), { e with orderBook := b }) := by
  have hrun : matchLimitOrders e = .ok t { e with orderBook := b } := onBook_ok h
  rw [step, observe, hrun]
  rfl

/-- **The outcomes of a step.** -/
theorem step_effect {e : MatchingEngine} (hb : WellFormed e.orderBook) (c : Call) :
    Effect e c (e.step c).1 (e.step c).2 := by
  cases c with
  | addOrder o =>
    cases hfree : e.orderBook.freeStack with
    | nil =>
      rw [step_addOrder (by rw [observe, addOrder_full hfree o])]
      exact .full o hfree
    | cons p rest =>
      cases hlevel : levelOf o.mPrice with
      | none =>
        rw [step_addOrder (by rw [observe, addOrder_refused hfree hlevel])]
        exact .refused o hfree hlevel
      | some l =>
        rw [step_addOrder (by rw [observe, addOrder_accepted hb hfree hlevel])]
        exact .accepted o hfree hlevel
  | cancelOrder orderId =>
    rw [step_cancelOrder hb orderId, OrderBook.cancelled]
    by_cases hvalid : (e.orderBook.location orderId).isValid = true
    · obtain ⟨l, hlevel⟩ := location_level hb hvalid
      simp only [if_pos hvalid, hlevel]
      cases hfind : e.orderBook.findOrder (e.orderBook.location orderId).side l orderId with
      | none => exact .missed orderId hvalid hlevel hfind
      | some p => exact .erased orderId hvalid hlevel hfind
    · rw [if_neg hvalid]
      exact .unknown orderId (Bool.not_eq_true _ ▸ hvalid)
  | matchLimitOrders =>
    rcases top_or_empty hb .bid with hnone | ⟨lb, bid, hbid⟩
    · rw [step_matchLimitOrders (matchBook_empty hb hnone)]
      exact .oneSided .bid hnone
    · rcases top_or_empty hb .ask with hnone | ⟨la, ask, hask⟩
      · rw [step_matchLimitOrders (matchBook_empty hb hnone)]
        exact .oneSided .ask hnone
      · by_cases hle : la ≤ lb
        · rw [step_matchLimitOrders (matchBook_crossed hb hbid hask hle)]
          exact .traded hbid hask hle
        · rw [step_matchLimitOrders (matchBook_uncrossed hb hbid hask (by omega))]
          exact .uncrossed hbid hask (by omega)

/-- An outcome of a call is what its step does. -/
theorem Effect.step_eq {e e' : MatchingEngine} {c : Call} {r : Reply} (h : Effect e c r e')
    (hb : WellFormed e.orderBook) : e.step c = (r, e') := by
  cases h with
  | full o hfree => exact step_addOrder (by rw [observe, addOrder_full hfree o])
  | refused o hfree hlevel => exact step_addOrder (by rw [observe, addOrder_refused hfree hlevel])
  | accepted o hfree hlevel => exact step_addOrder (by rw [observe, addOrder_accepted hb hfree hlevel])
  | unknown orderId hvalid =>
    rw [step_cancelOrder hb, OrderBook.cancelled, if_neg (by rw [hvalid]; exact Bool.false_ne_true)]
  | missed orderId hvalid hlevel hfind =>
    simp only [step_cancelOrder hb, OrderBook.cancelled, if_pos hvalid, hlevel, hfind]
  | erased orderId hvalid hlevel hfind =>
    simp only [step_cancelOrder hb, OrderBook.cancelled, if_pos hvalid, hlevel, hfind]
  | oneSided s hnone => exact step_matchLimitOrders (matchBook_empty hb hnone)
  | uncrossed hbid hask hlt => exact step_matchLimitOrders (matchBook_uncrossed hb hbid hask hlt)
  | traded hbid hask hle => exact step_matchLimitOrders (matchBook_crossed hb hbid hask hle)

theorem next_of_step {e e' : MatchingEngine} {c : Call} {r : Reply} (h : e.step c = (r, e')) :
    machine.next e c = e' := congrArg Prod.snd h

theorem Effect.next_eq {e e' : MatchingEngine} {c : Call} {r : Reply} (h : Effect e c r e')
    (hb : WellFormed e.orderBook) : machine.next e c = e' := next_of_step (h.step_eq hb)

theorem next_accepted {e : MatchingEngine} (hb : WellFormed e.orderBook) {p : Nat} {rest : List Nat}
    (hfree : e.orderBook.freeStack = p :: rest) {o : Order} {l : Nat} (h : levelOf o.mPrice = some l) :
    machine.next e (.addOrder o) = e.accepted p o l := (Effect.accepted o hfree h).next_eq hb

/-- What every outcome of a call gives, its step gives. -/
theorem step_induction {e : MatchingEngine} (hb : WellFormed e.orderBook) {c : Call}
    {P : Reply → MatchingEngine → Prop} (h : ∀ r e', Effect e c r e' → P r e') :
    P (machine.step e c).1 (machine.next e c) :=
  h _ _ (step_effect hb c)

/-- **A trade** is of the tops of two crossing sides, at the price of the ask's level. -/
theorem trade_effect {e : MatchingEngine} (hb : WellFormed e.orderBook) {t : Trade}
    (ht : (e.step .matchLimitOrders).1 = .matched (.ok (some t))) : ∃ lb la,
      e.orderBook.Top .bid lb t.mBidOrder ∧ e.orderBook.Top .ask la t.mAskOrder ∧ la ≤ lb ∧
      t.mTradePrice.toNat = 950 + la ∧ machine.next e .matchLimitOrders =
        { e with orderBook := e.orderBook.settled lb la t.mBidOrder t.mAskOrder } := by
  have heffect := step_effect hb .matchLimitOrders
  rw [ht] at heffect
  show ∃ lb la, _ ∧ _ ∧ _ ∧ _ ∧ (e.step .matchLimitOrders).2 = _
  generalize (e.step .matchLimitOrders).2 = e' at heffect ⊢
  cases heffect with
  | @traded lb la bid ask hbid hask hle =>
    refine ⟨lb, la, hbid, hask, hle, ?_, rfl⟩
    have hla := hask.1.lt hb
    rw [toNat_widen]
    omega

/-! ### Every reachable book is well-formed -/

theorem wellFormed_next {e : MatchingEngine} (hb : WellFormed e.orderBook) (c : Call) :
    WellFormed (machine.next e c).orderBook := by
  refine step_induction (P := fun _ e' => WellFormed e'.orderBook) hb fun r e' h => ?_
  cases h with
  | full | unknown | oneSided | uncrossed => exact hb
  | refused o hfree => exact wellFormed_stored hb hfree o
  | accepted o hfree hlevel => exact wellFormed_accepted hb hfree hlevel
  | missed orderId => exact hb.forget orderId
  | erased orderId _ _ hfind => exact hb.dequeue (findOrder_mem hfind).1
  | traded hbid hask => exact wellFormed_settled hb hbid hask

theorem wellFormed_new (counter : UInt64) : WellFormed (MatchingEngine.new 101 counter).orderBook :=
  WellFormed.new (by decide) (by decide)

theorem Reachable.wellFormed {e : MatchingEngine} (h : Reachable e) : WellFormed e.orderBook := by
  obtain ⟨counter, h⟩ := h
  exact h.invariant (I := fun e => WellFormed e.orderBook) (wellFormed_new counter) fun _ c hb =>
    wellFormed_next hb c

theorem not_resting_new (counter : UInt64) (p : Nat) : p ∉ (new 101 counter).orderBook.resting := by
  rw [new, WellFormed.resting_new]
  exact List.not_mem_nil

/-! ### What a step does to the resting orders -/

section Resting

variable {e : MatchingEngine} {p : Nat} {o : Order} {l : Nat}

theorem order_stored (q : Nat) : (e.stored p o).orderBook.order q =
    if q = p then { o with mOrderID := e.nextId } else e.orderBook.order q := by
  simp [stored, order_setOrder]

theorem order_accepted (q : Nat) : (e.accepted p o l).orderBook.order q =
    if q = p then { o with mOrderID := e.nextId } else e.orderBook.order q := by
  simp [accepted, order_stored]

/-- The accepted order joins the back of its queue. -/
theorem queue_accepted (hb : WellFormed e.orderBook) {rest : List Nat}
    (hfree : e.orderBook.freeStack = p :: rest) (hlevel : levelOf o.mPrice = some l) (s : Side) (l' : Nat) :
    (e.accepted p o l).orderBook.queue s l' =
      if s = o.bidOrAsk ∧ l' = l then e.orderBook.queue s l' ++ [p] else e.orderBook.queue s l' := by
  have hstored := wellFormed_stored hb hfree o
  have hqueue : ∀ s l, (e.stored p o).orderBook.queue s l = e.orderBook.queue s l := fun s l =>
    queue_setOrder e.orderBook.take s l p _
  rw [accepted, queue_enqueue (hstored.level_lt_size (levelOf_eq_some.mp hlevel).1 o.bidOrAsk)]
  split_ifs with h
  · rw [h.1, h.2, hqueue]
  · exact hqueue s l'

theorem mem_resting_accepted (hb : WellFormed e.orderBook) {rest : List Nat}
    (hfree : e.orderBook.freeStack = p :: rest) (hlevel : levelOf o.mPrice = some l) {q : Nat} :
    q ∈ (e.accepted p o l).orderBook.resting ↔ q = p ∨ q ∈ e.orderBook.resting := by
  have hsize := (wellFormed_stored hb hfree o).level_lt_size (levelOf_eq_some.mp hlevel).1 o.bidOrAsk
  rw [accepted, (resting_enqueue_perm hsize).mem_iff, List.mem_cons]
  rfl

/-- A queue loses orders, or it gets the one that was accepted. -/
theorem queue_next (hb : WellFormed e.orderBook) (c : Call) (s : Side) (l : Nat) :
    ((machine.next e c).orderBook.queue s l).Sublist (e.orderBook.queue s l) ∨
      ∃ o p rest, c = .addOrder o ∧ e.orderBook.freeStack = p :: rest ∧ o.bidOrAsk = s ∧
        levelOf o.mPrice = some l ∧ machine.next e c = e.accepted p o l ∧
        (machine.next e c).orderBook.queue s l = e.orderBook.queue s l ++ [p] := by
  refine step_induction (P := fun _ e' => (e'.orderBook.queue s l).Sublist (e.orderBook.queue s l) ∨
    ∃ o p rest, c = .addOrder o ∧ e.orderBook.freeStack = p :: rest ∧ o.bidOrAsk = s ∧
      levelOf o.mPrice = some l ∧ e' = e.accepted p o l ∧
      e'.orderBook.queue s l = e.orderBook.queue s l ++ [p]) hb fun r e' h => ?_
  cases h with
  | full | unknown | oneSided | uncrossed => exact Or.inl (List.Sublist.refl _)
  | refused o hfree => exact Or.inl (List.Sublist.refl _)
  | @accepted o p rest l' hfree hlevel =>
    have hqueue := queue_accepted hb hfree hlevel s l
    split_ifs at hqueue with hsame
    · obtain ⟨rfl, rfl⟩ := hsame
      exact Or.inr ⟨o, p, rest, rfl, hfree, rfl, hlevel, rfl, hqueue⟩
    · rw [hqueue]
      exact Or.inl (List.Sublist.refl _)
  | missed => simp
  | erased orderId _ _ hfind =>
    dsimp only
    rw [hb.queue_dequeue (findOrder_mem hfind).1]
    exact Or.inl List.erase_sublist
  | traded hbid hask =>
    dsimp only
    rw [queue_settled hb hbid hask]
    exact Or.inl List.filter_sublist

theorem mem_queue_next (hb : WellFormed e.orderBook) {c : Call} {s : Side} {l p : Nat}
    (hp : p ∈ (machine.next e c).orderBook.queue s l) : p ∈ e.orderBook.queue s l ∨
      ∃ o rest, c = .addOrder o ∧ e.orderBook.freeStack = p :: rest ∧ o.bidOrAsk = s ∧
        levelOf o.mPrice = some l ∧ machine.next e c = e.accepted p o l := by
  rcases queue_next hb c s l with hsub | ⟨o, p', rest, hc, hfree, hs, hlevel, hnext, hqueue⟩
  · exact Or.inl (hsub.subset hp)
  · rw [hqueue, List.mem_append, List.mem_singleton] at hp
    rcases hp with hp | rfl
    · exact Or.inl hp
    · exact Or.inr ⟨o, rest, hc, hfree, hs, hlevel, hnext⟩

/-- What rests after a step rested before it, or is the order that was accepted. -/
theorem mem_resting_next (hb : WellFormed e.orderBook) {c : Call}
    (hp : p ∈ (machine.next e c).orderBook.resting) : p ∈ e.orderBook.resting ∨
      ∃ o rest l, c = .addOrder o ∧ e.orderBook.freeStack = p :: rest ∧ levelOf o.mPrice = some l ∧
        machine.next e c = e.accepted p o l := by
  obtain ⟨s, l, hp⟩ := mem_resting.mp hp
  rcases mem_queue_next hb hp with hp | ⟨o, rest, hc, hfree, -, hlevel, hnext⟩
  · exact Or.inl (mem_resting.mpr ⟨s, l, hp⟩)
  · exact Or.inr ⟨o, rest, l, hc, hfree, hlevel, hnext⟩

/-- A step changes nothing of a resting order but its volume. -/
theorem order_next (hb : WellFormed e.orderBook) (c : Call) (hp : p ∈ e.orderBook.resting) :
    (machine.next e c).orderBook.order p =
      { e.orderBook.order p with mVolume := ((machine.next e c).orderBook.order p).mVolume } := by
  refine step_induction (P := fun _ e' => e'.orderBook.order p =
    { e.orderBook.order p with mVolume := (e'.orderBook.order p).mVolume }) hb fun r e' h => ?_
  cases h with
  | full | unknown | oneSided | uncrossed | missed => rfl
  | refused o hfree => rw [order_stored, if_neg (hb.ne_of_free hfree hp)]
  | accepted o hfree => rw [order_accepted, if_neg (hb.ne_of_free hfree hp)]
  | erased => simp
  | traded =>
    dsimp only
    rw [order_settled]
    exact order_reduced_eq _ _ _ _

end Resting

end MatchingEngine

end TradingSystem
