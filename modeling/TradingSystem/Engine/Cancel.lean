import TradingSystem.Engine.Effect

/-!
# Cancelling, and the entries of the location array

An id finds its order through entry `id % 10000` of the location array. The entry is shared by all ids
of one residue, and three things reset or overwrite it: an `addOrder` that is given such an id, a cancel
with such an id, and a match that fills an order with such an id. A resting order can be cancelled as
long as its entry leads to it (`Indexed`); the second half says exactly which steps keep that for all
resting orders, and which cancels of absent ids do harm.
-/

namespace TradingSystem

open Lib OrderBook

namespace OrderBook

/-- The entry of its id leads to the order in slot `p`. -/
def Indexed (b : OrderBook) (p : Nat) : Prop :=
  (b.location (b.order p).mOrderID).isValid = true ∧
    ∃ l, levelOf (b.location (b.order p).mOrderID).price = some l ∧
      b.findOrder (b.location (b.order p).mOrderID).side l (b.order p).mOrderID = some p

theorem location_congr (b : OrderBook) {k k' : UInt64} (h : mapIndex k = mapIndex k') :
    b.location k = b.location k' := by
  rw [location, location, h]

theorem not_indexed_of_empty {b : OrderBook} {p : Nat} (h : b.location (b.order p).mOrderID = .empty) :
    ¬ Indexed b p := by
  intro hp
  have hvalid := hp.1
  rw [h] at hvalid
  exact absurd hvalid (by decide)

theorem Indexed.inj {b : OrderBook} {p q : Nat} (hp : Indexed b p) (hq : Indexed b q)
    (h : (b.order p).mOrderID = (b.order q).mOrderID) : p = q := by
  obtain ⟨-, l, hl, hfind⟩ := hp
  obtain ⟨-, l', hl', hfind'⟩ := hq
  rw [← h] at hl' hfind'
  obtain rfl : l = l' := Option.some.inj (hl.symm.trans hl')
  exact Option.some.inj (hfind.symm.trans hfind')

/-- The first order with an id stays the first when others leave its queue. -/
theorem findOrder_filter {b b' : OrderBook} {D : Nat → Prop} [DecidablePred D] {s : Side} {l : Nat}
    (hqueue : b'.queue s l = (b.queue s l).filter fun q => ¬ D q)
    (hid : ∀ q ∈ b.queue s l, (b'.order q).mOrderID = (b.order q).mOrderID) {k : UInt64} {p : Nat}
    (hp : ¬ D p) (h : b.findOrder s l k = some p) : b'.findOrder s l k = some p := by
  obtain ⟨hk, pre, post, hq, hpre⟩ := findOrder_eq_some.mp h
  rw [findOrder_eq_some]
  refine ⟨by rw [hid p (findOrder_mem h).1, hk], pre.filter (fun q => ¬ D q), post.filter (fun q => ¬ D q),
    ?_, fun q hmem => ?_⟩
  · rw [hqueue, hq, List.filter_append, List.filter_cons_of_pos (by simpa using hp)]
  · have hq' := List.mem_of_mem_filter hmem
    rw [hid q (by rw [hq]; exact List.mem_append_left _ hq')]
    exact hpre q hq'

/-- When orders leave and entries are only reset, the entries that stay are those that were not reset. -/
theorem indexed_leave {b b' : OrderBook} {D : Nat → Prop} [DecidablePred D]
    (hqueue : ∀ s l, b'.queue s l = (b.queue s l).filter fun q => ¬ D q)
    (hid : ∀ q ∈ b.resting, (b'.order q).mOrderID = (b.order q).mOrderID)
    (hI : ∀ p ∈ b.resting, Indexed b p)
    (hreset : ∀ k, b'.location k = b.location k ∨ b'.location k = .empty) :
    (∀ p ∈ b'.resting, Indexed b' p) ↔
      ∀ p ∈ b.resting, ¬ D p → b'.location (b.order p).mOrderID ≠ .empty := by
  have hmem : ∀ p, p ∈ b'.resting ↔ p ∈ b.resting ∧ ¬ D p := by
    apply mem_resting_of_queue
    intro s l p
    rw [hqueue, List.mem_filter, decide_eq_true_eq]
  constructor
  · intro h p hp hno hempty
    apply not_indexed_of_empty (b := b') (p := p)
    · rw [hid p hp, hempty]
    · exact h p ((hmem p).mpr ⟨hp, hno⟩)
  · intro h p hp
    obtain ⟨hp, hno⟩ := (hmem p).mp hp
    obtain ⟨hvalid, l, hl, hfind⟩ := hI p hp
    have hloc : b'.location (b'.order p).mOrderID = b.location (b.order p).mOrderID := by
      rw [hid p hp]
      exact (hreset _).resolve_right (h p hp hno)
    refine ⟨by rw [hloc, hvalid], l, by rw [hloc, hl], ?_⟩
    rw [hloc, hid p hp]
    exact findOrder_filter (hqueue _ l) (fun q hq => hid q (mem_resting.mpr ⟨_, l, hq⟩)) hno hfind

end OrderBook

namespace MatchingEngine

/-! ### What it takes to cancel an order -/

/-- `cancelOrder` with the id of the order in slot `p` takes it out of its queue, touches no other queue,
and releases the slot. -/
structure Cancellable (e : MatchingEngine) (p : Nat) : Prop where
  removed : ∀ s l,
    (machine.next e (.cancelOrder (e.orderBook.order p).mOrderID)).orderBook.queue s l =
      (e.orderBook.queue s l).erase p
  released : (machine.next e (.cancelOrder (e.orderBook.order p).mOrderID)).orderBook.freeStack =
    p :: e.orderBook.freeStack

theorem cancellable_iff {e : MatchingEngine} (hb : WellFormed e.orderBook) (p : Nat) :
    Cancellable e p ↔ Indexed e.orderBook p := by
  constructor
  · rintro ⟨-, hreleased⟩
    have hlength : e.orderBook.freeStack ≠ p :: e.orderBook.freeStack := (List.cons_ne_self _ _).symm
    revert hreleased
    refine step_induction (c := .cancelOrder _)
      (P := fun _ e' => e'.orderBook.freeStack = p :: e.orderBook.freeStack → Indexed e.orderBook p)
      hb fun r e' h hreleased => ?_
    cases h with
    | unknown => exact absurd hreleased hlength
    | missed => exact absurd hreleased hlength
    | @erased _ l p' hvalid hlevel hfind =>
      dsimp only at hreleased
      rw [freeStack_dequeue, List.cons.injEq] at hreleased
      exact ⟨hvalid, l, hlevel, hreleased.1 ▸ hfind⟩
  · rintro ⟨hvalid, l, hlevel, hfind⟩
    have hnext : (machine.next e (.cancelOrder (e.orderBook.order p).mOrderID)).orderBook =
        e.orderBook.dequeue (e.orderBook.location (e.orderBook.order p).mOrderID).side l p := by
      rw [(Effect.erased _ hvalid hlevel hfind).next_eq hb]
    constructor
    · intro s l'
      rw [hnext, hb.queue_dequeue (findOrder_mem hfind).1]
    · rw [hnext, freeStack_dequeue]

/-! ### A cancel hits the order with its id or none -/

/-- The order in slot `p` leaves the queue of side `s` at level `l`, where it was between `pre` and `post`, and
its slot is released. -/
structure Removal (b b' : OrderBook) (s : Side) (l p : Nat) (pre post : List Nat) : Prop where
  before : b.queue s l = pre ++ p :: post
  after : b'.queue s l = pre ++ post
  others : ∀ s' l', ¬ (s' = s ∧ l' = l) → b'.queue s' l' = b.queue s' l'
  free : b'.freeStack = p :: b.freeStack

theorem removal_dequeue {b : OrderBook} (hb : WellFormed b) {s : Side} {l p : Nat} (hp : p ∈ b.queue s l) :
    ∃ pre post, Removal b (b.dequeue s l p) s l p pre post := by
  have hqueue := OrderBook.queue_dequeue (p := p) (hb.level_lt_size (hb.level_lt hp) s)
  obtain ⟨pre, post, hno, hbefore, herase⟩ := List.exists_erase_eq hp
  refine ⟨pre, post, hbefore, ?_, fun s' l' hne => ?_, freeStack_dequeue⟩
  · rw [hqueue, if_pos ⟨rfl, rfl⟩, herase]
  · rw [hqueue, if_neg hne]

/-- What `cancelOrder` does with an id, whatever entry of the location array it finds. -/
structure CancelHits (e : MatchingEngine) (orderId : UInt64) : Prop where
  returns : (e.step (.cancelOrder orderId)).1 = .cancelled (.ok ())
  removes : ((∀ s l, (machine.next e (.cancelOrder orderId)).orderBook.queue s l = e.orderBook.queue s l) ∧
      (machine.next e (.cancelOrder orderId)).orderBook.freeStack = e.orderBook.freeStack) ∨
    ∃ s l p pre post, (e.orderBook.order p).mOrderID = orderId ∧
      Removal e.orderBook (machine.next e (.cancelOrder orderId)).orderBook s l p pre post
  orders : ∀ p, (machine.next e (.cancelOrder orderId)).orderBook.order p = e.orderBook.order p
  bits : ∀ s l, ((machine.next e (.cancelOrder orderId)).orderBook.bitmap s).testBit l = true ↔
    (machine.next e (.cancelOrder orderId)).orderBook.queue s l ≠ []

/-- **A cancel never hits the wrong order**, in any reachable state and for any id. -/
theorem cancelHits_of_reachable {e : MatchingEngine} (h : Reachable e) (orderId : UInt64) :
    CancelHits e orderId := by
  have hb := h.wellFormed
  constructor
  · rw [step_cancelOrder hb]
  · refine step_induction (c := .cancelOrder orderId)
      (P := fun _ e' => ((∀ s l, e'.orderBook.queue s l = e.orderBook.queue s l) ∧
        e'.orderBook.freeStack = e.orderBook.freeStack) ∨ ∃ s l p pre post,
          (e.orderBook.order p).mOrderID = orderId ∧ Removal e.orderBook e'.orderBook s l p pre post)
      hb fun r e' h => ?_
    cases h with
    | unknown => exact Or.inl ⟨fun _ _ => rfl, rfl⟩
    | missed => exact Or.inl ⟨fun s l => queue_setLocation _ s l _ _, rfl⟩
    | @erased _ l p _ _ hfind =>
      obtain ⟨hp, hid⟩ := findOrder_mem hfind
      obtain ⟨pre, post, hremoval⟩ := removal_dequeue hb hp
      exact Or.inr ⟨_, l, p, pre, post, hid, hremoval⟩
  · intro p
    refine step_induction (c := .cancelOrder orderId)
      (P := fun _ e' => e'.orderBook.order p = e.orderBook.order p) hb fun r e' h => ?_
    cases h with
    | unknown | missed => rfl
    | erased => exact order_dequeue p
  · exact (wellFormed_next hb _).bits

/-- Id 10001 finds the entry of order 1. -/
theorem cancelHits_example :
    CancelHits (machine.run (new 101 0) [.addOrder ⟨.bid, 5, [], 0, ⟨1000⟩⟩]) 10001 :=
  cancelHits_of_reachable ⟨0, _, rfl⟩ 10001

/-! ### The steps that keep every resting order cancellable -/

/-- The step leaves every resting order its entry. -/
def KeepsEntries (e : MatchingEngine) : Call → Prop
  -- a resting order whose entry the new id takes is in the queue that the new order joins, under
  -- another id
  | .addOrder o => e.orderBook.freeStack ≠ [] → ∀ l, levelOf o.mPrice = some l →
      ∀ p ∈ e.orderBook.resting, mapIndex (e.orderBook.order p).mOrderID = mapIndex e.nextId →
        p ∈ e.orderBook.queue o.bidOrAsk l ∧ (e.orderBook.order p).mOrderID ≠ e.nextId
  -- no resting order but the cancelled one has the entry
  | .cancelOrder orderId => ∀ p ∈ e.orderBook.resting,
      mapIndex (e.orderBook.order p).mOrderID = mapIndex orderId → (e.orderBook.order p).mOrderID = orderId
  -- no order that stays has the entry of one that is filled
  | .matchLimitOrders => ∀ lb la bid ask, e.orderBook.Top .bid lb bid → e.orderBook.Top .ask la ask →
      la ≤ lb → ∀ p ∈ e.orderBook.resting, ¬ e.orderBook.Filled bid ask p →
        ∀ q, e.orderBook.Filled bid ask q →
          mapIndex (e.orderBook.order p).mOrderID ≠ mapIndex (e.orderBook.order q).mOrderID

def AllIndexed (e : MatchingEngine) : Prop := ∀ p ∈ e.orderBook.resting, Indexed e.orderBook p

theorem allIndexed_stored {e : MatchingEngine} (hb : WellFormed e.orderBook) (hI : AllIndexed e) {p : Nat}
    {rest : List Nat} (hfree : e.orderBook.freeStack = p :: rest) (o : Order) : AllIndexed (e.stored p o) := by
  refine (indexed_leave (b := e.orderBook) (D := fun _ => False) ?_ ?_ hI ?_).mpr ?_
  · intro s l
    simp [stored, take]
  · intro q hq
    rw [order_stored, if_neg (hb.ne_of_free hfree hq)]
  · exact fun k => Or.inl rfl
  · exact fun q hq _ hempty => not_indexed_of_empty hempty (hI q hq)

section Accepted

variable {e : MatchingEngine} {p : Nat} {rest : List Nat} {o : Order} {l : Nat}

theorem location_accepted (k : UInt64) : (e.accepted p o l).orderBook.location k =
    if mapIndex k = mapIndex e.nextId then ⟨o.mPrice, o.bidOrAsk, true⟩ else e.orderBook.location k := by
  simp only [location, accepted, mapping_enqueue]
  rw [order_stored, if_pos rfl]
  rfl

/-- An old order that is the first with its id stays so. -/
theorem findOrder_accepted (hb : WellFormed e.orderBook) (hfree : e.orderBook.freeStack = p :: rest)
    (hlevel : levelOf o.mPrice = some l) {s : Side} {l' q : Nat} {k : UInt64}
    (h : e.orderBook.findOrder s l' k = some q) : (e.accepted p o l).orderBook.findOrder s l' k = some q := by
  obtain ⟨hk, pre, post, hqueue, hpre⟩ := findOrder_eq_some.mp h
  have hid : ∀ x ∈ e.orderBook.queue s l',
      ((e.accepted p o l).orderBook.order x).mOrderID = (e.orderBook.order x).mOrderID := by
    intro x hx
    rw [order_accepted, if_neg (hb.ne_of_free_of_mem_queue hfree hx)]
  have hpre' : ∀ x ∈ pre, ((e.accepted p o l).orderBook.order x).mOrderID ≠ k := by
    intro x hx
    rw [hid x (by rw [hqueue]; exact List.mem_append_left _ hx)]
    exact hpre x hx
  rw [findOrder_eq_some, hid q (findOrder_mem h).1, queue_accepted hb hfree hlevel]
  split_ifs
  · exact ⟨hk, pre, post ++ [p], by rw [hqueue]; simp, hpre'⟩
  · exact ⟨hk, pre, post, hqueue, hpre'⟩

/-- The new order is the first with its id when no other has it. -/
theorem findOrder_accepted_new (hb : WellFormed e.orderBook) (hfree : e.orderBook.freeStack = p :: rest)
    (hlevel : levelOf o.mPrice = some l)
    (h : ∀ q ∈ e.orderBook.queue o.bidOrAsk l, (e.orderBook.order q).mOrderID ≠ e.nextId) :
    (e.accepted p o l).orderBook.findOrder o.bidOrAsk l e.nextId = some p := by
  rw [findOrder_eq_some, queue_accepted hb hfree hlevel, if_pos ⟨rfl, rfl⟩, order_accepted, if_pos rfl]
  refine ⟨rfl, e.orderBook.queue o.bidOrAsk l, [], rfl, fun q hq => ?_⟩
  rw [order_accepted, if_neg (hb.ne_of_free_of_mem_queue hfree hq)]
  exact h q hq

/-- A cancel of the new id searches the queue that the new order joined. -/
theorem next_cancel_accepted (hb : WellFormed e.orderBook) (hfree : e.orderBook.freeStack = p :: rest)
    (hlevel : levelOf o.mPrice = some l) {q : Nat}
    (hfind : (e.accepted p o l).orderBook.findOrder o.bidOrAsk l e.nextId = some q) :
    machine.next (e.accepted p o l) (.cancelOrder e.nextId) =
      { e.accepted p o l with orderBook := (e.accepted p o l).orderBook.dequeue o.bidOrAsk l q } := by
  rw [next_of_step (step_cancelOrder (wellFormed_accepted hb hfree hlevel) _), cancelled, location_accepted,
    if_pos rfl]
  simp only [hlevel, hfind, if_true]

/-- After an accepted order every order is indexed exactly when those that share the new entry rest in the
queue it leads to. -/
theorem allIndexed_accepted (hb : WellFormed e.orderBook) (hI : AllIndexed e)
    (hfree : e.orderBook.freeStack = p :: rest) (hlevel : levelOf o.mPrice = some l) :
    AllIndexed (e.accepted p o l) ↔ KeepsEntries e (.addOrder o) := by
  have hfresh : ∀ q ∈ e.orderBook.resting, q ≠ p := fun q hq => hb.ne_of_free hfree hq
  constructor
  · intro h _ l' hl' q hq hindex
    obtain rfl := Option.some.inj (hlevel.symm.trans hl')
    obtain ⟨-, l', hl', hfind⟩ := h q ((mem_resting_accepted hb hfree hlevel).mpr (Or.inr hq))
    rw [order_accepted, if_neg (hfresh q hq), location_accepted, if_pos hindex] at hl' hfind
    obtain rfl := Option.some.inj (hlevel.symm.trans hl')
    constructor
    · have hmem := (findOrder_mem hfind).1
      rw [queue_accepted hb hfree hlevel, if_pos ⟨rfl, rfl⟩, List.mem_append, List.mem_singleton] at hmem
      exact hmem.resolve_right (hfresh q hq)
    · -- with the new id the search would find both
      intro hid
      obtain ⟨-, l', hl', hnew⟩ := h p ((mem_resting_accepted hb hfree hlevel).mpr (Or.inl rfl))
      rw [order_accepted, if_pos rfl, location_accepted, if_pos rfl] at hl' hnew
      obtain rfl := Option.some.inj (hlevel.symm.trans hl')
      rw [hid] at hfind
      exact hfresh q hq (Option.some.inj (hfind.symm.trans hnew))
  · intro h q hq
    have hkeep := h (by rw [hfree]; exact List.cons_ne_nil _ _) l hlevel
    rcases (mem_resting_accepted hb hfree hlevel).mp hq with rfl | hold
    · unfold Indexed
      rw [order_accepted, if_pos rfl, location_accepted, if_pos rfl]
      refine ⟨rfl, l, hlevel, findOrder_accepted_new hb hfree hlevel fun x hx hid => ?_⟩
      exact (hkeep x (mem_resting.mpr ⟨_, _, hx⟩) (by rw [hid])).2 hid
    · obtain ⟨hvalid, l', hl', hfind⟩ := hI q hold
      unfold Indexed
      rw [order_accepted, if_neg (hfresh q hold), location_accepted]
      split_ifs with hindex
      · -- the order rests in the queue that the new entry leads to
        obtain ⟨hside, hsame⟩ := hb.queue_unique (findOrder_mem hfind).1 (hkeep q hold hindex).1
        rw [← hside, ← hsame] at hfind
        exact ⟨rfl, l, hlevel, findOrder_accepted hb hfree hlevel hfind⟩
      · exact ⟨hvalid, l', hl', findOrder_accepted hb hfree hlevel hfind⟩

end Accepted

theorem location_setLocation (b : OrderBook) (k k' : UInt64) (loc : OrderLocation) :
    (b.setLocation k loc).location k' = if mapIndex k' = mapIndex k then loc else b.location k' := rfl

/-- A cancel of an id that its queue does not hold resets the entry of whoever has it. -/
theorem allIndexed_missed {b : OrderBook} (hI : ∀ p ∈ b.resting, Indexed b p) {orderId : UInt64} {l : Nat}
    (hlevel : levelOf (b.location orderId).price = some l)
    (hfind : b.findOrder (b.location orderId).side l orderId = none) :
    (∀ p ∈ (b.setLocation orderId .empty).resting, Indexed (b.setLocation orderId .empty) p) ↔
      ∀ p ∈ b.resting, mapIndex (b.order p).mOrderID = mapIndex orderId → (b.order p).mOrderID = orderId := by
  refine (indexed_leave (b := b) (D := fun _ => False) (by simp) (by simp) hI fun k => ?_).trans
    ⟨fun h => ?_, fun h => ?_⟩
  · rw [location_setLocation]
    split_ifs
    · exact Or.inr rfl
    · exact Or.inl rfl
  · intro p hp hindex
    exact absurd (if_pos hindex) (h p hp id)
  · intro p hp _ hempty
    rw [location_setLocation] at hempty
    split_ifs at hempty with hindex
    · obtain ⟨-, l', hl', hfind'⟩ := hI p hp
      rw [h p hp hindex] at hl' hfind'
      obtain rfl := Option.some.inj (hlevel.symm.trans hl')
      rw [hfind] at hfind'
      cases hfind'
    · exact not_indexed_of_empty hempty (hI p hp)

theorem allIndexed_erased {b : OrderBook} (hb : WellFormed b) (hI : ∀ p ∈ b.resting, Indexed b p)
    {orderId : UInt64} {s : Side} {l p : Nat} (hfind : b.findOrder s l orderId = some p) :
    (∀ q ∈ (b.dequeue s l p).resting, Indexed (b.dequeue s l p) q) ↔
      ∀ q ∈ b.resting, mapIndex (b.order q).mOrderID = mapIndex orderId → (b.order q).mOrderID = orderId := by
  obtain ⟨hp, hid⟩ := findOrder_mem hfind
  have hloc : ∀ k, (b.dequeue s l p).location k =
      if mapIndex k = mapIndex orderId then .empty else b.location k := by
    intro k
    rw [location, mapping_dequeue, hid]
    rfl
  have hqueue : ∀ s' l', (b.dequeue s l p).queue s' l' = (b.queue s' l').filter fun q => ¬ (q = p) := by
    intro s' l'
    rw [hb.queue_dequeue hp, (hb.queue_nodup s' l').erase_eq_filter]
    exact List.filter_congr fun q _ => by by_cases hq : q = p <;> simp [hq]
  refine (indexed_leave hqueue (by simp) hI fun k => ?_).trans ⟨fun h => ?_, fun h => ?_⟩
  · rw [hloc]
    split_ifs
    · exact Or.inr rfl
    · exact Or.inl rfl
  · intro q hq hindex
    by_contra hne
    refine h q hq ?_ (by rw [hloc, if_pos hindex])
    rintro rfl
    exact hne hid
  · intro q hq hne hempty
    rw [hloc] at hempty
    split_ifs at hempty with hindex
    · exact hne ((hI q hq).inj (hI p (mem_resting.mpr ⟨s, l, hp⟩)) ((h q hq hindex).trans hid.symm))
    · exact not_indexed_of_empty hempty (hI q hq)

theorem allIndexed_settled {e : MatchingEngine} (hb : WellFormed e.orderBook) (hI : AllIndexed e)
    {lb la bid ask : Nat} (hbid : e.orderBook.Top .bid lb bid) (hask : e.orderBook.Top .ask la ask)
    (hle : la ≤ lb) :
    AllIndexed { e with orderBook := e.orderBook.settled lb la bid ask } ↔ KeepsEntries e .matchLimitOrders := by
  have hleave := indexed_leave (D := e.orderBook.Filled bid ask)
    (queue_settled hb hbid hask) (fun q _ => by rw [order_settled, mOrderID_reduced]) hI (fun k => ?_)
  · refine hleave.trans ⟨fun h => ?_, fun h => ?_⟩
    · intro lb' la' bid' ask' hbid' hask' _ p hp hstay q hfilled hindex
      obtain ⟨-, rfl⟩ := hbid.unique hbid'
      obtain ⟨-, rfl⟩ := hask.unique hask'
      apply h p hp hstay
      rcases mapping_settled e.orderBook lb la bid ask (mapIndex (e.orderBook.order p).mOrderID) with h' | h'
      · exact h'.2
      · exact absurd hindex.symm (h'.1 q hfilled)
    · intro p hp hstay hempty
      rcases mapping_settled e.orderBook lb la bid ask (mapIndex (e.orderBook.order p).mOrderID) with h' | h'
      · obtain ⟨⟨q, hfilled, hindex⟩, -⟩ := h'
        exact h lb la bid ask hbid hask hle p hp hstay q hfilled hindex.symm
      · exact not_indexed_of_empty (h'.2.symm.trans hempty) (hI p hp)
  · rcases mapping_settled e.orderBook lb la bid ask (mapIndex k) with h' | h'
    · exact Or.inr h'.2
    · exact Or.inl h'.2

/-- A step keeps all resting orders indexed exactly when it leaves them their entries. -/
theorem allIndexed_next {e : MatchingEngine} (hb : WellFormed e.orderBook) (hI : AllIndexed e) (c : Call) :
    AllIndexed (machine.next e c) ↔ KeepsEntries e c := by
  refine step_induction (P := fun _ e' => AllIndexed e' ↔ KeepsEntries e c) hb fun r e' h => ?_
  cases h with
  | full o hfree => exact ⟨fun _ hno => absurd hfree hno, fun _ => hI⟩
  | refused o hfree hlevel =>
    refine ⟨fun _ _ l hl => ?_, fun _ => allIndexed_stored hb hI hfree o⟩
    rw [hlevel] at hl
    cases hl
  | accepted o hfree hlevel => exact allIndexed_accepted hb hI hfree hlevel
  | unknown orderId hvalid =>
    -- an invalid entry is that of no indexed order
    refine ⟨fun _ p hp hindex => ?_, fun _ => hI⟩
    have hp := (hI p hp).1
    rw [location_congr e.orderBook hindex, hvalid] at hp
    cases hp
  | missed orderId _ hlevel hfind => exact allIndexed_missed hI hlevel hfind
  | erased orderId _ _ hfind => exact allIndexed_erased hb hI hfind
  | oneSided s hnone =>
    refine ⟨fun _ lb la bid ask hbid hask => ?_, fun _ => hI⟩
    cases s with
    | bid => exact absurd (hnone lb) hbid.1.1
    | ask => exact absurd (hnone la) hask.1.1
  | uncrossed hbid hask hlt =>
    refine ⟨fun _ lb la bid ask hbid' hask' hle => ?_, fun _ => hI⟩
    obtain ⟨rfl, -⟩ := hbid.unique hbid'
    obtain ⟨rfl, -⟩ := hask.unique hask'
    exact absurd hlt (Nat.not_lt.mpr hle)
  | traded hbid hask hle => exact allIndexed_settled hb hI hbid hask hle

/-- Every resting order can be cancelled. -/
def AllCancellable (e : MatchingEngine) : Prop := ∀ p ∈ e.orderBook.resting, Cancellable e p

theorem allCancellable_iff {e : MatchingEngine} (hb : WellFormed e.orderBook) :
    AllCancellable e ↔ AllIndexed e :=
  forall₂_congr fun p _ => cancellable_iff hb p

/-- **Every resting order stays cancellable** in exactly the runs whose steps leave every resting order its
entry. -/
theorem allCancellable_iff_keepsEntries (counter : UInt64) (cs : List Call) :
    machine.States AllCancellable (new 101 counter) cs ↔ machine.Along KeepsEntries (new 101 counter) cs := by
  apply Machine.states_iff_along (J := fun e => WellFormed e.orderBook) fun _ c hb => wellFormed_next hb c
  · intro e c hb hI
    rw [allCancellable_iff hb] at hI
    rw [allCancellable_iff (wellFormed_next hb c)]
    exact allIndexed_next hb hI c
  · exact wellFormed_new counter
  · exact fun p hp => absurd hp (not_resting_new counter p)

/-- Cancelling id 10001, which was never issued, takes order 1 its entry: its own cancel does nothing. -/
theorem foreign_cancel_strands_order :
    let e := machine.run (new 101 0) [.addOrder ⟨.bid, 5, [], 0, ⟨1000⟩⟩, .cancelOrder 10001]
    e.orderBook.resting = [9999] ∧ (e.orderBook.order 9999).mOrderID = 1 ∧
      (machine.next e (.cancelOrder 1)).orderBook.resting = [9999] ∧ ¬ AllCancellable e := by
  intro e
  have hresting : e.orderBook.resting = [9999] := by decide +kernel
  have hkept : (machine.next e (.cancelOrder 1)).orderBook.queue .bid 50 = [9999] := by decide +kernel
  refine ⟨hresting, by decide +kernel, by decide +kernel, fun h => ?_⟩
  have hcancel := (h 9999 (by rw [hresting]; exact List.mem_singleton_self _)).removed .bid 50
  have hid : (e.orderBook.order 9999).mOrderID = 1 := by decide +kernel
  have herase : (e.orderBook.queue .bid 50).erase 9999 = [] := by decide +kernel
  rw [hid, hkept, herase] at hcancel
  cases hcancel

/-! ### Cancelling an id that does not rest -/

structure CancelUnchanged (e : MatchingEngine) (orderId : UInt64) : Prop where
  queues : ∀ s l, (machine.next e (.cancelOrder orderId)).orderBook.queue s l = e.orderBook.queue s l
  bitmaps : ∀ s, (machine.next e (.cancelOrder orderId)).orderBook.bitmap s = e.orderBook.bitmap s
  free : (machine.next e (.cancelOrder orderId)).orderBook.freeStack = e.orderBook.freeStack
  locations : (machine.next e (.cancelOrder orderId)).orderBook.orderIdtoPriceMapping =
    e.orderBook.orderIdtoPriceMapping

/-- Whoever could be cancelled before the cancel of `orderId` still can. -/
def CancelKeepsOthers (e : MatchingEngine) (orderId : UInt64) : Prop :=
  ∀ p ∈ e.orderBook.resting, Cancellable e p → Cancellable (machine.next e (.cancelOrder orderId)) p

/-- A valid entry is that of an order that can be cancelled. -/
theorem exists_indexed_of_valid {b : OrderBook} (hb : WellFormed b) {orderId : UInt64}
    (h : (b.location orderId).isValid = true) :
    ∃ p ∈ b.resting, Indexed b p ∧ mapIndex (b.order p).mOrderID = mapIndex orderId := by
  obtain ⟨s, l, p, hp, hindex, hloc⟩ := hb.located _ h
  have hlevel := (hb.filed s l p hp).2
  -- the first order with this id in that queue
  cases hfind : b.findOrder s l (b.order p).mOrderID with
  | none => exact absurd rfl (findOrder_eq_none.mp hfind p hp)
  | some q =>
    obtain ⟨hq, hid⟩ := findOrder_mem hfind
    have hentry : b.location (b.order q).mOrderID = ⟨(b.order p).mPrice, s, true⟩ := by
      rw [hid, location, hindex, hloc]
    refine ⟨q, mem_resting.mpr ⟨s, l, hq⟩, ⟨by rw [hentry], l, by rw [hentry]; exact hlevel, ?_⟩, ?_⟩
    · rw [hentry, hid]
      exact hfind
    · rw [hid, hindex]

/-- **A cancel of an id that does not rest is harmless exactly when the entry of the id is invalid.** -/
theorem absent_cancel_iff {e : MatchingEngine} (h : Reachable e) {orderId : UInt64}
    (habsent : ∀ p ∈ e.orderBook.resting, (e.orderBook.order p).mOrderID ≠ orderId) :
    (CancelUnchanged e orderId ↔ (e.orderBook.location orderId).isValid = false) ∧
      (CancelKeepsOthers e orderId ↔ (e.orderBook.location orderId).isValid = false) := by
  have hb := h.wellFormed
  by_cases hvalid : (e.orderBook.location orderId).isValid = true
  · -- the entry is another order's, and it is reset
    obtain ⟨p, hp, hindexed, hindex⟩ := exists_indexed_of_valid hb hvalid
    have hreset : (machine.next e (.cancelOrder orderId)).orderBook.location orderId = .empty := by
      refine step_induction (c := .cancelOrder orderId)
        (P := fun _ e' => e'.orderBook.location orderId = .empty) hb fun r e' h => ?_
      cases h with
      | unknown _ hinvalid => rw [hvalid] at hinvalid; cases hinvalid
      | missed => exact if_pos rfl
      | erased _ _ _ hfind =>
        obtain ⟨hq, hid⟩ := findOrder_mem hfind
        exact absurd hid (habsent _ (mem_resting.mpr ⟨_, _, hq⟩))
    rw [hvalid]
    refine ⟨iff_of_false (fun h => ?_) Bool.noConfusion, iff_of_false (fun h => ?_) Bool.noConfusion⟩
    · rw [location, h.locations] at hreset
      exact not_indexed_of_empty ((location_congr _ hindex).trans hreset) hindexed
    · have hafter := (cancellable_iff (wellFormed_next hb _) p).mp (h p hp ((cancellable_iff hb p).mpr hindexed))
      refine not_indexed_of_empty ?_ hafter
      rw [order_next hb _ hp, location_congr _ hindex, hreset]
  · have hinvalid := Bool.eq_false_iff.mpr hvalid
    have hsame : machine.next e (.cancelOrder orderId) = e := (Effect.unknown orderId hinvalid).next_eq hb
    rw [hinvalid]
    refine ⟨iff_of_true ?_ rfl, iff_of_true (fun p _ hp => by rwa [hsame]) rfl⟩
    constructor <;> simp [hsame]

/-- Order 1 rests and id 2 was not issued. -/
theorem absent_cancel_example : ∃ e, Reachable e ∧ CancelUnchanged e 2 := by
  have hreach : Reachable (machine.run (new 101 0) [.addOrder ⟨.bid, 5, [], 0, ⟨1000⟩⟩]) := ⟨0, _, rfl⟩
  exact ⟨_, hreach, (absent_cancel_iff hreach (by decide +kernel)).1.mpr (by decide +kernel)⟩

/-- Order 1 rests and can be cancelled; cancelling id 10001 resets its entry, and then it cannot. -/
theorem absent_cancel_resets_entry :
    let e := machine.run (new 101 0) [.addOrder ⟨.bid, 5, [], 0, ⟨1000⟩⟩]
    (∀ p ∈ e.orderBook.resting, (e.orderBook.order p).mOrderID ≠ 10001) ∧
      ¬ CancelUnchanged e 10001 ∧ ¬ CancelKeepsOthers e 10001 := by
  intro e
  have hb : WellFormed e.orderBook := Reachable.wellFormed ⟨0, _, rfl⟩
  refine ⟨by decide +kernel, fun h => ?_, fun h => ?_⟩
  · have hbefore : (e.orderBook.orderIdtoPriceMapping 1).isValid = true := by decide +kernel
    have hafter : ((machine.next e (.cancelOrder 10001)).orderBook.orderIdtoPriceMapping 1).isValid = false := by
      decide +kernel
    rw [h.locations, hbefore] at hafter
    cases hafter
  · have hbefore : Cancellable e 9999 := (cancellable_iff hb 9999).mpr
      ⟨by decide +kernel, 50, by decide +kernel, by decide +kernel⟩
    have hafter := (cancellable_iff (wellFormed_next hb _) 9999).mp (h 9999 (by decide +kernel) hbefore)
    exact absurd hafter.1 (by decide +kernel)

end MatchingEngine

end TradingSystem
