import TradingSystem.Engine.Effect

/-!
# Price-time priority

Ids are drawn from a counter, so as long as it does not wrap an accepted order gets a larger id than
every resting one. It joins the back of its queue, and orders leave a queue from anywhere without moving
the others: every queue is ascending in ids, at every step. A match takes the fronts of the best queues,
which are then the oldest orders at the best prices.
-/

namespace TradingSystem

open Lib OrderBook

namespace MatchingEngine

/-! ### The counter -/

/-- The ids that a call draws: one, if `addOrder` gets a slot. -/
def idsIssued (e : MatchingEngine) : Call → Nat
  | .addOrder _ => if e.orderBook.freeStack = [] then 0 else 1
  | .cancelOrder _ | .matchLimitOrders => 0

def NoWrap (e : MatchingEngine) (c : Call) : Prop := e.atomicOrderID.toNat + idsIssued e c < 2 ^ 64

theorem counter_next {e : MatchingEngine} (hb : WellFormed e.orderBook) (c : Call) :
    (machine.next e c).atomicOrderID = e.atomicOrderID + UInt64.ofNat (idsIssued e c) := by
  refine step_induction (P := fun _ e' => e'.atomicOrderID = e.atomicOrderID + UInt64.ofNat (idsIssued e c))
    hb fun r e' h => ?_
  cases h with
  | full o hfree => simp [idsIssued, hfree]
  | refused o hfree | accepted o hfree => simp [idsIssued, hfree, accepted, stored, nextId]
  | unknown | missed | erased | oneSided | uncrossed | traded => simp [idsIssued]

theorem toNat_counter_next {e : MatchingEngine} (hb : WellFormed e.orderBook) {c : Call} (hc : NoWrap e c) :
    (machine.next e c).atomicOrderID.toNat = e.atomicOrderID.toNat + idsIssued e c := by
  unfold NoWrap at hc
  have hissued : (UInt64.ofNat (idsIssued e c)).toNat = idsIssued e c :=
    UInt64.toNat_ofNat_of_lt' (Nat.lt_of_le_of_lt (Nat.le_add_left _ _) hc)
  rw [counter_next hb, UInt64.toNat_add, hissued]
  exact Nat.mod_eq_of_lt hc

theorem along_noWrap {e : MatchingEngine} (hb : WellFormed e.orderBook) {cs : List Call}
    (h : e.atomicOrderID.toNat + machine.total idsIssued e cs < 2 ^ 64) : machine.Along NoWrap e cs := by
  induction cs generalizing e with
  | nil => trivial
  | cons c cs ih =>
    rw [Machine.total] at h
    have hc : NoWrap e c := by
      unfold NoWrap
      omega
    refine ⟨hc, ih (wellFormed_next hb c) ?_⟩
    rw [toNat_counter_next hb hc]
    omega

/-! ### Ascending queues -/

structure Ordered (e : MatchingEngine) : Prop where
  ascending : ∀ s l, (e.orderBook.queue s l).Pairwise fun p q =>
    (e.orderBook.order p).mOrderID < (e.orderBook.order q).mOrderID
  unique : ∀ p ∈ e.orderBook.resting, ∀ q ∈ e.orderBook.resting,
    (e.orderBook.order p).mOrderID = (e.orderBook.order q).mOrderID → p = q
  issued : ∀ p ∈ e.orderBook.resting, (e.orderBook.order p).mOrderID ≤ e.atomicOrderID

theorem ordered_new (counter : UInt64) : Ordered (new 101 counter) := by
  constructor
  · intro s l
    rw [new, WellFormed.queue_new]
    exact List.Pairwise.nil
  · exact fun p hp => absurd hp (not_resting_new counter p)
  · exact fun p hp => absurd hp (not_resting_new counter p)

section Next

variable {e : MatchingEngine} {o : Order} {p : Nat} {rest : List Nat}

theorem toNat_nextId (hfree : e.orderBook.freeStack = p :: rest) (hc : NoWrap e (.addOrder o)) :
    e.nextId.toNat = e.atomicOrderID.toNat + 1 := by
  have hone : idsIssued e (.addOrder o) = 1 := by simp [idsIssued, hfree]
  unfold NoWrap at hc
  rw [hone] at hc
  rw [nextId, UInt64.toNat_add]
  exact Nat.mod_eq_of_lt hc

/-- A new id is larger than that of every resting order. -/
theorem Ordered.lt_nextId (h : Ordered e) (hfree : e.orderBook.freeStack = p :: rest)
    (hc : NoWrap e (.addOrder o)) {q : Nat} (hq : q ∈ e.orderBook.resting) :
    (e.orderBook.order q).mOrderID < e.nextId := by
  have hle := h.issued q hq
  rw [UInt64.le_iff_toNat_le] at hle
  rw [UInt64.lt_iff_toNat_lt, toNat_nextId hfree hc]
  omega

theorem mOrderID_next (hb : WellFormed e.orderBook) (c : Call) (hp : p ∈ e.orderBook.resting) :
    ((machine.next e c).orderBook.order p).mOrderID = (e.orderBook.order p).mOrderID := by
  rw [order_next hb c hp]

variable {c : Call}

theorem ascending_next (hb : WellFormed e.orderBook) (h : Ordered e) (hc : NoWrap e c) (s : Side) (l : Nat) :
    ((machine.next e c).orderBook.queue s l).Pairwise fun p q =>
      ((machine.next e c).orderBook.order p).mOrderID < ((machine.next e c).orderBook.order q).mOrderID := by
  have hkeep : (e.orderBook.queue s l).Pairwise fun p q =>
      ((machine.next e c).orderBook.order p).mOrderID < ((machine.next e c).orderBook.order q).mOrderID := by
    apply (h.ascending s l).imp_of_mem
    intro p q hp hq hlt
    rwa [mOrderID_next hb c (mem_resting.mpr ⟨s, l, hp⟩), mOrderID_next hb c (mem_resting.mpr ⟨s, l, hq⟩)]
  rcases queue_next hb c s l with hsub | ⟨o, p, rest, rfl, hfree, -, -, hnext, hqueue⟩
  · exact hkeep.sublist hsub
  · rw [hqueue, List.pairwise_append]
    refine ⟨hkeep, List.pairwise_singleton _ _, fun q hq p' hp' => ?_⟩
    obtain rfl := List.mem_singleton.mp hp'
    have hresting := mem_resting.mpr ⟨s, l, hq⟩
    rw [mOrderID_next hb _ hresting, hnext, order_accepted, if_pos rfl]
    exact h.lt_nextId hfree hc hresting

/-- The accepted order shares its id with no order that rested before. -/
theorem accepted_id_ne (hb : WellFormed e.orderBook) (h : Ordered e) (hc : NoWrap e (.addOrder o)) {l : Nat}
    (hfree : e.orderBook.freeStack = p :: rest) (hnext : machine.next e (.addOrder o) = e.accepted p o l)
    {q : Nat} (hq : q ∈ e.orderBook.resting) :
    ((machine.next e (.addOrder o)).orderBook.order q).mOrderID ≠
      ((machine.next e (.addOrder o)).orderBook.order p).mOrderID := by
  rw [mOrderID_next hb _ hq, hnext, order_accepted, if_pos rfl]
  exact UInt64.ne_of_lt (h.lt_nextId hfree hc hq)

theorem unique_next (hb : WellFormed e.orderBook) (h : Ordered e) (hc : NoWrap e c) :
    ∀ p ∈ (machine.next e c).orderBook.resting, ∀ q ∈ (machine.next e c).orderBook.resting,
      ((machine.next e c).orderBook.order p).mOrderID = ((machine.next e c).orderBook.order q).mOrderID →
        p = q := by
  intro p hp q hq hid
  rcases mem_resting_next hb hp with hpOld | ⟨o, rest, l, rfl, hfree, -, hnext⟩
  · rcases mem_resting_next hb hq with hqOld | ⟨o, rest, l, rfl, hfree, -, hnext⟩
    · rw [mOrderID_next hb c hpOld, mOrderID_next hb c hqOld] at hid
      exact h.unique p hpOld q hqOld hid
    · exact absurd hid (accepted_id_ne hb h hc hfree hnext hpOld)
  · rcases mem_resting_next hb hq with hqOld | ⟨o', rest', l', -, hfree', -, -⟩
    · exact absurd hid.symm (accepted_id_ne hb h hc hfree hnext hqOld)
    · exact (List.cons.inj (hfree.symm.trans hfree')).1

theorem issued_next (hb : WellFormed e.orderBook) (h : Ordered e) (hc : NoWrap e c) :
    ∀ p ∈ (machine.next e c).orderBook.resting,
      ((machine.next e c).orderBook.order p).mOrderID ≤ (machine.next e c).atomicOrderID := by
  intro p hp
  rcases mem_resting_next hb hp with hold | ⟨o, rest, l, rfl, hfree, -, hnext⟩
  · have hle := h.issued p hold
    rw [UInt64.le_iff_toNat_le] at hle
    rw [mOrderID_next hb c hold, UInt64.le_iff_toNat_le, toNat_counter_next hb hc]
    omega
  · rw [hnext, order_accepted, if_pos rfl]
    exact UInt64.le_refl _

theorem ordered_next (hb : WellFormed e.orderBook) (h : Ordered e) (hc : NoWrap e c) :
    Ordered (machine.next e c) :=
  ⟨ascending_next hb h hc, unique_next hb h hc, issued_next hb h hc⟩

end Next

/-- Every run whose ids stay below `2 ^ 64` is ordered at its end. -/
theorem ordered_run {counter : UInt64} {cs : List Call}
    (h : counter.toNat + machine.total idsIssued (new 101 counter) cs < 2 ^ 64) :
    Ordered (machine.run (new 101 counter) cs) := by
  have hrun := along_noWrap (e := new 101 counter) (wellFormed_new counter) h
  have hboth := hrun.invariant (I := fun e => WellFormed e.orderBook ∧ Ordered e)
    (fun e c h hc => ⟨wellFormed_next h.1 c, ordered_next h.1 h.2 hc⟩) ⟨wellFormed_new counter, ordered_new counter⟩
  exact hboth.2

/-! ### Matches -/

/-- The order in slot `p` has the best level of side `s`, and the smallest id at that level. -/
def First (b : OrderBook) (s : Side) (l p : Nat) : Prop :=
  p ∈ b.queue s l ∧ ∀ l' q, q ∈ b.queue s l' → ahead s l l' ∧
    (l' = l → (b.order p).mOrderID ≤ (b.order q).mOrderID)

theorem Ordered.first {e : MatchingEngine} (h : Ordered e) {s : Side} {l p : Nat}
    (htop : e.orderBook.Top s l p) : First e.orderBook s l p := by
  refine ⟨htop.mem, fun l' q hq => ⟨htop.1.2 l' (List.ne_nil_of_mem hq), ?_⟩⟩
  rintro rfl
  obtain ⟨-, rest, hqueue⟩ := htop
  have hasc := h.ascending s l'
  rw [hqueue, List.pairwise_cons] at hasc
  rw [hqueue, List.mem_cons] at hq
  rcases hq with rfl | hq
  · exact UInt64.le_refl _
  · exact UInt64.le_of_lt (hasc.1 q hq)

structure Prioritized (e : MatchingEngine) : Prop where
  ascending : ∀ s l, (e.orderBook.queue s l).Pairwise fun p q =>
    (e.orderBook.order p).mOrderID < (e.orderBook.order q).mOrderID
  once : (e.orderBook.resting.map fun p => (e.orderBook.order p).mOrderID).Nodup
  trades : ∀ t, (e.step .matchLimitOrders).1 = .matched (.ok (some t)) → ∃ lb la,
    First e.orderBook .bid lb t.mBidOrder ∧ First e.orderBook .ask la t.mAskOrder ∧
      la ≤ lb ∧ t.mTradePrice.toNat = 950 + la

/-- **Price-time priority** at the end of every run. -/
theorem prioritized_run (counter : UInt64) (cs : List Call)
    (h : counter.toNat + machine.total idsIssued (new 101 counter) cs < 2 ^ 64) :
    Prioritized (machine.run (new 101 counter) cs) := by
  have hb : WellFormed (machine.run (new 101 counter) cs).orderBook :=
    Reachable.wellFormed ⟨counter, cs, rfl⟩
  have hordered := ordered_run h
  generalize machine.run (new 101 counter) cs = e at hb hordered
  constructor
  · exact hordered.ascending
  · have hnodup := (List.nodup_append.mp hb.nodup).1
    exact hnodup.map_on hordered.unique
  · intro t ht
    obtain ⟨lb, la, hbid, hask, hle, hprice, -⟩ := trade_effect hb ht
    exact ⟨lb, la, hordered.first hbid, hordered.first hask, hle, hprice⟩

/-- Two bids and an ask after a cancelled bid: the ask trades with the first of them. -/
theorem prioritized_example :
    let e := machine.run (new 101 0) [.addOrder ⟨.bid, 5, [], 0, ⟨1000⟩⟩, .addOrder ⟨.bid, 5, [], 0, ⟨1001⟩⟩,
      .cancelOrder 1, .addOrder ⟨.bid, 5, [], 0, ⟨1001⟩⟩, .addOrder ⟨.ask, 7, [], 0, ⟨990⟩⟩]
    Prioritized e ∧ (e.step .matchLimitOrders).1 = .matched (.ok (some ⟨9998, 9997, 5, 990⟩)) :=
  ⟨prioritized_run 0 _ (by decide +kernel), by decide +kernel⟩

end MatchingEngine

end TradingSystem
