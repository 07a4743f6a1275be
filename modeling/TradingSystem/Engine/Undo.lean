import TradingSystem.Engine.Cancel
import TradingSystem.Engine.Representation

/-!
# A cancel undoes an add

An accepted order takes the top slot, joins the back of its queue and points the entry of its id there. A
cancel of that id follows the entry and erases the first order of the queue with the id: the new one, unless an
older order of the queue has the same id, which takes a counter that has gone round. In the first case
everything but the entry and the counter is back; in the second the slots are not.
-/

namespace TradingSystem

open Lib Lib.Effects OrderBook

namespace MatchingEngine

/-- The queues, their orders, the bitmaps and the free stack are those of `b`. -/
structure Restored (b b' : OrderBook) : Prop where
  levels : ∀ s, b'.priceLevel s = b.priceLevel s
  orders : ∀ p ∈ b.resting, b'.order p = b.order p
  bitmaps : ∀ s, b'.bitmap s = b.bitmap s
  free : b'.freeStack = b.freeStack

namespace Restored

variable {b b' b'' : OrderBook}

theorem refl (b : OrderBook) : Restored b b := ⟨fun _ => rfl, fun _ _ => rfl, fun _ => rfl, rfl⟩

theorem queue (h : Restored b b') (s : Side) (l : Nat) : b'.queue s l = b.queue s l := by
  rw [OrderBook.queue, h.levels, OrderBook.queue]

theorem resting (h : Restored b b') : b'.resting = b.resting := by
  rw [OrderBook.resting, h.levels, h.levels, OrderBook.resting]

theorem trans (h : Restored b b') (h' : Restored b' b'') : Restored b b'' := by
  refine ⟨fun s => (h'.levels s).trans (h.levels s), fun p hp => ?_,
    fun s => (h'.bitmaps s).trans (h.bitmaps s), h'.free.trans h.free⟩
  rw [← h.resting] at hp
  rw [h'.orders p hp, h.orders p (h.resting ▸ hp)]

end Restored

section Undo

variable {e : MatchingEngine} {p l : Nat} {o : Order} {rest : List Nat}

/-- The order leaves the queue as it was. -/
theorem queue_dequeue_accepted (hb : WellFormed e.orderBook) (hfree : e.orderBook.freeStack = p :: rest)
    (hlevel : levelOf o.mPrice = some l) (s : Side) (l' : Nat) :
    ((e.accepted p o l).orderBook.dequeue o.bidOrAsk l p).queue s l' = e.orderBook.queue s l' := by
  have hb' := wellFormed_accepted hb hfree hlevel
  have hqueue := queue_accepted hb hfree hlevel
  have hp : p ∈ (e.accepted p o l).orderBook.queue o.bidOrAsk l := by
    rw [hqueue, if_pos ⟨rfl, rfl⟩]
    simp
  have hnew : ∀ s l', p ∉ e.orderBook.queue s l' := fun s l' hq =>
    hb.ne_of_free_of_mem_queue hfree hq rfl
  rw [hb'.queue_dequeue hp, hqueue]
  split_ifs
  · rw [List.erase_append_right _ (hnew s l'), List.erase_cons_head, List.append_nil]
  · exact List.erase_of_not_mem (hnew s l')

theorem restored_dequeue_accepted (hb : WellFormed e.orderBook) (hfree : e.orderBook.freeStack = p :: rest)
    (hlevel : levelOf o.mPrice = some l) :
    Restored e.orderBook ((e.accepted p o l).orderBook.dequeue o.bidOrAsk l p) := by
  have hqueue := queue_dequeue_accepted hb hfree hlevel
  have hsize : ∀ s, (((e.accepted p o l).orderBook.dequeue o.bidOrAsk l p).priceLevel s).size =
      (e.orderBook.priceLevel s).size := by
    intro s
    simp [accepted, stored, take]
  have hp : p ∈ (e.accepted p o l).orderBook.queue o.bidOrAsk l := by
    rw [queue_accepted hb hfree hlevel, if_pos ⟨rfl, rfl⟩]
    simp
  have hb' := (wellFormed_accepted hb hfree hlevel).dequeue hp
  constructor
  · exact fun s => Buckets.ext_of_bucket (hsize s) fun l' => hqueue s l'
  · intro q hq
    rw [order_dequeue, order_accepted, if_neg (hb.ne_of_free hfree hq)]
  · exact fun s => hb.bitmap_congr hb' (hsize s) fun l' => by rw [hqueue]
  · rw [freeStack_dequeue, hfree]
    simp [accepted, stored, hfree]

/-- The first order with the new id is an old one, if there is an old one. -/
theorem findOrder_accepted_old (hb : WellFormed e.orderBook) (hfree : e.orderBook.freeStack = p :: rest)
    (hlevel : levelOf o.mPrice = some l) {q : Nat} (hq : q ∈ e.orderBook.queue o.bidOrAsk l)
    (hid : (e.orderBook.order q).mOrderID = e.nextId) :
    ∃ q' ∈ e.orderBook.queue o.bidOrAsk l,
      (e.accepted p o l).orderBook.findOrder o.bidOrAsk l e.nextId = some q' := by
  cases hfind : e.orderBook.findOrder o.bidOrAsk l e.nextId with
  | none => exact absurd hid (findOrder_eq_none.mp hfind q hq)
  | some q' => exact ⟨q', (findOrder_mem hfind).1, findOrder_accepted hb hfree hlevel hfind⟩

/-- A cancel right after an accepted order restores the book exactly when no order of the queue has its id. -/
theorem restored_iff (hb : WellFormed e.orderBook) (hfree : e.orderBook.freeStack = p :: rest)
    (hlevel : levelOf o.mPrice = some l) :
    Restored e.orderBook (machine.next (e.accepted p o l) (.cancelOrder e.nextId)).orderBook ↔
      ∀ q ∈ e.orderBook.queue o.bidOrAsk l, (e.orderBook.order q).mOrderID ≠ e.nextId := by
  constructor
  · intro h q hq hid
    obtain ⟨q', hq', hfind⟩ := findOrder_accepted_old hb hfree hlevel hq hid
    have hstack := h.free
    rw [next_cancel_accepted hb hfree hlevel hfind, freeStack_dequeue, hfree] at hstack
    exact hb.ne_of_free_of_mem_queue hfree hq' (List.cons.inj hstack).1
  · intro h
    rw [next_cancel_accepted hb hfree hlevel (findOrder_accepted_new hb hfree hlevel h)]
    exact restored_dequeue_accepted hb hfree hlevel

/-- What an accepted order needs. -/
theorem exists_of_added (hb : WellFormed e.orderBook) {k : UInt64}
    (hadd : (e.step (.addOrder o)).1 = .added (.ok k)) :
    ∃ p rest l, e.orderBook.freeStack = p :: rest ∧ levelOf o.mPrice = some l ∧ k = e.nextId := by
  have heffect := step_effect hb (.addOrder o)
  rw [hadd] at heffect
  generalize (e.step (.addOrder o)).2 = e' at heffect
  cases heffect with
  | @accepted _ p rest l hfree hlevel => exact ⟨p, rest, l, hfree, hlevel, rfl⟩

end Undo

/-- **Cancel undoes add**, exactly when no order of the queue that the new order joins has its id. -/
theorem cancel_undoes_add_iff {e : MatchingEngine} (h : Reachable e) {o : Order} {k : UInt64}
    (hadd : (e.step (.addOrder o)).1 = .added (.ok k)) :
    Restored e.orderBook (machine.run e [.addOrder o, .cancelOrder k]).orderBook ↔
      ∀ l, levelOf o.mPrice = some l → ∀ q ∈ e.orderBook.queue o.bidOrAsk l,
        (e.orderBook.order q).mOrderID ≠ k := by
  have hb := h.wellFormed
  obtain ⟨p, rest, l, hfree, hlevel, rfl⟩ := exists_of_added hb hadd
  rw [Machine.run, Machine.run, Machine.run, next_accepted hb hfree hlevel, restored_iff hb hfree hlevel, hlevel]
  simp only [Option.some.injEq, forall_eq']

/-- A bid of 5 rests at 1000, and a second one joins it and is cancelled. -/
theorem cancel_undoes_add_example :
    let e := machine.run (new 101 0) [.addOrder ⟨.bid, 5, [], 0, ⟨1000⟩⟩]
    Restored e.orderBook (machine.run e [.addOrder ⟨.bid, 7, [], 0, ⟨1000⟩⟩, .cancelOrder 2]).orderBook := by
  refine (cancel_undoes_add_iff ⟨0, _, rfl⟩ (by decide +kernel)).mpr fun l hlevel => ?_
  obtain rfl : l = 50 := Option.some.inj (hlevel.symm.trans (by decide))
  decide +kernel

/-! ### The counter goes round -/

/-- Ids can be spent without a trace: where a slot is free, `n` orders that join an empty queue, each cancelled
at once, leave the book as it was. -/
theorem exists_restored_run {e : MatchingEngine} (h : Reachable e) (hfree : e.orderBook.freeStack ≠ [])
    {o : Order} {l : Nat} (hlevel : levelOf o.mPrice = some l) (hempty : e.orderBook.queue o.bidOrAsk l = [])
    (n : Nat) : ∃ cs, Restored e.orderBook (machine.run e cs).orderBook ∧
      (machine.run e cs).atomicOrderID = e.atomicOrderID + UInt64.ofNat n := by
  induction n with
  | zero => exact ⟨[], Restored.refl _, (UInt64.add_zero _).symm⟩
  | succ n ih =>
    obtain ⟨cs, hrestored, hcounter⟩ := ih
    have hb : WellFormed (machine.run e cs).orderBook := by
      obtain ⟨counter, cs', rfl⟩ := h
      exact Reachable.wellFormed ⟨counter, cs' ++ cs, Machine.run_append _ _ _⟩
    obtain ⟨p, rest, hstack⟩ := List.exists_cons_of_ne_nil hfree
    rw [← hrestored.free] at hstack
    have hnone : ∀ q ∈ (machine.run e cs).orderBook.queue o.bidOrAsk l,
        ((machine.run e cs).orderBook.order q).mOrderID ≠ (machine.run e cs).nextId := by
      rw [hrestored.queue, hempty]
      exact fun q hq => absurd hq List.not_mem_nil
    refine ⟨cs ++ [.addOrder o, .cancelOrder (machine.run e cs).nextId], ?_, ?_⟩
    · rw [Machine.run_append, Machine.run, Machine.run, Machine.run, next_accepted hb hstack hlevel]
      exact hrestored.trans ((restored_iff hb hstack hlevel).mpr hnone)
    · rw [Machine.run_append, Machine.run, Machine.run, Machine.run, next_accepted hb hstack hlevel,
        next_cancel_accepted hb hstack hlevel (findOrder_accepted_new hb hstack hlevel hnone)]
      show (machine.run e cs).atomicOrderID + 1 = _
      rw [hcounter, UInt64.add_assoc, UInt64.ofNat_add]
      rfl

/-- A bid rests under id 1, and `2 ^ 64 - 1` ids later a second bid at its price gets id 1 too: cancelling it
erases the first bid. -/
theorem wrapped_id_cancels_older : ∃ e o k, Reachable e ∧ (e.step (.addOrder o)).1 = .added (.ok k) ∧
    ¬ Restored e.orderBook (machine.run e [.addOrder o, .cancelOrder k]).orderBook := by
  let e := machine.run (new 101 0) [.addOrder ⟨.bid, 5, [], 0, ⟨1000⟩⟩]
  let o : Order := ⟨.bid, 5, [], 0, ⟨1000⟩⟩
  have hreach : Reachable e := ⟨0, _, rfl⟩
  have hlevel : levelOf o.mPrice = some 50 := by decide
  obtain ⟨cs, hrestored, hcounter⟩ := exists_restored_run hreach (by decide +kernel)
    (o := ⟨.ask, 5, [], 0, ⟨1000⟩⟩) (l := 50) (by decide) (by decide +kernel) (2 ^ 64 - 1)
  have hreach' : Reachable (machine.run e cs) := ⟨0, _ :: cs, rfl⟩
  have hb := hreach'.wellFormed
  have hid : (machine.run e cs).nextId = 1 := by
    have hstart : e.atomicOrderID = 1 := by decide +kernel
    rw [nextId, hcounter, hstart]
    decide
  obtain ⟨p, rest, hfree⟩ := List.exists_cons_of_ne_nil (show e.orderBook.freeStack ≠ [] by decide +kernel)
  rw [← hrestored.free] at hfree
  have hfirst : 9999 ∈ e.orderBook.queue .bid 50 ∧ (e.orderBook.order 9999).mOrderID = 1 := by decide +kernel
  refine ⟨machine.run e cs, o, 1, hreach', ?_, fun h => ?_⟩
  · rw [(Effect.accepted _ hfree hlevel).step_eq hb, hid]
  · rw [Machine.run, Machine.run, Machine.run, next_accepted hb hfree hlevel, ← hid,
      restored_iff hb hfree hlevel] at h
    refine h 9999 ?_ ?_
    · rw [hrestored.queue]
      exact hfirst.1
    · rw [hrestored.orders 9999 (mem_resting.mpr ⟨_, _, hfirst.1⟩), hfirst.2, hid]

end MatchingEngine

end TradingSystem
