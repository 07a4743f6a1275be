import TradingSystem.Engine.Cancel
import TradingSystem.Engine.Slots

/-!
# Holders of orders

A holder has at most one id: that of its order, from the `addOrder` that accepted it to the cancel. While fewer
than 10000 ids are issued between the two, no two ids that are held share an entry of the id table, so a cancel
finds the order if it still rests. What rests is then held, and as many holders as there are slots never fill
the pool.
-/

namespace TradingSystem

open Lib Lib.Effects OrderBook

namespace MatchingEngine

/-- Every resting order is the order of one of `n` holders, and its entry leads to it. -/
structure Held (n : Nat) (held : Nat → Option UInt64) (e : MatchingEngine) : Prop where
  book : WellFormed e.orderBook
  pool : slots e.orderBook = 10000
  indexed : AllIndexed e
  within : ∀ i k, held i = some k → i < n
  holder : ∀ p ∈ e.orderBook.resting, ∃ i, held i = some (e.orderBook.order p).mOrderID
  unique : ∀ i j k, held i = some k → held j = some k → i = j
  issued : ∀ i k, held i = some k → k.toNat ≤ e.atomicOrderID.toNat
  recent : ∀ i k, held i = some k → e.atomicOrderID.toNat < k.toNat + 10000

/-- The next id is neither that of an earlier order nor has it the entry of one that is held. -/
structure Timely (held : Nat → Option UInt64) (e : MatchingEngine) : Prop where
  counter : e.atomicOrderID.toNat + 1 < 2 ^ 64
  recent : ∀ i k, held i = some k → e.atomicOrderID.toNat + 1 < k.toNat + 10000

variable {n i : Nat} {held : Nat → Option UInt64} {e : MatchingEngine} {k k' : UInt64}

theorem held_new (n : Nat) (counter : UInt64) : Held n (fun _ => none) (new 101 counter) where
  book := wellFormed_new counter
  pool := slots_new counter
  indexed := fun p hp => absurd hp (not_resting_new counter p)
  within := nofun
  holder := fun p hp => absurd hp (not_resting_new counter p)
  unique := nofun
  issued := nofun
  recent := nofun

/-! ### Ids that are held have their own entries -/

theorem Timely.toNat_nextId (h : Timely held e) : e.nextId.toNat = e.atomicOrderID.toNat + 1 := by
  rw [nextId, UInt64.toNat_add]
  exact Nat.mod_eq_of_lt (by rw [UInt64.toNat_one]; exact h.counter)

theorem Held.mapIndex_inj (h : Held n held e) {j : Nat} (hi : held i = some k) (hj : held j = some k')
    (hindex : mapIndex k = mapIndex k') : k = k' := by
  have hk := h.issued i k hi
  have hk' := h.issued j k' hj
  have hrecent := h.recent i k hi
  have hrecent' := h.recent j k' hj
  simp only [mapIndex, poolSize] at hindex
  exact UInt64.toNat_inj.mp (by omega)

theorem Held.mapIndex_ne_nextId (h : Held n held e) (ht : Timely held e) (hi : held i = some k) :
    mapIndex k ≠ mapIndex e.nextId := by
  have hk := h.issued i k hi
  have hrecent := ht.recent i k hi
  simp only [mapIndex, poolSize, ht.toNat_nextId]
  omega

theorem Held.ne_nextId (h : Held n held e) (ht : Timely held e) (hi : held i = some k) : k ≠ e.nextId := by
  rintro rfl
  exact h.mapIndex_ne_nextId ht hi rfl

/-! ### How many orders rest -/

/-- The ids of the resting orders are different. -/
theorem Held.nodup_ids (h : Held n held e) :
    (e.orderBook.resting.map fun p => (e.orderBook.order p).mOrderID).Nodup := by
  refine List.Nodup.map_on (fun p hp q hq hid => (h.indexed p hp).inj (h.indexed q hq) hid) ?_
  exact (List.nodup_append.mp h.book.nodup).1

/-- As many orders rest as there are holders at most. -/
theorem Held.length_resting_le (h : Held n held e) :
    e.orderBook.resting.length ≤ ((List.range n).filterMap held).length := by
  rw [← List.length_map fun p => (e.orderBook.order p).mOrderID]
  refine (List.subperm_of_subset h.nodup_ids fun k hk => ?_).length_le
  obtain ⟨p, hp, rfl⟩ := List.mem_map.mp hk
  obtain ⟨i, hi⟩ := h.holder p hp
  exact List.mem_filterMap.mpr ⟨i, List.mem_range.mpr (h.within i _ hi), hi⟩

theorem Held.length_resting_le_holders (h : Held n held e) : e.orderBook.resting.length ≤ n := by
  have hlength := List.length_filterMap_le held (List.range n)
  rw [List.length_range] at hlength
  exact h.length_resting_le.trans hlength

/-- There is a slot for the order of a holder that has none. -/
theorem Held.exists_free (h : Held n held e) (hn : n ≤ 10000) (hi : i < n) (hnone : held i = none) :
    ∃ p rest, e.orderBook.freeStack = p :: rest := by
  have hless : ((List.range n).filterMap held).length < (List.range n).length :=
    List.length_filterMap_lt_length_iff_exists.mpr ⟨i, List.mem_range.mpr hi, by rw [hnone]⟩
  rw [List.length_range] at hless
  have hresting := h.length_resting_le
  have hpool := h.pool
  apply List.exists_cons_of_ne_nil
  intro hnil
  rw [slots, hnil, List.length_nil] at hpool
  omega

/-! ### The steps -/

theorem Held.add (h : Held n held e) (hn : n ≤ 10000) (ht : Timely held e) (hi : i < n) (hnone : held i = none)
    {o : Order} {l : Nat} (hlevel : levelOf o.mPrice = some l) :
    (e.step (.addOrder o)).1 = .added (.ok e.nextId) ∧
      Held n (Function.update held i (some e.nextId)) (machine.next e (.addOrder o)) := by
  obtain ⟨p, rest, hfree⟩ := h.exists_free hn hi hnone
  have heffect := Effect.accepted o hfree hlevel
  have hcounter : (e.accepted p o l).atomicOrderID.toNat = e.atomicOrderID.toNat + 1 := ht.toNat_nextId
  refine ⟨congrArg Prod.fst (heffect.step_eq h.book), ?_⟩
  have hnext := heffect.next_eq h.book
  have hheld : ∀ j k, Function.update held i (some e.nextId) j = some k →
      (j = i ∧ k = e.nextId) ∨ (j ≠ i ∧ held j = some k) := by
    intro j k hj
    by_cases hji : j = i
    · rw [hji, Function.update_self] at hj
      exact Or.inl ⟨hji, (Option.some.inj hj).symm⟩
    · rw [Function.update_of_ne hji] at hj
      exact Or.inr ⟨hji, hj⟩
  refine ⟨wellFormed_next h.book _, ?_, ?_, ?_, ?_, ?_, ?_, ?_⟩
  · have hslots := slots_next h.book (.addOrder o)
    have hleak : leak e (.addOrder o) = 0 := if_neg fun hleaks => by rw [hleaks.2] at hlevel; cases hlevel
    rwa [hleak, h.pool] at hslots
  · refine (allIndexed_next h.book h.indexed _).mpr fun _ l' _ p hp hindex => ?_
    obtain ⟨j, hj⟩ := h.holder p hp
    exact absurd hindex (h.mapIndex_ne_nextId ht hj)
  · intro j k hj
    rcases hheld j k hj with ⟨rfl, -⟩ | ⟨-, hold⟩
    · exact hi
    · exact h.within j k hold
  · intro q hq
    rw [hnext, mem_resting_accepted h.book hfree hlevel] at hq
    rw [hnext, order_accepted]
    by_cases hqp : q = p
    · rw [if_pos hqp]
      exact ⟨i, Function.update_self i _ held⟩
    · rw [if_neg hqp]
      obtain ⟨j, hholder⟩ := h.holder q (hq.resolve_left hqp)
      refine ⟨j, ?_⟩
      rwa [Function.update_of_ne (by rintro rfl; rw [hnone] at hholder; cases hholder)]
  · intro j j' k hj hj'
    rcases hheld j k hj with ⟨hji, rfl⟩ | ⟨-, hold⟩ <;> rcases hheld j' _ hj' with ⟨hji', hk⟩ | ⟨-, hold'⟩
    · rw [hji, hji']
    · exact absurd rfl (h.ne_nextId ht hold')
    · exact absurd hk (h.ne_nextId ht hold)
    · exact h.unique j j' k hold hold'
  · intro j k hj
    rw [hnext, hcounter]
    rcases hheld j k hj with ⟨-, rfl⟩ | ⟨-, hj⟩
    · rw [ht.toNat_nextId]
    · exact (h.issued j k hj).trans (Nat.le_succ _)
  · intro j k hj
    rw [hnext, hcounter]
    rcases hheld j k hj with ⟨-, rfl⟩ | ⟨-, hj⟩
    · rw [ht.toNat_nextId]
      omega
    · exact ht.recent j k hj

/-- What rests after a call that accepts no order rested before it, under the same id. -/
theorem mem_resting_of_next (hb : WellFormed e.orderBook) {c : Call} (hc : ∀ o, c ≠ .addOrder o) {p : Nat}
    (hp : p ∈ (machine.next e c).orderBook.resting) : p ∈ e.orderBook.resting ∧
      ((machine.next e c).orderBook.order p).mOrderID = (e.orderBook.order p).mOrderID := by
  rcases mem_resting_next hb hp with hp | ⟨o, rest, l, hadd, -⟩
  · refine ⟨hp, ?_⟩
    rw [order_next hb c hp]
  · exact absurd hadd (hc o)

theorem slots_of_not_add (hb : WellFormed e.orderBook) {c : Call} (hc : ∀ o, c ≠ .addOrder o) :
    slots (machine.next e c).orderBook = slots e.orderBook := by
  have hslots := slots_next hb c
  have hleak : leak e c = 0 := by
    apply if_neg
    cases c with
    | addOrder o => exact absurd rfl (hc o)
    | cancelOrder | matchLimitOrders => exact not_false
  rwa [hleak] at hslots

theorem atomicOrderID_of_not_add (hb : WellFormed e.orderBook) {c : Call} (hc : ∀ o, c ≠ .addOrder o) :
    (machine.next e c).atomicOrderID = e.atomicOrderID := by
  refine step_induction (P := fun _ e' => e'.atomicOrderID = e.atomicOrderID) hb fun r e' h => ?_
  cases h with
  | full | refused | accepted => exact absurd rfl (hc _)
  | unknown | missed | erased | oneSided | uncrossed | traded => rfl

theorem Held.cancel (h : Held n held e) (hi : held i = some k) :
    Held n (Function.update held i none) (machine.next e (.cancelOrder k)) := by
  have hc : ∀ o, Call.cancelOrder k ≠ .addOrder o := nofun
  have hcounter := atomicOrderID_of_not_add h.book hc
  have hheld : ∀ j k', Function.update held i none j = some k' → held j = some k' := by
    intro j k' hj
    by_cases hji : j = i
    · rw [hji, Function.update_self] at hj
      cases hj
    · rwa [Function.update_of_ne hji] at hj
  refine ⟨wellFormed_next h.book _, (slots_of_not_add h.book hc).trans h.pool, ?_, ?_, ?_, ?_, ?_, ?_⟩
  · refine (allIndexed_next h.book h.indexed _).mpr fun p hp hindex => ?_
    obtain ⟨j, hj⟩ := h.holder p hp
    exact h.mapIndex_inj hj hi hindex
  · exact fun j k' hj => h.within j k' (hheld j k' hj)
  · intro p hp
    obtain ⟨hbefore, hid⟩ := mem_resting_of_next h.book hc hp
    obtain ⟨j, hholder⟩ := h.holder p hbefore
    refine ⟨j, ?_⟩
    rw [hid, Function.update_of_ne, hholder]
    rintro rfl
    -- the order with the cancelled id is gone
    obtain rfl : k = (e.orderBook.order p).mOrderID := Option.some.inj (hi.symm.trans hholder)
    obtain ⟨s, l, hqueue⟩ := mem_resting.mp hp
    rw [((cancellable_iff h.book p).mpr (h.indexed p hbefore)).removed] at hqueue
    exact absurd hqueue (h.book.queue_nodup s l).not_mem_erase
  · exact fun j j' k' hj hj' => h.unique j j' k' (hheld j k' hj) (hheld j' k' hj')
  · intro j k' hj
    rw [hcounter]
    exact h.issued j k' (hheld j k' hj)
  · intro j k' hj
    rw [hcounter]
    exact h.recent j k' (hheld j k' hj)

theorem Held.match (h : Held n held e) : Held n held (machine.next e .matchLimitOrders) := by
  have hc : ∀ o, Call.matchLimitOrders ≠ .addOrder o := nofun
  have hcounter := atomicOrderID_of_not_add h.book hc
  refine ⟨wellFormed_next h.book _, (slots_of_not_add h.book hc).trans h.pool, ?_, h.within, ?_, h.unique, ?_, ?_⟩
  · refine (allIndexed_next h.book h.indexed _).mpr fun lb la bid ask hbid hask hle p hp hstays q hq hindex => ?_
    have hqresting : q ∈ e.orderBook.resting := by
      rcases hq.1 with rfl | rfl
      · exact hbid.resting
      · exact hask.resting
    obtain ⟨i, hi⟩ := h.holder p hp
    obtain ⟨j, hj⟩ := h.holder q hqresting
    obtain rfl := (h.indexed p hp).inj (h.indexed q hqresting) (h.mapIndex_inj hi hj hindex)
    exact hstays hq
  · intro p hp
    obtain ⟨hbefore, hid⟩ := mem_resting_of_next h.book hc hp
    rw [hid]
    exact h.holder p hbefore
  · rw [hcounter]
    exact h.issued
  · rw [hcounter]
    exact h.recent

end MatchingEngine

end TradingSystem
