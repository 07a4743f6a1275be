import TradingSystem.Engine.Representation

/-!
# The slots of the order pool

A slot is free, or it is that of one resting order, or it is lost: `addOrder` takes a slot before it
looks at the price, and does not give it back when the price is refused. The first half shows that no
slot is ever in two places; the second counts them over whole runs, where the lost slots are exactly the
refused prices.
-/

namespace TradingSystem

open Lib Lib.Effects OrderBook

namespace MatchingEngine

/-! ### No aliasing -/

/-- `ObjectPool::release` is called with `slot` when the book is `b'`, in a call on book `b`. -/
inductive ReleaseCall (b : OrderBook) : (slot : Nat) → (b' : OrderBook) → Prop
  /-- In `removeBid` or `removeAsk`, called by a match. -/
  | remove {s : Side} {orderId : UInt64} {b' : OrderBook} {front : Nat} {rest : List Nat} :
      RemovalCall b s orderId b' → b'.findBestLevel s ≠ -1 →
      levelAt s (b'.findBestLevel s) b' = .ok (front :: rest) b' →
      (b'.order front).getOrderId = orderId → ReleaseCall b front b'
  /-- In the loop of `removeOrderFromOrderId`. -/
  | cancel {orderId : UInt64} {price : Price} {s : Side} {index : Int} {seen rest : List Nat} {it : Nat} :
      orderIdToPrice orderId b = .ok (price, s) b → priceToIndex price b = .ok index b →
      levelAt s index b = .ok (seen ++ it :: rest) b →
      (∀ p ∈ seen, (b.order p).mOrderID ≠ orderId) → (b.order it).mOrderID = orderId →
      ReleaseCall b it b

/-- What a queue access returns is a queue of the book. -/
theorem levelAt_ok {b b' : OrderBook} {s : Side} {i : Int} {q : List Nat} (h : levelAt s i b = .ok q b') :
    q = b.queue s (widen i).toNat := by
  simp only [levelAt, get_bind] at h
  cases hget : (b.priceLevel s)[(widen i).toNat]? with
  | none =>
    rw [hget] at h
    cases h
  | some deque =>
    rw [hget] at h
    cases h
    simp [queue, Buckets.bucket, hget]

/-- A released slot is that of a resting order. -/
theorem ReleaseCall.resting {b b' : OrderBook} (hb : WellFormed b) {slot : Nat} (h : ReleaseCall b slot b') :
    WellFormed b' ∧ slot ∈ b'.resting := by
  cases h with
  | @remove s _ _ _ rest hcall hbest hlevel hid =>
    have hmem : slot ∈ slot :: rest := List.mem_cons_self
    rw [levelAt_ok hlevel] at hmem
    exact ⟨(hcall.top hb).1, mem_resting.mpr ⟨_, _, hmem⟩⟩
  | @cancel _ _ s _ seen rest _ hentry hindex hlevel hseen hid =>
    have hmem : slot ∈ seen ++ slot :: rest := List.mem_append_right _ List.mem_cons_self
    rw [levelAt_ok hlevel] at hmem
    exact ⟨hb, mem_resting.mpr ⟨_, _, hmem⟩⟩

structure Unaliased (e : MatchingEngine) : Prop where
  free_nodup : e.orderBook.freeStack.Nodup
  free_bounded : ∀ p ∈ e.orderBook.freeStack, p < 10000
  queue_bounded : ∀ s l, ∀ p ∈ e.orderBook.queue s l, p < 10000
  /-- Two positions of the queues that hold one slot are the same position. -/
  positions : ∀ s l (i : Nat) s' l' (i' : Nat) p, (e.orderBook.queue s l)[i]? = some p →
    (e.orderBook.queue s' l')[i']? = some p → s = s' ∧ l = l' ∧ i = i'
  not_free : ∀ s l, ∀ p ∈ e.orderBook.queue s l, p ∉ e.orderBook.freeStack
  /-- The slot that `addOrder` is given is in no queue. -/
  acquired : ∀ slot b', OrderBook.acquire e.orderBook = .ok slot b' → ∀ s l, slot ∉ e.orderBook.queue s l
  /-- `*order = orderData` overwrites no resting order. -/
  overwrites : ∀ o s l, ∀ p ∈ e.orderBook.queue s l,
    (machine.next e (.addOrder o)).orderBook.order p = e.orderBook.order p
  released : ∀ slot b', ReleaseCall e.orderBook slot b' → slot ∉ b'.freeStack

/-- `addOrder` writes to no slot of a resting order. -/
theorem order_addOrder {e : MatchingEngine} (hb : WellFormed e.orderBook) (o : Order) {p : Nat}
    (hp : p ∈ e.orderBook.resting) :
    (machine.next e (.addOrder o)).orderBook.order p = e.orderBook.order p := by
  refine step_induction (c := .addOrder o) (P := fun _ e' => e'.orderBook.order p = e.orderBook.order p) hb
    fun r e' h => ?_
  cases h with
  | full => rfl
  | refused o hfree => rw [order_stored, if_neg (hb.ne_of_free hfree hp)]
  | accepted o hfree => rw [order_accepted, if_neg (hb.ne_of_free hfree hp)]

/-- **No slot of the pool is ever in two places.** -/
theorem unaliased_of_reachable {e : MatchingEngine} (h : Reachable e) : Unaliased e := by
  have hb := h.wellFormed
  have hqueue : ∀ s l, ∀ p ∈ e.orderBook.queue s l, p ∈ e.orderBook.resting := fun s l p hp =>
    mem_resting.mpr ⟨s, l, hp⟩
  constructor
  · exact (List.nodup_append.mp hb.nodup).2.1
  · exact fun p hp => hb.bounded p (List.mem_append_right _ hp)
  · exact fun s l p hp => hb.bounded p (List.mem_append_left _ (hqueue s l p hp))
  · intro s l i s' l' i' p hi hi'
    obtain ⟨rfl, rfl⟩ := hb.queue_unique (List.mem_of_getElem? hi') (List.mem_of_getElem? hi)
    have hnodup := hb.queue_nodup s l
    exact ⟨rfl, rfl, (List.getElem?_inj (List.getElem?_eq_some_iff.mp hi).1 hnodup).mp (hi.trans hi'.symm)⟩
  · exact fun s l p hp => hb.resting_not_free (hqueue s l p hp)
  · intro slot b' hacquire s l hslot
    rw [acquire_run] at hacquire
    cases hfree : e.orderBook.freeStack with
    | nil =>
      rw [hfree] at hacquire
      cases hacquire
    | cons p rest =>
      rw [hfree] at hacquire
      cases hacquire
      exact hb.ne_of_free hfree (hqueue s l slot hslot) rfl
  · exact fun o s l p hp => order_addOrder hb o (hqueue s l p hp)
  · intro slot b' hcall
    obtain ⟨hb', hslot⟩ := hcall.resting hb
    exact hb'.resting_not_free hslot

/-- After an accepted order, a refused one and a cancel. -/
theorem unaliased_example :
    Unaliased (machine.run (new 101 0)
      [.addOrder ⟨.bid, 5, [], 0, ⟨1000⟩⟩, .addOrder ⟨.ask, 3, [], 0, ⟨7⟩⟩, .cancelOrder 1]) :=
  unaliased_of_reachable ⟨0, _, rfl⟩

/-! ### Counting the slots -/

/-- Free slots and slots of resting orders. -/
def slots (b : OrderBook) : Nat := b.freeStack.length + b.resting.length

/-- The price of the order is refused while a slot is free. -/
def Leaks (e : MatchingEngine) : Call → Prop
  | .addOrder o => e.orderBook.freeStack ≠ [] ∧ levelOf o.mPrice = none
  | _ => False

instance (e : MatchingEngine) : DecidablePred (Leaks e)
  | .addOrder o => inferInstanceAs (Decidable (_ ∧ levelOf o.mPrice = none))
  | .cancelOrder _ | .matchLimitOrders => isFalse id

def leak (e : MatchingEngine) (c : Call) : Nat := if Leaks e c then 1 else 0

theorem slots_dequeue {b : OrderBook} (hb : WellFormed b) {s : Side} {l p : Nat} (hp : p ∈ b.queue s l) :
    slots (b.dequeue s l p) = slots b := by
  have hlen := (resting_dequeue_perm (hb.level_lt_size (hb.level_lt hp) s) hp).length_eq
  simp only [slots, freeStack_dequeue, List.length_cons] at hlen ⊢
  omega

/-- Every call keeps the slots, but a leak loses one. -/
theorem slots_next {e : MatchingEngine} (hb : WellFormed e.orderBook) (c : Call) :
    slots (machine.next e c).orderBook + leak e c = slots e.orderBook := by
  refine step_induction (P := fun _ e' => slots e'.orderBook + leak e c = slots e.orderBook) hb
    fun r e' h => ?_
  cases h with
  | full o hfree =>
    have hno : ¬ Leaks e (.addOrder o) := fun h => h.1 hfree
    simp [leak, hno]
  | refused o hfree hlevel =>
    have hyes : Leaks e (.addOrder o) := ⟨by simp [hfree], hlevel⟩
    simp [leak, hyes, slots, stored, hfree]
    omega
  | @accepted o p rest l hfree hlevel =>
    have hno : ¬ Leaks e (.addOrder o) := fun h => Option.some_ne_none l (hlevel.symm.trans h.2)
    have hsize := (wellFormed_stored hb hfree o).level_lt_size (levelOf_eq_some.mp hlevel).1 o.bidOrAsk
    have hlen := (resting_enqueue_perm (p := p) hsize).length_eq
    simp only [leak, if_neg hno, slots, accepted, freeStack_enqueue, hlen]
    simp [stored, hfree]
    omega
  | unknown | oneSided | uncrossed => rfl
  | missed => simp [leak, Leaks, slots]
  | erased orderId _ _ hfind => exact slots_dequeue hb (findOrder_mem hfind).1
  | @traded lb la bid ask hbid hask =>
    have hsettled : slots (e.orderBook.settled lb la bid ask) = slots e.orderBook := by
      apply settled_keeps (I := fun b' => slots b' = slots e.orderBook) hb hbid hask
      · rfl
      · intro b' s l p hb' hI hp _
        rw [slots_dequeue hb' hp, hI]
    exact hsettled

theorem length_freeStack_new (counter : UInt64) : (new 101 counter).orderBook.freeStack.length = 10000 :=
  WellFormed.pushAll_length poolSize

theorem slots_new (counter : UInt64) : slots (new 101 counter).orderBook = 10000 := by
  rw [slots, length_freeStack_new, new, WellFormed.resting_new, List.length_nil]

/-- The slots of the pool, over any run: free, resting, or leaked. -/
theorem slots_run (counter : UInt64) (cs : List Call) :
    slots (machine.run (new 101 counter) cs).orderBook + machine.total leak (new 101 counter) cs = 10000 := by
  have hsum := Machine.conservation (M := machine) (J := fun e => WellFormed e.orderBook)
    (v := fun e => slots e.orderBook) (fun _ c hb => wellFormed_next hb c) (fun _ c hb => slots_next hb c)
    (wellFormed_new counter) cs
  have hnew := slots_new counter
  omega

/-! ### What a throwing `addOrder` leaves -/

structure Untouched (e e' : MatchingEngine) : Prop where
  queues : ∀ s l, e'.orderBook.queue s l = e.orderBook.queue s l
  bitmaps : ∀ s, e'.orderBook.bitmap s = e.orderBook.bitmap s
  locations : e'.orderBook.orderIdtoPriceMapping = e.orderBook.orderIdtoPriceMapping
  free : ∀ p, p ∈ e'.orderBook.freeStack ↔ p ∈ e.orderBook.freeStack

/-- If `addOrder` throws, everything but the counter is as it was. -/
def FailureUntouched (e : MatchingEngine) (o : Order) : Prop :=
  ∀ err e', addOrder o e = .error err e' → Untouched e e'

/-- The slots add up to the pool, and a valid price is refused only when the whole pool rests. -/
structure Conserved (e : MatchingEngine) : Prop where
  slots : e.orderBook.freeStack.length + e.orderBook.resting.length = 10000
  refusals : ∀ o l err e', priceToIndex o.mPrice e.orderBook = .ok l e.orderBook →
    addOrder o e = .error err e' → e.orderBook.resting.length = 10000

theorem failureUntouched_iff {e : MatchingEngine} (hb : WellFormed e.orderBook) (o : Order) :
    FailureUntouched e o ↔ ¬ Leaks e (.addOrder o) := by
  constructor
  · rintro h ⟨hfree, hlevel⟩
    obtain ⟨p, rest, hfree⟩ := List.exists_cons_of_ne_nil hfree
    have hthrow := addOrder_refused hfree hlevel
    have hrest : p ∈ rest := by
      have hp := ((h _ _ hthrow).free p).mpr (by rw [hfree]; exact List.mem_cons_self)
      simpa [stored, hfree] using hp
    have hnodup := (List.nodup_append.mp hb.nodup).2.1
    rw [hfree, List.nodup_cons] at hnodup
    exact hnodup.1 hrest
  · intro h err e' hthrow
    rcases addOrder_error hb hthrow with ⟨-, rfl, -⟩ | ⟨p, rest, hfree, hlevel, -, -⟩
    · exact ⟨fun _ _ => rfl, fun _ => rfl, rfl, fun _ => Iff.rfl⟩
    · exact absurd ⟨by simp [hfree], hlevel⟩ h

theorem conserved_iff {e : MatchingEngine} (hb : WellFormed e.orderBook) :
    Conserved e ↔ slots e.orderBook = 10000 := by
  refine ⟨Conserved.slots, fun h => ⟨h, fun o l err e' hindex hthrow => ?_⟩⟩
  rcases addOrder_error hb hthrow with ⟨hfree, -, -⟩ | ⟨p, rest, -, hlevel, -, -⟩
  · rw [slots, hfree, List.length_nil, Nat.zero_add] at h
    exact h
  · rw [priceToIndex_run, hlevel] at hindex
    cases hindex

/-- **A throwing `addOrder` leaves the engine as it was exactly when it does not leak**, and over a run
the slots add up exactly when no call of the run leaks. -/
theorem addOrder_failures_iff (counter : UInt64) (cs : List Call) :
    (∀ o, FailureUntouched (machine.run (new 101 counter) cs) o ↔
        ¬ Leaks (machine.run (new 101 counter) cs) (.addOrder o)) ∧
      (machine.States Conserved (new 101 counter) cs ↔
        machine.Along (fun e c => ¬ Leaks e c) (new 101 counter) cs) := by
  have hb : WellFormed (machine.run (new 101 counter) cs).orderBook :=
    Reachable.wellFormed ⟨counter, cs, rfl⟩
  refine ⟨failureUntouched_iff hb, ?_⟩
  apply Machine.states_iff_along (J := fun e => WellFormed e.orderBook) fun _ c hb => wellFormed_next hb c
  · intro e c hb hI
    have hsum := slots_next hb c
    rw [conserved_iff hb] at hI
    rw [conserved_iff (wellFormed_next hb c), ← hI, ← hsum, leak]
    split_ifs with hleak
    · simp [hleak]
    · simp [hleak]
  · exact wellFormed_new counter
  · rw [conserved_iff (wellFormed_new counter)]
    exact slots_new counter

/-- Refused prices empty the free stack, and nothing rests. -/
theorem run_refused {e : MatchingEngine} (hb : WellFormed e.orderBook) {o : Order}
    (hlevel : levelOf o.mPrice = none) (n : Nat) :
    (machine.run e (List.replicate n (.addOrder o))).orderBook.freeStack = e.orderBook.freeStack.drop n ∧
      (machine.run e (List.replicate n (.addOrder o))).orderBook.resting = e.orderBook.resting := by
  induction n generalizing e with
  | zero => exact ⟨rfl, rfl⟩
  | succ n ih =>
    have hstep : (machine.next e (.addOrder o)).orderBook.freeStack = e.orderBook.freeStack.tail ∧
        (machine.next e (.addOrder o)).orderBook.resting = e.orderBook.resting := by
      refine step_induction (c := .addOrder o) (P := fun _ e' =>
        e'.orderBook.freeStack = e.orderBook.freeStack.tail ∧ e'.orderBook.resting = e.orderBook.resting)
        hb fun r e' h => ?_
      cases h with
      | full o hfree => simp [hfree]
      | refused => exact ⟨rfl, rfl⟩
      | accepted o hfree hsome => simp [hlevel] at hsome
    obtain ⟨hfree, hresting⟩ := ih (wellFormed_next hb (.addOrder o))
    rw [List.replicate_succ, Machine.run, hfree, hresting, hstep.1, hstep.2, List.drop_tail]
    exact ⟨rfl, rfl⟩

/-- One refused price loses a slot, and ten thousand of them leave an engine that refuses every order
although none rests. -/
theorem refused_prices_exhaust_the_pool :
    ¬ FailureUntouched (new 101 0) ⟨.bid, 5, [], 0, ⟨7⟩⟩ ∧
      ∃ e, Reachable e ∧ e.orderBook.resting = [] ∧
        (e.step (.addOrder ⟨.bid, 5, [], 0, ⟨1000⟩⟩)).1 =
          .added (.error (.runtimeError "freeStack is full: there are no objects to acquire")) := by
  have hlevel : levelOf ⟨7⟩ = none := by decide
  constructor
  · rw [failureUntouched_iff (wellFormed_new 0)]
    have hfree : (new 101 0).orderBook.freeStack ≠ [] := by
      apply List.ne_nil_of_length_pos
      rw [length_freeStack_new]
      decide
    exact not_not_intro ⟨hfree, hlevel⟩
  · obtain ⟨hfree, hresting⟩ := run_refused (wellFormed_new 0) (o := ⟨.bid, 5, [], 0, ⟨7⟩⟩) hlevel 10000
    refine ⟨_, ⟨0, _, rfl⟩, hresting.trans (WellFormed.resting_new 101), ?_⟩
    have hempty : (new 101 0).orderBook.freeStack.drop 10000 = [] := by
      apply List.drop_eq_nil_of_le
      rw [length_freeStack_new]
    rw [step_addOrder (by rw [observe, addOrder_full (hfree.trans hempty)])]

end MatchingEngine

end TradingSystem
