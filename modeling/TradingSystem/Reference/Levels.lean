import TradingSystem.Engine.Effect
import TradingSystem.Engine.Slots
import TradingSystem.Reference.Refinement

/-!
# The engine is a book of queues

The same book without pointers: a queue of orders for each level, the side and level that an entry of the id table
leads to, and the number of free slots. The best level is found by looking at one level after the other. This book
answers every run of calls as the engine does, with no condition on the run: which slot an order has, the bitmaps
and the order of the free stack are not seen.
-/

namespace TradingSystem

open Lib OrderBook MatchingEngine

@[ext] structure LevelBook where
  /-- The orders of a level, the oldest first. -/
  queue : Side → Nat → List Order
  /-- Where the ids that share an entry lead. -/
  entry : Nat → Option (Side × Nat)
  free : Nat
  counter : UInt64

namespace LevelBook

def new (counter : UInt64) : LevelBook := ⟨fun _ _ => [], fun _ => none, poolSize, counter⟩

def setQueue (r : LevelBook) (s : Side) (l : Nat) (q : List Order) : LevelBook :=
  { r with queue := fun s' l' => if s' = s ∧ l' = l then q else r.queue s' l' }

def setEntry (r : LevelBook) (orderId : UInt64) (place : Option (Side × Nat)) : LevelBook :=
  { r with entry := fun i => if i = mapIndex orderId then place else r.entry i }

/-- The levels of a side, the best first. -/
def levelsFrom : Side → List Nat
  | .bid => (List.range 101).reverse
  | .ask => List.range 101

def bestLevel (r : LevelBook) (s : Side) : Option Nat := (levelsFrom s).find? fun l => r.queue s l ≠ []

def addOrder (r : LevelBook) (o : Order) : Answer × LevelBook :=
  if r.free = 0 then
    (.added (.error (.runtimeError "freeStack is full: there are no objects to acquire")), r)
  else
    let orderId := r.counter + 1
    let r := { r with free := r.free - 1, counter := orderId }
    match levelOf o.mPrice with
    | none => (.added (.error (.invalidArgument "Invalid price to bid/ask")), r)
    | some l => (.added (.ok orderId), (r.setQueue o.bidOrAsk l (r.queue o.bidOrAsk l ++
        [{ o with mOrderID := orderId }])).setEntry orderId (some (o.bidOrAsk, l)))

/-- The order leaves, if it is where its entry leads. The entry is reset in any case. -/
def cancelOrder (r : LevelBook) (orderId : UInt64) : Answer × LevelBook :=
  match r.entry (mapIndex orderId) with
  | none => (.cancelled (.ok ()), r)
  | some (s, l) =>
    if ∃ o ∈ r.queue s l, o.mOrderID = orderId then
      (.cancelled (.ok ()), { (r.setQueue s l ((r.queue s l).eraseP fun o => o.mOrderID = orderId)).setEntry
        orderId none with free := r.free + 1 })
    else (.cancelled (.ok ()), r.setEntry orderId none)

/-- The front order of a level is reduced, and leaves when its volume reads 0. -/
def fill (r : LevelBook) (s : Side) (l : Nat) (volume : UInt64) : LevelBook :=
  match r.queue s l with
  | [] => r
  | o :: rest =>
    let o' := (o.reduceVolume volume).2
    if o'.getVolume = 0 then { (r.setQueue s l rest).setEntry o.mOrderID none with free := r.free + 1 }
    else r.setQueue s l (o' :: rest)

def matchLimitOrders (r : LevelBook) : Answer × LevelBook :=
  match r.bestLevel .bid, r.bestLevel .ask with
  | some lb, some la =>
    match r.queue .bid lb, r.queue .ask la with
    | bid :: _, ask :: _ =>
      if la ≤ lb then
        let volume := widen (min ask.getVolume bid.getVolume)
        (.matched (.ok (some ⟨bid.mOrderID, ask.mOrderID, volume, widen (950 + la)⟩)),
          (r.fill .ask la volume).fill .bid lb volume)
      else (.matched (.ok none), r)
    | _, _ => (.matched (.ok none), r)
  | _, _ => (.matched (.ok none), r)

def step (r : LevelBook) : Call → Answer × LevelBook
  | .addOrder o => r.addOrder o
  | .cancelOrder orderId => r.cancelOrder orderId
  | .matchLimitOrders => r.matchLimitOrders

def machine : Machine LevelBook Call Answer := ⟨step⟩

end LevelBook

namespace OrderLocation

/-- Where an entry leads. -/
def place (loc : OrderLocation) : Option (Side × Nat) :=
  if loc.isValid then (levelOf loc.price).map fun l => (loc.side, l) else none

end OrderLocation

namespace MatchingEngine

/-- The engine without its pointers. -/
def levels (e : MatchingEngine) : LevelBook where
  queue s l := (e.orderBook.queue s l).map e.orderBook.order
  entry i := (e.orderBook.orderIdtoPriceMapping i).place
  free := e.orderBook.freeStack.length
  counter := e.atomicOrderID

variable {e : MatchingEngine} {s : Side} {l p : Nat}

/-! ### The best level -/

theorem pairwise_levelsFrom (s : Side) : (LevelBook.levelsFrom s).Pairwise (ahead s) := by
  have hrange : (List.range 101).Pairwise (· ≤ ·) := List.pairwise_le_range
  cases s with
  | bid => exact List.pairwise_reverse.mpr hrange
  | ask => exact hrange

theorem mem_levelsFrom (s : Side) : l ∈ LevelBook.levelsFrom s ↔ l < 101 := by
  cases s <;> simp [LevelBook.levelsFrom]

theorem bestLevel_of_isBest (hb : WellFormed e.orderBook) (h : IsBest e.orderBook s l) :
    e.levels.bestLevel s = some l := by
  cases hfind : e.levels.bestLevel s with
  | none =>
    have hnone := List.find?_eq_none.mp hfind l ((mem_levelsFrom s).mpr (h.lt hb))
    have hempty : e.orderBook.queue s l = [] := by simpa [levels] using hnone
    exact absurd hempty h.1
  | some l' =>
    obtain ⟨hfound, pre, post, hlist, hpre⟩ := List.find?_eq_some_iff_append.mp hfind
    have hl' : e.orderBook.queue s l' ≠ [] := by simpa [levels] using hfound
    have hmem : l ∈ pre ++ l' :: post := hlist ▸ (mem_levelsFrom s).mpr (h.lt hb)
    rcases List.mem_append.mp hmem with hmem | hmem
    · have hempty : e.orderBook.queue s l = [] := by simpa [levels] using hpre l hmem
      exact absurd hempty h.1
    rcases List.mem_cons.mp hmem with rfl | hmem
    · rfl
    · have hsorted := hlist ▸ pairwise_levelsFrom s
      have hahead := List.rel_of_pairwise_cons (List.pairwise_append.mp hsorted).2.1 hmem
      rw [ahead_antisymm hahead (h.2 l' hl')]

theorem bestLevel_of_empty (h : ∀ l, e.orderBook.queue s l = []) : e.levels.bestLevel s = none := by
  apply List.find?_eq_none.mpr
  intro l _
  simp [levels, h]

/-! ### Orders -/

theorem levels_full (hfree : e.orderBook.freeStack = []) (o : Order) : e.levels.addOrder o =
    (.added (.error (.runtimeError "freeStack is full: there are no objects to acquire")), e.levels) := by
  rw [LevelBook.addOrder, if_pos]
  rw [levels, hfree]
  rfl

/-- An order that is written to a free slot is seen in no queue. -/
theorem map_order_stored (hb : WellFormed e.orderBook) {rest : List Nat} (hfree : e.orderBook.freeStack = p :: rest)
    (o : Order) (s : Side) (l : Nat) : (e.orderBook.queue s l).map (e.stored p o).orderBook.order =
      (e.orderBook.queue s l).map e.orderBook.order := by
  refine List.map_congr_left fun q hq => ?_
  rw [order_stored, if_neg (hb.ne_of_free_of_mem_queue hfree hq)]

theorem levels_refused (hb : WellFormed e.orderBook) {rest : List Nat} (hfree : e.orderBook.freeStack = p :: rest)
    {o : Order} (hlevel : levelOf o.mPrice = none) : e.levels.addOrder o =
      (.added (.error (.invalidArgument "Invalid price to bid/ask")), (e.stored p o).levels) := by
  have hlength : e.levels.free = rest.length + 1 := by
    rw [levels, hfree]
    rfl
  simp only [LevelBook.addOrder, hlength, hlevel, Nat.add_one_ne_zero, if_false, Nat.add_sub_cancel]
  refine congrArg (Prod.mk _) (LevelBook.ext ?_ rfl ?_ rfl)
  · funext s l
    have hqueue : (e.stored p o).orderBook.queue s l = e.orderBook.queue s l := by simp [stored, OrderBook.take]
    simp only [levels, hqueue, map_order_stored hb hfree]
  · simp [levels, stored, hfree]

theorem levels_accepted (hb : WellFormed e.orderBook) {rest : List Nat}
    (hfree : e.orderBook.freeStack = p :: rest) {o : Order} (hlevel : levelOf o.mPrice = some l) :
    e.levels.addOrder o = (.added (.ok e.nextId), (e.accepted p o l).levels) := by
  have hlength : e.levels.free = rest.length + 1 := by
    rw [levels, hfree]
    rfl
  simp only [LevelBook.addOrder, hlength, hlevel, Nat.add_one_ne_zero, if_false, Nat.add_sub_cancel]
  refine congrArg (Prod.mk _) (LevelBook.ext ?_ ?_ ?_ rfl)
  · funext s l'
    have horder : (e.accepted p o l).orderBook.order = (e.stored p o).orderBook.order := by
      funext q
      rw [order_accepted, order_stored]
    have hnew : (e.stored p o).orderBook.order p = { o with mOrderID := e.nextId } := by
      rw [order_stored, if_pos rfl]
    simp only [levels, queue_accepted hb hfree hlevel, LevelBook.setQueue, LevelBook.setEntry, horder]
    split_ifs with hsame
    · rw [List.map_append, map_order_stored hb hfree, List.map_singleton, hnew, hsame.1, hsame.2]
      rfl
    · rw [map_order_stored hb hfree]
  · funext i
    have hentry : (e.accepted p o l).orderBook.orderIdtoPriceMapping i =
        if i = mapIndex e.nextId then ⟨o.mPrice, o.bidOrAsk, true⟩ else e.orderBook.orderIdtoPriceMapping i := by
      simp only [accepted, mapping_enqueue]
      rw [order_stored, if_pos rfl]
      rfl
    show (if i = mapIndex e.nextId then some (o.bidOrAsk, l) else e.levels.entry i) =
      ((e.accepted p o l).orderBook.orderIdtoPriceMapping i).place
    rw [hentry]
    split_ifs
    · simp only [OrderLocation.place, if_true, hlevel, Option.map_some]
    · rfl
  · simp [levels, accepted, stored, hfree, LevelBook.setEntry, LevelBook.setQueue]

/-! ### Cancels -/

theorem levels_unknown {orderId : UInt64} (hvalid : (e.orderBook.location orderId).isValid = false) :
    e.levels.cancelOrder orderId = (.cancelled (.ok ()), e.levels) := by
  have hentry : e.levels.entry (mapIndex orderId) = none := by
    rw [location] at hvalid
    simp only [levels, OrderLocation.place, hvalid, Bool.false_eq_true, if_false]
  rw [LevelBook.cancelOrder, hentry]

/-- Where the entry of an id leads. -/
theorem entry_of_valid {orderId : UInt64} (hvalid : (e.orderBook.location orderId).isValid = true)
    (hlevel : levelOf (e.orderBook.location orderId).price = some l) :
    e.levels.entry (mapIndex orderId) = some ((e.orderBook.location orderId).side, l) := by
  rw [location] at hvalid hlevel ⊢
  simp only [levels, OrderLocation.place, hvalid, if_true, hlevel, Option.map_some]

theorem levels_missed {orderId : UInt64} (hvalid : (e.orderBook.location orderId).isValid = true)
    (hlevel : levelOf (e.orderBook.location orderId).price = some l)
    (hfind : e.orderBook.findOrder (e.orderBook.location orderId).side l orderId = none) :
    e.levels.cancelOrder orderId = (.cancelled (.ok ()),
      levels { e with orderBook := e.orderBook.setLocation orderId .empty }) := by
  have habsent : ¬ ∃ o ∈ e.levels.queue (e.orderBook.location orderId).side l, o.mOrderID = orderId := by
    rintro ⟨o, ho, hid⟩
    obtain ⟨q, hq, rfl⟩ := List.mem_map.mp ho
    exact findOrder_eq_none.mp hfind q hq hid
  simp only [LevelBook.cancelOrder, entry_of_valid hvalid hlevel]
  rw [if_neg habsent]
  refine congrArg (Prod.mk _) (LevelBook.ext ?_ ?_ rfl rfl)
  · funext s l'
    simp only [levels, LevelBook.setEntry, queue_setLocation]
    rfl
  · funext i
    simp only [levels, LevelBook.setEntry, mapping_setLocation]
    split_ifs <;> rfl

/-- The order that a cancel finds is the first with its id. -/
theorem map_erase_eq {orderId : UInt64} (hfind : e.orderBook.findOrder s l orderId = some p) :
    ((e.orderBook.queue s l).erase p).map e.orderBook.order =
      ((e.orderBook.queue s l).map e.orderBook.order).eraseP fun o => o.mOrderID = orderId := by
  obtain ⟨hid, pre, post, hqueue, hpre⟩ := findOrder_eq_some.mp hfind
  have hnot : p ∉ pre := fun hmem => hpre p hmem hid
  have hskip : ∀ o ∈ pre.map e.orderBook.order, ¬ decide (o.mOrderID = orderId) = true := by
    intro o ho
    obtain ⟨q, hq, rfl⟩ := List.mem_map.mp ho
    rw [decide_eq_true_eq]
    exact hpre q hq
  rw [hqueue, List.erase_append_right _ hnot, List.erase_cons_head, List.map_append, List.map_append,
    List.eraseP_append_right _ hskip, List.map_cons, List.eraseP_cons_of_pos (by rw [hid]; exact decide_eq_true rfl)]

theorem levels_erased (hb : WellFormed e.orderBook) {orderId : UInt64}
    (hvalid : (e.orderBook.location orderId).isValid = true)
    (hlevel : levelOf (e.orderBook.location orderId).price = some l)
    (hfind : e.orderBook.findOrder (e.orderBook.location orderId).side l orderId = some p) :
    e.levels.cancelOrder orderId = (.cancelled (.ok ()),
      levels { e with orderBook := e.orderBook.dequeue (e.orderBook.location orderId).side l p }) := by
  obtain ⟨hp, hid⟩ := findOrder_mem hfind
  have hpresent : ∃ o ∈ e.levels.queue (e.orderBook.location orderId).side l, o.mOrderID = orderId :=
    ⟨e.orderBook.order p, List.mem_map_of_mem hp, hid⟩
  simp only [LevelBook.cancelOrder, entry_of_valid hvalid hlevel]
  rw [if_pos hpresent]
  refine congrArg (Prod.mk _) (LevelBook.ext ?_ ?_ ?_ rfl)
  · funext s l'
    have horder : (e.orderBook.dequeue (e.orderBook.location orderId).side l p).order = e.orderBook.order := by
      funext q
      exact order_dequeue q
    simp only [levels, LevelBook.setEntry, LevelBook.setQueue, horder,
      OrderBook.queue_dequeue (hb.level_lt_size (hb.level_lt hp) _)]
    split_ifs
    · exact (map_erase_eq hfind).symm
    · rfl
  · funext i
    simp only [levels, LevelBook.setEntry, LevelBook.setQueue, mapping_dequeue, hid]
    split_ifs <;> rfl
  · simp [levels]

/-! ### Matches -/

/-- The front order of a level is reduced, and leaves when its volume reads 0. -/
def fillFront (b : OrderBook) (s : Side) (l p : Nat) (volume : UInt64) : OrderBook :=
  (b.setOrder p ((b.order p).reduceVolume volume).2).dropFilled s l p

theorem dropFilled_setOrder (b : OrderBook) (s : Side) (l : Nat) {p q : Nat} (hne : p ≠ q) (o : Order) :
    (b.setOrder q o).dropFilled s l p = (b.dropFilled s l p).setOrder q o := by
  have horder : (b.setOrder q o).order p = b.order p := by rw [order_setOrder, if_neg hne]
  unfold dropFilled
  rw [horder]
  split_ifs
  · simp only [dequeue, bitmapAfter, horder, queue_setOrder, bitmap_setOrder, freeStack_setOrder]
    cases s <;> rfl
  · rfl

/-- A trade fills the ask, and then the bid. -/
theorem settled_eq_fillFront {b : OrderBook} {lb la bid ask : Nat} (hne : bid ≠ ask) : b.settled lb la bid ask =
    fillFront (fillFront b .ask la ask (b.tradeVolume bid ask)) .bid lb bid (b.tradeVolume bid ask) := by
  rw [settled, reduced, dropFilled_setOrder _ _ _ hne.symm, fillFront, fillFront, order_dropFilled]

theorem levels_fillFront (hb : WellFormed e.orderBook) {rest : List Nat} (hqueue : e.orderBook.queue s l = p :: rest)
    (volume : UInt64) :
    levels { e with orderBook := fillFront e.orderBook s l p volume } = e.levels.fill s l volume := by
  have hp : p ∈ e.orderBook.queue s l := hqueue ▸ List.mem_cons_self
  have hnodup : (p :: rest).Nodup := hqueue ▸ hb.queue_nodup s l
  have hfront : e.levels.queue s l = e.orderBook.order p :: rest.map e.orderBook.order := by
    simp only [levels, hqueue, List.map_cons]
  have hid : ((e.orderBook.order p).reduceVolume volume).2.mOrderID = (e.orderBook.order p).mOrderID := by
    rw [Order.reduceVolume_eq]
  -- the other orders are as they were
  have hothers : ∀ (q : List Nat) (o : Order), p ∉ q →
      q.map (e.orderBook.setOrder p o).order = q.map e.orderBook.order := by
    intro q o hnot
    refine List.map_congr_left fun x hx => ?_
    rw [order_setOrder, if_neg (by rintro rfl; exact hnot hx)]
  have helsewhere : ∀ s' l', ¬ (s' = s ∧ l' = l) → p ∉ e.orderBook.queue s' l' := fun s' l' hne hmem =>
    hne (hb.queue_unique hp hmem)
  have hsize : l < (e.orderBook.priceLevel s).size := hb.level_lt_size (hb.level_lt hp) s
  simp only [LevelBook.fill, hfront, fillFront, dropFilled, order_setOrder, if_true]
  split_ifs with hvolume
  · refine LevelBook.ext ?_ ?_ ?_ rfl
    · funext s' l'
      have horder : ((e.orderBook.setOrder p ((e.orderBook.order p).reduceVolume volume).2).dequeue s l p).order =
          (e.orderBook.setOrder p ((e.orderBook.order p).reduceVolume volume).2).order := by
        funext q
        exact order_dequeue q
      simp only [levels, LevelBook.setEntry, LevelBook.setQueue, horder]
      rw [OrderBook.queue_dequeue (by rwa [priceLevel_setOrder]), queue_setOrder, queue_setOrder]
      split_ifs with hsame
      · rw [hqueue, List.erase_cons_head]
        exact hothers rest _ (List.nodup_cons.mp hnodup).1
      · exact hothers _ _ (helsewhere s' l' hsame)
    · funext i
      simp only [levels, LevelBook.setEntry, LevelBook.setQueue, mapping_dequeue, order_setOrder, if_true, hid]
      split_ifs <;> rfl
    · simp [levels]
  · refine LevelBook.ext ?_ rfl rfl rfl
    funext s' l'
    simp only [levels, LevelBook.setQueue, queue_setOrder]
    split_ifs with hsame
    · rw [hsame.1, hsame.2, hqueue, List.map_cons, order_setOrder, if_pos rfl,
        hothers rest _ (List.nodup_cons.mp hnodup).1]
    · exact hothers _ _ (helsewhere s' l' hsame)

theorem wellFormed_fillFront {b : OrderBook} (hb : WellFormed b) (hp : p ∈ b.queue s l) (volume : UInt64) :
    WellFormed (fillFront b s l p volume) := by
  have hreduced : WellFormed (b.setOrder p ((b.order p).reduceVolume volume).2) := hb.setOrder fun _ => by simp
  exact wellFormed_dropFilled hreduced (by rwa [queue_setOrder])

theorem levels_traded (hb : WellFormed e.orderBook) {lb la bid ask : Nat} (hbid : e.orderBook.Top .bid lb bid)
    (hask : e.orderBook.Top .ask la ask) (hle : la ≤ lb) : e.levels.matchLimitOrders =
      (.matched (.ok (some ⟨(e.orderBook.order bid).mOrderID, (e.orderBook.order ask).mOrderID,
        e.orderBook.tradeVolume bid ask, widen (950 + la)⟩)),
        levels { e with orderBook := e.orderBook.settled lb la bid ask }) := by
  obtain ⟨bids, hbids⟩ := hbid.2
  obtain ⟨asks, hasks⟩ := hask.2
  have hreduced : WellFormed (e.orderBook.setOrder ask
      ((e.orderBook.order ask).reduceVolume (e.orderBook.tradeVolume bid ask)).2) := hb.setOrder fun _ => by simp
  have hbids' : (fillFront e.orderBook .ask la ask (e.orderBook.tradeVolume bid ask)).queue .bid lb =
      bid :: bids := by
    rw [fillFront, queue_dropFilled_ne hreduced (by rw [queue_setOrder]; exact hask.mem) (by decide),
      queue_setOrder, hbids]
  have hfillAsk := levels_fillFront hb hasks (e.orderBook.tradeVolume bid ask)
  have hfillBid := levels_fillFront (e := { e with
    orderBook := fillFront e.orderBook .ask la ask (e.orderBook.tradeVolume bid ask) })
    (wellFormed_fillFront hb hask.mem _) hbids' (e.orderBook.tradeVolume bid ask)
  have hqueue : ∀ {s l p rest}, e.orderBook.queue s l = p :: rest →
      e.levels.queue s l = e.orderBook.order p :: rest.map e.orderBook.order := fun h => by
    simp only [levels, h, List.map_cons]
  simp only [LevelBook.matchLimitOrders, bestLevel_of_isBest hb hbid.1, bestLevel_of_isBest hb hask.1,
    hqueue hbids, hqueue hasks, if_pos hle]
  rw [settled_eq_fillFront (hbid.ne hb hask), hfillBid, hfillAsk]
  rfl

theorem levels_uncrossed (hb : WellFormed e.orderBook) {lb la bid ask : Nat} (hbid : e.orderBook.Top .bid lb bid)
    (hask : e.orderBook.Top .ask la ask) (hlt : lb < la) :
    e.levels.matchLimitOrders = (.matched (.ok none), e.levels) := by
  simp only [LevelBook.matchLimitOrders, bestLevel_of_isBest hb hbid.1, bestLevel_of_isBest hb hask.1]
  split
  · rw [if_neg (Nat.not_le.mpr hlt)]
  · rfl

theorem levels_oneSided (hempty : ∀ l, e.orderBook.queue s l = []) :
    e.levels.matchLimitOrders = (.matched (.ok none), e.levels) := by
  have hnone := bestLevel_of_empty hempty
  rw [LevelBook.matchLimitOrders]
  cases s with
  | bid => rw [hnone]
  | ask =>
    rw [hnone]
    cases e.levels.bestLevel .bid <;> rfl

/-! ### Runs -/

/-- **One call**: the book of queues gives the engine's answer and goes on as the engine does. -/
theorem levels_step (hb : WellFormed e.orderBook) (c : Call) :
    e.levels.step c = ((observed.step e c).1, (machine.next e c).levels) := by
  refine step_induction (c := c) (P := fun r e' => e.levels.step c = (answer e' r, e'.levels)) hb fun r e' h => ?_
  cases h with
  | full o hfree => exact levels_full hfree o
  | refused o hfree hlevel => exact levels_refused hb hfree hlevel
  | accepted o hfree hlevel => exact levels_accepted hb hfree hlevel
  | unknown orderId hvalid => exact levels_unknown hvalid
  | missed orderId hvalid hlevel hfind => exact levels_missed hvalid hlevel hfind
  | erased orderId hvalid hlevel hfind => exact levels_erased hb hvalid hlevel hfind
  | oneSided s hempty => exact levels_oneSided hempty
  | uncrossed hbid hask hlt => exact levels_uncrossed hb hbid hask hlt
  | @traded lb la bid ask hbid hask hle =>
    rw [LevelBook.step, levels_traded hb hbid hask hle]
    simp only [answer, Except.map, Option.map, order_settled, mOrderID_reduced]

theorem levels_new (size : Nat) (counter : UInt64) : (new size counter).levels = .new counter := by
  refine LevelBook.ext ?_ rfl (length_freeStack_new counter) rfl
  funext s l
  simp only [levels, new, WellFormed.queue_new]
  rfl

theorem levels_run (hb : WellFormed e.orderBook) (cs : List Call) :
    observed.outputs e cs = LevelBook.machine.outputs e.levels cs ∧
      (machine.run e cs).levels = LevelBook.machine.run e.levels cs := by
  induction cs generalizing e with
  | nil => exact ⟨rfl, rfl⟩
  | cons c cs ih =>
    obtain ⟨houtputs, hrun⟩ := ih (wellFormed_next hb c)
    have hstep : LevelBook.machine.step e.levels c = ((observed.step e c).1, (machine.next e c).levels) :=
      levels_step hb c
    rw [Machine.outputs, Machine.outputs, Machine.run, Machine.run, Machine.next, Machine.next, hstep, ← hrun,
      ← houtputs]
    exact ⟨rfl, rfl⟩

/-- **The engine is observed as a book of queues**, in every run of any calls. -/
theorem levelBook_of_engine (counter : UInt64) (cs : List Call) :
    observed.outputs (new 101 counter) cs = LevelBook.machine.outputs (.new counter) cs ∧
      (machine.run (new 101 counter) cs).levels = LevelBook.machine.run (.new counter) cs := by
  rw [← levels_new]
  exact levels_run (wellFormed_new counter) cs

/-- **More levels make no difference**: a book with room for more than the 101 levels, and so with more words in its
bitmaps, answers as one with 101 and has the same queues. -/
theorem outputs_size {size : Nat} (hlo : 101 ≤ size) (hhi : size < 2 ^ 31) (counter : UInt64) (cs : List Call) :
    observed.outputs (new size counter) cs = observed.outputs (new 101 counter) cs ∧
      (machine.run (new size counter) cs).levels = (machine.run (new 101 counter) cs).levels := by
  obtain ⟨houtputs, hrun⟩ := levels_run (e := new size counter) (WellFormed.new hlo hhi) cs
  obtain ⟨houtputs', hrun'⟩ := levels_run (wellFormed_new counter) cs
  rw [levels_new] at houtputs hrun houtputs' hrun'
  exact ⟨houtputs.trans houtputs'.symm, hrun.trans hrun'.symm⟩

/-- A book of 200 levels also refuses the price 1051. -/
theorem outputs_size_example :
    let cs : List Call := [.addOrder ⟨.bid, 5, [], 0, ⟨1051⟩⟩, .addOrder ⟨.bid, 5, [], 0, ⟨1050⟩⟩,
      .addOrder ⟨.ask, 3, [], 0, ⟨950⟩⟩, .matchLimitOrders]
    observed.outputs (new 200 0) cs = observed.outputs (new 101 0) cs ∧
      (machine.run (new 200 0) cs).levels = (machine.run (new 101 0) cs).levels :=
  outputs_size (by decide) (by decide) 0 _

end MatchingEngine

end TradingSystem
