import TradingSystem.Book.WellFormed

/-!
# The member functions on a well-formed book

Each member function of the book is computed in closed form: which exception it throws, or which moves
it makes. Callers use these lemmas and never unfold the function.
-/

namespace TradingSystem

open Lib Lib.Effects

namespace OrderBook

/-! ### Prices, levels and bits -/

theorem priceToIndex_run (b : OrderBook) (price : Price) :
    priceToIndex price b = match levelOf price with
      | some l => .ok (l : Int) b
      | none => .error (.invalidArgument "Invalid price to bid/ask") b := by
  unfold priceToIndex levelOf
  by_cases h : narrow (price.mPriceValueInCent - widen startOfPrice) < 0 ∨
      narrow (price.mPriceValueInCent - widen startOfPrice) ≥ numOfLevels
  · simp [h]
  · have hnonneg : 0 ≤ narrow (price.mPriceValueInCent - widen startOfPrice) := by omega
    simp [h, Int.toNat_of_nonneg hnonneg]

theorem priceToIndex_ok {b : OrderBook} {price : Price} {l : Nat} (h : levelOf price = some l) :
    priceToIndex price b = .ok (l : Int) b := by
  rw [priceToIndex_run, h]

theorem toNat_widen_level {l : Nat} (hl : l < 101) : (widen (l : Int)).toNat = l :=
  toNat_widen_natCast (by omega)

/-- The size is small enough that its narrowing does nothing. -/
theorem indexToPrice_eq {b : OrderBook} (hhi : (b.priceLevel .bid).size < 2 ^ 31) (i : Int) :
    indexToPrice i b = if i < 0 ∨ i ≥ ((b.priceLevel .bid).size : Int) then
      .error (.invalidArgument ("Invalid level index: " ++ toString i)) b
    else .ok (Price.ofInt (startOfPrice + i)) b := by
  have hsize : narrow (UInt64.ofNat b.mBidpriceLevel.size) = (b.priceLevel .bid).size := by
    have hnat : (UInt64.ofNat b.mBidpriceLevel.size).toNat = (b.priceLevel .bid).size :=
      UInt64.toNat_ofNat_of_lt' (lt_of_lt_of_le hhi (by decide))
    rw [narrow_of_lt (by rw [hnat]; exact hhi), hnat]
  simp only [indexToPrice, get_bind, hsize]
  split_ifs <;> rfl

theorem indexToPrice_run {b : OrderBook} {l : Nat} (hl : l < (b.priceLevel .bid).size)
    (hhi : (b.priceLevel .bid).size < 2 ^ 31) :
    indexToPrice l b = .ok (Price.ofInt (startOfPrice + l)) b := by
  rw [indexToPrice_eq hhi, if_neg (by omega)]

theorem indexToBitmapIndex_level {l : Nat} (hl : l < 101) : indexToBitmapIndex l = (l / 64, l % 64) := by
  have hdiv : (l : Int).tdiv chunk = (l / 64 : Nat) := rfl
  have hmod : (l : Int).tmod chunk = (l % 64 : Nat) := rfl
  rw [indexToBitmapIndex, hdiv, hmod, toNat_widen_natCast (by omega), toNat_widen_natCast (by omega)]

theorem updateBit_run {b : OrderBook} (update : Bitmap → Nat → Nat → Bitmap) {s : Side} {price : Price}
    {l : Nat} (h : levelOf price = some l) (hw : l / 64 < (b.bitmap s).size) :
    updateBit update s price b = .ok () (b.setBitmap s (update (b.bitmap s) (l / 64) (l % 64))) := by
  have hl := (levelOf_eq_some.mp h).1
  have hindex : priceToBitmapIndex price b = .ok (l / 64, l % 64) b := by
    rw [priceToBitmapIndex, bind_ok (priceToIndex_ok h), indexToBitmapIndex_level hl]
    rfl
  rw [updateBit, bind_ok hindex]
  simp only [get_bind, if_pos hw]
  rfl

/-! ### Queues -/

theorem levelAt_run {b : OrderBook} (hb : WellFormed b) (s : Side) {l : Nat} (hl : l < 101) :
    levelAt s l b = .ok (b.queue s l) b := by
  have hget := Buckets.getElem?_eq_bucket _ (hb.level_lt_size hl s)
  simp only [levelAt, get_bind, toNat_widen_level hl, hget]
  rfl

theorem setLevelAt_run {b : OrderBook} {s : Side} {l : Nat} (hl : l < 101) (hsize : l < (b.priceLevel s).size)
    (q : List Nat) : setLevelAt s l q b = .ok () (b.setQueue s l q) := by
  simp only [setLevelAt, get_bind, toNat_widen_level hl, if_pos hsize]
  rfl

@[simp] theorem deref_run (b : OrderBook) (p : Nat) : deref p b = .ok (b.order p) b := rfl

@[simp] theorem deref_bind {β : Type} (b : OrderBook) (p : Nat) (f : Order → BookM β) :
    (deref p >>= f) b = f (b.order p) b := rfl

theorem release_run (b : OrderBook) {p : Nat} (hp : p < poolSize) :
    release p b = .ok () (b.setFreeStack (p :: b.freeStack)) := by
  have hin : ¬ p ≥ 10000 := Nat.not_le.mpr hp
  apply zoom_ok
  simp only [ObjectPool.release, if_neg hin]
  rfl

theorem acquire_run (b : OrderBook) :
    acquire b = match b.freeStack with
      | [] => .error (.runtimeError "freeStack is full: there are no objects to acquire") b
      | slot :: _ => .ok slot b.take := by
  simp only [acquire, zoom, ObjectPool.acquire, take, freeStack]
  cases h : b.mOrderPool.freeStack with
  | nil => rfl
  | cons slot rest => rfl

/-! ### Best levels -/

/-- `l` is at least as good a level as `l'` for side `s`. -/
def ahead (s : Side) (l l' : Nat) : Prop :=
  match s with
  | .bid => l' ≤ l
  | .ask => l ≤ l'

/-- Level `l` is the best level of side `s` with an order. -/
def IsBest (b : OrderBook) (s : Side) (l : Nat) : Prop :=
  b.queue s l ≠ [] ∧ ∀ l', b.queue s l' ≠ [] → ahead s l l'

theorem IsBest.congr {b b' : OrderBook} {s : Side} {l : Nat} (h : IsBest b s l)
    (hq : ∀ l', b'.queue s l' = b.queue s l') : IsBest b' s l := by
  refine ⟨by rw [hq]; exact h.1, fun l' hl' => h.2 l' ?_⟩
  rwa [hq] at hl'

theorem findBestLevel_spec {b : OrderBook} (hb : WellFormed b) (s : Side) :
    (b.findBestLevel s = -1 ∧ ∀ l, b.queue s l = []) ∨
      ∃ l : Nat, b.findBestLevel s = l ∧ IsBest b s l := by
  have hclear : (∀ i, (b.bitmap s).testBit i = false) → ∀ l, b.queue s l = [] := by
    intro h l
    by_contra hq
    exact absurd ((hb.bits s l).mpr hq) (by simp [h l])
  cases s with
  | bid =>
    rcases Bitmap.highest_spec (b.bitmap .bid) with ⟨hnone, h⟩ | ⟨l, hl, hset, hmax⟩
    · exact Or.inl ⟨hnone, hclear h⟩
    · exact Or.inr ⟨l, hl, (hb.bits .bid l).mp hset, fun l' hq => hmax l' ((hb.bits .bid l').mpr hq)⟩
  | ask =>
    rcases Bitmap.lowest_spec (b.bitmap .ask) with ⟨hnone, h⟩ | ⟨l, hl, hset, hmin⟩
    · exact Or.inl ⟨hnone, hclear h⟩
    · exact Or.inr ⟨l, hl, (hb.bits .ask l).mp hset, fun l' hq => hmin l' ((hb.bits .ask l').mpr hq)⟩

theorem ahead_antisymm {s : Side} {l l' : Nat} (h : ahead s l l') (h' : ahead s l' l) : l = l' := by
  cases s with
  | bid => exact Nat.le_antisymm h' h
  | ask => exact Nat.le_antisymm h h'

theorem IsBest.unique {b : OrderBook} {s : Side} {l l' : Nat} (h : IsBest b s l) (h' : IsBest b s l') :
    l = l' :=
  ahead_antisymm (h.2 l' h'.1) (h'.2 l h.1)

theorem IsBest.findBestLevel {b : OrderBook} (hb : WellFormed b) {s : Side} {l : Nat} (h : IsBest b s l) :
    b.findBestLevel s = l := by
  rcases findBestLevel_spec hb s with ⟨-, hempty⟩ | ⟨l', hl', hbest⟩
  · exact absurd (hempty l) h.1
  · rw [hl', hbest.unique h]

theorem isBest_of_findBestLevel {b : OrderBook} (hb : WellFormed b) {s : Side} {l : Nat}
    (h : b.findBestLevel s = l) : IsBest b s l := by
  rcases findBestLevel_spec hb s with ⟨hnone, -⟩ | ⟨l', hl', hbest⟩
  · rw [hnone] at h
    omega
  · obtain rfl : l' = l := by omega
    exact hbest

theorem IsBest.lt {b : OrderBook} (hb : WellFormed b) {s : Side} {l : Nat} (h : IsBest b s l) : l < 101 := by
  obtain ⟨p, hp⟩ := List.exists_mem_of_ne_nil _ h.1
  exact hb.level_lt hp

theorem getBest_front {b : OrderBook} (hb : WellFormed b) {s : Side} {l p : Nat} {rest : List Nat}
    (h : IsBest b s l) (hq : b.queue s l = p :: rest) (noOrders : String) :
    getBest s noOrders b = .ok p b := by
  have hlevel : levelAt s l b = .ok (p :: rest) b := by rw [levelAt_run hb s (h.lt hb), hq]
  have hne : ¬ ((l : Int) = -1) := by omega
  simp only [getBest, get_bind, h.findBestLevel hb, if_neg hne]
  rw [bind_ok hlevel]
  rfl

theorem getBest_empty {b : OrderBook} (hb : WellFormed b) {s : Side} (h : ∀ l, b.queue s l = [])
    (noOrders : String) : getBest s noOrders b = .error (.runtimeError noOrders) b := by
  rcases findBestLevel_spec hb s with ⟨hnone, -⟩ | ⟨l, -, hbest⟩
  · simp [getBest, hnone]
  · exact absurd (h l) hbest.1

/-! ### Adding and removing -/

theorem add_run {b : OrderBook} (hb : WellFormed b) (s : Side) {p l : Nat}
    (h : levelOf (b.order p).mPrice = some l) : add s p b = .ok () (b.enqueue s l p) := by
  have hl := (levelOf_eq_some.mp h).1
  have hbit : setBitTo1 s (b.order p).mPrice (b.setQueue s l (b.queue s l ++ [p])) =
      .ok () ((b.setQueue s l (b.queue s l ++ [p])).setBitmap s ((b.bitmap s).orBit (l / 64) (l % 64))) := by
    have hw : l / 64 < ((b.setQueue s l (b.queue s l ++ [p])).bitmap s).size := by
      simpa using hb.word_lt hl s
    rw [setBitTo1, updateBit_run _ h hw, bitmap_setQueue]
  rw [add, deref_bind, bind_ok (priceToIndex_ok h), bind_ok (levelAt_run hb s hl),
    bind_ok (setLevelAt_run hl (hb.level_lt_size hl s) _), deref_bind, order_setQueue, Order.getPrice,
    bind_ok hbit, deref_bind, order_setBitmap, order_setQueue]
  rfl

theorem add_refused {b : OrderBook} (s : Side) {p : Nat} (h : levelOf (b.order p).mPrice = none) :
    add s p b = .error (.invalidArgument "Invalid price to bid/ask") b := by
  rw [add, deref_bind]
  apply bind_error
  rw [priceToIndex_run, h]

theorem setBitmap_self (b : OrderBook) (s : Side) : b.setBitmap s (b.bitmap s) = b := by cases s <;> rfl

/-- The last statement of a removal, which clears the bit of an emptied level. -/
theorem clearBit_run {b : OrderBook} {s : Side} {l : Nat} {price : Price} (h : levelOf price = some l)
    (hw : l / 64 < (b.bitmap s).size) {clear : BookM Unit} (hclear : clear b = setBitTo0 s price b)
    (q : List Nat) :
    (if q = [] then clear else pure ()) b = .ok () (b.setBitmap s (b.bitmapAfter s l q)) := by
  by_cases hq : q = []
  · rw [if_pos hq, hclear, setBitTo0, updateBit_run _ h hw, bitmapAfter, if_pos hq]
  · rw [if_neg hq, bitmapAfter, if_neg hq, setBitmap_self]
    rfl

/-- Setting a bitmap and an entry of the location array commute. -/
theorem setLocation_setBitmap (b : OrderBook) (s : Side) (ws : Bitmap) (k : UInt64) (loc : OrderLocation) :
    (b.setLocation k loc).setBitmap s ws = (b.setBitmap s ws).setLocation k loc := by cases s <;> rfl

theorem remove_run {b : OrderBook} (hb : WellFormed b) {s : Side} {l p : Nat} {rest : List Nat}
    (h : IsBest b s l) (hq : b.queue s l = p :: rest) (mismatch : String) :
    remove s mismatch (b.order p).mOrderID b = .ok () (b.dequeue s l p) := by
  have hl := h.lt hb
  have hp : p ∈ b.queue s l := by rw [hq]; exact List.mem_cons_self
  have hpool : p < poolSize := hb.bounded p (List.mem_append_left _ (mem_resting.mpr ⟨s, l, hp⟩))
  have hlevel : levelAt s l b = .ok (p :: rest) b := by rw [levelAt_run hb s hl, hq]
  have hsize : l < ((b.setFreeStack (p :: b.freeStack)).priceLevel s).size := by
    simpa using hb.level_lt_size hl s
  have herase : (b.queue s l).erase p = rest := by rw [hq, List.erase_cons_head]
  have hne : ¬ ((l : Int) = -1) := by omega
  simp only [remove, get_bind, h.findBestLevel hb, if_neg hne]
  rw [bind_ok hlevel]
  simp only []
  rw [deref_bind, if_neg (fun hid => hid rfl), bind_ok (release_run b hpool),
    bind_ok (setLevelAt_run hl hsize rest), modify_bind]
  -- the bit is cleared after the entry is reset
  have hw : l / 64 < ((((b.setFreeStack (p :: b.freeStack)).setQueue s l rest).setLocation
      (b.order p).mOrderID .empty).bitmap s).size := by simpa using hb.word_lt hl s
  rw [clearBit_run (levelOf_ofInt hl) hw ?_ rest, setLocation_setBitmap, dequeue, herase]
  · simp [bitmapAfter]
  · refine bind_ok (indexToPrice_run ?_ ?_) _
    · simpa using hb.level_lt_size hl .bid
    · simpa using hb.levels_hi .bid

theorem getVolumeAtLevelFromPrice_run {b : OrderBook} (hb : WellFormed b) {price : Price} {l : Nat}
    (h : levelOf price = some l) : getVolumeAtLevelFromPrice price b =
      .ok (b.volumeOf (b.queue .bid l), b.volumeOf (b.queue .ask l)) b := by
  have hl := (levelOf_eq_some.mp h).1
  rw [getVolumeAtLevelFromPrice, bind_ok (priceToIndex_ok h), get_bind, bind_ok (levelAt_run hb .bid hl),
    get_bind, bind_ok (levelAt_run hb .ask hl)]
  rfl

theorem getVolumeAtLevelFromPrice_refused {b : OrderBook} {price : Price} (h : levelOf price = none) :
    getVolumeAtLevelFromPrice price b = .error (.invalidArgument "Invalid price to bid/ask") b := by
  apply bind_error
  rw [priceToIndex_run, h]

/-! ### Cancelling -/

/-- The loop erases the first order with the id, and leaves the book alone when there is none. -/
theorem eraseOrder_none {b : OrderBook} (s : Side) (price : Price) (orderIndex : Int) {orderId : UInt64}
    (seen : List Nat) {deque : List Nat} (h : ∀ p ∈ deque, (b.order p).mOrderID ≠ orderId) :
    eraseOrder s price orderIndex orderId seen deque b = .ok () b := by
  induction deque generalizing seen with
  | nil => rfl
  | cons it rest ih =>
    rw [eraseOrder, deref_bind, if_neg (h it List.mem_cons_self)]
    exact ih _ fun p hp => h p (List.mem_cons_of_mem it hp)

theorem eraseOrder_some {b : OrderBook} (hb : WellFormed b) {s : Side} {price : Price} {l p : Nat}
    (hlevel : levelOf price = some l) (hp : p ∈ b.queue s l) (post : List Nat) {pre : List Nat}
    (hpre : ∀ q ∈ pre, (b.order q).mOrderID ≠ (b.order p).mOrderID) (seen : List Nat) :
    eraseOrder s price l (b.order p).mOrderID seen (pre ++ p :: post) b =
      .ok () (((b.setFreeStack (p :: b.freeStack)).setQueue s l (seen ++ pre ++ post)).setBitmap s
        (b.bitmapAfter s l (seen ++ pre ++ post))) := by
  have hl := (levelOf_eq_some.mp hlevel).1
  induction pre generalizing seen with
  | nil =>
    have hpool : p < poolSize := hb.bounded p (List.mem_append_left _ (mem_resting.mpr ⟨s, l, hp⟩))
    have hsize : l < ((b.setFreeStack (p :: b.freeStack)).priceLevel s).size := by
      simpa using hb.level_lt_size hl s
    have hw : l / 64 < (((b.setFreeStack (p :: b.freeStack)).setQueue s l (seen ++ post)).bitmap s).size := by
      simpa using hb.word_lt hl s
    rw [List.nil_append, eraseOrder, deref_bind, if_pos rfl, bind_ok (release_run b hpool),
      bind_ok (setLevelAt_run hl hsize _), clearBit_run hlevel hw rfl]
    simp [bitmapAfter]
  | cons it pre ih =>
    rw [List.cons_append, eraseOrder, deref_bind, if_neg (hpre it List.mem_cons_self),
      ih (fun q hq => hpre q (List.mem_cons_of_mem it hq))]
    simp

/-- The first order in a queue with a given id. -/
def findOrder (b : OrderBook) (s : Side) (l : Nat) (orderId : UInt64) : Option Nat :=
  (b.queue s l).find? fun p => (b.order p).mOrderID = orderId

theorem findOrder_eq_some {b : OrderBook} {s : Side} {l p : Nat} {orderId : UInt64} :
    b.findOrder s l orderId = some p ↔ (b.order p).mOrderID = orderId ∧
      ∃ pre post, b.queue s l = pre ++ p :: post ∧ ∀ q ∈ pre, (b.order q).mOrderID ≠ orderId := by
  simp [findOrder, List.find?_eq_some_iff_append]

theorem findOrder_eq_none {b : OrderBook} {s : Side} {l : Nat} {orderId : UInt64} :
    b.findOrder s l orderId = none ↔ ∀ p ∈ b.queue s l, (b.order p).mOrderID ≠ orderId := by
  simp [findOrder]

theorem findOrder_mem {b : OrderBook} {s : Side} {l p : Nat} {orderId : UInt64}
    (h : b.findOrder s l orderId = some p) : p ∈ b.queue s l ∧ (b.order p).mOrderID = orderId := by
  obtain ⟨hid, pre, post, hq, -⟩ := findOrder_eq_some.mp h
  exact ⟨by rw [hq]; simp, hid⟩

/-- The book after a cancel. -/
def cancelled (b : OrderBook) (orderId : UInt64) : OrderBook :=
  if (b.location orderId).isValid then
    match levelOf (b.location orderId).price with
    | some l =>
      match b.findOrder (b.location orderId).side l orderId with
      | some p => b.dequeue (b.location orderId).side l p
      | none => b.setLocation orderId .empty
    | none => b
  else b

/-- The entry of an id leads to a level: the error path of `priceToIndex` is not taken. -/
theorem location_level {b : OrderBook} (hb : WellFormed b) {orderId : UInt64}
    (h : (b.location orderId).isValid = true) : ∃ l, levelOf (b.location orderId).price = some l := by
  obtain ⟨s, l, p, hp, -, hloc⟩ := hb.located _ h
  refine ⟨l, ?_⟩
  rw [location, hloc]
  exact (hb.filed s l p hp).2

theorem removeOrderFromOrderId_run {b : OrderBook} (hb : WellFormed b) (orderId : UInt64) :
    removeOrderFromOrderId orderId b = .ok () (b.cancelled orderId) := by
  unfold removeOrderFromOrderId cancelled
  by_cases hvalid : (b.location orderId).isValid = true
  · obtain ⟨l, hlevel⟩ := location_level hb hvalid
    have hl := (levelOf_eq_some.mp hlevel).1
    have hentry : orderIdToPrice orderId b =
        .ok ((b.location orderId).price, (b.location orderId).side) b := by
      change (b.orderIdtoPriceMapping (mapIndex orderId)).isValid = true at hvalid
      simp only [orderIdToPrice, get_bind, hvalid]
      rfl
    apply tryCatch_ok
    rw [bind_ok hentry]
    simp only [if_pos hvalid, hlevel]
    rw [bind_ok (priceToIndex_ok hlevel), bind_ok (levelAt_run hb _ hl)]
    cases hfind : b.findOrder (b.location orderId).side l orderId with
    | none =>
      rw [bind_ok (eraseOrder_none _ _ _ [] (findOrder_eq_none.mp hfind))]
      rfl
    | some p =>
      obtain ⟨hp, hid⟩ := findOrder_mem hfind
      obtain ⟨-, pre, post, hq, hpre⟩ := findOrder_eq_some.mp hfind
      have herase : (b.queue (b.location orderId).side l).erase p = pre ++ post := by
        have hnot : p ∉ pre := fun h => hpre p h hid
        rw [hq, List.erase_append_right _ hnot, List.erase_cons_head]
      subst hid
      have hloop := eraseOrder_some hb hlevel hp post hpre []
      rw [← hq, List.nil_append] at hloop
      rw [bind_ok hloop]
      simp only [dequeue, herase]
      rfl
  · have hvalid' : (b.orderIdtoPriceMapping (mapIndex orderId)).isValid = false := by
      rw [← Bool.not_eq_true]
      exact hvalid
    have hthrow : orderIdToPrice orderId b =
        .error (.runtimeError ("there was no orderID with this number:" ++ toString orderId)) b := by
      simp only [orderIdToPrice, get_bind, hvalid']
      rfl
    rw [if_neg hvalid, tryCatch_error (bind_error hthrow _)]
    rfl

end OrderBook

end TradingSystem
