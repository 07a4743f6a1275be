import TradingSystem.Lib.Buckets
import TradingSystem.Model.MatchingEngine

/-!
# The moves of the book

What the member functions do to the book, as pure functions: `setOrder` (an order is written through a
pointer), `take` (a slot leaves the free stack), `enqueue` (an order joins a queue), `dequeue` (an order
leaves its queue and its slot is released) and `setLocation`. The views `queue`, `freeStack`, `order`,
`location` and the bits of the bitmaps are read off each of them by simp.
-/

namespace TradingSystem

open Lib

namespace OrderBook

/-! ### Views -/

def queue (b : OrderBook) (s : Side) (l : Nat) : List Nat := Buckets.bucket (b.priceLevel s) l

def setQueue (b : OrderBook) (s : Side) (l : Nat) (q : List Nat) : OrderBook :=
  b.setPriceLevel s (Buckets.setBucket (b.priceLevel s) l q)

def freeStack (b : OrderBook) : List Nat := b.mOrderPool.freeStack

def setFreeStack (b : OrderBook) (free : List Nat) : OrderBook :=
  { b with mOrderPool := { b.mOrderPool with freeStack := free } }

/-- The entry of the location array that an id maps to. -/
def location (b : OrderBook) (orderId : UInt64) : OrderLocation :=
  b.orderIdtoPriceMapping (mapIndex orderId)

/-- The slots of the resting orders. -/
def resting (b : OrderBook) : List Nat :=
  Buckets.contents (b.priceLevel .bid) ++ Buckets.contents (b.priceLevel .ask)

theorem mem_resting {b : OrderBook} {p : Nat} : p ∈ b.resting ↔ ∃ s l, p ∈ b.queue s l := by
  simp only [resting, List.mem_append, Buckets.mem_contents, queue]
  constructor
  · rintro (⟨l, h⟩ | ⟨l, h⟩)
    · exact ⟨.bid, l, h⟩
    · exact ⟨.ask, l, h⟩
  · rintro ⟨s, l, h⟩
    cases s with
    | bid => exact Or.inl ⟨l, h⟩
    | ask => exact Or.inr ⟨l, h⟩

/-- When the queues keep the orders that meet `P`, so does the book. -/
theorem mem_resting_of_queue {b b' : OrderBook} {P : Nat → Prop}
    (h : ∀ s l q, q ∈ b'.queue s l ↔ q ∈ b.queue s l ∧ P q) (q : Nat) :
    q ∈ b'.resting ↔ q ∈ b.resting ∧ P q := by
  simp only [mem_resting, h]
  constructor
  · rintro ⟨s, l, hq, hP⟩
    exact ⟨⟨s, l, hq⟩, hP⟩
  · rintro ⟨⟨s, l, hq⟩, hP⟩
    exact ⟨s, l, hq, hP⟩

/-! ### The moves -/

/-- The top slot leaves the free stack. -/
def take (b : OrderBook) : OrderBook := b.setFreeStack b.freeStack.tail

/-- The order in slot `p` joins the queue of side `s` at level `l`. -/
def enqueue (b : OrderBook) (s : Side) (l p : Nat) : OrderBook :=
  ((b.setQueue s l (b.queue s l ++ [p])).setBitmap s ((b.bitmap s).orBit (l / 64) (l % 64))).setLocation
    (b.order p).mOrderID ⟨(b.order p).mPrice, s, true⟩

/-- The bitmap of side `s` after level `l` lost an order, its queue now being `q`. -/
def bitmapAfter (b : OrderBook) (s : Side) (l : Nat) (q : List Nat) : Bitmap :=
  if q = [] then (b.bitmap s).andNotBit (l / 64) (l % 64) else b.bitmap s

/-- The order in slot `p` leaves the queue of side `s` at level `l`. -/
def dequeue (b : OrderBook) (s : Side) (l p : Nat) : OrderBook :=
  (((b.setFreeStack (p :: b.freeStack)).setQueue s l ((b.queue s l).erase p)).setBitmap s
    (b.bitmapAfter s l ((b.queue s l).erase p))).setLocation (b.order p).mOrderID .empty

/-! ### Reading the views off the setters -/

section Setters

variable (b : OrderBook) (s s' : Side) (l p : Nat) (q free : List Nat) (ws : Bitmap) (o : Order)
  (k : UInt64) (loc : OrderLocation)

@[simp] theorem priceLevel_setOrder : (b.setOrder p o).priceLevel s = b.priceLevel s := by cases s <;> rfl
@[simp] theorem priceLevel_setFreeStack : (b.setFreeStack free).priceLevel s = b.priceLevel s := by
  cases s <;> rfl
@[simp] theorem priceLevel_setLocation : (b.setLocation k loc).priceLevel s = b.priceLevel s := by
  cases s <;> rfl
@[simp] theorem priceLevel_setBitmap : (b.setBitmap s' ws).priceLevel s = b.priceLevel s := by
  cases s <;> cases s' <;> rfl

@[simp] theorem queue_setOrder : (b.setOrder p o).queue s l = b.queue s l := by simp [queue]
@[simp] theorem queue_setFreeStack : (b.setFreeStack free).queue s l = b.queue s l := by simp [queue]
@[simp] theorem queue_setLocation : (b.setLocation k loc).queue s l = b.queue s l := by simp [queue]
@[simp] theorem queue_setBitmap : (b.setBitmap s' ws).queue s l = b.queue s l := by simp [queue]

@[simp] theorem resting_setOrder : (b.setOrder p o).resting = b.resting := rfl
@[simp] theorem resting_setLocation : (b.setLocation k loc).resting = b.resting := rfl
@[simp] theorem resting_setBitmap : (b.setBitmap s ws).resting = b.resting := by simp [resting]

@[simp] theorem bitmap_setOrder : (b.setOrder p o).bitmap s = b.bitmap s := by cases s <;> rfl
@[simp] theorem bitmap_setFreeStack : (b.setFreeStack free).bitmap s = b.bitmap s := by cases s <;> rfl
@[simp] theorem bitmap_setLocation : (b.setLocation k loc).bitmap s = b.bitmap s := by cases s <;> rfl
@[simp] theorem bitmap_setQueue : (b.setQueue s' l q).bitmap s = b.bitmap s := by
  cases s <;> cases s' <;> rfl
theorem bitmap_setBitmap : (b.setBitmap s' ws).bitmap s = if s = s' then ws else b.bitmap s := by
  cases s <;> cases s' <;> rfl

@[simp] theorem freeStack_setOrder : (b.setOrder p o).freeStack = b.freeStack := rfl
@[simp] theorem freeStack_setFreeStack : (b.setFreeStack free).freeStack = free := rfl
@[simp] theorem freeStack_setLocation : (b.setLocation k loc).freeStack = b.freeStack := rfl
@[simp] theorem freeStack_setQueue : (b.setQueue s l q).freeStack = b.freeStack := by cases s <;> rfl
@[simp] theorem freeStack_setBitmap : (b.setBitmap s ws).freeStack = b.freeStack := by cases s <;> rfl

theorem order_setOrder (p' : Nat) : (b.setOrder p o).order p' = if p' = p then o else b.order p' := rfl
@[simp] theorem order_setFreeStack : (b.setFreeStack free).order p = b.order p := rfl
@[simp] theorem order_setLocation : (b.setLocation k loc).order p = b.order p := rfl
@[simp] theorem order_setQueue : (b.setQueue s l q).order p = b.order p := by cases s <;> rfl
@[simp] theorem order_setBitmap : (b.setBitmap s ws).order p = b.order p := by cases s <;> rfl

@[simp] theorem mapping_setFreeStack :
    (b.setFreeStack free).orderIdtoPriceMapping = b.orderIdtoPriceMapping := rfl
@[simp] theorem mapping_setQueue : (b.setQueue s l q).orderIdtoPriceMapping = b.orderIdtoPriceMapping := by
  cases s <;> rfl
@[simp] theorem mapping_setBitmap : (b.setBitmap s ws).orderIdtoPriceMapping = b.orderIdtoPriceMapping := by
  cases s <;> rfl
theorem mapping_setLocation (i : Nat) : (b.setLocation k loc).orderIdtoPriceMapping i =
    if i = mapIndex k then loc else b.orderIdtoPriceMapping i := rfl

theorem priceLevel_setQueue : (b.setQueue s' l q).priceLevel s =
    if s = s' then Buckets.setBucket (b.priceLevel s) l q else b.priceLevel s := by
  cases s <;> cases s' <;> rfl

@[simp] theorem size_priceLevel_setQueue :
    ((b.setQueue s' l q).priceLevel s).size = (b.priceLevel s).size := by
  rw [priceLevel_setQueue]
  split_ifs <;> simp

theorem queue_setQueue {b : OrderBook} {s' : Side} {l : Nat} (hl : l < (b.priceLevel s').size) (l' : Nat) :
    (b.setQueue s' l q).queue s l' = if s = s' ∧ l' = l then q else b.queue s l' := by
  unfold queue
  rw [priceLevel_setQueue]
  by_cases hs : s = s'
  · subst hs
    simp [Buckets.bucket_setBucket _ hl]
  · simp [hs]

end Setters

/-- The contents of the book outside one queue. -/
def others (b : OrderBook) (s : Side) (l : Nat) : List Nat :=
  match s with
  | .bid => Buckets.others (b.priceLevel .bid) l ++ Buckets.contents (b.priceLevel .ask)
  | .ask => Buckets.contents (b.priceLevel .bid) ++ Buckets.others (b.priceLevel .ask) l

theorem resting_perm {b : OrderBook} {s : Side} {l : Nat} (hl : l < (b.priceLevel s).size) :
    b.resting.Perm (b.queue s l ++ b.others s l) := by
  cases s with
  | bid =>
    have h := (Buckets.contents_perm _ hl).append_right (Buckets.contents (b.priceLevel .ask))
    rwa [List.append_assoc] at h
  | ask =>
    have h := (Buckets.contents_perm _ hl).append_left (Buckets.contents (b.priceLevel .bid))
    refine h.trans ?_
    rw [← List.append_assoc, queue, others, ← List.append_assoc]
    exact List.perm_append_comm.append_right _

theorem resting_setQueue_perm {b : OrderBook} {s : Side} {l : Nat} (hl : l < (b.priceLevel s).size)
    (q : List Nat) : (b.setQueue s l q).resting.Perm (q ++ b.others s l) := by
  have h := resting_perm (b := b.setQueue s l q) (s := s) (l := l) (by simpa using hl)
  have hq : (b.setQueue s l q).queue s l = q := by simp [queue_setQueue _ _ hl]
  have ho : (b.setQueue s l q).others s l = b.others s l := by
    cases s <;> simp [others, priceLevel_setQueue]
  rwa [hq, ho] at h

/-! ### Reading the views off `enqueue` and `dequeue` -/

section Moves

variable {b : OrderBook} {s : Side} {l p : Nat}

@[simp] theorem order_take (q : Nat) : b.take.order q = b.order q := rfl
@[simp] theorem freeStack_take : b.take.freeStack = b.freeStack.tail := rfl
@[simp] theorem resting_take : b.take.resting = b.resting := rfl

@[simp] theorem order_enqueue (q : Nat) : (b.enqueue s l p).order q = b.order q := by simp [enqueue]
@[simp] theorem freeStack_enqueue : (b.enqueue s l p).freeStack = b.freeStack := by simp [enqueue]

theorem queue_enqueue (hl : l < (b.priceLevel s).size) (s' : Side) (l' : Nat) :
    (b.enqueue s l p).queue s' l' =
      if s' = s ∧ l' = l then b.queue s l ++ [p] else b.queue s' l' := by
  simp [enqueue, queue_setQueue _ _ hl]

theorem mapping_enqueue (i : Nat) : (b.enqueue s l p).orderIdtoPriceMapping i =
    if i = mapIndex (b.order p).mOrderID then ⟨(b.order p).mPrice, s, true⟩
    else b.orderIdtoPriceMapping i := by
  simp [enqueue, mapping_setLocation]

theorem bitmap_enqueue (s' : Side) : (b.enqueue s l p).bitmap s' =
    if s' = s then (b.bitmap s).orBit (l / 64) (l % 64) else b.bitmap s' := by
  simp [enqueue, bitmap_setBitmap]

theorem resting_enqueue_perm (hl : l < (b.priceLevel s).size) :
    (b.enqueue s l p).resting.Perm (p :: b.resting) := by
  have hnew : (b.enqueue s l p).resting.Perm (b.queue s l ++ [p] ++ b.others s l) := by
    simpa [enqueue] using resting_setQueue_perm hl (b.queue s l ++ [p])
  have hold := (resting_perm hl).cons p
  refine hnew.trans (List.Perm.trans ?_ hold.symm)
  rw [List.append_assoc, List.singleton_append]
  exact List.perm_middle

@[simp] theorem order_dequeue (q : Nat) : (b.dequeue s l p).order q = b.order q := by simp [dequeue]
@[simp] theorem freeStack_dequeue : (b.dequeue s l p).freeStack = p :: b.freeStack := by simp [dequeue]

theorem queue_dequeue (hl : l < (b.priceLevel s).size) (s' : Side) (l' : Nat) :
    (b.dequeue s l p).queue s' l' =
      if s' = s ∧ l' = l then (b.queue s l).erase p else b.queue s' l' := by
  have hl' : l < ((b.setFreeStack (p :: b.freeStack)).priceLevel s).size := by simpa using hl
  simp [dequeue, queue_setQueue _ _ hl']

theorem mapping_dequeue (i : Nat) : (b.dequeue s l p).orderIdtoPriceMapping i =
    if i = mapIndex (b.order p).mOrderID then .empty else b.orderIdtoPriceMapping i := by
  simp [dequeue, mapping_setLocation]

theorem bitmap_dequeue (s' : Side) : (b.dequeue s l p).bitmap s' =
    if s' = s then b.bitmapAfter s l ((b.queue s l).erase p) else b.bitmap s' := by
  simp [dequeue, bitmap_setBitmap]

theorem resting_dequeue_perm (hl : l < (b.priceLevel s).size) (hp : p ∈ b.queue s l) :
    b.resting.Perm (p :: (b.dequeue s l p).resting) := by
  have hl' : l < ((b.setFreeStack (p :: b.freeStack)).priceLevel s).size := by simpa using hl
  have ho : (b.setFreeStack (p :: b.freeStack)).others s l = b.others s l := by cases s <;> simp [others]
  have hnew : (b.dequeue s l p).resting.Perm ((b.queue s l).erase p ++ b.others s l) := by
    simpa [dequeue, ho] using resting_setQueue_perm hl' ((b.queue s l).erase p)
  have hsplit := (List.perm_cons_erase hp).append_right (b.others s l)
  exact (resting_perm hl).trans (hsplit.trans (hnew.symm.cons p))

@[simp] theorem size_priceLevel_enqueue (s' : Side) :
    ((b.enqueue s l p).priceLevel s').size = (b.priceLevel s').size := by simp [enqueue]

@[simp] theorem size_priceLevel_dequeue (s' : Side) :
    ((b.dequeue s l p).priceLevel s').size = (b.priceLevel s').size := by simp [dequeue]

end Moves

end OrderBook

end TradingSystem
