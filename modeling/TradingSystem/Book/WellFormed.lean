import TradingSystem.Book.Moves
import Mathlib.Data.List.Perm.Basic

/-!
# Well-formed books

`WellFormed` is what the member functions rely on: the bitmaps agree with the queues, every order is
filed under its side and level, the resting slots and the free slots are all different, and every valid
entry of the location array is that of a resting order. The last clause is what keeps a cancel from
clearing a bit at a level it did not search, and it survives colliding ids because an entry is reset
whenever its last writer leaves. Every move keeps the invariant.
-/

namespace TradingSystem

open Lib

/-- The level of a price, as `priceToIndex` computes it. -/
def levelOf (price : Price) : Option Nat :=
  let index := narrow (price.mPriceValueInCent - widen startOfPrice)
  if index < 0 ∨ index ≥ numOfLevels then none else some index.toNat

/-- Only the low 32 bits of a price decide its level. -/
theorem levelOf_eq_some {price : Price} {l : Nat} :
    levelOf price = some l ↔ l < 101 ∧ price.mPriceValueInCent.toNat % 2 ^ 32 = 950 + l := by
  have hlt := price.mPriceValueInCent.toNat_lt
  have hstart : (widen startOfPrice).toNat = 950 := rfl
  have hsub : (price.mPriceValueInCent - widen startOfPrice).toNat % 2 ^ 32 =
      (price.mPriceValueInCent.toNat % 2 ^ 32 + 2 ^ 32 - 950) % 2 ^ 32 := by
    rw [UInt64.toNat_sub, hstart]
    omega
  simp only [levelOf, narrow_eq, hsub, numOfLevels]
  split_ifs <;> simp only [Option.some.injEq, false_iff] <;> omega

theorem levelOf_eq_none {price : Price} :
    levelOf price = none ↔
      price.mPriceValueInCent.toNat % 2 ^ 32 < 950 ∨ 1050 < price.mPriceValueInCent.toNat % 2 ^ 32 := by
  rw [Option.eq_none_iff_forall_ne_some]
  constructor
  · intro h
    by_contra hin
    exact h (price.mPriceValueInCent.toNat % 2 ^ 32 - 950) (levelOf_eq_some.mpr (by omega))
  · intro h l hl
    have := levelOf_eq_some.mp hl
    omega

theorem levelOf_ofInt {l : Nat} (hl : l < 101) : levelOf (Price.ofInt (startOfPrice + l)) = some l := by
  rw [levelOf_eq_some, Price.ofInt, toNat_widen, startOfPrice]
  omega

theorem getPriceInTicks_of_levelOf {price : Price} {l : Nat} (h : levelOf price = some l) :
    price.getPriceInTicks = 950 + l := by
  obtain ⟨hl, hmod⟩ := levelOf_eq_some.mp h
  rw [Price.getPriceInTicks, narrow_eq, hmod]
  split_ifs <;> omega

structure WellFormed (b : OrderBook) : Prop where
  levels_lo : ∀ s, 101 ≤ (b.priceLevel s).size
  levels_hi : ∀ s, (b.priceLevel s).size < 2 ^ 31
  words : ∀ s, (b.bitmap s).size = ((b.priceLevel s).size + 63) / 64
  bits : ∀ s l, (b.bitmap s).testBit l = true ↔ b.queue s l ≠ []
  filed : ∀ s l, ∀ p ∈ b.queue s l, (b.order p).bidOrAsk = s ∧ levelOf (b.order p).mPrice = some l
  nodup : (b.resting ++ b.freeStack).Nodup
  bounded : ∀ p ∈ b.resting ++ b.freeStack, p < poolSize
  located : ∀ i, (b.orderIdtoPriceMapping i).isValid = true → ∃ s l, ∃ p ∈ b.queue s l,
    OrderBook.mapIndex (b.order p).mOrderID = i ∧ b.orderIdtoPriceMapping i = ⟨(b.order p).mPrice, s, true⟩

namespace WellFormed

open OrderBook

variable {b : OrderBook} {s s' : Side} {l l' p : Nat}

/-! ### What the clauses give at once -/

theorem level_lt (hb : WellFormed b) (hp : p ∈ b.queue s l) : l < 101 :=
  (levelOf_eq_some.mp (hb.filed s l p hp).2).1

theorem level_lt_size (hb : WellFormed b) (hl : l < 101) (s : Side) : l < (b.priceLevel s).size :=
  Nat.lt_of_lt_of_le hl (hb.levels_lo s)

theorem word_lt (hb : WellFormed b) (hl : l < 101) (s : Side) : l / 64 < (b.bitmap s).size := by
  have := hb.level_lt_size hl s
  rw [hb.words s]
  omega

theorem queue_unique (hb : WellFormed b) (hp : p ∈ b.queue s l) (hp' : p ∈ b.queue s' l') :
    s' = s ∧ l' = l := by
  obtain ⟨hside, hlevel⟩ := hb.filed s l p hp
  obtain ⟨hside', hlevel'⟩ := hb.filed s' l' p hp'
  exact ⟨hside' ▸ hside, Option.some.inj (hlevel'.symm.trans hlevel)⟩

theorem queue_nodup (hb : WellFormed b) (s : Side) (l : Nat) : (b.queue s l).Nodup := by
  by_cases hq : b.queue s l = []
  · rw [hq]
    exact List.nodup_nil
  · obtain ⟨p, hp⟩ := List.exists_mem_of_ne_nil _ hq
    have hrest := (List.nodup_append.mp hb.nodup).1
    have hperm := resting_perm (hb.level_lt_size (hb.level_lt hp) s)
    exact (List.nodup_append.mp (hperm.nodup_iff.mp hrest)).1

theorem resting_not_free (hb : WellFormed b) (hp : p ∈ b.resting) : p ∉ b.freeStack := fun hfree =>
  (List.nodup_append.mp hb.nodup).2.2 p hp p hfree rfl

/-- The slot that the pool gives out next holds no resting order. -/
theorem ne_of_free (hb : WellFormed b) {slot : Nat} {rest : List Nat} (hfree : b.freeStack = slot :: rest)
    (hp : p ∈ b.resting) : p ≠ slot := by
  rintro rfl
  apply hb.resting_not_free hp
  rw [hfree]
  exact List.mem_cons_self

theorem ne_of_free_of_mem_queue (hb : WellFormed b) {slot : Nat} {rest : List Nat}
    (hfree : b.freeStack = slot :: rest) (hp : p ∈ b.queue s l) : p ≠ slot :=
  hb.ne_of_free hfree (mem_resting.mpr ⟨s, l, hp⟩)

/-- Which queues are empty decides the bitmap. -/
theorem bitmap_congr {b' : OrderBook} (hb : WellFormed b) (hb' : WellFormed b')
    (hsize : (b'.priceLevel s).size = (b.priceLevel s).size)
    (h : ∀ l, b'.queue s l = [] ↔ b.queue s l = []) : b'.bitmap s = b.bitmap s := by
  apply Bitmap.ext_of_testBit
  · rw [hb.words, hb'.words, hsize]
  · intro l
    apply Bool.eq_iff_iff.mpr
    rw [hb.bits, hb'.bits, ne_eq, ne_eq, h]

/-- The order in slot `p` leaves every queue, that is the only one it is in. -/
theorem queue_dequeue (hb : WellFormed b) (hp : p ∈ b.queue s l) (s' : Side) (l' : Nat) :
    (b.dequeue s l p).queue s' l' = (b.queue s' l').erase p := by
  rw [OrderBook.queue_dequeue (hb.level_lt_size (hb.level_lt hp) s)]
  split_ifs with h
  · rw [h.1, h.2]
  · rw [List.erase_of_not_mem]
    exact fun hp' => h (hb.queue_unique hp hp')

theorem mem_resting_dequeue (hb : WellFormed b) (hp : p ∈ b.queue s l) (q : Nat) :
    q ∈ (b.dequeue s l p).resting ↔ q ∈ b.resting ∧ q ≠ p := by
  apply mem_resting_of_queue
  intro s' l' q
  rw [hb.queue_dequeue hp, (hb.queue_nodup s' l').mem_erase_iff, and_comm]

/-! ### The moves keep the invariant -/

theorem take (hb : WellFormed b) : WellFormed b.take := by
  have hsub : (b.take.resting ++ b.take.freeStack).Sublist (b.resting ++ b.freeStack) :=
    (List.tail_sublist b.freeStack).append_left b.resting
  exact ⟨hb.levels_lo, hb.levels_hi, hb.words, hb.bits, hb.filed, hb.nodup.sublist hsub,
    fun p hp => hb.bounded p (hsub.subset hp), hb.located⟩

/-- A write through a pointer that keeps side, id and price, if the order rests. -/
theorem setOrder (hb : WellFormed b) {o : Order} (h : p ∈ b.resting → o.bidOrAsk = (b.order p).bidOrAsk ∧
    o.mOrderID = (b.order p).mOrderID ∧ o.mPrice = (b.order p).mPrice) : WellFormed (b.setOrder p o) := by
  have hkeep : ∀ s l, ∀ q ∈ b.queue s l, ((b.setOrder p o).order q).bidOrAsk = (b.order q).bidOrAsk ∧
      ((b.setOrder p o).order q).mOrderID = (b.order q).mOrderID ∧
      ((b.setOrder p o).order q).mPrice = (b.order q).mPrice := by
    intro s l q hq
    rw [order_setOrder]
    split_ifs with hqp
    · subst hqp
      exact h (mem_resting.mpr ⟨s, l, hq⟩)
    · exact ⟨rfl, rfl, rfl⟩
  constructor
  · simpa using hb.levels_lo
  · simpa using hb.levels_hi
  · simpa using hb.words
  · simpa using hb.bits
  · intro s l q hq
    rw [queue_setOrder] at hq
    obtain ⟨hside, -, hprice⟩ := hkeep s l q hq
    rw [hside, hprice]
    exact hb.filed s l q hq
  · exact hb.nodup
  · exact hb.bounded
  · intro i hi
    obtain ⟨s, l, q, hq, hid, hloc⟩ := hb.located i hi
    obtain ⟨-, hidq, hprice⟩ := hkeep s l q hq
    exact ⟨s, l, q, by rwa [queue_setOrder], by rw [hidq, hid], by rw [hprice]; exact hloc⟩

theorem testBit_enqueue (hb : WellFormed b) (hl : l < 101) (s' : Side) (l' : Nat) :
    ((b.enqueue s l p).bitmap s').testBit l' = true ↔ (s' = s ∧ l' = l) ∨ (b.bitmap s').testBit l' = true := by
  have hdiv : l / 64 * 64 + l % 64 = l := by omega
  rw [bitmap_enqueue]
  split_ifs with hs
  · subst hs
    rw [Bitmap.testBit_orBit (hb.word_lt hl s') (by omega), hdiv]
    simp
  · simp [hs]

theorem enqueue (hb : WellFormed b) (hfresh : p ∉ b.resting ++ b.freeStack) (hp : p < poolSize)
    (hside : (b.order p).bidOrAsk = s) (hlevel : levelOf (b.order p).mPrice = some l) :
    WellFormed (b.enqueue s l p) := by
  have hl : l < 101 := (levelOf_eq_some.mp hlevel).1
  have hsize := hb.level_lt_size hl s
  have hperm := resting_enqueue_perm (p := p) hsize
  have hmem : ∀ s' l' q, q ∈ (b.enqueue s l p).queue s' l' ↔ (s' = s ∧ l' = l ∧ q = p) ∨ q ∈ b.queue s' l' := by
    intro s' l' q
    rw [queue_enqueue hsize]
    split_ifs with h
    · rw [h.1, h.2]
      simp [or_comm]
    · have hno : ¬ (s' = s ∧ l' = l ∧ q = p) := fun h' => h ⟨h'.1, h'.2.1⟩
      simp [hno]
  constructor
  · simpa using hb.levels_lo
  · simpa using hb.levels_hi
  · intro s'
    rw [bitmap_enqueue]
    split_ifs with hs
    · subst hs
      simpa using hb.words s'
    · simpa using hb.words s'
  · intro s' l'
    rw [hb.testBit_enqueue hl, hb.bits, queue_enqueue hsize]
    split_ifs with h
    · simp [h]
    · simp [h]
  · intro s' l' q hq
    rcases (hmem s' l' q).mp hq with ⟨rfl, rfl, rfl⟩ | hq
    · simpa using And.intro hside hlevel
    · simpa using hb.filed s' l' q hq
  · have hall : ((b.enqueue s l p).resting ++ (b.enqueue s l p).freeStack).Perm
        (p :: (b.resting ++ b.freeStack)) := by
      simpa using hperm.append_right b.freeStack
    exact hall.nodup_iff.mpr (List.nodup_cons.mpr ⟨hfresh, hb.nodup⟩)
  · intro q hq
    rw [freeStack_enqueue, (hperm.append_right _).mem_iff, List.cons_append, List.mem_cons] at hq
    rcases hq with rfl | hq
    · exact hp
    · exact hb.bounded q hq
  · intro i hi
    rw [mapping_enqueue] at hi ⊢
    by_cases hindex : i = mapIndex (b.order p).mOrderID
    · rw [if_pos hindex]
      exact ⟨s, l, p, (hmem s l p).mpr (Or.inl ⟨rfl, rfl, rfl⟩), by simp [hindex], by simp⟩
    · rw [if_neg hindex] at hi ⊢
      obtain ⟨s', l', q, hq, hid, hloc⟩ := hb.located i hi
      exact ⟨s', l', q, (hmem s' l' q).mpr (Or.inr hq), by simpa using hid, by simpa using hloc⟩

theorem testBit_dequeue (hb : WellFormed b) (hl : l < 101) (s' : Side) (l' : Nat) :
    ((b.dequeue s l p).bitmap s').testBit l' = true ↔
      (b.bitmap s').testBit l' = true ∧ ¬ (s' = s ∧ l' = l ∧ (b.queue s l).erase p = []) := by
  have hdiv : l / 64 * 64 + l % 64 = l := by omega
  rw [bitmap_dequeue]
  by_cases hs : s' = s
  · subst hs
    rw [if_pos rfl, bitmapAfter]
    split_ifs with hq
    · rw [Bitmap.testBit_andNotBit (hb.word_lt hl s') (by omega), hdiv]
      simp [hq, and_comm]
    · simp [hq]
  · simp [hs]

theorem dequeue (hb : WellFormed b) (hp : p ∈ b.queue s l) : WellFormed (b.dequeue s l p) := by
  have hl := hb.level_lt hp
  have hsize := hb.level_lt_size hl s
  have hsub : ∀ s' l' q, q ∈ (b.dequeue s l p).queue s' l' → q ∈ b.queue s' l' := by
    intro s' l' q hq
    rw [hb.queue_dequeue hp] at hq
    exact List.mem_of_mem_erase hq
  have hall : ((b.dequeue s l p).resting ++ (b.dequeue s l p).freeStack).Perm (b.resting ++ b.freeStack) := by
    have h := (resting_dequeue_perm hsize hp).append_right b.freeStack
    rw [freeStack_dequeue]
    exact List.perm_middle.trans h.symm
  constructor
  · simpa using hb.levels_lo
  · simpa using hb.levels_hi
  · intro s'
    rw [bitmap_dequeue, bitmapAfter]
    split_ifs with hs hq
    · subst hs
      simpa using hb.words s'
    · subst hs
      simpa using hb.words s'
    · simpa using hb.words s'
  · intro s' l'
    rw [hb.testBit_dequeue hl, hb.bits, OrderBook.queue_dequeue hsize]
    split_ifs with h
    · have hne : b.queue s l ≠ [] := List.ne_nil_of_mem hp
      simp [h, hne]
    · exact and_iff_left fun h' => h ⟨h'.1, h'.2.1⟩
  · intro s' l' q hq
    simpa using hb.filed s' l' q (hsub s' l' q hq)
  · exact hall.nodup_iff.mpr hb.nodup
  · exact fun q hq => hb.bounded q (hall.mem_iff.mp hq)
  · -- the entry of the order that leaves is reset, so another entry is not its own
    intro i hi
    rw [mapping_dequeue] at hi ⊢
    by_cases hindex : i = mapIndex (b.order p).mOrderID
    · rw [if_pos hindex] at hi
      exact absurd hi (by decide)
    · rw [if_neg hindex] at hi ⊢
      obtain ⟨s', l', q, hq, hid, hloc⟩ := hb.located i hi
      have hqp : q ≠ p := fun h => hindex (by rw [← hid, h])
      refine ⟨s', l', q, ?_, by simpa using hid, by simpa using hloc⟩
      rw [hb.queue_dequeue hp]
      exact (List.mem_erase_of_ne hqp).mpr hq

theorem forget (hb : WellFormed b) (orderId : UInt64) : WellFormed (b.setLocation orderId .empty) := by
  constructor
  · simpa using hb.levels_lo
  · simpa using hb.levels_hi
  · simpa using hb.words
  · simpa using hb.bits
  · simpa using hb.filed
  · exact hb.nodup
  · exact hb.bounded
  · intro i hi
    rw [mapping_setLocation] at hi ⊢
    by_cases hindex : i = mapIndex orderId
    · rw [if_pos hindex] at hi
      exact absurd hi (by decide)
    · rw [if_neg hindex] at hi ⊢
      simpa using hb.located i hi

/-! ### The fresh book -/

theorem mem_pushAll {n q : Nat} : q ∈ ObjectPool.pushAll n ↔ q < n := by
  induction n with
  | zero => simp [ObjectPool.pushAll]
  | succ n ih =>
    rw [ObjectPool.pushAll, List.mem_cons, ih]
    omega

theorem pushAll_nodup (n : Nat) : (ObjectPool.pushAll n).Nodup := by
  induction n with
  | zero => exact List.nodup_nil
  | succ n ih =>
    refine List.nodup_cons.mpr ⟨?_, ih⟩
    rw [mem_pushAll]
    omega

theorem pushAll_length (n : Nat) : (ObjectPool.pushAll n).length = n := by
  induction n with
  | zero => rfl
  | succ n ih => rw [ObjectPool.pushAll, List.length_cons, ih]

@[simp] theorem queue_new (size : Nat) (s : Side) (l : Nat) : (OrderBook.new size).queue s l = [] := by
  cases s <;> exact Buckets.bucket_replicate size l

@[simp] theorem resting_new (size : Nat) : (OrderBook.new size).resting = [] := by
  rw [List.eq_nil_iff_forall_not_mem]
  intro p hp
  obtain ⟨s, l, hp⟩ := mem_resting.mp hp
  rw [queue_new] at hp
  exact List.not_mem_nil hp

@[simp] theorem freeStack_new (size : Nat) : (OrderBook.new size).freeStack = ObjectPool.pushAll poolSize := rfl

theorem new {size : Nat} (hlo : 101 ≤ size) (hhi : size < 2 ^ 31) : WellFormed (OrderBook.new size) := by
  have hsize : ∀ s, ((OrderBook.new size).priceLevel s).size = size := by
    intro s
    cases s <;> exact Array.size_replicate
  constructor
  · intro s
    rw [hsize]
    exact hlo
  · intro s
    rw [hsize]
    exact hhi
  · intro s
    rw [hsize]
    cases s <;> exact Array.size_replicate
  · intro s l
    have hclear : ((OrderBook.new size).bitmap s).testBit l = false := by
      apply Bitmap.testBit_of_word_eq_zero
      cases s <;> simp only [OrderBook.bitmap, OrderBook.new, Array.getElem?_replicate] <;> split_ifs <;> rfl
    simp [hclear]
  · intro s l p hp
    rw [queue_new] at hp
    exact absurd hp List.not_mem_nil
  · simpa using pushAll_nodup poolSize
  · intro p hp
    simpa [mem_pushAll] using hp
  · intro i hi
    exact absurd hi Bool.false_ne_true

end WellFormed

end TradingSystem
