import TradingSystem.Engine.Cancel
import TradingSystem.Engine.Ledger
import TradingSystem.Engine.Priority
import TradingSystem.Reference.Book

/-!
# The engine refines the reference book

`Matches` relates an engine to a reference book: the lists are sorted and hold the orders of the queues.
Every call that meets `Admissible` keeps the relation and gets the same answer, so the answers of whole
runs agree. The queues are read off the relation only through membership: a sorted list is determined by
its members.
-/

namespace TradingSystem

open Lib OrderBook

namespace MatchingEngine

/-! ### What is compared, and for which runs -/

/-- A reply with the pointers of a trade followed, after the call. -/
def answer (e' : MatchingEngine) : Reply → Answer
  | .added result => .added result
  | .cancelled result => .cancelled result
  | .matched result => .matched (result.map (Option.map fun t =>
      ⟨(e'.orderBook.order t.mBidOrder).mOrderID, (e'.orderBook.order t.mAskOrder).mOrderID,
        t.mTradeVolume, t.mTradePrice⟩))

def observed : Machine MatchingEngine Call Answer := machine.relabel answer

/-- A slot is free for every order, its volume is a positive `int` and its price has 32 bits; and no
resting order shares its entry of the location array with another id that is assigned, cancelled or
filled. -/
def Admissible (e : MatchingEngine) : Call → Prop
  | .addOrder o => e.orderBook.freeStack ≠ [] ∧ IntVolume o.mVolume ∧
      o.mPrice.mPriceValueInCent.toNat < 2 ^ 32 ∧
      ∀ p ∈ e.orderBook.resting, mapIndex (e.orderBook.order p).mOrderID ≠ mapIndex e.nextId
  | .cancelOrder orderId => ∀ p ∈ e.orderBook.resting,
      (e.orderBook.order p).mOrderID ≠ orderId → mapIndex (e.orderBook.order p).mOrderID ≠ mapIndex orderId
  | .matchLimitOrders => ∀ q ∈ e.orderBook.resting,
      q ∉ (machine.next e .matchLimitOrders).orderBook.resting → ∀ p ∈ e.orderBook.resting, p ≠ q →
        mapIndex (e.orderBook.order p).mOrderID ≠ mapIndex (e.orderBook.order q).mOrderID

instance (e : MatchingEngine) : DecidablePred (Admissible e)
  | .addOrder _ => inferInstanceAs (Decidable (_ ∧ _ ∧ _ ∧ ∀ p ∈ e.orderBook.resting, _))
  | .cancelOrder _ => inferInstanceAs (Decidable (∀ p ∈ e.orderBook.resting, _))
  | .matchLimitOrders => inferInstanceAs (Decidable (∀ q ∈ e.orderBook.resting, _))

/-! ### The engine's side of the relation -/

structure Sound (e : MatchingEngine) : Prop where
  wellFormed : WellFormed e.orderBook
  ordered : Ordered e
  indexed : AllIndexed e
  volumes : ∀ p ∈ e.orderBook.resting, IntVolume (e.orderBook.order p).mVolume
  prices : ∀ p ∈ e.orderBook.resting, (e.orderBook.order p).mPrice.mPriceValueInCent.toNat < 2 ^ 32

theorem Sound.price {e : MatchingEngine} (h : Sound e) {s : Side} {l p : Nat}
    (hp : p ∈ e.orderBook.queue s l) :
    (e.orderBook.order p).mPrice.mPriceValueInCent.toNat = 950 + l := by
  obtain ⟨hl, hmod⟩ := levelOf_eq_some.mp (h.wellFormed.filed s l p hp).2
  have hlt := h.prices p (mem_resting.mpr ⟨s, l, hp⟩)
  omega

theorem sound_new (counter : UInt64) : Sound (new 101 counter) := by
  have hnone := not_resting_new counter
  exact ⟨wellFormed_new counter, ordered_new counter, fun p hp => absurd hp (hnone p),
    fun p hp => absurd hp (hnone p), fun p hp => absurd hp (hnone p)⟩

theorem keepsEntries_of_admissible {e : MatchingEngine} (h : Sound e) {c : Call} (hc : Admissible e c) :
    KeepsEntries e c := by
  cases c with
  | addOrder o =>
    intro _ l _ p hp hindex
    exact absurd hindex (hc.2.2.2 p hp)
  | cancelOrder orderId =>
    intro p hp hindex
    by_contra hne
    exact hc p hp hne hindex
  | matchLimitOrders =>
    intro lb la bid ask hbid hask hle p hp hstay q hfilled
    have hb := h.wellFormed
    have hnext : (machine.next e .matchLimitOrders).orderBook = e.orderBook.settled lb la bid ask := by
      rw [(Effect.traded hbid hask hle).next_eq hb]
    have hq : q ∈ e.orderBook.resting := by
      rcases hfilled.1 with rfl | rfl
      · exact hbid.resting
      · exact hask.resting
    apply hc q hq
    · rw [hnext, mem_resting_settled hb hbid hask]
      exact fun hstay => hstay.2 hfilled
    · exact hp
    · rintro rfl
      exact hstay hfilled

/-- Volumes stay positive: an order whose volume reaches 0 leaves. -/
theorem intVolume_next {e : MatchingEngine} (h : Sound e) {c : Call} (hc : Admissible e c) :
    ∀ p ∈ (machine.next e c).orderBook.resting, IntVolume ((machine.next e c).orderBook.order p).mVolume := by
  have hb := h.wellFormed
  refine step_induction (P := fun _ e' => ∀ p ∈ e'.orderBook.resting, IntVolume (e'.orderBook.order p).mVolume)
    hb fun r e' heffect => ?_
  cases heffect with
  | full | unknown | missed | oneSided | uncrossed => exact h.volumes
  | refused o hfree =>
    intro q hq
    rw [order_stored]
    split_ifs
    · exact hc.2.1
    · exact h.volumes q hq
  | @accepted o p rest l hfree hlevel =>
    intro q hq
    rw [order_accepted]
    split_ifs with hqp
    · exact hc.2.1
    · exact h.volumes q (((mem_resting_accepted hb hfree hlevel).mp hq).resolve_left hqp)
  | erased orderId _ _ hfind =>
    intro q hq
    rw [order_dequeue]
    exact h.volumes q ((hb.mem_resting_dequeue (findOrder_mem hfind).1 q).mp hq).1
  | @traded lb la bid ask hbid hask hle =>
    intro q hq
    obtain ⟨hq, hstay⟩ := (mem_resting_settled hb hbid hask).mp hq
    have hne := hbid.ne hb hask
    have hbidInt := h.volumes bid hbid.resting
    have haskInt := h.volumes ask hask.resting
    have hqInt := h.volumes q hq
    have hvolume := mVolume_settled lb la hne hbidInt haskInt q
    rw [filled_iff lb la hne hbidInt haskInt hqInt] at hstay
    unfold IntVolume at hqInt ⊢
    dsimp only
    omega

theorem price_next {e : MatchingEngine} (h : Sound e) {c : Call} (hc : Admissible e c) :
    ∀ p ∈ (machine.next e c).orderBook.resting,
      ((machine.next e c).orderBook.order p).mPrice.mPriceValueInCent.toNat < 2 ^ 32 := by
  intro p hp
  obtain ⟨s, l, hp⟩ := mem_resting.mp hp
  rcases mem_queue_next h.wellFormed hp with hp | ⟨o, rest, rfl, hfree, -, -, hnext⟩
  · have hresting := mem_resting.mpr ⟨s, l, hp⟩
    rw [order_next h.wellFormed c hresting]
    exact h.prices p hresting
  · rw [hnext, order_accepted, if_pos rfl]
    exact hc.2.2.1

theorem sound_next {e : MatchingEngine} (h : Sound e) {c : Call} (hc : Admissible e c) (hw : NoWrap e c) :
    Sound (machine.next e c) :=
  ⟨wellFormed_next h.wellFormed c, ordered_next h.wellFormed h.ordered hw,
    (allIndexed_next h.wellFormed h.indexed c).mpr (keepsEntries_of_admissible h hc), intVolume_next h hc,
    price_next h hc⟩

/-! ### The relation -/

structure Matches (e : MatchingEngine) (r : ReferenceBook) : Prop where
  sound : Sound e
  counter : r.counter = e.atomicOrderID
  sorted : ∀ s, (r.orders s).Pairwise (Before s)
  members : ∀ s o, o ∈ r.orders s ↔ ∃ l, ∃ p ∈ e.orderBook.queue s l, e.orderBook.order p = o

namespace Matches

variable {e : MatchingEngine} {r : ReferenceBook}

theorem mem (h : Matches e r) {s : Side} {l p : Nat} (hp : p ∈ e.orderBook.queue s l) :
    e.orderBook.order p ∈ r.orders s :=
  (h.members s _).mpr ⟨l, p, hp, rfl⟩

theorem empty (h : Matches e r) {s : Side} (hnone : ∀ l, e.orderBook.queue s l = []) : r.orders s = [] := by
  rw [List.eq_nil_iff_forall_not_mem]
  intro o ho
  obtain ⟨l, p, hp, -⟩ := (h.members s o).mp ho
  rw [hnone l] at hp
  exact List.not_mem_nil hp

/-- Two resting orders that are equal are one. -/
theorem order_inj (h : Matches e r) {s s' : Side} {l l' p q : Nat} (hp : p ∈ e.orderBook.queue s l)
    (hq : q ∈ e.orderBook.queue s' l') (heq : e.orderBook.order p = e.orderBook.order q) : p = q :=
  h.sound.ordered.unique p (mem_resting.mpr ⟨s, l, hp⟩) q (mem_resting.mpr ⟨s', l', hq⟩) (by rw [heq])

/-- The top of a side comes before every other order of the side. -/
theorem before_of_top (h : Matches e r) {s : Side} {l p : Nat} (htop : e.orderBook.Top s l p) {l' q : Nat}
    (hq : q ∈ e.orderBook.queue s l') (hne : q ≠ p) :
    Before s (e.orderBook.order p) (e.orderBook.order q) := by
  obtain ⟨hp, hfirst⟩ := h.sound.ordered.first htop
  obtain ⟨hahead, hid⟩ := hfirst l' q hq
  have hpPrice := h.sound.price hp
  have hqPrice := h.sound.price hq
  by_cases hl : l' = l
  · have hids : (e.orderBook.order p).mOrderID ≠ (e.orderBook.order q).mOrderID := fun heq =>
      hne (h.sound.ordered.unique p (mem_resting.mpr ⟨s, l, hp⟩) q (mem_resting.mpr ⟨s, l', hq⟩) heq).symm
    have hle := hid hl
    refine Or.inr ⟨UInt64.toNat_inj.mp (by omega), ?_⟩
    rw [ne_eq, ← UInt64.toNat_inj] at hids
    rw [UInt64.le_iff_toNat_le] at hle
    rw [UInt64.lt_iff_toNat_lt]
    omega
  · cases s with
    | bid =>
      have hle : l' ≤ l := hahead
      exact Or.inl (UInt64.lt_iff_toNat_lt.mpr (by omega))
    | ask =>
      have hle : l ≤ l' := hahead
      exact Or.inl (UInt64.lt_iff_toNat_lt.mpr (by omega))

/-- The top of a side heads its list. -/
theorem head_of_top (h : Matches e r) {s : Side} {l p : Nat} (htop : e.orderBook.Top s l p) :
    ∃ rest, r.orders s = e.orderBook.order p :: rest := by
  apply exists_cons_of_least (h.sorted s) (h.mem htop.mem)
  intro o ho hne
  obtain ⟨l', q, hq, rfl⟩ := (h.members s o).mp ho
  exact h.before_of_top htop hq fun heq => hne (by rw [heq])

/-- A change of the book that keeps the queues and their orders keeps the relation. -/
theorem congr (h : Matches e r) {e' : MatchingEngine} {counter : UInt64} (hsound : Sound e')
    (hcounter : counter = e'.atomicOrderID) (hqueue : ∀ s l, e'.orderBook.queue s l = e.orderBook.queue s l)
    (horder : ∀ s l, ∀ p ∈ e.orderBook.queue s l, e'.orderBook.order p = e.orderBook.order p) :
    Matches e' { r with counter := counter } := by
  refine ⟨hsound, hcounter, h.sorted, fun s o => ?_⟩
  rw [h.members]
  constructor
  · rintro ⟨l, p, hp, rfl⟩
    exact ⟨l, p, by rw [hqueue]; exact hp, horder s l p hp⟩
  · rintro ⟨l, p, hp, rfl⟩
    rw [hqueue] at hp
    exact ⟨l, p, hp, (horder s l p hp).symm⟩

/-! ### `addOrder` -/

/-- A price of 32 bits has a level exactly between the limits. -/
theorem limits_iff {o : Order} (hprice : o.mPrice.mPriceValueInCent.toNat < 2 ^ 32) :
    (950 ≤ o.mPrice.mPriceValueInCent ∧ o.mPrice.mPriceValueInCent ≤ 1050) ↔ ∃ l, levelOf o.mPrice = some l := by
  have hlo : (950 : UInt64).toNat = 950 := rfl
  have hhi : (1050 : UInt64).toNat = 1050 := rfl
  rw [UInt64.le_iff_toNat_le, UInt64.le_iff_toNat_le, hlo, hhi]
  constructor
  · intro hin
    exact ⟨o.mPrice.mPriceValueInCent.toNat - 950, levelOf_eq_some.mpr (by omega)⟩
  · rintro ⟨l, hl⟩
    have := levelOf_eq_some.mp hl
    omega

theorem refused (h : Matches e r) {p : Nat} {rest : List Nat} (hfree : e.orderBook.freeStack = p :: rest)
    {o : Order} (hsound : Sound (e.stored p o)) : Matches (e.stored p o) { r with counter := r.counter + 1 } := by
  refine h.congr hsound (by rw [h.counter]; rfl) (fun s l => queue_setOrder e.orderBook.take s l p _) ?_
  intro s l q hq
  rw [order_stored, if_neg (h.sound.wellFormed.ne_of_free_of_mem_queue hfree hq)]

section Accepted

variable {p : Nat} {rest : List Nat} {o : Order} {l : Nat}

theorem nextId (h : Matches e r) : r.counter + 1 = e.nextId := by
  rw [h.counter]
  rfl

/-- The new id is larger than every other, so the order has its place in the list. -/
theorem sorted_insert (h : Matches e r) (hfree : e.orderBook.freeStack = p :: rest)
    (hw : NoWrap e (.addOrder o)) (s : Side) :
    ((r.orders s).orderedInsert (Before s) { o with mOrderID := r.counter + 1 }).Pairwise (Before s) := by
  apply pairwise_orderedInsert (h.sorted s)
  intro o' ho'
  obtain ⟨l', q, hq, rfl⟩ := (h.members s o').mp ho'
  apply before_total
  show r.counter + 1 ≠ _
  rw [h.nextId]
  exact (UInt64.ne_of_lt (h.sound.ordered.lt_nextId hfree hw (mem_resting.mpr ⟨s, l', hq⟩))).symm

/-- The orders of a side after one was accepted. -/
theorem mem_accepted (h : Matches e r) (hfree : e.orderBook.freeStack = p :: rest)
    (hlevel : levelOf o.mPrice = some l) (s : Side) (o' : Order) :
    (∃ l', ∃ q ∈ (e.accepted p o l).orderBook.queue s l', (e.accepted p o l).orderBook.order q = o') ↔
      (s = o.bidOrAsk ∧ o' = { o with mOrderID := e.nextId }) ∨ o' ∈ r.orders s := by
  have hb := h.sound.wellFormed
  have hqueue := queue_accepted hb hfree hlevel
  constructor
  · rintro ⟨l', q, hq, rfl⟩
    rw [order_accepted]
    rw [hqueue] at hq
    split_ifs at hq with hsame
    · rcases List.mem_append.mp hq with hq | hq
      · rw [if_neg (hb.ne_of_free_of_mem_queue hfree hq)]
        exact Or.inr (h.mem hq)
      · rw [if_pos (List.mem_singleton.mp hq)]
        exact Or.inl ⟨hsame.1, rfl⟩
    · rw [if_neg (hb.ne_of_free_of_mem_queue hfree hq)]
      exact Or.inr (h.mem hq)
  · rintro (⟨rfl, rfl⟩ | ho')
    · refine ⟨l, p, ?_, by rw [order_accepted, if_pos rfl]⟩
      rw [hqueue, if_pos ⟨rfl, rfl⟩]
      exact List.mem_append_right _ (List.mem_singleton_self p)
    · obtain ⟨l', q, hq, rfl⟩ := (h.members s o').mp ho'
      have hne := hb.ne_of_free_of_mem_queue hfree hq
      refine ⟨l', q, ?_, by rw [order_accepted, if_neg hne]⟩
      rw [hqueue]
      split_ifs
      · exact List.mem_append_left _ hq
      · exact hq

theorem accepted (h : Matches e r) (hfree : e.orderBook.freeStack = p :: rest)
    (hlevel : levelOf o.mPrice = some l) (hsound : Sound (e.accepted p o l)) (hw : NoWrap e (.addOrder o)) :
    Matches (e.accepted p o l)
      { orders := fun s => if s = o.bidOrAsk then
          (r.orders s).orderedInsert (Before s) { o with mOrderID := r.counter + 1 } else r.orders s
        counter := r.counter + 1 } := by
  refine ⟨hsound, h.nextId, fun s => ?_, fun s o' => ?_⟩
  · dsimp only
    split_ifs
    · exact h.sorted_insert hfree hw s
    · exact h.sorted s
  · rw [h.mem_accepted hfree hlevel]
    dsimp only
    split_ifs with hs
    · rw [List.mem_orderedInsert, h.nextId]
      simp only [hs, true_and]
    · simp only [hs, false_and, false_or]

end Accepted

/-! ### `cancelOrder` -/

/-- A cancel that finds no order finds none in the reference book either. -/
theorem cancel_absent (h : Matches e r) {e' : MatchingEngine} (hsound : Sound e')
    (hcounter : e'.atomicOrderID = e.atomicOrderID)
    (hqueue : ∀ s l, e'.orderBook.queue s l = e.orderBook.queue s l)
    (horder : ∀ p, e'.orderBook.order p = e.orderBook.order p) {orderId : UInt64}
    (habsent : ∀ p ∈ e.orderBook.resting, (e.orderBook.order p).mOrderID ≠ orderId) :
    Matches e' (r.cancelOrder orderId).2 := by
  have horders : (fun s => (r.orders s).filter fun o => o.mOrderID ≠ orderId) = r.orders := by
    funext s
    rw [List.filter_eq_self]
    intro o ho
    obtain ⟨l, p, hp, rfl⟩ := (h.members s o).mp ho
    simpa using habsent p (mem_resting.mpr ⟨s, l, hp⟩)
  rw [ReferenceBook.cancelOrder, horders]
  exact h.congr hsound (by rw [h.counter, hcounter]) hqueue fun _ _ p _ => horder p

theorem erased (h : Matches e r) {orderId : UInt64} {s : Side} {l p : Nat}
    (hfind : e.orderBook.findOrder s l orderId = some p)
    (hsound : Sound { e with orderBook := e.orderBook.dequeue s l p }) :
    Matches { e with orderBook := e.orderBook.dequeue s l p } (r.cancelOrder orderId).2 := by
  have hb := h.sound.wellFormed
  obtain ⟨hp, hid⟩ := findOrder_mem hfind
  refine ⟨hsound, h.counter, fun s' => (h.sorted s').filter _, fun s' o => ?_⟩
  simp only [ReferenceBook.cancelOrder, List.mem_filter, h.members, decide_eq_true_eq, hb.queue_dequeue hp,
    order_dequeue]
  have hother : ∀ l' q, q ∈ e.orderBook.queue s' l' →
      (q ∈ (e.orderBook.queue s' l').erase p ↔ (e.orderBook.order q).mOrderID ≠ orderId) := by
    intro l' q hq
    rw [(hb.queue_nodup s' l').mem_erase_iff]
    constructor
    · rintro ⟨hne, -⟩ heq
      exact hne (h.sound.ordered.unique q (mem_resting.mpr ⟨s', l', hq⟩) p (mem_resting.mpr ⟨s, l, hp⟩)
        (heq.trans hid.symm))
    · intro hne
      exact ⟨fun heq => hne (by rw [heq, hid]), hq⟩
  constructor
  · rintro ⟨⟨l', q, hq, rfl⟩, hne⟩
    exact ⟨l', q, (hother l' q hq).mpr hne, rfl⟩
  · rintro ⟨l', q, hq, rfl⟩
    have hq' := List.mem_of_mem_erase hq
    exact ⟨⟨l', q, hq', rfl⟩, (hother l' q hq').mp hq⟩

/-! ### `matchLimitOrders` -/

theorem sorted_settle {s : Side} {o : Order} {rest : List Order} (h : (o :: rest).Pairwise (Before s))
    (v : UInt64) : (ReferenceBook.settle o v rest).Pairwise (Before s) := by
  obtain ⟨hhead, hrest⟩ := List.pairwise_cons.mp h
  unfold ReferenceBook.settle
  split_ifs
  · exact hrest
  · -- the volume has no part in the priority
    exact List.pairwise_cons.mpr ⟨fun o' ho' => hhead o' ho', hrest⟩

/-- The tail of a list holds the orders of the side but its top. -/
theorem mem_rest (h : Matches e r) {s : Side} {l p : Nat} {rest : List Order}
    (htop : e.orderBook.Top s l p) (hrest : r.orders s = e.orderBook.order p :: rest) {o : Order} :
    o ∈ rest ↔ ∃ l', ∃ q ∈ e.orderBook.queue s l', q ≠ p ∧ e.orderBook.order q = o := by
  have hsorted := h.sorted s
  rw [hrest] at hsorted
  rw [mem_tail_iff hsorted, ← hrest, h.members]
  constructor
  · rintro ⟨⟨l', q, hq, rfl⟩, hne⟩
    exact ⟨l', q, hq, fun heq => hne (by rw [heq]), rfl⟩
  · rintro ⟨l', q, hq, hne, rfl⟩
    exact ⟨⟨l', q, hq, rfl⟩, fun heq => hne (h.order_inj hq htop.mem heq)⟩

section Settled

variable {lb la bid ask : Nat}

/-- After a trade the list of a side, settled, holds the orders of its queues. -/
theorem mem_settle (h : Matches e r) (hbid : e.orderBook.Top .bid lb bid) (hask : e.orderBook.Top .ask la ask)
    {s : Side} {l p : Nat} (htop : e.orderBook.Top s l p)
    (hp : ∀ l' q, q ∈ e.orderBook.queue s l' → (q = bid ∨ q = ask ↔ q = p)) {rest : List Order}
    (hrest : r.orders s = e.orderBook.order p :: rest) (o : Order) :
    o ∈ ReferenceBook.settle (e.orderBook.order p) (e.orderBook.tradeVolume bid ask) rest ↔
      ∃ l', ∃ q ∈ (e.orderBook.settled lb la bid ask).queue s l',
        (e.orderBook.settled lb la bid ask).order q = o := by
  have hb := h.sound.wellFormed
  have hne := hbid.ne hb hask
  have hbidInt := h.sound.volumes bid hbid.resting
  have haskInt := h.sound.volumes ask hask.resting
  have hstay : ∀ l' q, q ∈ e.orderBook.queue s l' → (e.orderBook.Filled bid ask q ↔
      q = p ∧ (e.orderBook.order q).mVolume = e.orderBook.tradeVolume bid ask) := by
    intro l' q hq
    have hqInt := h.sound.volumes q (mem_resting.mpr ⟨s, l', hq⟩)
    rw [filled_iff_traded hne hbidInt haskInt hqInt, hp l' q hq]
  have hother : ∀ l' q, q ∈ e.orderBook.queue s l' → q ≠ p →
      (e.orderBook.settled lb la bid ask).order q = e.orderBook.order q := fun l' q hq hqp =>
    order_settled_other lb la hne fun hor => hqp ((hp l' q hq).mp hor)
  have hself := order_settled_self lb la hne hbidInt haskInt ((hp l p htop.mem).mpr rfl)
  simp only [mem_queue_settled hb hbid hask]
  unfold ReferenceBook.settle
  split_ifs with hall
  · -- the top leaves
    rw [h.mem_rest htop hrest]
    constructor
    · rintro ⟨l', q, hq, hqp, rfl⟩
      exact ⟨l', q, ⟨hq, fun hfilled => hqp ((hstay l' q hq).mp hfilled).1⟩, hother l' q hq hqp⟩
    · rintro ⟨l', q, ⟨hq, hno⟩, rfl⟩
      have hqp : q ≠ p := fun heq => hno ((hstay l' q hq).mpr ⟨heq, heq ▸ hall⟩)
      exact ⟨l', q, hq, hqp, (hother l' q hq hqp).symm⟩
  · -- the top stays with what is left of it
    rw [List.mem_cons, h.mem_rest htop hrest]
    constructor
    · rintro (rfl | ⟨l', q, hq, hqp, rfl⟩)
      · exact ⟨l, p, ⟨htop.mem, fun hfilled => hall ((hstay l p htop.mem).mp hfilled).2⟩, hself⟩
      · exact ⟨l', q, ⟨hq, fun hfilled => hqp ((hstay l' q hq).mp hfilled).1⟩, hother l' q hq hqp⟩
    · rintro ⟨l', q, ⟨hq, -⟩, rfl⟩
      by_cases hqp : q = p
      · exact Or.inl (by rw [hqp, hself])
      · exact Or.inr ⟨l', q, hq, hqp, (hother l' q hq hqp).symm⟩

theorem tradeVolume_eq_min (h : Matches e r) (hbid : e.orderBook.Top .bid lb bid)
    (hask : e.orderBook.Top .ask la ask) : e.orderBook.tradeVolume bid ask =
      min (e.orderBook.order bid).mVolume (e.orderBook.order ask).mVolume := by
  rw [← UInt64.toNat_inj, toNat_min]
  exact toNat_tradeVolume (h.sound.volumes bid hbid.resting) (h.sound.volumes ask hask.resting)

/-- The heads cross when the tops do. -/
theorem price_le_iff (h : Matches e r) (hbid : e.orderBook.Top .bid lb bid)
    (hask : e.orderBook.Top .ask la ask) : (e.orderBook.order bid).mPrice.mPriceValueInCent ≥
      (e.orderBook.order ask).mPrice.mPriceValueInCent ↔ la ≤ lb := by
  have hbidPrice := h.sound.price hbid.mem
  have haskPrice := h.sound.price hask.mem
  rw [ge_iff_le, UInt64.le_iff_toNat_le]
  omega

theorem traded (h : Matches e r) (hbid : e.orderBook.Top .bid lb bid) (hask : e.orderBook.Top .ask la ask)
    (hle : la ≤ lb) (hsound : Sound { e with orderBook := e.orderBook.settled lb la bid ask }) :
    answer { e with orderBook := e.orderBook.settled lb la bid ask }
        (.matched (.ok (some ⟨bid, ask, e.orderBook.tradeVolume bid ask, widen (950 + la)⟩))) =
      r.matchLimitOrders.1 ∧
    Matches { e with orderBook := e.orderBook.settled lb la bid ask } r.matchLimitOrders.2 := by
  have hb := h.sound.wellFormed
  obtain ⟨bids, hbids⟩ := h.head_of_top hbid
  obtain ⟨asks, hasks⟩ := h.head_of_top hask
  have hvolume := h.tradeVolume_eq_min hbid hask
  have hprice : widen (950 + (la : Int)) = (e.orderBook.order ask).mPrice.mPriceValueInCent := by
    have haskPrice := h.sound.price hask.mem
    have hla := hask.1.lt hb
    rw [← UInt64.toNat_inj, toNat_widen, haskPrice]
    omega
  obtain ⟨hreply, hcounter, hbidSide, haskSide⟩ :=
    ReferenceBook.matchLimitOrders_crossed hbids hasks ((h.price_le_iff hbid hask).mpr hle)
  rw [← hvolume] at hreply hbidSide haskSide
  refine ⟨?_, hsound, hcounter.trans h.counter, fun s => ?_, fun s o => ?_⟩
  · have hid : ∀ p, ((e.orderBook.settled lb la bid ask).order p).mOrderID = (e.orderBook.order p).mOrderID := by
      intro p
      rw [order_settled, mOrderID_reduced]
    simp only [answer, Except.map, Option.map_some, hid, hreply, hprice]
  · have hsorted := h.sorted s
    cases s with
    | bid =>
      rw [hbids] at hsorted
      rw [hbidSide]
      exact sorted_settle hsorted _
    | ask =>
      rw [hasks] at hsorted
      rw [haskSide]
      exact sorted_settle hsorted _
  · cases s with
    | bid =>
      rw [hbidSide]
      refine h.mem_settle hbid hask hbid (fun l' q hq => ?_) hbids o
      refine ⟨fun hor => hor.resolve_right ?_, Or.inl⟩
      rintro rfl
      exact absurd (hb.queue_unique hq hask.mem).1 (by decide)
    | ask =>
      rw [haskSide]
      refine h.mem_settle hbid hask hask (fun l' q hq => ?_) hasks o
      refine ⟨fun hor => hor.resolve_left ?_, Or.inr⟩
      rintro rfl
      exact absurd (hb.queue_unique hq hbid.mem).1 (by decide)

theorem untraded (h : Matches e r) (hbid : e.orderBook.Top .bid lb bid) (hask : e.orderBook.Top .ask la ask)
    (hlt : lb < la) : r.matchLimitOrders = (.matched (.ok none), r) := by
  obtain ⟨bids, hbids⟩ := h.head_of_top hbid
  obtain ⟨asks, hasks⟩ := h.head_of_top hask
  apply ReferenceBook.matchLimitOrders_uncrossed hbids hasks
  rw [h.price_le_iff hbid hask]
  omega

end Settled

/-! ### One call -/

/-- An order that rests under an id has a valid entry that leads to it. -/
theorem indexed_of_id (h : Matches e r) {orderId : UInt64} {p : Nat} (hp : p ∈ e.orderBook.resting)
    (hid : (e.orderBook.order p).mOrderID = orderId) : (e.orderBook.location orderId).isValid = true ∧
      ∃ l, levelOf (e.orderBook.location orderId).price = some l ∧
        e.orderBook.findOrder (e.orderBook.location orderId).side l orderId = some p := by
  subst hid
  exact h.sound.indexed p hp

/-- **Every admissible call gets the answer of the reference book**, and keeps the relation. -/
theorem step (h : Matches e r) {c : Call} (hc : Admissible e c) (hw : NoWrap e c) :
    (observed.step e c).1 = (ReferenceBook.machine.step r c).1 ∧
      Matches (observed.next e c) (ReferenceBook.machine.next r c) := by
  have hb := h.sound.wellFormed
  have hall := step_induction (c := c) (P := fun reply e' => Sound e' →
    answer e' reply = (r.step c).1 ∧ Matches e' (r.step c).2) hb ?_ (sound_next h.sound hc hw)
  · exact hall
  intro reply e' heffect hsound
  cases heffect with
  | full o hfree => exact absurd hfree hc.1
  | refused o hfree hlevel =>
    have hout : ¬ (950 ≤ o.mPrice.mPriceValueInCent ∧ o.mPrice.mPriceValueInCent ≤ 1050) := by
      rw [limits_iff hc.2.2.1, hlevel]
      simp
    rw [ReferenceBook.step, ReferenceBook.addOrder, if_neg hout]
    exact ⟨rfl, h.refused hfree hsound⟩
  | accepted o hfree hlevel =>
    have hin := (limits_iff hc.2.2.1).mpr ⟨_, hlevel⟩
    rw [ReferenceBook.step, ReferenceBook.addOrder, if_pos hin]
    refine ⟨?_, h.accepted hfree hlevel hsound hw⟩
    rw [h.nextId]
    rfl
  | unknown orderId hinvalid =>
    refine ⟨rfl, h.cancel_absent hsound rfl (fun _ _ => rfl) (fun _ => rfl) fun p hp hid => ?_⟩
    rw [(h.indexed_of_id hp hid).1] at hinvalid
    cases hinvalid
  | missed orderId _ hlevel hfind =>
    refine ⟨rfl, h.cancel_absent hsound rfl (fun _ _ => queue_setLocation ..) (fun _ => rfl) fun p hp hid => ?_⟩
    obtain ⟨-, l, hl, hfind'⟩ := h.indexed_of_id hp hid
    obtain rfl := Option.some.inj (hlevel.symm.trans hl)
    rw [hfind] at hfind'
    cases hfind'
  | erased orderId _ _ hfind => exact ⟨rfl, h.erased hfind hsound⟩
  | oneSided s hnone =>
    rw [ReferenceBook.step, ReferenceBook.matchLimitOrders_empty (h.empty hnone)]
    exact ⟨rfl, h⟩
  | uncrossed hbid hask hlt =>
    rw [ReferenceBook.step, h.untraded hbid hask hlt]
    exact ⟨rfl, h⟩
  | traded hbid hask hle => exact h.traded hbid hask hle hsound

end Matches

theorem matches_new (counter : UInt64) : Matches (new 101 counter) (.new counter) := by
  refine ⟨sound_new counter, rfl, fun s => List.Pairwise.nil, fun s o => ?_⟩
  constructor
  · intro ho
    exact absurd ho List.not_mem_nil
  · rintro ⟨l, p, hp, -⟩
    rw [new, WellFormed.queue_new] at hp
    exact absurd hp List.not_mem_nil

/-! ### The queues, read in priority order -/

/-- The orders of a side from the best level to the worst, each queue from its front. -/
def inOrder (e : MatchingEngine) : Side → List Order
  | .bid => e.orderBook.mBidpriceLevel.toList.reverse.flatten.map e.orderBook.order
  | .ask => e.orderBook.mAskPriceLevel.toList.flatten.map e.orderBook.order

theorem mem_inOrder (e : MatchingEngine) (s : Side) (o : Order) :
    o ∈ e.inOrder s ↔ ∃ l, ∃ p ∈ e.orderBook.queue s l, e.orderBook.order p = o := by
  have hslots : o ∈ e.inOrder s ↔ ∃ p ∈ Buckets.contents (e.orderBook.priceLevel s),
      e.orderBook.order p = o := by
    cases s <;>
      simp only [inOrder, Buckets.contents, priceLevel, List.mem_map, List.mem_flatten, List.mem_reverse]
  rw [hslots]
  constructor
  · rintro ⟨p, hp, rfl⟩
    obtain ⟨l, hp⟩ := (Buckets.mem_contents _).mp hp
    exact ⟨l, p, hp, rfl⟩
  · rintro ⟨l, p, hp, rfl⟩
    exact ⟨p, (Buckets.mem_contents _).mpr ⟨l, hp⟩, rfl⟩

/-- Within a queue the ids ascend at one price. -/
theorem pairwise_queue {e : MatchingEngine} (h : Sound e) (s : Side) (l : Nat) :
    (e.orderBook.queue s l).Pairwise fun p q => Before s (e.orderBook.order p) (e.orderBook.order q) := by
  apply (h.ordered.ascending s l).imp_of_mem
  intro p q hp hq hlt
  have hpPrice := h.price hp
  have hqPrice := h.price hq
  exact Or.inr ⟨UInt64.toNat_inj.mp (by omega), hlt⟩

theorem pairwise_inOrder {e : MatchingEngine} (h : Sound e) (s : Side) :
    (e.inOrder s).Pairwise (Before s) := by
  have hqueues : ∀ q ∈ (e.orderBook.priceLevel s).toList,
      q.Pairwise fun p q => Before s (e.orderBook.order p) (e.orderBook.order q) := by
    intro q hq
    obtain ⟨i, hi, rfl⟩ := List.mem_iff_getElem.mp hq
    rw [Buckets.getElem_toList]
    exact pairwise_queue h s i
  have hlevels : ∀ i j (hi : i < (e.orderBook.priceLevel s).toList.length)
      (hj : j < (e.orderBook.priceLevel s).toList.length), i < j →
      ∀ p ∈ (e.orderBook.priceLevel s).toList[i], ∀ q ∈ (e.orderBook.priceLevel s).toList[j],
        (e.orderBook.order p).mPrice.mPriceValueInCent < (e.orderBook.order q).mPrice.mPriceValueInCent := by
    intro i j hi hj hij p hp q hq
    rw [Buckets.getElem_toList] at hp hq
    have hpPrice := h.price hp
    have hqPrice := h.price hq
    rw [UInt64.lt_iff_toNat_lt]
    omega
  cases s with
  | bid =>
    rw [inOrder, List.pairwise_map, List.pairwise_flatten, List.pairwise_reverse]
    refine ⟨fun q hq => hqueues q (List.mem_reverse.mp hq), List.pairwise_iff_getElem.mpr ?_⟩
    intro i j hi hj hij q hq p hp
    exact Or.inl (hlevels i j hi hj hij p hp q hq)
  | ask =>
    rw [inOrder, List.pairwise_map, List.pairwise_flatten]
    refine ⟨hqueues, List.pairwise_iff_getElem.mpr ?_⟩
    intro i j hi hj hij p hp q hq
    exact Or.inl (hlevels i j hi hj hij p hp q hq)

/-- A sorted list is determined by its members. -/
theorem Matches.inOrder {e : MatchingEngine} {r : ReferenceBook} (h : Matches e r) (s : Side) :
    e.inOrder s = r.orders s :=
  (pairwise_inOrder h.sound s).eq_of_mem_iff (h.sorted s) fun o => by rw [mem_inOrder, h.members]

/-- **The engine refines the reference book** on every admissible run whose ids stay below `2 ^ 64`: the same
answers, and at the end the queues are the two lists. -/
theorem refines_referenceBook (counter : UInt64) (cs : List Call)
    (hids : counter.toNat + machine.total idsIssued (new 101 counter) cs < 2 ^ 64)
    (h : machine.Along Admissible (new 101 counter) cs) :
    observed.outputs (new 101 counter) cs = ReferenceBook.machine.outputs (.new counter) cs ∧
      ∀ s, (machine.run (new 101 counter) cs).inOrder s =
        (ReferenceBook.machine.run (.new counter) cs).orders s := by
  have hwrap := along_noWrap (e := new 101 counter) (wellFormed_new counter) hids
  have hboth := (Machine.along_relabel machine answer _ cs).mpr ((Machine.along_and _ cs).mpr ⟨h, hwrap⟩)
  obtain ⟨houtputs, hend⟩ := Machine.simulation (R := Matches)
    (fun e r c hm hc => hm.step hc.1 hc.2) hboth (matches_new counter)
  refine ⟨houtputs, fun s => ?_⟩
  rw [← hend.inOrder s]
  exact congrArg (fun e => e.inOrder s) (Machine.run_relabel machine answer _ cs).symm

/-- Two bids, an ask that fills one and part of the other, and a cancel. -/
theorem refines_example :
    observed.outputs (new 101 0)
        [.addOrder ⟨.bid, 5, [], 0, ⟨1000⟩⟩, .addOrder ⟨.bid, 4, [], 0, ⟨1001⟩⟩,
          .addOrder ⟨.ask, 7, [], 0, ⟨990⟩⟩, .matchLimitOrders, .matchLimitOrders, .cancelOrder 1] =
      ReferenceBook.machine.outputs (.new 0)
        [.addOrder ⟨.bid, 5, [], 0, ⟨1000⟩⟩, .addOrder ⟨.bid, 4, [], 0, ⟨1001⟩⟩,
          .addOrder ⟨.ask, 7, [], 0, ⟨990⟩⟩, .matchLimitOrders, .matchLimitOrders, .cancelOrder 1] :=
  (refines_referenceBook 0 _ (by decide +kernel) (by decide +kernel)).1

/-! ### When the counter wraps -/

def sampleBid : Order := ⟨.bid, 5, [], 0, ⟨1000⟩⟩

def sampleAsk : Order := ⟨.ask, 5, [], 0, ⟨1000⟩⟩

/-- Add a bid and cancel it, `n` times. -/
def churn : Nat → List Call
  | 0 => []
  | n + 1 => churn n ++ [.addOrder sampleBid, .cancelOrder (UInt64.ofNat (n + 1))]

theorem pushAll_succ (n : Nat) : ObjectPool.pushAll (n + 1) = n :: ObjectPool.pushAll n := rfl

/-- The first three slots that a full pool gives out. -/
theorem pushAll_poolSize : ∃ rest, ObjectPool.pushAll poolSize = 9999 :: 9998 :: 9997 :: rest := by
  have hsize : poolSize = 9997 + 1 + 1 + 1 := rfl
  exact ⟨ObjectPool.pushAll 9997, by rw [hsize, pushAll_succ, pushAll_succ, pushAll_succ]⟩

/-- No order rests, no slot is lost, and `n` ids were issued. -/
structure Blank (e : MatchingEngine) (n : Nat) : Prop where
  wellFormed : WellFormed e.orderBook
  queues : ∀ s l, e.orderBook.queue s l = []
  free : e.orderBook.freeStack = ObjectPool.pushAll poolSize
  counter : e.atomicOrderID = UInt64.ofNat n

theorem Blank.resting {e : MatchingEngine} {n : Nat} (h : Blank e n) (p : Nat) : p ∉ e.orderBook.resting := by
  intro hp
  obtain ⟨s, l, hp⟩ := mem_resting.mp hp
  rw [h.queues] at hp
  exact List.not_mem_nil hp

theorem Blank.run_pair {e : MatchingEngine} {n : Nat} (h : Blank e n) :
    Blank (machine.run e [.addOrder sampleBid, .cancelOrder (UInt64.ofNat (n + 1))]) (n + 1) ∧
      machine.Along Admissible e
        [.addOrder sampleBid, .cancelOrder (UInt64.ofNat (n + 1))] := by
  have hb := h.wellFormed
  obtain ⟨rest, hpool⟩ := pushAll_poolSize
  have hfree := h.free.trans hpool
  have hlevel : levelOf sampleBid.mPrice = some 50 := by decide
  have hid : e.nextId = UInt64.ofNat (n + 1) := by rw [nextId, h.counter, UInt64.ofNat_add]; rfl
  have hadd := next_accepted hb hfree hlevel
  have hb' := wellFormed_next hb (.addOrder sampleBid)
  rw [hadd] at hb'
  have hfind := findOrder_accepted_new hb hfree hlevel
    (fun q hq => absurd (mem_resting.mpr ⟨_, _, hq⟩) (h.resting q))
  have hcancel : (machine.next (e.accepted 9999 sampleBid 50)
      (.cancelOrder (UInt64.ofNat (n + 1)))) = { e.accepted 9999 sampleBid 50 with
        orderBook := (e.accepted 9999 sampleBid 50).orderBook.dequeue sampleBid.bidOrAsk 50 9999 } := by
    rw [← hid]
    exact next_cancel_accepted hb hfree hlevel hfind
  have hp := (findOrder_mem hfind).1
  have hqueue := queue_accepted hb hfree hlevel
  constructor
  · simp only [Machine.run, hadd, hcancel]
    refine ⟨hb'.dequeue hp, fun s l => ?_, ?_, ?_⟩
    · rw [hb'.queue_dequeue hp, hqueue, h.queues]
      split_ifs <;> rfl
    · rw [freeStack_dequeue]
      have htail : (e.accepted 9999 sampleBid 50).orderBook.freeStack =
          9998 :: 9997 :: rest := by simp [accepted, stored, hfree]
      rw [htail, hpool]
    · exact hid
  · refine ⟨⟨by simp [hfree], by decide, by decide, fun p hp => absurd hp (h.resting p)⟩, ?_, trivial⟩
    intro q hq hne
    rw [hadd] at hq hne
    rcases (mem_resting_accepted hb hfree hlevel).mp hq with rfl | hq
    · rw [order_accepted, if_pos rfl] at hne
      exact absurd hid hne
    · exact absurd hq (h.resting q)

theorem reference_churn (n : Nat) : ReferenceBook.machine.run (.new (UInt64.ofNat n))
    [.addOrder sampleBid, .cancelOrder (UInt64.ofNat (n + 1))] = .new (UInt64.ofNat (n + 1)) := by
  have hid : UInt64.ofNat n + 1 = UInt64.ofNat (n + 1) := by rw [UInt64.ofNat_add]; rfl
  have hin : 950 ≤ sampleBid.mPrice.mPriceValueInCent ∧ sampleBid.mPrice.mPriceValueInCent ≤ 1050 := by decide
  simp only [Machine.run, Machine.next, ReferenceBook.machine, ReferenceBook.step, ReferenceBook.addOrder,
    if_pos hin, ReferenceBook.cancelOrder, ReferenceBook.new, hid]
  refine congrArg (fun orders => ReferenceBook.mk orders _) (funext fun s => ?_)
  split_ifs <;> simp

theorem run_churn (n : Nat) : Blank (machine.run (new 101 0) (churn n)) n ∧
    machine.Along Admissible (new 101 0) (churn n) ∧
    ReferenceBook.machine.run (.new 0) (churn n) = .new (UInt64.ofNat n) := by
  induction n with
  | zero =>
    exact ⟨⟨wellFormed_new 0, WellFormed.queue_new 101, rfl, rfl⟩, trivial, rfl⟩
  | succ n ih =>
    obtain ⟨hblank, hrun, href⟩ := ih
    obtain ⟨hblank', hrun'⟩ := hblank.run_pair
    simp only [churn, Machine.run_append, Machine.along_append]
    exact ⟨hblank', ⟨hrun, hrun'⟩, by rw [href, reference_churn]⟩

/-- The orders at the wrap: two bids of ids `2 ^ 64 - 1` and 0, and an ask. -/
def wrapOrders : List Call := [.addOrder sampleBid, .addOrder sampleBid, .addOrder sampleAsk]

section Wrap

variable {e : MatchingEngine} {n : Nat}

/-- The engine after the three orders. -/
def wrapped (e : MatchingEngine) : MatchingEngine :=
  ((e.accepted 9999 sampleBid 50).accepted 9998 sampleBid 50).accepted 9997 sampleAsk 50

theorem nextId_wrapped (h : Blank e n) (hn : UInt64.ofNat n = 18446744073709551614) :
    e.nextId = 18446744073709551615 ∧ (e.accepted 9999 sampleBid 50).nextId = 0 ∧
      ((e.accepted 9999 sampleBid 50).accepted 9998 sampleBid 50).nextId = 1 := by
  simp only [nextId, accepted, stored, h.counter, hn]
  decide

theorem order_wrapped (h : Blank e n) (hn : UInt64.ofNat n = 18446744073709551614) :
    (wrapped e).orderBook.order 9999 = { sampleBid with mOrderID := 18446744073709551615 } ∧
      (wrapped e).orderBook.order 9998 = { sampleBid with mOrderID := 0 } ∧
      (wrapped e).orderBook.order 9997 = { sampleAsk with mOrderID := 1 } := by
  obtain ⟨hid, hid₁, hid₂⟩ := nextId_wrapped h hn
  unfold wrapped
  simp only [order_accepted, hid, hid₁, hid₂]
  simp

theorem Blank.run_wrapped (h : Blank e n) (hn : UInt64.ofNat n = 18446744073709551614) :
    WellFormed (wrapped e).orderBook ∧ machine.run e wrapOrders = wrapped e ∧
      machine.Along Admissible e wrapOrders ∧
      ∀ s l, (wrapped e).orderBook.queue s l =
        if s = .ask ∧ l = 50 then [9997] else if s = .bid ∧ l = 50 then [9999, 9998] else [] := by
  obtain ⟨rest, hpool⟩ := pushAll_poolSize
  obtain ⟨hid, hid₁, hid₂⟩ := nextId_wrapped h hn
  have hlevel : levelOf sampleBid.mPrice = some 50 := by decide
  have hlevel' : levelOf sampleAsk.mPrice = some 50 := by decide
  have hb := h.wellFormed
  have hfree := h.free.trans hpool
  have hb₁ := wellFormed_accepted hb hfree hlevel
  have hfree₁ : (e.accepted 9999 sampleBid 50).orderBook.freeStack = 9998 :: 9997 :: rest := by
    simp [accepted, stored, hfree]
  have hb₂ := wellFormed_accepted hb₁ hfree₁ hlevel
  have hfree₂ : ((e.accepted 9999 sampleBid 50).accepted 9998 sampleBid 50).orderBook.freeStack =
      9997 :: rest := by
    rw [accepted, freeStack_enqueue]
    simp [stored, hfree₁]
  refine ⟨wellFormed_accepted hb₂ hfree₂ hlevel', ?_, ?_, fun s l => ?_⟩
  · simp only [wrapOrders, Machine.run, next_accepted hb hfree hlevel, next_accepted hb₁ hfree₁ hlevel,
      next_accepted hb₂ hfree₂ hlevel']
    rfl
  · simp only [wrapOrders, Machine.Along, next_accepted hb hfree hlevel, next_accepted hb₁ hfree₁ hlevel]
    refine ⟨⟨by simp [hfree], by decide, by decide, fun p hp => absurd hp (h.resting p)⟩,
      ⟨by simp [hfree₁], by decide, by decide, fun p hp => ?_⟩,
      ⟨by simp [hfree₂], by decide, by decide, fun p hp => ?_⟩, trivial⟩
    · rcases (mem_resting_accepted hb hfree hlevel).mp hp with rfl | hp
      · rw [order_accepted, if_pos rfl, hid₁, hid]
        decide
      · exact absurd hp (h.resting p)
    · rw [hid₂, order_accepted]
      rcases (mem_resting_accepted hb₁ hfree₁ hlevel).mp hp with rfl | hp
      · rw [if_pos rfl, hid₁]
        decide
      · rcases (mem_resting_accepted hb hfree hlevel).mp hp with rfl | hp
        · rw [if_neg (by decide), order_accepted, if_pos rfl, hid]
          decide
        · exact absurd hp (h.resting p)
  · rw [wrapped, queue_accepted hb₂ hfree₂ hlevel', queue_accepted hb₁ hfree₁ hlevel,
      queue_accepted hb hfree hlevel, h.queues]
    by_cases hl : l = 50 <;> cases s <;> simp [sampleBid, sampleAsk, hl]

theorem Blank.top_wrapped (h : Blank e n) (hn : UInt64.ofNat n = 18446744073709551614) :
    (wrapped e).orderBook.Top .bid 50 9999 ∧ (wrapped e).orderBook.Top .ask 50 9997 := by
  obtain ⟨-, -, -, hqueue⟩ := h.run_wrapped hn
  have hlevel : ∀ s l, (wrapped e).orderBook.queue s l ≠ [] → l = 50 := by
    intro s l hl
    by_contra hne
    simp [hqueue, hne] at hl
  exact ⟨⟨⟨by simp [hqueue], fun l hl => Nat.le_of_eq (hlevel .bid l hl)⟩, [9998], by simp [hqueue]⟩,
    ⟨⟨by simp [hqueue], fun l hl => Nat.le_of_eq (hlevel .ask l hl).symm⟩, [], by simp [hqueue]⟩⟩

/-- The three ids have different entries. -/
theorem Blank.mapIndex_wrapped (h : Blank e n) (hn : UInt64.ofNat n = 18446744073709551614) {p : Nat}
    (hp : p ∈ (wrapped e).orderBook.resting) :
    (p = 9999 ∧ mapIndex ((wrapped e).orderBook.order p).mOrderID = 1615) ∨
      (p = 9998 ∧ mapIndex ((wrapped e).orderBook.order p).mOrderID = 0) ∨
      (p = 9997 ∧ mapIndex ((wrapped e).orderBook.order p).mOrderID = 1) := by
  obtain ⟨-, -, -, hqueue⟩ := h.run_wrapped hn
  obtain ⟨hbidOrder, hbidOrder', haskOrder⟩ := order_wrapped h hn
  obtain ⟨s, l, hp⟩ := mem_resting.mp hp
  have hslot : p = 9999 ∨ p = 9998 ∨ p = 9997 := by
    rw [hqueue] at hp
    split_ifs at hp <;> simp at hp <;> omega
  rcases hslot with rfl | rfl | rfl
  · exact Or.inl ⟨rfl, by rw [hbidOrder]; decide⟩
  · exact Or.inr (Or.inl ⟨rfl, by rw [hbidOrder']; decide⟩)
  · exact Or.inr (Or.inr ⟨rfl, by rw [haskOrder]; decide⟩)

/-- The engine trades the older bid, the reference book the one with the smaller id. -/
theorem Blank.diverge (h : Blank e n) (hn : UInt64.ofNat n = 18446744073709551614) :
    machine.Along Admissible e (wrapOrders ++ [.matchLimitOrders]) ∧
      observed.outputs e (wrapOrders ++ [.matchLimitOrders]) ≠
        ReferenceBook.machine.outputs (.new (UInt64.ofNat n)) (wrapOrders ++ [.matchLimitOrders]) := by
  obtain ⟨hb, hrun, hadmissible, -⟩ := h.run_wrapped hn
  obtain ⟨hbid, hask⟩ := h.top_wrapped hn
  have hstep := (Effect.traded hbid hask (Nat.le_refl 50)).step_eq hb
  constructor
  · rw [Machine.along_append, hrun]
    refine ⟨hadmissible, ?_, trivial⟩
    intro q hq _ p hp hne
    have hp' := h.mapIndex_wrapped hn hp
    have hq' := h.mapIndex_wrapped hn hq
    omega
  · intro heq
    rw [Machine.outputs_append, Machine.outputs_append] at heq
    have hlast := (List.append_inj heq (by rw [Machine.outputs_length, Machine.outputs_length])).2
    rw [observed, Machine.run_relabel, hrun, hn] at hlast
    have hreference : ReferenceBook.machine.outputs
        (ReferenceBook.machine.run (.new 18446744073709551614) wrapOrders) [.matchLimitOrders] =
        [.matched (.ok (some ⟨0, 1, 5, 1000⟩))] := by decide +kernel
    have hbidId : (((wrapped e).orderBook.settled 50 50 9999 9997).order 9999).mOrderID =
        18446744073709551615 := by
      rw [order_settled, mOrderID_reduced, (order_wrapped h hn).1]
    rw [hreference] at hlast
    have hanswer := (List.cons.inj hlast).1
    change answer (step (wrapped e) .matchLimitOrders).2 (step (wrapped e) .matchLimitOrders).1 = _ at hanswer
    rw [hstep] at hanswer
    simp only [answer, Except.map, Option.map_some, hbidId] at hanswer
    simp at hanswer

end Wrap

/-- **With 2 ^ 64 ids the refinement fails**: after `2 ^ 64 - 2` cancelled bids the two next bids have ids
`2 ^ 64 - 1` and 0, and the engine trades the first where the reference book trades the second. -/
theorem wrapped_counter_reorders :
    machine.Along Admissible (new 101 0) (churn (2 ^ 64 - 2) ++ (wrapOrders ++ [.matchLimitOrders])) ∧
      observed.outputs (new 101 0) (churn (2 ^ 64 - 2) ++ (wrapOrders ++ [.matchLimitOrders])) ≠
        ReferenceBook.machine.outputs (.new 0) (churn (2 ^ 64 - 2) ++ (wrapOrders ++ [.matchLimitOrders])) := by
  have hn : UInt64.ofNat (2 ^ 64 - 2) = 18446744073709551614 := by decide
  generalize 2 ^ 64 - 2 = n at hn ⊢
  obtain ⟨hblank, hrun, href⟩ := run_churn n
  obtain ⟨hrun', hne⟩ := hblank.diverge hn
  refine ⟨(Machine.along_append _ _ _).mpr ⟨hrun, hrun'⟩, fun heq => hne ?_⟩
  rw [Machine.outputs_append (new 101 0), Machine.outputs_append (ReferenceBook.new 0), href] at heq
  have hlast := (List.append_inj heq (by rw [Machine.outputs_length, Machine.outputs_length])).2
  rwa [observed, Machine.run_relabel] at hlast

end MatchingEngine

end TradingSystem
