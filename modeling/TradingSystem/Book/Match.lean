import TradingSystem.Book.Functions

/-!
# One match on a well-formed book

`matchBook` looks at the tops of the two sides. When they cross, both volumes are reduced in place and
each order whose volume then reads 0 as an `int` leaves: `settled` is the book afterwards.
-/

namespace TradingSystem

open Lib Lib.Effects

/-- The volume is all that a reduction changes. -/
theorem Order.reduceVolume_eq (o : Order) (v : UInt64) :
    (o.reduceVolume v).2 = { o with mVolume := (o.reduceVolume v).2.mVolume } := by
  unfold Order.reduceVolume
  split_ifs <;> rfl

@[simp] theorem Order.reduceVolume_bidOrAsk (o : Order) (v : UInt64) :
    (o.reduceVolume v).2.bidOrAsk = o.bidOrAsk := by rw [Order.reduceVolume_eq]

@[simp] theorem Order.reduceVolume_mOrderID (o : Order) (v : UInt64) :
    (o.reduceVolume v).2.mOrderID = o.mOrderID := by rw [Order.reduceVolume_eq]

@[simp] theorem Order.reduceVolume_mPrice (o : Order) (v : UInt64) :
    (o.reduceVolume v).2.mPrice = o.mPrice := by rw [Order.reduceVolume_eq]

namespace OrderBook

/-- Order `p` is the first in the best queue of side `s`, at level `l`. -/
def Top (b : OrderBook) (s : Side) (l p : Nat) : Prop :=
  IsBest b s l ∧ ∃ rest, b.queue s l = p :: rest

theorem Top.mem {b : OrderBook} {s : Side} {l p : Nat} (h : b.Top s l p) : p ∈ b.queue s l := by
  obtain ⟨-, rest, hq⟩ := h
  rw [hq]
  exact List.mem_cons_self

theorem Top.resting {b : OrderBook} {s : Side} {l p : Nat} (h : b.Top s l p) : p ∈ b.resting :=
  mem_resting.mpr ⟨s, l, h.mem⟩

theorem Top.congr {b b' : OrderBook} {s : Side} {l p : Nat} (h : b.Top s l p)
    (hq : ∀ l', b'.queue s l' = b.queue s l') : b'.Top s l p :=
  ⟨h.1.congr hq, by rw [hq]; exact h.2⟩

theorem Top.unique {b : OrderBook} {s : Side} {l l' p p' : Nat} (h : b.Top s l p) (h' : b.Top s l' p') :
    l = l' ∧ p = p' := by
  have hl := h.1.unique h'.1
  subst hl
  obtain ⟨-, rest, hq⟩ := h
  obtain ⟨-, rest', hq'⟩ := h'
  exact ⟨rfl, (List.cons.inj (hq.symm.trans hq')).1⟩

/-- A side is empty or has a top. -/
theorem top_or_empty {b : OrderBook} (hb : WellFormed b) (s : Side) :
    (∀ l, b.queue s l = []) ∨ ∃ l p, b.Top s l p := by
  rcases findBestLevel_spec hb s with ⟨-, hempty⟩ | ⟨l, -, hbest⟩
  · exact Or.inl hempty
  · obtain ⟨p, rest, hq⟩ := List.exists_cons_of_ne_nil hbest.1
    exact Or.inr ⟨l, p, hbest, rest, hq⟩

/-- The search finds the top, when its queue has a front. -/
theorem top_of_findBestLevel {b : OrderBook} (hb : WellFormed b) {s : Side} {l p : Nat}
    (hl : b.findBestLevel s = l) (hq : (b.queue s l).head? = some p) : b.Top s l p := by
  obtain ⟨rest, hq⟩ := List.head?_eq_some_iff.mp hq
  rcases findBestLevel_spec hb s with ⟨hnone, -⟩ | ⟨l', hl', hbest⟩
  · rw [hnone] at hl
    omega
  · have hll : l' = l := by omega
    subst hll
    exact ⟨hbest, rest, hq⟩

theorem Top.ne {b : OrderBook} (hb : WellFormed b) {l l' p p' : Nat} (h : b.Top .bid l p)
    (h' : b.Top .ask l' p') : p ≠ p' := by
  rintro rfl
  exact absurd (hb.queue_unique h.mem h'.mem).1 (by decide)

/-! ### The book after a trade -/

def tradeVolume (b : OrderBook) (bid ask : Nat) : UInt64 :=
  widen (min (b.order ask).getVolume (b.order bid).getVolume)

/-- Both volumes reduced, the ask's first. -/
def reduced (b : OrderBook) (bid ask : Nat) : OrderBook :=
  (b.setOrder ask ((b.order ask).reduceVolume (b.tradeVolume bid ask)).2).setOrder bid
    (((b.setOrder ask ((b.order ask).reduceVolume (b.tradeVolume bid ask)).2).order bid).reduceVolume
      (b.tradeVolume bid ask)).2

/-- The order leaves if its volume reads 0 as an `int`. -/
def dropFilled (b : OrderBook) (s : Side) (l p : Nat) : OrderBook :=
  if (b.order p).getVolume = 0 then b.dequeue s l p else b

def settled (b : OrderBook) (lb la bid ask : Nat) : OrderBook :=
  ((b.reduced bid ask).dropFilled .ask la ask).dropFilled .bid lb bid

@[simp] theorem queue_reduced (b : OrderBook) (bid ask : Nat) (s : Side) (l : Nat) :
    (b.reduced bid ask).queue s l = b.queue s l := by simp [reduced]

@[simp] theorem mapping_reduced (b : OrderBook) (bid ask : Nat) :
    (b.reduced bid ask).orderIdtoPriceMapping = b.orderIdtoPriceMapping := rfl

/-- The two orders are distinct, so each is reduced once. -/
theorem order_reduced {b : OrderBook} {bid ask : Nat} (hne : bid ≠ ask) (q : Nat) :
    (b.reduced bid ask).order q =
      if q = bid ∨ q = ask then ((b.order q).reduceVolume (b.tradeVolume bid ask)).2 else b.order q := by
  unfold reduced
  simp only [order_setOrder, if_neg hne]
  by_cases hbid : q = bid
  · simp [hbid]
  · by_cases hask : q = ask
    · simp [hask, Ne.symm hne]
    · simp [hbid, hask]

/-- A reduction changes nothing but volumes. -/
theorem order_reduced_eq (b : OrderBook) (bid ask q : Nat) :
    (b.reduced bid ask).order q = { b.order q with mVolume := ((b.reduced bid ask).order q).mVolume } := by
  have hset : ∀ (b : OrderBook) (p : Nat) (v : UInt64), (b.setOrder p ((b.order p).reduceVolume v).2).order q =
      { b.order q with mVolume := ((b.setOrder p ((b.order p).reduceVolume v).2).order q).mVolume } := by
    intro b p v
    rw [order_setOrder]
    split_ifs with hq
    · rw [hq]
      exact Order.reduceVolume_eq _ _
    · rfl
  unfold reduced
  rw [hset, hset b]

theorem wellFormed_reduced {b : OrderBook} (hb : WellFormed b) (bid ask : Nat) :
    WellFormed (b.reduced bid ask) := by
  refine WellFormed.setOrder (hb.setOrder fun _ => ?_) fun _ => ?_
  · simp
  · simp

theorem wellFormed_dropFilled {b : OrderBook} (hb : WellFormed b) {s : Side} {l p : Nat}
    (hp : p ∈ b.queue s l) : WellFormed (b.dropFilled s l p) := by
  unfold dropFilled
  split_ifs
  · exact hb.dequeue hp
  · exact hb

/-- An order of the other side does not notice. -/
theorem queue_dropFilled_ne {b : OrderBook} (hb : WellFormed b) {s s' : Side} {l p : Nat}
    (hp : p ∈ b.queue s l) (hne : s' ≠ s) (l' : Nat) : (b.dropFilled s l p).queue s' l' = b.queue s' l' := by
  unfold dropFilled
  split_ifs
  · rw [queue_dequeue (hb.level_lt_size (hb.level_lt hp) s), if_neg fun h => hne h.1]
  · rfl

@[simp] theorem order_dropFilled (b : OrderBook) (s : Side) (l p q : Nat) :
    (b.dropFilled s l p).order q = b.order q := by
  unfold dropFilled
  split_ifs <;> simp

section Crossing

variable {b : OrderBook} {lb la bid ask : Nat}

theorem Top.reduced {s : Side} {l p : Nat} (h : b.Top s l p) (bid ask : Nat) : (b.reduced bid ask).Top s l p :=
  h.congr fun l' => queue_reduced b bid ask s l'

/-- The bid still heads its side when the ask has left. -/
theorem Top.dropAsk (hb : WellFormed b) (hbid : b.Top .bid lb bid) (hask : b.Top .ask la ask) :
    (b.dropFilled .ask la ask).Top .bid lb bid :=
  hbid.congr fun l' => queue_dropFilled_ne hb hask.mem (by decide) l'

/-- What the reductions and each removal keep, a trade keeps. -/
theorem settled_keeps {I : OrderBook → Prop} (hb : WellFormed b) (hbid : b.Top .bid lb bid)
    (hask : b.Top .ask la ask) (hreduced : I (b.reduced bid ask))
    (hdequeue : ∀ b' s l p, WellFormed b' → I b' → p ∈ b'.queue s l → (b'.order p).getVolume = 0 →
      I (b'.dequeue s l p)) : I (b.settled lb la bid ask) := by
  have hwf := wellFormed_reduced hb bid ask
  have hdrop : ∀ b' s l p, WellFormed b' → I b' → p ∈ b'.queue s l → I (b'.dropFilled s l p) := by
    intro b' s l p hb' hI hp
    unfold dropFilled
    split_ifs with hv
    · exact hdequeue b' s l p hb' hI hp hv
    · exact hI
  have hask' := (hask.reduced bid ask).mem
  have hbid' := ((hbid.reduced bid ask).dropAsk hwf (hask.reduced bid ask)).mem
  exact hdrop _ _ _ _ (wellFormed_dropFilled hwf hask')
    (hdrop _ _ _ _ hwf hreduced hask') hbid'

theorem wellFormed_settled (hb : WellFormed b) (hbid : b.Top .bid lb bid) (hask : b.Top .ask la ask) :
    WellFormed (b.settled lb la bid ask) :=
  settled_keeps hb hbid hask (wellFormed_reduced hb bid ask) fun _ _ _ _ hb' _ hp _ => hb'.dequeue hp

/-! ### What a trade leaves -/

/-- Order `q` is one of the two and its volume reads 0 after the reduction. -/
def Filled (b : OrderBook) (bid ask q : Nat) : Prop :=
  (q = bid ∨ q = ask) ∧ ((b.reduced bid ask).order q).getVolume = 0

instance (b : OrderBook) (bid ask : Nat) : DecidablePred (b.Filled bid ask) := fun _ =>
  inferInstanceAs (Decidable (_ ∧ _))

theorem queue_dropFilled (hb : WellFormed b) {s : Side} {l p : Nat} (hp : p ∈ b.queue s l) (s' : Side)
    (l' : Nat) : (b.dropFilled s l p).queue s' l' =
      (b.queue s' l').filter fun q => ¬ (q = p ∧ (b.order q).getVolume = 0) := by
  unfold dropFilled
  split_ifs with hv
  · rw [hb.queue_dequeue hp, (hb.queue_nodup s' l').erase_eq_filter]
    apply List.filter_congr
    intro q _
    by_cases hq : q = p
    · simp [hq, hv]
    · simp [hq]
  · symm
    rw [List.filter_eq_self]
    intro q _
    simp only [decide_eq_true_eq]
    rintro ⟨rfl, hq⟩
    exact hv hq

/-- A trade removes the filled orders from the queues and nothing else. -/
theorem queue_settled (hb : WellFormed b) (hbid : b.Top .bid lb bid) (hask : b.Top .ask la ask) (s : Side)
    (l : Nat) : (b.settled lb la bid ask).queue s l = (b.queue s l).filter fun q => ¬ b.Filled bid ask q := by
  have hwf := wellFormed_reduced hb bid ask
  have hask' := hask.reduced bid ask
  have hbid' := (hbid.reduced bid ask).dropAsk hwf hask'
  rw [settled, queue_dropFilled (wellFormed_dropFilled hwf hask'.mem) hbid'.mem,
    queue_dropFilled hwf hask'.mem, queue_reduced, List.filter_filter]
  apply List.filter_congr
  intro q _
  rw [← Bool.decide_and, decide_eq_decide, order_dropFilled, Filled]
  grind

theorem mem_queue_settled (hb : WellFormed b) (hbid : b.Top .bid lb bid) (hask : b.Top .ask la ask)
    {s : Side} {l q : Nat} :
    q ∈ (b.settled lb la bid ask).queue s l ↔ q ∈ b.queue s l ∧ ¬ b.Filled bid ask q := by
  rw [queue_settled hb hbid hask, List.mem_filter, decide_eq_true_eq]

theorem mem_resting_settled (hb : WellFormed b) (hbid : b.Top .bid lb bid) (hask : b.Top .ask la ask)
    {q : Nat} : q ∈ (b.settled lb la bid ask).resting ↔ q ∈ b.resting ∧ ¬ b.Filled bid ask q := by
  apply mem_resting_of_queue
  exact fun s l q => mem_queue_settled hb hbid hask

theorem mapping_dropFilled (b : OrderBook) (s : Side) (l p i : Nat) :
    (b.dropFilled s l p).orderIdtoPriceMapping i =
      if (b.order p).getVolume = 0 ∧ i = mapIndex (b.order p).mOrderID then .empty
      else b.orderIdtoPriceMapping i := by
  unfold dropFilled
  split_ifs with hv h h
  · rw [mapping_dequeue, if_pos h.2]
  · rw [mapping_dequeue, if_neg fun hi => h ⟨hv, hi⟩]
  · exact absurd h.1 hv
  · rfl

theorem mOrderID_reduced (b : OrderBook) (bid ask q : Nat) :
    ((b.reduced bid ask).order q).mOrderID = (b.order q).mOrderID := by
  rw [order_reduced_eq]

/-- The entries of the filled orders are reset, and no others. -/
theorem mapping_settled (b : OrderBook) (lb la bid ask i : Nat) :
    ((∃ q, b.Filled bid ask q ∧ mapIndex (b.order q).mOrderID = i) ∧
        (b.settled lb la bid ask).orderIdtoPriceMapping i = .empty) ∨
      ((∀ q, b.Filled bid ask q → mapIndex (b.order q).mOrderID ≠ i) ∧
        (b.settled lb la bid ask).orderIdtoPriceMapping i = b.orderIdtoPriceMapping i) := by
  simp only [settled, mapping_dropFilled, order_dropFilled, mOrderID_reduced, mapping_reduced]
  split_ifs with hbid hask
  · exact Or.inl ⟨⟨bid, ⟨Or.inl rfl, hbid.1⟩, hbid.2.symm⟩, rfl⟩
  · exact Or.inl ⟨⟨ask, ⟨Or.inr rfl, hask.1⟩, hask.2.symm⟩, rfl⟩
  · refine Or.inr ⟨?_, rfl⟩
    rintro q ⟨rfl | rfl, hv⟩ hi
    · exact hbid ⟨hv, hi.symm⟩
    · exact hask ⟨hv, hi.symm⟩

@[simp] theorem order_settled (b : OrderBook) (lb la bid ask q : Nat) :
    (b.settled lb la bid ask).order q = (b.reduced bid ask).order q := by simp [settled]

/-! ### `matchLimitOrders` on the book -/

open MatchingEngine

theorem getBest_top (hb : WellFormed b) {s : Side} {l p : Nat} (h : b.Top s l p) (noOrders : String) :
    getBest s noOrders b = .ok p b := by
  obtain ⟨hbest, rest, hq⟩ := h
  exact getBest_front hb hbest hq noOrders

theorem getBestBid_top (hb : WellFormed b) (h : b.Top .bid lb bid) : getBestBid b = .ok bid b :=
  getBest_top hb h _

theorem getBestAsk_top (hb : WellFormed b) (h : b.Top .ask la ask) : getBestAsk b = .ok ask b :=
  getBest_top hb h _

/-- What `getBest` returns heads its side. -/
theorem getBest_ok {b' : OrderBook} (hb : WellFormed b) {s : Side} {noOrders : String} {p : Nat}
    (h : getBest s noOrders b = .ok p b') : ∃ l, b.Top s l p := by
  rcases top_or_empty hb s with hnone | ⟨l, p', htop⟩
  · rw [getBest_empty hb hnone] at h
    cases h
  · rw [getBest_top hb htop] at h
    cases h
    exact ⟨l, htop⟩

theorem remove_top (hb : WellFormed b) {s : Side} {l p : Nat} (h : b.Top s l p) (mismatch : String) :
    remove s mismatch (b.order p).mOrderID b = .ok () (b.dequeue s l p) := by
  obtain ⟨hbest, rest, hq⟩ := h
  exact remove_run hb hbest hq mismatch

theorem fillOrders_run (b : OrderBook) (bid ask : Nat) (price : UInt64) :
    fillOrders bid ask price b = .ok ⟨bid, ask, b.tradeVolume bid ask, price⟩ (b.reduced bid ask) := rfl

theorem removeFilledAsk_run (hb : WellFormed b) (h : b.Top .ask la ask) :
    removeFilledAsk ask b = .ok () (b.dropFilled .ask la ask) := by
  rw [removeFilledAsk, deref_bind, dropFilled]
  split_ifs
  · exact remove_top hb h _
  · rfl

theorem removeFilledBid_run (hb : WellFormed b) (h : b.Top .bid lb bid) :
    removeFilledBid bid b = .ok () (b.dropFilled .bid lb bid) := by
  rw [removeFilledBid, deref_bind, dropFilled]
  split_ifs
  · exact remove_top hb h _
  · rfl

theorem price_top (hb : WellFormed b) {s : Side} {l p : Nat} (h : b.Top s l p) :
    (b.order p).getPrice.getPriceInTicks = 950 + l :=
  getPriceInTicks_of_levelOf (hb.filed s l p h.mem).2

theorem widen_price_le {l l' : Nat} (hl : l < 101) (hl' : l' < 101) :
    widen (950 + (l : Int)) ≤ widen (950 + (l' : Int)) ↔ l ≤ l' := by
  rw [UInt64.le_iff_toNat_le, toNat_widen, toNat_widen]
  omega

theorem matchBook_empty (hb : WellFormed b) {s : Side} (h : ∀ l, b.queue s l = []) :
    matchBook b = .ok none b := by
  rcases top_or_empty hb .ask with hnone | ⟨la, ask, hask⟩
  · have hthrow : getBestAsk b = .error (.runtimeError "No Asks in the OrderBook") b :=
      getBest_empty hb hnone _
    rw [matchBook, tryCatch_error (bind_error hthrow _)]
    rfl
  · cases s with
    | bid =>
      have hthrow : getBestBid b = .error (.runtimeError "No bids in the OrderBook!") b :=
        getBest_empty hb h _
      rw [matchBook, tryCatch_error ((bind_ok (getBestAsk_top hb hask) _).trans (bind_error hthrow _))]
      rfl
    | ask => exact absurd (h la) hask.1.1

theorem matchBook_uncrossed (hb : WellFormed b) (hbid : b.Top .bid lb bid) (hask : b.Top .ask la ask)
    (hlt : lb < la) : matchBook b = .ok none b := by
  have hle : ¬ widen (950 + (lb : Int)) ≥ widen (950 + (la : Int)) := by
    rw [ge_iff_le, widen_price_le (hask.1.lt hb) (hbid.1.lt hb)]
    omega
  apply tryCatch_ok
  rw [bind_ok (getBestAsk_top hb hask), bind_ok (getBestBid_top hb hbid), deref_bind, deref_bind,
    price_top hb hbid, price_top hb hask]
  simp only [if_neg hle]
  rfl

theorem matchBook_crossed (hb : WellFormed b) (hbid : b.Top .bid lb bid) (hask : b.Top .ask la ask)
    (hle : la ≤ lb) : matchBook b =
      .ok (some ⟨bid, ask, b.tradeVolume bid ask, widen (950 + la)⟩) (b.settled lb la bid ask) := by
  have hle' : widen (950 + (lb : Int)) ≥ widen (950 + (la : Int)) :=
    (widen_price_le (hask.1.lt hb) (hbid.1.lt hb)).mpr hle
  have hwf := wellFormed_reduced hb bid ask
  have hask' := hask.reduced bid ask
  have hbid' := (hbid.reduced bid ask).dropAsk hwf hask'
  apply tryCatch_ok
  rw [bind_ok (getBestAsk_top hb hask), bind_ok (getBestBid_top hb hbid), deref_bind, deref_bind,
    price_top hb hbid, price_top hb hask]
  simp only [if_pos hle']
  rw [bind_ok (fillOrders_run b bid ask _), bind_ok (removeFilledAsk_run hwf hask'),
    bind_ok (removeFilledBid_run (wellFormed_dropFilled hwf hask'.mem) hbid')]
  rfl

end Crossing

end OrderBook

end TradingSystem
