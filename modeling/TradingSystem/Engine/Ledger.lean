import TradingSystem.Engine.Conversions

/-!
# The volume ledger

Slots are reused and ids may collide, so an order is known here by its number: the how-many-th accepted
order it is. `Ledger` is a history kept beside the engine, written by `record` from what each call
returned and removed; the engine does not read it. For volumes that are positive `int`s, the volume an
order was submitted with is what it traded, plus what it has while it rests, plus what it had when it was
cancelled.
-/

namespace TradingSystem

open Lib OrderBook

structure Ledger where
  /-- The number of the order last written to a slot. -/
  owner : Nat → Nat
  /-- The accepted orders by number, as they were submitted and with the id they got. -/
  accepted : List Order
  /-- Bid, ask and volume of every trade. -/
  trades : List (Nat × Nat × Nat)
  /-- Every order taken out by a cancel, with the volume it had then. -/
  cancels : List (Nat × Nat)

namespace Ledger

def empty : Ledger := ⟨fun _ => 0, [], [], []⟩

/-- The volume of all trades in which order `k` was the bid or the ask. -/
def traded (L : Ledger) (k : Nat) : Nat :=
  (L.trades.map fun t => if t.1 = k ∨ t.2.1 = k then t.2.2 else 0).sum

/-- The volume order `k` had when it was cancelled, if it was. -/
def cancelled (L : Ledger) (k : Nat) : Nat := (L.cancels.map fun c => if c.1 = k then c.2 else 0).sum

/-- The volume order `k` still has, if it rests. -/
def remaining (L : Ledger) (b : OrderBook) (k : Nat) : Nat :=
  match b.resting.find? fun p => L.owner p = k with
  | some p => (b.order p).mVolume.toNat
  | none => 0

/-- The order accepted in slot `p`. -/
def accept (L : Ledger) (p : Nat) (o : Order) : Ledger where
  owner := fun q => if q = p then L.accepted.length else L.owner q
  accepted := L.accepted ++ [o]
  trades := L.trades
  cancels := L.cancels

def trade (L : Ledger) (t : Trade) : Ledger :=
  { L with trades := (L.owner t.mBidOrder, L.owner t.mAskOrder, t.mTradeVolume.toNat) :: L.trades }

/-- The orders of `gone` taken out by a cancel. -/
def cancel (L : Ledger) (b : OrderBook) (gone : List Nat) : Ledger :=
  { L with cancels := gone.map (fun p => (L.owner p, (b.order p).mVolume.toNat)) ++ L.cancels }

/-- What a call with reply `r` adds to the history, the engine being `e` before it and `e'` after it. -/
def record (L : Ledger) (e e' : MatchingEngine) : MatchingEngine.Call → MatchingEngine.Reply → Ledger
  | .addOrder o, .added (.ok k) => L.accept (e.orderBook.freeStack.headD 0) { o with mOrderID := k }
  | .matchLimitOrders, .matched (.ok (some t)) => L.trade t
  | .cancelOrder _, _ =>
    L.cancel e.orderBook (e.orderBook.resting.filter fun p => p ∉ e'.orderBook.resting)
  | _, _ => L

theorem owner_accept (L : Ledger) (p : Nat) (o : Order) (q : Nat) :
    (L.accept p o).owner q = if q = p then L.accepted.length else L.owner q := rfl

theorem length_accept (L : Ledger) (p : Nat) (o : Order) :
    (L.accept p o).accepted.length = L.accepted.length + 1 := List.length_append

/-- The new order has the next number. -/
theorem accepted_accept_new (L : Ledger) (p : Nat) (o : Order) :
    (L.accept p o).accepted[L.accepted.length]? = some o := List.getElem?_concat_length

theorem accepted_accept_old (L : Ledger) (p : Nat) (o : Order) {k : Nat} (hk : k < L.accepted.length) :
    (L.accept p o).accepted[k]? = L.accepted[k]? := List.getElem?_append_left hk

@[simp] theorem traded_accept (L : Ledger) (p : Nat) (o : Order) (k : Nat) :
    (L.accept p o).traded k = L.traded k := rfl

@[simp] theorem cancelled_accept (L : Ledger) (p : Nat) (o : Order) (k : Nat) :
    (L.accept p o).cancelled k = L.cancelled k := rfl

theorem traded_trade (L : Ledger) (t : Trade) (k : Nat) : (L.trade t).traded k =
    (if L.owner t.mBidOrder = k ∨ L.owner t.mAskOrder = k then t.mTradeVolume.toNat else 0) + L.traded k := by
  simp [traded, trade]

@[simp] theorem cancelled_trade (L : Ledger) (t : Trade) (k : Nat) :
    (L.trade t).cancelled k = L.cancelled k := rfl

@[simp] theorem traded_cancel (L : Ledger) (b : OrderBook) (gone : List Nat) (k : Nat) :
    (L.cancel b gone).traded k = L.traded k := rfl

@[simp] theorem cancel_nil (L : Ledger) (b : OrderBook) : L.cancel b [] = L := rfl

theorem cancelled_cancel (L : Ledger) (b : OrderBook) (p k : Nat) : (L.cancel b [p]).cancelled k =
    (if L.owner p = k then (b.order p).mVolume.toNat else 0) + L.cancelled k := by
  simp [cancelled, cancel]

/-- An order nobody has heard of yet has no history. -/
theorem traded_eq_zero {L : Ledger} {k : Nat} (h : ∀ t ∈ L.trades, t.1 ≠ k ∧ t.2.1 ≠ k) : L.traded k = 0 := by
  rw [traded, List.sum_eq_zero_iff_forall_eq_nat]
  intro v hv
  obtain ⟨t, ht, rfl⟩ := List.mem_map.mp hv
  rw [if_neg]
  rintro (hbid | hask)
  · exact (h t ht).1 hbid
  · exact (h t ht).2 hask

theorem cancelled_eq_zero {L : Ledger} {k : Nat} (h : ∀ c ∈ L.cancels, c.1 ≠ k) : L.cancelled k = 0 := by
  rw [cancelled, List.sum_eq_zero_iff_forall_eq_nat]
  intro v hv
  obtain ⟨c, hc, rfl⟩ := List.mem_map.mp hv
  exact if_neg (h c hc)

end Ledger

/-- The range of the volumes that the order generators of the repository submit. -/
def IntVolume (v : UInt64) : Prop := 1 ≤ v.toNat ∧ v.toNat < 2 ^ 31

instance (v : UInt64) : Decidable (IntVolume v) := inferInstanceAs (Decidable (_ ∧ _))

/-- The books balance: every number in the history is that of an accepted order, a resting order is the
accepted one but for its volume, and both resting and departed orders account for their volume. -/
structure Balanced (b : OrderBook) (L : Ledger) : Prop where
  wellFormed : WellFormed b
  trades_known : ∀ t ∈ L.trades, t.1 < L.accepted.length ∧ t.2.1 < L.accepted.length
  cancels_known : ∀ c ∈ L.cancels, c.1 < L.accepted.length
  injective : ∀ p ∈ b.resting, ∀ q ∈ b.resting, L.owner p = L.owner q → p = q
  owned : ∀ p ∈ b.resting, ∃ o, L.accepted[L.owner p]? = some o ∧
    b.order p = { o with mVolume := (b.order p).mVolume }
  accepted_int : ∀ o ∈ L.accepted, IntVolume o.mVolume
  open_positive : ∀ p ∈ b.resting, 1 ≤ (b.order p).mVolume.toNat
  open_balance : ∀ p ∈ b.resting, ∀ o, L.accepted[L.owner p]? = some o →
    o.mVolume.toNat = L.traded (L.owner p) + (b.order p).mVolume.toNat ∧ L.cancelled (L.owner p) = 0
  closed_balance : ∀ k o, L.accepted[k]? = some o → (∀ p ∈ b.resting, L.owner p ≠ k) →
    o.mVolume.toNat = L.traded k + L.cancelled k

namespace Balanced

variable {b : OrderBook} {L : Ledger}

theorem owner_lt (h : Balanced b L) {p : Nat} (hp : p ∈ b.resting) : L.owner p < L.accepted.length := by
  obtain ⟨o, ho, -⟩ := h.owned p hp
  exact (List.getElem?_eq_some_iff.mp ho).1

theorem intVolume (h : Balanced b L) {p : Nat} (hp : p ∈ b.resting) : IntVolume (b.order p).mVolume := by
  obtain ⟨o, ho, -⟩ := h.owned p hp
  have hint := h.accepted_int o (List.mem_of_getElem? ho)
  have hsum := (h.open_balance p hp o ho).1
  have hpos := h.open_positive p hp
  unfold IntVolume at hint ⊢
  omega

/-- A change of the book that keeps the resting orders keeps the balance. -/
theorem congr (h : Balanced b L) {b' : OrderBook} (hb' : WellFormed b')
    (hresting : ∀ p, p ∈ b'.resting ↔ p ∈ b.resting) (horder : ∀ p ∈ b.resting, b'.order p = b.order p) :
    Balanced b' L := by
  refine ⟨hb', h.trades_known, h.cancels_known, ?_, ?_, h.accepted_int, ?_, ?_, ?_⟩
  · intro p hp q hq
    exact h.injective p ((hresting p).mp hp) q ((hresting q).mp hq)
  · intro p hp
    have hp := (hresting p).mp hp
    rw [horder p hp]
    exact h.owned p hp
  · intro p hp
    have hp := (hresting p).mp hp
    rw [horder p hp]
    exact h.open_positive p hp
  · intro p hp
    have hp := (hresting p).mp hp
    rw [horder p hp]
    exact h.open_balance p hp
  · intro k o ho hno
    exact h.closed_balance k o ho fun p hp => hno p ((hresting p).mpr hp)

/-- An accepted order opens a new account. -/
theorem accept (h : Balanced b L) {b' : OrderBook} (hb' : WellFormed b') {p : Nat} {o : Order}
    (hint : IntVolume o.mVolume) (hfresh : p ∉ b.resting)
    (hresting : ∀ q, q ∈ b'.resting ↔ q = p ∨ q ∈ b.resting) (horder : b'.order p = o)
    (hkeep : ∀ q ∈ b.resting, b'.order q = b.order q) : Balanced b' (L.accept p o) := by
  have howner : ∀ q ∈ b.resting, (L.accept p o).owner q = L.owner q := by
    intro q hq
    rw [L.owner_accept, if_neg]
    rintro rfl
    exact hfresh hq
  have hself : (L.accept p o).owner p = L.accepted.length := by rw [L.owner_accept, if_pos rfl]
  have hlength := L.length_accept p o
  have hnew := L.accepted_accept_new p o
  have hold : ∀ q ∈ b.resting, (L.accept p o).accepted[L.owner q]? = L.accepted[L.owner q]? := fun q hq =>
    L.accepted_accept_old p o (h.owner_lt hq)
  have htraded : L.traded L.accepted.length = 0 :=
    L.traded_eq_zero fun t ht => ⟨(h.trades_known t ht).1.ne, (h.trades_known t ht).2.ne⟩
  have hcancelled : L.cancelled L.accepted.length = 0 :=
    L.cancelled_eq_zero fun c hc => (h.cancels_known c hc).ne
  constructor
  · exact hb'
  · intro t ht
    have := h.trades_known t ht
    omega
  · intro c hc
    have := h.cancels_known c hc
    omega
  · intro q hq q' hq' heq
    rcases (hresting q).mp hq with rfl | hq
    · rcases (hresting q').mp hq' with rfl | hq'
      · rfl
      · rw [hself, howner q' hq'] at heq
        exact absurd heq (h.owner_lt hq').ne'
    · rcases (hresting q').mp hq' with rfl | hq'
      · rw [hself, howner q hq] at heq
        exact absurd heq (h.owner_lt hq).ne
      · rw [howner q hq, howner q' hq'] at heq
        exact h.injective q hq q' hq' heq
  · intro q hq
    rcases (hresting q).mp hq with rfl | hq
    · rw [hself]
      exact ⟨o, hnew, by rw [horder]⟩
    · rw [howner q hq, hold q hq, hkeep q hq]
      exact h.owned q hq
  · intro o' ho'
    rcases List.mem_append.mp ho' with ho' | ho'
    · exact h.accepted_int o' ho'
    · rw [List.mem_singleton.mp ho']
      exact hint
  · intro q hq
    rcases (hresting q).mp hq with rfl | hq
    · rw [horder]
      exact hint.1
    · rw [hkeep q hq]
      exact h.open_positive q hq
  · intro q hq o' ho'
    rcases (hresting q).mp hq with rfl | hq
    · rw [hself, hnew] at ho'
      cases ho'
      rw [hself, Ledger.traded_accept, Ledger.cancelled_accept, htraded, hcancelled, horder]
      omega
    · rw [howner q hq, hold q hq] at ho'
      rw [howner q hq, hkeep q hq]
      exact h.open_balance q hq o' ho'
  · intro k o' ho' hno
    have hk := (List.getElem?_eq_some_iff.mp ho').1
    have hne : k ≠ L.accepted.length := fun hk => hno p ((hresting p).mpr (Or.inl rfl)) (hself.trans hk.symm)
    rw [L.accepted_accept_old p o (by omega)] at ho'
    refine h.closed_balance k o' ho' fun q hq => ?_
    rw [← howner q hq]
    exact hno q ((hresting q).mpr (Or.inr hq))

/-- A cancelled order closes its account with what it had. -/
theorem cancel (h : Balanced b L) {b' : OrderBook} (hb' : WellFormed b') {p : Nat} (hp : p ∈ b.resting)
    (hresting : ∀ q, q ∈ b'.resting ↔ q ∈ b.resting ∧ q ≠ p) (horder : ∀ q, b'.order q = b.order q) :
    Balanced b' (L.cancel b [p]) := by
  have howner : ∀ q ∈ b'.resting, L.owner p ≠ L.owner q := by
    intro q hq heq
    obtain ⟨hq, hne⟩ := (hresting q).mp hq
    exact hne (h.injective p hp q hq heq).symm
  constructor
  · exact hb'
  · exact h.trades_known
  · intro c hc
    rcases List.mem_cons.mp hc with rfl | hc
    · exact h.owner_lt hp
    · exact h.cancels_known c hc
  · intro q hq q' hq'
    exact h.injective q ((hresting q).mp hq).1 q' ((hresting q').mp hq').1
  · intro q hq
    rw [horder]
    exact h.owned q ((hresting q).mp hq).1
  · exact h.accepted_int
  · intro q hq
    rw [horder]
    exact h.open_positive q ((hresting q).mp hq).1
  · intro q hq o ho
    obtain ⟨hsum, hzero⟩ := h.open_balance q ((hresting q).mp hq).1 o ho
    have hcancelled := L.cancelled_cancel b p (L.owner q)
    rw [if_neg (howner q hq)] at hcancelled
    rw [horder]
    exact ⟨hsum, by rw [← hzero, ← Nat.zero_add (L.cancelled _)]; exact hcancelled⟩
  · intro k o ho hno
    have hcancelled := L.cancelled_cancel b p k
    rw [Ledger.traded_cancel, hcancelled]
    by_cases hk : L.owner p = k
    · obtain ⟨hsum, hzero⟩ := h.open_balance p hp o (hk ▸ ho)
      rw [if_pos hk, ← hk, hzero]
      omega
    · rw [if_neg hk, Nat.zero_add]
      refine h.closed_balance k o ho fun q hq => ?_
      by_cases hqp : q = p
      · rw [hqp]
        exact hk
      · exact hno q ((hresting q).mpr ⟨hq, hqp⟩)

/-- A trade moves its volume from both accounts, and closes those it leaves empty. -/
theorem trade (h : Balanced b L) {b' : OrderBook} (hb' : WellFormed b') {t : Trade}
    (hbid : t.mBidOrder ∈ b.resting) (hask : t.mAskOrder ∈ b.resting)
    (hresting : ∀ q, q ∈ b'.resting ↔ q ∈ b.resting ∧ (b'.order q).mVolume.toNat ≠ 0)
    (horder : ∀ q ∈ b.resting, b'.order q = { b.order q with mVolume := (b'.order q).mVolume })
    (hvolume : ∀ q ∈ b.resting, (b.order q).mVolume.toNat = (b'.order q).mVolume.toNat +
      if q = t.mBidOrder ∨ q = t.mAskOrder then t.mTradeVolume.toNat else 0) :
    Balanced b' (L.trade t) := by
  have htraded : ∀ q ∈ b.resting, (L.trade t).traded (L.owner q) =
      (if q = t.mBidOrder ∨ q = t.mAskOrder then t.mTradeVolume.toNat else 0) + L.traded (L.owner q) := by
    intro q hq
    have howners : (L.owner t.mBidOrder = L.owner q ∨ L.owner t.mAskOrder = L.owner q) ↔
        (q = t.mBidOrder ∨ q = t.mAskOrder) := by
      constructor
      · rintro (heq | heq)
        · exact Or.inl (h.injective _ hbid q hq heq).symm
        · exact Or.inr (h.injective _ hask q hq heq).symm
      · rintro (rfl | rfl)
        · exact Or.inl rfl
        · exact Or.inr rfl
    rw [Ledger.traded_trade]
    simp only [howners]
  constructor
  · exact hb'
  · intro t' ht'
    rcases List.mem_cons.mp ht' with rfl | ht'
    · exact ⟨h.owner_lt hbid, h.owner_lt hask⟩
    · exact h.trades_known t' ht'
  · exact h.cancels_known
  · intro q hq q' hq'
    exact h.injective q ((hresting q).mp hq).1 q' ((hresting q').mp hq').1
  · intro q hq
    have hq := ((hresting q).mp hq).1
    obtain ⟨o, ho, heq⟩ := h.owned q hq
    refine ⟨o, ho, ?_⟩
    rw [horder q hq, heq]
  · exact h.accepted_int
  · intro q hq
    have := ((hresting q).mp hq).2
    omega
  · intro q hq o ho
    have hq := ((hresting q).mp hq).1
    obtain ⟨hsum, hzero⟩ := h.open_balance q hq o ho
    have hvol := hvolume q hq
    refine ⟨?_, hzero⟩
    show o.mVolume.toNat = (L.trade t).traded (L.owner q) + _
    rw [htraded q hq]
    omega
  · intro k o ho hno
    by_cases hopen : ∃ q ∈ b.resting, L.owner q = k
    · -- the order was filled
      obtain ⟨q, hq, rfl⟩ := hopen
      obtain ⟨hsum, hzero⟩ := h.open_balance q hq o ho
      have hvol := hvolume q hq
      have hempty : (b'.order q).mVolume.toNat = 0 := by
        by_contra hpos
        exact hno q ((hresting q).mpr ⟨hq, hpos⟩) rfl
      rw [htraded q hq, Ledger.cancelled_trade]
      omega
    · have hclosed : ∀ q ∈ b.resting, L.owner q ≠ k := fun q hq heq => hopen ⟨q, hq, heq⟩
      have hnot : ¬ (L.owner t.mBidOrder = k ∨ L.owner t.mAskOrder = k) := by
        rintro (heq | heq)
        · exact hclosed _ hbid heq
        · exact hclosed _ hask heq
      rw [Ledger.traded_trade, if_neg hnot, Nat.zero_add, Ledger.cancelled_trade]
      exact h.closed_balance k o ho hclosed

end Balanced

/-! ### Trades between positive `int` volumes -/

section Traded

variable {b : OrderBook} {bid ask : Nat} (lb la : Nat)

theorem toNat_tradeVolume (hbid : IntVolume (b.order bid).mVolume) (hask : IntVolume (b.order ask).mVolume) :
    (b.tradeVolume bid ask).toNat = min (b.order bid).mVolume.toNat (b.order ask).mVolume.toNat := by
  unfold IntVolume at hbid hask
  rw [tradeVolume, Order.getVolume, Order.getVolume, narrow_of_lt hbid.2, narrow_of_lt hask.2, toNat_widen]
  omega

theorem tradeVolume_le (hbid : IntVolume (b.order bid).mVolume) (hask : IntVolume (b.order ask).mVolume)
    {q : Nat} (hq : q = bid ∨ q = ask) : b.tradeVolume bid ask ≤ (b.order q).mVolume := by
  rw [UInt64.le_iff_toNat_le, toNat_tradeVolume hbid hask]
  rcases hq with rfl | rfl <;> omega

/-- The trade volume moves out of both orders. -/
theorem order_settled_self (hne : bid ≠ ask) (hbid : IntVolume (b.order bid).mVolume)
    (hask : IntVolume (b.order ask).mVolume) {q : Nat} (hq : q = bid ∨ q = ask) :
    (b.settled lb la bid ask).order q =
      { b.order q with mVolume := (b.order q).mVolume - b.tradeVolume bid ask } := by
  have hle := tradeVolume_le hbid hask hq
  have hsmall : (b.tradeVolume bid ask).toNat < 2 ^ 31 := by
    have htrade := toNat_tradeVolume hbid hask
    unfold IntVolume at hbid
    omega
  rw [order_settled, order_reduced_eq, order_reduced hne, if_pos hq,
    MatchingEngine.reduceVolume_exact hle (Or.inl hsmall)]

/-- No other order changes. -/
theorem order_settled_other (hne : bid ≠ ask) {q : Nat} (hq : ¬ (q = bid ∨ q = ask)) :
    (b.settled lb la bid ask).order q = b.order q := by
  rw [order_settled, order_reduced hne, if_neg hq]

theorem mVolume_settled (hne : bid ≠ ask) (hbid : IntVolume (b.order bid).mVolume)
    (hask : IntVolume (b.order ask).mVolume) (q : Nat) :
    (b.order q).mVolume.toNat = ((b.settled lb la bid ask).order q).mVolume.toNat +
      if q = bid ∨ q = ask then (b.tradeVolume bid ask).toNat else 0 := by
  split_ifs with hq
  · have hle := tradeVolume_le hbid hask hq
    rw [order_settled_self lb la hne hbid hask hq]
    dsimp only
    rw [UInt64.toNat_sub_of_le _ _ hle]
    rw [UInt64.le_iff_toNat_le] at hle
    omega
  · rw [order_settled_other lb la hne hq]
    rfl

/-- An order leaves when nothing is left of it. -/
theorem filled_iff (hne : bid ≠ ask) (hbid : IntVolume (b.order bid).mVolume)
    (hask : IntVolume (b.order ask).mVolume) {q : Nat} (hq : IntVolume (b.order q).mVolume) :
    b.Filled bid ask q ↔ ((b.settled lb la bid ask).order q).mVolume.toNat = 0 := by
  have hvolume := mVolume_settled lb la hne hbid hask q
  unfold IntVolume at hq
  rw [Filled, Order.getVolume, narrow_eq_zero_iff, ← order_settled b lb la]
  constructor
  · rintro ⟨-, hzero⟩
    omega
  · intro hzero
    rw [hzero] at hvolume ⊢
    refine ⟨?_, rfl⟩
    by_contra hno
    rw [if_neg hno] at hvolume
    omega

/-- An order leaves when the whole of it is traded. -/
theorem filled_iff_traded (hne : bid ≠ ask) (hbid : IntVolume (b.order bid).mVolume)
    (hask : IntVolume (b.order ask).mVolume) {q : Nat} (hq : IntVolume (b.order q).mVolume) :
    b.Filled bid ask q ↔ (q = bid ∨ q = ask) ∧ (b.order q).mVolume = b.tradeVolume bid ask := by
  have hvolume := mVolume_settled 0 0 hne hbid hask q
  rw [filled_iff 0 0 hne hbid hask hq, ← UInt64.toNat_inj]
  unfold IntVolume at hq
  split_ifs at hvolume with hqs
  · simp only [hqs, true_and]
    omega
  · simp only [hqs, false_and, iff_false]
    omega

end Traded

namespace MatchingEngine

/-! ### The ledger of a run -/

def SubmitsIntVolume (_ : MatchingEngine) (c : Call) : Prop := ∀ o, c = .addOrder o → IntVolume o.mVolume

theorem balanced_settled {b : OrderBook} {L : Ledger} (h : Balanced b L) {lb la bid ask : Nat}
    (hbid : b.Top .bid lb bid) (hask : b.Top .ask la ask) (price : UInt64) :
    Balanced (b.settled lb la bid ask) (L.trade ⟨bid, ask, b.tradeVolume bid ask, price⟩) := by
  have hb := h.wellFormed
  have hne := hbid.ne hb hask
  have hbidInt := h.intVolume hbid.resting
  have haskInt := h.intVolume hask.resting
  apply h.trade (wellFormed_settled hb hbid hask) hbid.resting hask.resting
  · intro q
    rw [mem_resting_settled hb hbid hask]
    refine and_congr_right fun hq => not_congr ?_
    exact filled_iff lb la hne hbidInt haskInt (h.intVolume hq)
  · intro q _
    rw [order_settled]
    exact order_reduced_eq _ _ _ _
  · exact fun q _ => mVolume_settled lb la hne hbidInt haskInt q

theorem filter_dequeue {b : OrderBook} (hb : WellFormed b) {s : Side} {l p : Nat} (hp : p ∈ b.queue s l) :
    (b.resting.filter fun q => q ∉ (b.dequeue s l p).resting) = [p] := by
  have hperm := resting_dequeue_perm (hb.level_lt_size (hb.level_lt hp) s) hp
  have hnodup := hperm.nodup_iff.mp (List.nodup_append.mp hb.nodup).1
  rw [List.nodup_cons] at hnodup
  have hfilter := hperm.filter fun q => decide (q ∉ (b.dequeue s l p).resting)
  rw [List.filter_cons_of_pos (by simpa using hnodup.1)] at hfilter
  have hnone : ((b.dequeue s l p).resting.filter fun q => decide (q ∉ (b.dequeue s l p).resting)) = [] := by
    rw [List.filter_eq_nil_iff]
    intro q hq
    simp [hq]
  rw [hnone] at hfilter
  exact List.perm_singleton.mp hfilter

/-- Every call with volumes in the range keeps the books balanced. -/
theorem balanced_next {e : MatchingEngine} {L : Ledger} (h : Balanced e.orderBook L) {c : Call}
    (hc : SubmitsIntVolume e c) :
    Balanced (machine.next e c).orderBook (L.record e (machine.next e c) c (machine.step e c).1) := by
  have hb := h.wellFormed
  have hnone : (e.orderBook.resting.filter fun p => p ∉ e.orderBook.resting) = [] := by
    rw [List.filter_eq_nil_iff]
    intro p hp
    simp [hp]
  refine step_induction (P := fun r e' => Balanced e'.orderBook (L.record e e' c r)) hb fun r e' heffect => ?_
  cases heffect with
  | full => exact h
  | @refused o p rest hfree =>
    refine h.congr (wellFormed_stored hb hfree o) (fun _ => Iff.rfl) fun q hq => ?_
    rw [order_stored, if_neg (hb.ne_of_free hfree hq)]
  | @accepted o p rest l hfree hlevel =>
    have hslot : e.orderBook.freeStack.headD 0 = p := by rw [hfree]; rfl
    simp only [Ledger.record, hslot]
    refine h.accept (wellFormed_accepted hb hfree hlevel) (hc o rfl)
      (fun hp => hb.ne_of_free hfree hp rfl) (fun q => mem_resting_accepted hb hfree hlevel) ?_ ?_
    · rw [order_accepted, if_pos rfl]
    · intro q hq
      rw [order_accepted, if_neg (hb.ne_of_free hfree hq)]
  | unknown =>
    simp only [Ledger.record, hnone, Ledger.cancel_nil]
    exact h
  | missed orderId =>
    show Balanced _ (L.cancel e.orderBook (e.orderBook.resting.filter fun p => p ∉ e.orderBook.resting))
    rw [hnone, Ledger.cancel_nil]
    exact h.congr (hb.forget orderId) (fun _ => Iff.rfl) fun _ _ => rfl
  | erased orderId _ _ hfind =>
    have hp := (findOrder_mem hfind).1
    simp only [Ledger.record, filter_dequeue hb hp]
    exact h.cancel (hb.dequeue hp) (mem_resting.mpr ⟨_, _, hp⟩) (hb.mem_resting_dequeue hp) fun q =>
      order_dequeue q
  | oneSided | uncrossed => exact h
  | traded hbid hask => exact balanced_settled h hbid hask _

/-- What a single call may do to volumes and to resting orders. -/
structure FairStep (e : MatchingEngine) (c : Call) : Prop where
  positive : ∀ t, (machine.step e c).1 = .matched (.ok (some t)) → 1 ≤ t.mTradeVolume.toNat
  /-- An order leaves by being filled, or by a cancel with its own id. -/
  leaves : ∀ p ∈ e.orderBook.resting, p ∉ (machine.next e c).orderBook.resting →
    (c = .matchLimitOrders ∧ ((machine.next e c).orderBook.order p).mVolume = 0) ∨
      c = .cancelOrder (e.orderBook.order p).mOrderID
  /-- Only a trade changes volumes, and only those of its two orders. -/
  volumes : ∀ p ∈ e.orderBook.resting,
    ((machine.next e c).orderBook.order p).mVolume ≠ (e.orderBook.order p).mVolume →
      ∃ t, (machine.step e c).1 = .matched (.ok (some t)) ∧ (p = t.mBidOrder ∨ p = t.mAskOrder)

section Fair

variable {e : MatchingEngine} {L : Ledger}

theorem tradeVolume_positive (h : Balanced e.orderBook L) (c : Call) (t : Trade)
    (ht : (machine.step e c).1 = .matched (.ok (some t))) : 1 ≤ t.mTradeVolume.toNat := by
  revert ht
  refine step_induction (P := fun r _ => r = .matched (.ok (some t)) → 1 ≤ t.mTradeVolume.toNat)
    h.wellFormed fun r e' heffect ht => ?_
  cases heffect with
  | full | refused | accepted | unknown | missed | erased | oneSided | uncrossed => cases ht
  | @traded lb la bid ask hbid hask =>
    have hbidInt := h.intVolume hbid.resting
    have haskInt := h.intVolume hask.resting
    cases ht
    dsimp only
    rw [toNat_tradeVolume hbidInt haskInt]
    exact Nat.le_min.mpr ⟨hbidInt.1, haskInt.1⟩

theorem leaves_filled_or_cancelled (h : Balanced e.orderBook L) (c : Call) {p : Nat}
    (hp : p ∈ e.orderBook.resting) (hgone : p ∉ (machine.next e c).orderBook.resting) :
    (c = .matchLimitOrders ∧ ((machine.next e c).orderBook.order p).mVolume = 0) ∨
      c = .cancelOrder (e.orderBook.order p).mOrderID := by
  have hb := h.wellFormed
  revert hgone
  refine step_induction (P := fun _ e' => p ∉ e'.orderBook.resting →
    (c = .matchLimitOrders ∧ (e'.orderBook.order p).mVolume = 0) ∨
      c = .cancelOrder (e.orderBook.order p).mOrderID) hb fun r e' heffect hgone => ?_
  cases heffect with
  | full | refused | unknown | missed | oneSided | uncrossed => exact absurd hp hgone
  | accepted o hfree hlevel => exact absurd ((mem_resting_accepted hb hfree hlevel).mpr (Or.inr hp)) hgone
  | @erased orderId l q _ _ hfind =>
    obtain ⟨hq, hid⟩ := findOrder_mem hfind
    have hpq : p = q := by
      by_contra hne
      exact hgone ((hb.mem_resting_dequeue hq p).mpr ⟨hp, hne⟩)
    rw [hpq, hid]
    exact Or.inr rfl
  | @traded lb la bid ask hbid hask =>
    have hfilled := filled_iff lb la (hbid.ne hb hask) (h.intVolume hbid.resting)
      (h.intVolume hask.resting) (h.intVolume hp)
    rw [mem_resting_settled hb hbid hask, hfilled] at hgone
    have hzero : ((e.orderBook.settled lb la bid ask).order p).mVolume.toNat = 0 := by
      by_contra hpos
      exact hgone ⟨hp, hpos⟩
    exact Or.inl ⟨rfl, UInt64.toNat_inj.mp hzero⟩

theorem volume_changes_by_trade (h : Balanced e.orderBook L) (c : Call) {p : Nat}
    (hp : p ∈ e.orderBook.resting)
    (hchange : ((machine.next e c).orderBook.order p).mVolume ≠ (e.orderBook.order p).mVolume) :
    ∃ t, (machine.step e c).1 = .matched (.ok (some t)) ∧ (p = t.mBidOrder ∨ p = t.mAskOrder) := by
  have hb := h.wellFormed
  revert hchange
  refine step_induction (P := fun r e' => (e'.orderBook.order p).mVolume ≠ (e.orderBook.order p).mVolume →
    ∃ t, r = .matched (.ok (some t)) ∧ (p = t.mBidOrder ∨ p = t.mAskOrder)) hb fun r e' heffect hchange => ?_
  cases heffect with
  | full | unknown | missed | oneSided | uncrossed => exact absurd rfl hchange
  | refused o hfree =>
    rw [order_stored, if_neg (hb.ne_of_free hfree hp)] at hchange
    exact absurd rfl hchange
  | accepted o hfree =>
    rw [order_accepted, if_neg (hb.ne_of_free hfree hp)] at hchange
    exact absurd rfl hchange
  | erased =>
    rw [order_dequeue] at hchange
    exact absurd rfl hchange
  | @traded lb la bid ask hbid hask =>
    refine ⟨_, rfl, ?_⟩
    have hvolume := mVolume_settled lb la (hbid.ne hb hask) (h.intVolume hbid.resting)
      (h.intVolume hask.resting) p
    by_contra hno
    rw [if_neg hno] at hvolume
    exact hchange (UInt64.toNat_inj.mp hvolume.symm)

theorem fairStep_of_balanced (h : Balanced e.orderBook L) (c : Call) : FairStep e c where
  positive := tradeVolume_positive h c
  leaves _ hp hgone := leaves_filled_or_cancelled h c hp hgone
  volumes _ hp hchange := volume_changes_by_trade h c hp hchange

end Fair

/-- The engine with its ledger. -/
def audited : Machine (MatchingEngine × Ledger) Call Reply :=
  machine.withHistory fun L e c => L.record e (machine.next e c) c (machine.step e c).1

/-- Every accepted order accounts for its submitted volume, rests at most once, and rests as it was submitted
but for a volume that is positive and no larger. -/
structure Audited (e : MatchingEngine) (L : Ledger) : Prop where
  balance : ∀ (k : Nat) o, L.accepted[k]? = some o →
    o.mVolume.toNat = L.traded k + L.remaining e.orderBook k + L.cancelled k
  once : ∀ p ∈ e.orderBook.resting, ∀ q ∈ e.orderBook.resting, L.owner p = L.owner q → p = q
  resting : ∀ p ∈ e.orderBook.resting, ∃ o, L.accepted[L.owner p]? = some o ∧
    e.orderBook.order p = { o with mVolume := (e.orderBook.order p).mVolume } ∧
    1 ≤ (e.orderBook.order p).mVolume.toNat ∧ (e.orderBook.order p).mVolume.toNat ≤ o.mVolume.toNat

theorem audited_of_balanced {e : MatchingEngine} {L : Ledger} (h : Balanced e.orderBook L) : Audited e L := by
  constructor
  · intro k o ho
    unfold Ledger.remaining
    cases hfind : e.orderBook.resting.find? fun p => L.owner p = k with
    | none =>
      have hno : ∀ p ∈ e.orderBook.resting, L.owner p ≠ k := by
        simpa using List.find?_eq_none.mp hfind
      exact h.closed_balance k o ho hno
    | some p =>
      have hp := List.mem_of_find?_eq_some hfind
      have hk : L.owner p = k := by simpa using List.find?_some hfind
      subst hk
      obtain ⟨hsum, hzero⟩ := h.open_balance p hp o ho
      rw [hzero]
      exact hsum
  · exact h.injective
  · intro p hp
    obtain ⟨o, ho, heq⟩ := h.owned p hp
    have hsum := (h.open_balance p hp o ho).1
    exact ⟨o, ho, heq, h.open_positive p hp, by omega⟩

theorem balanced_new (counter : UInt64) : Balanced (new 101 counter).orderBook .empty := by
  have hresting : (new 101 counter).orderBook.resting = [] := WellFormed.resting_new 101
  constructor
  · exact wellFormed_new counter
  all_goals simp [hresting, Ledger.empty]

/-- **The volume ledger balances over every run** that submits positive `int` volumes. -/
theorem ledger_balances (counter : UInt64) (cs : List Call)
    (h : ∀ o, .addOrder o ∈ cs → IntVolume o.mVolume) :
    Audited (machine.run (new 101 counter) cs) (audited.run (new 101 counter, .empty) cs).2 ∧
      machine.Along FairStep (new 101 counter) cs := by
  have hrun : audited.Along (fun s => SubmitsIntVolume s.1) (new 101 counter, .empty) cs :=
    Machine.Along.of_forall (fun c hc s o ho => h o (by rw [← ho]; exact hc)) _
  have hstep : ∀ s c, Balanced s.1.orderBook s.2 → SubmitsIntVolume s.1 c →
      Balanced (audited.next s c).1.orderBook (audited.next s c).2 := fun s c hs hc => balanced_next hs hc
  have hnew : Balanced (new 101 counter).orderBook .empty := balanced_new counter
  constructor
  · have hend := hrun.invariant (I := fun s => Balanced s.1.orderBook s.2) hstep hnew
    have hfst : (audited.run (new 101 counter, .empty) cs).1 = machine.run (new 101 counter) cs :=
      Machine.run_withHistory_fst machine _ _ cs
    rw [hfst] at hend
    exact audited_of_balanced hend
  · have hfair := hrun.mono (I := fun s => Balanced s.1.orderBook s.2) (Q := fun s => FairStep s.1) hstep
      (fun s c hs _ => fairStep_of_balanced hs c) hnew
    exact (Machine.along_withHistory machine _ _ cs).mp hfair

/-- A partial fill, a cancel of the rest, and the slot reused. -/
theorem ledger_example :
    Audited (machine.run (new 101 0)
        [.addOrder ⟨.bid, 5, [], 0, ⟨1000⟩⟩, .addOrder ⟨.ask, 3, [], 0, ⟨1000⟩⟩, .matchLimitOrders,
          .cancelOrder 1, .addOrder ⟨.bid, 7, [], 0, ⟨1000⟩⟩])
      (audited.run (new 101 0, .empty)
        [.addOrder ⟨.bid, 5, [], 0, ⟨1000⟩⟩, .addOrder ⟨.ask, 3, [], 0, ⟨1000⟩⟩, .matchLimitOrders,
          .cancelOrder 1, .addOrder ⟨.bid, 7, [], 0, ⟨1000⟩⟩]).2 := by
  apply (ledger_balances 0 _ ?_).1
  intro o ho
  simp only [List.mem_cons, Call.addOrder.injEq, reduceCtorEq, List.not_mem_nil, or_false, false_or] at ho
  rcases ho with rfl | rfl | rfl <;> decide

end MatchingEngine

end TradingSystem
