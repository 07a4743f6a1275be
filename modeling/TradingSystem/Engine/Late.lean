import TradingSystem.Engine.Drain
import TradingSystem.Engine.Slots

/-!
# Late orders

An order that is no better than the best of its side joins the back of a queue and leaves both tops in place,
so a match before it and a match after it pair the same two orders. The two ways give it different slots: a
match that fills an order puts its slot on top of the free stack. They end in books that hold the same orders
in the same queues, which is a relation that every later order keeps, so a whole list of late orders can be
exchanged with the match.
-/

namespace TradingSystem

open Lib Lib.Effects OrderBook

namespace OrderBook

/-- The orders of a queue, front first. -/
def queued (b : OrderBook) (s : Side) (l : Nat) : List Order := (b.queue s l).map b.order

theorem queued_eq_nil {b : OrderBook} {s : Side} {l : Nat} : b.queued s l = [] ↔ b.queue s l = [] :=
  List.map_eq_nil_iff

end OrderBook

namespace MatchingEngine

/-! ### What an order adds -/

section Add

variable {e : MatchingEngine} {o : Order}

/-- Equal but for the slots of the orders, and free slots to the same number. -/
structure Renamed (e e' : MatchingEngine) : Prop where
  wellFormed : WellFormed e.orderBook
  wellFormed' : WellFormed e'.orderBook
  queued : ∀ s l, e.orderBook.queued s l = e'.orderBook.queued s l
  levels : ∀ s, (e.orderBook.priceLevel s).size = (e'.orderBook.priceLevel s).size
  free : e.orderBook.freeStack.length = e'.orderBook.freeStack.length
  counter : e.atomicOrderID = e'.atomicOrderID

theorem Renamed.refl (hb : WellFormed e.orderBook) : Renamed e e :=
  ⟨hb, hb, fun _ _ => rfl, fun _ => rfl, rfl, rfl⟩

theorem Renamed.trans {e' e'' : MatchingEngine} (h : Renamed e e') (h' : Renamed e' e'') : Renamed e e'' :=
  ⟨h.wellFormed, h'.wellFormed', fun s l => (h.queued s l).trans (h'.queued s l),
    fun s => (h.levels s).trans (h'.levels s), h.free.trans h'.free, h.counter.trans h'.counter⟩

theorem Renamed.bitmaps {e' : MatchingEngine} (h : Renamed e e') (s : Side) :
    e.orderBook.bitmap s = e'.orderBook.bitmap s := by
  refine h.wellFormed'.bitmap_congr h.wellFormed (h.levels s) fun l => ?_
  rw [← queued_eq_nil, ← queued_eq_nil, h.queued]

/-- `x` joins the queue of the order's side and level, and no other. -/
def joining {α : Type} (o : Order) (x : α) (s : Side) (l : Nat) : List α :=
  if s = o.bidOrAsk ∧ levelOf o.mPrice = some l then [x] else []

theorem map_joining {α β : Type} (f : α → β) (x : α) (s : Side) (l : Nat) :
    (joining o x s l).map f = joining o (f x) s l := by
  unfold joining
  split_ifs <;> rfl

theorem filter_joining {α : Type} {f : α → Bool} {x : α} (hx : f x = true) (s : Side) (l : Nat) :
    (joining o x s l).filter f = joining o x s l := by
  unfold joining
  split_ifs
  · rw [List.filter_cons_of_pos hx, List.filter_nil]
  · rfl

/-- What `addOrder` does when slot `p` is on top of the free stack, whether it refuses the price or not. -/
structure Added (e : MatchingEngine) (o : Order) (p : Nat) (e' : MatchingEngine) : Prop where
  fresh : p ∉ e.orderBook.resting
  queue : ∀ s l, e'.orderBook.queue s l = e.orderBook.queue s l ++ joining o p s l
  order : ∀ q, e'.orderBook.order q = if q = p then { o with mOrderID := e.nextId } else e.orderBook.order q
  free : e'.orderBook.freeStack.length + 1 = e.orderBook.freeStack.length
  counter : e'.atomicOrderID = e.nextId

theorem added_next (hb : WellFormed e.orderBook) {p : Nat} {rest : List Nat}
    (hfree : e.orderBook.freeStack = p :: rest) (o : Order) : Added e o p (machine.next e (.addOrder o)) := by
  have hfresh : p ∉ e.orderBook.resting := fun hp => hb.ne_of_free hfree hp rfl
  refine step_induction (c := .addOrder o) (P := fun _ e' => Added e o p e') hb fun r e' h => ?_
  cases h with
  | full o hnone =>
    rw [hfree] at hnone
    cases hnone
  | refused o htop hlevel =>
    obtain ⟨rfl, rfl⟩ := List.cons.inj (hfree.symm.trans htop)
    refine ⟨hfresh, fun s l => ?_, order_stored, by simp [stored, hfree], rfl⟩
    have hno : ¬ (s = o.bidOrAsk ∧ levelOf o.mPrice = some l) := fun h => by simp [hlevel] at h
    rw [joining, if_neg hno, List.append_nil]
    exact queue_setOrder e.orderBook.take s l p _
  | @accepted o _ _ l' htop hlevel =>
    obtain ⟨rfl, rfl⟩ := List.cons.inj (hfree.symm.trans htop)
    refine ⟨hfresh, fun s l => ?_, order_accepted, by simp [accepted, stored, hfree], rfl⟩
    have hsame : (s = o.bidOrAsk ∧ levelOf o.mPrice = some l) ↔ (s = o.bidOrAsk ∧ l = l') := by
      rw [hlevel, Option.some.injEq]
      exact and_congr_right fun _ => eq_comm
    rw [queue_accepted hb hfree hlevel]
    simp only [joining, hsame]
    split_ifs <;> simp

theorem Added.queued {p : Nat} {e' : MatchingEngine} (h : Added e o p e') (s : Side) (l : Nat) :
    e'.orderBook.queued s l =
      e.orderBook.queued s l ++ joining o { o with mOrderID := e.nextId } s l := by
  have hold : (e.orderBook.queue s l).map e'.orderBook.order = e.orderBook.queued s l := by
    apply List.map_congr_left
    intro q hq
    rw [h.order, if_neg]
    rintro rfl
    exact h.fresh (mem_resting.mpr ⟨s, l, hq⟩)
  rw [OrderBook.queued, h.queue, List.map_append, hold, map_joining, h.order, if_pos rfl]

theorem reply_addOrder (hb : WellFormed e.orderBook) (hfree : e.orderBook.freeStack ≠ []) (o : Order) :
    (e.step (.addOrder o)).1 = .added (if levelOf o.mPrice = none then
      .error (.invalidArgument "Invalid price to bid/ask") else .ok e.nextId) := by
  obtain ⟨p, rest, hfree⟩ := List.exists_cons_of_ne_nil hfree
  cases hlevel : levelOf o.mPrice with
  | none =>
    rw [(Effect.refused o hfree hlevel).step_eq hb]
    rfl
  | some l =>
    rw [(Effect.accepted o hfree hlevel).step_eq hb]
    rfl

/-- Renamed states answer an order alike and stay renamed. -/
theorem Renamed.add {e' : MatchingEngine} (h : Renamed e e') (o : Order) :
    (machine.step e (.addOrder o)).1 = (machine.step e' (.addOrder o)).1 ∧
      Renamed (machine.next e (.addOrder o)) (machine.next e' (.addOrder o)) := by
  have hid : e.nextId = e'.nextId := congrArg (· + 1) h.counter
  cases hfree : e.orderBook.freeStack with
  | nil =>
    have hfree' : e'.orderBook.freeStack = [] := by
      rw [← List.length_eq_zero_iff, ← h.free, hfree, List.length_nil]
    have hstep := (Effect.full o hfree).step_eq h.wellFormed
    have hstep' := (Effect.full o hfree').step_eq h.wellFormed'
    show (e.step _).1 = (e'.step _).1 ∧ Renamed (e.step _).2 (e'.step _).2
    rw [hstep, hstep']
    exact ⟨rfl, h⟩
  | cons p rest =>
    have hlength := h.free
    obtain ⟨p', rest', hfree'⟩ := List.exists_cons_of_length_pos
      (show 0 < e'.orderBook.freeStack.length by rw [← hlength, hfree]; exact Nat.succ_pos _)
    have hadded := added_next h.wellFormed hfree o
    have hadded' := added_next h.wellFormed' hfree' o
    have hcount := hadded.free
    have hcount' := hadded'.free
    constructor
    · show (e.step _).1 = (e'.step _).1
      rw [reply_addOrder h.wellFormed (by simp [hfree]), reply_addOrder h.wellFormed' (by simp [hfree']), hid]
    · refine ⟨wellFormed_next h.wellFormed _, wellFormed_next h.wellFormed' _, fun s l => ?_, fun s => ?_,
        by omega, by rw [hadded.counter, hadded'.counter, hid]⟩
      · rw [hadded.queued, hadded'.queued, h.queued, hid]
      · rw [size_priceLevel_next h.wellFormed, size_priceLevel_next h.wellFormed', h.levels]

end Add

/-! ### Orders that are no better -/

/-- Where the price has a level, the order's side has a best level, and that is at least as good. -/
def NoBetter (b : OrderBook) (o : Order) : Prop :=
  ∀ l, levelOf o.mPrice = some l → ∃ best, IsBest b o.bidOrAsk best ∧ ahead o.bidOrAsk best l

theorem noBetter_of_findBestLevel {b : OrderBook} (hb : WellFormed b) {o : Order} (best l : Nat)
    (hbest : b.findBestLevel o.bidOrAsk = best) (hlevel : levelOf o.mPrice = some l)
    (hahead : ahead o.bidOrAsk best l) : NoBetter b o := by
  intro l' hl'
  obtain rfl := Option.some.inj (hlevel.symm.trans hl')
  exact ⟨best, isBest_of_findBestLevel hb hbest, hahead⟩

section NoBetter

variable {e e' : MatchingEngine} {o : Order} {p : Nat}

theorem eq_nil_of_joining {s : Side} {l : Nat} (h : joining o p s l ≠ []) :
    s = o.bidOrAsk ∧ levelOf o.mPrice = some l := by
  unfold joining at h
  split_ifs at h with hjoin
  · exact hjoin
  · exact absurd rfl h

/-- Such an order leaves the best levels in place, and an empty side empty. -/
theorem Added.isBest_iff (h : Added e o p e') (hb : WellFormed e.orderBook) (hlate : NoBetter e.orderBook o)
    (s : Side) (l : Nat) : IsBest e'.orderBook s l ↔ IsBest e.orderBook s l := by
  have hkeep : ∀ {best}, IsBest e.orderBook s best → IsBest e'.orderBook s best := by
    intro best hbest
    refine ⟨by rw [h.queue]; exact List.append_ne_nil_of_left_ne_nil hbest.1 _, fun l' hl' => ?_⟩
    by_cases hold : e.orderBook.queue s l' = []
    · rw [h.queue, hold, List.nil_append] at hl'
      obtain ⟨rfl, hlevel⟩ := eq_nil_of_joining hl'
      obtain ⟨best', hbest', hahead⟩ := hlate l' hlevel
      rwa [hbest.unique hbest']
    · exact hbest.2 l' hold
  refine ⟨fun hl => ?_, hkeep⟩
  rcases top_or_empty hb s with hnone | ⟨best, front, htop⟩
  · have hnew := hl.1
    rw [h.queue, hnone, List.nil_append] at hnew
    obtain ⟨rfl, hlevel⟩ := eq_nil_of_joining hnew
    obtain ⟨best, hbest, -⟩ := hlate l hlevel
    exact absurd (hnone best) hbest.1
  · rw [hl.unique (hkeep htop.1)]
    exact htop.1

theorem Added.top (h : Added e o p e') (hb : WellFormed e.orderBook) (hlate : NoBetter e.orderBook o) {s : Side}
    {l front : Nat} (htop : e.orderBook.Top s l front) : e'.orderBook.Top s l front := by
  obtain ⟨hbest, rest, hq⟩ := htop
  exact ⟨(h.isBest_iff hb hlate s l).mpr hbest, rest ++ joining o p s l, by rw [h.queue, hq, List.cons_append]⟩

theorem Added.uncrossed (h : Added e o p e') (hb : WellFormed e.orderBook) (hb' : WellFormed e'.orderBook)
    (hlate : NoBetter e.orderBook o) (huncrossed : Uncrossed e.orderBook) : Uncrossed e'.orderBook := by
  rcases huncrossed with ⟨s, hnone⟩ | ⟨lb, la, hbid, hask, hlt⟩
  · rcases top_or_empty hb' s with hnone' | ⟨l, front, htop⟩
    · exact Or.inl ⟨s, hnone'⟩
    · exact absurd (hnone l) ((h.isBest_iff hb hlate s l).mp htop.1).1
  · exact Or.inr ⟨lb, la, (h.isBest_iff hb hlate _ _).mpr hbid, (h.isBest_iff hb hlate _ _).mpr hask, hlt⟩

theorem Added.noBetter (h : Added e o p e') (hb : WellFormed e.orderBook) (hlate : NoBetter e.orderBook o)
    {o' : Order} (hlate' : NoBetter e.orderBook o') : NoBetter e'.orderBook o' := by
  intro l hlevel
  obtain ⟨best, hbest, hahead⟩ := hlate' l hlevel
  exact ⟨best, (h.isBest_iff hb hlate _ _).mpr hbest, hahead⟩

end NoBetter

/-! ### A trade and an order -/

section Trade

theorem length_freeStack_dropFilled (b : OrderBook) (s : Side) (l p : Nat) :
    (b.dropFilled s l p).freeStack.length =
      b.freeStack.length + if (b.order p).getVolume = 0 then 1 else 0 := by
  unfold dropFilled
  split_ifs <;> simp

/-- A trade frees as many slots as it fills orders. -/
theorem length_freeStack_settled (b : OrderBook) (lb la bid ask : Nat) :
    (b.settled lb la bid ask).freeStack.length = b.freeStack.length +
      ((if ((b.reduced bid ask).order ask).getVolume = 0 then 1 else 0) +
        if ((b.reduced bid ask).order bid).getVolume = 0 then 1 else 0) := by
  rw [settled, length_freeStack_dropFilled, length_freeStack_dropFilled, order_dropFilled, Nat.add_assoc]
  rfl

theorem queued_settled {b : OrderBook} (hb : WellFormed b) {lb la bid ask : Nat} (hbid : b.Top .bid lb bid)
    (hask : b.Top .ask la ask) (s : Side) (l : Nat) : (b.settled lb la bid ask).queued s l =
      ((b.queue s l).filter fun q => ¬ b.Filled bid ask q).map (b.reduced bid ask).order := by
  rw [queued, queue_settled hb hbid hask]
  apply List.map_congr_left
  exact fun q _ => order_settled b lb la bid ask q

variable {e e' : MatchingEngine} {o : Order} {p lb la bid ask : Nat}

theorem Added.ne_top (h : Added e o p e') {s : Side} {l q : Nat} (htop : e.orderBook.Top s l q) : q ≠ p :=
  fun hqp => h.fresh (hqp ▸ htop.resting)

/-- The trade is of the same volume, with the new order and without it. -/
theorem Added.tradeVolume (h : Added e o p e') (hbid : e.orderBook.Top .bid lb bid)
    (hask : e.orderBook.Top .ask la ask) :
    e'.orderBook.tradeVolume bid ask = e.orderBook.tradeVolume bid ask := by
  rw [OrderBook.tradeVolume, h.order, if_neg (h.ne_top hask), h.order, if_neg (h.ne_top hbid),
    OrderBook.tradeVolume]

/-- It reduces the same orders. -/
theorem Added.order_reduced (h : Added e o p e') (hb : WellFormed e.orderBook)
    (hbid : e.orderBook.Top .bid lb bid) (hask : e.orderBook.Top .ask la ask) {q : Nat} (hq : q ≠ p) :
    (e'.orderBook.reduced bid ask).order q = (e.orderBook.reduced bid ask).order q := by
  have hne := hbid.ne hb hask
  rw [OrderBook.order_reduced hne, OrderBook.order_reduced hne, h.tradeVolume hbid hask, h.order, if_neg hq]

theorem Added.queued_settled (h : Added e o p e') (hb : WellFormed e.orderBook) (hb' : WellFormed e'.orderBook)
    (hlate : NoBetter e.orderBook o) (hbid : e.orderBook.Top .bid lb bid) (hask : e.orderBook.Top .ask la ask)
    (s : Side) (l : Nat) :
    (e'.orderBook.settled lb la bid ask).queued s l = (e.orderBook.settled lb la bid ask).queued s l ++
      joining o { o with mOrderID := e.nextId } s l := by
  have horder : ∀ q ≠ p, (e'.orderBook.reduced bid ask).order q = (e.orderBook.reduced bid ask).order q :=
    fun q hq => h.order_reduced hb hbid hask hq
  have hold : ∀ q ∈ e.orderBook.queue s l, q ≠ p := by
    rintro q hq rfl
    exact h.fresh (mem_resting.mpr ⟨s, l, hq⟩)
  have hfilter : (e.orderBook.queue s l).filter (fun q => ¬ e'.orderBook.Filled bid ask q) =
      (e.orderBook.queue s l).filter fun q => ¬ e.orderBook.Filled bid ask q := by
    apply List.filter_congr
    intro q hq
    rw [decide_eq_decide, Filled, Filled, horder q (hold q hq)]
  have hnot : ¬ (p = bid ∨ p = ask) := by
    rintro (hbp | hap)
    · exact h.ne_top hbid hbp.symm
    · exact h.ne_top hask hap.symm
  have hnew : ¬ e'.orderBook.Filled bid ask p := fun hfilled => hnot hfilled.1
  have hlast : (e'.orderBook.reduced bid ask).order p = { o with mOrderID := e.nextId } := by
    rw [OrderBook.order_reduced (hbid.ne hb hask), if_neg hnot, h.order, if_pos rfl]
  rw [MatchingEngine.queued_settled hb' (h.top hb hlate hbid) (h.top hb hlate hask),
    MatchingEngine.queued_settled hb hbid hask, h.queue, List.filter_append, hfilter,
    filter_joining (by simpa using hnew), List.map_append, map_joining, hlast]
  congr 1
  apply List.map_congr_left
  exact fun q hq => horder q (hold q (List.mem_of_mem_filter hq))

end Trade

/-! ### Exchanging the match with the orders -/

section Exchange

variable {e : MatchingEngine}

/-- After a match slots are free if they were before, and at least as many. -/
theorem length_freeStack_match (hb : WellFormed e.orderBook) :
    e.orderBook.freeStack.length ≤ (machine.next e .matchLimitOrders).orderBook.freeStack.length := by
  refine step_induction (c := .matchLimitOrders)
    (P := fun _ e' => e.orderBook.freeStack.length ≤ e'.orderBook.freeStack.length) hb fun r e' h => ?_
  cases h with
  | oneSided | uncrossed => exact Nat.le_refl _
  | traded =>
    rw [length_freeStack_settled]
    exact Nat.le_add_right _ _

/-- Exchanged on an uncrossed book: the match changes nothing, with the order and without it. -/
theorem Added.next_match_uncrossed {o : Order} {p : Nat} {e₁ : MatchingEngine} (h : Added e o p e₁)
    (hb : WellFormed e.orderBook) (hb₁ : WellFormed e₁.orderBook) (hlate : NoBetter e.orderBook o)
    (huncrossed : Uncrossed e.orderBook) : e₁.step .matchLimitOrders = (.matched (.ok none), e₁) := by
  rcases match_cases hb₁ with ⟨-, hstep⟩ | ⟨_, _, _, _, hcrossed, -⟩
  · exact hstep
  · exact absurd (h.uncrossed hb hb₁ hlate huncrossed) hcrossed

/-- Exchanged with a trade: the order that comes after the trade may be given another slot. -/
theorem Added.renamed_traded {o : Order} {p p' lb la bid ask : Nat} {e₁ e₂ : MatchingEngine}
    (h : Added e o p e₁) (hb : WellFormed e.orderBook) (hb₁ : WellFormed e₁.orderBook)
    (hb₂ : WellFormed e₂.orderBook) (hlate : NoBetter e.orderBook o) (hbid : e.orderBook.Top .bid lb bid)
    (hask : e.orderBook.Top .ask la ask)
    (h' : Added { e with orderBook := e.orderBook.settled lb la bid ask } o p' e₂)
    (hlevels : ∀ s, (e₂.orderBook.priceLevel s).size = (e₁.orderBook.priceLevel s).size) :
    Renamed e₂ { e₁ with orderBook := e₁.orderBook.settled lb la bid ask } := by
  have hbid₁ := h.top hb hlate hbid
  have hask₁ := h.top hb hlate hask
  refine ⟨hb₂, wellFormed_settled hb₁ hbid₁ hask₁, fun s l => ?_, fun s => ?_, ?_,
    h'.counter.trans h.counter.symm⟩
  · rw [h'.queued]
    exact (h.queued_settled hb hb₁ hlate hbid hask s l).symm
  · rw [hlevels]
    exact (size_priceLevel_settled hb₁ hbid₁ hask₁ s).symm
  · have hcount := h.free
    have hcount' := h'.free
    rw [length_freeStack_settled] at hcount' ⊢
    rw [h.order_reduced hb hbid hask (h.ne_top hask), h.order_reduced hb hbid hask (h.ne_top hbid)]
    omega

/-- A match and a late order can be exchanged. -/
theorem exchange_match_add (hb : WellFormed e.orderBook) (hfree : e.orderBook.freeStack ≠ []) {o : Order}
    (hlate : NoBetter e.orderBook o) :
    (machine.step e .matchLimitOrders).1 = (machine.step (machine.next e (.addOrder o)) .matchLimitOrders).1 ∧
      (machine.step (machine.next e .matchLimitOrders) (.addOrder o)).1 = (machine.step e (.addOrder o)).1 ∧
      Renamed (machine.next (machine.next e .matchLimitOrders) (.addOrder o))
        (machine.next (machine.next e (.addOrder o)) .matchLimitOrders) := by
  obtain ⟨p, rest, hstack⟩ := List.exists_cons_of_ne_nil hfree
  have hadded := added_next hb hstack o
  have hb₁ := wellFormed_next hb (.addOrder o)
  show (e.step _).1 = ((machine.next e (.addOrder o)).step _).1 ∧
    ((machine.next e .matchLimitOrders).step _).1 = (e.step _).1 ∧ _
  rcases match_cases hb with ⟨huncrossed, hstep⟩ | ⟨lb, la, bid, ask, -, hbid, hask, hle, hstep⟩
  · have hstep₁ := hadded.next_match_uncrossed hb hb₁ hlate huncrossed
    rw [hstep, hstep₁, next_of_step hstep, next_of_step hstep₁]
    exact ⟨rfl, rfl, .refl hb₁⟩
  · have hstep₁ := (Effect.traded (hadded.top hb hlate hbid) (hadded.top hb hlate hask) hle).step_eq hb₁
    have hvolume := hadded.tradeVolume hbid hask
    have hb' := wellFormed_next hb .matchLimitOrders
    obtain ⟨p', rest', hstack'⟩ := List.exists_cons_of_length_pos
      (Nat.lt_of_lt_of_le (List.length_pos_iff.mpr hfree) (length_freeStack_match hb))
    have hadded' := added_next hb' hstack' o
    refine ⟨by rw [hstep, hstep₁, hvolume], ?_, ?_⟩
    · rw [reply_addOrder hb' (by simp [hstack']), reply_addOrder hb hfree, next_of_step hstep]
      rfl
    · have hlevels : ∀ s, ((machine.next (machine.next e .matchLimitOrders) (.addOrder o)).orderBook.priceLevel
          s).size = ((machine.next e (.addOrder o)).orderBook.priceLevel s).size := fun s => by
        rw [size_priceLevel_next hb', size_priceLevel_next hb, size_priceLevel_next hb]
      have hb₂ := wellFormed_next hb' (.addOrder o)
      rw [next_of_step hstep₁]
      rw [next_of_step hstep] at hadded' hlevels hb₂ ⊢
      exact hadded.renamed_traded hb hb₁ hb₂ hlate hbid hask hadded' hlevels

/-- A slot is free for the order, and the order is no better. -/
def Late (e : MatchingEngine) (c : Call) : Prop :=
  ∃ o, c = .addOrder o ∧ e.orderBook.freeStack ≠ [] ∧ NoBetter e.orderBook o

theorem along_late (hb : WellFormed e.orderBook) {os : List Order}
    (hslots : os.length ≤ e.orderBook.freeStack.length) (hlate : ∀ o ∈ os, NoBetter e.orderBook o) :
    machine.Along Late e (os.map .addOrder) := by
  induction os generalizing e with
  | nil => trivial
  | cons o os ih =>
    obtain ⟨ho, hos⟩ := List.forall_mem_cons.mp hlate
    rw [List.length_cons] at hslots
    obtain ⟨p, rest, hfree⟩ := List.exists_cons_of_length_pos
      (show 0 < e.orderBook.freeStack.length by omega)
    have hadded := added_next hb hfree o
    have hcount := hadded.free
    refine ⟨⟨o, rfl, by simp [hfree], ho⟩, ih (wellFormed_next hb _) (by omega) fun o' ho' => ?_⟩
    exact hadded.noBetter hb ho (hos o' ho')

end Exchange

/-- Whether these orders are added before the match or after it makes no difference. -/
structure Unaffected (e : MatchingEngine) (os : List Order) : Prop where
  trade : (e.step .matchLimitOrders).1 = ((machine.run e (os.map .addOrder)).step .matchLimitOrders).1
  ids : machine.outputs (machine.next e .matchLimitOrders) (os.map .addOrder) =
    machine.outputs e (os.map .addOrder)
  queues : ∀ s l, (machine.run e (.matchLimitOrders :: os.map .addOrder)).orderBook.queued s l =
    (machine.run e (os.map .addOrder ++ [.matchLimitOrders])).orderBook.queued s l
  bitmaps : ∀ s, (machine.run e (.matchLimitOrders :: os.map .addOrder)).orderBook.bitmap s =
    (machine.run e (os.map .addOrder ++ [.matchLimitOrders])).orderBook.bitmap s

/-- **Late orders that are no better cannot affect the pending match.** -/
theorem unaffected_of_noBetter {e : MatchingEngine} (h : Reachable e) {os : List Order}
    (hslots : os.length ≤ e.orderBook.freeStack.length) (hlate : ∀ o ∈ os, NoBetter e.orderBook o) :
    Unaffected e os := by
  have hb := h.wellFormed
  obtain ⟨htrade, hids, hrenamed⟩ := Machine.exchange_run (M := machine) (R := Renamed)
    (I := fun e : MatchingEngine => WellFormed e.orderBook) (Q := fun c => ∃ o, c = .addOrder o)
    (fun _ c hb => wellFormed_next hb c) (fun _ hb => .refl hb) (fun _ _ _ h h' => h.trans h')
    (by rintro e e' c hrenamed ⟨o, rfl⟩; exact hrenamed.add o)
    (by rintro e c hb ⟨o, rfl, hfree, hlate⟩; exact exchange_match_add hb hfree hlate)
    (along_late hb hslots hlate) (by simp) hb
  have hlast : machine.run e (os.map .addOrder ++ [.matchLimitOrders]) =
      machine.next (machine.run e (os.map .addOrder)) .matchLimitOrders := Machine.run_append _ _ _
  refine ⟨htrade, hids, fun s l => ?_, fun s => ?_⟩
  · rw [hlast]
    exact hrenamed.queued s l
  · rw [hlast]
    exact hrenamed.bitmaps s

/-- The match fills the bid and empties its level, which the late bid opens again; the late ask joins the ask
that is left. -/
theorem unaffected_example :
    Unaffected (machine.run (new 101 0) [.addOrder ⟨.bid, 5, [], 0, ⟨1000⟩⟩, .addOrder ⟨.ask, 8, [], 0, ⟨990⟩⟩])
      [⟨.bid, 7, [], 0, ⟨1000⟩⟩, ⟨.ask, 4, [], 0, ⟨990⟩⟩] := by
  have hreach : Reachable (machine.run (new 101 0)
      [.addOrder ⟨.bid, 5, [], 0, ⟨1000⟩⟩, .addOrder ⟨.ask, 8, [], 0, ⟨990⟩⟩]) := ⟨0, _, rfl⟩
  refine unaffected_of_noBetter hreach (by decide +kernel) fun o ho => ?_
  rw [List.mem_pair] at ho
  rcases ho with rfl | rfl
  · exact noBetter_of_findBestLevel hreach.wellFormed 50 50 (by decide +kernel) (by decide) (Nat.le_refl 50)
  · exact noBetter_of_findBestLevel hreach.wellFormed 40 40 (by decide +kernel) (by decide) (Nat.le_refl 40)

end MatchingEngine

end TradingSystem
