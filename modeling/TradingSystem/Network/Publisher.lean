import TradingSystem.Engine.Effect
import TradingSystem.Model.Network

/-!
# The publisher

Each access of the publisher on a well-formed book, and what an iteration sends that nothing interrupts: the
prices and volumes of the two best levels, or nothing when a side is empty. So a book with orders on one side
is published as an empty one. On a book with both sides the snapshot is right when no price is so wide that
its low 32 bits alone decide its level.
-/

namespace TradingSystem

open Lib Lib.Effects OrderBook MatchingEngine

namespace OrderBook

/-- The price of level `l` as the publisher reads it off an order. -/
def tickPrice (l : Nat) : UInt64 := widen (950 + l)

theorem toNat_tickPrice {l : Nat} (hl : l < 101) : (tickPrice l).toNat = 950 + l := by
  rw [tickPrice, toNat_widen]
  omega

end OrderBook

namespace UDPServer

variable {b : OrderBook} {lb la bid ask : Nat} {bidPrice askPrice bidVol : UInt64}

/-! ### One access -/

/-- Any exception sends the empty snapshot. -/
theorem advance_error {progress : Progress} {e : Exn} (h : access progress b = .error e b)
    (he : e ≠ .undefined) : advance progress b = .ok (.sent .zero) b := by
  rw [advance, tryCatch_error h]
  cases e with
  | undefined => exact absurd rfl he
  | runtimeError | invalidArgument | logicError => rfl

theorem advance_ok {progress progress' : Progress} (h : access progress b = .ok progress' b) :
    advance progress b = .ok progress' b := tryCatch_ok h _

theorem advance_begun (hb : WellFormed b) (h : b.Top .bid lb bid) :
    advance .begun b = .ok (.haveBid bid) b := by
  apply advance_ok
  rw [access, bind_ok (getBestBid_top hb h)]
  rfl

theorem advance_begun_empty (hb : WellFormed b) (h : ∀ l, b.queue .bid l = []) :
    advance .begun b = .ok (.sent .zero) b :=
  advance_error (bind_error (getBest_empty hb h _) _) nofun

theorem advance_haveBid (hb : WellFormed b) (h : b.Top .ask la ask) :
    advance (.haveBid bid) b = .ok (.haveBoth bid ask) b := by
  apply advance_ok
  rw [access, bind_ok (getBestAsk_top hb h)]
  rfl

theorem advance_haveBid_empty (hb : WellFormed b) (h : ∀ l, b.queue .ask l = []) :
    advance (.haveBid bid) b = .ok (.sent .zero) b :=
  advance_error (bind_error (getBest_empty hb h _) _) nofun

theorem advance_haveBoth : advance (.haveBoth bid ask) b =
    .ok (.haveBidPrice bid ask (widen (b.order bid).getPrice.getPriceInTicks)) b := rfl

theorem advance_haveBidPrice : advance (.haveBidPrice bid ask bidPrice) b =
    .ok (.havePrices bid ask bidPrice (widen (b.order ask).getPrice.getPriceInTicks)) b := rfl

theorem advance_havePrices (hb : WellFormed b) (h : levelOf (b.order bid).mPrice = some lb) :
    advance (.havePrices bid ask bidPrice askPrice) b =
      .ok (.haveBidVolume bid ask bidPrice askPrice (b.volumeOf (b.queue .bid lb))) b := by
  apply advance_ok
  rw [access, deref_bind, Order.getPrice, bind_ok (getVolumeAtLevelFromPrice_run hb h)]
  rfl

theorem advance_havePrices_refused (h : levelOf (b.order bid).mPrice = none) :
    advance (.havePrices bid ask bidPrice askPrice) b = .ok (.sent .zero) b := by
  refine advance_error (e := .invalidArgument "Invalid price to bid/ask") ?_ nofun
  rw [access, deref_bind, Order.getPrice, bind_error (getVolumeAtLevelFromPrice_refused h)]

theorem advance_haveBidVolume (hb : WellFormed b) (h : levelOf (b.order ask).mPrice = some la) :
    advance (.haveBidVolume bid ask bidPrice askPrice bidVol) b =
      .ok (.sent ⟨bidPrice, askPrice, bidVol, b.volumeOf (b.queue .ask la)⟩) b := by
  apply advance_ok
  rw [access, deref_bind, Order.getPrice, bind_ok (getVolumeAtLevelFromPrice_run hb h)]
  rfl

theorem advance_haveBidVolume_refused (h : levelOf (b.order ask).mPrice = none) :
    advance (.haveBidVolume bid ask bidPrice askPrice bidVol) b = .ok (.sent .zero) b := by
  refine advance_error (e := .invalidArgument "Invalid price to bid/ask") ?_ nofun
  rw [access, deref_bind, Order.getPrice, bind_error (getVolumeAtLevelFromPrice_refused h)]

theorem advance_sent (snapshot : MarketDataSnapshot) : advance (.sent snapshot) b = .ok (.sent snapshot) b := rfl

/-! ### An iteration that nothing interrupts -/

theorem publish_both (hb : WellFormed b) (hbid : b.Top .bid lb bid) (hask : b.Top .ask la ask) :
    publish b = .ok (.sent ⟨tickPrice lb, tickPrice la, b.volumeOf (b.queue .bid lb),
      b.volumeOf (b.queue .ask la)⟩) b := by
  rw [publish, bind_ok (advance_begun hb hbid), bind_ok (advance_haveBid hb hask), bind_ok advance_haveBoth,
    bind_ok advance_haveBidPrice, price_top hb hbid, price_top hb hask,
    bind_ok (advance_havePrices hb (hb.filed .bid lb bid hbid.mem).2),
    advance_haveBidVolume hb (hb.filed .ask la ask hask.mem).2]
  rfl

/-- A side without orders empties the whole snapshot. -/
theorem publish_empty (hb : WellFormed b) {s : Side} (h : ∀ l, b.queue s l = []) :
    publish b = .ok (.sent .zero) b := by
  rcases top_or_empty hb .bid with hnone | ⟨lb, bid, hbid⟩
  · rw [publish, bind_ok (advance_begun_empty hb hnone)]
    rfl
  · cases s with
    | bid => exact absurd (h lb) hbid.1.1
    | ask =>
      rw [publish, bind_ok (advance_begun hb hbid), bind_ok (advance_haveBid_empty hb h)]
      rfl

/-! ### Does the snapshot report the book? -/

/-- The slots of the resting orders of a side. -/
def restingOn (b : OrderBook) (s : Side) : List Nat := Buckets.contents (b.priceLevel s)

/-- The price of an order, in 64 bits. -/
def priceOf (b : OrderBook) (p : Nat) : UInt64 := (b.order p).mPrice.mPriceValueInCent

/-- Price `x` is at least as good as `y` for side `s`. -/
def atLeastAsGood (s : Side) (x y : UInt64) : Prop :=
  match s with
  | .bid => y ≤ x
  | .ask => x ≤ y

/-- `price` is the best price of a resting order of side `s`, and `volume` the sum of the volumes of the side at
this price; or both are 0 and the side is empty. -/
def Reports (b : OrderBook) (s : Side) (price volume : UInt64) : Prop :=
  (restingOn b s = [] ∧ price = 0 ∧ volume = 0) ∨
    (∃ p ∈ restingOn b s, priceOf b p = price) ∧ (∀ p ∈ restingOn b s, atLeastAsGood s price (priceOf b p)) ∧
      volume = b.volumeOf ((restingOn b s).filter fun p => priceOf b p = price)

/-- The iteration sends the best prices and their volumes. -/
def PublishesBook (b : OrderBook) : Prop :=
  ∃ snapshot, publish b = .ok (.sent snapshot) b ∧ Reports b .bid snapshot.bestBid snapshot.bidVolume ∧
    Reports b .ask snapshot.bestAsk snapshot.askVolume

/-- A price that is more than its low 32 bits. -/
def Wide (b : OrderBook) (p : Nat) : Prop := 2 ^ 32 ≤ (priceOf b p).toNat

instance (b : OrderBook) : DecidablePred (Wide b) := fun p =>
  inferInstanceAs (Decidable (2 ^ 32 ≤ (priceOf b p).toNat))

/-- No bid has a wide price, and at the best level of the asks one has none, and those that have one add no
volume. -/
def NarrowPrices (b : OrderBook) : Prop :=
  (∀ p ∈ restingOn b .bid, ¬ Wide b p) ∧
    ∀ l, IsBest b .ask l → (∃ p ∈ b.queue .ask l, ¬ Wide b p) ∧ b.volumeOf ((b.queue .ask l).filter (Wide b)) = 0

theorem mem_restingOn {s : Side} {p : Nat} : p ∈ restingOn b s ↔ ∃ l, p ∈ b.queue s l := Buckets.mem_contents _

theorem restingOn_eq_nil {s : Side} : restingOn b s = [] ↔ ∀ l, b.queue s l = [] := by
  simp only [List.eq_nil_iff_forall_not_mem, mem_restingOn, not_exists]
  exact forall_comm

theorem nodup_restingOn (hb : WellFormed b) (s : Side) : (restingOn b s).Nodup := by
  have h := List.nodup_append.mp (List.nodup_append.mp hb.nodup).1
  cases s with
  | bid => exact h.1
  | ask => exact h.2.1

theorem priceOf_mod (hb : WellFormed b) {s : Side} {l p : Nat} (hp : p ∈ b.queue s l) :
    l < 101 ∧ (priceOf b p).toNat % 2 ^ 32 = 950 + l :=
  levelOf_eq_some.mp (hb.filed s l p hp).2

theorem level_of_priceOf (hb : WellFormed b) {s : Side} {l l' p : Nat} (hl : l < 101) (hp : p ∈ b.queue s l')
    (hprice : priceOf b p = tickPrice l) : l' = l := by
  have hmod := (priceOf_mod hb hp).2
  rw [hprice, toNat_tickPrice hl] at hmod
  omega

/-- A price is that of its level, unless it is wide. -/
theorem not_wide_iff (hb : WellFormed b) {s : Side} {l p : Nat} (hp : p ∈ b.queue s l) :
    ¬ Wide b p ↔ priceOf b p = tickPrice l := by
  obtain ⟨hl, hmod⟩ := priceOf_mod hb hp
  rw [← UInt64.toNat_inj, toNat_tickPrice hl, Wide]
  omega

theorem tickPrice_le_priceOf (hb : WellFormed b) {s : Side} {l l' p : Nat} (hl : l < 101) (hle : l ≤ l')
    (hp : p ∈ b.queue s l') : tickPrice l ≤ priceOf b p := by
  obtain ⟨-, hmod⟩ := priceOf_mod hb hp
  rw [UInt64.le_iff_toNat_le, toNat_tickPrice hl]
  omega

/-! ### Sums of volumes -/

theorem foldl_volume (total : UInt64) (q : List Nat) :
    q.foldl (fun total p => total + (b.order p).mVolume) total = total + b.volumeOf q := by
  induction q generalizing total with
  | nil => exact (UInt64.add_zero total).symm
  | cons p q ih =>
    rw [volumeOf, List.foldl_cons, List.foldl_cons, ih, ih, UInt64.zero_add, UInt64.add_assoc]

theorem volumeOf_append (q q' : List Nat) : b.volumeOf (q ++ q') = b.volumeOf q + b.volumeOf q' := by
  rw [volumeOf, List.foldl_append]
  exact foldl_volume _ q'

theorem volumeOf_perm {q q' : List Nat} (h : q.Perm q') : b.volumeOf q = b.volumeOf q' := by
  refine h.foldl_eq' (fun p _ p' _ total => ?_) 0
  rw [UInt64.add_assoc, UInt64.add_assoc, UInt64.add_comm (b.order p).mVolume]

/-- The volume at the price of a level is that of its queue, less what the wide orders in it add. -/
theorem volume_at_tickPrice (hb : WellFormed b) {l : Nat} (hl : l < 101) (s : Side) :
    b.volumeOf (b.queue s l) = b.volumeOf ((restingOn b s).filter fun p => priceOf b p = tickPrice l) +
      b.volumeOf ((b.queue s l).filter (Wide b)) := by
  have hsame : ((restingOn b s).filter fun p => priceOf b p = tickPrice l).Perm
      ((b.queue s l).filter fun p => ! Wide b p) := by
    rw [List.perm_ext_iff_of_nodup ((nodup_restingOn hb s).filter _) ((hb.queue_nodup s l).filter _)]
    intro p
    simp only [List.mem_filter, mem_restingOn, decide_eq_true_eq, Bool.not_eq_true', decide_eq_false_iff_not]
    constructor
    · rintro ⟨⟨l', hp⟩, hprice⟩
      obtain rfl := level_of_priceOf hb hl hp hprice
      exact ⟨hp, (not_wide_iff hb hp).mpr hprice⟩
    · rintro ⟨hp, hwide⟩
      exact ⟨⟨l, hp⟩, (not_wide_iff hb hp).mp hwide⟩
  calc b.volumeOf (b.queue s l)
      = b.volumeOf ((b.queue s l).filter (Wide b) ++ (b.queue s l).filter fun p => ! Wide b p) :=
        volumeOf_perm (List.filter_append_perm _ _).symm
    _ = b.volumeOf ((b.queue s l).filter (Wide b)) +
        b.volumeOf ((b.queue s l).filter fun p => ! Wide b p) := volumeOf_append _ _
    _ = b.volumeOf ((restingOn b s).filter fun p => priceOf b p = tickPrice l) +
        b.volumeOf ((b.queue s l).filter (Wide b)) := by rw [volumeOf_perm hsame, UInt64.add_comm]

/-! ### What each side reports -/

theorem reports_zero_iff (hb : WellFormed b) {s : Side} : Reports b s 0 0 ↔ restingOn b s = [] := by
  constructor
  · rintro (⟨hnone, -, -⟩ | ⟨⟨p, hp, hprice⟩, -, -⟩)
    · exact hnone
    · -- a resting order has a price that is not 0
      obtain ⟨l, hp⟩ := mem_restingOn.mp hp
      have hmod := (priceOf_mod hb hp).2
      rw [hprice, UInt64.toNat_zero] at hmod
      omega
  · exact fun hnone => Or.inl ⟨hnone, rfl, rfl⟩

theorem reports_best_iff (hb : WellFormed b) {s : Side} {l : Nat} (h : IsBest b s l) :
    Reports b s (tickPrice l) (b.volumeOf (b.queue s l)) ↔
      (∃ p ∈ b.queue s l, ¬ Wide b p) ∧ (∀ p ∈ restingOn b s, atLeastAsGood s (tickPrice l) (priceOf b p)) ∧
        b.volumeOf ((b.queue s l).filter (Wide b)) = 0 := by
  have hl := h.lt hb
  have hsome : restingOn b s ≠ [] := fun hnone => h.1 (restingOn_eq_nil.mp hnone l)
  have hprice : (∃ p ∈ restingOn b s, priceOf b p = tickPrice l) ↔ ∃ p ∈ b.queue s l, ¬ Wide b p := by
    constructor
    · rintro ⟨p, hp, hprice⟩
      obtain ⟨l', hp⟩ := mem_restingOn.mp hp
      obtain rfl := level_of_priceOf hb hl hp hprice
      exact ⟨p, hp, (not_wide_iff hb hp).mpr hprice⟩
    · rintro ⟨p, hp, hwide⟩
      exact ⟨p, mem_restingOn.mpr ⟨l, hp⟩, (not_wide_iff hb hp).mp hwide⟩
  simp only [Reports, hsome, false_and, false_or, hprice]
  rw [volume_at_tickPrice hb hl s, UInt64.add_eq_left]

theorem reports_bid_iff (hb : WellFormed b) (h : IsBest b .bid lb) :
    Reports b .bid (tickPrice lb) (b.volumeOf (b.queue .bid lb)) ↔ ∀ p ∈ restingOn b .bid, ¬ Wide b p := by
  have hl := h.lt hb
  rw [reports_best_iff hb h]
  constructor
  · rintro ⟨-, hbest, -⟩ p hp hwide
    have hle : (priceOf b p).toNat ≤ (tickPrice lb).toNat := UInt64.le_iff_toNat_le.mp (hbest p hp)
    rw [toNat_tickPrice hl] at hle
    exact absurd (Nat.le_trans hwide hle) (by omega)
  · intro hnarrow
    have hqueue : ∀ p ∈ b.queue .bid lb, ¬ Wide b p := fun p hp => hnarrow p (mem_restingOn.mpr ⟨lb, hp⟩)
    obtain ⟨p, hp⟩ := List.exists_mem_of_ne_nil _ h.1
    refine ⟨⟨p, hp, hqueue p hp⟩, fun q hq => ?_, ?_⟩
    · obtain ⟨l, hql⟩ := mem_restingOn.mp hq
      have hle : l ≤ lb := h.2 l (List.ne_nil_of_mem hql)
      show priceOf b q ≤ tickPrice lb
      rw [(not_wide_iff hb hql).mp (hnarrow q hq), UInt64.le_iff_toNat_le, toNat_tickPrice hl,
        toNat_tickPrice (hb.level_lt hql)]
      omega
    · have hnone : (b.queue .bid lb).filter (Wide b) = [] := by
        rw [List.filter_eq_nil_iff]
        simpa using hqueue
      rw [hnone]
      rfl

theorem reports_ask_iff (hb : WellFormed b) (h : IsBest b .ask la) :
    Reports b .ask (tickPrice la) (b.volumeOf (b.queue .ask la)) ↔
      (∃ p ∈ b.queue .ask la, ¬ Wide b p) ∧ b.volumeOf ((b.queue .ask la).filter (Wide b)) = 0 := by
  have hbest : ∀ p ∈ restingOn b .ask, atLeastAsGood .ask (tickPrice la) (priceOf b p) := by
    intro p hp
    obtain ⟨l, hp⟩ := mem_restingOn.mp hp
    exact tickPrice_le_priceOf hb (h.lt hb) (h.2 l (List.ne_nil_of_mem hp)) hp
  rw [reports_best_iff hb h]
  exact and_congr_right fun _ => and_iff_right hbest

theorem publishesBook_of_sent {snapshot : MarketDataSnapshot} (h : publish b = .ok (.sent snapshot) b) :
    PublishesBook b ↔ Reports b .bid snapshot.bestBid snapshot.bidVolume ∧
      Reports b .ask snapshot.bestAsk snapshot.askVolume := by
  constructor
  · rintro ⟨snapshot', hsent, hreports⟩
    rw [h] at hsent
    cases hsent
    exact hreports
  · exact fun hreports => ⟨snapshot, h, hreports⟩

theorem publishesBook_of_empty (hb : WellFormed b) {s : Side} (h : restingOn b s = []) :
    PublishesBook b ↔ ∀ s, restingOn b s = [] := by
  rw [publishesBook_of_sent (publish_empty hb (restingOn_eq_nil.mp h))]
  constructor
  · rintro ⟨hbid, hask⟩ s
    cases s with
    | bid => exact (reports_zero_iff hb).mp hbid
    | ask => exact (reports_zero_iff hb).mp hask
  · exact fun hnone => ⟨(reports_zero_iff hb).mpr (hnone .bid), (reports_zero_iff hb).mpr (hnone .ask)⟩

theorem publishesBook_of_both (hb : WellFormed b) (hbid : b.Top .bid lb bid) (hask : b.Top .ask la ask) :
    PublishesBook b ↔ NarrowPrices b := by
  rw [publishesBook_of_sent (publish_both hb hbid hask), reports_bid_iff hb hbid.1, reports_ask_iff hb hask.1]
  refine and_congr_right fun _ => ⟨fun h l hl => ?_, fun h => h la hask.1⟩
  obtain rfl := hask.1.unique hl
  exact h

/-- **The snapshot reports the book** exactly when no order rests, or orders rest on both sides and the wide
prices among them do not matter. -/
theorem publishesBook_iff {e : MatchingEngine} (h : Reachable e) : PublishesBook e.orderBook ↔
    (∀ s, restingOn e.orderBook s = []) ∨
      (∀ s, restingOn e.orderBook s ≠ []) ∧ NarrowPrices e.orderBook := by
  have hb := h.wellFormed
  by_cases hsome : ∀ s, restingOn e.orderBook s ≠ []
  · have htop : ∀ s, ∃ l p, e.orderBook.Top s l p := fun s =>
      (top_or_empty hb s).resolve_left fun hnone => hsome s (restingOn_eq_nil.mpr hnone)
    obtain ⟨lb, bid, hbid⟩ := htop .bid
    obtain ⟨la, ask, hask⟩ := htop .ask
    rw [publishesBook_of_both hb hbid hask, and_iff_right hsome,
      or_iff_right fun hnone => hsome .bid (hnone .bid)]
  · obtain ⟨s, hs⟩ := not_forall_not.mp hsome
    rw [publishesBook_of_empty hb hs, or_iff_left fun h => hsome h.1]

/-- A bid at 1000, and asks at 1010 and 1020. -/
theorem publishesBook_example :
    PublishesBook (machine.run (new 101 0) [.addOrder ⟨.bid, 5, [], 0, ⟨1000⟩⟩,
      .addOrder ⟨.ask, 3, [], 0, ⟨1010⟩⟩, .addOrder ⟨.ask, 4, [], 0, ⟨1020⟩⟩]).orderBook := by
  have hreach : Reachable (machine.run (new 101 0) [.addOrder ⟨.bid, 5, [], 0, ⟨1000⟩⟩,
      .addOrder ⟨.ask, 3, [], 0, ⟨1010⟩⟩, .addOrder ⟨.ask, 4, [], 0, ⟨1020⟩⟩]) := ⟨0, _, rfl⟩
  refine (publishesBook_iff hreach).mpr (Or.inr ⟨?_, ?_, fun l hl => ?_⟩)
  · rintro (_ | _) <;> decide +kernel
  · decide +kernel
  · have hbest := hl.findBestLevel hreach.wellFormed
    have hlevel : (60 : Int) = l := by
      rw [← hbest]
      decide +kernel
    obtain rfl : l = 60 := by omega
    exact ⟨⟨9998, by decide +kernel, by decide +kernel⟩, by decide +kernel⟩

/-- A bid rests and no ask does, and the snapshot has no bid. -/
theorem one_side_not_published :
    let b := (machine.run (new 101 0) [.addOrder ⟨.bid, 5, [], 0, ⟨1000⟩⟩]).orderBook
    publish b = .ok (.sent .zero) b ∧ restingOn b .bid = [9999] ∧ ¬ PublishesBook b := by
  intro b
  have hb : WellFormed b := Reachable.wellFormed ⟨0, [.addOrder ⟨.bid, 5, [], 0, ⟨1000⟩⟩], rfl⟩
  have hnone : restingOn b .ask = [] := by decide +kernel
  have hsome : restingOn b .bid = [9999] := by decide +kernel
  refine ⟨publish_empty hb (restingOn_eq_nil.mp hnone), hsome, fun h => ?_⟩
  have hall := (publishesBook_of_empty hb hnone).mp h .bid
  rw [hsome] at hall
  cases hall

end UDPServer

end TradingSystem
