import TradingSystem.Reference.Levels

/-!
# Bids and asks

The two sides of the book have code of their own: two bitmaps that are read from opposite ends, two sets of levels,
and a match that fills the ask before the bid. They are treated alike all the same. In a mirror every bid is an ask,
and a price lies as far from 1000 on the other side of it. A run of mirrored calls gives the mirrored answers: the
same ids, rejections and confirmations, and at the same calls a trade of the same two orders with the same volume.
Only the price knows the sides: a trade is made at the price of the ask, so what the two limits leave between them is
the buyer's, and in the mirror too.
-/

namespace TradingSystem

open Lib OrderBook MatchingEngine

def Side.other : Side → Side
  | .bid => .ask
  | .ask => .bid

/-- The price that is as far from 1000 on the other side of it; a price that has no level stays. -/
def Price.mirror (price : Price) : Price :=
  match levelOf price with
  | some l => Price.ofInt (startOfPrice + (100 - l : Nat))
  | none => price

def Order.mirror (o : Order) : Order := { o with bidOrAsk := o.bidOrAsk.other, mPrice := o.mPrice.mirror }

def MatchingEngine.Call.mirror : Call → Call
  | .addOrder o => .addOrder o.mirror
  | .cancelOrder orderId => .cancelOrder orderId
  | .matchLimitOrders => .matchLimitOrders

/-- The answers to a call and to its mirror image. -/
inductive Mirrored : Answer → Answer → Prop
  | added (result : Except Exn UInt64) : Mirrored (.added result) (.added result)
  | cancelled (result : Except Exn Unit) : Mirrored (.cancelled result) (.cancelled result)
  | idle : Mirrored (.matched (.ok none)) (.matched (.ok none))
  | traded {k k' volume price price' : UInt64} (hprice : price.toNat + price'.toNat ≤ 2000) :
    Mirrored (.matched (.ok (some ⟨k, k', volume, price⟩))) (.matched (.ok (some ⟨k', k, volume, price'⟩)))

theorem Side.other_other (s : Side) : s.other.other = s := by cases s <;> rfl

theorem Side.other_eq_iff {s s' : Side} : s.other = s' ↔ s = s'.other := by cases s <;> cases s' <;> decide

theorem levelOf_mirror (price : Price) : levelOf price.mirror = (levelOf price).map (100 - ·) := by
  rw [Price.mirror]
  cases hlevel : levelOf price with
  | none => exact hlevel
  | some l => exact levelOf_ofInt (by omega)

namespace LevelBook

def mirror (r : LevelBook) : LevelBook where
  queue s l := if l < 101 then (r.queue s.other (100 - l)).map Order.mirror else []
  entry i := (r.entry i).map fun place => (place.1.other, 100 - place.2)
  free := r.free
  counter := r.counter

/-- Every entry leads to a level. -/
def Leading (r : LevelBook) : Prop := ∀ i s l, r.entry i = some (s, l) → l < 101

variable {r : LevelBook} {s : Side} {l : Nat} {o : Order} {k : UInt64}

theorem mirror_new (counter : UInt64) : (new counter).mirror = new counter := by
  refine LevelBook.ext ?_ rfl rfl rfl
  funext s l
  simp [mirror, new]

theorem queue_mirror (hl : l < 101) : r.mirror.queue s.other (100 - l) = (r.queue s l).map Order.mirror := by
  have hback : 100 - (100 - l) = l := by omega
  simp only [mirror]
  rw [if_pos (by omega), Side.other_other, hback]

theorem mirror_setQueue (hl : l < 101) (q : List Order) :
    (r.setQueue s l q).mirror = r.mirror.setQueue s.other (100 - l) (q.map Order.mirror) := by
  refine LevelBook.ext ?_ rfl rfl rfl
  funext s' l'
  simp only [mirror, setQueue]
  by_cases hl' : l' < 101
  · have hplace : (s'.other = s ∧ 100 - l' = l) ↔ (s' = s.other ∧ l' = 100 - l) := by
      rw [Side.other_eq_iff]
      refine and_congr_right fun _ => ?_
      omega
    rw [if_pos hl', if_pos hl', if_congr hplace rfl rfl]
    split_ifs <;> rfl
  · rw [if_neg hl', if_neg hl', if_neg]
    rintro ⟨-, rfl⟩
    omega

theorem mirror_setEntry (place : Option (Side × Nat)) : (r.setEntry k place).mirror =
    r.mirror.setEntry k (place.map fun place => (place.1.other, 100 - place.2)) := by
  refine LevelBook.ext rfl ?_ rfl rfl
  funext i
  simp only [mirror, setEntry]
  split_ifs <;> rfl

theorem mirror_replaced (hl : l < 101) (q : List Order) (place : Option (Side × Nat)) :
    ((r.setQueue s l q).setEntry k place).mirror =
      (r.mirror.setQueue s.other (100 - l) (q.map Order.mirror)).setEntry k
        (place.map fun place => (place.1.other, 100 - place.2)) := by
  rw [mirror_setEntry, mirror_setQueue hl]

/-! ### Adds and cancels -/

theorem addOrder_mirror (r : LevelBook) (o : Order) :
    r.mirror.addOrder o.mirror = ((r.addOrder o).1, (r.addOrder o).2.mirror) := by
  have hfree : r.mirror.free = r.free := rfl
  have hlevel : levelOf o.mirror.mPrice = (levelOf o.mPrice).map (100 - ·) := levelOf_mirror o.mPrice
  simp only [addOrder, hfree, hlevel]
  split_ifs with hfull
  · rfl
  · cases hlevel : levelOf o.mPrice with
    | none => rfl
    | some l =>
      have hl : l < 101 := (levelOf_eq_some.mp hlevel).1
      have hqueue : r.mirror.queue o.mirror.bidOrAsk (100 - l) = (r.queue o.bidOrAsk l).map Order.mirror :=
        queue_mirror hl
      simp only [Option.map_some, mirror_replaced hl, List.map_append, hqueue]
      rfl

theorem cancelOrder_mirror (h : r.Leading) (k : UInt64) :
    r.mirror.cancelOrder k = ((r.cancelOrder k).1, (r.cancelOrder k).2.mirror) := by
  have hentry : r.mirror.entry (mapIndex k) =
      (r.entry (mapIndex k)).map fun place => (place.1.other, 100 - place.2) := rfl
  rw [cancelOrder, cancelOrder, hentry]
  cases hplace : r.entry (mapIndex k) with
  | none => rfl
  | some place =>
    obtain ⟨s, l⟩ := place
    have hl : l < 101 := h _ _ _ hplace
    have hpresent : (∃ o ∈ (r.queue s l).map Order.mirror, o.mOrderID = k) ↔ ∃ o ∈ r.queue s l, o.mOrderID = k := by
      simp [Order.mirror]
    have herase : ((r.queue s l).map Order.mirror).eraseP (fun o => o.mOrderID = k) =
        ((r.queue s l).eraseP fun o => o.mOrderID = k).map Order.mirror := List.eraseP_map
    simp only [Option.map_some, queue_mirror hl, hpresent, herase]
    split_ifs
    · have hbook := mirror_replaced (r := r) (s := s) (k := k) hl ((r.queue s l).eraseP fun o => o.mOrderID = k) none
      exact congrArg (fun r' : LevelBook => (Answer.cancelled (.ok ()), { r' with free := r.free + 1 })) hbook.symm
    · exact congrArg (Prod.mk _) (mirror_setEntry none).symm

/-! ### Matches -/

theorem levelsFrom_other (s : Side) : levelsFrom s.other = (levelsFrom s).map (100 - ·) := by
  cases s <;> decide +kernel

theorem bestLevel_mirror (r : LevelBook) (s : Side) : r.mirror.bestLevel s.other = (r.bestLevel s).map (100 - ·) := by
  have hsame : ∀ l ∈ levelsFrom s, ((fun l => decide (r.mirror.queue s.other l ≠ [])) ∘ (100 - ·)) l =
      decide (r.queue s l ≠ []) := by
    intro l hl
    rw [Function.comp_apply, queue_mirror ((mem_levelsFrom s).mp hl)]
    exact decide_eq_decide.mpr (not_congr List.map_eq_nil_iff)
  rw [bestLevel, bestLevel, levelsFrom_other, List.find?_map, ← List.head?_filter, ← List.head?_filter,
    List.filter_congr hsame]

theorem mirror_fill (hl : l < 101) (volume : UInt64) :
    (r.fill s l volume).mirror = r.mirror.fill s.other (100 - l) volume := by
  rw [fill, fill, queue_mirror hl]
  cases hqueue : r.queue s l with
  | nil => rfl
  | cons o rest =>
    have hreduced : (o.mirror.reduceVolume volume).2 = (o.reduceVolume volume).2.mirror := by
      have hvolume : o.mirror.mVolume = o.mVolume := rfl
      simp only [Order.reduceVolume, hvolume]
      split_ifs <;> rfl
    have hvolume : (o.reduceVolume volume).2.mirror.getVolume = (o.reduceVolume volume).2.getVolume := rfl
    simp only [List.map_cons, hreduced, hvolume]
    split_ifs
    · have hbook := mirror_replaced (r := r) (s := s) (k := o.mOrderID) hl rest none
      exact congrArg (fun r' : LevelBook => { r' with free := r.free + 1 }) hbook
    · exact mirror_setQueue hl _

/-- What a fill leaves of a queue, and the order that leaves. -/
def filled (volume : UInt64) : List Order → List Order × List Order
  | [] => ([], [])
  | o :: rest =>
    if (o.reduceVolume volume).2.getVolume = 0 then (rest, [o]) else ((o.reduceVolume volume).2 :: rest, [])

/-- The parts of the book after a fill, each from the queue that is filled. -/
theorem fill_eq (r : LevelBook) (s : Side) (l : Nat) (volume : UInt64) : r.fill s l volume =
    ⟨fun s' l' => if s' = s ∧ l' = l then (filled volume (r.queue s l)).1 else r.queue s' l',
      fun i => if ∃ o ∈ (filled volume (r.queue s l)).2, i = mapIndex o.mOrderID then none else r.entry i,
      r.free + (filled volume (r.queue s l)).2.length, r.counter⟩ := by
  unfold fill
  cases hqueue : r.queue s l with
  | nil =>
    refine LevelBook.ext ?_ ?_ rfl rfl
    · funext s' l'
      simp only [filled]
      split_ifs with hsame
      · rw [hsame.1, hsame.2, hqueue]
      · rfl
    · funext i
      simp [filled]
  | cons o rest =>
    simp only [filled]
    split_ifs
    · refine LevelBook.ext rfl ?_ rfl rfl
      funext i
      simp [setQueue, setEntry]
    · refine LevelBook.ext rfl ?_ rfl rfl
      funext i
      simp [setQueue]

/-- The ask can be filled before the bid or after it. -/
theorem fill_comm (r : LevelBook) (lb la : Nat) (volume : UInt64) :
    (r.fill .ask la volume).fill .bid lb volume = (r.fill .bid lb volume).fill .ask la volume := by
  have hask : (r.fill .bid lb volume).queue .ask la = r.queue .ask la := by
    simp only [fill_eq, reduceCtorEq, false_and, if_false]
  have hbid : (r.fill .ask la volume).queue .bid lb = r.queue .bid lb := by
    simp only [fill_eq, reduceCtorEq, false_and, if_false]
  rw [fill_eq (r.fill .ask la volume), fill_eq (r.fill .bid lb volume), hask, hbid, fill_eq r .ask, fill_eq r .bid]
  refine LevelBook.ext ?_ ?_ (Nat.add_right_comm _ _ _) rfl
  · funext s l
    cases s <;> simp
  · funext i
    simp only
    split_ifs <;> rfl

theorem bestLevel_lt (h : r.bestLevel s = some l) : l < 101 := (mem_levelsFrom s).mp (List.mem_of_find?_eq_some h)

theorem matchLimitOrders_mirror (r : LevelBook) :
    Mirrored r.matchLimitOrders.1 r.mirror.matchLimitOrders.1 ∧
      r.mirror.matchLimitOrders.2 = r.matchLimitOrders.2.mirror := by
  have hidle : ∀ {x y : Answer × LevelBook}, x = (.matched (.ok none), r) → y = (.matched (.ok none), r.mirror) →
      Mirrored x.1 y.1 ∧ y.2 = x.2.mirror := by
    rintro _ _ rfl rfl
    exact ⟨.idle, rfl⟩
  have hbid := bestLevel_mirror r .ask
  have hask := bestLevel_mirror r .bid
  simp only [Side.other] at hbid hask
  unfold matchLimitOrders
  rw [hbid, hask]
  cases hbestBid : r.bestLevel .bid with
  | none => cases r.bestLevel .ask <;> exact hidle rfl rfl
  | some lb =>
    cases hbestAsk : r.bestLevel .ask with
    | none => exact hidle rfl rfl
    | some la =>
      have hlb := bestLevel_lt hbestBid
      have hla := bestLevel_lt hbestAsk
      have hbids := queue_mirror (r := r) (s := .bid) hlb
      have hasks := queue_mirror (r := r) (s := .ask) hla
      simp only [Side.other] at hbids hasks
      simp only [Option.map_some, hbids, hasks]
      cases r.queue .bid lb with
      | nil => cases r.queue .ask la <;> exact hidle rfl rfl
      | cons bid bids =>
        cases r.queue .ask la with
        | nil => exact hidle rfl rfl
        | cons ask asks =>
          have hcross : 100 - lb ≤ 100 - la ↔ la ≤ lb := by omega
          simp only [List.map_cons, hcross]
          split_ifs with hle
          · have hvolume : min bid.mirror.getVolume ask.mirror.getVolume = min ask.getVolume bid.getVolume :=
              min_comm bid.getVolume ask.getVolume
            rw [hvolume]
            constructor
            · refine .traded ?_
              rw [toNat_widen, toNat_widen]
              omega
            · rw [mirror_fill hlb, mirror_fill hla]
              exact fill_comm ..
          · exact hidle rfl rfl

theorem step_mirror (h : r.Leading) (c : Call) :
    Mirrored (r.step c).1 (r.mirror.step c.mirror).1 ∧ (r.mirror.step c.mirror).2 = (r.step c).2.mirror := by
  cases c with
  | addOrder o =>
    have hadd := addOrder_mirror r o
    simp only [step, Call.mirror, hadd, and_true]
    unfold addOrder
    split_ifs
    · exact .added _
    · cases levelOf o.mPrice <;> exact .added _
  | cancelOrder k =>
    have hcancel := cancelOrder_mirror h k
    simp only [step, Call.mirror, hcancel, and_true]
    unfold cancelOrder
    split
    · exact .cancelled _
    · split_ifs <;> exact .cancelled _
  | matchLimitOrders => exact matchLimitOrders_mirror r

end LevelBook

namespace MatchingEngine

variable {e : MatchingEngine}

theorem leading_levels (e : MatchingEngine) : e.levels.Leading := by
  intro i s l h
  simp only [levels, OrderLocation.place] at h
  split_ifs at h
  obtain ⟨l', hlevel, hplace⟩ := Option.map_eq_some_iff.mp h
  cases hplace
  exact (levelOf_eq_some.mp hlevel).1

/-- **Bids and asks are treated alike**: a run of mirrored calls gives the mirrored answers, and leaves the mirror
image of the book. -/
theorem mirrored (counter : UInt64) (cs : List Call) :
    List.Forall₂ Mirrored (observed.outputs (new 101 counter) cs)
        (observed.outputs (new 101 counter) (cs.map Call.mirror)) ∧
      (machine.run (new 101 counter) (cs.map Call.mirror)).levels =
        (machine.run (new 101 counter) cs).levels.mirror := by
  have hstep : ∀ (e : MatchingEngine) (r : LevelBook) (c : Call), WellFormed e.orderBook ∧ r = e.levels.mirror →
      Mirrored (observed.step e c).1 (LevelBook.machine.step r c.mirror).1 ∧
        WellFormed (observed.next e c).orderBook ∧
        LevelBook.machine.next r c.mirror = (observed.next e c).levels.mirror := by
    rintro e _ c ⟨hb, rfl⟩
    obtain ⟨hanswer, hnext⟩ := LevelBook.step_mirror (leading_levels e) c
    rw [levels_step hb c] at hanswer hnext
    exact ⟨hanswer, wellFormed_next hb c, hnext⟩
  have hnew : LevelBook.new counter = (new 101 counter).levels.mirror := by
    rw [levels_new, LevelBook.mirror_new]
  obtain ⟨houtputs, -, hrun⟩ := Machine.outputs_map hstep ⟨wellFormed_new counter, hnew⟩ cs
  obtain ⟨hobserved, hlevels⟩ := levels_run (wellFormed_new counter) (cs.map Call.mirror)
  rw [levels_new] at hobserved hlevels
  rw [observed, Machine.run_relabel] at hrun
  rw [hobserved, hlevels, hrun]
  exact ⟨houtputs, rfl⟩

/-- A bid at 1010 meets an ask at 1000, and in the mirror an ask at 990 a bid at 1000: the buyer gains 10 in both. -/
example :
    let cs : List Call := [.addOrder ⟨.ask, 5, [], 0, ⟨1000⟩⟩, .addOrder ⟨.bid, 7, [], 0, ⟨1010⟩⟩, .matchLimitOrders]
    observed.outputs (new 101 0) cs =
        [.added (.ok 1), .added (.ok 2), .matched (.ok (some ⟨2, 1, 5, 1000⟩))] ∧
      observed.outputs (new 101 0) (cs.map Call.mirror) =
        [.added (.ok 1), .added (.ok 2), .matched (.ok (some ⟨1, 2, 5, 990⟩))] := by
  decide +kernel

end MatchingEngine

end TradingSystem
