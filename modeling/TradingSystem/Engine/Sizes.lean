import TradingSystem.Engine.Representation

/-!
# Books of other sizes

The constructor makes as many levels as it is told, and the bitmaps have words for all of them. `indexToPrice`
checks a level against the vector of queues, but `priceToIndex` checks a price against the constant
`NumOfLevels`. So a book with fewer levels is indexed past its end, a book with more refuses the prices of its
upper levels, and only the size 101 works.
-/

namespace TradingSystem

open Lib Lib.Effects OrderBook

namespace MatchingEngine

/-! ### The calls on a book -/

/-- What a client calls, on the engine or on the book itself. -/
inductive BookCall where
  | engine (c : Call)
  | getVolumeAtLevelFromPrice (price : Price)

inductive BookReply where
  | engine (r : Reply)
  | volumes (result : Except Exn (UInt64 × UInt64))

def bookMachine : Machine MatchingEngine BookCall BookReply where
  step e
    | .engine c => ((e.step c).1, (e.step c).2).map .engine id
    | .getVolumeAtLevelFromPrice price =>
      (observe (onBook (OrderBook.getVolumeAtLevelFromPrice price)) e).map .volumes id

/-- What a call throws. -/
def BookReply.thrown : BookReply → Option Exn
  | .engine (.added (.error err)) => some err
  | .engine (.cancelled (.error err)) => some err
  | .engine (.matched (.error err)) => some err
  | .volumes (.error err) => some err
  | _ => none

/-- The price in the call, if there is one, is below `2 ^ 31`. -/
def BookCall.Below : BookCall → Prop
  | .engine (.addOrder o) => o.mPrice.mPriceValueInCent.toNat < 2 ^ 31
  | .getVolumeAtLevelFromPrice price => price.mPriceValueInCent.toNat < 2 ^ 31
  | _ => True

/-- The price of one of `n` levels. -/
def PriceOf (n : Nat) (price : Price) : Prop :=
  950 ≤ price.mPriceValueInCent.toNat ∧ price.mPriceValueInCent.toNat ≤ 949 + n

/-- An exception of the source. -/
def Throws {α : Type} (x : BookM α) (b : OrderBook) : Prop := ∃ err b', err ≠ .undefined ∧ x b = .error err b'

/-- A book of `n` levels in this state: no call indexes a vector past its end, and prices and levels are mapped
to each other. -/
structure Works (n : Nat) (e : MatchingEngine) : Prop where
  inRange : ∀ c : BookCall, c.Below → (bookMachine.step e c).1.thrown ≠ some .undefined
  toIndex : ∀ price, PriceOf n price → ∃ l : Nat, l < n ∧ priceToIndex price e.orderBook = .ok l e.orderBook ∧
    indexToPrice l e.orderBook = .ok price e.orderBook
  toIndex_throws : ∀ price, price.mPriceValueInCent.toNat < 2 ^ 31 → ¬ PriceOf n price →
    Throws (priceToIndex price) e.orderBook
  toPrice : ∀ l : Nat, l < n → ∃ price, PriceOf n price ∧ indexToPrice l e.orderBook = .ok price e.orderBook ∧
    priceToIndex price e.orderBook = .ok l e.orderBook
  toPrice_throws : ∀ i : Int, - 2 ^ 31 ≤ i → i < 2 ^ 31 → ¬ (0 ≤ i ∧ i < n) → Throws (indexToPrice i) e.orderBook

/-- `OrderBook(n)` works over every sequence of calls. -/
def BookWorks (n : Nat) : Prop :=
  ∀ counter cs, (∀ c ∈ cs, BookCall.Below c) → Works n (bookMachine.run (new n counter) cs)

/-! ### The size 101 -/

section Size101

variable {e : MatchingEngine}

theorem thrown_engine (hb : WellFormed e.orderBook) (c : Call) :
    (BookReply.engine (e.step c).1).thrown ≠ some .undefined := by
  have heffect := step_effect hb c
  generalize (e.step c).1 = r at heffect ⊢
  generalize (e.step c).2 = e' at heffect
  cases heffect <;> simp [BookReply.thrown]

theorem getVolume_cases (hb : WellFormed e.orderBook) (price : Price) :
    (∃ volumes, bookMachine.step e (.getVolumeAtLevelFromPrice price) = (.volumes (.ok volumes), e)) ∨
      bookMachine.step e (.getVolumeAtLevelFromPrice price) =
        (.volumes (.error (.invalidArgument "Invalid price to bid/ask")), e) := by
  cases hlevel : levelOf price with
  | some l =>
    have hrun := onBook_ok (getVolumeAtLevelFromPrice_run hb hlevel)
    left
    exists (e.orderBook.volumeOf (e.orderBook.queue .bid l), e.orderBook.volumeOf (e.orderBook.queue .ask l))
    simp only [bookMachine, observe, hrun]
    rfl
  | none =>
    have hrun := onBook_error (getVolumeAtLevelFromPrice_refused (b := e.orderBook) hlevel)
    right
    simp only [bookMachine, observe, hrun]
    rfl

/-- No call on a well-formed book indexes past the end of a vector. -/
theorem inRange_of_wellFormed (hb : WellFormed e.orderBook) (c : BookCall) :
    (bookMachine.step e c).1.thrown ≠ some .undefined := by
  cases c with
  | engine c => exact thrown_engine hb c
  | getVolumeAtLevelFromPrice price =>
    rcases getVolume_cases hb price with ⟨volumes, hstep⟩ | hstep
    · rw [hstep]
      simp [BookReply.thrown]
    · rw [hstep]
      simp [BookReply.thrown]

theorem bookMachine_next (hb : WellFormed e.orderBook) (c : BookCall) :
    bookMachine.next e c = e ∨ ∃ c', bookMachine.next e c = machine.next e c' := by
  cases c with
  | engine c => exact Or.inr ⟨c, rfl⟩
  | getVolumeAtLevelFromPrice price =>
    left
    rcases getVolume_cases hb price with ⟨volumes, hstep⟩ | hstep
    · rw [Machine.next, hstep]
    · rw [Machine.next, hstep]

/-- The state of a run on `OrderBook(101)` is reachable. -/
theorem reachable_bookMachine (counter : UInt64) (cs : List BookCall) :
    Reachable (bookMachine.run (new 101 counter) cs) := by
  apply Machine.run_invariant (M := bookMachine) (I := Reachable)
  · rintro e c ⟨counter, cs, rfl⟩
    rcases bookMachine_next (Reachable.wellFormed ⟨counter, cs, rfl⟩) c with hnext | ⟨c', hnext⟩
    · rw [hnext]
      exact ⟨counter, cs, rfl⟩
    · rw [hnext]
      exact ⟨counter, cs ++ [c'], Machine.run_append _ _ _⟩
  · exact ⟨counter, [], rfl⟩

theorem price_eq_ofInt {price : Price} {l : Nat} (h : price.mPriceValueInCent.toNat = 950 + l) (hl : l < 101) :
    price = Price.ofInt (startOfPrice + l) := by
  obtain ⟨value⟩ := price
  rw [Price.ofInt, Price.mk.injEq]
  apply UInt64.toNat_inj.mp
  rw [toNat_widen, h, startOfPrice]
  omega

theorem works_of_reachable (h : Reachable e) : Works 101 e := by
  have hb := h.wellFormed
  have hsize := h.size_priceLevel .bid
  have hhi := hb.levels_hi .bid
  constructor
  · exact fun c _ => inRange_of_wellFormed hb c
  · rintro price ⟨hlo, hle⟩
    obtain ⟨l, hl⟩ := Nat.exists_eq_add_of_le hlo
    have hlt : l < 101 := by omega
    have hlevel : levelOf price = some l := levelOf_eq_some.mpr ⟨hlt, by omega⟩
    refine ⟨l, hlt, priceToIndex_ok hlevel, ?_⟩
    rw [indexToPrice_run (by omega) hhi, price_eq_ofInt hl hlt]
  · intro price hprice hout
    have hlevel : levelOf price = none := by
      rw [levelOf_eq_none, Nat.mod_eq_of_lt (by omega)]
      unfold PriceOf at hout
      omega
    exact ⟨.invalidArgument "Invalid price to bid/ask", _, by simp, by rw [priceToIndex_run, hlevel]⟩
  · intro l hl
    have hlevel := levelOf_ofInt hl
    refine ⟨Price.ofInt (startOfPrice + l), ?_, indexToPrice_run (by omega) hhi, priceToIndex_ok hlevel⟩
    have hnat : (Price.ofInt (startOfPrice + l)).mPriceValueInCent.toNat = 950 + l := by
      rw [Price.ofInt, toNat_widen, startOfPrice]
      omega
    rw [PriceOf, hnat]
    omega
  · intro i _ _ hout
    have hrefused : i < 0 ∨ i ≥ ((e.orderBook.priceLevel .bid).size : Int) := by omega
    refine ⟨.invalidArgument ("Invalid level index: " ++ toString i), e.orderBook, by simp, ?_⟩
    rw [indexToPrice_eq hhi, if_pos hrefused]

end Size101

/-! ### Every other size -/

/-- On a smaller book the level behind the last one has a price, and asking for its volume indexes past the
end. -/
theorem getVolume_past_end {n : Nat} (hn : n < 101) (counter : UInt64) :
    (bookMachine.step (new n counter) (.getVolumeAtLevelFromPrice (Price.ofInt (startOfPrice + n)))).1.thrown =
      some .undefined := by
  have hlevel := levelOf_ofInt hn
  have hnone : levelAt .bid n (new n counter).orderBook = .error .undefined (new n counter).orderBook := by
    have hget : ((OrderBook.new n).priceLevel .bid)[n]? = none :=
      Array.getElem?_eq_none (Nat.le_of_eq Array.size_replicate)
    simp only [levelAt, get_bind, toNat_widen_level hn, MatchingEngine.new, hget]
    rfl
  have hrun : OrderBook.getVolumeAtLevelFromPrice (Price.ofInt (startOfPrice + n)) (new n counter).orderBook =
      .error .undefined (new n counter).orderBook := by
    rw [OrderBook.getVolumeAtLevelFromPrice, bind_ok (priceToIndex_ok hlevel), get_bind, bind_error hnone]
  simp only [bookMachine, observe, onBook_error hrun]
  rfl

theorem eq_of_bookWorks {n : Nat} (h : BookWorks n) : n = 101 := by
  have hnew : Works n (new n 0) := h 0 [] fun c hc => absurd hc List.not_mem_nil
  by_contra hne
  rcases Nat.lt_or_gt_of_ne hne with hlt | hgt
  · refine hnew.inRange (.getVolumeAtLevelFromPrice (Price.ofInt (startOfPrice + n))) ?_ (getVolume_past_end hlt 0)
    show (widen (startOfPrice + n)).toNat < 2 ^ 31
    rw [toNat_widen, startOfPrice]
    omega
  · -- the price 1051 is that of level 101
    obtain ⟨l, -, hindex, -⟩ := hnew.toIndex ⟨1051⟩ ⟨by decide, by
      show 1051 ≤ 949 + n
      omega⟩
    rw [priceToIndex_run] at hindex
    cases hindex

theorem bookWorks_101 : BookWorks 101 := fun counter cs _ => works_of_reachable (reachable_bookMachine counter cs)

/-- **The book works for one size only.** -/
theorem bookWorks_iff (n : Nat) : BookWorks n ↔ n = 101 := by
  constructor
  · exact eq_of_bookWorks
  · rintro rfl
    exact bookWorks_101

/-- An order at 951 is outside the one queue of `OrderBook(1)`, and `OrderBook(128)` refuses 1051. -/
theorem bounds_disagree :
    (bookMachine.step (new 1 0) (.engine (.addOrder ⟨.bid, 5, [], 0, ⟨951⟩⟩))).1.thrown = some .undefined ∧
      ¬ BookWorks 1 ∧
      (bookMachine.step (new 128 0) (.engine (.addOrder ⟨.bid, 5, [], 0, ⟨1051⟩⟩))).1.thrown =
        some (.invalidArgument "Invalid price to bid/ask") ∧ ¬ BookWorks 128 := by
  refine ⟨by decide +kernel, fun h => ?_, by decide +kernel, fun h => ?_⟩
  · exact absurd (eq_of_bookWorks h) (by decide)
  · exact absurd (eq_of_bookWorks h) (by decide)

end MatchingEngine

end TradingSystem
