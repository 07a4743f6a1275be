import TradingSystem.Network.Publisher

/-!
# Snapshots under interleaving

The publisher takes no lock, so engine calls fall between its accesses, and a slot it holds can be released
and given to another order. `Sight` says how far an iteration is with one side. A snapshot is that of a single
book when some moment of the iteration divides the calls: those before it keep true what was already read, and
those after it keep what is still to be read. The book of that moment is then the one that was published.
-/

namespace TradingSystem

open Lib Lib.Effects OrderBook MatchingEngine

namespace UDPServer

/-- What an iteration has of a side. -/
inductive Sight where
  | unseen
  | fetched (slot : Nat)
  | priced (slot : Nat) (price : UInt64)
  | summed (price volume : UInt64)

def Progress.sight : Progress → Side → Sight
  | .begun, _ => .unseen
  | .haveBid bid, .bid => .fetched bid
  | .haveBid _, .ask => .unseen
  | .haveBoth bid _, .bid => .fetched bid
  | .haveBoth _ ask, .ask => .fetched ask
  | .haveBidPrice bid _ bidPrice, .bid => .priced bid bidPrice
  | .haveBidPrice _ ask _, .ask => .fetched ask
  | .havePrices bid _ bidPrice _, .bid => .priced bid bidPrice
  | .havePrices _ ask _ askPrice, .ask => .priced ask askPrice
  | .haveBidVolume _ _ bidPrice _ bidVol, .bid => .summed bidPrice bidVol
  | .haveBidVolume _ ask _ askPrice _, .ask => .priced ask askPrice
  | .sent snapshot, .bid => .summed snapshot.bestBid snapshot.bidVolume
  | .sent snapshot, .ask => .summed snapshot.bestAsk snapshot.askVolume

/-- One access to book `b` takes the sight of side `s` one further. -/
inductive Looks (b : OrderBook) (s : Side) : Sight → Sight → Prop
  | fetch {l p : Nat} (h : b.Top s l p) : Looks b s .unseen (.fetched p)
  | price (p : Nat) : Looks b s (.fetched p) (.priced p (widen (b.order p).getPrice.getPriceInTicks))
  | sum {l p : Nat} (price : UInt64) (h : levelOf (b.order p).mPrice = some l) :
      Looks b s (.priced p price) (.summed price (b.volumeOf (b.queue s l)))

/-- **One access**: the iteration ends with the empty snapshot, or it looks at one side further. -/
theorem advance_spec {b : OrderBook} (hb : WellFormed b) (progress : Progress) :
    ∃ progress', advance progress b = .ok progress' b ∧ progress' ≠ .begun ∧ (progress' = .sent .zero ∨
      ∀ s, progress'.sight s = progress.sight s ∨ Looks b s (progress.sight s) (progress'.sight s)) := by
  cases progress with
  | begun =>
    rcases top_or_empty hb .bid with hnone | ⟨l, p, htop⟩
    · exact ⟨_, advance_begun_empty hb hnone, nofun, Or.inl rfl⟩
    · refine ⟨_, advance_begun hb htop, nofun, Or.inr fun s => ?_⟩
      cases s with
      | bid => exact Or.inr (.fetch htop)
      | ask => exact Or.inl rfl
  | haveBid bid =>
    rcases top_or_empty hb .ask with hnone | ⟨l, p, htop⟩
    · exact ⟨_, advance_haveBid_empty hb hnone, nofun, Or.inl rfl⟩
    · refine ⟨_, advance_haveBid hb htop, nofun, Or.inr fun s => ?_⟩
      cases s with
      | bid => exact Or.inl rfl
      | ask => exact Or.inr (.fetch htop)
  | haveBoth bid ask =>
    refine ⟨_, advance_haveBoth, nofun, Or.inr fun s => ?_⟩
    cases s with
    | bid => exact Or.inr (.price bid)
    | ask => exact Or.inl rfl
  | haveBidPrice bid ask bidPrice =>
    refine ⟨_, advance_haveBidPrice, nofun, Or.inr fun s => ?_⟩
    cases s with
    | bid => exact Or.inl rfl
    | ask => exact Or.inr (.price ask)
  | havePrices bid ask bidPrice askPrice =>
    cases hlevel : levelOf (b.order bid).mPrice with
    | none => exact ⟨_, advance_havePrices_refused hlevel, nofun, Or.inl rfl⟩
    | some l =>
      refine ⟨_, advance_havePrices hb hlevel, nofun, Or.inr fun s => ?_⟩
      cases s with
      | bid => exact Or.inr (.sum bidPrice hlevel)
      | ask => exact Or.inl rfl
  | haveBidVolume bid ask bidPrice askPrice bidVol =>
    cases hlevel : levelOf (b.order ask).mPrice with
    | none => exact ⟨_, advance_haveBidVolume_refused hlevel, nofun, Or.inl rfl⟩
    | some l =>
      refine ⟨_, advance_haveBidVolume hb hlevel, nofun, Or.inr fun s => ?_⟩
      cases s with
      | bid => exact Or.inl rfl
      | ask => exact Or.inr (.sum askPrice hlevel)
  | sent snapshot => exact ⟨_, advance_sent snapshot, nofun, Or.inr fun s => Or.inl rfl⟩

/-! ### What a sight owes to a book -/

/-- Level `l` has the same volume on side `s` of both books. -/
def SameVolume (m b : OrderBook) (s : Side) (l : Nat) : Prop :=
  b.volumeOf (b.queue s l) = m.volumeOf (m.queue s l)

/-- What was read of side `s` is true of book `m`, and so is what will be read if the book stays `b`. -/
def TrueOf (m b : OrderBook) (s : Side) : Sight → Prop
  | .unseen => ∀ l, IsBest b s l → IsBest m s l ∧ SameVolume m b s l
  | .fetched p => ∀ l, levelOf (b.order p).mPrice = some l → IsBest m s l ∧ SameVolume m b s l
  | .priced p price => ∀ l, levelOf (b.order p).mPrice = some l →
      IsBest m s l ∧ price = tickPrice l ∧ SameVolume m b s l
  | .summed price volume => ∃ l, IsBest m s l ∧ price = tickPrice l ∧ volume = m.volumeOf (m.queue s l)

/-- The change from `b` to `b'` keeps true what was read of side `s`: a slot that was fetched carries the price of
the best level, a price that was read is still the best, a volume that was summed is still that of the best
level. -/
def KeepsRead (b b' : OrderBook) (s : Side) : Sight → Prop
  | .unseen => True
  | .fetched p => ∀ l, levelOf (b'.order p).mPrice = some l → IsBest b' s l
  | .priced p _ => ∀ l, levelOf (b'.order p).mPrice = some l →
      levelOf (b.order p).mPrice = some l ∧ IsBest b' s l
  | .summed _ _ => ∀ l, IsBest b s l → IsBest b' s l ∧ SameVolume b b' s l

/-- The change from `b` to `b'` keeps what is still to be read of side `s`: the best level and its volume, or the
level that the fetched slot leads to and its volume. -/
def KeepsUnread (b b' : OrderBook) (s : Side) : Sight → Prop
  | .unseen => ∀ l, IsBest b' s l → IsBest b s l ∧ SameVolume b b' s l
  | .fetched p | .priced p _ => ∀ l, levelOf (b'.order p).mPrice = some l →
      levelOf (b.order p).mPrice = some l ∧ SameVolume b b' s l
  | .summed _ _ => True

variable {m b b' : OrderBook} {s : Side} {sight sight' : Sight}

theorem trueOf_looks (hb : WellFormed b) (h : TrueOf m b s sight) (hlook : Looks b s sight sight') :
    TrueOf m b s sight' := by
  cases hlook with
  | @fetch l p htop =>
    intro l' hl'
    have hlevel := (hb.filed s l p htop.mem).2
    obtain rfl := Option.some.inj (hlevel.symm.trans hl')
    exact h l htop.1
  | price p =>
    intro l hl
    obtain ⟨hbest, hvolume⟩ := h l hl
    refine ⟨hbest, ?_, hvolume⟩
    rw [Order.getPrice, getPriceInTicks_of_levelOf hl]
    rfl
  | sum price hl =>
    obtain ⟨hbest, hprice, hvolume⟩ := h _ hl
    exact ⟨_, hbest, hprice, hvolume⟩

theorem trueOf_keepsRead (h : TrueOf b b s sight) (hkeep : KeepsRead b b' s sight) : TrueOf b' b' s sight := by
  cases sight with
  | unseen => exact fun l hl => ⟨hl, rfl⟩
  | fetched p => exact fun l hl => ⟨hkeep l hl, rfl⟩
  | priced p price =>
    intro l hl
    obtain ⟨hlevel, hbest⟩ := hkeep l hl
    exact ⟨hbest, (h l hlevel).2.1, rfl⟩
  | summed price volume =>
    obtain ⟨l, hbest, hprice, hvolume⟩ := h
    obtain ⟨hbest', hsame⟩ := hkeep l hbest
    exact ⟨l, hbest', hprice, hvolume.trans hsame.symm⟩

theorem trueOf_keepsUnread (h : TrueOf m b s sight) (hkeep : KeepsUnread b b' s sight) :
    TrueOf m b' s sight := by
  cases sight with
  | unseen =>
    intro l hl
    obtain ⟨hbest, hsame⟩ := hkeep l hl
    obtain ⟨hbest', hsame'⟩ := h l hbest
    exact ⟨hbest', hsame.trans hsame'⟩
  | fetched p =>
    intro l hl
    obtain ⟨hlevel, hsame⟩ := hkeep l hl
    obtain ⟨hbest, hsame'⟩ := h l hlevel
    exact ⟨hbest, hsame.trans hsame'⟩
  | priced p price =>
    intro l hl
    obtain ⟨hlevel, hsame⟩ := hkeep l hl
    obtain ⟨hbest, hprice, hsame'⟩ := h l hlevel
    exact ⟨hbest, hprice, hsame.trans hsame'⟩
  | summed price volume => exact h

/-- A snapshot that is true of a book is the one an undisturbed iteration sends from it. -/
theorem publish_of_trueOf (hm : WellFormed m) {snapshot : MarketDataSnapshot}
    (h : ∀ s, TrueOf m b s (Progress.sight (.sent snapshot) s)) : publish m = .ok (.sent snapshot) m := by
  obtain ⟨lb, hbid, hbidPrice, hbidVolume⟩ := h .bid
  obtain ⟨la, hask, haskPrice, haskVolume⟩ := h .ask
  obtain ⟨bid, rest, hbidQueue⟩ := List.exists_cons_of_ne_nil hbid.1
  obtain ⟨ask, rest', haskQueue⟩ := List.exists_cons_of_ne_nil hask.1
  rw [publish_both hm ⟨hbid, rest, hbidQueue⟩ ⟨hask, rest', haskQueue⟩, ← hbidPrice, ← haskPrice, ← hbidVolume,
    ← haskVolume]

/-! ### Runs of an iteration -/

namespace Iteration

/-- A snapshot that was sent, and is not the empty one, is what an undisturbed iteration sends from one of the
books between the first access and the last. -/
def Consistent (s : Iteration) : Prop :=
  ∀ snapshot, s.progress = .sent snapshot → snapshot ≠ .zero →
    ∃ b ∈ s.window, publish b = .ok (.sent snapshot) b

/-- While the iteration is underway, a call of the engine makes on both sides a change that `keeps` allows. -/
def Calls (keeps : OrderBook → OrderBook → Side → Sight → Prop) (s : Iteration) : Event → Prop
  | .access => True
  | .engineCall c => s.underway = true → ∀ side,
      keeps s.engine.orderBook (MatchingEngine.machine.next s.engine c).orderBook side (s.progress.sight side)

/-- What the iteration has, and will have as long as the book stays, is that of book `m`. -/
structure Follows (m : OrderBook) (s : Iteration) : Prop where
  book : WellFormed s.engine.orderBook
  source : WellFormed m
  mem : m ∈ s.window
  begun : s.progress ≠ .begun
  sight : s.progress = .sent .zero ∨ ∀ side, TrueOf m s.engine.orderBook side (s.progress.sight side)

/-- The iteration has followed the book through its changes. -/
def Current (s : Iteration) : Prop :=
  ∃ m, Follows m s ∧ (s.underway = true → m = s.engine.orderBook)

variable {s : Iteration}

theorem Follows.consistent (h : Follows m s) : Consistent s := by
  intro snapshot hsent hne
  refine ⟨m, h.mem, publish_of_trueOf (b := s.engine.orderBook) h.source ?_⟩
  rcases h.sight with hzero | htrue
  · rw [hsent] at hzero
    exact absurd (Progress.sent.inj hzero) hne
  · rwa [hsent] at htrue

theorem next_access (hb : WellFormed s.engine.orderBook) : ∃ progress,
    s.next .access = ⟨s.engine, progress, if s.progress = .begun then [s.engine.orderBook] else s.window⟩ ∧
      progress ≠ .begun ∧ (progress = .sent .zero ∨ ∀ side, progress.sight side = s.progress.sight side ∨
        Looks s.engine.orderBook side (s.progress.sight side) (progress.sight side)) := by
  obtain ⟨progress, hadvance, hlook⟩ := advance_spec hb s.progress
  refine ⟨progress, ?_, hlook⟩
  rw [next, onBook_ok hadvance]

theorem next_access_sent {snapshot : MarketDataSnapshot} (h : s.progress = .sent snapshot) :
    s.next .access = s := by
  obtain ⟨engine, progress, window⟩ := s
  obtain rfl : progress = .sent snapshot := h
  rfl

theorem sent_of_not_underway (h : s.progress ≠ .begun) (hover : ¬ s.underway = true) :
    ∃ snapshot, s.progress = .sent snapshot := by
  obtain ⟨engine, progress, window⟩ := s
  cases progress with
  | begun => exact absurd rfl h
  | sent snapshot => exact ⟨snapshot, rfl⟩
  | haveBid | haveBoth | haveBidPrice | havePrices | haveBidVolume => exact absurd rfl hover

/-- An access looks at what is true of `m`, if what it finds is. -/
theorem sight_access {progress : Progress} (hb : WellFormed s.engine.orderBook)
    (htrue : ∀ side, TrueOf m s.engine.orderBook side (s.progress.sight side))
    (hlook : ∀ side, progress.sight side = s.progress.sight side ∨
      Looks s.engine.orderBook side (s.progress.sight side) (progress.sight side)) (side : Side) :
    TrueOf m s.engine.orderBook side (progress.sight side) := by
  rcases hlook side with hsame | hlook
  · rw [hsame]
    exact htrue side
  · exact trueOf_looks hb (htrue side) hlook

/-- The first access starts with nothing seen. -/
theorem current_start {e : MatchingEngine} (hb : WellFormed e.orderBook) : Current ((start e).next .access) := by
  obtain ⟨progress, hnext, hbegun, hlook⟩ := next_access (s := start e) hb
  rw [hnext]
  refine ⟨e.orderBook, ⟨hb, hb, List.mem_singleton_self _, hbegun, ?_⟩, fun _ => rfl⟩
  refine hlook.imp_right fun hlook => sight_access (s := start e) hb (fun side => ?_) hlook
  exact fun l hl => ⟨hl, rfl⟩

theorem follows_access (h : Follows m s) : Follows m (s.next .access) := by
  obtain ⟨progress, hnext, hbegun, hlook⟩ := next_access h.book
  rcases h.sight with hzero | htrue
  · rw [next_access_sent hzero]
    exact h
  · have hsight := hlook.imp_right fun hlook => sight_access h.book htrue hlook
    rw [hnext, if_neg h.begun]
    exact ⟨h.book, h.source, h.mem, hbegun, hsight⟩

theorem current_access (h : Current s) : Current (s.next .access) := by
  obtain ⟨m, hfollows, hbook⟩ := h
  by_cases hunderway : s.underway = true
  · refine ⟨m, follows_access hfollows, fun _ => ?_⟩
    obtain ⟨progress, hnext, -⟩ := next_access hfollows.book
    rw [hnext]
    exact hbook hunderway
  · obtain ⟨snapshot, hsent⟩ := sent_of_not_underway hfollows.begun hunderway
    rw [next_access_sent hsent]
    exact ⟨m, hfollows, hbook⟩

theorem mem_window_call {c : Call} (h : m ∈ s.window) : m ∈ (s.next (.engineCall c)).window := by
  simp only [next]
  split_ifs
  · exact List.mem_append_left _ h
  · exact h

/-- What was sent stays true of `m`. -/
theorem follows_call_of_sent (h : Follows m s) (hover : ¬ s.underway = true) (c : Call) :
    Follows m (s.next (.engineCall c)) := by
  obtain ⟨snapshot, hsent⟩ := sent_of_not_underway h.begun hover
  refine ⟨wellFormed_next h.book c, h.source, mem_window_call h.mem, h.begun, ?_⟩
  refine h.sight.imp_right fun htrue side => ?_
  have hside := htrue side
  simp only [next, hsent] at hside ⊢
  cases side <;> exact hside

/-- **A call after the moment** keeps what is still to be read, so the iteration goes on to follow `m`. -/
theorem follows_call (h : Follows m s) {c : Call} (hkeep : Calls KeepsUnread s (.engineCall c)) :
    Follows m (s.next (.engineCall c)) := by
  by_cases hunderway : s.underway = true
  · refine ⟨wellFormed_next h.book c, h.source, mem_window_call h.mem, h.begun, ?_⟩
    exact h.sight.imp_right fun htrue side => trueOf_keepsUnread (htrue side) (hkeep hunderway side)
  · exact follows_call_of_sent h hunderway c

/-- **A call before the moment** keeps true what was read, so the iteration has followed the book after it. -/
theorem current_call (h : Current s) {c : Call} (hkeep : Calls KeepsRead s (.engineCall c)) :
    Current (s.next (.engineCall c)) := by
  obtain ⟨m, hfollows, hbook⟩ := h
  by_cases hunderway : s.underway = true
  · obtain rfl := hbook hunderway
    have hb' := wellFormed_next hfollows.book c
    refine ⟨_, ⟨hb', hb', ?_, hfollows.begun, ?_⟩, fun _ => rfl⟩
    · simp [next, hunderway]
    · exact hfollows.sight.imp_right fun htrue side => trueOf_keepsRead (htrue side) (hkeep hunderway side)
  · exact ⟨m, follows_call_of_sent hfollows hunderway c, fun h => absurd h hunderway⟩

/-- **A snapshot is that of a single book** when some moment of the iteration divides the engine calls in it: the
calls before keep true what was read, and the calls after keep what is still to be read. -/
theorem consistent_of_keeps {e : MatchingEngine} (h : Reachable e) (before after : List Event)
    (hbefore : machine.Along (Calls KeepsRead) (machine.run (start e) [.access]) before)
    (hafter : machine.Along (Calls KeepsUnread) (machine.run (start e) (.access :: before)) after) :
    machine.States Consistent (start e) (.access :: before ++ after) := by
  have hstart : Consistent (start e) := nofun
  have hcurrent : Current (machine.run (start e) [.access]) := current_start h.wellFormed
  have hread : ∀ s event, Current s → Calls KeepsRead s event → Current (machine.next s event) := by
    intro s event hs hkeep
    cases event with
    | access => exact current_access hs
    | engineCall c => exact current_call hs hkeep
  obtain ⟨m, hmoment, -⟩ := hbefore.invariant hread hcurrent
  have hunread : ∀ s event, Follows m s → Calls KeepsUnread s event → Follows m (machine.next s event) := by
    intro s event hs hkeep
    cases event with
    | access => exact follows_access hs
    | engineCall c => exact follows_call hs hkeep
  refine ⟨hstart, Machine.States.append ?_ ?_⟩
  · exact (hbefore.states hread hcurrent).mono fun s ⟨m, hm, _⟩ => hm.consistent
  · exact (hafter.states hunread hmoment).mono fun s hs => hs.consistent

/-- A bid below the best one comes before the moment, an ask above the best one after it. -/
theorem consistent_example :
    machine.States Consistent (start (MatchingEngine.machine.run (new 101 0)
        [.addOrder ⟨.bid, 5, [], 0, ⟨1000⟩⟩, .addOrder ⟨.ask, 3, [], 0, ⟨1010⟩⟩]))
      [.access, .engineCall (.addOrder ⟨.bid, 4, [], 0, ⟨990⟩⟩), .access, .access, .access, .access,
        .engineCall (.addOrder ⟨.ask, 4, [], 0, ⟨1020⟩⟩), .access] := by
  have hreach : Reachable (MatchingEngine.machine.run (new 101 0)
      [.addOrder ⟨.bid, 5, [], 0, ⟨1000⟩⟩, .addOrder ⟨.ask, 3, [], 0, ⟨1010⟩⟩]) := ⟨0, _, rfl⟩
  generalize he : MatchingEngine.machine.run (new 101 0)
      [.addOrder ⟨.bid, 5, [], 0, ⟨1000⟩⟩, .addOrder ⟨.ask, 3, [], 0, ⟨1010⟩⟩] = e at hreach ⊢
  have hread : Calls KeepsRead (machine.run (start e) [.access])
      (.engineCall (.addOrder ⟨.bid, 4, [], 0, ⟨990⟩⟩)) := by
    obtain ⟨m, hfollows, -⟩ := current_start hreach.wellFormed
    have hprogress : (machine.run (start e) [.access]).progress = .haveBid 9999 := by
      subst he
      decide +kernel
    intro _ side
    rw [hprogress]
    cases side with
    | bid =>
      intro l hl
      obtain rfl : l = 50 := Option.some.inj (hl.symm.trans (by subst he; decide +kernel))
      exact isBest_of_findBestLevel (wellFormed_next hfollows.book _) (by subst he; decide +kernel)
    | ask => trivial
  have hunread : Calls KeepsUnread (machine.run (start e) [.access,
      .engineCall (.addOrder ⟨.bid, 4, [], 0, ⟨990⟩⟩), .access, .access, .access, .access])
      (.engineCall (.addOrder ⟨.ask, 4, [], 0, ⟨1020⟩⟩)) := by
    have hprogress : (machine.run (start e) [.access,
        .engineCall (.addOrder ⟨.bid, 4, [], 0, ⟨990⟩⟩), .access, .access, .access, .access]).progress =
        .haveBidVolume 9999 9998 1000 1010 5 := by
      subst he
      decide +kernel
    intro _ side
    rw [hprogress]
    cases side with
    | bid => trivial
    | ask =>
      intro l hl
      obtain rfl : l = 60 := Option.some.inj (hl.symm.trans (by subst he; decide +kernel))
      subst he
      unfold SameVolume
      exact ⟨by decide +kernel, by decide +kernel⟩
  exact consistent_of_keeps hreach [.engineCall (.addOrder ⟨.bid, 4, [], 0, ⟨990⟩⟩)]
    [.access, .access, .access, .access, .engineCall (.addOrder ⟨.ask, 4, [], 0, ⟨1020⟩⟩), .access]
    ⟨hread, trivial⟩ ⟨trivial, trivial, trivial, trivial, hunread, trivial, trivial⟩

/-- The slot of the best bid is released and given to an ask before its price is read, so the snapshot has a
bid above the ask. -/
theorem torn_snapshot :
    let s := start (MatchingEngine.machine.run (new 101 0)
      [.addOrder ⟨.bid, 5, [], 0, ⟨1000⟩⟩, .addOrder ⟨.ask, 3, [], 0, ⟨1010⟩⟩])
    let events := [.access, .engineCall (.cancelOrder 1), .engineCall (.addOrder ⟨.ask, 7, [], 0, ⟨1020⟩⟩),
      .access, .access, .access, .access, .access]
    (machine.run s events).progress = .sent ⟨1020, 1010, 0, 3⟩ ∧ ¬ machine.States Consistent s events := by
  intro s events
  have hsent : (machine.run s events).progress = .sent ⟨1020, 1010, 0, 3⟩ := by decide +kernel
  have hwindow : ∀ b ∈ (machine.run s events).window, publish.run' b ≠ some (.sent ⟨1020, 1010, 0, 3⟩) := by
    decide +kernel
  refine ⟨hsent, fun h => ?_⟩
  obtain ⟨b, hb, hpublish⟩ := h.last _ hsent (by decide)
  refine hwindow b hb ?_
  delta EStateM.run' EStateM.run
  rw [hpublish]

end Iteration

end UDPServer

end TradingSystem
