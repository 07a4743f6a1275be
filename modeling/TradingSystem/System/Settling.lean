import TradingSystem.Engine.Drain
import TradingSystem.System.Quotes

/-!
# The market settles

When the threads of the server read nothing more, the orders that rest are all there are, and every round of the
matching loop removes one of them at least or finds nothing that crosses. From then on the book stays as it is, so
the publisher sends the snapshot of the iteration it is in, which may be of an older book, and after it the one
snapshot of this book for ever. A receiver shows it as soon as one datagram arrives.
-/

namespace TradingSystem

open Lib Lib.Effects OrderBook MatchingEngine

/-! ### An iteration of the publisher on a book that stays -/

namespace UDPServer

/-- The snapshot that the iteration sends if the book stays as it is. -/
inductive Completes (b : OrderBook) : Progress → MarketDataSnapshot → Prop
  | sent (snapshot : MarketDataSnapshot) : Completes b (.sent snapshot) snapshot
  | access {progress progress' : Progress} {snapshot : MarketDataSnapshot}
      (hadvance : advance progress b = .ok progress' b) (hrest : Completes b progress' snapshot) :
      Completes b progress snapshot

/-- How many steps the publisher makes to the end of the iteration, at most. -/
def Progress.left : Progress → Nat
  | .begun => 7
  | .haveBid _ => 6
  | .haveBoth _ _ => 5
  | .haveBidPrice _ _ _ => 4
  | .havePrices _ _ _ _ => 3
  | .haveBidVolume _ _ _ _ _ => 2
  | .sent _ => 1

variable {b : OrderBook} {progress progress' : Progress} {snapshot : MarketDataSnapshot}

theorem Progress.left_pos (progress : Progress) : 0 < progress.left := by
  cases progress <;> exact Nat.succ_pos _

theorem Progress.left_le (progress : Progress) : progress.left ≤ 7 := by
  cases progress <;> simp only [left] <;> omega

theorem Completes.advance (h : Completes b progress snapshot)
    (hadvance : UDPServer.advance progress b = .ok progress' b) : Completes b progress' snapshot := by
  cases h with
  | sent =>
    rw [advance_sent] at hadvance
    cases hadvance
    exact .sent snapshot
  | access hadvance' hrest =>
    rw [hadvance'] at hadvance
    cases hadvance
    exact hrest

theorem completes_sent {snapshot' : MarketDataSnapshot} (h : Completes b (.sent snapshot') snapshot) :
    snapshot' = snapshot := by
  generalize hprogress : Progress.sent snapshot' = progress at h
  induction h with
  | sent => exact Progress.sent.inj hprogress
  | access hadvance _ ih =>
    subst hprogress
    rw [advance_sent] at hadvance
    cases hadvance
    exact ih rfl

/-- An access that is not the last comes closer to the end. -/
theorem exists_advance (hb : WellFormed b) (hprogress : ∀ snapshot, progress ≠ .sent snapshot) :
    ∃ progress', advance progress b = .ok progress' b ∧ progress'.left < progress.left := by
  cases progress with
  | begun =>
    rcases top_or_empty hb .bid with hnone | ⟨l, p, htop⟩
    · exact ⟨_, advance_begun_empty hb hnone, by decide⟩
    · exact ⟨_, advance_begun hb htop, Nat.lt_succ_self 6⟩
  | haveBid bid =>
    rcases top_or_empty hb .ask with hnone | ⟨l, p, htop⟩
    · exact ⟨_, advance_haveBid_empty hb hnone, Nat.lt_of_sub_pos (Nat.succ_pos 4)⟩
    · exact ⟨_, advance_haveBid hb htop, Nat.lt_succ_self 5⟩
  | haveBoth bid ask => exact ⟨_, advance_haveBoth, Nat.lt_succ_self 4⟩
  | haveBidPrice bid ask bidPrice => exact ⟨_, advance_haveBidPrice, Nat.lt_succ_self 3⟩
  | havePrices bid ask bidPrice askPrice =>
    cases hlevel : levelOf (b.order bid).mPrice with
    | none => exact ⟨_, advance_havePrices_refused hlevel, Nat.lt_of_sub_pos (Nat.succ_pos 1)⟩
    | some l => exact ⟨_, advance_havePrices hb hlevel, Nat.lt_succ_self 2⟩
  | haveBidVolume bid ask bidPrice askPrice bidVol =>
    cases hlevel : levelOf (b.order ask).mPrice with
    | none => exact ⟨_, advance_haveBidVolume_refused hlevel, Nat.lt_succ_self 1⟩
    | some l => exact ⟨_, advance_haveBidVolume hb hlevel, Nat.lt_succ_self 1⟩
  | sent snapshot => exact absurd rfl (hprogress snapshot)

/-- What the publisher sends of an uncrossed book, in one iteration or step by step. -/
structure Quotation (b : OrderBook) (snapshot : MarketDataSnapshot) : Prop where
  published : publish b = .ok (.sent snapshot) b
  completes : Completes b .begun snapshot
  spread : snapshot = .zero ∨ snapshot.bestBid < snapshot.bestAsk

theorem exists_quotation (hb : WellFormed b) (huncrossed : Uncrossed b) : ∃ snapshot, Quotation b snapshot := by
  rcases huncrossed with ⟨s, hempty⟩ | ⟨lb, la, hbest, hbest', hlt⟩
  · refine ⟨.zero, publish_empty hb hempty, ?_, Or.inl rfl⟩
    rcases top_or_empty hb .bid with hnone | ⟨l, bid, htop⟩
    · exact .access (advance_begun_empty hb hnone) (.sent _)
    · cases s with
      | bid => exact absurd (hempty l) htop.1.1
      | ask => exact .access (advance_begun hb htop) (.access (advance_haveBid_empty hb hempty) (.sent _))
  · obtain ⟨bid, rest, hqueue⟩ := List.exists_cons_of_ne_nil hbest.1
    obtain ⟨ask, rest', hqueue'⟩ := List.exists_cons_of_ne_nil hbest'.1
    have hbid : b.Top .bid lb bid := ⟨hbest, rest, hqueue⟩
    have hask : b.Top .ask la ask := ⟨hbest', rest', hqueue'⟩
    refine ⟨_, publish_both hb hbid hask, ?_, Or.inr ?_⟩
    · refine .access (advance_begun hb hbid) (.access (advance_haveBid hb hask) (.access advance_haveBoth
        (.access advance_haveBidPrice ?_)))
      rw [price_top hb hbid, price_top hb hask]
      exact .access (advance_havePrices hb (hb.filed .bid lb bid hbid.mem).2)
        (.access (advance_haveBidVolume hb (hb.filed .ask la ask hask.mem).2) (.sent _))
    · show tickPrice lb < tickPrice la
      have hla := hbest'.lt hb
      rw [UInt64.lt_iff_toNat_lt, toNat_tickPrice (Nat.lt_trans hlt hla), toNat_tickPrice hla]
      omega

end UDPServer

namespace System

/-! ### The matching loop -/

/-- The server reads nothing. -/
def Quiet : Event → Prop
  | .serverRead _ _ => False
  | .disconnected _ n => n = 0
  | _ => True

/-- The trade to send, and the orders that may still trade. -/
def owed (s : System) : Nat :=
  s.unsent.toList.length +
    if (s.engine.step .matchLimitOrders).1 = .matched (.ok none) then 0 else s.engine.orderBook.resting.length

variable {s : System} {event : Event} {events : List Event}

/-- A connection that ends with nothing read leaves the engine and the feed as they are. -/
theorem aside_disconnected (hb : WellFormed s.engine.orderBook) (i : Nat) : Aside s (s.disconnected i 0) := by
  by_cases hserving : (s.peer i).serving = true
  · have hnone : s.requested i 0 = [] := requested_idle fun hread => hread.2 rfl
    rw [disconnected_eq hb hserving, hnone]
    exact aside_setPeer s i _
  · rw [disconnected_idle hserving]
    exact .refl s

theorem owed_congr {s' : System} (hengine : s'.engine = s.engine) (hunsent : s'.unsent = s.unsent) :
    s'.owed = s.owed := by
  rw [owed, owed, hunsent, hengine]

theorem unsent_of_owed (h : s.owed = 0) : s.unsent = none := by
  cases hunsent : s.unsent with
  | none => rfl
  | some trade =>
    rw [owed, hunsent, Option.toList_some, List.length_singleton] at h
    omega

/-- A match that trades takes an order off the book for the trade that it leaves to send. -/
theorem owed_matchOrders (hb : WellFormed s.engine.orderBook) : WellFormed s.matchOrders.engine.orderBook ∧
    s.matchOrders.owed ≤ s.owed ∧ (s.matchOrders.owed = 0 ∨ s.matchOrders.unsent ≠ none) := by
  cases hunsent : s.unsent with
  | some trade =>
    rw [matchOrders_unsent hunsent]
    exact ⟨hb, Nat.le_refl _, Or.inr (by rw [hunsent]; exact Option.some_ne_none trade)⟩
  | none =>
    obtain ⟨trade, hreply, hnext⟩ := matchOrders_eq hb hunsent
    have hb' := wellFormed_next hb .matchLimitOrders
    rcases match_cases hb with ⟨-, hstep⟩ | ⟨lb, la, bid, ask, -, hbid, hask, -, hstep⟩
    · rw [hstep] at hreply
      cases hreply
      rw [hnext, next_of_step hstep]
      have hzero : owed { s with unsent := none } = 0 := by
        rw [owed, hstep]
        rfl
      exact ⟨hb, hzero ▸ Nat.zero_le _, Or.inl hzero⟩
    · rw [hstep] at hreply
      cases hreply
      have hlt := length_resting_settled hb hbid hask
      refine ⟨by rw [hnext]; exact hb', ?_, Or.inr (by rw [hnext]; exact Option.some_ne_none _)⟩
      have howed : s.owed = s.engine.orderBook.resting.length := by
        rw [owed, hunsent, hstep, if_neg (by simp)]
        exact Nat.zero_add _
      rw [hnext, next_of_step hstep, howed, owed, Option.toList_some, List.length_singleton]
      split_ifs
      · omega
      · dsimp only
        omega

theorem sendTrade_unsent (h : s.unsent = none) : s.sendTrade = s := by
  unfold sendTrade
  rw [h]

theorem owed_sendTrade (hb : WellFormed s.engine.orderBook) : WellFormed s.sendTrade.engine.orderBook ∧
    s.sendTrade.owed ≤ s.owed ∧ (s.unsent ≠ none → s.sendTrade.owed < s.owed) := by
  cases hunsent : s.unsent with
  | none =>
    rw [sendTrade_unsent hunsent]
    exact ⟨hb, Nat.le_refl _, fun h => absurd rfl h⟩
  | some trade =>
    have hsend : s.sendTrade =
        { s with unsent := none, feed := s.feed ++ [bytes "TRADE:" ++ trade.serialise] } := by
      unfold sendTrade
      rw [hunsent]
    have hlt : s.sendTrade.owed < s.owed := by
      rw [hsend, owed, owed, hunsent, Option.toList_some, Option.toList_none, List.length_nil,
        List.length_singleton]
      dsimp only
      omega
    exact ⟨by rw [hsend]; exact hb, Nat.le_of_lt hlt, fun _ => hlt⟩

/-- What a quiet step leaves to do, and that a trade waits until it is sent. -/
theorem owed_step (hb : WellFormed s.engine.orderBook) (hquiet : Quiet event) :
    WellFormed (s.step event).2.engine.orderBook ∧ (s.step event).2.owed ≤ s.owed ∧
      (s.unsent ≠ none → (s.step event).2.owed < s.owed ∨ (s.step event).2.unsent ≠ none) := by
  have hsame : ∀ {s' : System}, s'.engine = s.engine → s'.unsent = s.unsent → WellFormed s'.engine.orderBook ∧
      s'.owed ≤ s.owed ∧ (s.unsent ≠ none → s'.owed < s.owed ∨ s'.unsent ≠ none) :=
    fun hengine hunsent => ⟨hengine ▸ hb, Nat.le_of_eq (owed_congr hengine hunsent), fun h => Or.inr (hunsent ▸ h)⟩
  cases event with
  | call i c => exact hsame (aside_call s i c).engine (aside_call s i c).unsent
  | write i data => exact hsame rfl rfl
  | serverRead i n => exact hquiet.elim
  | disconnected i n =>
    obtain rfl : n = 0 := hquiet
    exact hsame (aside_disconnected hb i).engine (aside_disconnected hb i).unsent
  | clientRead i n => exact hsame (aside_clientRead s i n).engine (aside_clientRead s i n).unsent
  | matchOrders =>
    obtain ⟨hb', hle, -⟩ := owed_matchOrders hb
    refine ⟨hb', hle, fun hunsent => Or.inr ?_⟩
    obtain ⟨trade, htrade⟩ := Option.ne_none_iff_exists'.mp hunsent
    show s.matchOrders.unsent ≠ none
    rwa [matchOrders_unsent htrade]
  | sendTrade =>
    obtain ⟨hb', hle, hlt⟩ := owed_sendTrade hb
    exact ⟨hb', hle, fun hunsent => Or.inl (hlt hunsent)⟩
  | publish =>
    obtain ⟨publisher, feed, hpublish⟩ := publish_eq hb
    refine hsame ?_ ?_
    · show s.publish.engine = s.engine
      rw [hpublish]
    · show s.publish.unsent = s.unsent
      rw [hpublish]

/-- Less than `m` is left to do, or a trade waits to be sent. -/
structure Promised (m : Nat) (s : System) : Prop where
  book : WellFormed s.engine.orderBook
  le : s.owed ≤ m
  waits : s.owed < m ∨ s.unsent ≠ none

theorem promised_step {m : Nat} (h : Promised m s) (hquiet : Quiet event) : Promised m (s.step event).2 := by
  obtain ⟨hb, hle, hwaits⟩ := owed_step h.book hquiet
  refine ⟨hb, Nat.le_trans hle h.le, ?_⟩
  rcases h.waits with hlt | hunsent
  · exact Or.inl (Nat.lt_of_le_of_lt hle hlt)
  · exact (hwaits hunsent).imp_left fun hlt => Nat.lt_of_lt_of_le hlt h.le

theorem owed_run (hb : WellFormed s.engine.orderBook) (hquiet : ∀ event ∈ events, Quiet event) :
    WellFormed (machine.run s events).engine.orderBook ∧ (machine.run s events).owed ≤ s.owed :=
  Machine.run_of_forall (M := machine) (I := fun s' => WellFormed s'.engine.orderBook ∧ s'.owed ≤ s.owed)
    (fun _ _ hs' hq => ⟨(owed_step hs'.1 hq).1, Nat.le_trans (owed_step hs'.1 hq).2.1 hs'.2⟩)
    ⟨hb, Nat.le_refl _⟩ hquiet

theorem promised_run {m : Nat} (h : Promised m s) (hquiet : ∀ event ∈ events, Quiet event) :
    Promised m (machine.run s events) :=
  Machine.run_of_forall (M := machine) (fun _ _ hs hq => promised_step hs hq) h hquiet

/-- A round of the matching loop sends a trade, if there is anything to do. -/
theorem owed_round (hb : WellFormed s.engine.orderBook) (hquiet : ∀ event ∈ events, Quiet event)
    (hround : List.Sublist [.matchOrders, .sendTrade] events) (howed : s.owed ≠ 0) :
    (machine.run s events).owed < s.owed := by
  obtain ⟨events₁, events₂, rfl, hmatch, hsend⟩ := List.cons_sublist_iff.mp hround
  obtain ⟨before, between, rfl⟩ := List.append_of_mem hmatch
  obtain ⟨between', after, rfl⟩ := List.append_of_mem (List.singleton_sublist.mp hsend)
  obtain ⟨⟨hbefore, -, hbetween⟩, hbetween', -, hafter⟩ :
      ((∀ event ∈ before, Quiet event) ∧ Quiet .matchOrders ∧ ∀ event ∈ between, Quiet event) ∧
        (∀ event ∈ between', Quiet event) ∧ Quiet .sendTrade ∧ ∀ event ∈ after, Quiet event := by
    simpa only [List.forall_mem_append, List.forall_mem_cons] using hquiet
  obtain ⟨hb₁, hle₁⟩ := owed_run hb hbefore
  have hmatched : Promised s.owed (machine.run s before).matchOrders := by
    obtain ⟨hb', hle, hcase⟩ := owed_matchOrders hb₁
    refine ⟨hb', Nat.le_trans hle hle₁, hcase.imp_left fun hzero => ?_⟩
    omega
  have hwaits := promised_run (promised_run hmatched hbetween) hbetween'
  obtain ⟨hb₂, hle₂, hlt⟩ := owed_sendTrade hwaits.book
  have hsent : (sendTrade (machine.run (machine.run (machine.run s before).matchOrders between) between')).owed <
      s.owed := by
    rcases hwaits.waits with hless | hunsent
    · exact Nat.lt_of_le_of_lt hle₂ hless
    · exact Nat.lt_of_lt_of_le (hlt hunsent) hwaits.le
  rw [Machine.run_append, Machine.run_append, Machine.run_append]
  exact Nat.lt_of_le_of_lt (owed_run hb₂ hafter).2 hsent

/-! ### The publisher when nothing is left to do -/

/-- Nothing is left to do, and `snapshot` is what the publisher sends of the book. -/
structure Calm (snapshot : MarketDataSnapshot) (s : System) : Prop where
  book : WellFormed s.engine.orderBook
  owed : s.owed = 0
  quotation : UDPServer.Quotation s.engine.orderBook snapshot

def isPublish : Event → Bool
  | .publish => true
  | _ => false

/-- What `n` steps of the publisher send on a book that stays: after the iteration it is in, the one snapshot. -/
structure Repeats (snapshot : MarketDataSnapshot) (s s' : System) (n : Nat) (sent : List MarketDataSnapshot) :
    Prop where
  engine : s'.engine = s.engine
  feed : s'.feed = s.feed ++ sent.map MarketDataSnapshot.serialise
  steps : n + s'.publisher.left ≤ s.publisher.left + 7 * sent.length
  fresh : UDPServer.Completes s.engine.orderBook s.publisher snapshot →
    (∀ x ∈ sent, x = snapshot) ∧ UDPServer.Completes s.engine.orderBook s'.publisher snapshot
  ended : sent ≠ [] → UDPServer.Completes s.engine.orderBook s'.publisher snapshot

variable {snapshot : MarketDataSnapshot}

theorem Aside.repeats {s' : System} (h : Aside s s') : Repeats snapshot s s' 0 [] where
  engine := h.engine
  feed := by rw [h.feed, List.map_nil, List.append_nil]
  steps := by rw [h.publisher, List.length_nil]; omega
  fresh hfresh := ⟨fun x hx => absurd hx List.not_mem_nil, h.publisher ▸ hfresh⟩
  ended hne := absurd rfl hne

theorem Repeats.trans {s' s'' : System} {n n' : Nat} {sent sent' : List MarketDataSnapshot}
    (h : Repeats snapshot s s' n sent) (h' : Repeats snapshot s' s'' n' sent') :
    Repeats snapshot s s'' (n + n') (sent ++ sent') := by
  have hfresh := h'.fresh
  have hended := h'.ended
  rw [h.engine] at hfresh hended
  refine ⟨h'.engine.trans h.engine, ?_, ?_, fun hstart => ?_, fun hne => ?_⟩
  · rw [h'.feed, h.feed, List.map_append, List.append_assoc]
  · have hsteps := h.steps
    have hsteps' := h'.steps
    rw [List.length_append]
    omega
  · obtain ⟨hall, hnow⟩ := h.fresh hstart
    obtain ⟨hall', hend⟩ := hfresh hnow
    exact ⟨List.forall_mem_append.mpr ⟨hall, hall'⟩, hend⟩
  · by_cases hsent : sent = []
    · exact hended (by rwa [hsent, List.nil_append] at hne)
    · exact (hfresh (h.ended hsent)).2

/-- A match finds nothing that crosses. -/
theorem idle_of_owed (hb : WellFormed s.engine.orderBook) (h : s.owed = 0) : Uncrossed s.engine.orderBook ∧
    s.engine.step .matchLimitOrders = (.matched (.ok none), s.engine) := by
  rcases match_cases hb with hidle | ⟨lb, la, bid, ask, -, hbid, hask, -, hstep⟩
  · exact hidle
  · have hpos := two_le_length_resting hb hbid hask
    rw [owed, hstep, if_neg (by simp)] at h
    omega

theorem aside_matchOrders (h : Calm snapshot s) : Aside s s.matchOrders := by
  have hunsent := unsent_of_owed h.owed
  obtain ⟨trade, hreply, hnext⟩ := matchOrders_eq h.book hunsent
  have hstep := (idle_of_owed h.book h.owed).2
  rw [hstep] at hreply
  cases hreply
  rw [hnext, next_of_step hstep]
  exact ⟨rfl, rfl, hunsent.symm, rfl⟩

theorem repeats_publish (h : Calm snapshot s) : ∃ sent, Repeats snapshot s s.publish 1 sent := by
  unfold publish
  split
  · next x hx =>
    refine ⟨[x], rfl, rfl, ?_, fun hfresh => ⟨fun y hy => ?_, h.quotation.completes⟩, fun _ => h.quotation.completes⟩
    · rw [hx]
      exact Nat.le_refl 8
    · rw [hx] at hfresh
      rw [List.mem_singleton.mp hy]
      exact UDPServer.completes_sent hfresh
  · next hprogress =>
    obtain ⟨progress', hadvance, hleft⟩ := UDPServer.exists_advance h.book hprogress
    rw [onBook_ok hadvance]
    refine ⟨[], rfl, (List.append_nil _).symm, ?_, fun hfresh => ⟨fun y hy => ?_, hfresh.advance hadvance⟩,
      fun hne => absurd rfl hne⟩
    · rw [List.length_nil, Nat.add_comm]
      exact hleft
    · cases hy

theorem Calm.repeats (h : Calm snapshot s) {s' : System} {n : Nat} {sent : List MarketDataSnapshot}
    (hrepeats : Repeats snapshot s s' n sent) (howed : s'.owed = 0) : Calm snapshot s' := by
  have hengine := hrepeats.engine
  exact ⟨hengine ▸ h.book, howed, hengine ▸ h.quotation⟩

theorem repeats_step (h : Calm snapshot s) (hquiet : Quiet event) :
    ∃ sent, Repeats snapshot s (s.step event).2 (if isPublish event then 1 else 0) sent := by
  cases event with
  | call i c => exact ⟨[], (aside_call s i c).repeats⟩
  | write i data => exact ⟨[], (aside_setPeer s i _).repeats⟩
  | serverRead i n => exact hquiet.elim
  | disconnected i n =>
    obtain rfl : n = 0 := hquiet
    exact ⟨[], (aside_disconnected h.book i).repeats⟩
  | clientRead i n => exact ⟨[], (aside_clientRead s i n).repeats⟩
  | matchOrders => exact ⟨[], (aside_matchOrders h).repeats⟩
  | sendTrade =>
    refine ⟨[], ?_⟩
    show Repeats snapshot s s.sendTrade 0 []
    rw [sendTrade_unsent (unsent_of_owed h.owed)]
    exact (Aside.refl s).repeats
  | publish => exact repeats_publish h

theorem repeats_run (h : Calm snapshot s) (hquiet : ∀ event ∈ events, Quiet event) :
    Calm snapshot (machine.run s events) ∧
      ∃ sent, Repeats snapshot s (machine.run s events) (events.countP isPublish) sent := by
  induction events generalizing s with
  | nil => exact ⟨h, [], (Aside.refl s).repeats⟩
  | cons event events ih =>
    obtain ⟨hevent, hrest⟩ := List.forall_mem_cons.mp hquiet
    obtain ⟨sent, hrepeats⟩ := repeats_step h hevent
    have howed : (s.step event).2.owed = 0 := Nat.le_zero.mp (h.owed ▸ (owed_step h.book hevent).2.1)
    obtain ⟨hcalm, sent', hrepeats'⟩ := ih (h.repeats hrepeats howed) hrest
    refine ⟨hcalm, sent ++ sent', ?_⟩
    rw [List.countP_cons, Nat.add_comm]
    exact hrepeats.trans hrepeats'

/-! ### The settled market -/

/-- The book stays uncrossed as it is, the publisher sends one snapshot over and over, and who receives it shows
it. -/
structure Settled (snapshot : MarketDataSnapshot) (s : System) : Prop where
  uncrossed : Uncrossed s.engine.orderBook
  published : UDPServer.publish s.engine.orderBook = .ok (.sent snapshot) s.engine.orderBook
  spread : snapshot = .zero ∨ snapshot.bestBid < snapshot.bestAsk
  stays : ∀ events, (∀ event ∈ events, Quiet event) → ∃ k, (machine.run s events).engine = s.engine ∧
    (machine.run s events).feed = s.feed ++ List.replicate k snapshot.serialise ∧
      (List.Sublist (List.replicate 7 .publish) events → 0 < k)
  received : ∀ current, UDPMarketDataReceiver.machine.run current [snapshot.serialise] = snapshot

theorem countP_isPublish {n : Nat} (h : List.Sublist (List.replicate n .publish) events) :
    n ≤ events.countP isPublish := by
  have hle := h.countP_le (p := isPublish)
  rwa [List.countP_replicate, if_pos (show isPublish .publish = true from rfl)] at hle

theorem Repeats.sent_ne_nil {s' : System} {n : Nat} {sent : List MarketDataSnapshot}
    (h : Repeats snapshot s s' n sent) (hn : 7 ≤ n) : sent ≠ [] := by
  rintro rfl
  have hsteps := h.steps
  have hle := s.publisher.left_le
  have hpos := s'.publisher.left_pos
  rw [List.length_nil] at hsteps
  omega

theorem Calm.settled (h : Calm snapshot s)
    (hfresh : UDPServer.Completes s.engine.orderBook s.publisher snapshot) : Settled snapshot s where
  uncrossed := (idle_of_owed h.book h.owed).1
  published := h.quotation.published
  spread := h.quotation.spread
  stays events hquiet := by
    obtain ⟨-, sent, hrepeats⟩ := repeats_run h hquiet
    have hsent : sent = List.replicate sent.length snapshot := List.eq_replicate_of_mem (hrepeats.fresh hfresh).1
    refine ⟨sent.length, hrepeats.engine, ?_, fun hpublish => ?_⟩
    · rw [hrepeats.feed, hsent, List.map_replicate, List.length_replicate]
    · exact List.length_pos_iff.mpr (hrepeats.sent_ne_nil (countP_isPublish hpublish))
  received current := congrArg Prod.snd ((Message.snapshot snapshot).step_datagram current)

theorem owed_le (s : System) : s.owed ≤ s.engine.orderBook.resting.length + 1 := by
  have hunsent : s.unsent.toList.length ≤ 1 := Option.length_toList_le
  rw [owed]
  split_ifs
  · omega
  · omega

/-- **The market settles** when the server reads nothing more: after a round of the matching loop for each order
that rests and one more, and an iteration of the publisher, the book stays uncrossed as it is and its snapshot is
all that is published. -/
theorem settles (counter : UInt64) (h : machine.Reachable (start (.new 101 counter)) s) {calm look : List Event}
    (hcalm : ∀ event ∈ calm, Quiet event) (hlook : ∀ event ∈ look, Quiet event)
    (hrounds : List.Sublist
      (List.replicate (s.engine.orderBook.resting.length + 1) [.matchOrders, .sendTrade]).flatten calm)
    (haccesses : List.Sublist (List.replicate 7 .publish) look) :
    ∃ snapshot, Settled snapshot (machine.run s (calm ++ look)) := by
  have hb : WellFormed s.engine.orderBook := by
    obtain ⟨events, rfl⟩ := h
    exact (publishing_run (publishing_start counter) events).book
  obtain ⟨hb', howed⟩ := Machine.run_rounds (M := machine) (I := fun s' => WellFormed s'.engine.orderBook)
    (m := owed) (fun _ _ hs hq => ⟨(owed_step hs hq).1, (owed_step hs hq).2.1⟩)
    (fun _ _ hs hq hround hne => owed_round hs hq hround hne) hb hcalm (owed_le s) hrounds
  obtain ⟨snapshot, hquotation⟩ := UDPServer.exists_quotation hb' (idle_of_owed hb' howed).1
  obtain ⟨hend, sent, hrepeats⟩ := repeats_run ⟨hb', howed, hquotation⟩ hlook
  rw [Machine.run_append]
  refine ⟨snapshot, hend.settled ?_⟩
  rw [hrepeats.engine]
  exact hrepeats.ended (hrepeats.sent_ne_nil (countP_isPublish haccesses))

/-- A bid takes an ask and what is left of it waits for a better one. -/
theorem settles_example :
    let s := machine.run (start (.new 101 0)) [.call 0 (.placeOrder ⟨.bid, 9, bytes "TSLA", 0, ⟨1000⟩⟩),
      .call 1 (.placeOrder ⟨.ask, 5, bytes "TSLA", 0, ⟨990⟩⟩), .call 2 (.placeOrder ⟨.ask, 7, bytes "TSLA", 0, ⟨1010⟩⟩),
      .serverRead 0 1024, .serverRead 1 1024, .publish, .serverRead 2 1024]
    let calm := (List.replicate 4 [.matchOrders, .sendTrade]).flatten
    let look := List.replicate 7 .publish
    (∃ snapshot, Settled snapshot (machine.run s (calm ++ look))) ∧
      (machine.run s (calm ++ look)).feed = [bytes "TRADE:990:5", bytes "1000,1010,4,7"] := by
  intro s calm look
  have hlength : s.engine.orderBook.resting.length = 3 := by decide +kernel
  refine ⟨settles 0 ⟨_, rfl⟩ (by simp [calm, Quiet]) (by simp [look, Quiet]) ?_ (List.Sublist.refl _), ?_⟩
  · rw [hlength]
  · decide +kernel

end System

end TradingSystem
