import TradingSystem.Reference.Levels

/-!
# Cancels commute

Two cancels whose ids have different entries change different entries, and the queues they change lose different
orders. On a book of queues they commute, and so a list of cancels can be made in any order: the engine is left with
the same queues, entries and number of free slots, and answers all later calls alike. (The free stack is left in
another order, which is not observed.)
-/

namespace TradingSystem

open Lib OrderBook MatchingEngine

namespace LevelBook

variable {r : LevelBook} {k k' : UInt64} {s s' : Side} {l l' : Nat}

/-- The book after a cancel. -/
def cancelled (r : LevelBook) (k : UInt64) : LevelBook := (r.cancelOrder k).2

/-- The orders of a list that a cancel leaves. -/
def without (k : UInt64) (q : List Order) : List Order := q.eraseP fun o => o.mOrderID = k

/-- The slots that a cancel frees. -/
def freed (k : UInt64) (q : List Order) : Nat := if ∃ o ∈ q, o.mOrderID = k then 1 else 0

theorem without_of_absent {q : List Order} (h : ¬ ∃ o ∈ q, o.mOrderID = k) : without k q = q := by
  refine List.eraseP_of_forall_not fun o ho => ?_
  rw [decide_eq_true_eq]
  exact fun hid => h ⟨o, ho, hid⟩

theorem without_comm (hne : k ≠ k') (q : List Order) : without k (without k' q) = without k' (without k q) := by
  refine List.eraseP_comm fun o _ => ?_
  simp only [decide_eq_true_eq]
  by_contra hboth
  rw [not_or, not_not, not_not] at hboth
  exact hne (hboth.2.symm.trans hboth.1)

theorem freed_without (hne : k ≠ k') (q : List Order) : freed k (without k' q) = freed k q := by
  have hmem : ∀ o : Order, o.mOrderID = k → (o ∈ without k' q ↔ o ∈ q) := by
    rintro o rfl
    refine List.mem_eraseP_of_neg ?_
    rw [decide_eq_true_eq]
    exact hne
  refine if_congr (exists_congr fun o => ?_) rfl rfl
  exact and_congr_left fun hid => hmem o hid

theorem cancelled_of_none (h : r.entry (mapIndex k) = none) : r.cancelled k = r := by
  simp only [cancelled, cancelOrder, h]

theorem cancelled_of_some (h : r.entry (mapIndex k) = some (s, l)) : r.cancelled k =
    { (r.setQueue s l (without k (r.queue s l))).setEntry k none with free := r.free + freed k (r.queue s l) } := by
  simp only [cancelled, cancelOrder, h, freed]
  split_ifs with hpresent
  · rfl
  · rw [without_of_absent hpresent]
    refine LevelBook.ext ?_ rfl rfl rfl
    funext s' l'
    simp only [setEntry, setQueue]
    split_ifs with hsame
    · rw [hsame.1, hsame.2]
    · rfl

/-- A cancel leaves the entries of the other ids. -/
theorem entry_cancelled (hne : mapIndex k' ≠ mapIndex k) :
    (r.cancelled k).entry (mapIndex k') = r.entry (mapIndex k') := by
  cases hentry : r.entry (mapIndex k) with
  | none => rw [cancelled_of_none hentry]
  | some place =>
    rw [cancelled_of_some (s := place.1) (l := place.2) hentry]
    exact if_neg hne

theorem cancelled_comm (hne : mapIndex k ≠ mapIndex k') :
    (r.cancelled k).cancelled k' = (r.cancelled k').cancelled k := by
  have hid : k ≠ k' := fun heq => hne (congrArg mapIndex heq)
  have hentry := entry_cancelled (r := r) hne.symm
  have hentry' := entry_cancelled (r := r) hne
  cases hk : r.entry (mapIndex k) with
  | none =>
    rw [hk] at hentry'
    rw [cancelled_of_none hk, cancelled_of_none hentry']
  | some place =>
    cases hk' : r.entry (mapIndex k') with
    | none =>
      rw [hk'] at hentry
      rw [cancelled_of_none hk', cancelled_of_none hentry]
    | some place' =>
      obtain ⟨s, l⟩ := place
      obtain ⟨s', l'⟩ := place'
      rw [hk] at hentry'
      rw [hk'] at hentry
      rw [cancelled_of_some hentry, cancelled_of_some hentry', cancelled_of_some hk, cancelled_of_some hk']
      by_cases hsame : s' = s ∧ l' = l
      · obtain ⟨rfl, rfl⟩ := hsame
        refine LevelBook.ext ?_ ?_ ?_ rfl
        · funext s l
          simp only [setEntry, setQueue, and_self, if_true]
          split_ifs
          · exact without_comm hid.symm _
          · rfl
        · funext i
          simp only [setEntry, setQueue]
          split_ifs <;> rfl
        · simp only [setEntry, setQueue, and_self, if_true, freed_without hid, freed_without hid.symm]
          exact Nat.add_right_comm _ _ _
      · have hsame' : ¬ (s = s' ∧ l = l') := fun h => hsame ⟨h.1.symm, h.2.symm⟩
        refine LevelBook.ext ?_ ?_ ?_ rfl
        · funext s'' l''
          simp only [setEntry, setQueue, if_neg hsame, if_neg hsame']
          split_ifs with h h'
          · exact absurd ⟨h.1.symm.trans h'.1, h.2.symm.trans h'.2⟩ hsame
          · rfl
          · rfl
          · rfl
        · funext i
          simp only [setEntry, setQueue]
          split_ifs <;> rfl
        · simp only [setEntry, setQueue, if_neg hsame, if_neg hsame']
          exact Nat.add_right_comm _ _ _

/-! ### Many cancels -/

theorem run_cancels (r : LevelBook) (ks : List UInt64) :
    machine.run r (ks.map .cancelOrder) = ks.foldl cancelled r := by
  induction ks generalizing r with
  | nil => rfl
  | cons k ks ih => exact ih (r.cancelled k)

theorem run_cancels_perm (r : LevelBook) {ks ks' : List UInt64} (hperm : ks.Perm ks')
    (hdistinct : (ks.map mapIndex).Nodup) :
    machine.run r (ks.map .cancelOrder) = machine.run r (ks'.map .cancelOrder) := by
  rw [run_cancels, run_cancels]
  refine hperm.foldl_eq' (fun k hk k' hk' r => ?_) r
  by_cases heq : k = k'
  · rw [heq]
  · exact cancelled_comm fun hindex => heq (List.inj_on_of_nodup_map hdistinct hk hk' hindex)

end LevelBook

namespace MatchingEngine

/-- **Cancels can be made in any order**, when no two of their ids share an entry: the queues, the entries, the
number of free slots and the answers of all later calls are the same. -/
theorem cancels_perm {e : MatchingEngine} (h : Reachable e) {ks ks' : List UInt64} (hperm : ks.Perm ks')
    (hdistinct : (ks.map mapIndex).Nodup) (cs : List Call) :
    (machine.run e (ks.map .cancelOrder)).levels = (machine.run e (ks'.map .cancelOrder)).levels ∧
      observed.outputs (machine.run e (ks.map .cancelOrder)) cs =
        observed.outputs (machine.run e (ks'.map .cancelOrder)) cs := by
  have hwf : ∀ cs, WellFormed (machine.run e cs).orderBook := fun cs =>
    machine.run_invariant (I := fun e => WellFormed e.orderBook) (fun _ c hb => wellFormed_next hb c) h.wellFormed cs
  have hlevels : (machine.run e (ks.map .cancelOrder)).levels = (machine.run e (ks'.map .cancelOrder)).levels := by
    rw [(levels_run h.wellFormed _).2, (levels_run h.wellFormed _).2]
    exact LevelBook.run_cancels_perm e.levels hperm hdistinct
  refine ⟨hlevels, ?_⟩
  rw [(levels_run (hwf _) cs).1, (levels_run (hwf _) cs).1, hlevels]

/-- Two of three orders are cancelled in either order, and the third one trades. -/
theorem cancels_perm_example :
    let e := machine.run (new 101 0) [.addOrder ⟨.bid, 5, [], 0, ⟨1000⟩⟩, .addOrder ⟨.bid, 6, [], 0, ⟨1000⟩⟩,
      .addOrder ⟨.bid, 7, [], 0, ⟨1000⟩⟩]
    (machine.run e [.cancelOrder 1, .cancelOrder 3]).levels = (machine.run e [.cancelOrder 3, .cancelOrder 1]).levels ∧
      observed.outputs (machine.run e [.cancelOrder 1, .cancelOrder 3])
          [.addOrder ⟨.ask, 6, [], 0, ⟨990⟩⟩, .matchLimitOrders] =
        observed.outputs (machine.run e [.cancelOrder 3, .cancelOrder 1])
          [.addOrder ⟨.ask, 6, [], 0, ⟨990⟩⟩, .matchLimitOrders] :=
  cancels_perm ⟨0, _, rfl⟩ (List.Perm.swap 3 1 []) (by decide) _

end MatchingEngine

end TradingSystem
