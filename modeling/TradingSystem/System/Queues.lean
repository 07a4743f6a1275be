import TradingSystem.Reference.Levels
import TradingSystem.System.Sessions

/-!
# Sessions share a book of queues

The engine is observed as a book of queues, and the sessions share the engine. So the sessions share a book of
queues: of slots, bitmaps, pointers, locks and threads they see nothing.
-/

namespace TradingSystem

open Lib MatchingEngine

/-- What a session makes of the answer of a book. -/
def answerOutcome : Call → Answer → SessionResult
  | .addOrder _, .added (.ok orderId) => .placed (.ok orderId)
  | .addOrder _, .added (.error e) =>
    .placed (.error (.runtimeError ("Order rejected: Order rejected: " ++ e.what)))
  | .cancelOrder orderId, _ => .cancelled (bytes "Order cancelled: " ++ stdToString orderId)
  | _, _ => .cancelled [] -- no call of a session

theorem answerOutcome_answer (c : Call) (e' : MatchingEngine) (r : Reply) :
    answerOutcome c (answer e' r) = outcome c r := by
  cases c with
  | cancelOrder orderId => rfl
  | addOrder order =>
    cases r with
    | added result => cases result <;> rfl
    | cancelled | matched => rfl
  | matchLimitOrders => cases r <;> rfl

/-- The engine, and the book of queues that it is. -/
def IsLevels (e : MatchingEngine) (r : LevelBook) : Prop := WellFormed e.orderBook ∧ e.levels = r

theorem isLevels_step {e : MatchingEngine} {r : LevelBook} (c : Call) (h : IsLevels e r) :
    IsLevels (machine.next e c) (LevelBook.machine.next r c) ∧
      answerOutcome c (LevelBook.machine.step r c).1 = outcome c (machine.step e c).1 := by
  obtain ⟨hb, rfl⟩ := h
  have hstep : LevelBook.machine.step e.levels c = ((observed.step e c).1, (machine.next e c).levels) :=
    levels_step hb c
  have hnext : LevelBook.machine.next e.levels c = (machine.next e c).levels := congrArg Prod.snd hstep
  refine ⟨⟨wellFormed_next hb c, hnext.symm⟩, ?_⟩
  rw [hstep]
  exact answerOutcome_answer c _ _

namespace System

/-- **The sessions cannot tell the process from a book of queues**: what they see is linearizable for the book, which
ends as the book that the engine is. -/
theorem linearizable_levelBook (G : Nat → Prop) [DecidablePred G] (counter : UInt64) {events : List Event}
    (halong : machine.Along (Proper G) (start (.new 101 counter)) events) :
    Linearizable LevelBook.machine answerOutcome (.new counter)
      (machine.run (start (.new 101 counter)) events).engine.levels
      (machine.collect (others G) (start (.new 101 counter)) events)
      ((machine.outputs (start (.new 101 counter)) events).flatMap (seen G)) := by
  have hreach : Reachable (new 101 counter) := ⟨counter, [], rfl⟩
  obtain ⟨ks, -, hsim, hseen, hothers⟩ := exists_shared_run G hreach halong
  have hlinearizable : Linearizable MatchingEngine.machine outcome (.new 101 counter) _ _ _ :=
    ⟨_, Shared.linearization_run MatchingEngine.machine outcome (.new 101 counter) ks⟩
  obtain ⟨r, hr, hlevels⟩ := hlinearizable.simulate (fun _ _ c h => isLevels_step c h)
    (show IsLevels _ (.new counter) from ⟨wellFormed_new counter, levels_new 101 counter⟩)
  obtain ⟨-, rfl⟩ := hr
  rw [hsim.object] at hlevels
  rw [← hseen, ← hothers]
  exact hlevels

/-- Two sessions, the second with a wrong price, while a third connection carries no request. -/
theorem linearizable_levelBook_example :
    let events : List Event := [.write 2 (bytes "hello"), .call 0 (.placeOrder ⟨.bid, 5, bytes "TSLA", 0, ⟨1000⟩⟩),
      .call 1 (.placeOrder ⟨.ask, 5, bytes "TSLA", 0, ⟨9⟩⟩), .serverRead 1 1024, .serverRead 2 5,
      .serverRead 0 1024, .matchOrders, .clientRead 0 1024, .clientRead 1 1024]
    Linearizable LevelBook.machine answerOutcome (.new 0)
        (machine.run (start (.new 101 0)) events).engine.levels
        (machine.collect (others (· < 2)) (start (.new 101 0)) events)
        ((machine.outputs (start (.new 101 0)) events).flatMap (seen (· < 2))) ∧
      ((machine.run (start (.new 101 0)) events).peer 1).last = some (.placed (.error
        (.runtimeError "Order rejected: Order rejected: Invalid price to bid/ask"))) := by
  intro events
  refine ⟨linearizable_levelBook (· < 2) 0 ?_, ?_⟩
  · decide +kernel
  · decide +kernel

end System

end TradingSystem
