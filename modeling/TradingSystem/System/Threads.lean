import TradingSystem.Network.Format
import TradingSystem.System.Quotes

/-!
# What ends a thread

The matching loop handles `std::runtime_error` only, and neither it nor the publisher is safe from an index past the
end of a vector: one such event ends the process. There is none in any interleaving, whatever bytes the clients send.
The thread of a connection ends when a request cannot be decoded or its client is gone, and nothing that happens on
other connections or in other threads ends it.
-/

namespace TradingSystem

open Lib MatchingEngine

namespace System

/-- The thread of connection `i` reads what cannot be decoded, and handles the exception. -/
structure Undecoded (s : System) (i n : Nat) : Prop where
  serving : (s.peer i).serving = true
  read : (s.peer i).toServer.take (min n bufferSize) ≠ []
  thrown : ∃ err, err ≠ .undefined ∧
    OrderRequest.deserialize ((s.peer i).toServer.take (min n bufferSize)) = .error err

/-- In this step the thread of connection `i` leaves its loop: it reads what cannot be decoded, or its client is gone. -/
def Breaks (s : System) (i : Nat) : Event → Prop
  | .serverRead j n => j = i ∧ s.Undecoded i n
  | .disconnected j _ => j = i ∧ (s.peer i).serving = true
  | .call .. | .write .. | .clientRead .. | .matchOrders | .sendTrade | .publish => False

variable {s : System} {i j : Nat} {events : List Event}

theorem Breaks.serving {event : Event} (h : s.Breaks i event) : (s.peer i).serving = true := by
  cases event with
  | serverRead j n => exact h.2.serving
  | disconnected j n => exact h.2
  | call | write | clientRead | matchOrders | sendTrade | publish => exact h.elim

end System

end TradingSystem
