import TradingSystem.Model.Network
import TradingSystem.Network.RoundTrip

/-!
# The market-data feed

A datagram of the feed carries a snapshot or a trade. A trade begins with a word and a snapshot with a
digit, so the receiver skips the one and decodes the other, and what it decodes is what was encoded: after
any list of datagrams the client holds the last snapshot in it.
-/

namespace TradingSystem

open Lib Lib.Effects Stream

namespace MarketDataSnapshot

theorem serialise_eq (s : MarketDataSnapshot) : s.serialise = stdToString s.bestBid ++ comma ::
    (stdToString s.bestAsk ++ comma :: (stdToString s.bidVolume ++ comma :: stdToString s.askVolume)) := by
  simp only [serialise, List.append_assoc]
  rfl

theorem length_serialise_le (s : MarketDataSnapshot) : s.serialise.length ≤ bufferSize := by
  have hbid := length_stdToString_le s.bestBid
  have hask := length_stdToString_le s.bestAsk
  have hbidVolume := length_stdToString_le s.bidVolume
  have haskVolume := length_stdToString_le s.askVolume
  simp only [serialise_eq, List.length_append, List.length_cons, bufferSize]
  omega

theorem not_trade (s : MarketDataSnapshot) : ¬ bytes "TRADE:" <+: s.serialise := by
  obtain ⟨c, cs, hcs⟩ := List.exists_cons_of_ne_nil (stdToString_ne_nil s.bestBid)
  have hdigit : Decimal.isDigit c = true := Decimal.isDigit_of_mem_print (hcs ▸ List.mem_cons_self)
  rintro ⟨rest, hrest⟩
  rw [serialise_eq, hcs] at hrest
  have hc : (84 : UInt8) = c := (List.cons.inj hrest).1
  rw [← hc] at hdigit
  exact absurd hdigit (by decide)

/-- The four fields overwrite the whole snapshot. -/
theorem deserialise_serialise (s current : MarketDataSnapshot) :
    MarketData.deserialise s.serialise current = .ok () s := by
  rw [MarketData.deserialise, serialise_eq]
  simp only [getline_delim (comma_not_mem_stdToString _),
    getline_last (comma_not_mem_stdToString _) (stdToString_ne_nil _), stoull_stdToString]
  rfl

end MarketDataSnapshot

/-! ### Datagrams -/

/-- What a datagram of the feed carries. -/
inductive Message where
  | snapshot (s : MarketDataSnapshot)
  | trade (t : Trade)

namespace Message

/-- What `UDPServer::run` and `UDPServer::sendTrade` send. -/
def datagram : Message → Bytes
  | .snapshot s => s.serialise
  | .trade t => bytes "TRADE:" ++ t.serialise

def snapshot? : Message → Option MarketDataSnapshot
  | .snapshot s => some s
  | .trade _ => none

theorem length_datagram_le (m : Message) : m.datagram.length ≤ bufferSize := by
  cases m with
  | snapshot s => exact s.length_serialise_le
  | trade t =>
    have hprice := length_stdToString_le t.mTradePrice
    have hvolume := length_stdToString_le t.mTradeVolume
    have hword : (bytes "TRADE:").length = 6 := rfl
    have hcolon : (bytes ":").length = 1 := rfl
    simp only [datagram, Trade.serialise, List.length_append, bufferSize, hword, hcolon]
    omega

/-- **One datagram**: a snapshot replaces the stored one, a trade changes nothing. -/
theorem receive_datagram (m : Message) (current : MarketDataSnapshot) :
    UDPMarketDataReceiver.receive m.datagram current = .ok () (m.snapshot?.getD current) := by
  rw [UDPMarketDataReceiver.receive, List.take_of_length_le m.length_datagram_le]
  cases m with
  | snapshot s =>
    rw [datagram, if_neg s.not_trade]
    exact s.deserialise_serialise current
  | trade t =>
    have hprefix : bytes "TRADE:" <+: (Message.trade t).datagram := List.prefix_append _ _
    rw [if_pos hprefix]
    rfl

end Message

/-- The last snapshot among messages, or `current`. -/
def lastSnapshot (current : MarketDataSnapshot) (ms : List Message) : MarketDataSnapshot :=
  (ms.filterMap Message.snapshot?).getLast?.getD current

theorem lastSnapshot_cons (current : MarketDataSnapshot) (m : Message) (ms : List Message) :
    lastSnapshot current (m :: ms) = lastSnapshot (m.snapshot?.getD current) ms := by
  cases m with
  | snapshot s =>
    have hcons : (Message.snapshot s :: ms).filterMap Message.snapshot? =
        s :: ms.filterMap Message.snapshot? := rfl
    rw [lastSnapshot, hcons, List.getLast?_cons]
    rfl
  | trade t => rfl

/-- What a receiver does with the datagrams of these messages: no round throws, and the client then holds the
last snapshot. -/
structure FollowsFeed (ms : List Message) : Prop where
  neverThrows : UDPMarketDataReceiver.machine.outputs .zero (ms.map Message.datagram) =
    ms.map fun _ => .ok ()
  holdsLast : UDPMarketDataReceiver.machine.run .zero (ms.map Message.datagram) = lastSnapshot .zero ms

/-- **The client's market data follows the feed**, whatever datagrams arrive in whatever order. -/
theorem followsFeed (ms : List Message) : FollowsFeed ms := by
  have hrun : ∀ current, UDPMarketDataReceiver.machine.outputs current (ms.map Message.datagram) =
        ms.map (fun _ => .ok ()) ∧
      UDPMarketDataReceiver.machine.run current (ms.map Message.datagram) = lastSnapshot current ms := by
    induction ms with
    | nil => exact fun current => ⟨rfl, rfl⟩
    | cons m ms ih =>
      intro current
      have hstep : UDPMarketDataReceiver.machine.step current m.datagram =
          (.ok (), m.snapshot?.getD current) := by
        simp only [UDPMarketDataReceiver.machine, m.receive_datagram]
      obtain ⟨houtputs, hstate⟩ := ih (m.snapshot?.getD current)
      simp only [List.map_cons, Machine.outputs, Machine.run, Machine.next, hstep, houtputs, hstate,
        lastSnapshot_cons, and_self]
  exact ⟨(hrun .zero).1, (hrun .zero).2⟩

end TradingSystem
