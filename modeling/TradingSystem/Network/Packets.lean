import TradingSystem.Network.Format

/-!
# Malformed market data

The decoder of market data reads four tokens through one variable and stores each number before it reads the
next. A text that ends early gives its last piece again, so a single number is accepted as four; and when a
token is no number, what was stored before it stays. The snapshot is left alone exactly when the tokens before
the first unreadable one are the values that it already holds.
-/

namespace TradingSystem

open Lib Lib.Effects Stream

/-- The fields in the order of the text. -/
def MarketDataSnapshot.fields (s : MarketDataSnapshot) : List UInt64 :=
  [s.bestBid, s.bestAsk, s.bidVolume, s.askVolume]

namespace MarketData

open OrderRequest (Joined stoull_ok_iff getlines_of_joined)

/-- Four numbers below `2 ^ 64`, joined by commas. -/
def Formatted (d : Bytes) : Prop :=
  ∃ bestBid bestAsk bidVolume askVolume, Joined d [bestBid, bestAsk, bidVolume, askVolume] ∧
    Decimal.Plain bestBid ∧ Decimal.Plain bestAsk ∧ Decimal.Plain bidVolume ∧ Decimal.Plain askVolume

/-- The four tokens. Where the pieces run out, what follows the last comma takes their place. -/
def tokens (d : Bytes) : List Bytes := (getlines comma d ++ List.replicate 4 (lastPiece comma d)).take 4

/-- Some token is not read, and those before it are read as the stored values. -/
def StopsUnchanged : (tokens : List Bytes) → (stored : List UInt64) → Prop
  | token :: tokens, value :: stored =>
    ¬ Decimal.Readable token ∨ (Decimal.read token = .ok value ∧ StopsUnchanged tokens stored)
  | _, _ => False

/-- Malformed data throws and leaves the snapshot as it was. -/
def Intact (snapshot : MarketDataSnapshot) (d : Bytes) : Prop :=
  ¬ Formatted d → ∃ err, err ≠ .undefined ∧ deserialise d snapshot = .error err snapshot

/-! ### The stores one by one -/

/-- The computation throws in state `s` and leaves state `s'`. -/
def Throws (x : EStateM Exn MarketDataSnapshot Unit) (s s' : MarketDataSnapshot) : Prop :=
  ∃ err, err ≠ .undefined ∧ x s = .error err s'

theorem tokens_eq (d : Bytes) : tokens d = reads comma 4 [] (ofList d) := (reads_ofList 4 [] d).symm

theorem deserialise_of_tokens {d t0 t1 t2 t3 : Bytes} (h : tokens d = [t0, t1, t2, t3]) :
    deserialise d = (do
      let bestBid ← ofExcept (stoull t0)
      modify fun s => { s with bestBid := bestBid }
      let bestAsk ← ofExcept (stoull t1)
      modify fun s => { s with bestAsk := bestAsk }
      let bidVolume ← ofExcept (stoull t2)
      modify fun s => { s with bidVolume := bidVolume }
      let askVolume ← ofExcept (stoull t3)
      modify fun s => { s with askVolume := askVolume }
      pure ()) := by
  rw [tokens_eq] at h
  simp only [reads, List.cons.injEq, and_true] at h
  obtain ⟨rfl, rfl, rfl, rfl⟩ := h
  rfl

theorem stoull_cases (token : Bytes) :
    (∃ v, Decimal.Readable token ∧ Decimal.read token = .ok v ∧ stoull token = .ok v) ∨
      ∃ err, err ≠ .undefined ∧ ¬ Decimal.Readable token ∧ stoull token = .error err := by
  rw [← stoull_ok_iff]
  cases h : stoull token with
  | ok v => exact Or.inl ⟨v, ⟨v, rfl⟩, stoull_eq_ok.mp h, rfl⟩
  | error err =>
    refine Or.inr ⟨err, ?_, fun ⟨v, hv⟩ => (by cases hv), rfl⟩
    rintro rfl
    exact OrderRequest.defined_stoull token h

/-- A store throws before it writes, or it writes and goes on. -/
theorem throws_store {token : Bytes} {write : UInt64 → MarketDataSnapshot → MarketDataSnapshot}
    {x : EStateM Exn MarketDataSnapshot Unit} {s s' : MarketDataSnapshot} :
    Throws (do
      let v ← ofExcept (stoull token)
      modify (write v)
      x) s s' ↔
      (¬ Decimal.Readable token ∧ s = s') ∨ ∃ v, Decimal.read token = .ok v ∧ Throws x (write v s) s' := by
  rcases stoull_cases token with ⟨v, hread, hv, hstoull⟩ | ⟨err, herr, hread, hstoull⟩
  · simp only [Throws, hstoull, hv, hread]
    simp [bind_run]
  · have hno : ∀ v, Decimal.read token ≠ .ok v := fun v hv => hread ((Decimal.read_ok_iff token).mp ⟨v, hv⟩)
    simp only [Throws, hstoull, hread]
    simp [bind_run, hno, herr]

theorem not_throws_pure (s s' : MarketDataSnapshot) : ¬ Throws (pure ()) s s' := by
  rintro ⟨err, -, h⟩
  cases h

/-- Storing changes nothing before the throw exactly when what it stored was there. -/
theorem throws_deserialise_iff (snapshot : MarketDataSnapshot) (d : Bytes) :
    Throws (deserialise d) snapshot snapshot ↔ StopsUnchanged (tokens d) snapshot.fields := by
  obtain ⟨t0, t1, t2, t3, h⟩ : ∃ t0 t1 t2 t3, tokens d = [t0, t1, t2, t3] := ⟨_, _, _, _, tokens_eq d⟩
  obtain ⟨bestBid, bestAsk, bidVolume, askVolume⟩ := snapshot
  rw [deserialise_of_tokens h, h]
  simp only [throws_store, not_throws_pure, StopsUnchanged, MarketDataSnapshot.fields,
    MarketDataSnapshot.mk.injEq, and_true, and_false, exists_false, or_false]
  constructor
  · rintro (h0 | ⟨v0, h0, ⟨h1, rfl⟩ | ⟨v1, h1, ⟨h2, rfl, rfl⟩ | ⟨v2, h2, h3, rfl, rfl, rfl⟩⟩⟩)
    · exact Or.inl h0
    · exact Or.inr ⟨h0, Or.inl h1⟩
    · exact Or.inr ⟨h0, Or.inr ⟨h1, Or.inl h2⟩⟩
    · exact Or.inr ⟨h0, Or.inr ⟨h1, Or.inr ⟨h2, h3⟩⟩⟩
  · rintro (h0 | ⟨h0, h1 | ⟨h1, h2 | ⟨h2, h3⟩⟩⟩)
    · exact Or.inl h0
    · exact Or.inr ⟨bestBid, h0, Or.inl ⟨h1, rfl⟩⟩
    · exact Or.inr ⟨bestBid, h0, Or.inr ⟨bestAsk, h1, Or.inl ⟨h2, rfl, rfl⟩⟩⟩
    · exact Or.inr ⟨bestBid, h0, Or.inr ⟨bestAsk, h1, Or.inr ⟨bidVolume, h2, h3, rfl, rfl, rfl⟩⟩⟩

/-- **Malformed data leaves the snapshot alone** exactly when the first unreadable token comes after nothing but
the stored values. -/
theorem intact_iff (snapshot : MarketDataSnapshot) (d : Bytes) :
    Intact snapshot d ↔ Formatted d ∨ StopsUnchanged (tokens d) snapshot.fields := by
  rw [← throws_deserialise_iff]
  constructor
  · intro h
    by_cases hformat : Formatted d
    · exact Or.inl hformat
    · exact Or.inr (h hformat)
  · rintro (hformat | hthrows) hno
    · exact absurd hformat hno
    · exact hthrows

theorem length_getlines_of_formatted {d : Bytes} (h : Formatted d) : (getlines comma d).length = 4 := by
  obtain ⟨bestBid, bestAsk, bidVolume, askVolume, hjoined, -, -, -, hplain⟩ := h
  rw [(getlines_of_joined [bestBid, bestAsk, bidVolume] hjoined hplain.ne_nil).1]
  rfl

/-- One number is accepted as all four, and a third piece that is no number leaves two new fields beside two
old ones. -/
theorem short_packets_stored :
    (deserialise (bytes "5") .zero = .ok () ⟨5, 5, 5, 5⟩ ∧ ¬ Intact .zero (bytes "5")) ∧
    (deserialise (bytes "1,2,x") ⟨6, 7, 8, 9⟩ = .error (.invalidArgument "stoull") ⟨1, 2, 8, 9⟩ ∧
      ¬ Intact ⟨6, 7, 8, 9⟩ (bytes "1,2,x")) := by
  have hshort : deserialise (bytes "5") .zero = .ok () ⟨5, 5, 5, 5⟩ := rfl
  have hmixed : deserialise (bytes "1,2,x") ⟨6, 7, 8, 9⟩ = .error (.invalidArgument "stoull") ⟨1, 2, 8, 9⟩ := rfl
  have hno : ∀ d, (getlines comma d).length ≠ 4 → ¬ Formatted d := fun d hd h =>
    hd (length_getlines_of_formatted h)
  refine ⟨⟨hshort, fun h => ?_⟩, ⟨hmixed, fun h => ?_⟩⟩
  · obtain ⟨err, -, herr⟩ := h (hno _ (by decide +kernel))
    rw [hshort] at herr
    cases herr
  · obtain ⟨err, -, herr⟩ := h (hno _ (by decide +kernel))
    rw [hmixed] at herr
    cases herr

end MarketData

end TradingSystem
