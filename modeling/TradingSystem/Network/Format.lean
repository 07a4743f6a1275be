import TradingSystem.Model.Network
import TradingSystem.Network.RoundTrip

/-!
# Which texts are accepted as requests

The decoder wants seven pieces and four numbers that `std::stoull` reads: `Tolerated`. The format is
narrower: a word that is not `NEW` counts as `CANCEL`, one that is not `BUY` as `SELL`, a number may have
blanks and a sign in front and anything behind it, and one comma may follow the last piece.
-/

namespace TradingSystem

open Lib Lib.Effects Stream

namespace OrderRequest

/-- `s` is these fields, joined by commas. -/
def Joined (s : Bytes) (fields : List Bytes) : Prop :=
  (∀ f ∈ fields, comma ∉ f) ∧ s = [comma].intercalate fields

/-- The format of a request. -/
def Formatted (s : Bytes) : Prop :=
  ∃ clientId type side volume ticker id price, Joined s [clientId, type, side, volume, ticker, id, price] ∧
    (type = bytes "NEW" ∨ type = bytes "CANCEL") ∧ (side = bytes "BUY" ∨ side = bytes "SELL") ∧
    Decimal.Plain clientId ∧ Decimal.Plain volume ∧ Decimal.Plain id ∧ Decimal.Plain price

/-- Seven fields, with a comma behind them or not, of which the first, the fourth and the last two begin like
numbers. -/
def Tolerated (s : Bytes) : Prop :=
  ∃ clientId type side volume ticker id price,
    (Joined s [clientId, type, side, volume, ticker, id, price] ∨
      ∃ s', s = s' ++ [comma] ∧ Joined s' [clientId, type, side, volume, ticker, id, price]) ∧
    Decimal.Readable clientId ∧ Decimal.Readable volume ∧ Decimal.Readable id ∧ Decimal.Readable price

/-- The decoder does not throw. -/
def Accepted (s : Bytes) : Prop := ∃ r, deserialize s = .ok r

/-! ### The decoder accepts what is tolerated -/

theorem stoull_ok_iff (s : Bytes) : (∃ v, stoull s = .ok v) ↔ Decimal.Readable s := by
  rw [← Decimal.read_ok_iff]
  exact exists_congr fun v => stoull_eq_ok

theorem ne_nil_of_readable {s : Bytes} (h : Decimal.Readable s) : s ≠ [] := by
  obtain ⟨blanks, sign, digits, rest, h, -⟩ := h
  rintro rfl
  have hdigits := h.eq
  simp [h.ne_nil] at hdigits

theorem bind_ok_iff {α β : Type} {x : Except Exn α} {f : α → Except Exn β} :
    (∃ b, x >>= f = .ok b) ↔ ∃ a, x = .ok a ∧ ∃ b, f a = .ok b := by
  cases x with
  | ok a => simp [bind, Except.bind]
  | error e => simp [bind, Except.bind]

/-- With seven pieces, the four numbers decide. -/
theorem accepted_of_parts {s part0 part1 part2 part3 part4 part5 part6 : Bytes}
    (h : getlines comma s = [part0, part1, part2, part3, part4, part5, part6]) :
    Accepted s ↔ Decimal.Readable part0 ∧ Decimal.Readable part3 ∧ Decimal.Readable part5 ∧
      Decimal.Readable part6 := by
  by_cases hne : part6 = []
  · -- the joined order ends in a comma, so it has four pieces
    have hfree : ∀ p ∈ [part0, part1, part2, part3, part4, part5, part6], comma ∉ p :=
      h ▸ not_mem_of_mem_getlines
    have horder := getlines_rejoined fun p (hp : p ∈ [part2, part3, part4, part5, part6]) =>
      hfree p (List.mem_cons_of_mem _ (List.mem_cons_of_mem _ hp))
    rw [hne, getlines_nil] at horder
    have hlength : ([part2, part3, part4, part5] ++ [] : List Bytes).length ≠ 5 := Nat.ne_of_beq_eq_false rfl
    have hthrow := Order.deserialize_of_length (horder.symm ▸ hlength)
    refine iff_of_false ?_ fun hread => ne_nil_of_readable hread.2.2.2 hne
    rw [Accepted, deserialize, h]
    simp only [bind_ok_iff, hne, hthrow]
    rintro ⟨a, -, b, hb, -⟩
    cases hb
  · rw [Accepted, deserialize_of_parts h hne]
    simp only [bind_ok_iff, ← stoull_ok_iff]
    constructor
    · rintro ⟨v0, h0, v3, h3, v5, h5, v6, h6, -⟩
      exact ⟨⟨v0, h0⟩, ⟨v3, h3⟩, ⟨v5, h5⟩, ⟨v6, h6⟩⟩
    · rintro ⟨⟨v0, h0⟩, ⟨v3, h3⟩, ⟨v5, h5⟩, ⟨v6, h6⟩⟩
      exact ⟨v0, h0, v3, h3, v5, h5, v6, h6, _, rfl⟩

theorem joined_append_iff {s : Bytes} {fields : List Bytes} {p : Bytes} :
    Joined s (fields ++ [p]) ↔ (∀ f ∈ fields ++ [p], comma ∉ f) ∧ s = terminated comma fields ++ p := by
  rw [Joined, intercalate_append_singleton]

/-- The pieces of joined fields are the fields, also with a comma behind them, unless the last is empty. -/
theorem getlines_of_joined {s : Bytes} (fields : List Bytes) {p : Bytes} (h : Joined s (fields ++ [p]))
    (hne : p ≠ []) : getlines comma s = fields ++ [p] ∧ getlines comma (s ++ [comma]) = fields ++ [p] := by
  obtain ⟨hfree, hs⟩ := joined_append_iff.mp h
  have hp : comma ∉ p := hfree p (by simp)
  have hfields : ∀ f ∈ fields, comma ∉ f := fun f hf => hfree f (List.mem_append_left _ hf)
  rw [hs, List.append_assoc, getlines_terminated_append hfields, getlines_terminated_append hfields,
    getlines_last hp hne, getlines_delim hp, getlines_nil]
  exact ⟨rfl, rfl⟩

theorem pieces_of_joined {s : Bytes} (fields : List Bytes) {p : Bytes}
    (h : Joined s (fields ++ [p]) ∨ ∃ s', s = s' ++ [comma] ∧ Joined s' (fields ++ [p])) (hne : p ≠ []) :
    getlines comma s = fields ++ [p] := by
  rcases h with hs | ⟨s', rfl, hs'⟩
  · exact (getlines_of_joined fields hs hne).1
  · exact (getlines_of_joined fields hs' hne).2

/-- A text is its pieces joined, with a comma behind them or not. -/
theorem joined_of_getlines {s : Bytes} (fields : List Bytes) {p : Bytes} (h : getlines comma s = fields ++ [p]) :
    Joined s (fields ++ [p]) ∨ ∃ s', s = s' ++ [comma] ∧ Joined s' (fields ++ [p]) := by
  have hfree : ∀ f ∈ fields ++ [p], comma ∉ f := h ▸ not_mem_of_mem_getlines
  rcases eq_terminated_getlines (d := comma) s with hs | ⟨fields', p', -, hlines, hs⟩
  · refine Or.inr ⟨terminated comma fields ++ p, ?_, joined_append_iff.mpr ⟨hfree, rfl⟩⟩
    rw [hs, h]
    simp [terminated]
  · rw [h] at hlines
    obtain ⟨rfl, hp⟩ := List.append_inj' hlines rfl
    cases hp
    exact Or.inl (joined_append_iff.mpr ⟨hfree, hs⟩)

/-- **What the decoder accepts.** -/
theorem accepted_iff_tolerated (s : Bytes) : Accepted s ↔ Tolerated s := by
  constructor
  · intro h
    have hlength : (getlines comma s).length = 7 := by
      by_contra hne
      obtain ⟨r, hr⟩ := h
      rw [deserialize_of_length hne] at hr
      cases hr
    obtain ⟨p0, p1, p2, p3, p4, p5, p6, hparts⟩ : ∃ p0 p1 p2 p3 p4 p5 p6,
        getlines comma s = [p0, p1, p2, p3, p4, p5, p6] := by
      match getlines comma s, hlength with
      | [p0, p1, p2, p3, p4, p5, p6], _ => exact ⟨p0, p1, p2, p3, p4, p5, p6, rfl⟩
    have hread := (accepted_of_parts hparts).mp h
    exact ⟨p0, p1, p2, p3, p4, p5, p6, joined_of_getlines [p0, p1, p2, p3, p4, p5] hparts, hread⟩
  · rintro ⟨p0, p1, p2, p3, p4, p5, p6, hjoined, hread⟩
    have hparts := pieces_of_joined [p0, p1, p2, p3, p4, p5] hjoined (ne_nil_of_readable hread.2.2.2)
    exact (accepted_of_parts hparts).mpr hread

theorem tolerated_of_formatted {s : Bytes} (h : Formatted s) : Tolerated s := by
  obtain ⟨p0, p1, p2, p3, p4, p5, p6, hjoined, -, -, h0, h3, h5, h6⟩ := h
  exact ⟨p0, p1, p2, p3, p4, p5, p6, Or.inl hjoined, h0.readable, h3.readable, h5.readable, h6.readable⟩

/-! ### The format -/

/-- An exception of the source, or a result. -/
def Defined {α : Type} (x : Except Exn α) : Prop := x ≠ .error .undefined

theorem Defined.bind {α β : Type} {x : Except Exn α} {f : α → Except Exn β} (hx : Defined x)
    (hf : ∀ a, Defined (f a)) : Defined (x >>= f) := by
  cases x with
  | ok a => exact hf a
  | error e => exact fun h => hx (by cases h; rfl)

theorem defined_stoull (s : Bytes) : Defined (stoull s) := by
  intro h
  rw [stoull] at h
  cases hread : Decimal.read s with
  | ok v =>
    rw [hread] at h
    cases h
  | error e =>
    rw [hread] at h
    cases e <;> cases h

theorem defined_order (data : Bytes) : Defined (Order.deserialize data) := by
  unfold Order.deserialize
  split
  · refine (defined_stoull _).bind fun volume => (defined_stoull _).bind fun orderId => ?_
    exact (defined_stoull _).bind fun priceVal => nofun
  · nofun

theorem defined_deserialize (data : Bytes) : Defined (deserialize data) := by
  unfold deserialize
  split
  · exact (defined_stoull _).bind fun clientId => (defined_order _).bind fun order => nofun
  · nofun

/-- The decoder throws on what has not the format, and the server then does nothing to the engine. -/
def OnlyFormat (s : Bytes) : Prop :=
  ¬ Formatted s → ∃ err, err ≠ .undefined ∧ deserialize s = .error err ∧ ∀ e, TCPServer.serve s e = .error err e

theorem serve_of_error {s : Bytes} {err : Exn} (h : deserialize s = .error err) (e : MatchingEngine) :
    TCPServer.serve s e = .error err e := by
  rw [TCPServer.serve, h]
  rfl

/-- **The request parser keeps to its format** on exactly the texts that have it and those it does not
tolerate. -/
theorem onlyFormat_iff (s : Bytes) : OnlyFormat s ↔ Formatted s ∨ ¬ Tolerated s := by
  rw [← accepted_iff_tolerated]
  constructor
  · intro h
    by_contra hno
    obtain ⟨hformat, haccepted⟩ := not_or.mp hno
    obtain ⟨r, hr⟩ := not_not.mp haccepted
    obtain ⟨err, -, herr, -⟩ := h hformat
    rw [hr] at herr
    cases herr
  · rintro (hformat | haccepted) hno
    · exact absurd hformat hno
    · cases hdecode : deserialize s with
      | ok r => exact absurd ⟨r, hdecode⟩ haccepted
      | error err =>
        refine ⟨err, ?_, rfl, serve_of_error hdecode⟩
        rintro rfl
        exact defined_deserialize s hdecode

/-- A text with the format has its type and its side as pieces. -/
theorem pieces_of_formatted {s : Bytes} (h : Formatted s) : ∃ p0 p1 p2 p3 p4 p5 p6,
    getlines comma s = [p0, p1, p2, p3, p4, p5, p6] ∧ (p1 = bytes "NEW" ∨ p1 = bytes "CANCEL") ∧
      (p2 = bytes "BUY" ∨ p2 = bytes "SELL") := by
  obtain ⟨p0, p1, p2, p3, p4, p5, p6, hjoined, htype, hside, -, -, -, h6⟩ := h
  have hpieces := (getlines_of_joined [p0, p1, p2, p3, p4, p5] hjoined h6.ne_nil).1
  exact ⟨p0, p1, p2, p3, p4, p5, p6, hpieces, htype, hside⟩

/-- An unknown type is accepted as a cancel, and an unknown side as a sell order. -/
theorem unknown_words_accepted :
    (¬ OnlyFormat (bytes "1,XYZ,BUY,5,TSLA,7,1000") ∧ ∃ r,
      deserialize (bytes "1,XYZ,BUY,5,TSLA,7,1000") = .ok r ∧ r.type = .cancel) ∧
    (¬ OnlyFormat (bytes "1,NEW,buy,5,TSLA,7,1000") ∧ ∃ r,
      deserialize (bytes "1,NEW,buy,5,TSLA,7,1000") = .ok r ∧ r.type = .new ∧ r.requestOrder.bidOrAsk = .ask) := by
  have hcancel : deserialize (bytes "1,XYZ,BUY,5,TSLA,7,1000") =
      .ok ⟨⟨.bid, 5, bytes "TSLA", 7, ⟨1000⟩⟩, 1, .cancel⟩ := by decide +kernel
  have hsell : deserialize (bytes "1,NEW,buy,5,TSLA,7,1000") =
      .ok ⟨⟨.ask, 5, bytes "TSLA", 7, ⟨1000⟩⟩, 1, .new⟩ := by decide +kernel
  have hnot : ∀ s r, deserialize s = .ok r → ¬ Formatted s → ¬ OnlyFormat s := by
    intro s r hr hno h
    obtain ⟨err, -, herr, -⟩ := h hno
    rw [hr] at herr
    cases herr
  refine ⟨⟨hnot _ _ hcancel fun h => ?_, _, hcancel, rfl⟩, ⟨hnot _ _ hsell fun h => ?_, _, hsell, rfl, rfl⟩⟩
  · have hlines : getlines comma (bytes "1,XYZ,BUY,5,TSLA,7,1000") =
        [bytes "1", bytes "XYZ", bytes "BUY", bytes "5", bytes "TSLA", bytes "7", bytes "1000"] := by
      decide +kernel
    obtain ⟨p0, p1, p2, p3, p4, p5, p6, hpieces, htype, -⟩ := pieces_of_formatted h
    rw [hlines] at hpieces
    cases hpieces
    exact absurd htype (by decide)
  · have hlines : getlines comma (bytes "1,NEW,buy,5,TSLA,7,1000") =
        [bytes "1", bytes "NEW", bytes "buy", bytes "5", bytes "TSLA", bytes "7", bytes "1000"] := by
      decide +kernel
    obtain ⟨p0, p1, p2, p3, p4, p5, p6, hpieces, -, hside⟩ := pieces_of_formatted h
    rw [hlines] at hpieces
    cases hpieces
    exact absurd hside (by decide)

end OrderRequest

end TradingSystem
