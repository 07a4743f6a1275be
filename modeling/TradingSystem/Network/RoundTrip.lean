import TradingSystem.Model.Wire

/-!
# Encoding and decoding orders and requests

An encoded order is four fields, each followed by a comma, and its price; a request has two more fields in
front. A ticker without a comma keeps the number of pieces, so the decoder finds the fields again; one with
a comma adds a piece, and the decoder throws.
-/

namespace TradingSystem

open Lib Stream

/-! ### Fields -/

theorem comma_not_mem_stdToString (x : UInt64) : comma ∉ stdToString x := fun h =>
  absurd (Decimal.isDigit_of_mem_print h) (by decide)

theorem stdToString_ne_nil (x : UInt64) : stdToString x ≠ [] := Decimal.print_ne_nil _

theorem length_stdToString_le (x : UInt64) : (stdToString x).length ≤ 20 :=
  Decimal.length_print_le x.toNat_lt

theorem stoull_eq_ok {s : Bytes} {v : UInt64} : stoull s = .ok v ↔ Decimal.read s = .ok v := by
  rw [stoull]
  cases Decimal.read s with
  | ok v => simp
  | error e => cases e <;> simp

theorem stoull_stdToString (x : UInt64) : stoull (stdToString x) = .ok x :=
  stoull_eq_ok.mpr (Decimal.read_print x)

@[simp] theorem Price.ofUInt64_eq (x : UInt64) : Price.ofUInt64 x = ⟨x⟩ := by
  rw [ofUInt64, ofInt, widen, BitVec.ofInt_toInt]

namespace Order

def sideWord (o : Order) : Bytes := if o.bidOrAsk = .bid then bytes "BUY" else bytes "SELL"

/-- The fields before the price. -/
def header (o : Order) : List Bytes := [o.sideWord, stdToString o.mVolume, o.mName, stdToString o.mOrderID]

theorem serialize_eq (o : Order) :
    o.serialize = terminated comma o.header ++ stdToString o.mPrice.mPriceValueInCent := by
  simp only [serialize, header, sideWord, terminated_cons, terminated_nil, List.append_assoc, List.cons_append]
  rfl

theorem comma_not_mem_sideWord (o : Order) : comma ∉ o.sideWord := by
  unfold sideWord
  split_ifs <;> decide

theorem comma_not_mem_header {o : Order} (hname : comma ∉ o.mName) : ∀ f ∈ o.header, comma ∉ f := by
  simp only [header, List.forall_mem_cons]
  exact ⟨o.comma_not_mem_sideWord, comma_not_mem_stdToString _, hname, comma_not_mem_stdToString _, by simp⟩

/-- The side read from its word. -/
theorem side_of_sideWord (o : Order) : (if o.sideWord = bytes "BUY" then Side.bid else .ask) = o.bidOrAsk := by
  unfold sideWord
  cases o.bidOrAsk <;> decide

theorem getlines_serialize {o : Order} (hname : comma ∉ o.mName) :
    getlines comma o.serialize = o.header ++ [stdToString o.mPrice.mPriceValueInCent] := by
  rw [serialize_eq, getlines_terminated_append (comma_not_mem_header hname),
    getlines_last (comma_not_mem_stdToString _) (stdToString_ne_nil _)]

theorem deserialize_serialize {o : Order} (hname : comma ∉ o.mName) : deserialize o.serialize = .ok o := by
  rw [deserialize, getlines_serialize hname]
  simp only [header, List.cons_append, List.nil_append, stoull_stdToString, side_of_sideWord,
    Price.ofUInt64_eq]
  rfl

theorem deserialize_of_length {data : Bytes} (h : (getlines comma data).length ≠ 5) :
    deserialize data = .error (.runtimeError "Invalid order data") := by
  unfold deserialize
  split
  · next hparts => exact absurd (by rw [hparts]; rfl) h
  · rfl

/-- The commas of an encoded order are those of its ticker and four more. -/
theorem length_getlines_serialize (o : Order) (front : Bytes) :
    (getlines comma (front ++ o.serialize)).length = front.count comma + o.mName.count comma + 5 := by
  rw [serialize_eq, ← List.append_assoc,
    length_getlines_append (comma_not_mem_stdToString _) (stdToString_ne_nil _)]
  simp only [header, terminated_cons, terminated_nil, List.count_append, List.count_cons_self,
    List.count_eq_zero_of_not_mem o.comma_not_mem_sideWord,
    List.count_eq_zero_of_not_mem (comma_not_mem_stdToString _), List.count_nil]
  omega

end Order

namespace OrderRequest

def typeWord (r : OrderRequest) : Bytes := if r.type = .new then bytes "NEW" else bytes "CANCEL"

/-- The fields before the price. -/
def header (r : OrderRequest) : List Bytes := [stdToString r.clientId, r.typeWord] ++ r.requestOrder.header

theorem serialize_eq_append (r : OrderRequest) : r.serialize =
    terminated comma [stdToString r.clientId, r.typeWord] ++ r.requestOrder.serialize := by
  simp only [serialize, typeWord, terminated_cons, terminated_nil, List.append_assoc, List.cons_append]
  rfl

theorem serialize_eq (r : OrderRequest) :
    r.serialize = terminated comma r.header ++ stdToString r.requestOrder.mPrice.mPriceValueInCent := by
  rw [serialize_eq_append, Order.serialize_eq, header]
  simp [terminated]

theorem comma_not_mem_typeWord (r : OrderRequest) : comma ∉ r.typeWord := by
  unfold typeWord
  split_ifs <;> decide

theorem comma_not_mem_header {r : OrderRequest} (hname : comma ∉ r.requestOrder.mName) :
    ∀ f ∈ r.header, comma ∉ f := by
  intro f hf
  rcases List.mem_append.mp hf with hf | hf
  · rcases List.mem_pair.mp hf with rfl | rfl
    · exact comma_not_mem_stdToString _
    · exact r.comma_not_mem_typeWord
  · exact Order.comma_not_mem_header hname f hf

theorem type_of_typeWord (r : OrderRequest) :
    (if r.typeWord = bytes "NEW" then RequestType.new else .cancel) = r.type := by
  unfold typeWord
  cases r.type <;> decide

/-- The five parts of the order, joined again, are split into the same parts, unless the last is empty. -/
theorem getlines_rejoined {part2 part3 part4 part5 part6 : Bytes}
    (h : ∀ p ∈ [part2, part3, part4, part5, part6], comma ∉ p) :
    getlines comma (part2 ++ bytes "," ++ part3 ++ bytes "," ++ part4 ++ bytes "," ++ part5 ++ bytes "," ++
      part6) = [part2, part3, part4, part5] ++ getlines comma part6 := by
  have hjoin : part2 ++ bytes "," ++ part3 ++ bytes "," ++ part4 ++ bytes "," ++ part5 ++ bytes "," ++ part6 =
      terminated comma [part2, part3, part4, part5] ++ part6 := by
    simp only [terminated_cons, terminated_nil, List.append_assoc, List.cons_append]
    rfl
  rw [hjoin, getlines_terminated_append fun p hp => h p (List.mem_append_left [part6] hp)]

/-- A text of seven pieces, the last of which is not empty, is decoded number by number. -/
theorem deserialize_of_parts {data part0 part1 part2 part3 part4 part5 part6 : Bytes}
    (h : getlines comma data = [part0, part1, part2, part3, part4, part5, part6]) (hne : part6 ≠ []) :
    deserialize data = (do
      let clientId ← stoull part0
      let volume ← stoull part3
      let orderId ← stoull part5
      let priceVal ← stoull part6
      return ⟨⟨if part2 = bytes "BUY" then .bid else .ask, volume, part4, orderId, ⟨priceVal⟩⟩, clientId,
        if part1 = bytes "NEW" then .new else .cancel⟩) := by
  have hfree : ∀ p ∈ [part0, part1, part2, part3, part4, part5, part6], comma ∉ p := h ▸ not_mem_of_mem_getlines
  have horder := getlines_rejoined fun p (hp : p ∈ [part2, part3, part4, part5, part6]) =>
    hfree p (List.mem_cons_of_mem _ (List.mem_cons_of_mem _ hp))
  rw [getlines_last (hfree part6 (by simp)) hne] at horder
  rw [deserialize, h]
  simp only [Order.deserialize, horder, List.cons_append, List.nil_append, Price.ofUInt64_eq, bind_assoc,
    pure_bind]

theorem getlines_serialize {r : OrderRequest} (hname : comma ∉ r.requestOrder.mName) :
    getlines comma r.serialize = r.header ++ [stdToString r.requestOrder.mPrice.mPriceValueInCent] := by
  rw [serialize_eq, getlines_terminated_append (comma_not_mem_header hname),
    getlines_last (comma_not_mem_stdToString _) (stdToString_ne_nil _)]

theorem deserialize_serialize {r : OrderRequest} (hname : comma ∉ r.requestOrder.mName) :
    deserialize r.serialize = .ok r := by
  rw [deserialize_of_parts (getlines_serialize hname) (stdToString_ne_nil _)]
  simp only [stoull_stdToString, Order.side_of_sideWord, type_of_typeWord]
  rfl

theorem deserialize_of_length {data : Bytes} (h : (getlines comma data).length ≠ 7) :
    deserialize data = .error (.runtimeError "Invalid order request data") := by
  unfold deserialize
  split
  · next hparts => exact absurd (by rw [hparts]; rfl) h
  · rfl

theorem length_getlines_serialize (r : OrderRequest) :
    (getlines comma r.serialize).length = r.requestOrder.mName.count comma + 7 := by
  rw [serialize_eq_append, Order.length_getlines_serialize]
  simp only [terminated_cons, terminated_nil, List.count_append, List.count_cons_self,
    List.count_eq_zero_of_not_mem r.comma_not_mem_typeWord,
    List.count_eq_zero_of_not_mem (comma_not_mem_stdToString _), List.count_nil]
  omega

end OrderRequest

/-! ### The round trip -/

/-- What comes back when an order and the requests around it are encoded and decoded. -/
structure RoundTrips (o : Order) : Prop where
  order : comma ∉ o.mName → Order.deserialize o.serialize = .ok o
  request : comma ∉ o.mName → ∀ clientId type,
    OrderRequest.deserialize (OrderRequest.mk o clientId type).serialize = .ok ⟨o, clientId, type⟩
  orderThrows : comma ∈ o.mName → Order.deserialize o.serialize = .error (.runtimeError "Invalid order data")
  requestThrows : comma ∈ o.mName → ∀ clientId type,
    OrderRequest.deserialize (OrderRequest.mk o clientId type).serialize =
      .error (.runtimeError "Invalid order request data")
  notAnother : ∀ clientId type r, OrderRequest.deserialize (OrderRequest.mk o clientId type).serialize = .ok r →
    r = ⟨o, clientId, type⟩

/-- **Wire round trip**, for every order. -/
theorem roundTrips (o : Order) : RoundTrips o := by
  have hcount : comma ∈ o.mName → o.mName.count comma ≠ 0 := fun h => (List.count_pos_iff.mpr h).ne'
  have hthrows : comma ∈ o.mName → ∀ clientId type,
      OrderRequest.deserialize (OrderRequest.mk o clientId type).serialize =
        .error (.runtimeError "Invalid order request data") := by
    intro h clientId type
    apply OrderRequest.deserialize_of_length
    rw [OrderRequest.length_getlines_serialize]
    have := hcount h
    dsimp only
    omega
  constructor
  · exact Order.deserialize_serialize
  · exact fun h clientId type => OrderRequest.deserialize_serialize (r := ⟨o, clientId, type⟩) h
  · intro h
    apply Order.deserialize_of_length
    have hlen := o.length_getlines_serialize []
    have := hcount h
    rw [List.nil_append, List.count_nil] at hlen
    omega
  · exact hthrows
  · intro clientId type r hr
    by_cases h : comma ∈ o.mName
    · rw [hthrows h] at hr
      cases hr
    · rw [OrderRequest.deserialize_serialize (r := ⟨o, clientId, type⟩) h] at hr
      cases hr
      rfl

end TradingSystem
