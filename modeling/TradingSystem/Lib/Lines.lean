import Mathlib.Data.List.Basic
import Mathlib.Data.List.TakeWhile

/-!
# Reading a stream up to a delimiter

`getline` is `std::getline` on a string stream, with the end-of-file and fail bits. `getlines` is the loop
`while (std::getline(ss, part, delim)) parts.push_back(part)`: it gives the pieces between delimiters,
the inner empty ones included, but no empty piece after a final delimiter.
-/

namespace Lib

universe u

variable {α : Type u}

/-- `takeWhile` and `dropWhile` cut a list where the predicate first fails. -/
theorem span_append {α : Type*} {p : α → Bool} {xs ys : List α} (hxs : ∀ a ∈ xs, p a = true)
    (hys : ∀ a ∈ ys.head?, p a = false) :
    (xs ++ ys).takeWhile p = xs ∧ (xs ++ ys).dropWhile p = ys := by
  rw [List.takeWhile_append_of_pos hxs, List.dropWhile_append_of_pos hxs]
  cases ys with
  | nil => simp
  | cons y ys =>
    have hy : p y = false := hys y rfl
    simp [hy]

/-- A prefix of a concatenation ends in the first part or reaches into the second. -/
theorem prefix_append_cases {c xs ys : List α} (h : c <+: xs ++ ys) :
    c <+: xs ∨ ∃ x, c = xs ++ x ∧ x <+: ys := by
  rcases List.prefix_or_prefix_of_prefix h (List.prefix_append xs ys) with hc | ⟨x, rfl⟩
  · exact Or.inl hc
  · exact Or.inr ⟨x, rfl, (List.prefix_append_right_inj xs).mp h⟩

/-! ### Fields and delimiters -/

section Fields

variable {d : α}

/-- Each field followed by the delimiter. -/
def terminated (d : α) (fields : List (List α)) : List α := fields.flatMap fun f => f ++ [d]

@[simp] theorem terminated_nil : terminated d [] = [] := rfl

@[simp] theorem terminated_cons (f : List α) (fields : List (List α)) :
    terminated d (f :: fields) = f ++ d :: terminated d fields := by simp [terminated]

/-- Fields joined by the delimiter. -/
theorem intercalate_append_singleton (fields : List (List α)) (p : List α) :
    [d].intercalate (fields ++ [p]) = terminated d fields ++ p := by
  induction fields with
  | nil => simp [List.intercalate]
  | cons f fields ih =>
    cases fields with
    | nil => simp [List.intercalate]
    | cons g fields =>
      have hrest : terminated d (f :: g :: fields) ++ p = f ++ d :: (terminated d (g :: fields) ++ p) := by
        rw [terminated_cons, List.append_assoc]
        rfl
      rw [hrest, ← ih]
      simp [List.intercalate]

end Fields

/-! ### Streams -/

/-- A string stream: the characters left, and the end-of-file and fail bits. -/
structure Stream (α : Type u) where
  rest : List α
  eof : Bool
  fail : Bool

namespace Stream

variable [DecidableEq α]

def ofList (s : List α) : Stream α := ⟨s, false, false⟩

/-- The characters before the next delimiter. On a stream with a bit set only the fail bit changes: `line`
keeps its old value. -/
def getline (delim : α) (line : List α) (ss : Stream α) : List α × Stream α :=
  if ss.eof || ss.fail then (line, { ss with fail := true })
  else match ss.rest.dropWhile fun c => decide (c ≠ delim) with
    | [] => (ss.rest, ⟨[], true, ss.rest.isEmpty⟩)
    | _ :: rest => (ss.rest.takeWhile fun c => decide (c ≠ delim), ⟨rest, false, false⟩)

/-- The loop with a bound on its rounds. -/
def collect (delim : α) : Nat → List α → Stream α → List (List α)
  | 0, _, _ => []
  | n + 1, part, ss =>
    let (part, ss) := getline delim part ss
    if ss.fail then [] else part :: collect delim n part ss

/-- The pieces that the loop collects: every round but the last takes a character. -/
def getlines (delim : α) (s : List α) : List (List α) := collect delim (s.length + 1) [] (ofList s)

variable {d : α} {p s rest : List α}

theorem span_piece (hp : d ∉ p) (rest : List α) (hrest : ∀ c ∈ rest.head?, c = d) :
    ((p ++ rest).takeWhile fun c => decide (c ≠ d)) = p ∧
      ((p ++ rest).dropWhile fun c => decide (c ≠ d)) = rest := by
  apply span_append
  · intro c hc
    rw [decide_eq_true_eq]
    rintro rfl
    exact hp hc
  · intro c hc
    rw [decide_eq_false_iff_not, not_not]
    exact hrest c hc

theorem getline_last (hp : d ∉ p) (hne : p ≠ []) (line : List α) :
    getline d line (ofList p) = (p, ⟨[], true, false⟩) := by
  have hspan := (span_piece hp [] (by simp)).2
  have hempty : p.isEmpty = false := by simpa using hne
  rw [List.append_nil] at hspan
  simp only [getline, ofList, hspan, hempty]
  rfl

theorem getline_delim (hp : d ∉ p) (line : List α) :
    getline d line (ofList (p ++ d :: rest)) = (p, ofList rest) := by
  obtain ⟨htake, hdrop⟩ := span_piece hp (d :: rest) (by simp)
  simp only [getline, ofList, hdrop, htake]
  rfl

/-- Once the end was seen, a read leaves the line as it was. -/
theorem getline_eof (line : List α) (fail : Bool) :
    getline d line ⟨[], true, fail⟩ = (line, ⟨[], true, true⟩) := rfl

/-- A text is empty, or one piece without the delimiter, or such a piece, the delimiter and a text. -/
theorem text_induction {P : List α → Prop} (d : α) (nil : P []) (last : ∀ p, d ∉ p → p ≠ [] → P p)
    (delim : ∀ p rest, d ∉ p → P rest → P (p ++ d :: rest)) (s : List α) : P s := by
  induction hn : s.length using Nat.strongRecOn generalizing s with
  | ind n ih =>
    by_cases hd : d ∈ s
    · obtain ⟨p, rest, rfl, hp⟩ := List.eq_append_cons_of_mem hd
      refine delim p rest hp (ih rest.length ?_ rest rfl)
      rw [← hn, List.length_append, List.length_cons]
      omega
    · by_cases hs : s = []
      · rw [hs]
        exact nil
      · exact last s hd hs

/-- The bound on the rounds does not matter once it is large enough. -/
theorem collect_eq (d : α) (s : List α) : ∀ (n m : Nat) (part part' : List α), s.length < n → s.length < m →
    collect d n part (ofList s) = collect d m part' (ofList s) := by
  induction s using text_induction d with
  | nil =>
    intro n m part part' hn hm
    obtain ⟨n, rfl⟩ := Nat.exists_eq_add_one_of_ne_zero (Nat.ne_zero_of_lt hn)
    obtain ⟨m, rfl⟩ := Nat.exists_eq_add_one_of_ne_zero (Nat.ne_zero_of_lt hm)
    rfl
  | last p hp hne =>
    intro n m part part' hn hm
    have hpos := List.length_pos_iff.mpr hne
    obtain ⟨n, rfl⟩ := Nat.exists_eq_add_of_le (show 2 ≤ n by omega)
    obtain ⟨m, rfl⟩ := Nat.exists_eq_add_of_le (show 2 ≤ m by omega)
    rw [Nat.add_comm 2 n, Nat.add_comm 2 m]
    simp only [collect, getline_last hp hne, getline_eof]
    rfl
  | delim p rest hp ih =>
    intro n m part part' hn hm
    rw [List.length_append, List.length_cons] at hn hm
    obtain ⟨n, rfl⟩ := Nat.exists_eq_add_one_of_ne_zero (Nat.ne_zero_of_lt hn)
    obtain ⟨m, rfl⟩ := Nat.exists_eq_add_one_of_ne_zero (Nat.ne_zero_of_lt hm)
    simp only [collect, getline_delim hp]
    rw [ih n m p p (by omega) (by omega)]

/-! ### The pieces -/

@[simp] theorem getlines_nil : getlines d [] = [] := rfl

theorem getlines_last (hp : d ∉ p) (hne : p ≠ []) : getlines d p = [p] := by
  obtain ⟨c, t, rfl⟩ := List.exists_cons_of_ne_nil hne
  rw [getlines, List.length_cons]
  simp only [collect, getline_last hp hne, getline_eof]
  rfl

theorem getlines_delim (hp : d ∉ p) (rest : List α) : getlines d (p ++ d :: rest) = p :: getlines d rest := by
  rw [getlines, collect, getline_delim hp]
  have hlen : rest.length < (p ++ d :: rest).length := by
    rw [List.length_append, List.length_cons]
    omega
  have hcollect := collect_eq d rest (p ++ d :: rest).length (rest.length + 1) p [] hlen (Nat.lt_succ_self _)
  rw [getlines, ← hcollect]
  rfl

theorem not_mem_of_mem_getlines : ∀ p ∈ getlines d s, d ∉ p := by
  induction s using text_induction d with
  | nil => simp
  | last p hp hne => simpa [getlines_last hp hne] using hp
  | delim p rest hp ih =>
    rw [getlines_delim hp]
    exact List.forall_mem_cons.mpr ⟨hp, ih⟩

theorem getlines_terminated_append {fields : List (List α)} (h : ∀ f ∈ fields, d ∉ f) (s : List α) :
    getlines d (terminated d fields ++ s) = fields ++ getlines d s := by
  induction fields with
  | nil => rfl
  | cons f fields ih =>
    obtain ⟨hf, hfields⟩ := List.forall_mem_cons.mp h
    rw [terminated_cons, List.append_assoc, List.cons_append, getlines_delim hf, ih hfields]
    rfl

/-- A text is its pieces, each followed by the delimiter, but that the last delimiter may be missing after a
piece that is not empty. -/
theorem eq_terminated_getlines (s : List α) : s = terminated d (getlines d s) ∨
    ∃ fields p, p ≠ [] ∧ getlines d s = fields ++ [p] ∧ s = terminated d fields ++ p := by
  induction s using text_induction d with
  | nil => exact Or.inl rfl
  | last p hp hne => exact Or.inr ⟨[], p, hne, getlines_last hp hne, rfl⟩
  | delim p rest hp ih =>
    rw [getlines_delim hp, terminated_cons]
    rcases ih with hrest | ⟨fields, q, hne, hlines, hrest⟩
    · rw [← hrest]
      exact Or.inl rfl
    · refine Or.inr ⟨p :: fields, q, hne, by rw [hlines]; rfl, ?_⟩
      rw [terminated_cons, List.append_assoc, List.cons_append, ← hrest]

/-- A part of a text whose fields are all followed by the delimiter has no more pieces than fields. -/
theorem length_getlines_of_prefix {fields : List (List α)} (hfields : ∀ f ∈ fields, d ∉ f)
    (h : s <+: terminated d fields) : (getlines d s).length ≤ fields.length := by
  induction fields generalizing s with
  | nil =>
    rw [terminated_nil, List.prefix_nil] at h
    exact Nat.le_of_eq (by rw [h, getlines_nil])
  | cons f fields ih =>
    obtain ⟨hf, hrest⟩ := List.forall_mem_cons.mp hfields
    rw [terminated_cons] at h
    rcases prefix_append_cases h with hs | ⟨x, rfl, hx⟩
    · have hfree : d ∉ s := fun hd => hf (hs.subset hd)
      by_cases hnil : s = []
      · rw [hnil]
        exact Nat.zero_le _
      · rw [getlines_last hfree hnil, List.length_cons]
        exact Nat.le_add_left 1 _
    · rcases List.prefix_cons_iff.mp hx with rfl | ⟨t, rfl, ht⟩
      · by_cases hnil : f = []
        · rw [hnil]
          exact Nat.zero_le _
        · rw [List.append_nil, getlines_last hf hnil, List.length_cons]
          exact Nat.le_add_left 1 _
      · rw [getlines_delim hf, List.length_cons, List.length_cons]
        exact Nat.succ_le_succ (ih hrest ht)

/-- A text that ends in a piece has one piece more than delimiters. -/
theorem length_getlines_append (hp : d ∉ p) (hne : p ≠ []) (s : List α) :
    (getlines d (s ++ p)).length = s.count d + 1 := by
  induction s using text_induction d with
  | nil => rw [List.nil_append, getlines_last hp hne]; rfl
  | last q hq hqne =>
    rw [getlines_last (by simp [hq, hp]) (by simp [hqne]), List.count_eq_zero_of_not_mem hq]
    rfl
  | delim q rest hq ih =>
    rw [List.append_assoc, List.cons_append, getlines_delim hq, List.length_cons, ih, List.count_append,
      List.count_cons_self, List.count_eq_zero_of_not_mem hq]
    omega

/-! ### A fixed number of reads -/

/-- The line after each of `n` reads into one variable. -/
def reads (delim : α) : Nat → List α → Stream α → List (List α)
  | 0, _, _ => []
  | n + 1, line, ss =>
    (getline delim line ss).1 :: reads delim n (getline delim line ss).1 (getline delim line ss).2

/-- What follows the last delimiter. -/
def lastPiece (delim : α) (s : List α) : List α := (s.reverse.takeWhile fun c => decide (c ≠ delim)).reverse

theorem lastPiece_of_not_mem (hp : d ∉ p) : lastPiece d p = p := by
  have hall : ∀ c ∈ p.reverse, decide (c ≠ d) = true := by
    intro c hc
    rw [decide_eq_true_eq]
    rintro rfl
    exact hp (List.mem_reverse.mp hc)
  rw [lastPiece, List.takeWhile_eq_self_iff.mpr hall, List.reverse_reverse]

theorem lastPiece_delim (p rest : List α) : lastPiece d (p ++ d :: rest) = lastPiece d rest := by
  rw [lastPiece, List.reverse_append, List.reverse_cons, List.append_assoc, List.takeWhile_append]
  split_ifs with hall
  · rw [List.singleton_append, List.takeWhile_cons_of_neg (by simp), List.append_nil, lastPiece,
      (List.takeWhile_sublist _).eq_of_length hall]
  · rfl

theorem reads_eof (n : Nat) (line : List α) (fail : Bool) :
    reads d n line ⟨[], true, fail⟩ = List.replicate n line := by
  induction n generalizing fail with
  | zero => rfl
  | succ n ih => rw [reads, getline_eof, List.replicate_succ, ih]

/-- The reads give the pieces of the text, and once these run out, what follows the last delimiter again and
again: that piece itself, or nothing when the text ends in a delimiter. -/
theorem reads_ofList (n : Nat) (line s : List α) :
    reads d n line (ofList s) = (getlines d s ++ List.replicate n (lastPiece d s)).take n := by
  induction s using text_induction d generalizing n line with
  | nil =>
    cases n with
    | zero => rfl
    | succ n =>
      have hfirst : getline d line (ofList []) = ([], ⟨[], true, true⟩) := rfl
      rw [reads, hfirst, reads_eof, getlines_nil, List.nil_append, List.take_replicate, Nat.min_self]
      rfl
  | last p hp hne =>
    cases n with
    | zero => rfl
    | succ n =>
      rw [reads, getline_last hp hne, reads_eof, getlines_last hp hne, lastPiece_of_not_mem hp,
        List.singleton_append, List.take_succ_cons, List.take_replicate, Nat.min_eq_left (Nat.le_succ n)]
  | delim p rest hp ih =>
    cases n with
    | zero => rfl
    | succ n =>
      rw [reads, getline_delim hp, ih, getlines_delim hp, lastPiece_delim, List.cons_append,
        List.take_succ_cons, List.take_append, List.take_append, List.take_replicate, List.take_replicate,
        Nat.min_eq_left (Nat.sub_le n _), Nat.min_eq_left (by omega)]

end Stream

end Lib
