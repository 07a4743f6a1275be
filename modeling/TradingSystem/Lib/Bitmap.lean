import Mathlib.Data.Nat.Init
import Mathlib.Tactic.Ring

/-!
# Bitmaps over 64-bit words

A bitmap is an array of words; its bit `i` is bit `i % 64` of word `i / 64`. Setting and clearing a
bit are the word operations of the usual C idiom, and the two searches scan whole words and count
zeros inside the first one that is not 0. `testBit_orBit` and `testBit_andNotBit` say what the
updates do to `testBit`; `highest_spec` and `lowest_spec` say that the searches find the greatest and
the least bit that is set.
-/

namespace Lib

abbrev Bitmap := Array UInt64

namespace Bitmap

/-- Bit `i` of the bitmap; bits past the last word are clear. -/
def testBit (ws : Bitmap) (i : Nat) : Bool := (ws[i / 64]?.getD 0).toBitVec.getLsbD (i % 64)

/-- `ws[w] |= 1 << b` -/
def orBit (ws : Bitmap) (w b : Nat) : Bitmap := ws.modify w (· ||| (1 : UInt64) <<< UInt64.ofNat b)

/-- `ws[w] &= ~(1 << b)` -/
def andNotBit (ws : Bitmap) (w b : Nat) : Bitmap :=
  ws.modify w (· &&& ~~~((1 : UInt64) <<< UInt64.ofNat b))

/-- Number of zero bits above the highest set bit of a word. -/
def countlZero (word : UInt64) : Nat := word.toBitVec.clz.toNat

/-- Number of zero bits below the lowest set bit of a word. -/
def countrZero (word : UInt64) : Nat := word.toBitVec.ctz.toNat

/-- Scan words `i`, `i - 1`, .. , `0` (the argument is `i + 1`). -/
def highestBelow (ws : Bitmap) : Nat → Int
  | 0 => -1
  | i + 1 =>
    let word := ws[i]?.getD 0
    if word ≠ 0 then i * 64 + (63 - (countlZero word : Int)) else highestBelow ws i

/-- The greatest set bit, or `-1`. -/
def highest (ws : Bitmap) : Int := highestBelow ws ws.size

/-- Scan the last `n` words from the lowest of them on. -/
def lowestOfLast (ws : Bitmap) : Nat → Int
  | 0 => -1
  | n + 1 =>
    let i := ws.size - (n + 1)
    let word := ws[i]?.getD 0
    if word ≠ 0 then i * 64 + (countrZero word : Int) else lowestOfLast ws n

/-- The least set bit, or `-1`. -/
def lowest (ws : Bitmap) : Int := lowestOfLast ws ws.size

/-! ### Updates -/

theorem getLsbD_one_shiftLeft {b : Nat} (hb : b < 64) (j : Nat) :
    ((1 : UInt64) <<< UInt64.ofNat b).toBitVec.getLsbD j = (decide (j < 64) && decide (j = b)) := by
  have hshift : (UInt64.ofNat b).toBitVec % 64 = BitVec.ofNat 64 b := by
    apply BitVec.eq_of_toNat_eq
    simp only [UInt64.toBitVec_ofNat', BitVec.toNat_umod, BitVec.toNat_ofNat,
      show (64 : BitVec 64).toNat = 64 from rfl]
    omega
  rw [UInt64.toBitVec_shiftLeft, hshift, BitVec.shiftLeft_eq', BitVec.toNat_ofNat,
    Nat.mod_eq_of_lt (by omega), BitVec.getLsbD_shiftLeft, UInt64.toBitVec_one, BitVec.getLsbD_one]
  by_cases hjb : j = b
  · simp [hjb]
  · have hne : j < b ∨ j - b ≠ 0 := by omega
    rcases hne with hlt | hne
    · simp [hjb, hlt]
    · simp [hjb, hne]

variable {ws : Bitmap} {w b : Nat}

@[simp] theorem size_orBit : (orBit ws w b).size = ws.size := Array.size_modify

@[simp] theorem size_andNotBit : (andNotBit ws w b).size = ws.size := Array.size_modify

theorem lt_of_testBit {i : Nat} (h : testBit ws i = true) : i < 64 * ws.size := by
  by_contra hi
  have hnone : ws[i / 64]? = none := Array.getElem?_eq_none (by omega)
  simp [testBit, hnone] at h

theorem testBit_modify {f : UInt64 → UInt64} (hw : w < ws.size) (i : Nat) :
    testBit (ws.modify w f) i =
      if i / 64 = w then (f (ws[w]?.getD 0)).toBitVec.getLsbD (i % 64) else testBit ws i := by
  unfold testBit
  rw [Array.getElem?_modify]
  by_cases h : w = i / 64
  · subst h
    simp [hw]
  · rw [if_neg h, if_neg (Ne.symm h)]

theorem testBit_orBit (hw : w < ws.size) (hb : b < 64) (i : Nat) :
    testBit (orBit ws w b) i = true ↔ i = w * 64 + b ∨ testBit ws i = true := by
  rw [orBit, testBit_modify hw]
  have hpos : i % 64 < 64 := Nat.mod_lt _ (by omega)
  by_cases h : i / 64 = w
  · have hi : i = w * 64 + b ↔ i % 64 = b := by omega
    rw [if_pos h, UInt64.toBitVec_or, BitVec.getLsbD_or, getLsbD_one_shiftLeft hb, hi, testBit, h]
    simp [hpos, or_comm]
  · have hi : i ≠ w * 64 + b := by omega
    simp [h, hi]

theorem testBit_andNotBit (hw : w < ws.size) (hb : b < 64) (i : Nat) :
    testBit (andNotBit ws w b) i = true ↔ i ≠ w * 64 + b ∧ testBit ws i = true := by
  rw [andNotBit, testBit_modify hw]
  have hpos : i % 64 < 64 := Nat.mod_lt _ (by omega)
  by_cases h : i / 64 = w
  · have hi : i ≠ w * 64 + b ↔ i % 64 ≠ b := by omega
    rw [if_pos h, UInt64.toBitVec_and, UInt64.toBitVec_not, BitVec.getLsbD_and, BitVec.getLsbD_not,
      getLsbD_one_shiftLeft hb, hi, testBit, h]
    simp [hpos, and_comm]
  · have hi : i ≠ w * 64 + b := by omega
    simp [h, hi]

/-- A bitmap is its size and its bits. -/
theorem ext_of_testBit {ws ws' : Bitmap} (hsize : ws.size = ws'.size)
    (h : ∀ i, testBit ws i = testBit ws' i) : ws = ws' := by
  apply Array.ext hsize
  intro i hi hi'
  apply UInt64.toBitVec_inj.mp
  apply BitVec.eq_of_getLsbD_eq
  intro j hj
  have hbit := h (64 * i + j)
  rwa [testBit, testBit, show (64 * i + j) / 64 = i by omega, show (64 * i + j) % 64 = j by omega,
    Array.getElem?_eq_getElem hi, Array.getElem?_eq_getElem hi'] at hbit

/-! ### Searches -/

theorem countlZero_spec {word : UInt64} (h : word ≠ 0) :
    countlZero word ≤ 63 ∧ word.toBitVec.getLsbD (63 - countlZero word) = true ∧
      ∀ j, 63 - countlZero word < j → word.toBitVec.getLsbD j = false := by
  have hne : word.toBitVec ≠ 0#64 := fun he => h (UInt64.toBitVec_inj.mp he)
  have hlt : word.toBitVec.clz.toNat < 64 := by
    have := BitVec.clz_lt_iff_ne_zero.mpr hne
    simpa [BitVec.lt_def] using this
  refine ⟨by unfold countlZero; omega, BitVec.getLsbD_true_clz_of_ne_zero (by omega) hne, ?_⟩
  intro j hj
  unfold countlZero at hj
  have hbound := BitVec.toNat_lt_two_pow_sub_clz (x := word.toBitVec)
  have hpow : 2 ^ (64 - word.toBitVec.clz.toNat) ≤ 2 ^ j := Nat.pow_le_pow_right (by omega) (by omega)
  exact Nat.testBit_lt_two_pow (lt_of_lt_of_le hbound hpow)

theorem countrZero_spec {word : UInt64} (h : word ≠ 0) :
    countrZero word ≤ 63 ∧ word.toBitVec.getLsbD (countrZero word) = true ∧
      ∀ j, j < countrZero word → word.toBitVec.getLsbD j = false := by
  have hne : word.toBitVec ≠ 0#64 := fun he => h (UInt64.toBitVec_inj.mp he)
  have hlt : word.toBitVec.ctz.toNat < 64 := by
    have := BitVec.ctz_lt_iff_ne_zero.mpr hne
    simpa [BitVec.lt_def] using this
  exact ⟨by unfold countrZero; omega, BitVec.getLsbD_true_ctz_of_ne_zero hne,
    fun j hj => BitVec.getLsbD_false_of_lt_ctz hj⟩

theorem testBit_of_word_eq_zero {i : Nat} (h : ws[i / 64]?.getD 0 = 0) : testBit ws i = false := by
  simp [testBit, h]

theorem highestBelow_spec (ws : Bitmap) (n : Nat) :
    (highestBelow ws n = -1 ∧ ∀ i, i < 64 * n → testBit ws i = false) ∨
      ∃ l : Nat, highestBelow ws n = l ∧ testBit ws l = true ∧
        ∀ i, l < i → i < 64 * n → testBit ws i = false := by
  induction n with
  | zero => exact Or.inl ⟨rfl, fun i hi => by omega⟩
  | succ n ih =>
    rw [highestBelow]
    by_cases hword : ws[n]?.getD 0 = 0
    · have htop : ∀ i, 64 * n ≤ i → i < 64 * (n + 1) → testBit ws i = false := fun i h1 h2 =>
        testBit_of_word_eq_zero (by rw [show i / 64 = n by omega]; exact hword)
      simp only [hword, ne_eq, not_true_eq_false, if_false]
      rcases ih with ⟨hnone, hclear⟩ | ⟨l, hl, hset, hclear⟩
      · exact Or.inl ⟨hnone, fun i hi => (Nat.lt_or_ge i (64 * n)).elim (hclear i) (htop i · hi)⟩
      · exact Or.inr ⟨l, hl, hset,
          fun i h1 h2 => (Nat.lt_or_ge i (64 * n)).elim (hclear i h1) (htop i · h2)⟩
    · obtain ⟨hle, hset, hclear⟩ := countlZero_spec hword
      refine Or.inr ⟨64 * n + (63 - countlZero (ws[n]?.getD 0)), ?_, ?_, fun i h1 h2 => ?_⟩
      · simp only [hword, ne_eq, not_false_eq_true, if_true]
        omega
      · rw [testBit, show (64 * n + (63 - countlZero (ws[n]?.getD 0))) / 64 = n by omega,
          show (64 * n + (63 - countlZero (ws[n]?.getD 0))) % 64 = 63 - countlZero (ws[n]?.getD 0) by omega]
        exact hset
      · rw [testBit, show i / 64 = n by omega]
        exact hclear _ (by omega)

theorem lowestOfLast_spec (ws : Bitmap) (n : Nat) (hn : n ≤ ws.size) :
    (lowestOfLast ws n = -1 ∧ ∀ i, 64 * (ws.size - n) ≤ i → i < 64 * ws.size → testBit ws i = false) ∨
      ∃ l : Nat, lowestOfLast ws n = l ∧ testBit ws l = true ∧
        ∀ i, 64 * (ws.size - n) ≤ i → i < l → testBit ws i = false := by
  induction n with
  | zero => exact Or.inl ⟨rfl, fun i h1 h2 => by omega⟩
  | succ n ih =>
    rw [lowestOfLast]
    generalize hk : ws.size - (n + 1) = k
    by_cases hword : ws[k]?.getD 0 = 0
    · have hlow : ∀ i, 64 * k ≤ i → i < 64 * (ws.size - n) → testBit ws i = false := fun i h1 h2 =>
        testBit_of_word_eq_zero (by rw [show i / 64 = k by omega]; exact hword)
      simp only [hword, ne_eq, not_true_eq_false, if_false]
      rcases ih (by omega) with ⟨hnone, hclear⟩ | ⟨l, hl, hset, hclear⟩
      · exact Or.inl ⟨hnone, fun i h1 h2 =>
          (Nat.lt_or_ge i (64 * (ws.size - n))).elim (hlow i h1) (hclear i · h2)⟩
      · exact Or.inr ⟨l, hl, hset, fun i h1 h2 =>
          (Nat.lt_or_ge i (64 * (ws.size - n))).elim (hlow i h1) (hclear i · h2)⟩
    · obtain ⟨hle, hset, hclear⟩ := countrZero_spec hword
      refine Or.inr ⟨64 * k + countrZero (ws[k]?.getD 0), ?_, ?_, fun i h1 h2 => ?_⟩
      · simp only [hword, ne_eq, not_false_eq_true, if_true]
        omega
      · rw [testBit, show (64 * k + countrZero (ws[k]?.getD 0)) / 64 = k by omega,
          show (64 * k + countrZero (ws[k]?.getD 0)) % 64 = countrZero (ws[k]?.getD 0) by omega]
        exact hset
      · rw [testBit, show i / 64 = k by omega]
        exact hclear _ (by omega)

/-- The search from the top finds the greatest set bit. -/
theorem highest_spec (ws : Bitmap) :
    (highest ws = -1 ∧ ∀ i, testBit ws i = false) ∨
      ∃ l : Nat, highest ws = l ∧ testBit ws l = true ∧ ∀ i, testBit ws i = true → i ≤ l := by
  rcases highestBelow_spec ws ws.size with ⟨hnone, hclear⟩ | ⟨l, hl, hset, hclear⟩
  · refine Or.inl ⟨hnone, fun i => ?_⟩
    by_contra hi
    rw [Bool.not_eq_false] at hi
    exact absurd (hclear i (lt_of_testBit hi)) (by simp [hi])
  · refine Or.inr ⟨l, hl, hset, fun i hi => ?_⟩
    by_contra hlt
    exact absurd (hclear i (by omega) (lt_of_testBit hi)) (by simp [hi])

/-- The search from the bottom finds the least set bit. -/
theorem lowest_spec (ws : Bitmap) :
    (lowest ws = -1 ∧ ∀ i, testBit ws i = false) ∨
      ∃ l : Nat, lowest ws = l ∧ testBit ws l = true ∧ ∀ i, testBit ws i = true → l ≤ i := by
  rcases lowestOfLast_spec ws ws.size le_rfl with ⟨hnone, hclear⟩ | ⟨l, hl, hset, hclear⟩
  · refine Or.inl ⟨hnone, fun i => ?_⟩
    by_contra hi
    rw [Bool.not_eq_false] at hi
    exact absurd (hclear i (by omega) (lt_of_testBit hi)) (by simp [hi])
  · refine Or.inr ⟨l, hl, hset, fun i hi => ?_⟩
    by_contra hlt
    exact absurd (hclear i (by omega) (by omega)) (by simp [hi])

end Bitmap

end Lib
