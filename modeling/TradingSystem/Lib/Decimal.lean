import TradingSystem.Lib.Lines
import Mathlib.Tactic.NormNum
import Mathlib.Tactic.Ring

/-!
# Decimal numbers in bytes

`print` writes a number the way `std::to_string` does. `read` is `std::stoull` in base 10: it skips
blanks, takes one sign and as many digits as there are, ignores the rest, and negates modulo `2 ^ 64`
after a minus sign. `read_print` is the round trip and `read_ok_iff` says which strings are read.
-/

namespace Lib

namespace Decimal

/-! ### Printing -/

/-- The digits of a number, the highest first and without leading zeros. -/
def print (n : Nat) : List UInt8 := (Nat.toDigits 10 n).map Char.toUInt8

def isDigit (c : UInt8) : Bool := 48 ≤ c && c ≤ 57

/-- The number that a string of digits stands for. -/
def value (digits : List UInt8) : Nat := digits.foldl (fun v c => 10 * v + (c.toNat - 48)) 0

theorem toNat_toUInt8 {c : Char} (hc : c.isDigit = true) : c.toUInt8.toNat = c.toNat := by
  simp only [Char.isDigit, Bool.and_eq_true, decide_eq_true_eq, UInt32.le_iff_toNat_le, ge_iff_le] at hc
  have hlt : c.val.toNat < 2 ^ 8 := lt_of_le_of_lt hc.2 (by decide)
  show c.val.toNat % 2 ^ 8 = c.val.toNat
  exact Nat.mod_eq_of_lt hlt

theorem isDigit_toUInt8 {c : Char} (hc : c.isDigit = true) : isDigit c.toUInt8 = true := by
  have hnat := toNat_toUInt8 hc
  simp only [Char.isDigit, Bool.and_eq_true, decide_eq_true_eq, UInt32.le_iff_toNat_le, ge_iff_le] at hc
  simp only [isDigit, Bool.and_eq_true, decide_eq_true_eq, UInt8.le_iff_toNat_le, hnat]
  exact hc

theorem isDigit_of_mem_print {n : Nat} {c : UInt8} (hc : c ∈ print n) : isDigit c = true := by
  obtain ⟨d, hd, rfl⟩ := List.mem_map.mp hc
  exact isDigit_toUInt8 (Nat.isDigit_of_mem_toDigits (by decide) (by decide) hd)

theorem print_ne_nil (n : Nat) : print n ≠ [] := by
  rw [print, ne_eq, List.map_eq_nil_iff]
  exact Nat.toDigits_ne_nil

theorem value_print (n : Nat) : value (print n) = n := by
  have hfold : ∀ (ds : List Char) (v : Nat), (∀ d ∈ ds, d.isDigit = true) →
      (ds.map Char.toUInt8).foldl (fun v c => 10 * v + (c.toNat - 48)) v = Nat.ofDigitChars 10 ds v := by
    intro ds
    induction ds with
    | nil => intro v _; rw [Nat.ofDigitChars_nil]; rfl
    | cons d ds ih =>
      intro v hds
      rw [List.map_cons, List.foldl_cons, toNat_toUInt8 (hds d List.mem_cons_self),
        ih _ fun x hx => hds x (List.mem_cons_of_mem d hx), Nat.ofDigitChars_cons]
      rfl
  rw [value, print, hfold _ _ fun d hd => Nat.isDigit_of_mem_toDigits (by decide) (by decide) hd,
    Nat.ofDigitChars_ten_toDigits]

theorem length_print_le {n : Nat} (h : n < 2 ^ 64) : (print n).length ≤ 20 := by
  rw [print, List.length_map, Nat.length_toDigits_le_iff (by decide) (by decide)]
  exact lt_trans h (by norm_num)

theorem foldl_value (v : Nat) (ds : List UInt8) :
    ds.foldl (fun v c => 10 * v + (c.toNat - 48)) v = v * 10 ^ ds.length + value ds := by
  induction ds generalizing v with
  | nil => simp [value]
  | cons c ds ih =>
    have hvalue : value (c :: ds) = ds.foldl (fun v c => 10 * v + (c.toNat - 48)) (10 * 0 + (c.toNat - 48)) := rfl
    rw [hvalue, List.foldl_cons, ih, ih, List.length_cons, pow_succ]
    ring

theorem value_append (ds es : List UInt8) : value (ds ++ es) = value ds * 10 ^ es.length + value es := by
  rw [value, List.foldl_append, foldl_value]
  rfl

theorem value_cons (c : UInt8) (ds : List UInt8) :
    value (c :: ds) = (c.toNat - 48) * 10 ^ ds.length + value ds := by
  have h := value_append [c] ds
  simpa [value] using h

theorem value_lt {ds : List UInt8} (h : ∀ c ∈ ds, isDigit c = true) : value ds < 10 ^ ds.length := by
  induction ds with
  | nil => decide
  | cons c ds ih =>
    obtain ⟨hc, hds⟩ := List.forall_mem_cons.mp h
    simp only [isDigit, Bool.and_eq_true, decide_eq_true_eq, UInt8.le_iff_toNat_le] at hc
    have h57 : (57 : UInt8).toNat = 57 := rfl
    have hdigit : c.toNat - 48 ≤ 9 := by omega
    have hrest := ih hds
    have hhead := Nat.mul_le_mul_right (10 ^ ds.length) hdigit
    rw [value_cons, List.length_cons, pow_succ]
    omega

/-- A number has no leading zero. -/
theorem head_print {n : Nat} (hn : n ≠ 0) {c : UInt8} {ds : List UInt8} (h : print n = c :: ds) : c ≠ 48 := by
  rintro rfl
  have hvalue : value ds = n := by
    have := value_print n
    rw [h, value_cons] at this
    simpa using this
  have hlt : n < 10 ^ ds.length := by
    rw [← hvalue]
    exact value_lt fun c hc => isDigit_of_mem_print (h ▸ List.mem_cons_of_mem 48 hc)
  have hpos : 0 < ds.length := by
    rw [List.length_pos_iff]
    rintro rfl
    exact hn hvalue.symm
  have hlength := (Nat.length_toDigits_le_iff (by decide) hpos).mpr hlt
  have hprint : (Nat.toDigits 10 n).length = ds.length + 1 := by
    have hmap : (print n).length = (Nat.toDigits 10 n).length := List.length_map _
    rw [← hmap, h, List.length_cons]
  omega

/-- Only the whole text of a number stands for it. -/
theorem value_ne_of_append {n : Nat} {ds es : List UInt8} (h : print n = ds ++ es) (hds : ds ≠ [])
    (hes : es ≠ []) : value ds ≠ n := by
  intro hvalue
  have hsum := value_print n
  rw [h, value_append, hvalue] at hsum
  have hpow : 10 ≤ 10 ^ es.length := Nat.le_self_pow (by simpa using hes) 10
  have hmul : n * 10 ≤ n * 10 ^ es.length := Nat.mul_le_mul_left n hpow
  have hn : n = 0 := by omega
  rw [hn] at h
  have hlength := congrArg List.length h
  have hzero : (print 0).length = 1 := rfl
  have hdpos := List.length_pos_iff.mpr hds
  have hepos := List.length_pos_iff.mpr hes
  rw [hzero, List.length_append] at hlength
  omega

/-! ### Reading -/

inductive ReadError where
  | noConversion
  | outOfRange
  deriving DecidableEq, Repr

/-- `isspace` in the C locale. -/
def isSpace (c : UInt8) : Bool := c == 32 || (9 ≤ c && c ≤ 13)

/-- Whether the number is negated, and what follows the sign. -/
def takeSign : List UInt8 → Bool × List UInt8
  | [] => (false, [])
  | c :: s => if c = 45 then (true, s) else if c = 43 then (false, s) else (false, c :: s)

/-- The value of the digits that `s` begins with. -/
def readDigits (negative : Bool) (s : List UInt8) : Except ReadError UInt64 :=
  let digits := s.takeWhile isDigit
  if digits = [] then .error .noConversion
  else if 2 ^ 64 ≤ value digits then .error .outOfRange
  else .ok (if negative then 0 - UInt64.ofNat (value digits) else UInt64.ofNat (value digits))

def read (s : List UInt8) : Except ReadError UInt64 :=
  readDigits (takeSign (s.dropWhile isSpace)).1 (takeSign (s.dropWhile isSpace)).2

/-- `s` is blanks, at most one sign, digits, and anything that does not begin with a digit. -/
structure IsNumeral (s blanks sign digits rest : List UInt8) : Prop where
  eq : s = blanks ++ (sign ++ (digits ++ rest))
  blanks : ∀ c ∈ blanks, isSpace c = true
  sign : sign = [] ∨ sign = [43] ∨ sign = [45]
  ne_nil : digits ≠ []
  digits : ∀ c ∈ digits, isDigit c = true
  stops : ∀ c ∈ rest.head?, isDigit c = false

/-- The strings that are read. -/
def Readable (s : List UInt8) : Prop :=
  ∃ blanks sign digits rest, IsNumeral s blanks sign digits rest ∧ value digits < 2 ^ 64

theorem not_isSpace_of_isDigit {c : UInt8} (hc : isDigit c = true) : isSpace c = false := by
  simp only [isDigit, isSpace, Bool.and_eq_true, decide_eq_true_eq, UInt8.le_iff_toNat_le] at *
  have h48 : (48 : UInt8).toNat = 48 := rfl
  have h13 : (13 : UInt8).toNat = 13 := rfl
  rw [Bool.or_eq_false_iff, beq_eq_false_iff_ne, ne_eq, Bool.and_eq_false_iff]
  refine ⟨?_, Or.inr ?_⟩
  · rintro rfl
    exact absurd hc.1 (by decide)
  · rw [decide_eq_false_iff_not]
    omega

theorem takeSign_of_not_sign {c : UInt8} {s : List UInt8} (h45 : c ≠ 45) (h43 : c ≠ 43) :
    takeSign (c :: s) = (false, c :: s) := by
  rw [takeSign, if_neg h45, if_neg h43]

theorem read_numeral {s blanks sign digits rest : List UInt8} (h : IsNumeral s blanks sign digits rest) :
    read s = if 2 ^ 64 ≤ value digits then .error .outOfRange
      else .ok (if sign = [45] then 0 - UInt64.ofNat (value digits) else UInt64.ofNat (value digits)) := by
  obtain ⟨d, ds, hds⟩ := List.exists_cons_of_ne_nil h.ne_nil
  have hd : isDigit d = true := h.digits d (hds ▸ List.mem_cons_self)
  have hblanks : s.dropWhile isSpace = sign ++ (digits ++ rest) := by
    rw [h.eq]
    refine (span_append h.blanks ?_).2
    rcases h.sign with hsign | hsign | hsign
    · rw [hsign, hds]
      rintro c ⟨⟩
      exact not_isSpace_of_isDigit hd
    · rw [hsign]
      rintro c ⟨⟩
      rfl
    · rw [hsign]
      rintro c ⟨⟩
      rfl
  have hsign : takeSign (sign ++ (digits ++ rest)) = (decide (sign = [45]), digits ++ rest) := by
    rcases h.sign with hsign | hsign | hsign
    · rw [hsign, hds]
      apply takeSign_of_not_sign
      · rintro rfl
        exact absurd hd (by decide)
      · rintro rfl
        exact absurd hd (by decide)
    · rw [hsign]
      rfl
    · rw [hsign]
      rfl
  rw [read, hblanks, hsign, readDigits, (span_append h.digits h.stops).1, if_neg h.ne_nil]
  simp only [decide_eq_true_eq]

/-- Every string that is read has the shape of a numeral. -/
theorem exists_numeral {s : List UInt8} (h : read s ≠ .error .noConversion) :
    ∃ blanks sign digits rest, IsNumeral s blanks sign digits rest := by
  have hspan : s.takeWhile isSpace ++ s.dropWhile isSpace = s := List.takeWhile_append_dropWhile
  have htake : ∀ sign t, s.dropWhile isSpace = sign ++ t → (takeSign (s.dropWhile isSpace)).2 = t →
      (sign = [] ∨ sign = [43] ∨ sign = [45]) →
      ∃ blanks sign digits rest, IsNumeral s blanks sign digits rest := by
    intro sign t hs ht hsign
    refine ⟨s.takeWhile isSpace, sign, t.takeWhile isDigit, t.dropWhile isDigit, ?_, ?_, hsign, ?_, ?_, ?_⟩
    · rw [List.takeWhile_append_dropWhile, ← hs, hspan]
    · exact List.all_eq_true.mp List.all_takeWhile
    · intro hnil
      apply h
      rw [read, ht, readDigits, if_pos hnil]
    · exact List.all_eq_true.mp List.all_takeWhile
    · intro c hc
      have := List.head?_dropWhile_not isDigit t
      rw [Option.mem_def.mp hc] at this
      exact this
  cases hdrop : s.dropWhile isSpace with
  | nil => exact htake [] [] hdrop (by rw [hdrop]; rfl) (Or.inl rfl)
  | cons c t =>
    by_cases h45 : c = 45
    · subst h45
      exact htake [45] t hdrop (by rw [hdrop]; rfl) (Or.inr (Or.inr rfl))
    · by_cases h43 : c = 43
      · subst h43
        exact htake [43] t hdrop (by rw [hdrop]; rfl) (Or.inr (Or.inl rfl))
      · exact htake [] (c :: t) hdrop (by rw [hdrop, takeSign_of_not_sign h45 h43]) (Or.inl rfl)

/-- **Which strings are read.** -/
theorem read_ok_iff (s : List UInt8) : (∃ v, read s = .ok v) ↔ Readable s := by
  constructor
  · rintro ⟨v, hv⟩
    obtain ⟨blanks, sign, digits, rest, h⟩ := exists_numeral (s := s) (by rw [hv]; nofun)
    refine ⟨blanks, sign, digits, rest, h, ?_⟩
    by_contra hlarge
    rw [read_numeral h, if_pos (Nat.le_of_not_lt hlarge)] at hv
    cases hv
  · rintro ⟨blanks, sign, digits, rest, h, hlt⟩
    exact ⟨_, by rw [read_numeral h, if_neg (Nat.not_le_of_lt hlt)]⟩

/-! ### Plain numbers -/

/-- `s` is digits only, of a number below `2 ^ 64`. -/
structure Plain (s : List UInt8) : Prop where
  ne_nil : s ≠ []
  digits : ∀ c ∈ s, isDigit c = true
  lt : value s < 2 ^ 64

theorem Plain.isNumeral {s : List UInt8} (h : Plain s) : IsNumeral s [] [] s [] :=
  ⟨by simp, by simp, Or.inl rfl, h.ne_nil, h.digits, by simp⟩

theorem Plain.readable {s : List UInt8} (h : Plain s) : Readable s := ⟨[], [], s, [], h.isNumeral, h.lt⟩

theorem Plain.read {s : List UInt8} (h : Plain s) : read s = .ok (UInt64.ofNat (value s)) := by
  rw [read_numeral h.isNumeral, if_neg (Nat.not_le_of_lt h.lt)]
  rfl

theorem plain_print (x : UInt64) : Plain (print x.toNat) :=
  ⟨print_ne_nil _, fun _ => isDigit_of_mem_print, by rw [value_print]; exact x.toNat_lt⟩

/-- **The round trip**, on all 64-bit values. -/
theorem read_print (x : UInt64) : read (print x.toNat) = .ok x := by
  rw [(plain_print x).read, value_print, UInt64.ofNat_toNat]

/-- A number is not read where its text is cut short. -/
theorem read_ne_of_append {x : UInt64} {ds es : List UInt8} (h : print x.toNat = ds ++ es) (hds : ds ≠ [])
    (hes : es ≠ []) : read ds ≠ .ok x := by
  have hvalue := value_print x.toNat
  rw [h, value_append] at hvalue
  have hpow : 1 ≤ 10 ^ es.length := Nat.one_le_pow _ _ (by decide)
  have hmul := Nat.mul_le_mul_left (value ds) hpow
  have hlt := x.toNat_lt
  have hplain : Plain ds :=
    ⟨hds, fun c hc => isDigit_of_mem_print (h ▸ List.mem_append_left es hc), by omega⟩
  rw [hplain.read]
  intro hread
  have hsame := congrArg UInt64.toNat (Except.ok.inj hread)
  rw [UInt64.toNat_ofNat_of_lt' hplain.lt] at hsame
  exact value_ne_of_append h hds hes hsame

/-- A number is not read where a digit other than 0 follows its text. -/
theorem read_append_ne {x : UInt64} {c : UInt8} (hc : isDigit c = true) (hzero : c ≠ 48) (s : List UInt8) :
    read (print x.toNat ++ c :: s) ≠ .ok x := by
  have hspan : s.takeWhile isDigit ++ s.dropWhile isDigit = s := List.takeWhile_append_dropWhile
  have hnumeral : IsNumeral (print x.toNat ++ c :: s) [] [] (print x.toNat ++ c :: s.takeWhile isDigit)
      (s.dropWhile isDigit) := by
    refine ⟨by simp [hspan], by simp, Or.inl rfl, by simp, fun d hd => ?_, fun d hd => ?_⟩
    · rcases List.mem_append.mp hd with hd | hd
      · exact isDigit_of_mem_print hd
      · rcases List.mem_cons.mp hd with rfl | hd
        · exact hc
        · exact List.all_eq_true.mp List.all_takeWhile d hd
    · have := List.head?_dropWhile_not isDigit s
      rw [Option.mem_def.mp hd] at this
      exact this
  have hlarger : x.toNat < value (print x.toNat ++ c :: s.takeWhile isDigit) := by
    simp only [isDigit, Bool.and_eq_true, decide_eq_true_eq, UInt8.le_iff_toNat_le] at hc
    rw [value_append, value_print, value_cons, List.length_cons, pow_succ]
    have h48 : (48 : UInt8).toNat = 48 := rfl
    have hne : c.toNat ≠ 48 := fun h => hzero (UInt8.toNat_inj.mp h)
    have hdigit : 1 ≤ c.toNat - 48 := by omega
    have hpow : 1 ≤ 10 ^ (s.takeWhile isDigit).length := Nat.one_le_pow _ _ (by decide)
    have hhead := Nat.mul_le_mul hdigit hpow
    have hshift := Nat.mul_le_mul_left x.toNat hpow
    rw [← Nat.mul_assoc]
    omega
  rw [read_numeral hnumeral]
  split_ifs with hrange hsign
  · nofun
  · cases hsign
  · intro h
    have hlt := Nat.lt_of_not_le hrange
    have hvalue := congrArg UInt64.toNat (Except.ok.inj h)
    rw [UInt64.toNat_ofNat_of_lt' hlt] at hvalue
    omega

end Decimal

end Lib
