import GhcpConsole.Lib.CodeUnits
import Mathlib.Data.Nat.Digits.Lemmas
import Mathlib.Tactic.IntervalCases
import Mathlib.Data.Nat.Log

/-!
# Numbers and their decimal texts

The finite numbers of the language are the multiples `m * 2 ^ e` with `m < 2 ^ 53` and
`-1074 ≤ e ≤ 971`. A decimal text stands for the number nearest to it, and a number is written with
the fewest digits that stand for it.
-/

namespace GhcpConsole

/-- A number that is not `NaN`. -/
inductive Double
  | finite (negative : Bool) (significand : Nat) (exponent : Int)
  | infinite (negative : Bool)
deriving DecidableEq, Repr

/-- The nearest integer to `p / q`, and the even one of two. -/
def roundHalfEven (p q : Nat) : Nat :=
  if 2 * (p % q) < q ∨ 2 * (p % q) = q ∧ p / q % 2 = 0 then p / q else p / q + 1

/-- `p / q / base ^ e`. -/
def scaled (base p q : Nat) (e : Int) : Nat × Nat :=
  if 0 ≤ e then (p, q * base ^ e.toNat) else (p * base ^ (-e).toNat, q)

namespace Double

def normal (negative : Bool) (significand : Nat) (exponent : Int) : Double :=
  if significand = 0 then .finite negative 0 0
  else if 971 < exponent then .infinite negative
  else .finite negative significand exponent

/-- The exponent with which `p / q` has 53 binary digits, or the least one. -/
def exponentOf (p q : Nat) : Int :=
  let low := max (-1074) ((Nat.log 2 p : Int) - Nat.log 2 q - 53)
  if 2 ^ 53 * (scaled 2 p q low).2 ≤ (scaled 2 p q low).1 then low + 1 else low

/-- The number nearest to `p / q`. -/
def ofRatio (negative : Bool) (p q : Nat) : Double :=
  let exponent := exponentOf p q
  let significand := roundHalfEven (scaled 2 p q exponent).1 (scaled 2 p q exponent).2
  if significand = 2 ^ 53 then normal negative (2 ^ 52) (exponent + 1)
  else normal negative significand exponent

def ofNat (n : Nat) : Double := ofRatio false n 1

/-- The number nearest to `digits * 10 ^ exponent`. -/
def ofDecimal (negative : Bool) (digits : Nat) (exponent : Int) : Double :=
  ofRatio negative (scaled 10 digits 1 (-exponent)).1 (scaled 10 digits 1 (-exponent)).2

/-- A text of digits and the power of ten of the point in front of it. -/
structure Decimal where
  digits : Nat
  count : Nat
  point : Int
deriving DecidableEq, Repr

namespace Decimal

/-- `n` with `10 ^ (n - 1) ≤ a / b < 10 ^ n`. -/
def pointOf (a b : Nat) : Int :=
  if b ≤ a then Nat.log 10 (a / b) + 1 else -(Nat.log 10 ((b - 1) / a) : Int)

def value (negative : Bool) (d : Decimal) : Double := ofDecimal negative d.digits (d.point - d.count)

/-- With a carry into a new digit the others are zero. -/
def carried (d : Decimal) : Decimal :=
  if d.digits = 10 ^ d.count then { d with digits := 10 ^ (d.count - 1), point := d.point + 1 } else d

/-- The two texts of `count` digits next to `a / b`, the nearer one first. -/
def candidates (a b count : Nat) : List Decimal :=
  let (p, q) := scaled 10 a b (pointOf a b - count)
  let near := roundHalfEven p q
  let far := if near = p / q then p / q + 1 else p / q
  [⟨near, count, pointOf a b⟩, ⟨far, count, pointOf a b⟩]

/-- The fewest digits that stand for `a / b`; seventeen are enough. -/
def shortest? (negative : Bool) (a b : Nat) : Option Decimal :=
  ((List.range 17).flatMap fun i => candidates a b (i + 1)).find? fun d =>
    d.value negative = ofRatio negative a b

def digitUnits (n : Nat) : JsString := (Nat.digits 10 n).reverse.map fun d => UInt16.ofNat (0x30 + d)

def zeros (n : Nat) : JsString := List.replicate n (codeUnit '0')

def toText (d : Decimal) : JsString :=
  let digits := digitUnits d.digits
  if d.count ≤ d.point ∧ d.point ≤ 21 then digits ++ zeros (d.point - d.count).toNat
  else if 0 < d.point ∧ d.point ≤ 21 then
    digits.take d.point.toNat ++ utf16 "." ++ digits.drop d.point.toNat
  else if -6 < d.point ∧ d.point ≤ 0 then utf16 "0." ++ zeros (-d.point).toNat ++ digits
  else
    digits.take 1 ++ (if d.count = 1 then [] else utf16 "." ++ digits.drop 1)
      ++ utf16 (if 0 < d.point then "e+" else "e-") ++ digitUnits (d.point - 1).natAbs

end Decimal

/-- `Number.prototype.toString`. -/
def toText : Double → JsString
  | infinite negative => utf16 (if negative then "-Infinity" else "Infinity")
  | finite negative significand exponent =>
      if significand = 0 then utf16 "0"
      else
        let (a, b) := scaled 2 significand 1 (-exponent)
        utf16 (if negative then "-" else "")
          ++ ((Decimal.shortest? negative a b).elim [] fun d => d.carried.toText)

def isDigit (u : CodeUnit) : Bool := 0x30 ≤ u && u ≤ 0x39

/-- The digits of a text, read as a number. -/
def readDigits (digits : JsString) : Nat := digits.foldl (fun n u => 10 * n + (u.toNat - 0x30)) 0

/-- The characters of a number. -/
def units : JsString := utf16 "0123456789.+-eInfity"

theorem units_digitUnits {n : Nat} : ∀ u ∈ Decimal.digitUnits n, u ∈ units := by
  intro u inText
  obtain ⟨m, inDigits, rfl⟩ := List.mem_map.mp inText
  have := Nat.digits_lt_base (by omega) (List.mem_reverse.mp inDigits)
  interval_cases m <;> decide

theorem units_zeros {n : Nat} : ∀ u ∈ Decimal.zeros n, u ∈ units := by
  intro u inText
  rw [List.eq_of_mem_replicate inText]
  decide

theorem units_append {v w : JsString} (hv : ∀ u ∈ v, u ∈ units) (hw : ∀ u ∈ w, u ∈ units) :
    ∀ u ∈ v ++ w, u ∈ units :=
  fun u inText => (List.mem_append.mp inText).elim (hv u) (hw u)

theorem units_decimal (d : Decimal) : ∀ u ∈ d.toText, u ∈ units := by
  have digits : ∀ u ∈ Decimal.digitUnits d.digits, u ∈ units := units_digitUnits
  have front : ∀ n, ∀ u ∈ (Decimal.digitUnits d.digits).take n, u ∈ units :=
    fun n u inText => digits u (List.mem_of_mem_take inText)
  have back : ∀ n, ∀ u ∈ (Decimal.digitUnits d.digits).drop n, u ∈ units :=
    fun n u inText => digits u (List.mem_of_mem_drop inText)
  have point : ∀ u ∈ utf16 ".", u ∈ units := by decide
  unfold Decimal.toText
  dsimp only
  split
  · exact units_append digits units_zeros
  split
  · exact units_append (units_append (front _) point) (back _)
  split
  · exact units_append (units_append (by decide) units_zeros) digits
  · refine units_append (units_append (units_append (front _) ?_) ?_) units_digitUnits
    · split
      · exact nofun
      · exact units_append point (back _)
    · split <;> decide

theorem units_toText (x : Double) : ∀ u ∈ x.toText, u ∈ units := by
  unfold toText
  split
  · split <;> decide
  · split
    · decide
    · dsimp only
      refine units_append ?_ ?_
      · split <;> decide
      · cases Decimal.shortest? _ _ _ with
        | none => exact nofun
        | some d => exact units_decimal _

section Whole

variable {n d k j : Nat} {e : Int} {b : Bool}

theorem scaled_of_neg {base p q : Nat} (h : e < 0) :
    scaled base p q e = (p * base ^ (-e).toNat, q) := if_neg (by omega)

theorem scaled_zero {base p q : Nat} : scaled base p q 0 = (p, q) := by simp [scaled]

theorem roundHalfEven_mul (hd : 0 < d) : roundHalfEven (n * d) d = n := by
  rw [roundHalfEven, Nat.mul_mod_left, Nat.mul_div_cancel _ hd, if_pos (.inl (by omega))]

theorem log_lt_of_small (hpos : 0 < n) (hsmall : n < 2 ^ 53) : Nat.log 2 n ≤ 52 := by
  have := Nat.log_lt_of_lt_pow (by omega) hsmall
  omega

theorem log_mul_pow (hpos : 0 < n) : Nat.log 2 (n * 2 ^ j) = Nat.log 2 n + j := by
  induction j with
  | zero => rw [Nat.pow_zero, Nat.mul_one, Nat.add_zero]
  | succ j ih =>
      have hpositive : n * 2 ^ j ≠ 0 := by positivity
      rw [Nat.pow_succ, ← Nat.mul_assoc, Nat.log_mul_base (by omega) hpositive, ih, Nat.add_assoc]

theorem exponentOf_whole (hpos : 0 < n) (hsmall : n < 2 ^ 53) :
    exponentOf (n * 2 ^ j) (2 ^ j) = (Nat.log 2 n : Int) - 52 := by
  have hlog := log_lt_of_small hpos hsmall
  have hsum : Nat.log 2 (n * 2 ^ j) = Nat.log 2 n + j := log_mul_pow hpos
  have hlow : max (-1074) (((Nat.log 2 n + j : Nat) : Int) - j - 53) = Nat.log 2 n - 53 := by omega
  have hshift : (-((Nat.log 2 n : Int) - 53)).toNat = 53 - Nat.log 2 n := by omega
  have large : 2 ^ 53 * 2 ^ j ≤ n * 2 ^ j * 2 ^ (53 - Nat.log 2 n) := by
    calc 2 ^ 53 * 2 ^ j = 2 ^ Nat.log 2 n * 2 ^ (53 - Nat.log 2 n) * 2 ^ j := by
          rw [← Nat.pow_add 2 (Nat.log 2 n), show Nat.log 2 n + (53 - Nat.log 2 n) = 53 by omega]
      _ ≤ n * 2 ^ (53 - Nat.log 2 n) * 2 ^ j := by
          gcongr
          exact Nat.pow_log_le_self 2 hpos.ne'
      _ = n * 2 ^ j * 2 ^ (53 - Nat.log 2 n) := by ring
  unfold exponentOf
  rw [hsum, Nat.log_pow (by omega)]
  dsimp only
  rw [hlow, scaled_of_neg (by omega), hshift, if_pos large]
  omega

/-- A whole number below `2 ^ 53` is a number of the language. -/
theorem ofRatio_whole (hpos : 0 < n) (hsmall : n < 2 ^ 53) : ofRatio b (n * 2 ^ j) (2 ^ j)
    = .finite b (n * 2 ^ (52 - Nat.log 2 n)) ((Nat.log 2 n : Int) - 52) := by
  have hlog := log_lt_of_small hpos hsmall
  have hround : roundHalfEven (scaled 2 (n * 2 ^ j) (2 ^ j) ((Nat.log 2 n : Int) - 52)).1
      (scaled 2 (n * 2 ^ j) (2 ^ j) ((Nat.log 2 n : Int) - 52)).2 = n * 2 ^ (52 - Nat.log 2 n) := by
    by_cases hfull : Nat.log 2 n = 52
    · rw [hfull]
      rw [Nat.cast_ofNat, sub_self, scaled_zero, Nat.sub_self, Nat.pow_zero, Nat.mul_one]
      exact roundHalfEven_mul (by positivity)
    · have hshift : (-((Nat.log 2 n : Int) - 52)).toNat = 52 - Nat.log 2 n := by omega
      rw [scaled_of_neg (by omega), hshift,
        show n * 2 ^ j * 2 ^ (52 - Nat.log 2 n) = n * 2 ^ (52 - Nat.log 2 n) * 2 ^ j by ring]
      exact roundHalfEven_mul (by positivity)
  have hbelow : n * 2 ^ (52 - Nat.log 2 n) < 2 ^ 53 := by
    calc n * 2 ^ (52 - Nat.log 2 n) < 2 ^ (Nat.log 2 n + 1) * 2 ^ (52 - Nat.log 2 n) := by
          gcongr
          exact Nat.lt_pow_succ_log_self (by omega) n
      _ = 2 ^ 53 := by rw [← Nat.pow_add]; congr 1; omega
  have hpositive : 0 < n * 2 ^ (52 - Nat.log 2 n) := by positivity
  unfold ofRatio
  dsimp only
  rw [exponentOf_whole hpos hsmall, hround, if_neg (by omega), normal, if_neg (by omega),
    if_neg (by omega)]

namespace Decimal

theorem scaled_ten {p : Nat} {e : Int} (h : 0 ≤ e) :
    scaled 10 p 1 (-e) = (p * 10 ^ e.toNat, 1) := by
  rcases h.eq_or_lt with zero | positive
  · rw [← zero]
    simp [scaled]
  · rw [scaled_of_neg (by omega), neg_neg]

theorem value_of_le {d : Decimal} (h : d.count ≤ d.point) :
    d.value b = ofRatio b (d.digits * 10 ^ (d.point - d.count).toNat) 1 := by
  rw [value, ofDecimal, scaled_ten (by omega)]

/-- With all its digits a whole number stands for itself. -/
theorem value_all_digits (hd : 0 < d) : ∃ c ∈ candidates (n * d) d (Nat.log 10 n + 1),
    0 < n → c.value b = ofRatio b n 1 := by
  refine ⟨⟨roundHalfEven (scaled 10 (n * d) d (pointOf (n * d) d - (Nat.log 10 n + 1 : Nat))).1
    (scaled 10 (n * d) d (pointOf (n * d) d - (Nat.log 10 n + 1 : Nat))).2, Nat.log 10 n + 1,
    pointOf (n * d) d⟩, by simp [candidates], fun hpos => ?_⟩
  have hpoint : pointOf (n * d) d = Nat.log 10 n + 1 := by
    rw [pointOf, if_pos (Nat.le_mul_of_pos_left d hpos), Nat.mul_div_cancel _ hd]
  rw [value_of_le (by dsimp only; omega)]
  dsimp only
  rw [hpoint, Nat.cast_add, Nat.cast_one, sub_self, scaled_zero, roundHalfEven_mul hd]
  simp

theorem mem_candidates {p q : Nat} {c : Decimal} (h : c ∈ candidates p q k) :
    c.count = k ∧ c.point = pointOf p q := by
  simp only [candidates, List.mem_cons, List.not_mem_nil, or_false] at h
  rcases h with rfl | rfl <;> exact ⟨rfl, rfl⟩

theorem shortest?_whole (hpos : 0 < n) (hsmall : n < 2 ^ 53) :
    ∃ c, shortest? b (n * 2 ^ j) (2 ^ j) = some c ∧ c.value b = ofRatio b n 1
      ∧ 0 < c.count ∧ c.count ≤ c.point ∧ c.point ≤ 16 := by
  have hlog : Nat.log 10 n < 16 :=
    Nat.log_lt_of_lt_pow (by omega) (lt_trans hsmall (by norm_num))
  have hpoint : pointOf (n * 2 ^ j) (2 ^ j) = Nat.log 10 n + 1 := by
    rw [pointOf, if_pos (Nat.le_mul_of_pos_left _ hpos), Nat.mul_div_cancel _ (by positivity)]
  have hsame : ofRatio b (n * 2 ^ j) (2 ^ j) = ofRatio b n 1 := by
    rw [ofRatio_whole hpos hsmall]
    simpa using (ofRatio_whole (j := 0) (b := b) hpos hsmall).symm
  let found := fun c : Decimal => decide (c.value b = ofRatio b (n * 2 ^ j) (2 ^ j))
  let texts := fun i => candidates (n * 2 ^ j) (2 ^ j) (i + 1)
  obtain ⟨all, allMem, allValue⟩ :=
    value_all_digits (n := n) (b := b) (d := 2 ^ j) (by positivity)
  have present : (((List.range (Nat.log 10 n + 1)).flatMap texts).find? found).isSome := by
    refine List.find?_isSome.mpr ⟨all, List.mem_flatMap.mpr ⟨Nat.log 10 n, ?_, allMem⟩, ?_⟩
    · exact List.mem_range.mpr (by omega)
    · exact decide_eq_true ((allValue hpos).trans hsame.symm)
  obtain ⟨c, first⟩ := Option.isSome_iff_exists.mp present
  have search : shortest? b (n * 2 ^ j) (2 ^ j) = some c := by
    rw [shortest?, show (17 : Nat) = Nat.log 10 n + 1 + (16 - Nat.log 10 n) by omega, List.range_add,
      List.flatMap_append, List.find?_append, first, Option.some_or]
  obtain ⟨i, inRange, isText⟩ := List.mem_flatMap.mp (List.mem_of_find?_eq_some first)
  have hrange := List.mem_range.mp inRange
  obtain ⟨hcount, hat⟩ := mem_candidates isText
  have holds := List.find?_some first
  exact ⟨c, search, (of_decide_eq_true holds).trans hsame, by omega, by omega, by omega⟩

theorem carried_whole {c : Decimal} (hcount : 0 < c.count) (hpoint : c.count ≤ c.point)
    (hsmall : c.point ≤ 16) :
    c.carried.value b = c.value b ∧ c.carried.count ≤ c.carried.point
      ∧ c.carried.point ≤ 21 := by
  unfold carried
  split
  · rename_i carry
    refine ⟨?_, by dsimp only; omega, by dsimp only; omega⟩
    rw [value_of_le (by dsimp only; omega), value_of_le hpoint, carry]
    congr 1
    dsimp only
    rw [← Nat.pow_add, ← Nat.pow_add]
    congr 1
    omega
  · exact ⟨rfl, hpoint, by omega⟩

theorem readDigits_append (u v : JsString) :
    readDigits (u ++ v) = v.foldl (fun n u => 10 * n + (u.toNat - 0x30)) (readDigits u) :=
  List.foldl_append

theorem readDigits_digitUnits : readDigits (digitUnits n) = n := by
  have digit : ∀ d ∈ Nat.digits 10 n, (UInt16.ofNat (0x30 + d)).toNat - 0x30 = d := by
    intro d inDigits
    have := Nat.digits_lt_base (by omega) inDigits
    rw [UInt16.toNat_ofNat_of_lt' (show 0x30 + d < 0x10000 by omega)]
    omega
  rw [readDigits, digitUnits, List.foldl_map, List.foldl_reverse]
  calc (Nat.digits 10 n).foldr (fun d n => 10 * n + ((UInt16.ofNat (0x30 + d)).toNat - 0x30)) 0
      = (Nat.digits 10 n).foldr (fun d n => d + 10 * n) 0 := by
        refine List.foldr_ext _ _ _ fun d inDigits m => ?_
        rw [digit d inDigits, Nat.add_comm]
    _ = n := by
        have := Nat.ofDigits_eq_foldr 10 (Nat.digits 10 n)
        rw [Nat.ofDigits_digits] at this
        simpa using this.symm

theorem readDigits_zeros {u : JsString} : readDigits (u ++ zeros k) = readDigits u * 10 ^ k := by
  induction k with
  | zero => simp [zeros]
  | succ k ih =>
      rw [zeros, List.replicate_succ', ← List.append_assoc, readDigits_append]
      show 10 * readDigits (u ++ zeros k) + 0 = _
      rw [ih, Nat.pow_succ]
      ring

theorem isDigit_ofNat {m : Nat} (h : m < 10) : isDigit (UInt16.ofNat (0x30 + m)) = true := by
  interval_cases m <;> rfl

theorem digitUnits_cons (hpos : 0 < n) : ∃ u digits, digitUnits n = u :: digits
    ∧ u ≠ codeUnit '0' ∧ ∀ v ∈ u :: digits, isDigit v = true := by
  have some : Nat.digits 10 n ≠ [] := Nat.digits_ne_nil_iff_ne_zero.mpr hpos.ne'
  have small : ∀ m ∈ Nat.digits 10 n, m < 10 := fun m mem => Nat.digits_lt_base (by omega) mem
  have split : digitUnits n = UInt16.ofNat (0x30 + (Nat.digits 10 n).getLast some)
      :: (Nat.digits 10 n).dropLast.reverse.map fun m => UInt16.ofNat (0x30 + m) := by
    rw [← List.map_cons (f := fun m => UInt16.ofNat (0x30 + m)), ← List.reverse_concat,
      List.dropLast_append_getLast, digitUnits]
  refine ⟨_, _, split, ?_, ?_⟩
  · have first := Nat.getLast_digit_ne_zero 10 hpos.ne'
    have below := small _ (List.getLast_mem some)
    generalize (Nat.digits 10 n).getLast some = m at first below
    interval_cases m <;> simp_all <;> decide
  · rw [← split, digitUnits]
    intro v inText
    obtain ⟨m, inDigits, rfl⟩ := List.mem_map.mp inText
    exact isDigit_ofNat (small m (List.mem_reverse.mp inDigits))

end Decimal

theorem ofNat_finite (hsmall : n < 2 ^ 53) : ∃ significand exponent,
    ofNat n = .finite false significand exponent := by
  rcases Nat.eq_zero_or_pos n with rfl | hpos
  · exact ⟨0, 0, by decide⟩
  · have := ofRatio_whole (j := 0) (b := false) hpos hsmall
    rw [Nat.pow_zero, Nat.mul_one] at this
    exact ⟨_, _, this⟩

/-- The text of a whole number has digits only, and the number they are read as is the same one. -/
theorem toText_ofNat (hsmall : n < 2 ^ 53) :
    ∃ u digits, (ofNat n).toText = u :: digits ∧ (u = codeUnit '0' → digits = [])
      ∧ (∀ v ∈ u :: digits, isDigit v = true) ∧ ofNat (readDigits (u :: digits)) = ofNat n := by
  rcases Nat.eq_zero_or_pos n with rfl | hpos
  · exact ⟨codeUnit '0', [], by decide, fun _ => rfl, by decide, rfl⟩
  have hform : ofNat n = .finite false (n * 2 ^ (52 - Nat.log 2 n)) ((Nat.log 2 n : Int) - 52) := by
    have := ofRatio_whole (j := 0) (b := false) hpos hsmall
    rwa [Nat.pow_zero, Nat.mul_one] at this
  obtain ⟨c, search, hvalue, hcount, hpoint, hlast⟩ :=
    Decimal.shortest?_whole (b := false) (j := 52 - Nat.log 2 n) hpos hsmall
  obtain ⟨hcarried, hdigits, hlarge⟩ :=
    Decimal.carried_whole (b := false) hcount hpoint hlast
  have hsame : ofNat (c.carried.digits * 10 ^ (c.carried.point - c.carried.count).toNat) = ofNat n := by
    rw [ofNat, ← Decimal.value_of_le hdigits, hcarried, hvalue, ofNat]
  have hsignificand : n * 2 ^ (52 - Nat.log 2 n) ≠ 0 := by positivity
  have htext : (ofNat n).toText = Decimal.digitUnits c.carried.digits
      ++ Decimal.zeros (c.carried.point - c.carried.count).toNat := by
    have hlog := log_lt_of_small hpos hsmall
    have hratio : scaled 2 (n * 2 ^ (52 - Nat.log 2 n)) 1 (-((Nat.log 2 n : Int) - 52))
        = (n * 2 ^ (52 - Nat.log 2 n), 2 ^ (52 - Nat.log 2 n)) := by
      rw [scaled, if_pos (by omega), Nat.one_mul]
      congr 2
      omega
    rw [hform, toText, if_neg hsignificand, hratio]
    show [] ++ (Decimal.shortest? false _ _).elim [] _ = _
    rw [search, Option.elim_some, Decimal.toText]
    exact if_pos ⟨hdigits, hlarge⟩
  have hdigit : 0 < c.carried.digits := by
    refine Nat.pos_of_ne_zero fun zero => ?_
    rw [zero, Nat.zero_mul, hform] at hsame
    have hzero : ofNat 0 = .finite false 0 0 := by decide
    rw [hzero] at hsame
    exact hsignificand (Double.finite.inj hsame).2.1.symm
  obtain ⟨u, digits, first, nonzero, allDigits⟩ := Decimal.digitUnits_cons hdigit
  refine ⟨u, digits ++ Decimal.zeros (c.carried.point - c.carried.count).toNat, ?_,
    fun zero => absurd zero nonzero, ?_, ?_⟩
  · rw [htext, first, List.cons_append]
  · intro v inText
    rw [← List.cons_append, List.mem_append] at inText
    rcases inText with inDigits | inZeros
    · exact allDigits v inDigits
    · rw [List.eq_of_mem_replicate inZeros]
      rfl
  · rw [← List.cons_append, ← first, Decimal.readDigits_zeros, Decimal.readDigits_digitUnits, hsame]

end Whole

section Order

/-- `x <= n` -/
def atMost (x : Double) (n : Nat) : Bool :=
  match x with
  | finite negative significand exponent =>
      let ratio := scaled 2 significand 1 (-exponent)
      negative || ratio.1 ≤ n * ratio.2
  | infinite negative => negative

theorem atMost_ofNat {n k : Nat} (hsmall : k < 2 ^ 53) : (ofNat k).atMost n = decide (k ≤ n) := by
  rcases Nat.eq_zero_or_pos k with rfl | hpos
  · have hzero : ofNat 0 = .finite false 0 0 := by decide
    rw [hzero, atMost]
    simp [scaled]
  · have hform : ofNat k = .finite false (k * 2 ^ (52 - Nat.log 2 k)) ((Nat.log 2 k : Int) - 52) := by
      have := ofRatio_whole (j := 0) (b := false) hpos hsmall
      rwa [Nat.pow_zero, Nat.mul_one] at this
    have hlog := log_lt_of_small hpos hsmall
    have hratio : scaled 2 (k * 2 ^ (52 - Nat.log 2 k)) 1 (-((Nat.log 2 k : Int) - 52))
        = (k * 2 ^ (52 - Nat.log 2 k), 2 ^ (52 - Nat.log 2 k)) := by
      rw [scaled, if_pos (by omega), Nat.one_mul]
      congr 2
      omega
    rw [hform, atMost, hratio, Bool.false_or, decide_eq_decide]
    exact Nat.mul_le_mul_right_iff (Nat.two_pow_pos _)

end Order

end Double

end GhcpConsole
