/-
# Metta.Proofs.Digits -- written floats round to what they were written for

Floats are written positionally, as figures with a point among them.  What such a text
spells is the rational that the figures stand for (`Spells`).  A finite float is written
with its sign and a text that spells a rational nearest to it (`positional_spells`): the
digits were selected for that, and neither the point nor zeros added or dropped on the
way change the number.
-/
import Metta.Numeral
import Metta.Proofs.Rounding

namespace Metta

open Metta.Text Metta.Number

set_option autoImplicit false

/-! ## Figures -/

/-- Digits from 0 to 9. -/
def Text.Figures (cs : List Char) : Prop := ∀ c ∈ cs, c.isDigit = true

theorem figures_append {cs ds : List Char} : Figures (cs ++ ds) ↔ Figures cs ∧ Figures ds :=
  List.forall_mem_append

theorem figures_replicate_zero (n : Nat) : Figures (List.replicate n '0') := by
  intro c member
  rw [List.eq_of_mem_replicate member]
  rfl

theorem figures_toDigits (n : Nat) : Figures (Nat.toDigits 10 n) :=
  fun _ member => Nat.isDigit_of_mem_toDigits (by decide) (by decide) member

theorem decimalValue?_of_isDigit {c : Char} (figure : c.isDigit = true) :
    decimalValue? c = some (c.toNat - '0'.toNat) := by
  obtain ⟨least, greatest⟩ := Char.isDigit_iff_toNat.mp figure
  have below : c.toNat < 0x30 + 10 := Nat.lt_succ_of_le greatest
  have above : 0x30 ≤ c.toNat := least
  simp only [decimalValue?, decimalZeros, List.findSome?_cons]
  simp [above, below]

theorem isDigit_of_figure {c : Char} (figure : c.isDigit = true) : Text.isDigit c = true :=
  isDigit_of_decimalValue? (decimalValue?_of_isDigit figure)

/-- Figures are read as the number they stand for. -/
theorem value?_of_figures {ds : List Char} (figures : Figures ds) :
    Numeral.value? ds = some (Nat.ofDigitChars 10 ds 0) := by
  unfold Numeral.value?
  generalize 0 = n
  induction ds generalizing n with
  | nil => rfl
  | cons c ds ih =>
      obtain ⟨first, others⟩ := List.forall_mem_cons.mp figures
      rw [List.foldlM_cons, decimalValue?_of_isDigit first, Nat.ofDigitChars_cons]
      exact ih others _

/-! ## With a point -/

namespace Number

/-- The rational that figures before and behind a point stand for. -/
structure Spells (whole fraction : List Char) (q : ℚ) : Prop where
  nonempty : whole ≠ []
  figures : Figures (whole ++ fraction)
  value : (Nat.ofDigitChars 10 (whole ++ fraction) 0 : ℚ) = q * 10 ^ fraction.length

/-- Zeros in front do not count, and zeros behind shift the number away from the point. -/
theorem spells_of_zeros {whole fraction ds : List Char} (nonempty : whole ≠ [])
    (figures : Figures ds) (i j : Nat)
    (all : whole ++ fraction = List.replicate i '0' ++ ds ++ List.replicate j '0') {e : Int}
    (places : e + fraction.length = j) :
    Spells whole fraction (Nat.ofDigitChars 10 ds 0 * 10 ^ e) where
  nonempty := nonempty
  figures := by
    rw [all]
    exact figures_append.mpr
      ⟨figures_append.mpr ⟨figures_replicate_zero i, figures⟩, figures_replicate_zero j⟩
  value := by
    rw [all, Nat.ofDigitChars_append, Nat.ofDigitChars_append, Nat.ofDigitChars_replicate_zero,
      Nat.ofDigitChars_replicate_zero, Nat.mul_zero, mul_assoc, ← zpow_natCast,
      ← zpow_add₀ (by norm_num), places, zpow_natCast]
    push_cast
    ring

/-- Wherever the point is put, zeros make up for the place. -/
theorem withPoint_spells {ds : List Char} (figures : Figures ds) (place : Int) :
    ∃ whole fraction, Layout.withPoint ds place = whole ++ '.' :: fraction ∧
      Spells whole fraction (Nat.ofDigitChars 10 ds 0 * 10 ^ (place - ds.length)) := by
  unfold Layout.withPoint
  split
  · -- all figures stand behind the point
    refine ⟨['0'], _, rfl, ?_⟩
    cases ds with
    | nil =>
        refine spells_of_zeros (by simp) figures (1 + (-place).toNat) 1 ?_ ?_
        · simp [List.replicate_add]
        · simp
          omega
    | cons d ds =>
        refine spells_of_zeros (by simp) figures (1 + (-place).toNat) 0 ?_ ?_
        · simp [List.replicate_add]
        · simp
          omega
  split
  · -- all stand before it
    rename_i positive short
    refine ⟨ds ++ List.replicate (place.toNat - ds.length) '0', ['0'], by simp, ?_⟩
    refine spells_of_zeros ?_ figures 0 (place.toNat - ds.length + 1) ?_ ?_
    · intro none
      have := congrArg List.length none
      simp only [List.length_append, List.length_replicate, List.length_nil] at this
      omega
    · simp [List.replicate_add]
    · simp
      omega
  · rename_i positive long
    refine ⟨_, _, rfl, ?_⟩
    refine spells_of_zeros ?_ figures 0 0 ?_ ?_
    · intro none
      have := congrArg List.length none
      simp only [List.length_take, List.length_nil] at this
      omega
    · simp
    · simp only [List.length_drop]
      omega

/-! ## Shortest decimals -/

namespace Decimal

theorem toRat_eq (d : Decimal) : d.toRat = d.coefficient * (10 : ℚ) ^ d.exponent :=
  mkRat_pow_eq 10 (by decide) d.coefficient d.exponent

/-- A decimal for every rational whose denominator is a power of two. -/
theorem toRat_exactly {v : ℚ} {k : Nat} (positive : 0 ≤ v) (den : v.den = 2 ^ k) :
    (exactly v).toRat = v := by
  have num : ((v.num.natAbs : Nat) : ℚ) = v.num := by
    rw [← Int.cast_natCast, Int.natAbs_of_nonneg (Rat.num_nonneg.mpr positive)]
  have places : v.den.log2 = k := by rw [den, Nat.log2_two_pow]
  rw [toRat_eq, exactly, places]
  conv_rhs => rw [← Rat.num_div_den v, den]
  push_cast [num, Nat.pow_eq, zpow_neg, zpow_natCast]
  rw [show (10 : ℚ) = 5 * 2 by norm_num, mul_pow]
  field_simp

theorem readsBack_of_onGrid? {bits : Nat} {v : ℚ} {e : Int} {d : Decimal}
    (found : onGrid? bits v e = some d) : readsBack bits d = true := by
  simp only [onGrid?] at found
  split at found
  · split at found <;> cases found <;> assumption
  · cases found
    assumption
  · cases found
    assumption
  · cases found

/-- The digits selected for a float read back to it: those on a grid were asked, and the exact value
rounds to the float. -/
theorem readsBack_shortest {bits k : Nat} {v : ℚ} (positive : 0 ≤ v) (den : v.den = 2 ^ k)
    (rounds : nearestBits v.num.natAbs v.den = bits) : readsBack bits (shortest bits v) = true := by
  unfold shortest
  cases found : (List.range 17).findSome? fun (n : Nat) => onGrid? bits v (scale v - (n + 1)) with
  | none => simp [readsBack, toRat_exactly positive den, rounds]
  | some d =>
      obtain ⟨n, -, here⟩ := List.exists_of_findSome?_eq_some found
      exact readsBack_of_onGrid? here

/-- Trailing zeros are all that is dropped. -/
theorem exists_zeros (ds : List Char) :
    ∃ n, ds = dropTrailingZeros ds ++ List.replicate n '0' := by
  let zeros := ds.reverse.takeWhile (· == '0')
  have same : zeros = List.replicate zeros.length '0' :=
    List.eq_replicate_of_mem fun c member => by simpa using List.mem_takeWhile_imp member
  refine ⟨zeros.length, ?_⟩
  rw [← List.reverse_replicate, ← same, dropTrailingZeros, ← List.reverse_append,
    List.takeWhile_append_dropWhile, List.reverse_reverse]

theorem figures_digits (d : Decimal) : Figures d.digits := by
  obtain ⟨n, split⟩ := exists_zeros (Nat.toDigits 10 d.coefficient)
  have all := figures_toDigits d.coefficient
  rw [split] at all
  exact (figures_append.mp all).1

/-- The digits and the place of the point give the number. -/
theorem digits_value (d : Decimal) :
    (Nat.ofDigitChars 10 d.digits 0 : ℚ) * 10 ^ (d.pointPlace - d.digits.length) = d.toRat := by
  obtain ⟨n, split⟩ := exists_zeros (Nat.toDigits 10 d.coefficient)
  have value : d.coefficient = 10 ^ n * Nat.ofDigitChars 10 d.digits 0 := by
    rw [← Nat.ofDigitChars_replicate_zero, digits, ← Nat.ofDigitChars_append, ← split,
      Nat.ofDigitChars_ten_toDigits]
  have length : digitCount d.coefficient = d.digits.length + n := by
    rw [digitCount, split, List.length_append, List.length_replicate]
    rfl
  have place : d.pointPlace - d.digits.length = n + d.exponent := by
    rw [pointPlace, length]
    omega
  rw [toRat_eq, place, zpow_add₀ (by norm_num), zpow_natCast]
  conv_rhs => rw [value]
  push_cast
  ring

end Decimal

/-- The denominator of a float's value is a power of two. -/
theorem den_scaled (m : Nat) (e : Int) : ∃ k, (scaled m e).den = 2 ^ k := by
  have divides : (scaled m e).den ∣ 2 ^ (-e).toNat := by
    have := Rat.den_dvd (m * Nat.pow 2 e.toNat : Nat) (Nat.pow 2 (-e).toNat : Nat)
    rw [← Rat.mkRat_eq_divInt] at this
    exact_mod_cast this
  obtain ⟨k, -, den⟩ := (Nat.dvd_prime_pow Nat.prime_two).mp divides
  exact ⟨k, den⟩

/-- **A finite float is written as a text that spells a number nearest to it.** -/
theorem positional_spells {x : Float} {negative : Bool} {m : Nat} {e : Int}
    (read : Reading.ofFloat x = .finite negative m e) :
    ∃ whole fraction q,
      Layout.positional x = (if negative then ['-'] else []) ++ (whole ++ '.' :: fraction) ∧
      Spells whole fraction q ∧ nearestBits q.num.natAbs q.den = x.toBits.toNat % 2 ^ 63 := by
  have exact_rounds := nearestBits_of_finite read (scaled_eq m e)
  let d : Decimal :=
    if m = 0 then ⟨0, 0⟩ else .shortest (x.toBits.toNat % Nat.pow 2 63) (scaled m e)
  have rounds : nearestBits d.toRat.num.natAbs d.toRat.den = x.toBits.toNat % 2 ^ 63 := by
    by_cases zero : m = 0
    · simpa [d, zero, scaled, Decimal.toRat] using exact_rounds
    · have positive : 0 ≤ scaled m e := by
        rw [scaled_eq]
        positivity
      obtain ⟨k, den⟩ := den_scaled m e
      have back := Decimal.readsBack_shortest positive den exact_rounds
      simpa [d, zero, Decimal.readsBack] using back
  obtain ⟨whole, fraction, layout, spells⟩ := withPoint_spells d.figures_digits d.pointPlace
  rw [d.digits_value] at spells
  refine ⟨whole, fraction, d.toRat, ?_, spells, rounds⟩
  rw [← layout, Layout.positional, Layout.render, read]

end Number

end Metta
