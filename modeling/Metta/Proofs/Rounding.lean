/-
# Metta.Proofs.Rounding -- rounding gives a float back

A finite float is a mantissa and an exponent, packed into its bits.  Rounding the exact
value of a float finds these bits again (`nearestBits_of_finite`): the last place of the
value is the exponent of the float, and at that place nothing has to be rounded.

Rounding answers with finite floats only (`isFinite_of_nearestSigned?`), and with any
given finite float for every rational that rounds to its bits (`nearestSigned?_eq_some`).
-/
import Metta.Number.Binary
import Mathlib

namespace Metta.Number

set_option autoImplicit false

/-! ## Powers of two -/

/-- A power split into what is multiplied and what is divided by. -/
theorem pow_toNat_eq (b : Nat) (pos : 0 < b) (e : Int) :
    (b : ℚ) ^ e * (b : ℚ) ^ (-e).toNat = (b : ℚ) ^ e.toNat := by
  have nonzero : (b : ℚ) ≠ 0 := by positivity
  rw [← zpow_natCast, ← zpow_natCast, ← zpow_add₀ nonzero]
  congr 1
  omega

theorem mkRat_pow_eq (b : Nat) (pos : 0 < b) (m : Nat) (e : Int) :
    mkRat (m * Nat.pow b e.toNat) (Nat.pow b (-e).toNat) = m * (b : ℚ) ^ e := by
  have nonzero : (b : ℚ) ^ (-e).toNat ≠ 0 := by positivity
  rw [Rat.mkRat_eq_div, div_eq_iff (by simpa using nonzero)]
  push_cast [Nat.pow_eq]
  rw [← pow_toNat_eq b pos e, mul_assoc]

theorem scaled_eq (m : Nat) (e : Int) : scaled m e = m * (2 : ℚ) ^ e :=
  mkRat_pow_eq 2 (by decide) m e

/-- At most one binade holds a number. -/
theorem binade_unique {q : ℚ} {j k : Int} (low : (2 : ℚ) ^ j ≤ q) (high : q < (2 : ℚ) ^ (j + 1))
    (low' : (2 : ℚ) ^ k ≤ q) (high' : q < (2 : ℚ) ^ (k + 1)) : j = k := by
  have one : (1 : ℚ) < 2 := by norm_num
  have below := (zpow_lt_zpow_iff_right₀ one).mp (low.trans_lt high')
  have above := (zpow_lt_zpow_iff_right₀ one).mp (low'.trans_lt high)
  omega

theorem log2_bounds {n : Nat} (pos : 0 < n) :
    (2 : ℚ) ^ (n.log2 : Int) ≤ n ∧ (n : ℚ) < 2 ^ ((n.log2 : Int) + 1) := by
  constructor
  · rw [zpow_natCast]
    exact_mod_cast Nat.log2_self_le (by omega)
  · have := Nat.lt_log2_self (n := n)
    rw [← Nat.cast_succ, zpow_natCast]
    exact_mod_cast this

/-- The binade of a quotient holds it. -/
theorem binade_bounds {n d : Nat} (hn : 0 < n) (hd : 0 < d) :
    (2 : ℚ) ^ binade n d ≤ n / d ∧ (n : ℚ) / d < 2 ^ (binade n d + 1) := by
  have posd : (0 : ℚ) < d := by exact_mod_cast hd
  have two : (2 : ℚ) ≠ 0 := by norm_num
  obtain ⟨lowN, highN⟩ := log2_bounds hn
  obtain ⟨lowD, highD⟩ := log2_bounds hd
  generalize exponent : (n.log2 : Int) - d.log2 = e
  -- the quotient of the leading powers is right, or one too large
  have above : (n : ℚ) / d < 2 ^ (e + 1) := by
    rw [div_lt_iff₀ posd]
    have : (2 : ℚ) ^ (e + 1) * 2 ^ (d.log2 : Int) = 2 ^ ((n.log2 : Int) + 1) := by
      rw [← zpow_add₀ two]
      congr 1
      omega
    calc (n : ℚ) < 2 ^ (e + 1) * 2 ^ (d.log2 : Int) := this ▸ highN
      _ ≤ 2 ^ (e + 1) * d := by gcongr
  have below : (2 : ℚ) ^ (e - 1) ≤ n / d := by
    rw [le_div_iff₀ posd]
    have : (2 : ℚ) ^ (e - 1) * 2 ^ ((d.log2 : Int) + 1) = 2 ^ (n.log2 : Int) := by
      rw [← zpow_add₀ two]
      congr 1
      omega
    calc (2 : ℚ) ^ (e - 1) * d ≤ 2 ^ (e - 1) * 2 ^ ((d.log2 : Int) + 1) := by gcongr
      _ = 2 ^ (n.log2 : Int) := this
      _ ≤ n := lowN
  have decided : n * Nat.pow 2 (-e).toNat < d * Nat.pow 2 e.toNat ↔ (n : ℚ) / d < 2 ^ e := by
    have scale : (0 : ℚ) < 2 ^ (-e).toNat := by positivity
    rw [div_lt_iff₀ posd, ← mul_lt_mul_iff_left₀ scale]
    have split : (2 : ℚ) ^ e * d * 2 ^ (-e).toNat = d * 2 ^ e.toNat := by
      have := pow_toNat_eq 2 (by decide) e
      push_cast at this
      rw [← this]
      ring
    rw [split, ← Nat.cast_lt (α := ℚ)]
    push_cast [Nat.pow_eq]
    rfl
  simp only [binade, exponent]
  split
  · rename_i small
    refine ⟨below, ?_⟩
    rw [Int.sub_add_cancel]
    exact decided.mp small
  · rename_i large
    exact ⟨not_lt.mp fun small => large (decided.mpr small), above⟩

/-! ## Bits -/

/-- The bits of a finite float, sign apart: the number `m * 2 ^ e`. -/
structure Packed (bits m : Nat) (e : Int) : Prop where
  bits_eq : bits = (e + 1074).toNat * 2 ^ 52 + m
  least : -1074 ≤ e
  fits : m < 2 ^ 53
  /-- Only the least numbers lack a leading bit. -/
  leading : 2 ^ 52 ≤ m ∨ e = -1074

variable {bits m n d : Nat} {e : Int}

theorem roundDiv_mul (m : Nat) (pos : 0 < d) : roundDiv (m * d) d = m := by
  simp [roundDiv, Nat.mul_div_cancel m pos, pos]

/-- The last place of a float's value is its exponent. -/
theorem Packed.lastPlace_eq (packed : Packed bits m e) (hn : 0 < n) (hd : 0 < d)
    (value : (n : ℚ) / d = m * 2 ^ e) : lastPlace n d = e := by
  have two : (2 : ℚ) ≠ 0 := by norm_num
  have pos : (0 : ℚ) < 2 ^ e := by positivity
  obtain ⟨low, high⟩ := binade_bounds hn hd
  have below : (n : ℚ) / d < 2 ^ (e + 53) := by
    rw [value, zpow_add₀ two, mul_comm]
    have fits : (m : ℚ) < 2 ^ (53 : Int) := by exact_mod_cast packed.fits
    gcongr
  have least := packed.least
  unfold lastPlace
  rcases packed.leading with leading | subnormal
  · have above : (2 : ℚ) ^ (e + 52) ≤ n / d := by
      rw [value, zpow_add₀ two, mul_comm]
      have leads : (2 : ℚ) ^ (52 : Int) ≤ m := by exact_mod_cast leading
      gcongr
    have same : binade n d = e + 52 :=
      binade_unique low high above (by rw [add_assoc]; exact below)
    omega
  · have one : (1 : ℚ) < 2 := by norm_num
    have lower := (zpow_lt_zpow_iff_right₀ one).mp (low.trans_lt below)
    omega

/-- Rounding finds the bits of a float from its exact value, however that is written. -/
theorem Packed.nearestBits_eq (packed : Packed bits m e) (hd : 0 < d)
    (value : (n : ℚ) / d = m * 2 ^ e) : nearestBits n d = bits := by
  have posd : (d : ℚ) ≠ 0 := by positivity
  rcases Nat.eq_zero_or_pos n with rfl | hn
  · have none : m = 0 := by
      have power : (2 : ℚ) ^ e ≠ 0 := by positivity
      have zero : (m : ℚ) * 2 ^ e = 0 := by simpa using value.symm
      exact_mod_cast (mul_eq_zero.mp zero).resolve_right power
    have := packed.leading
    have := packed.bits_eq
    simp only [nearestBits, if_true]
    omega
  · have place := packed.lastPlace_eq hn hd value
    have exactly : n * Nat.pow 2 (-e).toNat = m * (d * Nat.pow 2 e.toNat) := by
      have split := pow_toNat_eq 2 (by decide) e
      rw [div_eq_iff posd] at value
      rw [← Nat.cast_inj (R := ℚ)]
      push_cast [Nat.pow_eq] at split ⊢
      rw [value, ← split]
      ring
    have positive : 0 < d * Nat.pow 2 e.toNat := Nat.mul_pos hd (Nat.pow_pos (by decide))
    simp only [nearestBits, place, Nat.pos_iff_ne_zero.mp hn, if_false]
    rw [exactly, roundDiv_mul m positive, packed.bits_eq]
    rfl

theorem Packed.lt_infinityBits (packed : Packed bits m e) (small : e ≤ 971) :
    bits < infinityBits := by
  have := packed.bits_eq
  have := packed.fits
  simp only [infinityBits, Nat.pow_eq]
  omega

/-- The parts of a finite float lie packed in its bits. -/
theorem packed_of_ofBits {negative : Bool} (read : Reading.ofBits bits = .finite negative m e)
    (word : bits < 2 ^ 64) :
    Packed (bits % 2 ^ 63) m e ∧ e ≤ 971 ∧
      bits = (if negative then 2 ^ 63 + bits % 2 ^ 63 else bits % 2 ^ 63) := by
  simp only [Reading.ofBits, Nat.pow_eq] at read
  split at read
  · split at read <;> cases read
  · have sign :
        bits = if bits / 2 ^ 63 % 2 == 1 then 2 ^ 63 + bits % 2 ^ 63 else bits % 2 ^ 63 := by
      simp only [beq_iff_eq]
      split <;> omega
    split at read
    · cases read
      exact ⟨⟨by omega, by omega, by omega, by omega⟩, by omega, sign⟩
    · cases read
      exact ⟨⟨by omega, by omega, by omega, by omega⟩, by omega, sign⟩

/-! ## Floats -/

section

open Float.Model Float.Model.UnpackedFloat

theorem toNat_unpackExponent (bits : UInt64) :
    (unpackExponent bits.toBitVec : BitVec Format.binary64.exponentBits).toNat =
      bits.toNat / 2 ^ 52 % 2 ^ 11 := by
  rw [unpackExponent_def]
  simp [Format.binary64, Nat.shiftRight_eq_div_pow]

/-- The exponent that belongs to no finite float has all its bits set. -/
theorem unpackExponent_eq_iff (bits : UInt64) :
    (unpackExponent bits.toBitVec : BitVec Format.binary64.exponentBits) = -1#_ ↔
      bits.toNat / 2 ^ 52 % 2 ^ 11 = 2047 := by
  rw [← toNat_unpackExponent, ← BitVec.toNat_inj]
  rfl

theorem isFinite_iff_exponent (x : Float) :
    x.isFinite = true ↔ x.toBits.toNat / 2 ^ 52 % 2 ^ 11 ≠ 2047 := by
  rw [ne_eq, ← unpackExponent_eq_iff]
  simp only [Float.isFinite, Float.Model.isFinite, Float.Model.unpack, Float.toBits]
  unfold UnpackedFloat.unpack
  simp only
  split
  · rename_i top
    split <;> simpa [UnpackedFloat.isFinite] using top
  · rename_i lower
    split
    · split <;> simpa [UnpackedFloat.isFinite] using lower
    · simpa [UnpackedFloat.isFinite] using lower

theorem toBits_ofBits {bits : UInt64} (finite : bits.toNat / 2 ^ 52 % 2 ^ 11 ≠ 2047) :
    (Float.ofBits bits).toBits = bits := by
  rw [ne_eq, ← unpackExponent_eq_iff] at finite
  simp only [Float.ofBits, Float.toBits, Float.Model.ofBits, Float.Model.pack]
  rw [pack_unpack, isNaNBits, decide_eq_false fun top => finite top.1]
  rfl

end

variable {x : Float} {negative : Bool} {q : ℚ}

theorem isFinite_iff :
    x.isFinite = true ↔ ∃ negative m e, Reading.ofFloat x = .finite negative m e := by
  rw [isFinite_iff_exponent]
  simp only [Reading.ofFloat, Reading.ofBits, Nat.pow_eq]
  split
  · rename_i top
    split <;> simp [top]
  · rename_i lower
    split <;> simp [lower]

/-- Rounding never ends at an infinity. -/
theorem isFinite_of_nearestSigned? (rounded : nearestSigned? negative q = some x) :
    x.isFinite = true := by
  simp only [nearestSigned?, Nat.pow_eq] at rounded
  split at rounded <;> cases rounded
  rename_i small
  generalize nearestBits q.num.natAbs q.den = bits at small
  simp only [infinityBits, Nat.pow_eq] at small
  have finite : (UInt64.ofNat (if negative then 2 ^ 63 + bits else bits)).toNat / 2 ^ 52 % 2 ^ 11 ≠
      2047 := by
    rw [UInt64.toNat_ofNat']
    split <;> omega
  rw [isFinite_iff_exponent, toBits_ofBits finite]
  exact finite

/-- A float is the nearest one to every rational that rounds to its bits. -/
theorem nearestSigned?_eq_some (read : Reading.ofFloat x = .finite negative m e)
    (rounds : nearestBits q.num.natAbs q.den = x.toBits.toNat % 2 ^ 63) :
    nearestSigned? negative q = some x := by
  obtain ⟨packed, small, word⟩ := packed_of_ofBits read x.toBits.toNat_lt
  have finite := packed.lt_infinityBits small
  simp only [nearestSigned?, rounds, finite, if_true, Nat.pow_eq]
  rw [← word, UInt64.ofNat_toNat, Float.ofBits_toBits]

/-- The exact value of a float rounds to its bits. -/
theorem nearestBits_of_finite (read : Reading.ofFloat x = .finite negative m e)
    (value : q = m * 2 ^ e) : nearestBits q.num.natAbs q.den = x.toBits.toNat % 2 ^ 63 := by
  obtain ⟨packed, -, -⟩ := packed_of_ofBits read x.toBits.toNat_lt
  refine packed.nearestBits_eq q.den_pos ?_
  have positive : 0 ≤ q.num := by
    rw [Rat.num_nonneg, value]
    positivity
  rw [← value]
  conv_rhs => rw [← Rat.num_div_den q, ← Int.natAbs_of_nonneg positive]
  rfl
end Metta.Number
