/-
# Metta.Proofs.Points -- floats are compared as points of the number line

Two floats compare equal exactly if they stand for the same point (`beq_iff_point`).  The
comparison looks at the parts of unpacked floats and not at numbers; but a float that is not
zero has only one mantissa and one exponent (`Packed.unique`), so that equal values have
equal parts.  The two zeros differ in their sign and are one point, and a NaN is no point.

Rounding gives back a whole number that is the exact value of some float
(`nearestInt?_of_point`).  Every whole number of at most fifty-three bits is, and so is the
first one beyond these (`exists_point_of_le`).
-/
import Metta.Proofs.Rounding

namespace Metta.Number

set_option autoImplicit false

open Float.Model (Format UnpackedFloat)
open Float.Model.UnpackedFloat

variable {bits m m' : Nat} {e e' : Int} {negative negative' : Bool} {x y : Float}

/-! ## Unpacked floats -/

def signOf (negative : Bool) : Sign := if negative then .negative else .positive

/-- The parts of a float in the form in which floats are compared. -/
def Reading.unpacked : Reading → UnpackedFloat
  | .nan => .notANumber
  | .infinite negative => .infinity (signOf negative)
  | .finite negative m e =>
    if pos : 0 < m then .finite (signOf negative) m e pos else .zero (signOf negative)

theorem unpacked_of_pos (pos : 0 < m) :
    (Reading.finite negative m e).unpacked = .finite (signOf negative) m e pos :=
  dif_pos pos

theorem toNat_unpackMantissa (bits : UInt64) :
    (unpackMantissa bits.toBitVec : BitVec Format.binary64.mantissaBitsWithoutImplicit).toNat =
      bits.toNat % 2 ^ 52 := by
  rw [unpackMantissa_def]
  simp [Format.binary64]

theorem ofBitVec_unpackSign (bits : UInt64) :
    Sign.ofBitVec (@unpackSign .binary64 bits.toBitVec) = signOf (bits.toNat / 2 ^ 63 % 2 == 1) := by
  have bit : (@unpackSign .binary64 bits.toBitVec).toNat = bits.toNat / 2 ^ 63 % 2 := by
    rw [unpackSign_def]
    simp [Format.binary64, Nat.shiftRight_eq_div_pow]
  rw [Sign.ofBitVec, signOf, ← bit]
  generalize @unpackSign .binary64 bits.toBitVec = sign
  rcases BitVec.eq_zero_or_eq_one sign with rfl | rfl <;> rfl

theorem toNat_one_append (fraction : BitVec 52) :
    (1#1 ++ fraction).toNat = 2 ^ 52 + fraction.toNat := by
  rw [BitVec.toNat_append, ← Nat.shiftLeft_add_eq_or_of_lt fraction.isLt]
  rfl

theorem unpack_eq_unpacked (x : Float) : x.toModel.unpack = (Reading.ofFloat x).unpacked := by
  have exponent := toNat_unpackExponent x.toBits
  have fraction := toNat_unpackMantissa x.toBits
  have sign := ofBitVec_unpackSign x.toBits
  have top := unpackExponent_eq_iff x.toBits
  have bias : ((Format.binary64.exponentBias : Nat) : Int) = 1023 := rfl
  have places : ((Format.binary64.mantissaBitsWithoutImplicit : Nat) : Int) = 52 := rfl
  have zero : (unpackMantissa x.toBits.toBitVec :
        BitVec Format.binary64.mantissaBitsWithoutImplicit) = 0#_ ↔
      x.toBits.toNat % 2 ^ 52 = 0 := by
    rw [← fraction, ← BitVec.toNat_inj]
    rfl
  have least : (unpackExponent x.toBits.toBitVec : BitVec Format.binary64.exponentBits) = 0#_ ↔
      x.toBits.toNat / 2 ^ 52 % 2 ^ 11 = 0 := by
    rw [← exponent, ← BitVec.toNat_inj]
    rfl
  show UnpackedFloat.unpack Format.binary64 x.toBits.toBitVec = _
  simp only [UnpackedFloat.unpack, Reading.ofFloat, Reading.ofBits, Nat.pow_eq, top, zero,
    least, sign]
  split
  · split <;> rfl
  · split
    · rename_i small
      split
      · rename_i nothing
        rw [nothing]
        rfl
      · rename_i something
        rw [unpacked_of_pos (Nat.pos_of_ne_zero something)]
        congr 1
        omega
    · rw [unpacked_of_pos (by omega)]
      congr 1
      · rw [toNat_one_append, fraction]
      · omega

theorem beq_infinite :
    (Reading.infinite negative).unpacked.beq (Reading.infinite negative').unpacked = true ↔
      negative = negative' := by
  cases negative <;> cases negative' <;> decide

/-- Finite floats compare equal if both are zero or all their parts are the same. -/
theorem beq_finite :
    (Reading.finite negative m e).unpacked.beq (Reading.finite negative' m' e').unpacked = true ↔
      m = 0 ∧ m' = 0 ∨ negative = negative' ∧ m = m' ∧ e = e' := by
  rcases Nat.eq_zero_or_pos m with rfl | pos
  · rcases Nat.eq_zero_or_pos m' with rfl | pos'
    · simp [Reading.unpacked, UnpackedFloat.beq, UnpackedFloat.compare]
    · rw [unpacked_of_pos pos']
      cases negative' <;>
        simp [Reading.unpacked, signOf, UnpackedFloat.beq, UnpackedFloat.compare] <;> omega
  · rcases Nat.eq_zero_or_pos m' with rfl | pos'
    · rw [unpacked_of_pos pos]
      cases negative <;>
        simp [Reading.unpacked, signOf, UnpackedFloat.beq, UnpackedFloat.compare] <;> omega
    · rw [unpacked_of_pos pos, unpacked_of_pos pos']
      cases negative <;> cases negative' <;>
        simp [signOf, UnpackedFloat.beq, UnpackedFloat.compare, Ordering.then_eq_eq,
          Ordering.swap_eq_eq] <;> omega

theorem not_beq_nan_left (u : UnpackedFloat) : Reading.nan.unpacked.beq u = false := by
  cases u <;> rfl

theorem not_beq_nan_right (u : UnpackedFloat) : u.beq Reading.nan.unpacked = false := by
  cases u <;> rfl

theorem not_beq_infinite_finite :
    (Reading.infinite negative).unpacked.beq (Reading.finite negative' m e).unpacked = false := by
  rcases Nat.eq_zero_or_pos m with rfl | pos
  · cases negative <;> rfl
  · rw [unpacked_of_pos pos]
    cases negative <;> rfl

theorem not_beq_finite_infinite :
    (Reading.finite negative m e).unpacked.beq (Reading.infinite negative').unpacked = false := by
  rcases Nat.eq_zero_or_pos m with rfl | pos
  · cases negative' <;> rfl
  · rw [unpacked_of_pos pos]
    cases negative <;> cases negative' <;> rfl

/-! ## Points -/

/-- The bits of a float hold one mantissa and one exponent. -/
theorem Packed.unique (packed : Packed bits m e) (packed' : Packed bits m' e') :
    m = m' ∧ e = e' := by
  obtain ⟨bits_eq, least, fits, leading⟩ := packed
  obtain ⟨bits_eq', least', fits', leading'⟩ := packed'
  omega

theorem scaled_pos (pos : 0 < m) (e : Int) : 0 < scaled m e := by
  rw [scaled_eq]
  positivity

theorem scaled_zero (e : Int) : scaled 0 e = 0 := by
  rw [scaled_eq]
  simp

/-- Two finite floats of the same value have the same parts. -/
theorem parts_eq_of_scaled_eq (left : Reading.ofFloat x = .finite negative m e)
    (right : Reading.ofFloat y = .finite negative' m' e') (equal : scaled m e = scaled m' e') :
    m = m' ∧ e = e' := by
  obtain ⟨packed, -, -⟩ := packed_of_ofBits left x.toBits.toNat_lt
  obtain ⟨packed', -, -⟩ := packed_of_ofBits right y.toBits.toNat_lt
  have bits : x.toBits.toNat % 2 ^ 63 = y.toBits.toNat % 2 ^ 63 := by
    rw [← nearestBits_of_finite left (scaled_eq m e), equal]
    exact nearestBits_of_finite right (scaled_eq m' e')
  rw [bits] at packed
  exact packed.unique packed'

/-- Two finite floats have the same signed value if both are zero or all their parts are the
same. -/
theorem signed_eq_iff (left : Reading.ofFloat x = .finite negative m e)
    (right : Reading.ofFloat y = .finite negative' m' e') :
    (if negative then -scaled m e else scaled m e) =
        (if negative' then -scaled m' e' else scaled m' e') ↔
      m = 0 ∧ m' = 0 ∨ negative = negative' ∧ m = m' ∧ e = e' := by
  constructor
  · intro equal
    rcases Nat.eq_zero_or_pos m with rfl | pos
    · rcases Nat.eq_zero_or_pos m' with rfl | pos'
      · exact .inl ⟨rfl, rfl⟩
      · have := scaled_pos pos' e'
        rw [scaled_zero] at equal
        grind
    · rcases Nat.eq_zero_or_pos m' with rfl | pos'
      · have := scaled_pos pos e
        rw [scaled_zero] at equal
        grind
      · have := scaled_pos pos e
        have := scaled_pos pos' e'
        have sign : negative = negative' := by grind
        have value : scaled m e = scaled m' e' := by grind
        exact .inr ⟨sign, parts_eq_of_scaled_eq left right value⟩
  · rintro (⟨rfl, rfl⟩ | ⟨rfl, rfl, rfl⟩)
    · simp [scaled_zero]
    · rfl

/-- **Floats compare equal exactly if they stand for the same point.** -/
theorem beq_iff_point (x y : Float) :
    (x == y) = true ↔ ∃ p, pointOf? x = some p ∧ pointOf? y = some p := by
  have compared : (x == y) =
      (Reading.ofFloat x).unpacked.beq (Reading.ofFloat y).unpacked := by
    rw [← unpack_eq_unpacked, ← unpack_eq_unpacked]
    rfl
  rw [compared, pointOf?, pointOf?]
  cases left : Reading.ofFloat x with
  | nan => simp [not_beq_nan_left, Reading.point?]
  | infinite negative =>
      cases right : Reading.ofFloat y with
      | nan => simp [not_beq_nan_right, Reading.point?]
      | infinite negative' =>
          rw [beq_infinite, eq_comm]
          simp [Reading.point?]
      | finite negative' m' e' => simp [not_beq_infinite_finite, Reading.point?]
  | finite negative m e =>
      cases right : Reading.ofFloat y with
      | nan => simp [not_beq_nan_right, Reading.point?]
      | infinite negative' => simp [not_beq_finite_infinite, Reading.point?]
      | finite negative' m' e' =>
          rw [beq_finite, ← signed_eq_iff left right, eq_comm]
          simp [Reading.point?]

/-! ## Whole numbers -/

/-- A rational that rounds to the bits of these parts rounds to the float that has them. -/
theorem exists_nearestSigned? {q : ℚ} (packed : Packed bits m e) (small : e ≤ 971)
    (rounds : nearestBits q.num.natAbs q.den = bits) (negative : Bool) :
    ∃ x, nearestSigned? negative q = some x ∧ Reading.ofFloat x = .finite negative m e := by
  have finite := packed.lt_infinityBits small
  obtain ⟨bits_eq, least, fits, leading⟩ := packed
  refine ⟨_, by rw [nearestSigned?, rounds, if_pos finite], ?_⟩
  generalize word_eq : (if negative then Nat.pow 2 63 + bits else bits) = word
  simp only [infinityBits, Nat.pow_eq] at finite word_eq
  have bounded : word < 2 ^ 64 := by
    split at word_eq <;> omega
  have top : (UInt64.ofNat word).toNat / 2 ^ 52 % 2 ^ 11 ≠ 2047 := by
    rw [UInt64.toNat_ofNat_of_lt' bounded]
    split at word_eq <;> omega
  rw [Reading.ofFloat, toBits_ofBits top, UInt64.toNat_ofNat_of_lt' bounded, Reading.ofBits]
  rw [UInt64.toNat_ofNat_of_lt' bounded] at top
  simp only [Nat.pow_eq]
  have sign : (word / 2 ^ 63 % 2 == 1) = negative := by
    cases negative <;> simp at word_eq ⊢ <;> omega
  have rest : word % 2 ^ 63 = bits := by
    split at word_eq <;> omega
  rw [if_neg top, sign]
  split
  · congr 1 <;> omega
  · congr 1 <;> omega

/-- A whole number that is a mantissa times a power of two rounds to a float of its value. -/
theorem exists_nearestInt? {n : Int} (packed : Packed bits m e) (small : e ≤ 971)
    (value : ((n.natAbs : Nat) : ℚ) = m * 2 ^ e) :
    ∃ x, nearestInt? n = some x ∧ pointOf? x = some (.finite n) := by
  have rounds : nearestBits (n : ℚ).num.natAbs (n : ℚ).den = bits := by
    refine packed.nearestBits_eq (Rat.den_pos _) ?_
    simpa using value
  obtain ⟨x, rounded, read⟩ := exists_nearestSigned? packed small rounds (decide ((n : ℚ).num < 0))
  refine ⟨x, rounded, ?_⟩
  have signed : (if n < 0 then -((n.natAbs : Nat) : ℚ) else n.natAbs) = n := by
    split
    · rw [Nat.cast_natAbs, abs_of_neg (by assumption)]
      simp
    · rw [Nat.cast_natAbs, abs_of_nonneg (by omega)]
  rw [pointOf?, read, Reading.point?, scaled_eq, ← value, Rat.num_intCast]
  simp only [decide_eq_true_eq, signed]

/-- Rounding gives back a whole number that is the exact value of some float. -/
theorem nearestInt?_of_point {n : Int} (exactly : pointOf? y = some (.finite n)) :
    ∃ x, nearestInt? n = some x ∧ pointOf? x = some (.finite n) := by
  cases read : Reading.ofFloat y with
  | nan | infinite => simp [pointOf?, read, Reading.point?] at exactly
  | finite negative m e =>
      have value : (if negative then -scaled m e else scaled m e) = n := by
        simpa [pointOf?, read, Reading.point?] using exactly
      obtain ⟨packed, small, -⟩ := packed_of_ofBits read y.toBits.toNat_lt
      refine exists_nearestInt? packed small ?_
      have positive : 0 ≤ scaled m e := by
        rw [scaled_eq]
        positivity
      rw [← scaled_eq, Nat.cast_natAbs, Int.cast_abs, ← value]
      split
      · rw [abs_neg, abs_of_nonneg positive]
      · rw [abs_of_nonneg positive]

/-- A number of at most fifty-three bits is shifted until its leading bit is the fifty-third. -/
theorem exists_packed_of_lt {k : Nat} (pos : 0 < k) (small : k < 2 ^ 53) :
    ∃ m e, Packed ((e + 1074).toNat * 2 ^ 52 + m) m e ∧ e ≤ 971 ∧ (k : ℚ) = m * 2 ^ e := by
  have low := Nat.log2_self_le (n := k) (by omega)
  have high := Nat.lt_log2_self (n := k)
  have places : k.log2 ≤ 52 := by
    have := (Nat.log2_lt (by omega)).mpr small
    omega
  have whole : 2 ^ k.log2 * 2 ^ (52 - k.log2) = 2 ^ 52 := by
    rw [← pow_add]
    congr 1
    omega
  have fits : k * 2 ^ (52 - k.log2) < 2 ^ 53 := by
    calc k * 2 ^ (52 - k.log2) < 2 ^ (k.log2 + 1) * 2 ^ (52 - k.log2) := by gcongr
      _ = 2 * (2 ^ k.log2 * 2 ^ (52 - k.log2)) := by ring
      _ = 2 ^ 53 := by rw [whole]; norm_num
  have leading : 2 ^ 52 ≤ k * 2 ^ (52 - k.log2) := by
    rw [← whole]
    gcongr
  refine ⟨k * 2 ^ (52 - k.log2), -((52 - k.log2 : Nat) : Int),
    ⟨rfl, by omega, fits, .inl leading⟩, by omega, ?_⟩
  rw [zpow_neg, zpow_natCast]
  push_cast
  rw [mul_assoc, mul_inv_cancel₀ (by positivity), mul_one]

theorem exists_packed_of_le {k : Nat} (small : k ≤ 2 ^ 53) :
    ∃ m e, Packed ((e + 1074).toNat * 2 ^ 52 + m) m e ∧ e ≤ 971 ∧ (k : ℚ) = m * 2 ^ e := by
  rcases Nat.eq_zero_or_pos k with rfl | pos
  · exact ⟨0, -1074, ⟨rfl, by omega, by omega, .inr rfl⟩, by omega, by simp⟩
  · rcases Nat.lt_or_eq_of_le small with less | rfl
    · exact exists_packed_of_lt pos less
    · exact ⟨2 ^ 52, 1, ⟨rfl, by omega, by omega, .inl (by omega)⟩, by omega, by norm_num⟩

/-- Whole numbers of at most fifty-three bits are exact values of floats, and so is the next one. -/
theorem exists_point_of_le {n : Int} (small : n.natAbs ≤ 2 ^ 53) :
    ∃ x, pointOf? x = some (.finite n) := by
  obtain ⟨m, e, packed, bounded, value⟩ := exists_packed_of_le small
  obtain ⟨x, -, exactly⟩ := exists_nearestInt? packed bounded value
  exact ⟨x, exactly⟩

end Metta.Number
