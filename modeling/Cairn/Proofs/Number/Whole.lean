import Cairn.Number.Reader
import Cairn.Proofs.Number.Nearest

/-!
# Natural numbers as floating-point numbers

Where a float holds a natural number, sums and products of such floats hold the nearest number to the exact result, and
two floats that hold the same number are the same.
-/

namespace Cairn.Number

open Float.Model Float.Model.UnpackedFloat

/-! ## Shifting -/

/-- What is left of `n` after a shift, with two bits that tell how the rest compares to a half. -/
structure Shifted (em : ExtendedMantissa) (n shift : Nat) : Prop where
  mantissa : em.mantissa = n / 2 ^ shift
  round : em.roundBit = true ↔ 2 ^ shift ≤ 2 * (n % 2 ^ shift)
  sticky : em.stickyBit = true ↔ 2 * (n % 2 ^ shift) ≠ 0 ∧ 2 * (n % 2 ^ shift) ≠ 2 ^ shift

theorem Shifted.shiftRightOne {em : ExtendedMantissa} {n shift : Nat} (h : Shifted em n shift) :
    Shifted em.shiftRightOne n (shift + 1) := by
  have hunit : 2 ^ (shift + 1) = 2 * 2 ^ shift := by rw [pow_succ]; omega
  have hmod : n % 2 ^ (shift + 1) = n % 2 ^ shift + 2 ^ shift * (n / 2 ^ shift % 2) := by rw [pow_succ, Nat.mod_mul]
  have hlt : n % 2 ^ shift < 2 ^ shift := Nat.mod_lt _ (by positivity)
  refine ⟨?_, ?_, ?_⟩
  · simp only [ExtendedMantissa.shiftRightOne, h.mantissa, Nat.div_div_eq_div_mul, pow_succ]
  · simp only [ExtendedMantissa.shiftRightOne, h.mantissa, bne_iff_ne]
    rcases Nat.mod_two_eq_zero_or_one (n / 2 ^ shift) with hbit | hbit <;> rw [hbit] at hmod ⊢ <;> omega
  · simp only [ExtendedMantissa.shiftRightOne, Bool.or_eq_true, h.round, h.sticky]
    rcases Nat.mod_two_eq_zero_or_one (n / 2 ^ shift) with hbit | hbit <;> rw [hbit] at hmod <;> omega

theorem shifted_shiftRight (n shift : Nat) : Shifted ((ExtendedMantissa.mk n false false) >>> shift) n shift := by
  induction shift with
  | zero => exact ⟨by simp [HShiftRight.hShiftRight, Nat.repeat], by simp [HShiftRight.hShiftRight, Nat.repeat, Nat.mod_one],
      by simp [HShiftRight.hShiftRight, Nat.repeat, Nat.mod_one]⟩
  | succ shift ih => exact ih.shiftRightOne

theorem Shifted.roundedMantissa {em : ExtendedMantissa} {n shift : Nat} (h : Shifted em n shift) :
    em.roundedMantissa = roundShift n shift := by
  have hlt : n % 2 ^ shift < 2 ^ shift := Nat.mod_lt _ (by positivity)
  obtain ⟨m, round, sticky⟩ := em
  obtain ⟨rfl, hround, hsticky⟩ := h
  unfold roundShift
  cases round <;> cases sticky <;>
    simp only [ExtendedMantissa.roundedMantissa, ExtendedMantissa.accuracy, Accuracy.roundToNearestEven, Bool.false_eq_true,
      true_iff, false_iff] at hround hsticky ⊢ <;> split <;> (try split) <;> omega

/-! ## Rounding -/

/-- Numbers of more bits are too great for a float. -/
@[irreducible] def maxBits : Nat := 1024

/-- `u` is the number `n`, with a significand of fifty-three bits. -/
inductive Whole : UnpackedFloat → Nat → Prop where
  | zero : Whole (.zero .positive) 0
  | finite {m k n : Nat} (hpos : 0 < m) (hm : 2 ^ 52 ≤ m) (hm' : m < 2 ^ 53) (hk : k < maxBits)
      (h : m * 2 ^ k = n * 2 ^ 52) : Whole (.finite .positive m (k - 52) hpos) n

theorem shiftToTargetExponent_of_le {m : Nat} {e : Int} (hm : 2 ^ 52 ≤ m) (he : 0 ≤ m.log2 + e) :
    ∃ em, shiftToTargetExponent .binary64 m e .exact = (em, e + excess m) ∧ Shifted em m (excess m) := by
  have hlog := excess_of_le hm
  have htarget : Format.binary64.targetExponent (totalExponent m e) - e = excess m := by
    simp only [Format.targetExponent, totalExponent, Format.mantissaBits, Format.minExponent]
    omega
  refine ⟨_, ?_, shifted_shiftRight m (excess m)⟩
  simp only [shiftToTargetExponent, shiftToExponent, htarget, Int.toNat_natCast]
  rfl

/-- A number of fifty-three bits, or of fifty-four after a carry, loses nothing by another shift. -/
theorem div_two_pow_excess_mul {q : Nat} (hq : q ≤ 2 ^ 53) : q / 2 ^ excess q * 2 ^ excess q = q := by
  rcases Nat.lt_or_eq_of_le hq with hlt | rfl
  · rw [excess_of_lt hlt, pow_zero, Nat.div_one, Nat.mul_one]
  · have hexcess : excess (2 ^ 53) = 1 := by rw [excess, Nat.log2_two_pow]
    rw [hexcess]
    norm_num

theorem log2_scale {m k c n : Nat} (hpos : 0 < n) (h : m * 2 ^ k = n * 2 ^ c) : c ≤ m.log2 + k := by
  have hlow : 2 ^ c ≤ n * 2 ^ c := Nat.le_mul_of_pos_left _ hpos
  have hhigh : m * 2 ^ k < 2 ^ (m.log2 + 1 + k) := by
    rw [pow_add]
    exact Nat.mul_lt_mul_of_pos_right Nat.lt_log2_self (by positivity)
  have := (Nat.pow_lt_pow_iff_right (by decide)).mp (hlow.trans_lt (h ▸ hhigh))
  omega

theorem lt_maxBits {m k n : Nat} (hm : 2 ^ 52 ≤ m) (h : m * 2 ^ k = n * 2 ^ 52) (hfit : n < 2 ^ maxBits) :
    k < maxBits := by
  have hbound : 2 ^ 52 * 2 ^ k < 2 ^ 52 * 2 ^ maxBits := by
    calc 2 ^ 52 * 2 ^ k ≤ n * 2 ^ 52 := h ▸ Nat.mul_le_mul_right _ hm
      _ < 2 ^ 52 * 2 ^ maxBits := by rw [Nat.mul_comm]; exact Nat.mul_lt_mul_of_pos_left hfit (by positivity)
  exact (Nat.pow_lt_pow_iff_right (by decide)).mp (Nat.lt_of_mul_lt_mul_left hbound)

theorem whole_roundWithAccuracy {m k c n : Nat} (hm : 2 ^ 52 ≤ m) (h : m * 2 ^ k = n * 2 ^ c)
    (hfit : nearest n < 2 ^ maxBits) : Whole (roundWithAccuracy .binary64 .positive m (k - c) .exact) (nearest n) := by
  have hn : 0 < n := by
    have hpos : 0 < n * 2 ^ c := h ▸ by positivity
    exact Nat.pos_of_mul_pos_right hpos
  have hscale := log2_scale hn h
  have hlog := excess_of_le hm
  obtain ⟨em, hfirst, hem⟩ := shiftToTargetExponent_of_le (e := k - c) hm (by omega)
  obtain ⟨hq, hq'⟩ := roundShift_excess_bounds hm
  have hvalue : roundShift m (excess m) * 2 ^ (excess m + k) = nearest n * 2 ^ c := by
    rw [pow_add, ← Nat.mul_assoc, ← nearest, ← nearest_mul_two_pow, h, nearest_mul_two_pow]
  rw [← hem.roundedMantissa] at hq hq' hvalue
  generalize hrounded : em.roundedMantissa = q at hq hq' hvalue
  have hlog' := excess_of_le hq
  obtain ⟨em', hsecond, hem'⟩ := shiftToTargetExponent_of_le (e := k - c + excess m) hq (by omega)
  obtain ⟨hm₂, hm₂'⟩ := div_excess_bounds hq
  have hsame := div_two_pow_excess_mul hq'
  rw [← hem'.mantissa] at hm₂ hm₂' hsame
  have hpos : em'.mantissa ≠ 0 := by omega
  have hexp : (k - c + excess m + excess q : Int) = (excess q + excess m + k + 52 - c : Nat) - 52 := by omega
  simp only [roundWithAccuracy, hfirst, hrounded, hsecond, dif_neg hpos, hexp]
  have hunits : em'.mantissa * 2 ^ (excess q + excess m + k + 52 - c) = nearest n * 2 ^ 52 := by
    refine Nat.eq_of_mul_eq_mul_right (show 0 < 2 ^ c by positivity) ?_
    calc em'.mantissa * 2 ^ (excess q + excess m + k + 52 - c) * 2 ^ c
        = em'.mantissa * 2 ^ (excess q + (excess m + k) + 52) := by
          rw [Nat.mul_assoc, ← pow_add]; congr 2; omega
      _ = em'.mantissa * 2 ^ excess q * 2 ^ (excess m + k) * 2 ^ 52 := by rw [pow_add, pow_add]; ring
      _ = nearest n * 2 ^ 52 * 2 ^ c := by rw [hsame, hvalue]; ring
  exact .finite _ hm₂ hm₂' (lt_maxBits hm₂ hunits hfit) hunits

theorem whole_round {m k c n : Nat} (hpos : 0 < n) (h : m * 2 ^ k = n * 2 ^ c) (hfit : nearest n < 2 ^ maxBits) :
    Whole (UnpackedFloat.round .binary64 .positive m (k - c)) (nearest n) := by
  have hm : m ≠ 0 := by
    rintro rfl
    have : 0 < n * 2 ^ c := by positivity
    omega
  have hscale := log2_scale hpos h
  have hshift : ((k - c : Int) - Format.binary64.targetExponent (totalExponent m (k - c))).toNat = 52 - m.log2 := by
    simp only [Format.targetExponent, totalExponent, Format.mantissaBits, Format.minExponent]
    omega
  have hexp : (k - c - (52 - m.log2 : Nat) : Int) = k - (c + (52 - m.log2) : Nat) := by omega
  simp only [UnpackedFloat.round, decreaseExponent, hshift, Nat.shiftLeft_eq, hexp]
  refine whole_roundWithAccuracy ?_ ?_ hfit
  · have hlow : 2 ^ m.log2 ≤ m := Nat.log2_self_le hm
    calc 2 ^ 52 ≤ 2 ^ (m.log2 + (52 - m.log2)) := Nat.pow_le_pow_right (by decide) (by omega)
      _ = 2 ^ m.log2 * 2 ^ (52 - m.log2) := pow_add _ _ _
      _ ≤ m * 2 ^ (52 - m.log2) := Nat.mul_le_mul_right _ hlow
  · rw [Nat.mul_right_comm, h, pow_add, Nat.mul_assoc]

theorem whole_normalize {m k c n : Nat} (h : m * 2 ^ k = n * 2 ^ c) (hfit : nearest n < 2 ^ maxBits) :
    Whole (normalize .binary64 m (k - c) .positive) (nearest n) := by
  rcases Nat.eq_zero_or_pos n with rfl | hpos
  · have hm : m = 0 := by
      rw [Nat.zero_mul] at h
      exact (Nat.mul_eq_zero.mp h).resolve_right (by positivity)
    subst hm
    exact nearest_of_lt (n := 0) (by norm_num) ▸ .zero
  · have hm : 0 < m := by
      rcases Nat.eq_zero_or_pos m with rfl | hm
      · have : 0 < n * 2 ^ c := by positivity
        omega
      · exact hm
    have hcompare : compare (m : Int) 0 = .gt := by
      rw [compare_gt_iff_gt]
      omega
    unfold UnpackedFloat.normalize
    rw [hcompare]
    exact whole_round hpos h hfit

/-! ## Sums and products -/

theorem Whole.nearest_eq {u : UnpackedFloat} {n : Nat} (h : Whole u n) : nearest n = n := by
  cases h with
  | zero => exact nearest_of_lt (by norm_num)
  | @finite m k n _ hm hm' _ h =>
      refine Nat.eq_of_mul_eq_mul_right (show 0 < 2 ^ 52 by norm_num) ?_
      rw [← nearest_mul_two_pow, ← h, nearest_of_bits hm hm'.le]

theorem Whole.add {x y : UnpackedFloat} {a b : Nat} (hx : Whole x a) (hy : Whole y b)
    (hfit : nearest (a + b) < 2 ^ maxBits) : Whole (x.add .binary64 y) (nearest (a + b)) := by
  cases hx with
  | zero =>
      rw [Nat.zero_add, hy.nearest_eq]
      cases hy with
      | zero => exact .zero
      | finite hpos hm hm' hk h => exact .finite hpos hm hm' hk h
  | @finite m k a hpos hm hm' hk h =>
      cases hy with
      | zero =>
          have hx : Whole (.finite .positive m (k - 52) hpos) a := .finite hpos hm hm' hk h
          rw [Nat.add_zero, hx.nearest_eq]
          exact hx
      | @finite m' k' b hpos' hn hn' hk' h' =>
          have hmin : min (k - 52 : Int) (k' - 52) = (min k k' : Nat) - (52 : Nat) := by omega
          have hleft : (k - 52 - min (k - 52 : Int) (k' - 52)).toNat = k - min k k' := by omega
          have hright : (k' - 52 - min (k - 52 : Int) (k' - 52)).toNat = k' - min k k' := by omega
          have hsum : (m * 2 ^ (k - min k k') + m' * 2 ^ (k' - min k k')) * 2 ^ min k k' = (a + b) * 2 ^ 52 := by
            rw [Nat.add_mul, Nat.mul_assoc, Nat.mul_assoc, ← pow_add, ← pow_add, Nat.sub_add_cancel (min_le_left _ _),
              Nat.sub_add_cancel (min_le_right _ _), h, h', Nat.add_mul]
          simp only [UnpackedFloat.add, decreaseExponent, hleft, hright, Nat.shiftLeft_eq, Sign.apply, ← Nat.cast_add]
          rw [hmin]
          exact whole_normalize hsum hfit

theorem Whole.mul {x y : UnpackedFloat} {a b : Nat} (hx : Whole x a) (hy : Whole y b)
    (hfit : nearest (a * b) < 2 ^ maxBits) : Whole (x.mul .binary64 y) (nearest (a * b)) := by
  have hzero : nearest 0 = 0 := nearest_of_lt (by norm_num)
  cases hx with
  | zero =>
      rw [Nat.zero_mul, hzero]
      cases hy with
      | zero => exact .zero
      | finite hpos hm hm' hk h => exact .zero
  | @finite m k a hpos hm hm' hk h =>
      cases hy with
      | zero =>
          rw [Nat.mul_zero, hzero]
          exact .zero
      | @finite m' k' b hpos' hn hn' hk' h' =>
          have hexp : (k - 52 + (k' - 52) : Int) = (k + k' : Nat) - (104 : Nat) := by omega
          have hproduct : m * m' * 2 ^ (k + k') = a * b * 2 ^ 104 := by
            calc m * m' * 2 ^ (k + k') = m * 2 ^ k * (m' * 2 ^ k') := by rw [pow_add]; ring
              _ = a * b * 2 ^ 104 := by rw [h, h']; ring
          simp only [UnpackedFloat.mul]
          rw [hexp]
          exact whole_roundWithAccuracy (by nlinarith) hproduct hfit

/-! ## Packing -/

theorem unpackSign_packComponents (sign : Sign) (exponent : BitVec 11) (mantissa : BitVec 52) :
    unpackSign (packComponents .binary64 sign exponent mantissa) = sign.toBitVec := by
  refine BitVec.eq_of_getLsbD_eq fun i hi => ?_
  obtain rfl : i = 0 := by omega
  simp only [unpackSign, packComponents, BitVec.getLsbD_cast, BitVec.getLsbD_extractLsb]
  rw [BitVec.getLsbD_append, BitVec.getLsbD_append]
  simp

theorem ofBitVec_toBitVec (sign : Sign) : Sign.ofBitVec sign.toBitVec = sign := by
  cases sign <;> rfl

theorem Whole.unpack_pack {u : UnpackedFloat} {n : Nat} (h : Whole u n) : (Float.Model.pack u).unpack = u := by
  change UnpackedFloat.unpack .binary64 (UnpackedFloat.pack .binary64 u) = u
  cases h with
  | zero => rfl
  | @finite m k n hpos hm hm' hk h =>
      have hk' : k < 1024 := by rwa [maxBits] at hk
      have hbiased : (k - 52 + Format.binary64.exponentBias + (52 : Nat) : Int).toNat = k + 1023 := by
        simp only [Format.exponentBias]
        omega
      have hlog : m.log2 + 1 = Format.binary64.mantissaBits := by
        rw [(Nat.log2_eq_iff hpos.ne').mpr ⟨hm, hm'⟩]
        rfl
      have hexp : (BitVec.ofNat 11 (k + 1023)).toNat = k + 1023 := by
        rw [BitVec.toNat_ofNat, Nat.mod_eq_of_lt (by omega)]
      have hlow : BitVec.ofNat 11 (k + 1023) ≠ 0#11 := by
        intro heq
        have := congrArg BitVec.toNat heq
        rw [hexp] at this
        simp at this
      have hhigh : BitVec.ofNat 11 (k + 1023) ≠ -1#11 := by
        intro heq
        have := congrArg BitVec.toNat heq
        rw [hexp] at this
        simp at this
        omega
      have hmantissa : (1#1 ++ BitVec.ofNat 52 m).toNat = m := by
        rw [BitVec.toNat_append, ← Nat.shiftLeft_add_eq_or_of_lt (BitVec.isLt _), BitVec.toNat_ofNat, Nat.shiftLeft_eq]
        simp only [BitVec.toNat_ofNat]
        omega
      have hpack : UnpackedFloat.pack .binary64 (.finite .positive m (k - 52) hpos)
          = packComponents .binary64 .positive (BitVec.ofNat 11 (k + 1023)) (BitVec.ofNat 52 m) := by
        simp only [UnpackedFloat.pack, hbiased]
        rw [if_neg (by omega), if_pos hlog]
      rw [hpack]
      unfold UnpackedFloat.unpack
      simp only [unpackMantissa_packComponents, unpackExponent_packComponents, unpackSign_packComponents,
        ofBitVec_toBitVec, hlow, hhigh, if_false, hexp, hmantissa]
      have hexponent : ((k + 1023 : Nat) - (Format.binary64.exponentBias + (52 : Nat)) : Int) = k - 52 := by
        simp only [Format.exponentBias]
        omega
      simp only [hexponent]

/-! ## Floats -/

/-- The float `x` is the number `n`. -/
def IsWhole (x : Float) (n : Nat) : Prop := ∃ u, Whole u n ∧ x = .ofModel (.pack u)

variable {x y : Float} {a b n : Nat}

theorem IsWhole.unpack (h : IsWhole x n) : Whole x.toModel.unpack n := by
  obtain ⟨u, hu, rfl⟩ := h
  change Whole (Float.Model.pack u).unpack n
  rwa [hu.unpack_pack]

theorem Whole.eq {u u' : UnpackedFloat} (h : Whole u n) (h' : Whole u' n) : u = u' := by
  cases h with
  | zero =>
      cases h' with
      | zero => rfl
      | @finite m k _ hpos _ _ _ h =>
          have : 0 < m * 2 ^ k := by positivity
          omega
  | @finite m k _ hpos hm hm' _ h =>
      cases h' with
      | zero =>
          have : 0 < m * 2 ^ k := by positivity
          omega
      | @finite m' k' _ hpos' hn hn' _ h' =>
          have hlog : (m * 2 ^ k).log2 = (m' * 2 ^ k').log2 := by rw [h, h']
          rw [log2_mul_two_pow (by omega), log2_mul_two_pow (by omega), excess_of_le hm, excess_of_le hn,
            excess_of_lt hm', excess_of_lt hn'] at hlog
          obtain rfl : k = k' := by omega
          obtain rfl : m = m' := Nat.eq_of_mul_eq_mul_right (show 0 < 2 ^ k by positivity) (h.trans h'.symm)
          rfl

theorem Whole.nat_eq {u : UnpackedFloat} (h : Whole u a) (h' : Whole u b) : a = b := by
  cases h with
  | zero => cases h'; rfl
  | @finite m k _ hpos _ _ _ h =>
      generalize hu : UnpackedFloat.finite .positive m (k - 52) hpos = u at h'
      cases h' with
      | zero => cases hu
      | @finite m' k' _ _ _ _ _ h' =>
          injection hu with _ hm hexp
          obtain rfl : k = k' := by omega
          subst hm
          exact Nat.eq_of_mul_eq_mul_right (show 0 < 2 ^ 52 by norm_num) (h.symm.trans h')

/-- Floats are the same if they are the same number. -/
theorem IsWhole.eq_iff (hx : IsWhole x a) (hy : IsWhole y b) : x = y ↔ a = b := by
  constructor
  · rintro rfl
    exact hx.unpack.nat_eq hy.unpack
  · rintro rfl
    obtain ⟨u, hu, rfl⟩ := hx
    obtain ⟨u', hu', rfl⟩ := hy
    rw [hu.eq hu']

theorem IsWhole.add (hx : IsWhole x a) (hy : IsWhole y b) (hfit : nearest (a + b) < 2 ^ maxBits) :
    IsWhole (x + y) (nearest (a + b)) :=
  ⟨_, hx.unpack.add hy.unpack hfit, rfl⟩

theorem IsWhole.mul (hx : IsWhole x a) (hy : IsWhole y b) (hfit : nearest (a * b) < 2 ^ maxBits) :
    IsWhole (x * y) (nearest (a * b)) :=
  ⟨_, hx.unpack.mul hy.unpack hfit, rfl⟩

theorem isWhole_one : IsWhole (.ofBits 0x3FF0000000000000) 1 := by
  refine ⟨_, ?_, rfl⟩
  have hunpack : UnpackedFloat.unpack .binary64 (0x3FF0000000000000 : UInt64).toBitVec
      = .finite .positive (2 ^ 52) ((0 : Nat) - 52) (by norm_num) := by rfl
  rw [hunpack]
  exact .finite _ le_rfl (by norm_num) (by unfold maxBits; norm_num) (by norm_num)

theorem whole_ofScientific (hpos : n ≠ 0) (hfit : nearest n < 2 ^ maxBits) :
    Whole (UnpackedFloat.ofScientific .binary64 n 0) (nearest n) := by
  have hlarge : ¬(0 : Int) > 2 ^ Format.binary64.exponentBits := by norm_num
  have hsmall : ¬(0 : Int) < -((2 ^ Format.binary64.exponentBits : Int) + n.log2) := by
    simp only [not_lt]
    omega
  simp only [UnpackedFloat.ofScientific, dif_neg hpos, if_neg hlarge, if_neg hsmall, le_refl, if_true,
    UnpackedFloat.mul, Nat.shiftLeft_eq]
  have hround := whole_roundWithAccuracy (m := n * 2 ^ 53) (k := 0) (c := 53) (by omega) (by simp) hfit
  have hsign : Sign.positive * Sign.positive = Sign.positive := rfl
  simpa [Format.mantissaBits, hsign] using hround

theorem isWhole_ofNat (hfit : nearest n < 2 ^ maxBits) : IsWhole (Float.ofNat n) (nearest n) := by
  change IsWhole (Float.ofScientific n false 0) _
  unfold Float.ofScientific
  split
  next hsmall =>
    have htoNat : n.toUInt64.toNat = n := by
      rw [Nat.toUInt64_eq, UInt64.toNat_ofNat']
      omega
    have hfloat : IsWhole n.toUInt64.toFloat n := by
      refine ⟨_, ?_, rfl⟩
      have hwhole := whole_normalize (m := n) (k := 0) (c := 0) (n := n) rfl hfit
      rw [nearest_of_lt hsmall.1] at hwhole
      simp only [UnpackedFloat.ofUInt64, UnpackedFloat.ofNat, UnpackedFloat.ofInt, htoNat]
      exact hwhole
    have hproduct := hfloat.mul isWhole_one
    rw [Nat.mul_one] at hproduct
    exact hproduct hfit
  next hlarge =>
    have hpos : n ≠ 0 := by
      rintro rfl
      exact hlarge ⟨by norm_num, by norm_num⟩
    exact ⟨_, whole_ofScientific hpos hfit, rfl⟩

/-- Natural numbers of up to a hundred bits are not too great for a float. -/
theorem nearest_lt (h : n < 2 ^ 100) : nearest n < 2 ^ maxBits := by
  have hpow : 2 ^ 101 ≤ 2 ^ maxBits := Nat.pow_le_pow_right (by decide) (by unfold maxBits; norm_num)
  have hle := nearest_le n
  omega

theorem isWhole_ofNat_of_lt (h : n < 2 ^ 53) : IsWhole (Float.ofNat n) n := by
  have hfit := nearest_lt (n := n) (by omega)
  have hwhole := isWhole_ofNat hfit
  rwa [nearest_of_lt h] at hwhole

theorem isWhole_zero : IsWhole 0.0 0 := ⟨_, .zero, by rfl⟩

/-! ## Numbers that are not negative -/

/-- Zero, a positive number or infinity. -/
inductive Nonnegative : UnpackedFloat → Prop where
  | zero : Nonnegative (.zero .positive)
  | finite {m : Nat} {e : Int} (hpos : 0 < m) : Nonnegative (.finite .positive m e hpos)
  | infinity : Nonnegative (.infinity .positive)

theorem nonnegative_roundWithAccuracy (m : Nat) (e : Int) (accuracy : Accuracy) :
    Nonnegative (roundWithAccuracy .binary64 .positive m e accuracy) := by
  simp only [roundWithAccuracy]
  split
  · exact .zero
  · exact .finite _

theorem nonnegative_normalize (m : Nat) (e : Int) : Nonnegative (normalize .binary64 m e .positive) := by
  unfold UnpackedFloat.normalize
  split
  next h =>
    rw [compare_lt_iff_lt] at h
    omega
  next => exact .zero
  next => exact nonnegative_roundWithAccuracy _ _ _

theorem Nonnegative.add {x y : UnpackedFloat} (hx : Nonnegative x) (hy : Nonnegative y) :
    Nonnegative (x.add .binary64 y) := by
  cases hx with
  | zero => cases hy with
    | zero => exact .zero
    | finite hpos => exact .finite hpos
    | infinity => exact .infinity
  | finite hpos => cases hy with
    | zero => exact .finite hpos
    | finite hpos' =>
        simp only [UnpackedFloat.add, Sign.apply, ← Nat.cast_add]
        exact nonnegative_normalize _ _
    | infinity => exact .infinity
  | infinity => cases hy with
    | zero => exact .infinity
    | finite hpos => exact .infinity
    | infinity => exact .infinity

/-- The product with a number that is neither zero nor infinite. -/
theorem Nonnegative.mul {x : UnpackedFloat} {m : Nat} {e : Int} (hx : Nonnegative x) (hpos : 0 < m) :
    Nonnegative (x.mul .binary64 (.finite .positive m e hpos)) := by
  cases hx with
  | zero => exact .zero
  | finite hpos' => exact nonnegative_roundWithAccuracy _ _ _
  | infinity => exact .infinity

theorem nonnegative_unpack_packComponents {exponent : BitVec 11} (h : exponent ≠ -1#11) (mantissa : BitVec 52) :
    Nonnegative (UnpackedFloat.unpack .binary64 (packComponents .binary64 .positive exponent mantissa)) := by
  unfold UnpackedFloat.unpack
  simp only [unpackMantissa_packComponents, unpackExponent_packComponents, unpackSign_packComponents,
    ofBitVec_toBitVec, h, if_false]
  split
  · split
    · exact .zero
    · exact .finite _
  · exact .finite _

theorem Nonnegative.unpack_pack {u : UnpackedFloat} (h : Nonnegative u) : Nonnegative (Float.Model.pack u).unpack := by
  change Nonnegative (UnpackedFloat.unpack .binary64 (UnpackedFloat.pack .binary64 u))
  cases h with
  | zero => exact .zero
  | infinity => exact .infinity
  | @finite m e hpos =>
      unfold UnpackedFloat.pack
      dsimp only
      split
      · exact .infinity
      next hbiased =>
        split
        · refine nonnegative_unpack_packComponents (fun heq => ?_) _
          have hvalue := congrArg BitVec.toNat heq
          rw [BitVec.toNat_ofNat, Nat.mod_eq_of_lt (by omega)] at hvalue
          simp at hvalue
          omega
        · exact nonnegative_unpack_packComponents (by decide) _

theorem Nonnegative.float_add (hx : Nonnegative x.toModel.unpack) (hy : Nonnegative y.toModel.unpack) :
    Nonnegative (x + y).toModel.unpack :=
  (hx.add hy).unpack_pack

theorem Nonnegative.float_mul (hx : Nonnegative x.toModel.unpack) (hy : IsWhole y n) (hn : n ≠ 0) :
    Nonnegative (x * y).toModel.unpack := by
  have hproduct : Nonnegative (x.toModel.unpack.mul .binary64 y.toModel.unpack) := by
    have hunpack := hy.unpack
    generalize y.toModel.unpack = u at hunpack
    cases hunpack with
    | zero => exact absurd rfl hn
    | finite hpos => exact hx.mul hpos
  exact hproduct.unpack_pack

theorem Whole.nonnegative {u : UnpackedFloat} (h : Whole u n) : Nonnegative u := by
  cases h with
  | zero => exact .zero
  | finite hpos => exact .finite hpos

/-- A float of this kind is a number. -/
theorem ne_nan (h : Nonnegative x.toModel.unpack) : x ≠ nan := by
  rintro rfl
  have hnan : nan.toModel.unpack = .notANumber := by rfl
  rw [hnan] at h
  cases h

end Cairn.Number
