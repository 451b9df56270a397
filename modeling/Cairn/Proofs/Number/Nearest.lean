import Mathlib

/-!
# Rounding of natural numbers

A natural number is rounded to fifty-three bits, to the nearest and of two to the even one. Digits may be taken one by
one, with a rounding after each; what comes out is the nearest number again, unless a first part of the digits lies
halfway and what follows would have tipped the balance.
-/

namespace Cairn.Number

/-- The nearest integer to `n / 2 ^ shift`; the even one of two. -/
def roundShift (n shift : Nat) : Nat :=
  if 2 * (n % 2 ^ shift) < 2 ^ shift then n / 2 ^ shift
  else if 2 ^ shift < 2 * (n % 2 ^ shift) then n / 2 ^ shift + 1
  else n / 2 ^ shift + n / 2 ^ shift % 2

/-- How many bits `n` has beyond fifty-three. -/
def excess (n : Nat) : Nat := n.log2 - 52

/-- The nearest number of fifty-three bits and zeros behind them. -/
def nearest (n : Nat) : Nat := roundShift n (excess n) * 2 ^ excess n

/-! ## Division by powers of two -/

variable {n q r shift : Nat}

theorem mul_two_pow_add_div (h : r < 2 ^ shift) : (q * 2 ^ shift + r) / 2 ^ shift = q := by
  rw [Nat.mul_comm, Nat.mul_add_div (by positivity), Nat.div_eq_of_lt h, Nat.add_zero]

theorem mul_two_pow_add_mod (h : r < 2 ^ shift) : (q * 2 ^ shift + r) % 2 ^ shift = r := by
  rw [Nat.mul_comm, Nat.mul_add_mod, Nat.mod_eq_of_lt h]

theorem mul_two_pow_add_lt {b : Nat} (h : r < 2 ^ shift) (hq : q < b) : q * 2 ^ shift + r < b * 2 ^ shift := by
  calc q * 2 ^ shift + r < (q + 1) * 2 ^ shift := by rw [Nat.add_mul]; omega
    _ ≤ b * 2 ^ shift := Nat.mul_le_mul_right _ hq

theorem roundShift_add (h : r < 2 ^ shift) :
    roundShift (q * 2 ^ shift + r) shift =
      if 2 * r < 2 ^ shift then q else if 2 ^ shift < 2 * r then q + 1 else q + q % 2 := by
  rw [roundShift, mul_two_pow_add_div h, mul_two_pow_add_mod h]

theorem roundShift_of_lt_half (h : 2 * r < 2 ^ shift) : roundShift (q * 2 ^ shift + r) shift = q := by
  rw [roundShift_add (by omega), if_pos h]

theorem roundShift_zero (n : Nat) : roundShift n 0 = n := by
  simp [roundShift, Nat.mod_one]

/-- Zeros behind a number do not matter. -/
theorem roundShift_mul_two_pow (n shift k : Nat) : roundShift (n * 2 ^ k) (shift + k) = roundShift n shift := by
  have hpos : 0 < 2 ^ k := by positivity
  have hmod : 2 * (n % 2 ^ shift * 2 ^ k) = 2 * (n % 2 ^ shift) * 2 ^ k := (Nat.mul_assoc _ _ _).symm
  have hdown : 2 * (n % 2 ^ shift) * 2 ^ k < 2 ^ shift * 2 ^ k ↔ 2 * (n % 2 ^ shift) < 2 ^ shift :=
    Nat.mul_lt_mul_right hpos
  have hup : 2 ^ shift * 2 ^ k < 2 * (n % 2 ^ shift) * 2 ^ k ↔ 2 ^ shift < 2 * (n % 2 ^ shift) :=
    Nat.mul_lt_mul_right hpos
  unfold roundShift
  rw [pow_add, Nat.mul_div_mul_right _ _ hpos, Nat.mul_mod_mul_right, hmod]
  simp only [hdown, hup]

theorem log2_mul_two_pow_add (hq : q ≠ 0) (h : r < 2 ^ shift) : (q * 2 ^ shift + r).log2 = q.log2 + shift := by
  have hne : q * 2 ^ shift + r ≠ 0 := by positivity
  have hlow : 2 ^ q.log2 ≤ q := Nat.log2_self_le hq
  have hhigh : q < 2 ^ (q.log2 + 1) := Nat.lt_log2_self
  rw [Nat.log2_eq_iff hne]
  constructor
  · calc 2 ^ (q.log2 + shift) = 2 ^ q.log2 * 2 ^ shift := pow_add _ _ _
      _ ≤ q * 2 ^ shift := Nat.mul_le_mul_right _ hlow
      _ ≤ q * 2 ^ shift + r := Nat.le_add_right _ _
  · calc q * 2 ^ shift + r < 2 ^ (q.log2 + 1) * 2 ^ shift := mul_two_pow_add_lt h hhigh
      _ = 2 ^ (q.log2 + shift + 1) := by rw [← pow_add]; congr 1; omega

theorem log2_mul_two_pow (hq : q ≠ 0) (k : Nat) : (q * 2 ^ k).log2 = q.log2 + k :=
  log2_mul_two_pow_add hq (r := 0) (by positivity)

/-! ## The nearest number -/

theorem excess_of_le (h : 2 ^ 52 ≤ n) : n.log2 = excess n + 52 := by
  have := (Nat.le_log2 (by omega)).mpr h
  simp only [excess]
  omega

/-- The bits that are kept. -/
theorem div_excess_bounds (h : 2 ^ 52 ≤ n) : 2 ^ 52 ≤ n / 2 ^ excess n ∧ n / 2 ^ excess n < 2 ^ 53 := by
  have hlog := excess_of_le h
  have hlow : 2 ^ n.log2 ≤ n := Nat.log2_self_le (by omega)
  have hhigh : n < 2 ^ (n.log2 + 1) := Nat.lt_log2_self
  rw [hlog] at hlow hhigh
  constructor
  · rw [Nat.le_div_iff_mul_le (by positivity), ← pow_add, Nat.add_comm]
    exact hlow
  · rw [Nat.div_lt_iff_lt_mul (by positivity), ← pow_add, show 53 + excess n = excess n + 52 + 1 by omega]
    exact hhigh

theorem roundShift_bounds (n shift : Nat) :
    n / 2 ^ shift ≤ roundShift n shift ∧ roundShift n shift ≤ n / 2 ^ shift + 1 := by
  unfold roundShift
  split
  · omega
  split <;> omega

theorem roundShift_excess_bounds (h : 2 ^ 52 ≤ n) :
    2 ^ 52 ≤ roundShift n (excess n) ∧ roundShift n (excess n) ≤ 2 ^ 53 := by
  have := div_excess_bounds h
  have := roundShift_bounds n (excess n)
  omega

theorem excess_mul_two_pow_add (hq : 2 ^ 52 ≤ q) (h : r < 2 ^ shift) :
    excess (q * 2 ^ shift + r) = excess q + shift := by
  have hlog := excess_of_le hq
  rw [excess, log2_mul_two_pow_add (by omega) h]
  omega

theorem excess_of_lt (h : n < 2 ^ 53) : excess n = 0 := by
  by_cases hn : n = 0
  · simp [excess, hn]
  · have := (Nat.log2_lt hn).mpr h
    simp only [excess]
    omega

theorem nearest_of_lt (h : n < 2 ^ 53) : nearest n = n := by
  rw [nearest, excess_of_lt h, roundShift_zero, pow_zero, Nat.mul_one]

/-- Less than half a unit behind a number of fifty-three bits is rounded off. -/
theorem nearest_add_of_lt_half (hq : 2 ^ 52 ≤ q) (hq' : q ≤ 2 ^ 53) (h : 2 * r < 2 ^ shift) :
    nearest (q * 2 ^ shift + r) = q * 2 ^ shift := by
  rcases Nat.lt_or_eq_of_le hq' with hlt | rfl
  · rw [nearest, excess_mul_two_pow_add hq (by omega), excess_of_lt hlt, Nat.zero_add, roundShift_of_lt_half h]
  · have hcarry : 2 ^ 53 * 2 ^ shift = 2 ^ 52 * 2 ^ (shift + 1) := by rw [pow_succ]; omega
    have hr : 2 * r < 2 ^ (shift + 1) := by rw [pow_succ]; omega
    rw [hcarry, nearest, excess_mul_two_pow_add le_rfl (by omega), excess_of_lt (by norm_num), Nat.zero_add,
      roundShift_of_lt_half hr]

theorem nearest_of_bits (hq : 2 ^ 52 ≤ q) (hq' : q ≤ 2 ^ 53) (shift : Nat) :
    nearest (q * 2 ^ shift) = q * 2 ^ shift :=
  nearest_add_of_lt_half hq hq' (r := 0) (by positivity)

/-- What is nearest is a number of fifty-three bits, with zeros behind them. -/
theorem nearest_shape (h : 2 ^ 52 ≤ n) :
    ∃ q, 2 ^ 52 ≤ q ∧ q ≤ 2 ^ 53 ∧ nearest n = q * 2 ^ excess n :=
  ⟨roundShift n (excess n), (roundShift_excess_bounds h).1, (roundShift_excess_bounds h).2, rfl⟩

theorem nearest_mul_two_pow (n k : Nat) : nearest (n * 2 ^ k) = nearest n * 2 ^ k := by
  by_cases h : 2 ^ 52 ≤ n
  · have hexcess : excess (n * 2 ^ k) = excess n + k := excess_mul_two_pow_add h (r := 0) (by positivity)
    rw [nearest, hexcess, roundShift_mul_two_pow, pow_add, ← Nat.mul_assoc, ← nearest]
  rw [nearest_of_lt (n := n) (by omega)]
  by_cases hsmall : n * 2 ^ k < 2 ^ 53
  · exact nearest_of_lt hsmall
  -- The zeros fill the number up to fifty-three bits, and some of them may be left.
  have hn : n ≠ 0 := by rintro rfl; simp at hsmall
  have hexcess := excess_of_le (n := n * 2 ^ k) (by omega)
  have hbounds := div_excess_bounds (n := n * 2 ^ k) (by omega)
  have hlog := (Nat.log2_lt hn).mpr (show n < 2 ^ 52 by omega)
  rw [log2_mul_two_pow hn] at hexcess
  generalize excess (n * 2 ^ k) = e at hexcess hbounds
  obtain ⟨d, rfl⟩ : ∃ d, k = d + e := ⟨k - e, by omega⟩
  rw [pow_add, ← Nat.mul_assoc] at hbounds ⊢
  rw [Nat.mul_div_cancel _ (by positivity)] at hbounds
  exact nearest_of_bits hbounds.1 (by omega) e

theorem nearest_le (n : Nat) : nearest n ≤ 2 * n := by
  by_cases h : n < 2 ^ 53
  · rw [nearest_of_lt h]
    omega
  · have hbounds := div_excess_bounds (n := n) (by omega)
    have hround := (roundShift_bounds n (excess n)).2
    calc nearest n ≤ 2 * (n / 2 ^ excess n) * 2 ^ excess n := Nat.mul_le_mul_right _ (by omega)
      _ = 2 * (n / 2 ^ excess n * 2 ^ excess n) := Nat.mul_assoc _ _ _
      _ ≤ 2 * n := Nat.mul_le_mul_left _ (Nat.div_mul_le_self _ _)

/-! ## Numbers halfway -/

/-- `n` lies halfway between two neighbours of fifty-three bits, and the even one is below. -/
def Halfway (n : Nat) : Prop :=
  ∃ q k, 2 ^ 52 ≤ q ∧ q < 2 ^ 53 ∧ q % 2 = 0 ∧ n = (2 * q + 1) * 2 ^ k

theorem Halfway.lt (h : Halfway n) : 2 ^ 53 < n := by
  obtain ⟨q, k, hq, -, -, rfl⟩ := h
  have hpos : 0 < 2 ^ k := by positivity
  calc 2 ^ 53 < 2 * q + 1 := by omega
    _ ≤ (2 * q + 1) * 2 ^ k := Nat.le_mul_of_pos_right _ hpos

/-- What follows a first part is all zeros if the whole is halfway. -/
theorem Halfway.of_append (h : Halfway (n * 2 ^ shift + r)) (hn : 2 ^ 53 ≤ n) (hr : r < 2 ^ shift) :
    Halfway n ∧ r = 0 := by
  obtain ⟨q, k, hq, hq', heven, heq⟩ := h
  have hle : shift ≤ k := by
    have hlow : 2 ^ (53 + shift) ≤ n * 2 ^ shift + r := by
      rw [pow_add]
      exact Nat.le_add_right_of_le (Nat.mul_le_mul_right _ hn)
    have hhigh : (2 * q + 1) * 2 ^ k < 2 ^ (54 + k) := by
      rw [pow_add]
      exact Nat.mul_lt_mul_of_pos_right (by omega) (by positivity)
    have := (Nat.pow_lt_pow_iff_right (by decide)).mp (hlow.trans_lt (heq ▸ hhigh))
    omega
  obtain ⟨d, rfl⟩ : ∃ d, k = d + shift := ⟨k - shift, by omega⟩
  rw [pow_add, ← Nat.mul_assoc] at heq
  have hmod := congrArg (· % 2 ^ shift) heq
  have hdiv := congrArg (· / 2 ^ shift) heq
  simp only [mul_two_pow_add_mod hr, Nat.mul_mod_left] at hmod
  simp only [mul_two_pow_add_div hr, Nat.mul_div_cancel _ (show 0 < 2 ^ shift by positivity)] at hdiv
  exact ⟨⟨q, d, hq, hq', heven, hdiv⟩, hmod⟩

theorem exists_excess (hn : 2 ^ 53 ≤ n) : ∃ e, excess n = e + 1 := by
  have hlog := (Nat.le_log2 (by omega)).mpr hn
  exact ⟨n.log2 - 53, by simp only [excess]; omega⟩

theorem halfway_iff (hn : 2 ^ 53 ≤ n) :
    Halfway n ↔ 2 * (n % 2 ^ excess n) = 2 ^ excess n ∧ n / 2 ^ excess n % 2 = 0 := by
  constructor
  · rintro ⟨q, k, hq, hq', heven, rfl⟩
    have hhalf : 2 ^ k < 2 ^ (k + 1) := Nat.pow_lt_pow_right (by decide) (by omega)
    have hsum : (2 * q + 1) * 2 ^ k = q * 2 ^ (k + 1) + 2 ^ k := by ring
    rw [hsum, excess_mul_two_pow_add hq hhalf, excess_of_lt hq', Nat.zero_add, mul_two_pow_add_mod hhalf,
      mul_two_pow_add_div hhalf]
    exact ⟨by ring, heven⟩
  · rintro ⟨hhalf, heven⟩
    have hbounds := div_excess_bounds (n := n) (by omega)
    have hsum := Nat.div_add_mod' n (2 ^ excess n)
    obtain ⟨e, he⟩ := exists_excess hn
    rw [he] at hhalf heven hbounds hsum
    have hrest : n % 2 ^ (e + 1) = 2 ^ e := by rw [pow_succ] at hhalf ⊢; omega
    rw [hrest] at hsum
    generalize n / 2 ^ (e + 1) = q at hbounds heven hsum
    refine ⟨q, e, hbounds.1, hbounds.2, heven, ?_⟩
    rw [← hsum]
    ring

/-- Digits behind a number of more than fifty-three bits are rounded off with it, unless it is halfway. -/
theorem nearest_append_iff (hn : 2 ^ 53 ≤ n) (hr : r < 2 ^ shift) :
    nearest (n * 2 ^ shift + r) = nearest n * 2 ^ shift ↔ (Halfway n → r = 0) := by
  rw [halfway_iff hn, nearest, excess_mul_two_pow_add (by omega) hr, nearest, Nat.mul_assoc, ← pow_add,
    Nat.mul_left_inj (by positivity)]
  have hpos : 0 < 2 ^ shift := by positivity
  have hsum := Nat.div_add_mod' n (2 ^ excess n)
  have hlt : n % 2 ^ excess n < 2 ^ excess n := Nat.mod_lt _ (by positivity)
  obtain ⟨e, he⟩ := exists_excess hn
  rw [he] at hsum hlt ⊢
  generalize n / 2 ^ (e + 1) = q at hsum ⊢
  generalize n % 2 ^ (e + 1) = t at hsum hlt ⊢
  have hwhole : n * 2 ^ shift + r = q * 2 ^ (e + 1 + shift) + (t * 2 ^ shift + r) := by
    rw [← hsum, pow_add]
    ring
  have hwholelt : t * 2 ^ shift + r < 2 ^ (e + 1 + shift) := by
    rw [pow_add]
    exact mul_two_pow_add_lt hr hlt
  rw [hwhole, roundShift_add hwholelt, ← hsum, roundShift_add hlt]
  have hunit : 2 ^ (e + 1 + shift) = 2 * (2 ^ e * 2 ^ shift) := by rw [pow_add, pow_succ]; ring
  have hunit' : 2 ^ (e + 1) = 2 * 2 ^ e := by rw [pow_succ]; ring
  rw [hunit, hunit']
  rcases Nat.lt_trichotomy t (2 ^ e) with hbelow | rfl | habove
  · have hstill : t * 2 ^ shift + r < 2 ^ e * 2 ^ shift := mul_two_pow_add_lt hr hbelow
    rw [if_pos (by omega), if_pos (by omega)]
    exact ⟨fun _ h => absurd h.1 (by omega), fun _ => rfl⟩
  · rw [if_neg (by omega), if_neg (lt_irrefl _), if_neg (lt_irrefl _)]
    split <;> omega
  · have hstill : 2 ^ e * 2 ^ shift < t * 2 ^ shift + r := by
      have := Nat.mul_lt_mul_of_pos_right habove hpos
      omega
    rw [if_neg (by omega), if_pos (by omega), if_neg (by omega), if_pos (by omega)]
    exact ⟨fun _ h => absurd h.1 (by omega), fun _ => rfl⟩

/-! ## Digits -/

/-- The number that digits spell. -/
def digitsValue (radix : Nat) (digits : List Nat) : Nat :=
  digits.foldl (fun n d => n * radix + d) 0

/-- The number that digits spell, rounded after each of them. -/
def digitsRounded (radix : Nat) (digits : List Nat) : Nat :=
  digits.foldl (fun n d => nearest (n * radix + d)) 0

theorem digitsValue_append (radix : Nat) (digits : List Nat) (d : Nat) :
    digitsValue radix (digits ++ [d]) = digitsValue radix digits * radix + d := by
  simp [digitsValue]

theorem digitsRounded_append (radix : Nat) (digits : List Nat) (d : Nat) :
    digitsRounded radix (digits ++ [d]) = nearest (digitsRounded radix digits * radix + d) := by
  simp [digitsRounded]

/-- No first part of the digits of `n` is halfway with anything but zeros behind it. -/
def RoundsOnce (radix n : Nat) : Prop :=
  ∀ j, Halfway (n / radix ^ j) → n % radix ^ j = 0

/-- The digits so far: as long as they fit they are exact; then a first part was rounded, and the rest rounded off. -/
def Underway (w n rounded : Nat) : Prop :=
  n < 2 ^ 53 ∧ rounded = n ∨
    ∃ front j rest, 2 ^ 53 ≤ front ∧ front < 2 ^ (53 + w) ∧ n = front * 2 ^ (w * j) + rest ∧ rest < 2 ^ (w * j) ∧
      rounded = nearest front * 2 ^ (w * j)

theorem Underway.step {w n rounded d : Nat} (h : Underway w n rounded) (hd : d < 2 ^ w) :
    Underway w (n * 2 ^ w + d) (nearest (rounded * 2 ^ w + d)) := by
  obtain ⟨hn, rfl⟩ | ⟨front, j, rest, hfront, hfront', rfl, hrest, rfl⟩ := h
  · by_cases hfits : rounded * 2 ^ w + d < 2 ^ 53
    · exact .inl ⟨hfits, nearest_of_lt hfits⟩
    · refine .inr ⟨rounded * 2 ^ w + d, 0, 0, by omega, ?_, by simp, by simp, by simp⟩
      rw [pow_add]
      exact mul_two_pow_add_lt hd hn
  · have hpow : 2 ^ (w * (j + 1)) = 2 ^ (w * j) * 2 ^ w := by rw [Nat.mul_add, Nat.mul_one, pow_add]
    refine .inr ⟨front, j + 1, rest * 2 ^ w + d, hfront, hfront', by rw [hpow]; ring, ?_, ?_⟩
    · rw [hpow]
      exact mul_two_pow_add_lt hd hrest
    · obtain ⟨q, hq, hq', hnearest⟩ := nearest_shape (n := front) (by omega)
      obtain ⟨e, he⟩ := exists_excess hfront
      have hsum : nearest front * 2 ^ (w * j) * 2 ^ w = q * 2 ^ (e + 1 + w * (j + 1)) := by
        rw [hnearest, he, pow_add 2 (e + 1), hpow]
        ring
      have hhalf : 2 * d < 2 ^ (e + 1 + w * (j + 1)) := by
        calc 2 * d < 2 * 2 ^ w := by omega
          _ = 2 ^ (1 + w) := by rw [pow_add, pow_one]
          _ ≤ 2 ^ (e + 1 + w * (j + 1)) := Nat.pow_le_pow_right (by decide) (by rw [Nat.mul_add]; omega)
      rw [hsum, nearest_add_of_lt_half hq hq' hhalf, ← hsum, hpow, Nat.mul_assoc]

theorem underway_digits {w : Nat} {digits : List Nat} (h : ∀ d ∈ digits, d < 2 ^ w) :
    Underway w (digitsValue (2 ^ w) digits) (digitsRounded (2 ^ w) digits) := by
  induction digits using List.reverseRecOn with
  | nil => exact .inl ⟨by norm_num [digitsValue], rfl⟩
  | append_singleton digits d ih =>
      have hdigits := ih fun d hd => h d (List.mem_append_left _ hd)
      have hlast := h d (by simp)
      rw [digitsValue_append, digitsRounded_append]
      exact hdigits.step hlast

theorem Underway.le {w n rounded : Nat} (h : Underway w n rounded) : rounded ≤ 2 * n := by
  obtain ⟨-, rfl⟩ | ⟨front, j, rest, -, -, rfl, -, rfl⟩ := h
  · omega
  · calc nearest front * 2 ^ (w * j) ≤ 2 * front * 2 ^ (w * j) := Nat.mul_le_mul_right _ (nearest_le front)
      _ ≤ 2 * (front * 2 ^ (w * j) + rest) := by rw [Nat.mul_assoc]; omega

theorem roundsOnce_of_lt {radix : Nat} (hn : n < 2 ^ 53) : RoundsOnce radix n := by
  intro j hj
  have := hj.lt
  have := Nat.div_le_self n (radix ^ j)
  omega

/-- Only the first part that does not fit can be halfway, or else there are only zeros behind it. -/
theorem roundsOnce_iff {w front j rest : Nat} (hfront : 2 ^ 53 ≤ front) (hfront' : front < 2 ^ (53 + w))
    (hrest : rest < 2 ^ (w * j)) :
    RoundsOnce (2 ^ w) (front * 2 ^ (w * j) + rest) ↔ (Halfway front → rest = 0) := by
  simp only [RoundsOnce, ← pow_mul]
  constructor
  · intro h
    have hj := h j
    rwa [mul_two_pow_add_div hrest, mul_two_pow_add_mod hrest] at hj
  · intro h i hi
    rcases Nat.lt_or_ge j i with hlt | hle
    · -- A shorter part fits, and so is not halfway.
      obtain ⟨k, rfl⟩ := Nat.exists_eq_add_of_lt hlt
      have hpow : 2 ^ (w * (j + k + 1)) = 2 ^ (w * j) * 2 ^ (w + w * k) := by rw [← pow_add]; congr 1; ring
      have hfits : front / 2 ^ (w + w * k) < 2 ^ 53 := by
        rw [Nat.div_lt_iff_lt_mul (by positivity), ← pow_add]
        exact hfront'.trans_le (Nat.pow_le_pow_right (by decide) (by omega))
      rw [hpow, ← Nat.div_div_eq_div_mul, mul_two_pow_add_div hrest] at hi
      exact absurd hi.lt (by omega)
    · obtain ⟨k, rfl⟩ := Nat.exists_eq_add_of_le hle
      have hpow : 2 ^ (w * (i + k)) = 2 ^ (w * k) * 2 ^ (w * i) := by rw [← pow_add]; congr 1; ring
      have hpart : rest / 2 ^ (w * i) < 2 ^ (w * k) := by
        rw [Nat.div_lt_iff_lt_mul (by positivity), ← hpow]
        exact hrest
      have hmod : rest % 2 ^ (w * i) < 2 ^ (w * i) := Nat.mod_lt _ (by positivity)
      have hsum : front * 2 ^ (w * (i + k)) + rest
          = (front * 2 ^ (w * k) + rest / 2 ^ (w * i)) * 2 ^ (w * i) + rest % 2 ^ (w * i) := by
        rw [Nat.add_mul, Nat.add_assoc, Nat.div_add_mod', hpow, Nat.mul_assoc]
      rw [hsum, mul_two_pow_add_div hmod] at hi
      rw [hsum, mul_two_pow_add_mod hmod, h (hi.of_append hfront hpart).1, Nat.zero_mod]

theorem Underway.eq_nearest_iff {w n rounded : Nat} (h : Underway w n rounded) :
    rounded = nearest n ↔ RoundsOnce (2 ^ w) n := by
  obtain ⟨hn, rfl⟩ | ⟨front, j, rest, hfront, hfront', rfl, hrest, rfl⟩ := h
  · exact iff_of_true (nearest_of_lt hn).symm (roundsOnce_of_lt hn)
  · rw [roundsOnce_iff hfront hfront' hrest, eq_comm, nearest_append_iff hfront hrest]

/-- Digits rounded one by one give the nearest number exactly if it is rounded only once. -/
theorem digitsRounded_eq_nearest_iff {w : Nat} {digits : List Nat} (h : ∀ d ∈ digits, d < 2 ^ w) :
    digitsRounded (2 ^ w) digits = nearest (digitsValue (2 ^ w) digits) ↔
      RoundsOnce (2 ^ w) (digitsValue (2 ^ w) digits) :=
  (underway_digits h).eq_nearest_iff

end Cairn.Number
