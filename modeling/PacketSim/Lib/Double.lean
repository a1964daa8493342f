import Mathlib

/-!
# Lib — Double

The numbers of the binary64 format, and what adding does to them.  `rounded x` is the double nearest
to the rational `x`, the even one of two; its exponent is not bounded above.  `Double` has the
finite doubles, below `2 ^ 1024`, and the two infinities that a larger sum overflows to.  Zero has
no sign, and no operation here makes a NaN.

* `rounded_mono`, `rounded_rounded`: rounding is monotone and idempotent.
* `rounded_intCast`: an integer of at most 53 digits is a double.
* `rounded_add_of_lt`, `lt_rounded_add`: a double absorbs what is less than half a unit in its last
  place, and nothing that is more.
* `Double.plus`: a double and a rational, added.  It is monotone (`Double.plus_mono`), it does not
  decrease what a non-negative number is added to (`Double.le_plus`), and it is exact on integers
  within 53 digits (`Double.ofRat_plus`).
-/

namespace Lib

/-! ### The nearest integer -/

/-- The nearest integer, the even one of two. -/
def roundHalfEven (x : ℚ) : ℤ :=
  let rest := x - ⌊x⌋
  if rest < 1/2 then ⌊x⌋
  else if 1/2 < rest then ⌊x⌋ + 1
  else if ⌊x⌋ % 2 = 0 then ⌊x⌋ else ⌊x⌋ + 1

theorem roundHalfEven_cases (x : ℚ) : roundHalfEven x = ⌊x⌋ ∨ roundHalfEven x = ⌊x⌋ + 1 := by
  unfold roundHalfEven
  dsimp only
  split_ifs
  · exact .inl rfl
  · exact .inr rfl
  · exact .inl rfl
  · exact .inr rfl

theorem roundHalfEven_of_lt {x : ℚ} {n : ℤ} (h : (n : ℚ) ≤ x) (h' : x < n + 1/2) :
    roundHalfEven x = n := by
  have hn : ⌊x⌋ = n := Int.floor_eq_iff.mpr ⟨h, by linarith⟩
  unfold roundHalfEven
  dsimp only
  rw [hn, if_pos (by linarith)]

theorem roundHalfEven_of_gt {x : ℚ} {n : ℤ} (h : n + 1/2 < x) (h' : x < n + 1) :
    roundHalfEven x = n + 1 := by
  have hn : ⌊x⌋ = n := Int.floor_eq_iff.mpr ⟨by linarith, h'⟩
  unfold roundHalfEven
  dsimp only
  rw [hn, if_neg (by linarith), if_pos (by linarith)]

@[simp] theorem roundHalfEven_intCast (n : ℤ) : roundHalfEven n = n :=
  roundHalfEven_of_lt le_rfl (by linarith)

theorem roundHalfEven_mono : Monotone roundHalfEven := by
  intro x y h
  rcases (Int.floor_le_floor h).lt_or_eq with hlt | heq
  · -- an integer lies between the two
    rcases roundHalfEven_cases x with hx | hx <;> rcases roundHalfEven_cases y with hy | hy <;>
      omega
  · unfold roundHalfEven
    dsimp only
    rw [heq]
    have hrest : x - ⌊y⌋ ≤ y - ⌊y⌋ := by linarith
    split_ifs <;> first | omega | (exfalso; linarith)

theorem le_roundHalfEven {x : ℚ} {n : ℤ} (h : (n : ℚ) ≤ x) : n ≤ roundHalfEven x := by
  rw [← roundHalfEven_intCast n]
  exact roundHalfEven_mono h

theorem roundHalfEven_le {x : ℚ} {n : ℤ} (h : x ≤ n) : roundHalfEven x ≤ n := by
  rw [← roundHalfEven_intCast n]
  exact roundHalfEven_mono h

theorem roundHalfEven_neg (x : ℚ) : roundHalfEven (-x) = -roundHalfEven x := by
  by_cases hx : (⌊x⌋ : ℚ) = x
  · rw [← hx, ← Int.cast_neg, roundHalfEven_intCast, roundHalfEven_intCast]
  · have hlt : (⌊x⌋ : ℚ) < x := lt_of_le_of_ne (Int.floor_le x) hx
    have hup := Int.lt_floor_add_one x
    have hfloor : ⌊-x⌋ = -⌊x⌋ - 1 := Int.floor_eq_iff.mpr
      ⟨by push_cast; linarith, by push_cast; linarith⟩
    unfold roundHalfEven
    dsimp only
    rw [hfloor]
    push_cast
    split_ifs <;> first | omega | (exfalso; linarith)

/-! ### Rounding to the format -/

/-- `2 ^ e`. -/
def pow2 (e : ℤ) : ℚ :=
  if 0 ≤ e then ((2 ^ e.toNat : ℕ) : ℚ) else 1 / ((2 ^ (-e).toNat : ℕ) : ℚ)

theorem pow2_eq (e : ℤ) : pow2 e = 2 ^ e := by
  unfold pow2
  split_ifs with h
  · obtain ⟨n, rfl⟩ := Int.eq_ofNat_of_zero_le h
    simp
  · obtain ⟨n, hn⟩ := Int.eq_ofNat_of_zero_le (a := -e) (by omega)
    obtain rfl : e = -n := by omega
    simp

theorem pow2_pos (e : ℤ) : 0 < pow2 e := by
  rw [pow2_eq]
  exact zpow_pos two_pos e

theorem pow2_add (a b : ℤ) : pow2 (a + b) = pow2 a * pow2 b := by
  rw [pow2_eq, pow2_eq, pow2_eq, zpow_add₀ two_ne_zero]

theorem pow2_lt {a b : ℤ} : pow2 a < pow2 b ↔ a < b := by
  rw [pow2_eq, pow2_eq]
  exact zpow_lt_zpow_iff_right₀ one_lt_two

theorem pow2_le {a b : ℤ} : pow2 a ≤ pow2 b ↔ a ≤ b := by
  rw [pow2_eq, pow2_eq]
  exact zpow_le_zpow_iff_right₀ one_lt_two

/-- A power of two is a multiple of each smaller one. -/
theorem pow2_multiple {a b : ℤ} (h : a ≤ b) : ∃ n : ℕ, 0 < n ∧ pow2 b = n * pow2 a := by
  obtain ⟨k, hk⟩ := Int.eq_ofNat_of_zero_le (sub_nonneg.mpr h)
  obtain rfl : b = k + a := by omega
  refine ⟨2 ^ k, by positivity, ?_⟩
  rw [pow2_add, pow2_eq k, zpow_natCast]
  push_cast
  rfl

/-- The exponent of the leading digit. -/
def exponent (x : ℚ) : ℤ :=
  let k : ℤ := x.num.natAbs.log2 - x.den.log2
  if pow2 k ≤ |x| then k else k - 1

theorem exponent_spec {x : ℚ} (hx : x ≠ 0) :
    pow2 (exponent x) ≤ |x| ∧ |x| < pow2 (exponent x + 1) := by
  have hnum : x.num.natAbs ≠ 0 := by simpa using hx
  have habs : |x| = x.num.natAbs / x.den := by
    conv_lhs => rw [← Rat.num_div_den x]
    rw [abs_div, Nat.abs_cast, ← Int.cast_abs, Nat.cast_natAbs]
  have hden : (0 : ℚ) < x.den := by exact_mod_cast x.den_pos
  -- the quotient of two numbers is within a factor of two of that of their leading digits
  have hn₁ : (pow2 x.num.natAbs.log2 : ℚ) ≤ x.num.natAbs := by
    rw [pow2_eq]
    exact_mod_cast Nat.log2_self_le hnum
  have hn₂ : (x.num.natAbs : ℚ) < pow2 (x.num.natAbs.log2 + 1) := by
    rw [pow2_eq]
    exact_mod_cast Nat.lt_log2_self
  have hd₁ : pow2 x.den.log2 ≤ (x.den : ℚ) := by
    rw [pow2_eq]
    exact_mod_cast Nat.log2_self_le x.den_nz
  have hd₂ : (x.den : ℚ) < pow2 (x.den.log2 + 1) := by
    rw [pow2_eq]
    exact_mod_cast Nat.lt_log2_self
  have hlow : pow2 (x.num.natAbs.log2 - x.den.log2 - 1) ≤ |x| := by
    rw [habs, le_div_iff₀ hden]
    calc _ ≤ pow2 (x.num.natAbs.log2 - x.den.log2 - 1) * pow2 (x.den.log2 + 1) := by
          gcongr
          exact (pow2_pos _).le
      _ = pow2 x.num.natAbs.log2 := by
          rw [← pow2_add]
          congr 1
          ring
      _ ≤ _ := hn₁
  have hhigh : |x| < pow2 (x.num.natAbs.log2 - x.den.log2 + 1) := by
    rw [habs, div_lt_iff₀ hden]
    calc (x.num.natAbs : ℚ) < pow2 (x.num.natAbs.log2 + 1) := hn₂
      _ = pow2 (x.num.natAbs.log2 - x.den.log2 + 1) * pow2 x.den.log2 := by
          rw [← pow2_add]
          congr 1
          ring
      _ ≤ _ := by
          gcongr
          exact (pow2_pos _).le
  unfold exponent
  dsimp only
  split_ifs with h
  · exact ⟨h, hhigh⟩
  · refine ⟨hlow, ?_⟩
    rw [sub_add_cancel]
    exact not_le.mp h

/-- The exponent of the unit in the last place. -/
def ulp (x : ℚ) : ℤ := max (exponent x - 52) (-1074)

/-- The double nearest to `x`, with no bound on the exponent above. -/
def rounded (x : ℚ) : ℚ := roundHalfEven (x / pow2 (ulp x)) * pow2 (ulp x)

theorem exponent_mono {x y : ℚ} (hx : x ≠ 0) (h : |x| ≤ |y|) : exponent x ≤ exponent y := by
  have hy : y ≠ 0 := by
    rintro rfl
    exact hx (abs_eq_zero.mp (le_antisymm (h.trans abs_zero.le) (abs_nonneg x)))
  have := (exponent_spec hx).1.trans_lt (h.trans_lt (exponent_spec hy).2)
  rw [pow2_lt] at this
  omega

@[simp] theorem exponent_neg (x : ℚ) : exponent (-x) = exponent x := by
  simp [exponent]

theorem rounded_neg (x : ℚ) : rounded (-x) = -rounded x := by
  simp [rounded, ulp, neg_div, roundHalfEven_neg]

/-- Rounding does not pass a multiple of the unit in the last place. -/
theorem le_rounded {x : ℚ} {n : ℤ} (h : n * pow2 (ulp x) ≤ x) : n * pow2 (ulp x) ≤ rounded x := by
  have := le_roundHalfEven ((le_div_iff₀ (pow2_pos (ulp x))).mpr h)
  exact mul_le_mul_of_nonneg_right (by exact_mod_cast this) (pow2_pos _).le

theorem rounded_le {x : ℚ} {n : ℤ} (h : x ≤ n * pow2 (ulp x)) : rounded x ≤ n * pow2 (ulp x) := by
  have := roundHalfEven_le ((div_le_iff₀ (pow2_pos (ulp x))).mpr h)
  exact mul_le_mul_of_nonneg_right (by exact_mod_cast this) (pow2_pos _).le

theorem rounded_eq {x : ℚ} {n : ℤ} (h : x = n * pow2 (ulp x)) : rounded x = x := by
  have h' : x / pow2 (ulp x) = n := by
    rw [div_eq_iff (pow2_pos _).ne']
    exact h
  rw [rounded, h', roundHalfEven_intCast]
  exact h.symm

theorem rounded_nonneg {x : ℚ} (h : 0 ≤ x) : 0 ≤ rounded x := by
  simpa using le_rounded (x := x) (n := 0) (by simpa using h)

@[simp] theorem rounded_zero : rounded 0 = 0 := rounded_eq (n := 0) (by simp)

theorem rounded_mono_pos {x y : ℚ} (hx : 0 < x) (h : x ≤ y) : rounded x ≤ rounded y := by
  have hy : 0 < y := hx.trans_le h
  have hexp : exponent x ≤ exponent y :=
    exponent_mono hx.ne' (by rwa [abs_of_pos hx, abs_of_pos hy])
  by_cases hulp : ulp x = ulp y
  · rw [rounded, rounded, hulp]
    have := roundHalfEven_mono (div_le_div_of_nonneg_right h (pow2_pos (ulp y)).le)
    exact mul_le_mul_of_nonneg_right (by exact_mod_cast this) (pow2_pos _).le
  · -- the leading digit of `y` alone is on both grids, and lies between the two
    unfold ulp at hulp
    have hlt : exponent x < exponent y := lt_of_le_of_ne hexp fun h => hulp (by rw [h])
    have hxy : x ≤ pow2 (exponent y) := by
      have := (exponent_spec hx.ne').2
      rw [abs_of_pos hx] at this
      exact this.le.trans (pow2_le.mpr hlt)
    have hyy : pow2 (exponent y) ≤ y := by
      have := (exponent_spec hy.ne').1
      rwa [abs_of_pos hy] at this
    obtain ⟨n, -, hn⟩ := pow2_multiple (a := ulp x) (b := exponent y) (by unfold ulp; omega)
    obtain ⟨k, -, hk⟩ := pow2_multiple (a := ulp y) (b := exponent y) (by unfold ulp; omega)
    calc rounded x ≤ pow2 (exponent y) := by
          rw [hn] at hxy ⊢
          exact_mod_cast rounded_le (x := x) (n := n) (by exact_mod_cast hxy)
      _ ≤ rounded y := by
          rw [hk] at hyy ⊢
          exact_mod_cast le_rounded (x := y) (n := k) (by exact_mod_cast hyy)

/-- **Rounding is monotone.** -/
theorem rounded_mono : Monotone rounded := by
  intro x y h
  rcases lt_or_ge 0 x with hx | hx
  · exact rounded_mono_pos hx h
  · rcases lt_or_ge y 0 with hy | hy
    · have := rounded_mono_pos (neg_pos.mpr hy) (neg_le_neg h)
      rw [rounded_neg, rounded_neg] at this
      exact neg_le_neg_iff.mp this
    · have hx' := rounded_nonneg (neg_nonneg.mpr hx)
      rw [rounded_neg] at hx'
      exact (neg_nonneg.mp hx').trans (rounded_nonneg hy)

/-- A multiple of a power of two, of at most 53 digits, is a double. -/
theorem rounded_of_digits {n e : ℤ} (hn : |n| ≤ 2 ^ 53) (he : -1074 ≤ e) :
    rounded (n * pow2 e) = n * pow2 e := by
  by_cases hn0 : n = 0
  · simp [hn0]
  · have hx : (n : ℚ) * pow2 e ≠ 0 := mul_ne_zero (by exact_mod_cast hn0) (pow2_pos e).ne'
    have habs : |(n : ℚ) * pow2 e| = |n| * pow2 e := by
      rw [abs_mul, abs_of_pos (pow2_pos e), Int.cast_abs]
    have hle : |(n : ℚ) * pow2 e| ≤ pow2 (53 + e) := by
      rw [habs, pow2_add]
      refine mul_le_mul_of_nonneg_right ?_ (pow2_pos e).le
      rw [pow2_eq]
      exact_mod_cast hn
    have hexp : exponent ((n : ℚ) * pow2 e) ≤ 53 + e := by
      rw [← pow2_le]
      exact (exponent_spec hx).1.trans hle
    by_cases htop : exponent ((n : ℚ) * pow2 e) = 53 + e
    · -- only the power of two itself has 54 digits
      have heq : |(n : ℚ) * pow2 e| = pow2 (53 + e) :=
        le_antisymm hle (htop ▸ (exponent_spec hx).1)
      have hulp : ulp ((n : ℚ) * pow2 e) = e + 1 := by
        unfold ulp
        rw [htop]
        omega
      have hval : |n| = 2 ^ 53 := by
        rw [habs, pow2_add] at heq
        have := mul_right_cancel₀ (pow2_pos e).ne' heq
        rw [pow2_eq] at this
        exact_mod_cast this
      rcases abs_eq (by positivity) |>.mp hval with rfl | rfl
      · refine rounded_eq (n := 2 ^ 52) ?_
        rw [hulp, pow2_add, pow2_eq 1]
        push_cast
        ring
      · refine rounded_eq (n := -2 ^ 52) ?_
        rw [hulp, pow2_add, pow2_eq 1]
        push_cast
        ring
    · obtain ⟨k, -, hk⟩ := pow2_multiple (a := ulp ((n : ℚ) * pow2 e)) (b := e)
        (by unfold ulp; omega)
      refine rounded_eq (n := n * k) ?_
      rw [hk]
      push_cast
      rw [mul_assoc, ← hk]
      congr 1

/-- An integer of at most 53 digits is a double. -/
theorem rounded_intCast {n : ℤ} (h : |n| ≤ 2 ^ 53) : rounded n = n := by
  simpa [pow2_eq] using rounded_of_digits h (e := 0) (by norm_num)

theorem rounded_le_intCast {x : ℚ} {n : ℤ} (hn : |n| ≤ 2 ^ 53) (h : x ≤ n) : rounded x ≤ n :=
  (rounded_mono h).trans_eq (rounded_intCast hn)

theorem intCast_le_rounded {x : ℚ} {n : ℤ} (hn : |n| ≤ 2 ^ 53) (h : n ≤ x) : n ≤ rounded x :=
  (rounded_intCast hn).ge.trans (rounded_mono h)

theorem rounded_pow2 {e : ℤ} (he : -1074 ≤ e) : rounded (pow2 e) = pow2 e := by
  simpa using rounded_of_digits (n := 1) (by norm_num) he

theorem abs_lt_pow2_ulp (x : ℚ) : |x| < 2 ^ 53 * pow2 (ulp x) := by
  by_cases hx : x = 0
  · rw [hx, abs_zero]
    exact mul_pos (by norm_num) (pow2_pos _)
  · have h53 : (2 ^ 53 : ℚ) = pow2 53 := by rw [pow2_eq]; norm_num
    rw [h53, ← pow2_add]
    refine (exponent_spec hx).2.trans_le (pow2_le.mpr ?_)
    unfold ulp
    omega

/-- **Rounding gives a double.** -/
@[simp] theorem rounded_rounded (x : ℚ) : rounded (rounded x) = rounded x := by
  have h := abs_lt.mp (abs_lt_pow2_ulp x)
  have hlow : -2 ^ 53 ≤ roundHalfEven (x / pow2 (ulp x)) := by
    refine le_roundHalfEven ((le_div_iff₀ (pow2_pos _)).mpr ?_)
    push_cast
    linarith
  have hhigh : roundHalfEven (x / pow2 (ulp x)) ≤ 2 ^ 53 := by
    refine roundHalfEven_le ((div_le_iff₀ (pow2_pos _)).mpr ?_)
    push_cast
    linarith
  exact rounded_of_digits (abs_le.mpr ⟨hlow, hhigh⟩) (le_max_right _ _)

/-! ### What a double absorbs -/

section Absorb
variable {x y : ℚ}

/-- A double counts its units in the last place. -/
theorem exists_multiple (hr : rounded x = x) : ∃ n : ℤ, x = n * pow2 (ulp x) :=
  ⟨_, hr.symm⟩

/-- There is room for one more unit below the next power of two. -/
theorem add_ulp_le (hx : 0 < x) (hr : rounded x = x) :
    x + pow2 (ulp x) ≤ pow2 (exponent x + 1) := by
  obtain ⟨n, hn⟩ := exists_multiple hr
  have hlt : x < pow2 (exponent x + 1) := by
    have := (exponent_spec hx.ne').2
    rwa [abs_of_pos hx] at this
  have hn1 : 1 ≤ n := by
    by_contra h
    have : (n : ℚ) * pow2 (ulp x) ≤ 0 :=
      mul_nonpos_of_nonpos_of_nonneg (by exact_mod_cast (by omega : n ≤ 0)) (pow2_pos _).le
    linarith
  have hulp : ulp x ≤ exponent x + 1 := by
    have hle : pow2 (ulp x) ≤ x := by
      conv_rhs => rw [hn]
      exact le_mul_of_one_le_left (pow2_pos _).le (by exact_mod_cast hn1)
    exact (pow2_lt.mp (hle.trans_lt hlt)).le
  obtain ⟨k, -, hk⟩ := pow2_multiple hulp
  rw [hk] at hlt ⊢
  have hnk : n < (k : ℤ) := by
    have : (n : ℚ) * pow2 (ulp x) < k * pow2 (ulp x) := hn ▸ hlt
    exact_mod_cast (mul_lt_mul_iff_of_pos_right (pow2_pos _)).mp this
  calc x + pow2 (ulp x) = (n + 1) * pow2 (ulp x) := by rw [add_one_mul, ← hn]
    _ ≤ k * pow2 (ulp x) := by
        refine mul_le_mul_of_nonneg_right ?_ (pow2_pos _).le
        exact_mod_cast hnk

/-- Short of the next double, the leading digit stays where it is. -/
theorem ulp_add (hx : 0 < x) (hr : rounded x = x) (hy : 0 ≤ y) (hlt : y < pow2 (ulp x)) :
    ulp (x + y) = ulp x := by
  have hxy : 0 < x + y := by linarith
  have hle : exponent x ≤ exponent (x + y) :=
    exponent_mono hx.ne' (by rw [abs_of_pos hx, abs_of_pos hxy]; linarith)
  have hge : exponent (x + y) < exponent x + 1 := by
    have hspec := (exponent_spec hxy.ne').1
    rw [abs_of_pos hxy] at hspec
    rw [← pow2_lt]
    calc pow2 (exponent (x + y)) ≤ x + y := hspec
      _ < x + pow2 (ulp x) := by linarith
      _ ≤ _ := add_ulp_le hx hr
  unfold ulp
  omega

theorem add_div_ulp (hr : rounded x = x) :
    (x + y) / pow2 (ulp x) = roundHalfEven (x / pow2 (ulp x)) + y / pow2 (ulp x) := by
  rw [add_div]
  congr 1
  rw [div_eq_iff (pow2_pos _).ne']
  exact hr.symm

/-- **A double absorbs less than half a unit in its last place.** -/
theorem rounded_add_of_lt (hx : 0 < x) (hr : rounded x = x) (hy : 0 ≤ y)
    (hlt : y < pow2 (ulp x) / 2) : rounded (x + y) = x := by
  have hpos := pow2_pos (ulp x)
  rw [rounded, ulp_add hx hr hy (by linarith), add_div_ulp hr]
  have hfrac : y / pow2 (ulp x) < 1/2 := by
    rw [div_lt_iff₀ hpos]
    linarith
  rw [roundHalfEven_of_lt (n := roundHalfEven (x / pow2 (ulp x)))
    (le_add_of_nonneg_right (div_nonneg hy hpos.le)) (by linarith)]
  exact hr

/-- More than half a unit in the last place makes a difference. -/
theorem lt_rounded_add (hx : 0 < x) (hr : rounded x = x) (hlt : pow2 (ulp x) / 2 < y) :
    x < rounded (x + y) := by
  have hpos := pow2_pos (ulp x)
  -- less than a whole unit will do
  wlog hy : y < pow2 (ulp x) generalizing y
  · have hmin : pow2 (ulp x) / 2 < pow2 (ulp x) * (3/4) := by linarith
    exact (this hmin (by linarith)).trans_le (rounded_mono (by linarith))
  rw [rounded, ulp_add hx hr (by linarith) hy, add_div_ulp hr]
  have hfrac : 1/2 < y / pow2 (ulp x) := by
    rw [lt_div_iff₀ hpos]
    linarith
  have hfrac' : y / pow2 (ulp x) < 1 := by rwa [div_lt_one hpos]
  rw [roundHalfEven_of_gt (n := roundHalfEven (x / pow2 (ulp x))) (by linarith) (by linarith)]
  calc x = roundHalfEven (x / pow2 (ulp x)) * pow2 (ulp x) := hr.symm
    _ < _ := by
        refine mul_lt_mul_of_pos_right ?_ hpos
        push_cast
        linarith

theorem ulp_le {e : ℤ} (hx : 0 < x) (he : -1074 ≤ e) (h : x < pow2 (e + 53)) : ulp x ≤ e := by
  have hspec := (exponent_spec hx.ne').1
  rw [abs_of_pos hx] at hspec
  have := pow2_lt.mp (hspec.trans_lt h)
  unfold ulp
  omega

theorem le_ulp {e : ℤ} (hx : 0 < x) (h : pow2 (e + 52) ≤ x) : e ≤ ulp x := by
  have hspec := (exponent_spec hx.ne').2
  rw [abs_of_pos hx] at hspec
  have := pow2_lt.mp (h.trans_lt hspec)
  unfold ulp
  omega

/-- **A span between a quarter and a half of a power of two** makes a difference to the doubles
below that power's `2 ^ 53`-fold, and to no others. -/
theorem lt_rounded_add_iff {e : ℤ} (hx : 0 ≤ x) (hr : rounded x = x) (he : -1072 ≤ e)
    (hlow : pow2 e / 4 < y) (hhigh : y < pow2 e / 2) :
    x < rounded (x + y) ↔ x < pow2 (e + 52) := by
  have hy : 0 < y := (div_pos (pow2_pos e) (by norm_num)).trans hlow
  have hhalf : pow2 (e - 1) = pow2 e / 2 := by
    rw [pow2_eq, pow2_eq, zpow_sub_one₀ (by norm_num)]
    ring
  constructor
  · intro h
    by_contra hge
    have hge := not_lt.mp hge
    have hx : 0 < x := (pow2_pos _).trans_le hge
    have hulp := pow2_le.mpr (le_ulp hx hge)
    rw [rounded_add_of_lt hx hr hy.le (by linarith)] at h
    exact lt_irrefl _ h
  · intro h
    rcases hx.eq_or_lt with rfl | hx
    · rw [zero_add]
      calc (0 : ℚ) < pow2 (e - 2) := pow2_pos _
        _ = rounded (pow2 (e - 2)) := (rounded_pow2 (by omega)).symm
        _ ≤ rounded y := rounded_mono (by
            have : pow2 (e - 2) = pow2 e / 4 := by
              rw [pow2_eq, pow2_eq, zpow_sub₀ (by norm_num)]
              norm_num
            linarith)
    · refine lt_rounded_add hx hr ?_
      have hulp := pow2_le.mpr (ulp_le hx (e := e - 1) (by omega) (by
        rwa [show e - 1 + 53 = e + 52 by ring]))
      linarith

end Absorb

/-! ### Doubles -/

/-- The numbers of the format, less the NaNs. -/
inductive Double where
  | negInf
  | finite (x : ℚ) (exact : rounded x = x) (bounded : |x| < pow2 1024)
  | inf

namespace Double

/-- The value, in the rationals with both infinities. -/
def value : Double → WithBot (WithTop ℚ)
  | negInf => ⊥
  | finite x _ _ => (x : WithTop ℚ)
  | inf => (⊤ : WithTop ℚ)

theorem value_injective : Function.Injective value := by
  intro a b h
  cases a <;> cases b <;> simp_all [value]

instance : LinearOrder Double := .lift' value value_injective

theorem le_iff {a b : Double} : a ≤ b ↔ a.value ≤ b.value := Iff.rfl

@[simp] theorem finite_le {x y : ℚ} {hx hx' hy hy'} :
    finite x hx hx' ≤ finite y hy hy' ↔ x ≤ y := by
  simp [le_iff, value]

instance : OrderTop Double where
  top := inf
  le_top a := by cases a <;> simp [le_iff, value]

/-! ### Rounded sums -/

/-- The double nearest to `x`, or an infinity if `x` is too large for one. -/
def ofRat (x : ℚ) : Double :=
  if h : |rounded x| < pow2 1024 then .finite (rounded x) (rounded_rounded x) h
  else if 0 < x then inf
  else negInf

/-- A finite double is the double nearest to it. -/
theorem ofRat_eq {x : ℚ} (hx : rounded x = x) (hx' : |x| < pow2 1024) :
    ofRat x = finite x hx hx' := by
  unfold ofRat
  rw [dif_pos (by rwa [hx])]
  simp only [hx]

theorem ofRat_mono : Monotone ofRat := by
  intro x y h
  have hr := rounded_mono h
  unfold ofRat
  split_ifs with hx hy hy0 hx0 hy hy0 hy
  · exact finite_le.mpr hr
  · exact le_top
  · -- what overflows downwards is below every finite double
    have hneg : rounded y ≤ 0 := by
      have := rounded_nonneg (neg_nonneg.mpr (not_lt.mp hy0))
      rw [rounded_neg] at this
      linarith
    rw [not_lt, abs_of_nonpos hneg] at hy
    rw [abs_of_nonpos (hr.trans hneg)] at hx
    linarith
  · have hpos : 0 ≤ rounded x := rounded_nonneg hx0.le
    rw [not_lt, abs_of_nonneg hpos] at hx
    rw [abs_of_nonneg (hpos.trans hr)] at hy
    linarith
  · exact le_rfl
  · exact absurd (hx0.trans_le h) hy0
  · simp [le_iff, value]
  · simp [le_iff, value]
  · exact le_rfl

/-- A double and a number, added; an infinity stays as it is. -/
def plus (d : Double) (y : ℚ) : Double :=
  match d with
  | negInf => negInf
  | finite x _ _ => ofRat (x + y)
  | inf => inf

theorem plus_mono (y : ℚ) : Monotone (plus · y) := by
  intro a b h
  cases a with
  | negInf => simp [le_iff, value, plus]
  | inf =>
      obtain rfl : b = inf := top_le_iff.mp h
      exact le_rfl
  | finite x _ _ =>
      cases b with
      | negInf => simp [le_iff, value] at h
      | inf => exact le_top
      | finite z _ _ => exact ofRat_mono (add_le_add_left (finite_le.mp h) y)

/-- Adding what is not negative does not decrease. -/
theorem le_plus (d : Double) {y : ℚ} (hy : 0 ≤ y) : d ≤ d.plus y := by
  cases d with
  | negInf => exact le_rfl
  | inf => exact le_rfl
  | finite x hx hx' =>
      rw [← ofRat_eq hx hx']
      exact (ofRat_mono (le_add_of_nonneg_right hy)).trans_eq (by rw [ofRat_eq hx hx', plus])

theorem intCast_lt {n : ℤ} (hn : |n| ≤ 2 ^ 53) : |(n : ℚ)| < pow2 1024 := by
  have h53 : |(n : ℚ)| ≤ pow2 53 := by
    rw [pow2_eq]
    exact_mod_cast hn
  exact h53.trans_lt (pow2_lt.mpr (by norm_num))

theorem ofRat_ne_top {n : ℤ} (hn : |n| ≤ 2 ^ 53) : ofRat n ≠ ⊤ := by
  rw [ofRat_eq (rounded_intCast hn) (intCast_lt hn)]
  exact Double.noConfusion

/-- Within 53 digits integers stay apart. -/
theorem ofRat_lt {k n : ℤ} (hk : |k| ≤ 2 ^ 53) (hn : |n| ≤ 2 ^ 53) (h : k < n) :
    ofRat k < ofRat n := by
  rw [ofRat_eq (rounded_intCast hk) (intCast_lt hk), ofRat_eq (rounded_intCast hn) (intCast_lt hn),
    ← not_le, finite_le, not_le]
  exact_mod_cast h

/-- Within 53 digits sums of integers are exact. -/
theorem ofRat_plus {n : ℤ} (hn : |n| ≤ 2 ^ 53) (y : ℚ) : (ofRat n).plus y = ofRat (n + y) := by
  rw [ofRat_eq (rounded_intCast hn) (intCast_lt hn), plus]

end Double

end Lib
