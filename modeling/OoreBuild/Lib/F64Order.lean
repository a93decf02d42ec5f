import OoreBuild.Lib.F64

/-!
# The order of finite doubles

Comparisons of finite doubles are those of their values, and rounding a sum moves it by half a unit
in its last place at most (`not_lt_ofRat`).
-/

namespace F64

variable {a b : F64} {p q : ℚ}

theorem exists_of_isFinite (h : a.isFinite = true) : ∃ q, a = finite q := by
  cases a with
  | finite q => exact ⟨q, rfl⟩
  | infinite negative => cases h
  | nan => cases h

@[simp] theorem lt_finite : lt (finite p) (finite q) = decide (p < q) := rfl

@[simp] theorem eq_finite : eq (finite p) (finite q) = decide (p = q) := by
  simp [eq]

@[simp] theorem le_finite : le (finite p) (finite q) = decide (p ≤ q) := by
  rw [le, lt_finite, eq_finite, ← Bool.decide_or]
  exact decide_eq_decide.mpr le_iff_lt_or_eq.symm

theorem sub_self_of_isFinite (h : a.isFinite = true) : a.sub a = finite 0 := by
  obtain ⟨q, rfl⟩ := exists_of_isFinite h
  show ofRat (q + -q) = finite 0
  rw [add_neg_cancel]
  rfl

/-- Rounding to an integer loses a half at most. -/
theorem le_roundEven (q : ℚ) : q - 1 / 2 ≤ roundEven q := by
  have hlow : (⌊q⌋ : ℚ) ≤ q := Int.floor_le q
  have hhigh : q < ⌊q⌋ + 1 := Int.lt_floor_add_one q
  unfold roundEven
  dsimp only
  split_ifs <;> push_cast <;> linarith

theorem roundEven_le (q : ℚ) : (roundEven q : ℚ) ≤ q + 1 / 2 := by
  have hlow : (⌊q⌋ : ℚ) ≤ q := Int.floor_le q
  unfold roundEven
  dsimp only
  split_ifs <;> push_cast <;> linarith

/-- Away from the ends of the range, rounding moves a number by one part in `2 ^ 53` at most. -/
theorem ofRat_near (hlow : 1 / 2 ^ 200 ≤ q) (hhigh : q ≤ 2 ^ 200) :
    ∃ r, ofRat q = finite r ∧ |r - q| ≤ q / 2 ^ 53 := by
  have hpos : 0 < q := lt_of_lt_of_le (by positivity) hlow
  have hlog : -200 ≤ Int.log 2 q := by
    have hmono : Int.log 2 ((2 : ℚ) ^ (-200 : ℤ)) ≤ Int.log 2 q := by
      refine Int.log_mono_right (by positivity) ?_
      rw [zpow_neg, zpow_ofNat, ← one_div]
      exact hlow
    have hpow := Int.log_zpow (R := ℚ) (b := 2) (by norm_num) (-200)
    rw [Nat.cast_ofNat] at hpow
    rwa [hpow] at hmono
  unfold ofRat
  rw [if_neg hpos.ne', abs_of_pos hpos, max_eq_left (by omega)]
  set unit : ℚ := 2 ^ (Int.log 2 q - 52) with hunit
  have hunitPos : 0 < unit := by positivity
  have hunitLe : unit ≤ q / 2 ^ 52 := by
    have hself : (2 : ℚ) ^ Int.log 2 q ≤ q := by
      have := Int.zpow_log_le_self (b := 2) (r := q) (by norm_num) hpos
      exact_mod_cast this
    rw [hunit, zpow_sub₀ (by norm_num), zpow_ofNat]
    exact div_le_div_of_nonneg_right hself (by positivity)
  have herror : |(roundEven (q / unit) : ℚ) * unit - q| ≤ q / 2 ^ 53 := by
    have hhalf : |(roundEven (q / unit) : ℚ) - q / unit| ≤ 1 / 2 := by
      have h1 := le_roundEven (q / unit)
      have h2 := roundEven_le (q / unit)
      rw [abs_le]
      constructor <;> linarith
    calc |(roundEven (q / unit) : ℚ) * unit - q|
        = |((roundEven (q / unit) : ℚ) - q / unit) * unit| := by
          rw [sub_mul, div_mul_cancel₀ q hunitPos.ne']
      _ = |(roundEven (q / unit) : ℚ) - q / unit| * unit := by rw [abs_mul, abs_of_pos hunitPos]
      _ ≤ 1 / 2 * (q / 2 ^ 52) := mul_le_mul hhalf hunitLe hunitPos.le (by norm_num)
      _ = q / 2 ^ 53 := by ring
  refine ⟨roundEven (q / unit) * unit, if_pos ?_, herror⟩
  have hbound := abs_le.mp herror
  have hsmall : q / 2 ^ 53 ≤ q := div_le_self hpos.le (by norm_num)
  have htop : q + q < 2 ^ 1024 := by
    calc q + q ≤ 2 ^ 200 + 2 ^ 200 := add_le_add hhigh hhigh
      _ = 2 ^ 201 := by norm_num
      _ < 2 ^ 1024 := pow_lt_pow_right₀ (by norm_num) (by norm_num)
  generalize (2 : ℚ) ^ 1024 = top at htop ⊢
  rw [abs_lt]
  constructor <;> linarith

/-- A positive number of at most 2 is not rounded down by more than half a unit of its place. -/
theorem not_lt_ofRat (hpos : 0 < q) (hle : q ≤ 2) (hp : p ≤ q - 1 / 2 ^ 52) :
    (ofRat q).lt (finite p) = false := by
  unfold ofRat
  rw [if_neg hpos.ne']
  have hlog : Int.log 2 |q| ≤ 1 := by
    rw [abs_of_pos hpos]
    have hmono : Int.log 2 q ≤ Int.log 2 (2 : ℚ) := Int.log_mono_right hpos hle
    have htwo : Int.log 2 (2 : ℚ) = 1 := by
      have := Int.log_zpow (R := ℚ) (b := 2) (by norm_num) 1
      simpa using this
    omega
  set unit : ℚ := 2 ^ (Max.max (Int.log 2 |q|) (-1022) - 52) with hunit
  have hunitPos : 0 < unit := by positivity
  have hunitLe : unit ≤ 1 / 2 ^ 51 := by
    have hexp : Max.max (Int.log 2 |q|) (-1022) - 52 ≤ -51 := by omega
    calc unit ≤ (2 : ℚ) ^ (-51 : ℤ) := zpow_le_zpow_right₀ (by norm_num) hexp
      _ = 1 / 2 ^ 51 := by norm_num
  have hround := le_roundEven (q / unit)
  have hvalue : q - unit / 2 ≤ roundEven (q / unit) * unit := by
    have hmul := mul_le_mul_of_nonneg_right hround hunitPos.le
    rw [sub_mul, div_mul_cancel₀ q hunitPos.ne'] at hmul
    linarith
  dsimp only
  split_ifs
  · rw [lt_finite, decide_eq_false_iff_not, not_lt]
    have : unit / 2 ≤ 1 / 2 ^ 52 := by
      have hhalf : (1 : ℚ) / 2 ^ 51 / 2 = 1 / 2 ^ 52 := by norm_num
      linarith
    linarith
  · rw [decide_eq_false (not_lt.mpr hpos.le)]
    rfl

/-! ## Several roundings -/

/-- What rounding keeps of a number at least. -/
def kept : ℚ := 1 - 1 / 2 ^ 53

theorem kept_pos : 0 < kept := by unfold kept; norm_num

/-- `p` comes from `q` by at most `k` roundings. -/
def Within (k : ℕ) (p q : ℚ) : Prop := q * kept ^ k ≤ p ∧ p * kept ^ k ≤ q

theorem ofRat_within (hlow : 1 / 2 ^ 200 ≤ q) (hhigh : q ≤ 2 ^ 200) :
    ∃ r, ofRat q = finite r ∧ Within 1 r q := by
  obtain ⟨r, hr, herror⟩ := ofRat_near hlow hhigh
  have hpos : 0 < q := lt_of_lt_of_le (by positivity) hlow
  rw [abs_le] at herror
  refine ⟨r, hr, ?_, ?_⟩
  · rw [pow_one, kept]
    linarith
  · have hup : r ≤ q * (1 + 1 / 2 ^ 53) := by linarith
    calc r * kept ^ 1 ≤ q * (1 + 1 / 2 ^ 53) * kept := by
          rw [pow_one]
          exact mul_le_mul_of_nonneg_right hup kept_pos.le
      _ = q * (1 - 1 / 2 ^ 106) := by
          unfold kept
          ring
      _ ≤ q := mul_le_of_le_one_right hpos.le (by norm_num)

namespace Within

variable {k l : ℕ} {r s : ℚ}

theorem trans (h : Within k p q) (h' : Within l q r) : Within (k + l) p r := by
  obtain ⟨hlow, hhigh⟩ := h
  obtain ⟨hlow', hhigh'⟩ := h'
  have hk : 0 ≤ kept ^ k := (pow_pos kept_pos k).le
  have hl : 0 ≤ kept ^ l := (pow_pos kept_pos l).le
  constructor
  · calc r * kept ^ (k + l) = r * kept ^ l * kept ^ k := by ring
      _ ≤ q * kept ^ k := mul_le_mul_of_nonneg_right hlow' hk
      _ ≤ p := hlow
  · calc p * kept ^ (k + l) = p * kept ^ k * kept ^ l := by ring
      _ ≤ q * kept ^ l := mul_le_mul_of_nonneg_right hhigh hl
      _ ≤ r := hhigh'

theorem mul_right (h : Within k p q) (hr : 0 ≤ r) : Within k (p * r) (q * r) := by
  obtain ⟨hlow, hhigh⟩ := h
  constructor
  · calc q * r * kept ^ k = q * kept ^ k * r := by ring
      _ ≤ p * r := mul_le_mul_of_nonneg_right hlow hr
  · calc p * r * kept ^ k = p * kept ^ k * r := by ring
      _ ≤ q * r := mul_le_mul_of_nonneg_right hhigh hr

theorem pos (h : Within k p q) (hq : 0 < q) : 0 < p :=
  lt_of_lt_of_le (mul_pos hq (pow_pos kept_pos k)) h.1

theorem div (h : Within k p q) (h' : Within l r s) (hq : 0 < q) (hs : 0 < s) :
    Within (k + l) (p / r) (q / s) := by
  obtain ⟨hlow, hhigh⟩ := id h
  obtain ⟨hlow', hhigh'⟩ := id h'
  have hp := h.pos hq
  have hr := h'.pos hs
  have hk : 0 < kept ^ k := pow_pos kept_pos k
  have hl : 0 < kept ^ l := pow_pos kept_pos l
  constructor
  · rw [div_mul_eq_mul_div, div_le_div_iff₀ hs hr]
    calc q * kept ^ (k + l) * r = q * kept ^ k * (r * kept ^ l) := by ring
      _ ≤ p * s := mul_le_mul hlow hhigh' (mul_pos hr hl).le hp.le
  · rw [div_mul_eq_mul_div, div_le_div_iff₀ hr hs]
    calc p * kept ^ (k + l) * s = p * kept ^ k * (s * kept ^ l) := by ring
      _ ≤ q * r := mul_le_mul hhigh hlow' (mul_pos hs hl).le hq.le

/-- A few roundings keep a number within a factor of two. -/
theorem bounds (h : Within k p q) (hk : k ≤ 4) (hq : 0 < q) : q / 2 ≤ p ∧ p ≤ 2 * q := by
  obtain ⟨hlow, hhigh⟩ := id h
  have hkept : 1 / 2 ≤ kept ^ k := by
    have hle : kept ^ 4 ≤ kept ^ k :=
      pow_le_pow_of_le_one kept_pos.le (by unfold kept; norm_num) hk
    refine le_trans ?_ hle
    unfold kept
    norm_num
  have hlow' : q * (1 / 2) ≤ p := le_trans (mul_le_mul_of_nonneg_left hkept hq.le) hlow
  have hhigh' : p * (1 / 2) ≤ q :=
    le_trans (mul_le_mul_of_nonneg_left hkept (h.pos hq).le) hhigh
  constructor <;> linarith

/-- Four roundings move a number by one part in `2 ^ 50` at most. -/
theorem abs_sub_le (h : Within 4 p q) (hq : 0 < q) : |p - q| ≤ q / 2 ^ 50 := by
  obtain ⟨hlow, hhigh⟩ := id h
  have hkept : 1 - 1 / 2 ^ 51 ≤ kept ^ 4 := by
    unfold kept
    norm_num
  have hlow' : q * (1 - 1 / 2 ^ 51) ≤ p := le_trans (mul_le_mul_of_nonneg_left hkept hq.le) hlow
  have hhigh' : p * (1 - 1 / 2 ^ 51) ≤ q :=
    le_trans (mul_le_mul_of_nonneg_left hkept (h.pos hq).le) hhigh
  rw [abs_le]
  constructor <;> linarith

end Within

end F64
