import OverloadSuite.Decimal.Shortest
import Mathlib.Tactic.Ring

/-!
# Rounding to the nearest number

A quotient rounds to a representable magnitude if it lies between the midpoints around it. The
midpoints themselves count for an even mantissa. Below a power of two the neighbour is half as far
away, so this case stands apart.
-/

namespace OverloadSuite.Double

variable {units num den num' den' k : Nat}

/-! ## Representable magnitudes -/

/-- A multiple of its spacing. -/
def Representable (units : Nat) : Prop := spacing units ∣ units

theorem spacing_eq (units : Nat) : spacing units = 2 ^ (units.log2 - 52) := rfl

theorem spacing_pos (units : Nat) : 0 < spacing units := by
  rw [spacing_eq]
  exact Nat.two_pow_pos _

theorem mantissa_mul_spacing (h : Representable units) : mantissa units * spacing units = units :=
  Nat.div_mul_cancel h

/-- The next power of two is at least one spacing away. -/
theorem add_spacing_le (h : Representable units) :
    units + spacing units ≤ 2 ^ (units.log2 + 1) := by
  have hless : units < 2 ^ (units.log2 + 1) := Nat.lt_log2_self
  have hpower : spacing units ∣ 2 ^ (units.log2 + 1) := by
    rw [spacing_eq]
    exact Nat.pow_dvd_pow 2 (by omega)
  have hgap := Nat.le_of_dvd (by omega) (Nat.dvd_sub hpower h)
  omega

theorem spacing_of_log2 (h : units.log2 = k) : spacing units = 2 ^ (k - 52) := by
  rw [spacing_eq, h]

/-! ## Quotients -/

theorem roundHalfEven_eq (hden : 0 < den) (hlow : 2 * (k * den) ≤ 2 * num + den)
    (hhigh : 2 * num ≤ 2 * (k * den) + den)
    (htie : 2 * (k * den) = 2 * num + den ∨ 2 * num = 2 * (k * den) + den → k % 2 = 0) :
    roundHalfEven num den = k := by
  have hrest : num % den < den := Nat.mod_lt num hden
  have hnum : num / den * den + num % den = num := Nat.div_add_mod' num den
  unfold roundHalfEven
  dsimp only
  rcases Nat.lt_trichotomy k (num / den) with hless | rfl | hmore
  · have hstep : (k + 1) * den ≤ num / den * den := Nat.mul_le_mul_right den hless
    rw [Nat.add_mul] at hstep
    omega
  · by_cases heven : 2 * (num % den) = den
    · have hk := htie (.inr (by omega))
      rw [if_pos (.inr ⟨heven, hk⟩)]
    · rw [if_pos (.inl (by omega))]
  · obtain ⟨d, rfl⟩ := Nat.exists_eq_add_of_lt hmore
    have hexpand : (num / den + d + 1) * den = num / den * den + d * den + den := by ring
    rw [hexpand] at hlow hhigh htie
    -- a quotient two steps away is past the midpoint
    have hd : d = 0 := by
      by_contra hd
      have := Nat.le_mul_of_pos_left den (Nat.pos_of_ne_zero hd)
      omega
    subst hd
    rw [if_neg]
    rintro (hsmall | ⟨heven, hparity⟩)
    · omega
    · have hk := htie (.inl (by omega))
      omega

theorem roundHalfEven_mul (hk : 0 < k) (num den : Nat) :
    roundHalfEven (num * k) (den * k) = roundHalfEven num den := by
  have hless : 2 * (num % den * k) < den * k ↔ 2 * (num % den) < den := by
    rw [← Nat.mul_assoc]
    exact Nat.mul_lt_mul_right hk
  have heven : 2 * (num % den * k) = den * k ↔ 2 * (num % den) = den := by
    rw [← Nat.mul_assoc]
    exact Nat.mul_left_inj (by omega)
  simp only [roundHalfEven, Nat.mul_div_mul_right _ _ hk, Nat.mul_mod_mul_right, hless, heven]

theorem nearest_mul (hk : 0 < k) (num den : Nat) :
    nearest (num * k) (den * k) = nearest num den := by
  have hscale : den * k * spacing (num / den) = den * spacing (num / den) * k :=
    Nat.mul_right_comm ..
  rw [nearest, nearest, Nat.mul_div_mul_right _ _ hk, hscale, roundHalfEven_mul hk]

/-- Only the ratio matters. -/
theorem nearest_congr (hden : 0 < den) (hden' : 0 < den') (h : num * den' = num' * den) :
    nearest num den = nearest num' den' := by
  rw [← nearest_mul hden' num den, ← nearest_mul hden num' den', h, Nat.mul_comm den den']

/-! ## The interval around a magnitude -/

/-- What lies between a power of two and the next one keeps its spacing. -/
theorem spacing_div (hden : 0 < den) (hlow : 2 ^ k * den ≤ num) (hhigh : num < 2 ^ (k + 1) * den) :
    spacing (num / den) = 2 ^ (k - 52) := by
  have hle : 2 ^ k ≤ num / den := (Nat.le_div_iff_mul_le hden).mpr hlow
  have hlt : num / den < 2 ^ (k + 1) := (Nat.div_lt_iff_lt_mul hden).mpr hhigh
  have hne : num / den ≠ 0 := by
    have := Nat.two_pow_pos k
    omega
  exact spacing_of_log2 ((Nat.log2_eq_iff hne).mpr ⟨hle, hlt⟩)

/-- Up to the midpoint above a magnitude its spacing is kept. -/
theorem spacing_above (h : Representable units) (hden : 0 < den) (hle : units * den ≤ num)
    (hhigh : 2 * num ≤ 2 * (units * den) + den * spacing units) :
    spacing (num / den) = spacing units := by
  by_cases hzero : units = 0
  · subst hzero
    have hone : spacing 0 = 1 := rfl
    rw [hone] at hhigh
    have hquotient : num / den = 0 := Nat.div_eq_of_lt (by omega)
    rw [hquotient]
  · have hpower : 2 ^ units.log2 * den ≤ units * den :=
      Nat.mul_le_mul_right den (Nat.log2_self_le hzero)
    have hnext : (units + spacing units) * den ≤ 2 ^ (units.log2 + 1) * den :=
      Nat.mul_le_mul_right den (add_spacing_le h)
    have hgap : 0 < den * spacing units := Nat.mul_pos hden (spacing_pos units)
    rw [Nat.add_mul, Nat.mul_comm (spacing units)] at hnext
    exact spacing_div hden (by omega) (by omega)

/-- Down to the midpoint below a magnitude its spacing is kept, unless the magnitude is a power of
two whose neighbour below is nearer. -/
theorem spacing_below (h : Representable units) (hden : 0 < den) (hle : num ≤ units * den)
    (hlow : 2 * (units * den) ≤ 2 * num + den * spacing units)
    (hfar : mantissa units = 2 ^ 52 → exponent units = 0) :
    spacing (num / den) = spacing units := by
  by_cases hzero : units = 0
  · subst hzero
    obtain rfl : num = 0 := by omega
    rw [Nat.zero_div]
  have hself : 2 ^ units.log2 ≤ units := Nat.log2_self_le hzero
  by_cases hpower : units = 2 ^ units.log2
  · have hsmall : units.log2 ≤ 52 := by
      by_contra hlarge
      have hmantissa : mantissa units = 2 ^ 52 := by
        show units / 2 ^ (units.log2 - 52) = 2 ^ 52
        rw [hpower, Nat.log2_two_pow, Nat.pow_div (by omega) (by omega)]
        congr 1
        omega
      have := hfar hmantissa
      unfold exponent at this
      omega
    -- all spacings are one from here down
    have hquotient : num / den < 2 ^ 53 := by
      have hbelow : num / den ≤ units := Nat.div_le_of_le_mul (by rwa [Nat.mul_comm])
      have hless : units < 2 ^ (units.log2 + 1) := Nat.lt_log2_self
      have hbound : 2 ^ (units.log2 + 1) ≤ 2 ^ 53 := Nat.pow_le_pow_right (by omega) (by omega)
      omega
    have hlog : (num / den).log2 ≤ 52 := by
      by_cases hquotientZero : num / den = 0
      · rw [hquotientZero]
        decide
      · exact Nat.lt_succ_iff.mp ((Nat.log2_lt hquotientZero).mpr hquotient)
    rw [spacing_eq, spacing_eq, Nat.sub_eq_zero_of_le hlog, Nat.sub_eq_zero_of_le hsmall]
  · have hgap : 2 ^ units.log2 + spacing units ≤ units := by
      have hdvd : spacing units ∣ 2 ^ units.log2 := Nat.pow_dvd_pow 2 (by omega)
      have := Nat.le_of_dvd (by omega) (Nat.dvd_sub h hdvd)
      omega
    have hgap := Nat.mul_le_mul_right den hgap
    have hnext : units * den < 2 ^ (units.log2 + 1) * den :=
      Nat.mul_lt_mul_of_pos_right Nat.lt_log2_self hden
    rw [Nat.add_mul, Nat.mul_comm (spacing units)] at hgap
    exact spacing_div hden (by omega) (by omega)

/-- With the spacing of a magnitude, what lies between the midpoints around it rounds to it. -/
theorem nearest_of_spacing (h : Representable units) (hden : 0 < den)
    (hspacing : spacing (num / den) = spacing units)
    (hlow : 2 * (units * den) ≤ 2 * num + den * spacing units)
    (hhigh : 2 * num ≤ 2 * (units * den) + den * spacing units)
    (htie : 2 * (units * den) = 2 * num + den * spacing units ∨
      2 * num = 2 * (units * den) + den * spacing units → mantissa units % 2 = 0) :
    nearest num den = units := by
  have hunits : mantissa units * (den * spacing units) = units * den := by
    rw [Nat.mul_left_comm, mantissa_mul_spacing h, Nat.mul_comm]
  rw [← hunits] at hlow hhigh htie
  rw [nearest, hspacing, roundHalfEven_eq (Nat.mul_pos hden (spacing_pos units)) hlow hhigh htie,
    mantissa_mul_spacing h]

theorem nearest_of_above (h : Representable units) (hden : 0 < den) (hle : units * den ≤ num)
    (hhigh : 2 * num ≤ 2 * (units * den) + den * spacing units)
    (htie : 2 * num = 2 * (units * den) + den * spacing units → mantissa units % 2 = 0) :
    nearest num den = units := by
  have hgap : 0 < den * spacing units := Nat.mul_pos hden (spacing_pos units)
  refine nearest_of_spacing h hden (spacing_above h hden hle hhigh) (by omega) hhigh ?_
  intro hmidpoint
  exact htie (by omega)

theorem nearest_of_below (h : Representable units) (hden : 0 < den) (hle : num ≤ units * den)
    (hlow : 2 * (units * den) ≤ 2 * num + den * spacing units)
    (htie : 2 * (units * den) = 2 * num + den * spacing units → mantissa units % 2 = 0)
    (hfar : mantissa units = 2 ^ 52 → exponent units = 0) : nearest num den = units := by
  have hgap : 0 < den * spacing units := Nat.mul_pos hden (spacing_pos units)
  refine nearest_of_spacing h hden (spacing_below h hden hle hlow hfar) hlow (by omega) ?_
  intro hmidpoint
  exact htie (by omega)

/-- Below a power of two the midpoint is half as far away; it rounds to the power of two, whose
mantissa is even. -/
theorem nearest_of_below_power (h : Representable units) (hden : 0 < den) (hle : num ≤ units * den)
    (hlow : 4 * (units * den) ≤ 4 * num + den * spacing units)
    (hmantissa : mantissa units = 2 ^ 52) (hexponent : 0 < exponent units) :
    nearest num den = units := by
  rcases Nat.eq_or_lt_of_le hle with rfl | hless
  · have hgap : 0 < den * spacing units := Nat.mul_pos hden (spacing_pos units)
    exact nearest_of_above h hden (Nat.le_refl _) (by omega) (by omega)
  have hlog : units.log2 = units.log2 - 53 + 53 := by
    unfold exponent at hexponent
    omega
  generalize units.log2 - 53 = e at hlog
  have hspacing : spacing units = 2 * 2 ^ e := by
    rw [spacing_of_log2 hlog, ← Nat.pow_succ']
    rfl
  have hunits : units = 2 ^ 53 * 2 ^ e := by
    rw [← mantissa_mul_spacing h, hmantissa, hspacing]
    ring
  have hhalf : units * den = 2 ^ 53 * (den * 2 ^ e) := by
    rw [hunits]
    ring
  have hgap : den * spacing units = 2 * (den * 2 ^ e) := by
    rw [hspacing]
    ring
  rw [hhalf] at hless hlow
  rw [hgap] at hlow
  have hbelow : spacing (num / den) = 2 ^ e := by
    have hk : 2 ^ (e + 52) * den = 2 ^ 52 * (den * 2 ^ e) := by ring
    have hk' : 2 ^ (e + 52 + 1) * den = 2 ^ 53 * (den * 2 ^ e) := by ring
    have hdiv : spacing (num / den) = 2 ^ (e + 52 - 52) :=
      spacing_div hden (by rw [hk]; omega) (by rw [hk']; omega)
    rw [hdiv, Nat.add_sub_cancel]
  rw [nearest, hbelow, roundHalfEven_eq (k := 2 ^ 53), hunits]
  · exact Nat.mul_pos hden (Nat.two_pow_pos e)
  · omega
  · omega
  · intro _
    rfl

/-! ## Results of rounding -/

theorem roundHalfEven_le (num den : Nat) : roundHalfEven num den ≤ num / den + 1 := by
  unfold roundHalfEven
  dsimp only
  split <;> omega

theorem nearest_le_add (num den : Nat) :
    nearest num den ≤ num / den / spacing (num / den) * spacing (num / den) +
      spacing (num / den) := by
  have hround := roundHalfEven_le num (den * spacing (num / den))
  rw [← Nat.div_div_eq_div_mul] at hround
  have hscaled := Nat.mul_le_mul_right (spacing (num / den)) hround
  rwa [Nat.add_mul, Nat.one_mul] at hscaled

theorem representable_of_dvd {e : Nat} (hdvd : 2 ^ e ∣ units) (hlog : units.log2 ≤ e + 52) :
    Representable units := by
  have hspacing : spacing units ∣ 2 ^ e := Nat.pow_dvd_pow 2 (by omega)
  exact hspacing.trans hdvd

/-- What rounding gives is representable: it may reach the next power of two, but not pass it. -/
theorem representable_nearest (num den : Nat) : Representable (nearest num den) := by
  have hle := nearest_le_add num den
  have hdvd : spacing (num / den) ∣ nearest num den := Nat.dvd_mul_left _ _
  have hless : num / den < 2 ^ ((num / den).log2 + 1) := Nat.lt_log2_self
  have hpower : spacing (num / den) ∣ 2 ^ ((num / den).log2 + 1) :=
    Nat.pow_dvd_pow 2 (by omega)
  have hlow : spacing (num / den) ∣ num / den / spacing (num / den) * spacing (num / den) :=
    Nat.dvd_mul_left _ _
  have hself : num / den / spacing (num / den) * spacing (num / den) ≤ num / den :=
    Nat.div_mul_le_self _ _
  have hgap := Nat.le_of_dvd (by omega) (Nat.dvd_sub hpower hlow)
  by_cases hnext : nearest num den = 2 ^ ((num / den).log2 + 1)
  · refine representable_of_dvd (e := (num / den).log2 + 1) (by rw [hnext]) ?_
    rw [hnext, Nat.log2_two_pow]
    omega
  · refine representable_of_dvd hdvd ?_
    by_cases hzero : nearest num den = 0
    · rw [hzero, Nat.log2_zero]
      omega
    · have hlog := (Nat.log2_lt hzero).mpr
        (show nearest num den < 2 ^ ((num / den).log2 + 1) by omega)
      omega

/-- Rounding does not lead further than to twice the quotient. -/
theorem nearest_le (num den : Nat) : nearest num den ≤ 2 * (num / den) + 1 := by
  have hle := nearest_le_add num den
  have hself : num / den / spacing (num / den) * spacing (num / den) ≤ num / den :=
    Nat.div_mul_le_self _ _
  have hspacing : spacing (num / den) ≤ num / den + 1 := by
    by_cases hzero : num / den = 0
    · rw [hzero]
      decide
    · have hpower : spacing (num / den) ≤ 2 ^ (num / den).log2 :=
        Nat.pow_le_pow_right (by omega) (by omega)
      have := Nat.log2_self_le hzero
      omega
  omega

theorem nearest_one_le (units : Nat) : nearest units 1 ≤ 2 * units + 1 := by
  have hle := nearest_le units 1
  rwa [Nat.div_one] at hle

/-- Less than half a unit is lost. -/
theorem nearest_eq_zero (hsmall : 2 * num < den) : nearest num den = 0 := by
  have hone : spacing 0 = 1 := rfl
  refine nearest_of_above (Nat.dvd_zero _) (by omega) (by omega) ?_ fun _ => rfl
  rw [hone]
  omega

/-- Rounding does not lead below half the quotient. -/
theorem le_nearest (num den : Nat) : num / den ≤ 2 * nearest num den := by
  have hlow : num / den / spacing (num / den) ≤ roundHalfEven num (den * spacing (num / den)) := by
    rw [Nat.div_div_eq_div_mul]
    unfold roundHalfEven
    dsimp only
    split <;> omega
  have hscaled : num / den / spacing (num / den) * spacing (num / den) ≤ nearest num den :=
    Nat.mul_le_mul_right _ hlow
  have hrest := Nat.mod_lt (num / den) (spacing_pos (num / den))
  have hquotient := Nat.div_add_mod' (num / den) (spacing (num / den))
  by_cases hzero : num / den = 0
  · omega
  · have hspacing : spacing (num / den) ≤ num / den :=
      (Nat.pow_le_pow_right (by decide) (Nat.sub_le _ _)).trans (Nat.log2_self_le hzero)
    have hself := Nat.mul_le_mul_right (spacing (num / den))
      (Nat.div_pos hspacing (spacing_pos (num / den)))
    omega

end OverloadSuite.Double
