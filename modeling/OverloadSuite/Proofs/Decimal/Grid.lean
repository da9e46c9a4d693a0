import OverloadSuite.Proofs.Decimal.Rounding

/-!
# The search for the shortest decimal

The search walks from coarse decimal grids to finer ones and carries where the magnitude lies on the
grid at hand. Whatever point it ends with rounds to the magnitude: on every grid it takes points no
further away than the midpoints, and on the finest grid the magnitude is a point itself.
-/

namespace OverloadSuite.Double

variable {units c d k n : Nat}

/-- The number of points of the finest grid from zero to one. -/
def finest : Nat := Nat.pow 10 1074

/-- The number of points of the finest grid for each unit. -/
def fives : Nat := Nat.pow 5 1074

/-! The powers are too large to be computed while a proof is checked, so their exponent is taken as
any number. -/

theorem one_pos : 0 < one := by
  unfold one
  generalize 1074 = k
  exact Nat.pow_pos (by decide)

theorem finest_pos : 0 < finest := by
  unfold finest
  generalize 1074 = k
  exact Nat.pow_pos (by decide)

theorem finest_eq : finest = one * fives := by
  unfold finest one fives
  generalize 1074 = k
  exact Nat.mul_pow 2 5 k

/-- The units of 10^(n - 1074), counted on the finest grid. -/
def decade (n : Nat) : Nat := one * 10 ^ n

theorem decade_pos (n : Nat) : 0 < decade n := Nat.mul_pos one_pos (Nat.pow_pos (by decide))

theorem decade_zero : decade 0 = one := by
  unfold decade
  generalize one = k
  exact Nat.mul_one k

theorem decade_succ (n : Nat) : decade (n + 1) = 10 * decade n := by
  rw [decade, decade, Nat.pow_succ', Nat.mul_left_comm]

/-- The decimal c · 10^(n - 1074) rounds to a magnitude. -/
def RoundsTo (units c n : Nat) : Prop := nearest (c * decade n) finest = units

namespace GridPlace

variable {p : GridPlace} {even near : Bool}

/-! ## What a place says -/

/-- The place of a magnitude on the grid of step 10^(n - 1074). The last equation compares the
spacing of the magnitude with the step of the grid. -/
structure Locates (units n : Nat) (p : GridPlace) : Prop where
  step_pos : 0 < p.step
  rest_lt : p.rest < p.step
  place : p.low * p.step + p.rest = mantissa units * p.spacing
  ratio : p.spacing * decade n = finest * Double.spacing units * p.step

theorem pow_sub_mul_pow (b k m : Nat) : b ^ (m - k) * b ^ k = b ^ (k - m) * b ^ m := by
  rw [← Nat.pow_add, ← Nat.pow_add]
  congr 1
  omega

theorem powers_balance (e k n : Nat) : 2 ^ (e - k) * 10 ^ (k - n) * (2 ^ k * 10 ^ n) =
    10 ^ k * 2 ^ e * (2 ^ (k - e) * 10 ^ (n - k)) := by
  calc 2 ^ (e - k) * 10 ^ (k - n) * (2 ^ k * 10 ^ n)
      = 2 ^ (e - k) * 2 ^ k * (10 ^ (k - n) * 10 ^ n) := Nat.mul_mul_mul_comm ..
    _ = 2 ^ (k - e) * 2 ^ e * (10 ^ (n - k) * 10 ^ k) := by
      rw [pow_sub_mul_pow 2, pow_sub_mul_pow 10]
    _ = 10 ^ k * 2 ^ e * (2 ^ (k - e) * 10 ^ (n - k)) := by ring

theorem locates_ofUnits (units n : Nat) : (ofUnits units n).Locates units n := by
  have hstep : 0 < (ofUnits units n).step :=
    Nat.mul_pos (Nat.pow_pos (by decide)) (Nat.pow_pos (by decide))
  refine ⟨hstep, Nat.mod_lt _ hstep, Nat.div_add_mod' _ _, ?_⟩
  unfold ofUnits decade one finest
  generalize 1074 = k
  exact powers_balance (exponent units) k n

theorem Locates.finer (h : p.Locates units (n + 1)) : p.finer.Locates units n where
  step_pos := h.step_pos
  rest_lt := Nat.mod_lt _ h.step_pos
  place := by
    calc (10 * p.low + 10 * p.rest / p.step) * p.step + 10 * p.rest % p.step
        = 10 * p.low * p.step + (10 * p.rest / p.step * p.step + 10 * p.rest % p.step) := by
          rw [Nat.add_mul, Nat.add_assoc]
      _ = 10 * (p.low * p.step + p.rest) := by
          rw [Nat.div_add_mod', Nat.mul_add, Nat.mul_assoc]
      _ = mantissa units * (10 * p.spacing) := by
          rw [h.place, Nat.mul_left_comm]
  ratio := by
    calc 10 * p.spacing * decade n
        = p.spacing * decade (n + 1) := by rw [decade_succ, Nat.mul_comm 10, Nat.mul_assoc]
      _ = finest * Double.spacing units * p.step := h.ratio

theorem Locates.spacing_pos (h : p.Locates units n) : 0 < p.spacing := by
  have hpos : 0 < p.spacing * decade n := by
    rw [h.ratio]
    exact Nat.mul_pos (Nat.mul_pos finest_pos (Double.spacing_pos units)) h.step_pos
  exact Nat.pos_of_mul_pos_right hpos

/-- The finest grid holds the magnitude. -/
theorem Locates.rest_eq_zero (h : p.Locates units 0) : p.rest = 0 := by
  have hratio : p.spacing * one = fives * Double.spacing units * p.step * one := by
    have hratio := h.ratio
    rw [decade_zero, finest_eq] at hratio
    rw [hratio]
    ring
  have hspacing := Nat.eq_of_mul_eq_mul_right one_pos hratio
  have hdvd : p.step ∣ p.rest := by
    have hplace : p.step ∣ p.low * p.step + p.rest := by
      rw [h.place, hspacing, ← Nat.mul_assoc]
      exact Nat.dvd_mul_left _ _
    exact (Nat.dvd_add_right (Nat.dvd_mul_left _ _)).mp hplace
  exact Nat.eq_zero_of_dvd_of_lt hdvd h.rest_lt

/-! ## Points near the magnitude -/

/-- The magnitude, in the scale in which a place counts. -/
theorem Locates.scaled (h : p.Locates units n) (hunits : Representable units) :
    mantissa units * p.spacing * decade n = units * finest * p.step := by
  rw [Nat.mul_assoc, h.ratio, ← Nat.mul_assoc, Nat.mul_left_comm, mantissa_mul_spacing hunits,
    Nat.mul_comm finest]

theorem Locates.roundsTo_above (h : p.Locates units n) (hunits : Representable units)
    (hpoint : c * p.step = mantissa units * p.spacing + d) (hnear : 2 * d ≤ p.spacing)
    (htie : 2 * d = p.spacing → mantissa units % 2 = 0) : RoundsTo units c n := by
  have hscaled : c * decade n * p.step = units * finest * p.step + d * decade n := by
    rw [Nat.mul_right_comm, hpoint, Nat.add_mul, h.scaled hunits]
  have hratio := h.ratio
  refine nearest_of_above hunits finest_pos ?_ ?_ fun hmidpoint => htie ?_
  · exact Nat.le_of_mul_le_mul_right (by omega) h.step_pos
  · have hscaledNear := Nat.mul_le_mul_right (decade n) hnear
    refine Nat.le_of_mul_le_mul_right ?_ h.step_pos
    rw [Nat.mul_assoc 2] at hscaledNear
    rw [Nat.add_mul, Nat.mul_assoc 2, Nat.mul_assoc 2]
    omega
  · have hscaledMidpoint := congrArg (· * p.step) hmidpoint
    simp only [Nat.add_mul, Nat.mul_assoc 2] at hscaledMidpoint
    refine Nat.eq_of_mul_eq_mul_right (decade_pos n) ?_
    rw [Nat.mul_assoc 2]
    omega

theorem Locates.scaled_below (h : p.Locates units n) (hunits : Representable units)
    (hpoint : c * p.step + d = mantissa units * p.spacing) :
    c * decade n * p.step + d * decade n = units * finest * p.step := by
  rw [Nat.mul_right_comm, ← Nat.add_mul, hpoint, h.scaled hunits]

theorem Locates.le_below (h : p.Locates units n) (hunits : Representable units)
    (hpoint : c * p.step + d = mantissa units * p.spacing) : c * decade n ≤ units * finest := by
  have hscaled := h.scaled_below hunits hpoint
  exact Nat.le_of_mul_le_mul_right (by omega) h.step_pos

/-- How far a point below is away, as a part of the spacing. -/
theorem Locates.near_below (h : p.Locates units n) (hunits : Representable units)
    (hpoint : c * p.step + d = mantissa units * p.spacing) (hnear : k * d ≤ p.spacing) :
    k * (units * finest) ≤ k * (c * decade n) + finest * Double.spacing units := by
  refine Nat.le_of_mul_le_mul_right ?_ h.step_pos
  calc k * (units * finest) * p.step
      = k * (c * decade n * p.step + d * decade n) := by
        rw [h.scaled_below hunits hpoint, Nat.mul_assoc]
    _ = k * (c * decade n) * p.step + k * d * decade n := by
        rw [Nat.mul_add, ← Nat.mul_assoc, ← Nat.mul_assoc k d]
    _ ≤ k * (c * decade n) * p.step + p.spacing * decade n :=
        Nat.add_le_add_left (Nat.mul_le_mul_right _ hnear) _
    _ = (k * (c * decade n) + finest * Double.spacing units) * p.step := by
        rw [h.ratio, Nat.add_mul]

theorem Locates.roundsTo_below (h : p.Locates units n) (hunits : Representable units)
    (hpoint : c * p.step + d = mantissa units * p.spacing) (hnear : 2 * d ≤ p.spacing)
    (htie : 2 * d = p.spacing → mantissa units % 2 = 0)
    (hfar : mantissa units = 2 ^ 52 → exponent units = 0) : RoundsTo units c n := by
  refine nearest_of_below hunits finest_pos (h.le_below hunits hpoint)
    (h.near_below hunits hpoint hnear) (fun hmidpoint => htie ?_) hfar
  have hscaled := h.scaled_below hunits hpoint
  have hratio := h.ratio
  have hscaledMidpoint := congrArg (· * p.step) hmidpoint
  simp only [Nat.add_mul, Nat.mul_assoc 2] at hscaledMidpoint
  refine Nat.eq_of_mul_eq_mul_right (decade_pos n) ?_
  rw [Nat.mul_assoc 2]
  omega

theorem Locates.roundsTo_below_power (h : p.Locates units n) (hunits : Representable units)
    (hpoint : c * p.step + d = mantissa units * p.spacing) (hnear : 4 * d ≤ p.spacing)
    (hmantissa : mantissa units = 2 ^ 52) (hexponent : 0 < exponent units) :
    RoundsTo units c n :=
  nearest_of_below_power hunits finest_pos (h.le_below hunits hpoint)
    (h.near_below hunits hpoint hnear) hmantissa hexponent

/-! ## The search -/

theorem within_eq_true {reach distance : Nat} : within even reach distance = true ↔
    distance ≤ reach ∧ (distance = reach → even = true) := by
  cases even
  · simp [within]
    omega
  · simp [within]

/-- The points next to a magnitude that are taken for it. -/
theorem point?_eq_some (h : p.point? even near = some c) :
    c = p.low ∧ within even (if near then p.spacing else 2 * p.spacing) (4 * p.rest) = true ∨
      c = p.low + 1 ∧ within even (2 * p.spacing) (4 * (p.step - p.rest)) = true := by
  unfold point? at h
  dsimp only at h
  generalize within even (if near then p.spacing else 2 * p.spacing) (4 * p.rest) = lowFits at h ⊢
  generalize within even (2 * p.spacing) (4 * (p.step - p.rest)) = highFits at h ⊢
  split at h
  · rename_i hhigh
    exact .inr ⟨(Option.some.inj h).symm, (Bool.and_eq_true_iff.mp hhigh).1⟩
  · split at h
    · rename_i hlow
      exact .inl ⟨(Option.some.inj h).symm, hlow⟩
    · cases h

/-- A magnitude whose neighbour below is nearer than the one above. -/
def belowIsNearer (units : Nat) : Bool := mantissa units == Nat.pow 2 52 && 0 < exponent units

theorem Locates.roundsTo_point (h : p.Locates units n) (hunits : Representable units)
    (hpoint : p.point? (mantissa units % 2 == 0) (belowIsNearer units) = some c) :
    RoundsTo units c n := by
  have hrest := h.rest_lt
  rcases point?_eq_some hpoint with ⟨rfl, hwithin⟩ | ⟨rfl, hwithin⟩
  · obtain ⟨hnear, htie⟩ := within_eq_true.mp hwithin
    cases hbelow : belowIsNearer units with
    | false =>
      rw [hbelow, if_neg (by decide)] at hnear htie
      refine h.roundsTo_below hunits h.place (by omega) (fun heq => ?_) fun hmantissa => ?_
      · exact beq_iff_eq.mp (htie (by omega))
      · rw [belowIsNearer, hmantissa] at hbelow
        simpa using hbelow
    | true =>
      rw [hbelow, if_pos rfl] at hnear
      obtain ⟨hmantissa, hexponent⟩ := Bool.and_eq_true_iff.mp hbelow
      exact h.roundsTo_below_power hunits h.place hnear (beq_iff_eq.mp hmantissa)
        (of_decide_eq_true hexponent)
  · obtain ⟨hnear, htie⟩ := within_eq_true.mp hwithin
    have habove : (p.low + 1) * p.step = mantissa units * p.spacing + (p.step - p.rest) := by
      rw [Nat.add_mul, ← h.place]
      omega
    refine h.roundsTo_above hunits habove (by omega) fun heq => ?_
    exact beq_iff_eq.mp (htie (by omega))

/-- Wherever the search stands, it ends with a decimal that rounds to the magnitude. -/
theorem Locates.roundsTo_shortest (h : p.Locates units n) (hunits : Representable units) :
    RoundsTo units (p.shortest (mantissa units % 2 == 0) (belowIsNearer units) n).1
      (p.shortest (mantissa units % 2 == 0) (belowIsNearer units) n).2 := by
  induction n generalizing p with
  | zero =>
    have hspacing := h.spacing_pos
    have hplace := h.place
    rw [h.rest_eq_zero] at hplace
    exact h.roundsTo_above hunits (d := 0) hplace (by omega) (by omega)
  | succ n ih =>
    rw [shortest]
    split
    · rename_i hpoint
      exact h.roundsTo_point hunits hpoint
    · exact ih h.finer

end GridPlace

/-- **The shortest decimal rounds to the magnitude.** -/
theorem roundsTo_shortest (hunits : Representable units) :
    RoundsTo units (shortest units).1 (shortest units).2 := by
  unfold shortest
  exact (GridPlace.locates_ofUnits units _).roundsTo_shortest hunits

end OverloadSuite.Double
