import OverloadSuite.Decimal.Read
import OverloadSuite.Proofs.Decimal.Grid
import Mathlib.Data.List.TakeWhile

/-!
# Reading back the shortest text

The text of a representable number reads back as that number: its digits are those of the shortest
decimal, the zeros that are added or left out change neither the value nor the place of the point,
and the decimal rounds to the number.
-/

namespace OverloadSuite

variable {digits whole fraction : List Char} {negative : Bool} {units c n k : Nat}

/-! ## The value of digits -/

namespace Decimal

theorem digitsValue_eq_ofDigitChars (digits : List Char) :
    digitsValue digits = Nat.ofDigitChars 10 digits 0 :=
  digitsValue_eq_foldl digits

@[simp] theorem digitsValue_toDigits (n : Nat) : digitsValue (Nat.toDigits 10 n) = n := by
  rw [digitsValue_eq_ofDigitChars, Nat.ofDigitChars_ten_toDigits]

theorem digitsValue_append (digits more : List Char) : digitsValue (digits ++ more) =
    10 ^ more.length * digitsValue digits + digitsValue more := by
  simp only [digitsValue_eq_ofDigitChars]
  rw [Nat.ofDigitChars_append, Nat.ofDigitChars_eq_ofDigitChars_zero]

theorem digitsValue_replicate_zero (k : Nat) : digitsValue (List.replicate k '0') = 0 := by
  rw [digitsValue_eq_ofDigitChars, Nat.ofDigitChars_replicate_zero, Nat.mul_zero]

/-- Zeros at the end shift the value. -/
theorem digitsValue_append_zeros (digits : List Char) (k : Nat) :
    digitsValue (digits ++ List.replicate k '0') = 10 ^ k * digitsValue digits := by
  rw [digitsValue_append, digitsValue_replicate_zero, List.length_replicate, Nat.add_zero]

/-- Zeros at the start do not count. -/
theorem digitsValue_zeros_append (k : Nat) (digits : List Char) :
    digitsValue (List.replicate k '0' ++ digits) = digitsValue digits := by
  rw [digitsValue_append, digitsValue_replicate_zero, Nat.mul_zero, Nat.zero_add]

/-- Digits start with some zeros, and go on without them. -/
theorem exists_zeros_append (digits : List Char) :
    ∃ k, List.replicate k '0' ++ digits.dropWhile (· == '0') = digits := by
  refine ⟨(digits.takeWhile (· == '0')).length, ?_⟩
  have hzeros : digits.takeWhile (· == '0') =
      List.replicate (digits.takeWhile (· == '0')).length '0' := by
    refine List.eq_replicate_of_mem fun d hd => ?_
    exact beq_iff_eq.mp (List.all_eq_true.mp List.all_takeWhile d hd)
  rw [← hzeros, List.takeWhile_append_dropWhile]

theorem digitsValue_dropWhile_zero (digits : List Char) :
    digitsValue (digits.dropWhile (· == '0')) = digitsValue digits := by
  obtain ⟨k, hzeros⟩ := exists_zeros_append digits
  rw [← digitsValue_zeros_append k, hzeros]

theorem isDigit_of_mem_toDigits {d : Char} (hd : d ∈ Nat.toDigits 10 c) : d.isDigit = true :=
  Nat.isDigit_of_mem_toDigits (by decide) (by decide) hd

theorem isDigit_of_mem_toString {d : Char} {n : Nat} (hd : d ∈ (toString n).toList) :
    d.isDigit = true := by
  have hdigits : (toString n).toList = Nat.toDigits 10 n := by
    show (Nat.repr n).toList = _
    rw [Nat.repr_eq_ofList_toDigits, String.toList_ofList]
  rw [hdigits] at hd
  exact isDigit_of_mem_toDigits hd

theorem isDigit_of_mem_replicate {d : Char} (hd : d ∈ List.replicate k '0') : d.isDigit = true := by
  rw [List.eq_of_mem_replicate hd]
  decide

theorem toNat_of_isDigit {d : Char} (hd : d.isDigit = true) : 48 ≤ d.toNat ∧ d.toNat ≤ 57 := by
  simpa [Char.isDigit, UInt32.le_iff_toNat_le] using hd

theorem digitValue_lt {d : Char} (hd : d.isDigit = true) : digitValue d < 10 := by
  have hbounds := toNat_of_isDigit hd
  show d.toNat - 48 < 10
  omega

theorem digitValue_pos {d : Char} (hd : d.isDigit = true) (hzero : d ≠ '0') :
    0 < digitValue d := by
  have hbounds := toNat_of_isDigit hd
  have hne : d.toNat ≠ 48 := fun h => hzero (Char.toNat_inj.mp h)
  show 0 < d.toNat - 48
  omega

theorem digitsValue_cons (d : Char) (digits : List Char) : digitsValue (d :: digits) =
    10 ^ digits.length * digitValue d + digitsValue digits := by
  have hone : digitsValue [d] = digitValue d := by
    simp [digitsValue_eq_foldl]
  rw [← List.singleton_append, digitsValue_append, hone]

theorem digitsValue_lt (hdigits : ∀ d ∈ digits, d.isDigit = true) :
    digitsValue digits < 10 ^ digits.length := by
  induction digits with
  | nil => decide
  | cons d digits ih =>
    rw [List.forall_mem_cons] at hdigits
    have hrest := ih hdigits.2
    have hfirst := Nat.mul_le_mul_left (10 ^ digits.length) (digitValue_lt hdigits.1)
    rw [Nat.mul_succ] at hfirst
    rw [digitsValue_cons, List.length_cons, Nat.pow_succ]
    omega

/-- Digits that do not start with a zero have the value that their number leads one to expect. -/
theorem le_digitsValue {d : Char} (hd : d.isDigit = true) (hzero : d ≠ '0') (digits : List Char) :
    10 ^ digits.length ≤ digitsValue (d :: digits) := by
  rw [digitsValue_cons]
  exact Nat.le_add_right_of_le (Nat.le_mul_of_pos_right _ (digitValue_pos hd hzero))

/-! ## From digits to a number -/

open Double

theorem two_mul_one_le (h : k = 400) : 2 * one ≤ 10 ^ k := by
  subst h
  decide +kernel

theorem two_mul_limit_le (h : k = 400) : 2 * limit ≤ 10 ^ k * one := by
  subst h
  decide +kernel

/-- The digits reach so far below the point that they are lost in rounding. -/
theorem nearest_digits_eq_zero (hdigits : ∀ d ∈ digits, d.isDigit = true)
    (hfar : digits.length + 400 < n) : nearest (digitsValue digits * one) (10 ^ n) = 0 := by
  obtain ⟨k, hk⟩ : ∃ k, k = 400 := ⟨_, rfl⟩
  refine nearest_eq_zero ?_
  calc 2 * (digitsValue digits * one)
      = digitsValue digits * (2 * one) := Nat.mul_left_comm ..
    _ ≤ digitsValue digits * 10 ^ k := Nat.mul_le_mul_left _ (two_mul_one_le hk)
    _ < 10 ^ digits.length * 10 ^ k :=
        Nat.mul_lt_mul_of_pos_right (digitsValue_lt hdigits) (Nat.pow_pos (by decide))
    _ = 10 ^ (digits.length + k) := (Nat.pow_add ..).symm
    _ ≤ 10 ^ n := Nat.pow_le_pow_right (by decide) (by omega)

/-- The digits reach so far above the point that they round to no finite magnitude. -/
theorem limit_le_nearest_digits {d : Char} (hd : d.isDigit = true) (hzero : d ≠ '0')
    (digits : List Char) (hfar : n + 400 ≤ digits.length) :
    limit ≤ nearest (digitsValue (d :: digits) * one) (10 ^ n) := by
  obtain ⟨k, hk⟩ : ∃ k, k = 400 := ⟨_, rfl⟩
  have hquotient : 2 * limit ≤ digitsValue (d :: digits) * one / 10 ^ n := by
    refine (Nat.le_div_iff_mul_le (Nat.pow_pos (by decide))).mpr ?_
    calc 2 * limit * 10 ^ n
        ≤ 10 ^ k * one * 10 ^ n := Nat.mul_le_mul_right _ (two_mul_limit_le hk)
      _ = 10 ^ (n + k) * one := by rw [Nat.pow_add, Nat.mul_right_comm, Nat.mul_comm (10 ^ k)]
      _ ≤ digitsValue (d :: digits) * one := by
        refine Nat.mul_le_mul_right _ (Nat.le_trans ?_ (le_digitsValue hd hzero digits))
        exact Nat.pow_le_pow_right (by decide) (by omega)
  have := le_nearest (digitsValue (d :: digits) * one) (10 ^ n)
  omega

/-- Digits that round to a positive finite magnitude are read as it: neither of the two shortcuts
for values far outside the range is taken. -/
theorem ofScientific_eq_finite (hdigits : ∀ d ∈ digits, d.isDigit = true)
    (hround : nearest (digitsValue digits * one) (10 ^ n) = units) (hpos : 0 < units)
    (hlimit : units < limit) :
    ofScientific negative digits (-(n : Int)) = .finite negative units := by
  have hhead := List.head?_dropWhile_not (· == '0') digits
  have hkept : ∀ d ∈ digits.dropWhile (· == '0'), d.isDigit = true :=
    fun d hd => hdigits d ((List.dropWhile_sublist _).subset hd)
  rw [← digitsValue_dropWhile_zero] at hround
  unfold ofScientific
  dsimp only
  generalize digits.dropWhile (· == '0') = kept at *
  cases kept with
  | nil =>
    have hzero : nearest (digitsValue [] * one) (10 ^ n) = 0 := by
      rw [show digitsValue [] = 0 from rfl, Nat.zero_mul]
      exact nearest_eq_zero (Nat.pow_pos (by decide))
    omega
  | cons d kept =>
    have hlow : ¬ (-(n : Int) + (d :: kept).length < -400) := by
      intro hfar
      have := nearest_digits_eq_zero (n := n) hkept (by omega)
      omega
    have hhigh : ¬ (400 < -(n : Int) + (d :: kept).length) := by
      intro hfar
      rw [List.length_cons] at hfar
      have := limit_le_nearest_digits (n := n) (hkept d List.mem_cons_self) (by simpa using hhead)
        kept (by omega)
      omega
    have hwhole : (-(n : Int)).toNat = 0 := by omega
    have hplaces : (-(-(n : Int))).toNat = n := by omega
    rw [if_neg (by simpa using hlow), if_neg hhigh, hwhole, hplaces, ofRatio]
    have hround :
        nearest (digitsValue (d :: kept) * Nat.pow 10 0 * one) (Nat.pow 10 n) = units := by
      rw [show Nat.pow 10 0 = 1 from rfl, Nat.mul_one]
      exact hround
    rw [hround, if_pos hlimit]

/-! ## From a text to digits -/

/-- A sign is split off. -/
theorem splitSign_text (hdigit : ∀ d ∈ digits.head?, d.isDigit = true) (negative : Bool) :
    splitSign (if negative then '-' :: digits else digits) = (negative, digits) := by
  cases negative with
  | true => rfl
  | false =>
    rw [if_neg (by decide)]
    unfold splitSign
    split
    · exact absurd (hdigit '-' rfl) (by decide)
    · exact absurd (hdigit '+' rfl) (by decide)
    · rfl

theorem takeWhile_isDigit (hwhole : ∀ d ∈ whole, d.isDigit = true) (rest : List Char) :
    (whole ++ '.' :: rest).takeWhile Char.isDigit = whole := by
  rw [List.takeWhile_append_of_pos hwhole, List.takeWhile_cons_of_neg (by decide), List.append_nil]

theorem dropWhile_isDigit (hwhole : ∀ d ∈ whole, d.isDigit = true) (rest : List Char) :
    (whole ++ '.' :: rest).dropWhile Char.isDigit = '.' :: rest := by
  rw [List.dropWhile_append_of_pos hwhole, List.dropWhile_cons_of_neg (by decide)]

/-- Digits around a point. -/
theorem readDigits?_point (hne : whole ≠ []) (hwhole : ∀ d ∈ whole, d.isDigit = true)
    (hfraction : ∀ d ∈ fraction, d.isDigit = true) :
    readDigits? negative (whole ++ '.' :: fraction) =
      some (ofScientific negative (whole ++ fraction) (-(fraction.length : Int))) := by
  have htake : fraction.takeWhile Char.isDigit = fraction :=
    List.takeWhile_eq_self_iff.mpr hfraction
  have hdrop : fraction.dropWhile Char.isDigit = [] := List.dropWhile_eq_nil_iff.mpr hfraction
  unfold readDigits?
  simp only [takeWhile_isDigit hwhole, dropWhile_isDigit hwhole, htake, hdrop]
  rw [if_neg (by simp [hne])]
  show some (ofScientific negative (whole ++ fraction) (0 - (fraction.length : Int))) = _
  rw [Int.zero_sub]

end Decimal

/-! ## The shortest text -/

namespace Double

/-- Only zeros are trimmed. -/
theorem exists_trimFraction_append (hne : digits ≠ []) :
    ∃ k, trimFraction digits ++ List.replicate k '0' = digits := by
  obtain ⟨k, hzeros⟩ := Decimal.exists_zeros_append digits.reverse
  have hsplit := congrArg List.reverse hzeros
  rw [List.reverse_append, List.reverse_reverse, List.reverse_replicate] at hsplit
  unfold trimFraction
  split
  · rename_i hall
    rw [hall, List.nil_append] at hsplit
    cases k with
    | zero => exact absurd hsplit.symm hne
    | succ k => exact ⟨k, hsplit⟩
  · exact ⟨k, hsplit⟩

/-- The text of a decimal is digits around a point, and the digits have its value. -/
structure Writes (c n : Nat) (whole fraction : List Char) : Prop where
  text : positional c n = whole ++ '.' :: fraction
  whole_ne_nil : whole ≠ []
  isDigit : ∀ d ∈ whole ++ fraction, d.isDigit = true
  value : Decimal.digitsValue (whole ++ fraction) * finest = c * 10 ^ n * 10 ^ fraction.length

/-- A decimal without places is written with zeros up to the point. -/
theorem exists_writes_of_le (c : Nat) (hn : 1074 ≤ n) :
    ∃ whole fraction, Writes c n whole fraction := by
  obtain ⟨z, hz⟩ : ∃ z, z = if c = 0 then 0 else n - 1074 := ⟨_, rfl⟩
  refine ⟨Nat.toDigits 10 c ++ List.replicate z '0', ['0'], ?_, by simp, fun d hd => ?_, ?_⟩
  · rw [positional, if_pos hn, hz, List.append_assoc]
  · rcases List.mem_append.mp hd with hd | hd
    · rcases List.mem_append.mp hd with hd | hd
      · exact Decimal.isDigit_of_mem_toDigits hd
      · exact Decimal.isDigit_of_mem_replicate hd
    · rw [List.mem_singleton.mp hd]
      decide
  · have hshift : c * (10 ^ z * finest) = c * 10 ^ n := by
      unfold finest
      generalize 1074 = k at *
      by_cases hc : c = 0
      · rw [hc, Nat.zero_mul, Nat.zero_mul]
      · rw [hz, if_neg hc]
        show c * (10 ^ (n - k) * 10 ^ k) = c * 10 ^ n
        rw [Nat.pow_sub_mul_pow 10 hn]
    show Decimal.digitsValue (Nat.toDigits 10 c ++ List.replicate z '0' ++ List.replicate 1 '0') *
      finest = c * 10 ^ n * 10 ^ 1
    rw [Decimal.digitsValue_append_zeros, Decimal.digitsValue_append_zeros,
      Decimal.digitsValue_toDigits, ← hshift]
    ring

/-- Digits with zeros before them, so that there is at least one before the places. -/
def padded (c places : Nat) : List Char :=
  List.replicate (places + 1 - (Nat.toDigits 10 c).length) '0' ++ Nat.toDigits 10 c

theorem le_length_padded (c places : Nat) : places + 1 ≤ (padded c places).length := by
  rw [padded, List.length_append, List.length_replicate]
  omega

theorem isDigit_of_mem_padded {d : Char} {places : Nat} (hd : d ∈ padded c places) :
    d.isDigit = true := by
  rcases List.mem_append.mp hd with hd | hd
  · exact Decimal.isDigit_of_mem_replicate hd
  · exact Decimal.isDigit_of_mem_toDigits hd

theorem digitsValue_padded (c places : Nat) : Decimal.digitsValue (padded c places) = c := by
  rw [padded, Decimal.digitsValue_zeros_append, Decimal.digitsValue_toDigits]

/-- Digits of which the last ones are places are split at the point and lose zeros at the end. -/
theorem exists_split_append {places : Nat} (hpos : 0 < places)
    (hlength : places + 1 ≤ digits.length) : ∃ whole fraction z,
      whole = digits.take (digits.length - places) ∧
      fraction = trimFraction (digits.drop (digits.length - places)) ∧ whole ≠ [] ∧
      fraction.length + z = places ∧ whole ++ fraction ++ List.replicate z '0' = digits := by
  have hplaces : (digits.drop (digits.length - places)).length = places := by
    rw [List.length_drop]
    omega
  obtain ⟨z, hz⟩ := exists_trimFraction_append (List.ne_nil_of_length_pos
    (show 0 < (digits.drop (digits.length - places)).length by omega))
  refine ⟨_, _, z, rfl, rfl, List.ne_nil_of_length_pos ?_, ?_, ?_⟩
  · rw [List.length_take]
    omega
  · have hlengths := congrArg List.length hz
    rw [List.length_append, List.length_replicate] at hlengths
    omega
  · rw [List.append_assoc, hz, List.take_append_drop]

/-- A decimal with places is written with zeros before its digits, if it has too few of them, and
without the zeros at the end of its fraction. -/
theorem exists_writes_of_lt (c : Nat) (hn : n < 1074) :
    ∃ whole fraction, Writes c n whole fraction := by
  obtain ⟨whole, fraction, z, hwhole, hfraction, hne, hplaces, hsplit⟩ :=
    exists_split_append (Nat.sub_pos_of_lt hn) (le_length_padded c (1074 - n))
  refine ⟨whole, fraction, ?_, hne, fun d hd => ?_, ?_⟩
  · rw [hwhole, hfraction, positional, if_neg (Nat.not_le_of_lt hn)]
    rfl
  · have hmem : d ∈ padded c (1074 - n) := by
      rw [← hsplit]
      exact List.mem_append_left _ hd
    exact isDigit_of_mem_padded hmem
  · have hfinest : finest = 10 ^ n * 10 ^ fraction.length * 10 ^ z := by
      rw [← Nat.pow_add, ← Nat.pow_add]
      unfold finest
      generalize 1074 = k at *
      congr 1
      omega
    have hvalue : 10 ^ z * Decimal.digitsValue (whole ++ fraction) = c := by
      rw [← Decimal.digitsValue_append_zeros, hsplit, digitsValue_padded]
    rw [hfinest, ← hvalue]
    ring

/-- Every decimal is written. -/
theorem exists_writes (c n : Nat) : ∃ whole fraction, Writes c n whole fraction := by
  by_cases hn : 1074 ≤ n
  · exact exists_writes_of_le c hn
  · exact exists_writes_of_lt c (Nat.lt_of_not_le hn)

theorem readDouble?_ofList (hne : whole ≠ []) (hwhole : ∀ d ∈ whole, d.isDigit = true)
    (hfraction : ∀ d ∈ fraction, d.isDigit = true)
    (hdigits : digits = whole ++ '.' :: fraction) :
    Decimal.readDouble? (String.ofList (if negative then '-' :: digits else digits)) =
      some (Decimal.ofScientific negative (whole ++ fraction) (-(fraction.length : Int))) := by
  have hhead : ∀ d ∈ digits.head?, d.isDigit = true := by
    obtain ⟨d, whole, rfl⟩ := List.exists_cons_of_ne_nil hne
    rw [hdigits, List.forall_mem_cons] at *
    simpa using hwhole.1
  unfold Decimal.readDouble?
  rw [String.toList_ofList, Decimal.splitSign_text hhead]
  dsimp only
  rw [hdigits, Decimal.readDigits?_point hne hwhole hfraction]
  rfl

/-- The text of a representable finite number reads back as the number. -/
theorem readDouble?_text_finite (hunits : Representable units) (hlimit : units < limit) :
    Decimal.readDouble? (text (.finite negative units)) = some (.finite negative units) := by
  by_cases hzero : units = 0
  · subst hzero
    have htext : magnitudeText 0 = ['0'] ++ '.' :: ['0'] := rfl
    have hdigits : ∀ d ∈ ['0'], d.isDigit = true := List.forall_mem_singleton.mpr rfl
    exact readDouble?_ofList (List.cons_ne_nil _ _) hdigits hdigits htext
  · obtain ⟨whole, fraction, hwrites⟩ := exists_writes (shortest units).1 (shortest units).2
    have htext : magnitudeText units = whole ++ '.' :: fraction := by
      rw [magnitudeText, if_neg hzero]
      exact hwrites.text
    obtain ⟨hwhole, hfraction⟩ := List.forall_mem_append.mp hwrites.isDigit
    refine (readDouble?_ofList hwrites.whole_ne_nil hwhole hfraction htext).trans ?_
    refine congrArg some (Decimal.ofScientific_eq_finite hwrites.isDigit ?_ (by omega) hlimit)
    have hround : RoundsTo units (shortest units).1 (shortest units).2 := roundsTo_shortest hunits
    rw [← show nearest _ _ = units from hround]
    refine nearest_congr (Nat.pow_pos (by decide)) finest_pos ?_
    calc Decimal.digitsValue (whole ++ fraction) * one * finest
        = Decimal.digitsValue (whole ++ fraction) * finest * one := Nat.mul_right_comm ..
      _ = (shortest units).1 * 10 ^ (shortest units).2 * 10 ^ fraction.length * one := by
          rw [hwrites.value]
      _ = (shortest units).1 * decade (shortest units).2 * 10 ^ fraction.length := by
          rw [decade, Nat.mul_right_comm, Nat.mul_right_comm _ (10 ^ _) one, Nat.mul_assoc _ one]

/-- The numbers of the format: the magnitude of a finite one is
representable and below the limit. -/
def Proper : Double → Prop
  | nan | infinite _ => True
  | finite _ units => Representable units ∧ units < limit

/-- **The text of a number reads back as the number.** -/
theorem readDouble?_text {x : Double} (h : x.Proper) : Decimal.readDouble? x.text = some x := by
  cases x with
  | nan => decide
  | infinite negative => cases negative <;> decide
  | finite negative units => exact readDouble?_text_finite h.1 h.2

end Double

end OverloadSuite
