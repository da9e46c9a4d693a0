import OverloadSuite.Proofs.Decimal.ReadBack
import OverloadSuite.Proofs.Literal.Draw
import OverloadSuite.Signature.Reference

/-!
# Literals that are kept

Literals are compared as numbers, and the chosen one is brought into its emitted form. Every literal
that is drawn is in that form: whole numbers and Booleans are never written anew, and the text of a
floating-point number reads back as the number.
-/

namespace OverloadSuite

open Decimal

/-! ## Whole numbers -/

namespace Decimal

theorem isDigits_toDigits (n : Nat) : isDigits (Nat.toDigits 10 n) = true := by
  have hall : (Nat.toDigits 10 n).all Char.isDigit = true :=
    List.all_eq_true.mpr fun d hd => isDigit_of_mem_toDigits hd
  simp [isDigits, hall]

theorem splitSign_toDigits (negative : Bool) (n : Nat) :
    splitSign (if negative then '-' :: Nat.toDigits 10 n else Nat.toDigits 10 n) =
      (negative, Nat.toDigits 10 n) :=
  splitSign_text (fun _ hd => isDigit_of_mem_toDigits (List.mem_of_mem_head? hd)) _

theorem toList_toString (i : Int) : (toString i).toList =
    if decide (i < 0) then '-' :: Nat.toDigits 10 i.natAbs else Nat.toDigits 10 i.natAbs := by
  cases i with
  | ofNat m =>
    show (Nat.repr m).toList = _
    rw [Nat.repr_eq_ofList_toDigits, String.toList_ofList]
    simp
  | negSucc m =>
    show ("-" ++ Nat.repr (m + 1)).toList = _
    rw [Nat.repr_eq_ofList_toDigits, String.toList_append, String.toList_ofList]
    simp [Int.negSucc_lt_zero]

/-- The text of a whole number reads back as the number. -/
theorem readInt?_toString {i : Int} (hlow : -2 ^ 127 ≤ i) (hhigh : i < 2 ^ 127) :
    readInt? (toString i) = some i := by
  unfold readInt?
  rw [toList_toString, splitSign_toDigits]
  simp only [isDigits_toDigits, digitsValue_toDigits, Bool.not_true, Bool.false_eq_true, if_false,
    decide_eq_true_eq]
  have hbound : Nat.pow 2 127 = 2 ^ 127 := rfl
  rw [hbound]
  by_cases hneg : i < 0
  · rw [if_pos hneg, if_pos (by omega)]
    congr 1
    omega
  · rw [if_neg hneg, if_pos (by omega)]
    congr 1
    omega

end Decimal

/-! ## The emitted form -/

/-- A literal in its emitted form. -/
structure Kept (s : String) : Prop where
  ne_empty : s ≠ ""
  normal : normalLiteral s = s

theorem kept_toString {i : Int} (hlow : -2 ^ 127 ≤ i) (hhigh : i < 2 ^ 127) :
    Kept (toString i) := by
  have hread := Decimal.readInt?_toString hlow hhigh
  refine ⟨fun hempty => ?_, ?_⟩
  · rw [hempty] at hread
    cases hread
  · rw [normalLiteral, hread]

theorem kept_text {x : Double} (h : x.Proper) : Kept x.text := by
  have hread := Double.readDouble?_text h
  refine ⟨fun hempty => ?_, ?_⟩
  · rw [hempty] at hread
    cases hread
  · unfold normalLiteral
    split
    · rename_i y _ hy
      rw [hread] at hy
      rw [← Option.some.inj hy]
    · rfl

theorem kept_true : Kept "true" := ⟨by decide, by decide⟩

/-! ## Literals that are drawn -/

namespace Literal

variable {σ : Type} [WordSource σ] {w : σ} {base : String} {count : Nat} {types : List TypeEntry}

theorem floatLow_le : floatLow ≤ Double.one := by decide +kernel

theorem floatScale_le : floatScale ≤ Double.one := by decide +kernel

theorem forty_one_lt_limit : 41 * Double.one < Double.limit := by decide +kernel

theorem fraction_lt (w : UInt64) : (w >>> 12).toNat < fractions := by
  have hword : w.toNat < 2 ^ 64 := w.toNat_lt_size
  rw [UInt64.toNat_shiftRight]
  show w.toNat >>> 12 < 2 ^ 52
  rw [Nat.shiftRight_eq_div_pow]
  omega

open Double in
/-- Each rounding at most doubles, and there are few of them. -/
theorem floatOf_lt_limit (w : UInt64) : floatOf w < limit := by
  have hone : 0 < one := Double.one_pos
  have hlow := floatLow_le
  have hplaces : 0 < tenPlaces := Nat.pow_pos (by decide)
  have hscaled : one ≤ one * tenPlaces := Nat.le_mul_of_pos_right one hplaces
  unfold floatOf
  dsimp only
  generalize hstretched : nearest ((w >>> 12).toNat * floatScale) fractions = stretched
  generalize hx : add stretched floatLow = x
  generalize hy : nearest (x * tenPlaces) 1 = y
  have hstretchedLe : stretched ≤ 3 * one := by
    have hquotient : (w >>> 12).toNat * floatScale / fractions ≤ one := by
      refine Nat.div_le_of_le_mul ?_
      exact Nat.mul_le_mul (fraction_lt w).le floatScale_le
    have := nearest_le ((w >>> 12).toNat * floatScale) fractions
    omega
  have hxLe : x ≤ 9 * one := by
    have := nearest_one_le (stretched + floatLow)
    rw [add] at hx
    omega
  have hyLe : y ≤ 19 * (one * tenPlaces) := by
    have hproduct := Nat.mul_le_mul_right tenPlaces hxLe
    rw [Nat.mul_assoc] at hproduct
    have := nearest_one_le (x * tenPlaces)
    omega
  have hroundLe : roundHalfUp y * one ≤ 20 * (one * tenPlaces) := by
    have hself := Nat.div_mul_le_self (2 * y + one) (2 * one)
    rw [Nat.mul_left_comm] at hself
    unfold roundHalfUp
    omega
  have hquotient : roundHalfUp y * one / tenPlaces ≤ 20 * one := by
    refine Nat.div_le_of_le_mul ?_
    rwa [Nat.mul_comm tenPlaces, Nat.mul_assoc]
  have hlast := nearest_le (roundHalfUp y * one) tenPlaces
  have := forty_one_lt_limit
  omega

theorem kept_floatOf (w : UInt64) : Kept (Double.text (.finite false (floatOf w))) :=
  kept_text ⟨Double.representable_nearest _ _, floatOf_lt_limit w⟩

theorem selected_le (count w : UInt64) : selected count w ≤ count.toNat := by
  refine Nat.div_le_of_le_mul ?_
  exact Nat.mul_le_mul_right _ w.toNat_lt_size.le

theorem drawIndex_le (count : UInt64) (tries : Nat) (w : σ) :
    ((drawIndex count tries).run w).1 ≤ count.toNat := by
  obtain ⟨x, hx⟩ := exists_drawIndex_eq_selected count tries w
  rw [hx]
  exact selected_le count x

theorem kept_drawWhole {low : Int} {count : UInt64} (hlow : -2 ^ 63 ≤ low) (hhigh : low < 2 ^ 63)
    (w : σ) : Kept ((drawWhole low count).run w).1 := by
  have hle := drawIndex_le count patience w
  have hcount := count.toNat_lt_size
  have hsize : UInt64.size = 2 ^ 64 := rfl
  show Kept (toString (low + (((drawIndex count patience).run w).1 : Int)))
  exact kept_toString (by omega) (by omega)

theorem kept_natCast {n : Nat} (h : n < 2 ^ 127) : Kept (toString n) :=
  kept_toString (i := n) (by omega) (by omega)

/-- Every class draws literals in their emitted form. -/
theorem kept_draw (cls : LiteralClass) (w : σ) : Kept ((draw cls).run w).1 := by
  cases cls with
  | bool => exact kept_true
  | float => exact kept_floatOf _
  | char | i8 | u8 | i16 | u16 => exact kept_drawWhole (by decide) (by decide) w
  | i32 =>
    have hlow := (word32.run w).1.toInt32.le_toInt
    have hhigh := (word32.run w).1.toInt32.toInt_lt
    exact kept_toString (i := (word32.run w).1.toInt32.toInt) (by omega) (by omega)
  | u32 =>
    have hhigh := (word32.run w).1.toNat_lt
    exact kept_natCast (n := (word32.run w).1.toNat) (by omega)
  | i64 =>
    have hlow := (word64.run w).1.toInt64.le_toInt
    have hhigh := (word64.run w).1.toInt64.toInt_lt
    exact kept_toString (i := (word64.run w).1.toInt64.toInt) (by omega) (by omega)
  | u64 =>
    have hhigh := (word64.run w).1.toNat_lt
    exact kept_natCast (n := (word64.run w).1.toNat) (by omega)

theorem kept_of_drawMany {literals : List String}
    (h : (drawMany base count : Draw σ _).outcome w = .ok literals) : ∀ s ∈ literals, Kept s := by
  rw [drawMany] at h
  split at h
  · refine Draw.forall_of_mapM_eq_ok (fun cls w s hs => ?_) h
    rw [Draw.outcome_lift] at hs
    rw [← Except.ok.inj hs]
    exact kept_draw cls w
  · cases h

/-- All inputs of a case are in their emitted form. -/
theorem kept_of_drawArguments {inputs : List (List String)}
    (h : (drawArguments types : Draw σ _).outcome w = .ok inputs) :
    ∀ literals ∈ inputs, ∀ s ∈ literals, Kept s :=
  Draw.forall_of_mapM_eq_ok (fun _ _ _ => kept_of_drawMany) h

end Literal

end OverloadSuite
