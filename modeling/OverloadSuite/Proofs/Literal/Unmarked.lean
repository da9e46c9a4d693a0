import OverloadSuite.Proofs.Literal.Kept
import OverloadSuite.Proofs.Text.Brackets

/-!
# Literals without brackets

Literals consist of letters, digits, signs and points, so no literal that is drawn has a bracket, a
double quote or a backslash, and neither has a suffix.
-/

namespace OverloadSuite

open Text

theorem not_isMark_of_isDigit {d : Char} (hd : d.isDigit = true) : isMark d = false := by
  by_contra hmark
  simp only [isMark, Bool.not_eq_false, List.contains_iff_mem, List.mem_cons, List.not_mem_nil,
    or_false] at hmark
  rcases hmark with rfl | rfl | rfl | rfl | rfl | rfl | rfl | rfl <;> cases hd

theorem marks_of_isDigit {digits : List Char} (h : ∀ d ∈ digits, d.isDigit = true) :
    marks digits = [] := by
  refine List.filter_eq_nil_iff.mpr fun d hd => ?_
  simp [not_isMark_of_isDigit (h d hd)]

@[simp] theorem marks_toDigits (n : Nat) : marks (Nat.toDigits 10 n) = [] :=
  marks_of_isDigit fun _ hd => Decimal.isDigit_of_mem_toDigits hd

theorem marks_toString (n : Nat) : marks (toString n).toList = [] := by
  simp

theorem marks_toString_int (i : Int) : marks (toString i).toList = [] := by
  rw [Decimal.toList_toString]
  split <;> simp [isMark]

namespace Double

theorem marks_positional (c n : Nat) : marks (positional c n) = [] := by
  obtain ⟨whole, fraction, hwrites⟩ := exists_writes c n
  obtain ⟨hwhole, hfraction⟩ := List.forall_mem_append.mp hwrites.isDigit
  rw [hwrites.text]
  simp [marks_of_isDigit hwhole, marks_of_isDigit hfraction, isMark]

theorem marks_text_finite (negative : Bool) (units : Nat) :
    marks (text (.finite negative units)).toList = [] := by
  have hmagnitude : marks (magnitudeText units) = [] := by
    unfold magnitudeText
    split
    · simp [isMark]
    · exact marks_positional ..
  rw [text, String.toList_ofList]
  split <;> simp [hmagnitude, isMark]

end Double

namespace Literal

variable {σ : Type} [WordSource σ] {w : σ} {base : String} {count : Nat} {types : List TypeEntry}

theorem marks_drawWhole (low : Int) (count : UInt64) (w : σ) :
    marks ((drawWhole low count).run w).1.toList = [] := by
  show marks (toString (low + (((drawIndex count patience).run w).1 : Int))).toList = []
  exact marks_toString_int _

/-- No class has other literals. -/
theorem marks_draw (cls : LiteralClass) (w : σ) : marks ((draw cls).run w).1.toList = [] := by
  cases cls with
  | bool =>
    show marks "true".toList = []
    simp [isMark]
  | float => exact Double.marks_text_finite ..
  | char | i8 | u8 | i16 | u16 => exact marks_drawWhole ..
  | i32 => exact marks_toString_int (word32.run w).1.toInt32.toInt
  | u32 => exact marks_toString (word32.run w).1.toNat
  | i64 => exact marks_toString_int (word64.run w).1.toInt64.toInt
  | u64 => exact marks_toString (word64.run w).1.toNat

theorem marks_of_drawMany {literals : List String}
    (h : (drawMany base count : Draw σ _).outcome w = .ok literals) :
    ∀ s ∈ literals, marks s.toList = [] := by
  rw [drawMany] at h
  split at h
  · refine Draw.forall_of_mapM_eq_ok (fun cls w s hs => ?_) h
    rw [Draw.outcome_lift] at hs
    rw [← Except.ok.inj hs]
    exact marks_draw cls w
  · cases h

theorem marks_of_drawArguments {inputs : List (List String)}
    (h : (drawArguments types : Draw σ _).outcome w = .ok inputs) :
    ∀ literals ∈ inputs, ∀ s ∈ literals, marks s.toList = [] :=
  Draw.forall_of_mapM_eq_ok (fun _ _ _ => marks_of_drawMany) h

theorem marks_suffix (base : String) : marks (suffix base).toList = [] := by
  cases hbase : suffixes.lookup base with
  | none => simp [suffix, hbase]
  | some s =>
    have hall : ∀ entry ∈ suffixes, marks entry.2.toList = [] := by
      simp [suffixes, isMark]
    obtain ⟨before, after, hentry, -⟩ := List.lookup_eq_some_iff.mp hbase
    rw [suffix, hbase]
    exact hall (base, s) (by simp [hentry])

/-- An initializer has no marks besides those of its literals. -/
theorem marks_initializer {literals : List String} (h : ∀ s ∈ literals, marks s.toList = [])
    (base : String) : marks (initializer base literals).toList = [] := by
  simpa [initializer, marks_intercalate, List.flatMap_map, marks_suffix, isMark] using h

end Literal

end OverloadSuite
