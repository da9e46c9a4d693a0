import OverloadSuite.Signature.Basic
import Std.Data.TreeSet.Lemmas

/-!
Overloads: signatures with a concrete type bound to each argument and to the return type. Two
overloads of the same function with the same types and pointers are the same, whatever their
templates say besides. Main statement: of a list of overloads, those remain that are not the same as
an earlier one.
-/
namespace OverloadSuite

/-- A concrete overload and the template it comes from. -/
structure Overload where
  template : Signature
  returnType : TypeEntry
  argTypes : List TypeEntry
deriving DecidableEq, Repr

namespace Overload

/-- An overload with a pointer argument. -/
def hasPointer (o : Overload) : Bool := !o.template.pointers.isEmpty

/-- How an overload is shown: the return type, the qualified name and the argument types, as emitted
code spells them. -/
def text (o : Overload) : String :=
  o.returnType.name ++ " " ++ o.template.qualifiedName ++ "(" ++
    String.intercalate ", " (o.argTypes.map (·.name)) ++ ")"

/-- The keys of the argument types. -/
def argKeys (o : Overload) : List String := o.argTypes.map (·.key)

/-- What tells overloads apart. -/
structure Identity where
  scope : String
  name : String
  returnKey : String
  argKeys : List String
  pointers : List UInt64
deriving DecidableEq, Repr

namespace Identity

/-- The key of the return type and then those of the arguments. -/
def keys (i : Identity) : List String := i.returnKey :: i.argKeys

/-- An order of identities: by their keys first, for these differ most often. -/
instance : Ord Identity :=
  ⟨compareLex (compareOn keys)
    (compareLex (compareOn name) (compareLex (compareOn scope) (compareOn pointers)))⟩

instance : Std.TransOrd Identity :=
  inferInstanceAs (Std.TransCmp (compareLex (compareOn keys)
    (compareLex (compareOn name) (compareLex (compareOn scope) (compareOn pointers)))))

instance : Std.LawfulEqOrd Identity where
  eq_of_compare {i j} h := by
    obtain ⟨hkeys, h⟩ := compareLex_eq_eq.mp h
    obtain ⟨hname, h⟩ := compareLex_eq_eq.mp h
    obtain ⟨hscope, hpointers⟩ := compareLex_eq_eq.mp h
    obtain ⟨hreturn, hargs⟩ := List.cons.inj (Std.compare_eq_iff_eq.mp hkeys)
    cases i
    cases j
    exact mk.injEq .. ▸ ⟨Std.compare_eq_iff_eq.mp hscope, Std.compare_eq_iff_eq.mp hname, hreturn,
      hargs, Std.compare_eq_iff_eq.mp hpointers⟩

end Identity

/-- The identity of an overload. -/
def identity (o : Overload) : Identity where
  scope := o.template.scope
  name := o.template.name
  returnKey := o.returnType.key
  argKeys := o.argKeys
  pointers := o.template.pointers

/-- Two overloads are the same in scope, name, return key, argument keys and pointers. -/
def same (a b : Overload) : Bool := a.identity == b.identity

/-- The overloads of `kept` and, after them, those of a list that are the same as none before them,
where `seen` holds the identities from before the list. -/
def distinctAfter (seen : Std.TreeSet Identity) (kept : Array Overload) :
    List Overload → List Overload
  | [] => kept.toList
  | o :: os =>
    let identity := o.identity
    if seen.contains identity then distinctAfter seen kept os
    else distinctAfter (seen.insert identity) (kept.push o) os

/-- The overloads without those that are the same as an earlier one. -/
def distinct (os : List Overload) : List Overload := distinctAfter ∅ #[] os

theorem distinctAfter_eq (seen : Std.TreeSet Identity) (kept : Array Overload)
    (os : List Overload) :
    distinctAfter seen kept os =
      kept.toList ++ (os.filter fun o => !seen.contains o.identity).eraseDupsBy same := by
  induction os generalizing seen kept with
  | nil => simp [distinctAfter, List.eraseDupsBy, List.eraseDupsBy.loop]
  | cons o os ih =>
    simp only [distinctAfter]
    by_cases h : seen.contains o.identity
    · simp [h, ih]
    · have hnew : (os.filter fun x => !(seen.insert o.identity).contains x.identity) =
          (os.filter fun x => !seen.contains x.identity).filter
            fun x => decide (same x o = false) := by
        rw [List.filter_filter]
        refine List.filter_congr fun x _ => ?_
        have hsame : (compare o.identity x.identity == .eq) = same x o := by
          rw [same, Bool.eq_iff_iff, beq_iff_eq, beq_iff_eq, Std.compare_eq_iff_eq, eq_comm]
        rw [Std.TreeSet.contains_insert, hsame]
        cases same x o <;> simp
      rw [if_neg h, ih, hnew, List.filter_cons_of_pos (by simp [h]), List.eraseDupsBy_cons]
      simp

theorem distinct_eq_eraseDupsBy (os : List Overload) : distinct os = os.eraseDupsBy same := by
  have h : (os.filter fun o => !(∅ : Std.TreeSet Identity).contains o.identity) = os :=
    List.filter_eq_self.mpr fun o _ => by simp
  rw [distinct, distinctAfter_eq, h]
  rfl

end Overload

end OverloadSuite
