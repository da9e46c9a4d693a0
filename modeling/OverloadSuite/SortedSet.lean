import Std.Data.TreeSet.Lemmas

/-!
Finite sets as strictly ascending lists, so that equal sets are equal values and a listing of a set
has one order. Main statements: a set made of a list has the members of the list, and sets with the
same members are equal.
-/
namespace OverloadSuite

/-- Types in strict ascending order: of two different values exactly one comes first. -/
class StrictOrder (α : Type) [LT α] : Prop where
  irrefl : ∀ a : α, ¬a < a
  trans : ∀ {a b c : α}, a < b → b < c → a < c
  eq_of_not_lt : ∀ {a b : α}, ¬a < b → ¬b < a → a = b

instance : StrictOrder String :=
  ⟨String.lt_irrefl, String.lt_trans,
    fun h h' => String.le_antisymm (String.not_lt.mp h') (String.not_lt.mp h)⟩

instance : StrictOrder UInt32 :=
  ⟨UInt32.lt_irrefl, UInt32.lt_trans,
    fun h h' => UInt32.le_antisymm (UInt32.not_lt.mp h') (UInt32.not_lt.mp h)⟩

/-- A finite set, held as the strictly ascending list of its elements. -/
structure SortedSet (α : Type) [LT α] where
  toList : List α
  ascending : toList.Pairwise (· < ·) := by simp
deriving DecidableEq, Repr

namespace SortedSet

variable {α : Type} [LT α]

/-- The set without elements. -/
def empty : SortedSet α := { toList := [] }

instance : EmptyCollection (SortedSet α) := ⟨empty⟩

instance : Membership α (SortedSet α) := ⟨fun s a => a ∈ s.toList⟩

instance [DecidableEq α] (a : α) (s : SortedSet α) : Decidable (a ∈ s) :=
  inferInstanceAs (Decidable (a ∈ s.toList))

theorem mem_toList {a : α} {s : SortedSet α} : a ∈ s.toList ↔ a ∈ s := .rfl

theorem not_mem_empty (a : α) : a ∉ (∅ : SortedSet α) := List.not_mem_nil

/-- An ascending list with one more element, at its place; an element that is there stays. -/
def insertInto [DecidableLT α] (a : α) : List α → List α
  | [] => [a]
  | b :: bs => if a < b then a :: b :: bs else if b < a then b :: insertInto a bs else b :: bs

variable [StrictOrder α]

/-- Ascending lists with the same members are equal. -/
theorem eq_of_mem_iff {as bs : List α} (ha : as.Pairwise (· < ·)) (hb : bs.Pairwise (· < ·))
    (h : ∀ c, c ∈ as ↔ c ∈ bs) : as = bs := by
  induction as generalizing bs with
  | nil => exact (List.eq_nil_iff_forall_not_mem.mpr fun c hc => by simpa using (h c).mpr hc).symm
  | cons a as ih =>
    cases bs with
    | nil => simpa using h a
    | cons b bs =>
      obtain ⟨hfirst, has⟩ := List.pairwise_cons.mp ha
      obtain ⟨hfirst', hbs⟩ := List.pairwise_cons.mp hb
      have hab : a = b := by
        rcases List.mem_cons.mp ((h a).mp List.mem_cons_self) with hab | hab
        · exact hab
        · rcases List.mem_cons.mp ((h b).mpr List.mem_cons_self) with hba | hba
          · exact hba.symm
          · exact absurd (StrictOrder.trans (hfirst b hba) (hfirst' a hab)) (StrictOrder.irrefl a)
      subst hab
      refine congrArg (a :: ·) (ih has hbs fun c => ⟨fun hc => ?_, fun hc => ?_⟩)
      · rcases List.mem_cons.mp ((h c).mp (List.mem_cons_of_mem _ hc)) with rfl | hc'
        · exact absurd (hfirst c hc) (StrictOrder.irrefl c)
        · exact hc'
      · rcases List.mem_cons.mp ((h c).mpr (List.mem_cons_of_mem _ hc)) with rfl | hc'
        · exact absurd (hfirst' c hc) (StrictOrder.irrefl c)
        · exact hc'

/-- Sets with the same members are equal. -/
theorem eq_of_forall_mem_iff {s t : SortedSet α} (h : ∀ a, a ∈ s ↔ a ∈ t) : s = t := by
  cases s with
  | mk as ha =>
    cases t with
    | mk bs hb =>
      have hlist : as = bs := eq_of_mem_iff ha hb h
      subst hlist
      rfl

variable [DecidableLT α]

theorem mem_insertInto {a x : α} {bs : List α} : x ∈ insertInto a bs ↔ x = a ∨ x ∈ bs := by
  induction bs with
  | nil => simp [insertInto]
  | cons b bs ih =>
    simp only [insertInto]
    split
    · simp
    · split
      · simp only [List.mem_cons, ih, or_left_comm]
      · rename_i hab hba
        have : a = b := StrictOrder.eq_of_not_lt hab hba
        simp [this]

theorem insertInto_ascending (a : α) {bs : List α} (h : bs.Pairwise (· < ·)) :
    (insertInto a bs).Pairwise (· < ·) := by
  induction bs with
  | nil => simp [insertInto]
  | cons b bs ih =>
    obtain ⟨hfirst, hbs⟩ := List.pairwise_cons.mp h
    simp only [insertInto]
    split
    · rename_i hab
      refine List.pairwise_cons.mpr ⟨fun c hc => ?_, h⟩
      rcases List.mem_cons.mp hc with rfl | hc
      · exact hab
      · exact StrictOrder.trans hab (hfirst c hc)
    · split
      · rename_i hba
        refine List.pairwise_cons.mpr ⟨fun c hc => ?_, ih hbs⟩
        rcases mem_insertInto.mp hc with rfl | hc
        · exact hba
        · exact hfirst c hc
      · exact h

/-- The set with one more element. -/
def insert (s : SortedSet α) (a : α) : SortedSet α :=
  ⟨insertInto a s.toList, insertInto_ascending a s.ascending⟩

theorem mem_insert {s : SortedSet α} {a x : α} : x ∈ s.insert a ↔ x = a ∨ x ∈ s := mem_insertInto

/-- The set with the elements of a list inserted, the last one first. -/
def insertMany (s : SortedSet α) (as : List α) : SortedSet α := as.foldr (fun a s => s.insert a) s

theorem mem_insertMany {s : SortedSet α} {as : List α} {x : α} :
    x ∈ s.insertMany as ↔ x ∈ as ∨ x ∈ s := by
  induction as with
  | nil => simp [insertMany]
  | cons a as ih =>
    rw [insertMany, List.foldr_cons, mem_insert, ← insertMany, ih, List.mem_cons, or_assoc]

variable [Ord α] [Std.TransOrd α] [Std.LawfulEqOrd α]

/-- The set of the elements of a list. They are put in order first, so that each is inserted at the
front. -/
def ofList (as : List α) : SortedSet α := insertMany ∅ (Std.TreeSet.ofList as).toList

theorem mem_ofList [BEq α] [LawfulBEq α] {as : List α} {x : α} : x ∈ ofList as ↔ x ∈ as := by
  simp [ofList, mem_insertMany, not_mem_empty, Std.TreeSet.mem_ofList]

theorem ofList_toList [BEq α] [LawfulBEq α] (s : SortedSet α) : ofList s.toList = s :=
  eq_of_forall_mem_iff fun _ => mem_ofList

end SortedSet

end OverloadSuite
