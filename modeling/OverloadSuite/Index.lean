import Std.Data.TreeMap.Lemmas

/-!
Indexes hold the values of a list of pairs by their keys, so that a key is found without a walk
along the list. Main statement: a key has the same value in an index as in its list.
-/
namespace OverloadSuite

/-- Values by their keys. -/
abbrev Index (α : Type) := Std.TreeMap String α

namespace Index

variable {α : Type}

/-- The index with further pairs; a key that has a value keeps it. -/
def extend (index : Index α) (pairs : List (String × α)) : Index α :=
  pairs.foldl (fun index pair => index.insertIfNew pair.1 pair.2) index

/-- The index of a list of pairs; of several values for one key the first one counts. -/
def ofList (pairs : List (String × α)) : Index α := extend ∅ pairs

theorem getElem?_extend (index : Index α) (pairs : List (String × α)) (key : String) :
    (extend index pairs)[key]? = (index[key]?).or (pairs.lookup key) := by
  induction pairs generalizing index with
  | nil => simp [extend]
  | cons pair pairs ih =>
    obtain ⟨k, value⟩ := pair
    rw [extend, List.foldl_cons]
    refine (ih _).trans ?_
    rw [Std.TreeMap.getElem?_insertIfNew, List.lookup_cons]
    by_cases hk : k = key
    · subst hk
      by_cases hmem : k ∈ index
      · simp [hmem]
      · simp [hmem]
    · simp [hk, beq_eq_false_iff_ne.mpr (Ne.symm hk)]

theorem getElem?_ofList (pairs : List (String × α)) (key : String) :
    (ofList pairs)[key]? = pairs.lookup key := by
  simp [ofList, getElem?_extend]

end Index

end OverloadSuite
