import OverloadSuite.Signature.Overload

/-!
# The shape of static references

How many literals a static reference gives depends only on how many its arguments have: as many as
the longest of those that it reads.
-/

namespace OverloadSuite

theorem length_le_laneCount {args : List (List String)} {arg : List String} (h : arg ∈ args) :
    arg.length ≤ laneCount args := by
  rw [laneCount, List.foldl_max]
  exact Nat.le_trans (List.le_max?_getD_of_mem (List.mem_map_of_mem h)) (Nat.le_max_right ..)

/-- An argument serves all lanes. -/
theorem length_lanes {count : Nat} {literals : List String} (h : literals.length ≤ count) :
    (lanes count literals).length = count := by
  rw [lanes.eq_def]
  split
  · exact List.length_replicate
  · rw [List.length_append, List.length_replicate]
    omega

namespace Reference

/-- The largest number of elements among the arguments that a reference reads. -/
def width (reference : Reference) (types : List TypeEntry) : Nat :=
  ((types.take reference.arity).map fun t => t.dim.toNat).foldl Max.max 0

/-- A reference gives a literal for each lane of the arguments that it reads. -/
theorem length_apply {reference : Reference} {args : List (List String)}
    (h : reference.arity ≤ args.length) :
    (reference.apply args).length = laneCount (args.take reference.arity) := by
  have hlanes : ∀ args, ∀ arg ∈ args, (lanes (laneCount args) arg).length = laneCount args :=
    fun args arg harg => length_lanes (length_le_laneCount harg)
  cases reference with
  | identity =>
    obtain ⟨a, args, rfl⟩ := List.exists_cons_of_length_pos h
    simp [apply, arity, laneCount]
  | min | max =>
    match args, h with
    | a :: b :: args, _ => simp [apply, arity, hlanes]
  | clamp =>
    match args, h with
    | a :: low :: high :: args, _ => simp [apply, arity, hlanes]

theorem apply_of_length_lt {reference : Reference} {args : List (List String)}
    (h : args.length < reference.arity) : reference.apply args = [] := by
  cases reference with
  | identity =>
    match args, h with
    | [], _ => rfl
    | _ :: _, h => simp [arity] at h
  | min | max =>
    match args, h with
    | [], _ | [_], _ => rfl
    | _ :: _ :: _, h =>
      simp only [List.length_cons, arity] at h
      omega
  | clamp =>
    match args, h with
    | [], _ | [_], _ | [_, _], _ => rfl
    | _ :: _ :: _ :: _, h =>
      simp only [List.length_cons, arity] at h
      omega

/-- How many literals a reference gives depends on how many its arguments have, also if
there are too few of them. -/
theorem length_apply_congr {reference : Reference} {args args' : List (List String)}
    (h : args.map List.length = args'.map List.length) :
    (reference.apply args).length = (reference.apply args').length := by
  have hlen : args.length = args'.length := by simpa using congrArg List.length h
  by_cases hfew : args.length < reference.arity
  · rw [apply_of_length_lt hfew, apply_of_length_lt (by omega)]
  · rw [length_apply (by omega), length_apply (by omega), laneCount, laneCount, List.map_take, h,
      List.map_take]

/-- For literals as many as the types have elements, the number of lanes is the width. -/
theorem laneCount_eq_width {reference : Reference} {args : List (List String)}
    {types : List TypeEntry} (h : args.map List.length = types.map fun t => t.dim.toNat) :
    laneCount (args.take reference.arity) = reference.width types := by
  rw [laneCount, width, List.map_take, h, List.map_take]

/-- The number of lanes over arguments of some types; there are none if arguments are missing. -/
def laneCountOf (reference : Reference) (types : List TypeEntry) : Nat :=
  if types.length < reference.arity then 0 else reference.width types

theorem length_apply_eq {reference : Reference} {args : List (List String)}
    {types : List TypeEntry} (h : args.map List.length = types.map fun t => t.dim.toNat) :
    (reference.apply args).length = reference.laneCountOf types := by
  have hlength : args.length = types.length := by simpa using congrArg List.length h
  unfold laneCountOf
  split
  · rw [apply_of_length_lt (by omega)]
    rfl
  · rw [length_apply (by omega), laneCount_eq_width h]

end Reference

end OverloadSuite
