import Mathlib.Algebra.Group.Nat.Defs
import OverloadSuite.Proofs.Signature.Product

/-!
# The odometer

Rows of positions below bounds can be run through like the readings of an odometer: the last wheel
turns first, and a wheel that comes around to zero turns the one before it. Started at zero, the
readings are the choices in ascending order, and they end after as many turns as there are choices.
-/

namespace OverloadSuite.Odometer

open Signature

variable {n i : Nat} {ns p : List Nat} {ps rest : List (List Nat)}

/-- The reading of which every wheel stands at zero. -/
def zeros (ns : List Nat) : List Nat := ns.map fun _ => 0

/-- The reading after one turn; there is none if all wheels have come around. -/
def next? : List Nat → List Nat → Option (List Nat)
  | n :: ns, i :: p =>
    match next? ns p with
    | some q => some (i :: q)
    | none => if i + 1 < n then some ((i + 1) :: zeros ns) else none
  | _, _ => none

/-- The readings from one on, if all wheels come around within some number of turns. -/
def readingsFrom? (ns : List Nat) : Nat → List Nat → Option (List (List Nat))
  | 0, _ => none
  | turns + 1, p =>
    match next? ns p with
    | none => some [p]
    | some q => (readingsFrom? ns turns q).map (p :: ·)

/-- All readings; there are none if some wheel has no position to stand at. -/
def readings? (ns : List Nat) : Option (List (List Nat)) :=
  if 0 ∈ ns then some [] else readingsFrom? ns ns.prod (zeros ns)

/-- The readings from one on until all wheels have come around. -/
inductive Runs (ns : List Nat) : List Nat → List (List Nat) → Prop
  | last {p : List Nat} : next? ns p = none → Runs ns p [p]
  | turn {p q : List Nat} {ps : List (List Nat)} :
    next? ns p = some q → Runs ns q ps → Runs ns p (p :: ps)

theorem Runs.readingsFrom? (h : Runs ns p ps) : readingsFrom? ns ps.length p = some ps := by
  induction h with
  | last hlast => simp [Odometer.readingsFrom?, hlast]
  | turn hnext _ ih => simp [Odometer.readingsFrom?, hnext, ih]

/-- Behind a wheel that stands still the other wheels come around; then it turns, if it can. -/
theorem Runs.cons (h : Runs ns p ps) (hturn : i + 1 < n → Runs (n :: ns) ((i + 1) :: zeros ns) rest)
    (hend : ¬i + 1 < n → rest = []) : Runs (n :: ns) (i :: p) (ps.map (i :: ·) ++ rest) := by
  induction h with
  | @last p hlast =>
    by_cases hi : i + 1 < n
    · exact .turn (by simp [next?, hlast, hi]) (hturn hi)
    · rw [hend hi]
      exact .last (by simp [next?, hlast, hi])
  | turn hnext _ ih => exact .turn (by simp [next?, hnext]) ih

theorem runs_choices (hpos : 0 ∉ ns) : Runs ns (zeros ns) (choices ns) := by
  induction ns with
  | nil => exact .last rfl
  | cons n ns ih =>
    obtain ⟨hn, hns⟩ : 0 ≠ n ∧ 0 ∉ ns := by simpa using hpos
    -- the first wheel still has `left` positions after `i`
    have hwheel : ∀ left i, i + left + 1 = n → Runs (n :: ns) (i :: zeros ns)
        ((List.range' i (left + 1)).flatMap fun i => (choices ns).map (i :: ·)) := by
      intro left
      induction left with
      | zero =>
        intro i hi
        exact (ih hns).cons (fun h => absurd h (by omega)) fun _ => rfl
      | succ left ihl =>
        intro i hi
        exact (ih hns).cons (fun _ => ihl (i + 1) (by omega)) fun h => absurd h (by omega)
    have hall := hwheel (n - 1) 0 (by omega)
    rwa [show n - 1 + 1 = n by omega, ← List.range_eq_range'] at hall

theorem length_choices (ns : List Nat) : (choices ns).length = ns.prod := by
  induction ns with
  | nil => rfl
  | cons n ns ih => simp [choices, List.length_flatMap, ih]

theorem choices_eq_nil (h : 0 ∈ ns) : choices ns = [] := by
  refine List.eq_nil_iff_forall_not_mem.mpr fun p hp => ?_
  obtain ⟨i, -, hi⟩ := Outcome.exists_of_forall₂_right (mem_choices.mp hp) h
  exact Nat.not_lt_zero i hi

/-- **The odometer runs through the choices** in ascending order, and it comes to an end. -/
theorem readings?_eq_choices (ns : List Nat) : readings? ns = some (choices ns) := by
  rw [readings?]
  split
  · rename_i hzero
    rw [choices_eq_nil hzero]
  · rename_i hpos
    rw [← length_choices]
    exact (runs_choices hpos).readingsFrom?

end OverloadSuite.Odometer
