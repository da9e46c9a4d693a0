import OverloadSuite.Proofs.Signature.Lanes

/-!
# Static references on whole numbers

Whole numbers may be spelled with a sign and with leading zeros, so that literals with the same
value need not be equal. A reference compares them by their values and gives one of them back as it
is spelled. Of two operands with the same value the first one is kept, which makes clamping
idempotent down to the spelling.
-/

namespace OverloadSuite

/-- A literal that is a whole number. -/
structure Numeral where
  spelling : String
  value : Int
  reads : Decimal.readInt? spelling = some value

namespace Numeral

variable {a b low high x r : Numeral} {operands : List Numeral} {value : Int}

/-- The smaller of two numerals, the first one if neither is smaller. -/
def smaller (a b : Numeral) : Numeral := if b.value < a.value then b else a

/-- The larger of two numerals, the first one if neither is larger. -/
def larger (a b : Numeral) : Numeral := if a.value < b.value then b else a

/-- The first of some operands with a value. -/
def FirstWith (value : Int) (operands : List Numeral) (r : Numeral) : Prop :=
  operands.find? (fun m => m.value = value) = some r

theorem FirstWith.value_eq (h : FirstWith value operands r) : r.value = value := by
  simpa using List.find?_some h

theorem FirstWith.mem (h : FirstWith value operands r) : r ∈ operands := List.mem_of_find?_eq_some h

theorem firstWith_smaller (a b : Numeral) :
    FirstWith (min a.value b.value) [a, b] (a.smaller b) := by
  unfold FirstWith smaller
  split
  · have hb : min a.value b.value = b.value := by omega
    have ha : a.value ≠ b.value := by omega
    simp [hb, ha]
  · have ha : min a.value b.value = a.value := by omega
    simp [ha]

theorem firstWith_larger (a b : Numeral) : FirstWith (max a.value b.value) [a, b] (a.larger b) := by
  unfold FirstWith larger
  split
  · have hb : max a.value b.value = b.value := by omega
    have ha : a.value ≠ b.value := by omega
    simp [hb, ha]
  · have ha : max a.value b.value = a.value := by omega
    simp [ha]

/-- Clamping again changes nothing, whether or not the bounds are crossed. -/
theorem clamp_clamp (x low high : Numeral) :
    (((x.larger low).smaller high).larger low).smaller high = (x.larger low).smaller high := by
  unfold smaller larger
  split_ifs <;> rfl

theorem literalOrder_spelling (a b : Numeral) :
    literalOrder a.spelling b.spelling = compare a.value b.value := by
  rw [literalOrder, a.reads, b.reads]

theorem normalLiteral_spelling (a : Numeral) : normalLiteral a.spelling = a.spelling := by
  rw [normalLiteral, a.reads]

theorem smallerLiteral_spelling (a b : Numeral) :
    smallerLiteral a.spelling b.spelling = (a.smaller b).spelling := by
  rw [smallerLiteral, literalOrder_spelling, smaller]
  simp only [compare_gt_iff_gt]
  split
  · exact b.normalLiteral_spelling
  · exact a.normalLiteral_spelling

theorem largerLiteral_spelling (a b : Numeral) :
    largerLiteral a.spelling b.spelling = (a.larger b).spelling := by
  rw [largerLiteral, literalOrder_spelling, larger]
  simp only [compare_lt_iff_lt]
  split
  · exact b.normalLiteral_spelling
  · exact a.normalLiteral_spelling

end Numeral

variable {literals : List String} {args : List (List String)} {n j : Nat}

/-- Arguments of whole numbers, over a number of lanes. -/
structure Aligned (n : Nat) (args : List (List String)) : Prop where
  lengths : ∀ literals ∈ args, literals.length = 1 ∨ literals.length = n
  longest : ∃ literals ∈ args, literals.length = n
  numerals : ∀ literals ∈ args, ∀ s ∈ literals, ∃ value, Decimal.readInt? s = some value

theorem laneCount_le (h : ∀ literals ∈ args, literals.length ≤ n) : laneCount args ≤ n := by
  have hlengths : ∀ length ∈ args.map List.length, length ≤ n := by simpa using h
  rw [laneCount, List.foldl_max]
  cases hmax : (args.map List.length).max? with
  | none => simp
  | some longest => simpa using (List.max?_le_iff hmax).mpr hlengths

theorem laneCount_singleton (literals : List String) : laneCount [literals] = literals.length := by
  simp [laneCount]

theorem Aligned.laneCount_eq (h : Aligned n args) (hn : 1 ≤ n) : laneCount args = n := by
  obtain ⟨literals, hmem, hlength⟩ := h.longest
  have hle := length_le_laneCount hmem
  have hge : laneCount args ≤ n := laneCount_le fun literals hmem => by
    rcases h.lengths literals hmem with hone | hall <;> omega
  omega

/-- Every argument has a numeral in every lane. -/
theorem Aligned.exists_laneOf? (h : Aligned n args) (hj : j < n) (hmem : literals ∈ args) :
    ∃ m : Numeral, laneOf? literals j = some m.spelling := by
  have hsome : (laneOf? literals j).isSome = true :=
    isSome_laneOf?.mpr ((h.lengths literals hmem).imp_right fun hall => by omega)
  obtain ⟨s, hs⟩ := Option.isSome_iff_exists.mp hsome
  obtain ⟨value, hvalue⟩ := h.numerals literals hmem s (mem_of_laneOf? hs)
  exact ⟨⟨s, value, hvalue⟩, hs⟩

/-- The numerals that stand in a lane, one of each argument. -/
def NumeralsAt (args : List (List String)) (j : Nat) (lane : List Numeral) : Prop :=
  List.Forall₂ (fun literals m => laneOf? literals j = some m.spelling) args lane

theorem Aligned.exists_numeralsAt (h : Aligned n args) (hj : j < n) :
    ∃ lane, NumeralsAt args j lane :=
  Outcome.exists_forall₂ fun _ hmem => h.exists_laneOf? hj hmem

section Rows

variable {m : Numeral} {row : List String}

theorem getElem?_lanes_of_numeral (hj : j < n) (hm : laneOf? literals j = some m.spelling) :
    (lanes n literals)[j]? = some m.spelling := by
  rw [getElem?_lanes hj, hm, Option.getD_some]

theorem getElem?_zipWith_smaller {a : Numeral} (hj : j < n) (ha : row[j]? = some a.spelling)
    (hm : laneOf? literals j = some m.spelling) :
    (row.zipWith smallerLiteral (lanes n literals))[j]? = some (a.smaller m).spelling := by
  rw [List.getElem?_zipWith, ha, getElem?_lanes_of_numeral hj hm]
  exact congrArg some (a.smallerLiteral_spelling m)

theorem getElem?_zipWith_larger {a : Numeral} (hj : j < n) (ha : row[j]? = some a.spelling)
    (hm : laneOf? literals j = some m.spelling) :
    (row.zipWith largerLiteral (lanes n literals))[j]? = some (a.larger m).spelling := by
  rw [List.getElem?_zipWith, ha, getElem?_lanes_of_numeral hj hm]
  exact congrArg some (a.largerLiteral_spelling m)

end Rows

namespace Reference

open List (forall₂_cons_left_iff forall₂_nil_left_iff)
open Numeral (FirstWith)

variable {reference : Reference} {lane : List Numeral} {r : Numeral}

/-- The numeral that a reference gives for those of a lane. -/
def ofLane? : Reference → List Numeral → Option Numeral
  | identity, [a] => some a
  | min, [a, b] => some (a.smaller b)
  | max, [a, b] => some (a.larger b)
  | clamp, [x, low, high] => some ((x.larger low).smaller high)
  | _, _ => none

theorem exists_getElem?_apply_of_numeralsAt (harity : reference.arity ≤ args.length) (hn : 1 ≤ n)
    (h : Aligned n (args.take reference.arity)) (hj : j < n)
    (hlane : NumeralsAt (args.take reference.arity) j lane) :
    ∃ r, reference.ofLane? lane = some r ∧ (reference.apply args)[j]? = some r.spelling := by
  obtain rfl := h.laneCount_eq hn
  -- a reference of no more arguments than there are reads the first ones, one numeral of each
  cases reference with
  | identity =>
    match args, harity with
    | a :: args, _ =>
      obtain ⟨ma, _, ha, hnil, rfl⟩ := forall₂_cons_left_iff.mp hlane
      obtain rfl := forall₂_nil_left_iff.mp hnil
      have hlt : j < a.length := laneCount_singleton a ▸ hj
      exact ⟨ma, rfl, (laneOf?_of_lt hlt).symm.trans ha⟩
  | min =>
    match args, harity with
    | a :: b :: args, _ =>
      obtain ⟨ma, _, ha, hrest, rfl⟩ := forall₂_cons_left_iff.mp hlane
      obtain ⟨mb, _, hb, hnil, rfl⟩ := forall₂_cons_left_iff.mp hrest
      obtain rfl := forall₂_nil_left_iff.mp hnil
      exact ⟨ma.smaller mb, rfl,
        getElem?_zipWith_smaller hj (getElem?_lanes_of_numeral hj ha) hb⟩
  | max =>
    match args, harity with
    | a :: b :: args, _ =>
      obtain ⟨ma, _, ha, hrest, rfl⟩ := forall₂_cons_left_iff.mp hlane
      obtain ⟨mb, _, hb, hnil, rfl⟩ := forall₂_cons_left_iff.mp hrest
      obtain rfl := forall₂_nil_left_iff.mp hnil
      exact ⟨ma.larger mb, rfl,
        getElem?_zipWith_larger hj (getElem?_lanes_of_numeral hj ha) hb⟩
  | clamp =>
    match args, harity with
    | x :: low :: high :: args, _ =>
      obtain ⟨mx, _, hx, hbounds, rfl⟩ := forall₂_cons_left_iff.mp hlane
      obtain ⟨mlow, _, hlow, hrest, rfl⟩ := forall₂_cons_left_iff.mp hbounds
      obtain ⟨mhigh, _, hhigh, hnil, rfl⟩ := forall₂_cons_left_iff.mp hrest
      obtain rfl := forall₂_nil_left_iff.mp hnil
      refine ⟨(mx.larger mlow).smaller mhigh, rfl, ?_⟩
      exact getElem?_zipWith_smaller hj
        (getElem?_zipWith_larger hj (getElem?_lanes_of_numeral hj hx) hlow) hhigh

/-- How a reference orders the numerals of a lane. Among operands of the same value the first one is
meant; clamping raises to the lower bound first and lowers to the upper bound then. -/
def Orders : Reference → List Numeral → Numeral → Prop
  | identity, [a], r => r = a
  | min, [a, b], r => FirstWith (Min.min a.value b.value) [a, b] r
  | max, [a, b], r => FirstWith (Max.max a.value b.value) [a, b] r
  | clamp, [x, low, high], r =>
    (∃ raised, FirstWith (Max.max x.value low.value) [x, low] raised ∧
      FirstWith (Min.min (Max.max x.value low.value) high.value) [raised, high] r) ∧
    (low.value ≤ high.value → low.value ≤ r.value ∧ r.value ≤ high.value)
  | _, _, _ => False

theorem orders_of_ofLane? (h : reference.ofLane? lane = some r) :
    r ∈ lane ∧ reference.Orders lane r := by
  unfold ofLane? at h
  split at h
  · cases h
    exact ⟨by simp, rfl⟩
  · rename_i a b
    cases h
    exact ⟨(a.firstWith_smaller b).mem, a.firstWith_smaller b⟩
  · rename_i a b
    cases h
    exact ⟨(a.firstWith_larger b).mem, a.firstWith_larger b⟩
  · rename_i x low high
    cases h
    have hraised := x.firstWith_larger low
    have hr := (x.larger low).firstWith_smaller high
    have hraisedValue := hraised.value_eq
    have hrValue := hr.value_eq
    refine ⟨?_, ⟨x.larger low, hraised, hraisedValue ▸ hr⟩, fun hbounds => ?_⟩
    · have hmem := hraised.mem
      have hmem' := hr.mem
      simp only [List.mem_cons, List.not_mem_nil, or_false] at hmem hmem' ⊢
      rcases hmem' with h | h
      · rw [h]
        exact hmem.imp_right .inl
      · exact .inr (.inr h)
    · omega
  · cases h

/-- Arguments behind those that are read play no part. -/
theorem apply_take_append (harity : reference.arity ≤ args.length) (more : List (List String)) :
    reference.apply (args.take reference.arity ++ more) = reference.apply args := by
  cases reference with
  | identity =>
    match args, harity with
    | _ :: _, _ => rfl
  | min | max =>
    match args, harity with
    | _ :: _ :: _, _ => rfl
  | clamp =>
    match args, harity with
    | _ :: _ :: _ :: _, _ => rfl

/-- The result of a reference is a row of numerals, one for each lane. -/
theorem numeral_of_mem_apply (harity : reference.arity ≤ args.length) (hn : 1 ≤ n)
    (h : Aligned n (args.take reference.arity)) {s : String} (hs : s ∈ reference.apply args) :
    ∃ value, Decimal.readInt? s = some value := by
  obtain ⟨j, hj, rfl⟩ := List.getElem_of_mem hs
  have hlt : j < n := by rwa [length_apply harity, h.laneCount_eq hn] at hj
  obtain ⟨lane, hlane⟩ := h.exists_numeralsAt hlt
  obtain ⟨r, -, hr⟩ := exists_getElem?_apply_of_numeralsAt harity hn h hlt hlane
  rw [List.getElem?_eq_getElem hj, Option.some.injEq] at hr
  exact ⟨r.value, hr ▸ r.reads⟩

/-- What has been clamped is within its bounds, or at the upper one if they are
crossed, so that it is kept. -/
theorem apply_clamp_clamp {x low high : List String} (hn : 1 ≤ n) (h : Aligned n [x, low, high]) :
    clamp.apply (clamp.apply (x :: low :: high :: args) :: low :: high :: args) =
      clamp.apply (x :: low :: high :: args) := by
  have harity : ∀ y : List String, clamp.arity ≤ (y :: low :: high :: args).length := by
    simp [arity]
  generalize hclamped : clamp.apply (x :: low :: high :: args) = clamped
  have hlength : clamped.length = n := by
    rw [← hclamped, length_apply (harity x)]
    exact h.laneCount_eq hn
  -- what has been clamped is a row of numerals again, as long as there are lanes
  have hagain : Aligned n [clamped, low, high] := by
    refine ⟨?_, ⟨clamped, by simp, hlength⟩, ?_⟩
    · exact List.forall_mem_cons.mpr
        ⟨.inr hlength, fun literals hmem => h.lengths literals (List.mem_cons_of_mem x hmem)⟩
    · refine List.forall_mem_cons.mpr
        ⟨fun s hs => ?_, fun literals hmem => h.numerals literals (List.mem_cons_of_mem x hmem)⟩
      exact numeral_of_mem_apply (harity x) hn h (hclamped ▸ hs)
  apply List.ext_getElem?
  intro j
  by_cases hj : j < n
  · have hlane : ∀ y ∈ [x, low, high], ∃ m : Numeral, laneOf? y j = some m.spelling :=
      fun y hy => h.exists_laneOf? hj hy
    obtain ⟨mx, hx⟩ := hlane x (by simp)
    obtain ⟨mlow, hlow⟩ := hlane low (by simp)
    obtain ⟨mhigh, hhigh⟩ := hlane high (by simp)
    obtain ⟨r, hr, hentry⟩ := exists_getElem?_apply_of_numeralsAt (harity x) hn h hj
      (.cons hx (.cons hlow (.cons hhigh .nil)))
    cases hr
    rw [hclamped] at hentry
    have hagainX : laneOf? clamped j = some ((mx.larger mlow).smaller mhigh).spelling := by
      rw [laneOf?_of_lt (by omega), hentry]
    obtain ⟨r', hr', hentry'⟩ := exists_getElem?_apply_of_numeralsAt (harity clamped) hn hagain hj
      (.cons hagainX (.cons hlow (.cons hhigh .nil)))
    cases hr'
    rw [hentry', hentry, Numeral.clamp_clamp]
  · have hlength' : (clamp.apply (clamped :: low :: high :: args)).length = n := by
      rw [length_apply (harity clamped)]
      exact hagain.laneCount_eq hn
    rw [List.getElem?_eq_none (by omega), List.getElem?_eq_none (by omega)]

/-- **References order whole numbers lane by lane.** The result has a literal for each lane: of the
literals that stand in the lane the one with the minimum, the maximum or the clamped value, as it is
spelled. Arguments that are not read do not matter, and clamping again changes nothing. -/
theorem apply_orders_numerals (harity : reference.arity ≤ args.length) (hn : 1 ≤ n)
    (h : Aligned n (args.take reference.arity)) :
    (reference.apply args).length = n ∧
    (∀ j < n, ∃ lane, NumeralsAt (args.take reference.arity) j lane ∧
      ∃ r ∈ lane, (reference.apply args)[j]? = some r.spelling ∧ reference.Orders lane r) ∧
    (∀ more, reference.apply (args.take reference.arity ++ more) = reference.apply args) ∧
    (reference = clamp →
      reference.apply (reference.apply args :: args.tail) = reference.apply args) := by
  refine ⟨(length_apply harity).trans (h.laneCount_eq hn), fun j hj => ?_, fun more => ?_, ?_⟩
  · obtain ⟨lane, hlane⟩ := h.exists_numeralsAt hj
    obtain ⟨r, hr, hentry⟩ := exists_getElem?_apply_of_numeralsAt harity hn h hj hlane
    obtain ⟨hmem, horders⟩ := orders_of_ofLane? hr
    exact ⟨lane, hlane, r, hmem, hentry, horders⟩
  · exact apply_take_append harity more
  · rintro rfl
    match args, harity with
    | x :: low :: high :: args, _ => exact apply_clamp_clamp hn h

/-- Two lanes are clamped: in the first one the argument equals its upper bound and keeps its
spelling, in the second one it is raised to the lower bound. -/
theorem apply_orders_numerals_clamp :
    Aligned 2 [["+07", "-3"], ["0"], ["7", "4"]] ∧
      clamp.apply [["+07", "-3"], ["0"], ["7", "4"], ["9"]] = ["+07", "0"] ∧
      ∀ j < 2, ∃ lane, NumeralsAt [["+07", "-3"], ["0"], ["7", "4"]] j lane ∧
        ∃ r ∈ lane, (["+07", "0"] : List String)[j]? = some r.spelling ∧ clamp.Orders lane r := by
  have haligned : Aligned 2 [["+07", "-3"], ["0"], ["7", "4"]] := by
    have hnumerals : ∀ literals ∈ [["+07", "-3"], ["0"], ["7", "4"]], ∀ s ∈ literals,
        (Decimal.readInt? s).isSome = true := by decide +kernel
    exact ⟨by decide, ⟨["7", "4"], by decide, rfl⟩, fun literals hmem s hs =>
      Option.isSome_iff_exists.mp (hnumerals literals hmem s hs)⟩
  have happly : clamp.apply [["+07", "-3"], ["0"], ["7", "4"], ["9"]] = ["+07", "0"] := by
    decide +kernel
  have harity : clamp.arity ≤
      ([["+07", "-3"], ["0"], ["7", "4"], ["9"]] : List (List String)).length := by decide
  have h := apply_orders_numerals harity (by decide) haligned
  rw [happly] at h
  exact ⟨haligned, happly, h.2.1⟩

end Reference

end OverloadSuite
