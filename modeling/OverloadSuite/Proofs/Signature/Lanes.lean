import OverloadSuite.Proofs.Literal.Kept
import OverloadSuite.Proofs.Signature.Reference

/-!
# Where the literals of a static reference come from

A reference picks, lane by lane, a literal of one of the arguments that it reads. An argument with
one literal has it in every lane. Only where the first argument has no literal is there none in
the result: the comparisons prefer the first argument, and the empty literal is neither smaller
nor larger than any other.
-/

namespace OverloadSuite

variable {literals : List String} {args : List (List String)} {count j : Nat}

/-! ## Comparing with the empty literal -/

theorem literalOrder_empty_left (b : String) : literalOrder "" b = .eq := by
  have hint : Decimal.readInt? "" = none := by decide
  have hdouble : Decimal.readDouble? "" = none := by decide
  unfold literalOrder
  rw [hint, hdouble]
  rfl

theorem order?_nan (x : Double) : x.order? .nan = none := by
  cases x <;> rfl

theorem literalOrder_empty_right (a : String) : literalOrder a "" = .eq := by
  have hint : Decimal.readInt? "" = none := by decide
  have hdouble : Decimal.readDouble? "" = none := by decide
  unfold literalOrder
  rw [hint, hdouble]
  split
  · rename_i hx
    cases hx
  · rw [Option.getD_none, order?_nan]
    rfl

theorem normalLiteral_empty : normalLiteral "" = "" := by decide

/-! ## Picking one of two literals -/

/-- A choice between two literals. It prefers the first one, and gives it in its emitted form. -/
structure Picks (pick : String → String → String) : Prop where
  empty_left : ∀ b, pick "" b = ""
  empty_right : ∀ {a}, Kept a → pick a "" = a
  either : ∀ {a b}, Kept a → Kept b → pick a b = a ∨ pick a b = b

theorem picks_smallerLiteral : Picks smallerLiteral where
  empty_left b := by
    rw [smallerLiteral, literalOrder_empty_left, if_neg nofun, normalLiteral_empty]
  empty_right {a} ha := by
    rw [smallerLiteral, literalOrder_empty_right, if_neg nofun, ha.normal]
  either {a b} ha hb := by
    unfold smallerLiteral
    split
    · exact .inr hb.normal
    · exact .inl ha.normal

theorem picks_largerLiteral : Picks largerLiteral where
  empty_left b := by
    rw [largerLiteral, literalOrder_empty_left, if_neg nofun, normalLiteral_empty]
  empty_right {a} ha := by
    rw [largerLiteral, literalOrder_empty_right, if_neg nofun, ha.normal]
  either {a b} ha hb := by
    unfold largerLiteral
    split
    · exact .inr hb.normal
    · exact .inl ha.normal

/-! ## Lanes -/

/-- The literal of an argument in a lane, if there is one. -/
def laneOf? (literals : List String) (j : Nat) : Option String :=
  if literals.length = 1 then literals.head? else literals[j]?

theorem mem_of_laneOf? {s : String} (h : s ∈ laneOf? literals j) : s ∈ literals := by
  unfold laneOf? at h
  split at h
  · exact List.mem_of_mem_head? h
  · exact List.mem_of_getElem? h

/-- An argument with one literal has all lanes, any other as many as it has literals. -/
theorem isSome_laneOf? : (laneOf? literals j).isSome = true ↔
    literals.length = 1 ∨ j < literals.length := by
  unfold laneOf?
  split
  · rename_i hone
    obtain ⟨s, rfl⟩ := List.length_eq_one_iff.mp hone
    simp
  · rename_i hne
    simp [hne]

theorem laneOf?_of_lt (h : j < literals.length) : laneOf? literals j = literals[j]? := by
  unfold laneOf?
  split
  · obtain rfl : j = 0 := by omega
    exact List.head?_eq_getElem?
  · rfl

/-- Spreading an argument over lanes does not move its literals. -/
theorem getElem?_lanes (h : j < count) :
    (lanes count literals)[j]? = some ((laneOf? literals j).getD "") := by
  unfold laneOf?
  split
  · rename_i hone
    obtain ⟨s, rfl⟩ := List.length_eq_one_iff.mp hone
    simp [lanes, h]
  · rename_i hne
    have hlanes : lanes count literals =
        literals ++ List.replicate (count - literals.length) "" := by
      unfold lanes
      split
      · exact absurd rfl hne
      · rfl
    rw [hlanes]
    by_cases hlane : j < literals.length
    · rw [List.getElem?_append_left hlane, List.getElem?_eq_getElem hlane]
      rfl
    · rw [List.getElem?_append_right (by omega), List.getElem?_replicate, if_pos (by omega),
        List.getElem?_eq_none (by omega)]
      rfl

/-- Two rows of lanes are picked from lane by lane; where the first one has no literal, neither has
the result. -/
theorem Picks.exists_getElem?_zipWith {pick : String → String → String} (hpick : Picks pick)
    {xs ys : List String} {x y : Option String} (hxs : xs[j]? = some (x.getD ""))
    (hys : ys[j]? = some (y.getD "")) (hx : ∀ s ∈ x, Kept s) (hy : ∀ s ∈ y, Kept s) :
    ∃ z, (xs.zipWith pick ys)[j]? = some (z.getD "") ∧ (z = x ∨ z = y) ∧ z.isSome = x.isSome := by
  rw [List.getElem?_zipWith, hxs, hys]
  cases x with
  | none => exact ⟨none, congrArg some (hpick.empty_left _), .inl rfl, rfl⟩
  | some a =>
    cases y with
    | none => exact ⟨some a, congrArg some (hpick.empty_right (hx a rfl)), .inl rfl, rfl⟩
    | some b =>
      rcases hpick.either (hx a rfl) (hy b rfl) with h | h
      · exact ⟨some a, congrArg some h, .inl rfl, rfl⟩
      · exact ⟨some b, congrArg some h, .inr rfl, rfl⟩

/-- A row of which each lane is a lane of some arguments, picked from together with the lanes of
another argument. -/
theorem Picks.exists_lane {pick : String → String → String} (hpick : Picks pick)
    {xs a more : List String} {reads : List (List String)} (hj : j < count)
    (hxs : ∃ literals ∈ reads, xs[j]? = some ((laneOf? literals j).getD "") ∧
      (laneOf? literals j).isSome = (laneOf? a j).isSome)
    (hkept : ∀ literals ∈ reads ++ [more], ∀ s ∈ literals, Kept s) :
    ∃ literals ∈ reads ++ [more],
      (xs.zipWith pick (lanes count more))[j]? = some ((laneOf? literals j).getD "") ∧
      (laneOf? literals j).isSome = (laneOf? a j).isSome := by
  have hlane : ∀ literals ∈ reads ++ [more], ∀ s ∈ laneOf? literals j, Kept s :=
    fun literals hmem s hs => hkept literals hmem s (mem_of_laneOf? hs)
  obtain ⟨literals, hmem, hentry, hsome⟩ := hxs
  have hmem : literals ∈ reads ++ [more] := List.mem_append_left _ hmem
  have hmore : more ∈ reads ++ [more] := List.mem_append_right _ (List.mem_singleton_self more)
  obtain ⟨z, hpicked, rfl | rfl, hpickedSome⟩ := hpick.exists_getElem?_zipWith hentry
    (getElem?_lanes hj) (hlane literals hmem) (hlane more hmore)
  · exact ⟨literals, hmem, hpicked, hsome⟩
  · exact ⟨more, hmore, hpicked, hpickedSome.trans hsome⟩

namespace Reference

variable {reference : Reference}

theorem arity_pos (reference : Reference) : 0 < reference.arity := by
  cases reference <;> decide

/-- **In each lane, the result of a reference is the literal of one of the arguments that it
reads.** There is none exactly if the first argument has none. -/
theorem exists_getElem?_apply (harity : reference.arity ≤ args.length)
    (hkept : ∀ literals ∈ args, ∀ s ∈ literals, Kept s) (hj : j < (reference.apply args).length) :
    ∃ literals ∈ args.take reference.arity,
      (reference.apply args)[j]? = some ((laneOf? literals j).getD "") ∧
      ∀ first ∈ args.head?, (laneOf? literals j).isSome = (laneOf? first j).isSome := by
  obtain ⟨a, args, rfl⟩ :=
    List.exists_cons_of_length_pos (Nat.lt_of_lt_of_le (arity_pos reference) harity)
  have hreads : ∀ literals ∈ (a :: args).take reference.arity, ∀ s ∈ literals, Kept s :=
    fun literals hmem => hkept literals (List.mem_of_mem_take hmem)
  suffices ∃ literals ∈ (a :: args).take reference.arity,
      (reference.apply (a :: args))[j]? = some ((laneOf? literals j).getD "") ∧
      (laneOf? literals j).isSome = (laneOf? a j).isSome by
    simpa using this
  -- the first argument alone, and from it on one argument after the other
  have hfirst : ∀ {count}, j < count → ∃ literals ∈ [a],
      (lanes count a)[j]? = some ((laneOf? literals j).getD "") ∧
      (laneOf? literals j).isSome = (laneOf? a j).isSome :=
    fun hj => ⟨a, List.mem_singleton_self a, getElem?_lanes hj, rfl⟩
  cases reference with
  | identity =>
    have hlt : j < a.length := hj
    refine ⟨a, List.mem_singleton_self a, ?_, rfl⟩
    rw [laneOf?_of_lt hlt, List.getElem?_eq_getElem hlt]
    exact List.getElem?_eq_getElem hlt
  | min =>
    rw [length_apply harity] at hj
    match args, harity with
    | b :: args, _ => exact picks_smallerLiteral.exists_lane hj (hfirst hj) hreads
  | max =>
    rw [length_apply harity] at hj
    match args, harity with
    | b :: args, _ => exact picks_largerLiteral.exists_lane hj (hfirst hj) hreads
  | clamp =>
    rw [length_apply harity] at hj
    match args, harity with
    | low :: high :: args, _ =>
      have hbelow : ∀ literals ∈ [a] ++ [low], ∀ s ∈ literals, Kept s :=
        fun literals hmem => hreads literals (List.mem_append_left [high] hmem)
      have hraised := picks_largerLiteral.exists_lane hj (hfirst hj) hbelow
      exact picks_smallerLiteral.exists_lane hj hraised hreads

end Reference

end OverloadSuite
