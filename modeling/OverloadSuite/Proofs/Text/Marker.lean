import OverloadSuite.Proofs.Text.Cuts
import OverloadSuite.Text.Marker

/-!
# Texts in pieces

A text is cut at the occurrences of a marker into pieces that do not hold the marker. If the marker
cannot overlap itself, because its first character does not come again in it, there is no other way
to write the text as such pieces with the marker between them.
-/

namespace OverloadSuite.Text

variable {marker piece cs rest replacement : List Char} {parts : List (List Char)} {c : Char}

theorem intercalate_cons (piece : List Char) (h : parts ≠ []) :
    marker.intercalate (piece :: parts) = piece ++ (marker ++ marker.intercalate parts) := by
  obtain ⟨next, parts, rfl⟩ := List.exists_cons_of_ne_nil h
  rw [List.intercalate_cons_cons, List.append_assoc]

/-! ## Texts without the marker -/

theorem not_infix_of_free (hne : marker ≠ []) (h : Free marker rest piece) :
    ¬ marker <:+: piece := by
  induction piece with
  | nil => exact fun hoccurs => hne (List.infix_nil.mp hoccurs)
  | cons c piece ih =>
    intro hoccurs
    rcases List.infix_cons_iff.mp hoccurs with hbegins | hoccurs
    · exact h.1 (hbegins.trans (List.prefix_append (c :: piece) rest))
    · exact ih h.2 hoccurs

/-- A text without the marker is free of it also before another marker. -/
theorem free_of_without (hc : c ∉ marker) (h : ¬ c :: marker <:+: piece)
    (hrest : rest = [] ∨ c :: marker <+: rest) : Free (c :: marker) rest piece := by
  induction piece with
  | nil => trivial
  | cons d piece ih =>
    refine ⟨fun hbegins => ?_,
      ih fun hoccurs => h (hoccurs.trans (List.suffix_cons d piece).isInfix)⟩
    obtain ⟨more, hmore⟩ := hbegins
    rw [← List.cons_append] at hmore
    rcases List.append_eq_append_iff.mp hmore with ⟨after, hpiece, -⟩ | ⟨after, hmarker, hafter⟩
    · rw [hpiece] at h
      exact h (List.prefix_append _ _).isInfix
    · -- the marker would begin in the text and go on in the other marker
      cases after with
      | nil => exact h ⟨[], [], by simpa using hmarker⟩
      | cons e after =>
        obtain rfl : e = c := by
          rcases hrest with rfl | ⟨rest', rfl⟩
          · cases hafter
          · exact (List.cons.inj hafter).1.symm
        refine hc ?_
        rw [(List.cons.inj hmarker).2]
        exact List.mem_append_right piece List.mem_cons_self

/-! ## The pieces of a text -/

theorem piecesFrom_skip (skip : Nat) :
    piecesFrom marker skip piece cs = piecesFrom marker 0 piece (cs.drop skip) := by
  induction skip generalizing cs with
  | zero => rfl
  | succ skip ih =>
    cases cs with
    | nil => rfl
    | cons d cs => exact ih

theorem piecesFrom_marker : piecesFrom (c :: marker) 0 piece (c :: marker ++ cs) =
    piece.reverse :: piecesFrom (c :: marker) 0 [] cs := by
  have hbegins : (c :: marker).isPrefixOf (c :: (marker ++ cs)) = true :=
    List.isPrefixOf_iff_prefix.mpr (List.prefix_append (c :: marker) cs)
  rw [List.cons_append, piecesFrom, if_pos hbegins, piecesFrom_skip]
  simp

theorem piecesFrom_cons (h : ¬ marker <+: c :: cs) :
    piecesFrom marker 0 piece (c :: cs) = piecesFrom marker 0 (c :: piece) cs := by
  rw [piecesFrom, if_neg (by rwa [List.isPrefixOf_iff_prefix])]

theorem piecesFrom_append_of_free (h : Free marker rest cs) :
    piecesFrom marker 0 piece (cs ++ rest) = piecesFrom marker 0 (cs.reverse ++ piece) rest := by
  induction cs generalizing piece with
  | nil => rfl
  | cons d cs ih =>
    rw [List.cons_append, piecesFrom_cons h.1, ih h.2]
    simp

/-- A text in pieces that do not hold the marker, with the marker between them. -/
structure Divides (marker cs : List Char) (parts : List (List Char)) : Prop where
  joined : marker.intercalate parts = cs
  ne_nil : parts ≠ []
  without : ∀ piece ∈ parts, ¬ marker <:+: piece

/-- The pieces that are found from left to right divide a text. The piece at hand has no occurrence
yet, not even one that goes on behind it. -/
theorem divides_piecesFrom (hne : marker ≠ []) (h : Free marker cs piece.reverse) :
    Divides marker (piece.reverse ++ cs) (piecesFrom marker 0 piece cs) := by
  induction hlength : cs.length using Nat.strongRecOn generalizing cs piece with
  | ind n ih =>
    cases cs with
    | nil =>
      refine ⟨by simp [piecesFrom], List.cons_ne_nil _ _, fun p hp => ?_⟩
      rw [List.mem_singleton.mp hp]
      exact not_infix_of_free hne h
    | cons c cs =>
      by_cases hbegins : marker <+: c :: cs
      · obtain ⟨rest, hrest⟩ := hbegins
        obtain ⟨m, marker, rfl⟩ := List.exists_cons_of_ne_nil hne
        rw [← hrest] at h hlength ⊢
        have hshorter : rest.length < n := by
          rw [← hlength, List.length_append, List.length_cons]
          omega
        have hnil : Free (m :: marker) rest ([] : List Char).reverse := trivial
        have hdivides : Divides (m :: marker) rest (piecesFrom (m :: marker) 0 [] rest) :=
          ih rest.length hshorter hnil rfl
        rw [piecesFrom_marker]
        refine ⟨?_, List.cons_ne_nil _ _, List.forall_mem_cons.mpr ⟨?_, hdivides.without⟩⟩
        · rw [intercalate_cons _ hdivides.ne_nil, hdivides.joined]
        · exact not_infix_of_free hne h
      · have hfree : Free marker cs (c :: piece).reverse := by
          rw [List.reverse_cons]
          exact free_append.mpr ⟨h, hbegins, trivial⟩
        have hdivides := ih cs.length (by rw [← hlength]; simp) hfree rfl
        rw [piecesFrom_cons hbegins]
        rwa [List.reverse_cons, List.append_assoc] at hdivides

theorem toList_pieces (marker s : String) :
    (pieces marker s).map String.toList = piecesFrom marker.toList 0 [] s.toList := by
  rw [pieces, List.map_map]
  simp [Function.comp_def, String.toList_ofList]

theorem divides_pieces {marker : String} (hne : marker ≠ "") (s : String) :
    Divides marker.toList s.toList ((pieces marker s).map String.toList) := by
  have hnil : Free marker.toList s.toList ([] : List Char).reverse := trivial
  rw [toList_pieces]
  exact divides_piecesFrom (mt String.toList_eq_nil_iff.mp hne) hnil

/-- A marker that cannot overlap itself divides a text in one way only. -/
theorem Divides.eq_piecesFrom (hc : c ∉ marker) (h : Divides (c :: marker) cs parts) :
    parts = piecesFrom (c :: marker) 0 [] cs := by
  obtain ⟨hjoined, hne, hwithout⟩ := h
  induction parts generalizing cs with
  | nil => exact absurd rfl hne
  | cons piece parts ih =>
    obtain ⟨hpiece, hparts⟩ := List.forall_mem_cons.mp hwithout
    cases parts with
    | nil =>
      rw [← hjoined, List.intercalate_singleton, ← List.append_nil piece,
        piecesFrom_append_of_free (free_of_without hc hpiece (.inl rfl))]
      simp [piecesFrom]
    | cons next parts =>
      rw [← hjoined, intercalate_cons _ (List.cons_ne_nil _ _),
        piecesFrom_append_of_free
          (free_of_without hc hpiece (.inr (List.prefix_append _ _))),
        piecesFrom_marker, ← ih rfl (List.cons_ne_nil _ _) hparts]
      simp

/-- A text holds the marker exactly if there is more than one piece. -/
theorem Divides.one_lt_length_iff (h : Divides marker cs parts) :
    1 < parts.length ↔ marker <:+: cs := by
  obtain ⟨hjoined, hne, hwithout⟩ := h
  obtain ⟨piece, parts, rfl⟩ := List.exists_cons_of_ne_nil hne
  cases parts with
  | nil =>
    rw [List.intercalate_singleton] at hjoined
    simpa [← hjoined] using hwithout
  | cons next parts =>
    rw [intercalate_cons _ (List.cons_ne_nil _ _)] at hjoined
    have hoccurs : marker <:+: cs :=
      ⟨piece, marker.intercalate (next :: parts), by simpa using hjoined⟩
    simp [hoccurs]

/-! ## Seams -/

theorem prefix_of_prefix_append_cons (hc : c ∉ marker) (h : marker <+: cs ++ c :: rest) :
    marker <+: cs := by
  induction cs generalizing marker with
  | nil =>
    cases marker with
    | nil => exact List.nil_prefix
    | cons m marker =>
      obtain ⟨rfl, -⟩ := List.cons_prefix_cons.mp h
      exact absurd List.mem_cons_self hc
  | cons d cs ih =>
    cases marker with
    | nil => exact List.nil_prefix
    | cons m marker =>
      obtain ⟨rfl, htail⟩ := List.cons_prefix_cons.mp h
      exact List.cons_prefix_cons.mpr ⟨rfl, ih (List.not_mem_of_not_mem_cons hc) htail⟩

/-- A character that is not in the marker separates its occurrences. -/
theorem infix_of_infix_append_cons (hc : c ∉ marker) (h : marker <:+: cs ++ c :: rest) :
    marker <:+: cs ∨ marker <:+: rest := by
  induction cs with
  | nil =>
    rcases List.infix_cons_iff.mp h with hbegins | hoccurs
    · exact .inl (prefix_of_prefix_append_cons hc hbegins).isInfix
    · exact .inr hoccurs
  | cons d cs ih =>
    rcases List.infix_cons_iff.mp h with hbegins | hoccurs
    · exact .inl (prefix_of_prefix_append_cons hc hbegins).isInfix
    · rcases ih hoccurs with hoccurs | hoccurs
      · exact .inl (hoccurs.trans (List.suffix_cons d cs).isInfix)
      · exact .inr hoccurs

/-- A replacement whose ends are not in the marker makes no marker with the pieces around it. -/
theorem not_infix_intercalate {first last : Char} {tail init : List Char}
    (hfirst : first ∉ marker) (hlast : last ∉ marker) (htail : replacement = first :: tail)
    (hinit : replacement = init ++ [last]) (hreplacement : ¬ marker <:+: replacement)
    (hne : parts ≠ []) (h : ∀ piece ∈ parts, ¬ marker <:+: piece) :
    ¬ marker <:+: replacement.intercalate parts := by
  induction parts with
  | nil => exact absurd rfl hne
  | cons piece parts ih =>
    obtain ⟨hpiece, hparts⟩ := List.forall_mem_cons.mp h
    by_cases hnil : parts = []
    · rwa [hnil, List.intercalate_singleton]
    intro hoccurs
    rw [intercalate_cons piece hnil] at hoccurs
    have hbehind : marker <:+: replacement ++ replacement.intercalate parts := by
      rw [htail, List.cons_append] at hoccurs ⊢
      rcases infix_of_infix_append_cons hfirst hoccurs with hoccurs | hoccurs
      · exact absurd hoccurs hpiece
      · exact hoccurs.trans (List.suffix_cons _ _).isInfix
    rw [hinit, List.append_assoc, List.singleton_append] at hbehind
    rcases infix_of_infix_append_cons hlast hbehind with hoccurs | hoccurs
    · rw [hinit] at hreplacement
      exact hreplacement (hoccurs.trans (List.prefix_append init [last]).isInfix)
    · rw [← hinit] at hoccurs
      exact ih hnil hparts hoccurs

/-! ## Replaced markers -/

theorem filter_intercalate {p : Char → Bool} (h : replacement.filter p = [])
    (parts : List (List Char)) :
    (replacement.intercalate parts).filter p = parts.flatMap (List.filter p) := by
  induction parts with
  | nil => rfl
  | cons piece parts ih =>
    by_cases hnil : parts = []
    · simp [hnil]
    · rw [intercalate_cons piece hnil, List.filter_append, List.filter_append, h, ih]
      simp

/-- Where the marker and its replacement have none of some characters, these are kept. -/
theorem filter_replaceAll {p : Char → Bool} {marker replacement : String} (hne : marker ≠ "")
    (hmarker : marker.toList.filter p = []) (hreplacement : replacement.toList.filter p = [])
    (s : String) : (replaceAll marker replacement s).toList.filter p = s.toList.filter p := by
  rw [replaceAll, String.toList_intercalate, filter_intercalate hreplacement,
    ← filter_intercalate hmarker, (divides_pieces hne s).joined]

end OverloadSuite.Text
