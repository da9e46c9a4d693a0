import OverloadSuite.Proofs.TestCase.Openings
import OverloadSuite.Proofs.Text.Marker
import OverloadSuite.Template

/-!
# Filled templates

A template is filled by putting the source in the place of every marker, and nowhere
else. The marker cannot overlap itself, so there is one way to take a template apart at
its markers. The source of a suite begins and ends with a line feed, and thus makes no
marker with the text around it.
-/

namespace OverloadSuite

/-- A text occurs in another one. -/
def Text.Occurs (marker s : String) : Prop := marker.toList <:+: s.toList

namespace Template

open Text

/-- A template with markers, taken apart at each of them. -/
structure Parts (template : String) (pieces : List String) : Prop where
  joined : template = String.intercalate marker pieces
  several : 2 ≤ pieces.length
  without : ∀ piece ∈ pieces, ¬ Occurs marker piece

theorem toList_marker : marker.toList = '$' :: "TEST_CASES".toList := by
  simp [marker]

variable {template text : String} {source : String} {parts : List String}

theorem marker_ne_empty : marker ≠ "" := by decide

theorem divides_iff : Divides marker.toList template.toList (parts.map String.toList) ↔
    template = String.intercalate marker parts ∧ parts ≠ [] ∧
      ∀ part ∈ parts, ¬ Occurs marker part := by
  constructor
  · intro h
    refine ⟨?_, by simpa using h.ne_nil, fun part hpart => h.without _ (List.mem_map_of_mem hpart)⟩
    rw [← String.toList_inj, String.toList_intercalate, h.joined]
  · rintro ⟨rfl, hne, hwithout⟩
    refine ⟨String.toList_intercalate.symm, by simpa using hne, fun part hpart => ?_⟩
    obtain ⟨s, hs, rfl⟩ := List.mem_map.mp hpart
    exact hwithout s hs

theorem holds_iff : holds marker template = true ↔ Occurs marker template := by
  have hdivides := divides_pieces marker_ne_empty template
  rw [Occurs, ← hdivides.one_lt_length_iff, List.length_map, holds, decide_eq_true_eq]

theorem fill?_eq_some : fill? template source = some text ↔
    Occurs marker template ∧ text = String.intercalate source (pieces marker template) := by
  rw [fill?, ← holds_iff]
  split
  · rename_i hholds
    simp [hholds, replaceAll, eq_comm]
  · rename_i hholds
    simp [hholds]

theorem fill?_eq_none : fill? template source = none ↔ ¬ Occurs marker template := by
  rw [fill?, ← holds_iff]
  split <;> simp_all

/-- The pieces of a template are its only parts. -/
theorem parts_iff :
    Parts template parts ↔ Occurs marker template ∧ parts = pieces marker template := by
  have hpieces := divides_pieces marker_ne_empty template
  constructor
  · rintro ⟨hjoined, hseveral, hwithout⟩
    have hne : parts ≠ [] := by
      rintro rfl
      simp at hseveral
    have hparts := divides_iff.mpr ⟨hjoined, hne, hwithout⟩
    refine ⟨hparts.one_lt_length_iff.mp (by rwa [List.length_map]), ?_⟩
    have hsame : parts.map String.toList = (pieces marker template).map String.toList := by
      rw [toList_marker] at hparts
      rw [hparts.eq_piecesFrom (by decide), toList_pieces, toList_marker]
    exact (List.map_inj_right fun _ _ => String.toList_inj.mp).mp hsame
  · rintro ⟨hoccurs, rfl⟩
    obtain ⟨hjoined, -, hwithout⟩ := divides_iff.mp hpieces
    have hseveral := hpieces.one_lt_length_iff.mpr hoccurs
    rw [List.length_map] at hseveral
    exact ⟨hjoined, hseveral, hwithout⟩

/-- A source without the marker whose ends are line feeds makes none with the template. -/
theorem not_occurs_fill {tail init : List Char} (htail : source.toList = '\n' :: tail)
    (hinit : source.toList = init ++ ['\n']) (hsource : ¬ Occurs marker source)
    (h : fill? template source = some text) : ¬ Occurs marker text := by
  obtain ⟨-, rfl⟩ := fill?_eq_some.mp h
  have hpieces := divides_pieces marker_ne_empty template
  have hfeed : '\n' ∉ marker.toList := by decide
  rw [Occurs, String.toList_intercalate]
  exact not_infix_intercalate hfeed hfeed htail hinit hsource hpieces.ne_nil hpieces.without

/-- **A template is filled at its markers and nowhere else.** There is no result exactly if
the marker does not occur in the template. Otherwise the template has one decomposition into
parts without the marker, at least two, and the result has the source between them, whatever
the source is. If the source is that of a suite, is not empty and has no marker, then
neither has the result. -/
theorem fill_replaces_markers (template source : String) :
    (fill? template source = none ↔ ¬ Occurs marker template) ∧
    (Occurs marker template → ∃ parts, Parts template parts ∧
      (∀ parts', Parts template parts' → parts' = parts) ∧
      fill? template source = some (String.intercalate source parts)) ∧
    ∀ suite : Suite, suite.source = source → source ≠ "" → ¬ Occurs marker source →
      ∀ text, fill? template source = some text → ¬ Occurs marker text := by
  refine ⟨fill?_eq_none, fun hoccurs => ?_, ?_⟩
  · refine ⟨pieces marker template, parts_iff.mpr ⟨hoccurs, rfl⟩, fun parts' h => ?_, ?_⟩
    · exact (parts_iff.mp h).2
    · exact fill?_eq_some.mpr ⟨hoccurs, rfl⟩
  · rintro suite rfl hne hsource text htext
    rw [Suite.source_eq_stream] at *
    have hblocks : suite.map TestCase.block ≠ [] := fun hnil => hne (by rw [hnil]; rfl)
    obtain ⟨tail, htail⟩ := Block.exists_stream_eq_cons hblocks
    obtain ⟨init, hinit⟩ := Block.exists_stream_eq_append hblocks
    exact not_occurs_fill htail hinit hsource htext

/-- The beginning of a marker and, behind it, two markers side by side. -/
theorem fill_replaces_markers_twice : ∃ suite : Suite, suite.source ≠ "" ∧
    fill? "$TEST_$TEST_CASES$TEST_CASES" suite.source =
      some (String.intercalate suite.source ["$TEST_", "", ""]) ∧
    ¬ Occurs marker (String.intercalate suite.source ["$TEST_", "", ""]) := by
  let suite : Suite := [⟨0, .sin, ⟨.privateSpace, .plain, none⟩, none, [["0.5"]], none⟩]
  have hne : suite.source ≠ "" := by decide +kernel
  have hsource : ¬ marker.toList <:+: suite.source.toList := by decide +kernel
  obtain ⟨-, hfilled, hwithout⟩ := fill_replaces_markers "$TEST_$TEST_CASES$TEST_CASES" suite.source
  obtain ⟨parts, -, hunique, hfill⟩ := hfilled ⟨"$TEST_".toList, marker.toList, by decide⟩
  have hparts : Parts "$TEST_$TEST_CASES$TEST_CASES" ["$TEST_", "", ""] := by
    refine ⟨by decide, by decide, ?_⟩
    have hall : ∀ part ∈ ["$TEST_", "", ""], ¬ marker.toList <:+: part.toList := by decide
    exact hall
  rw [← hunique _ hparts] at hfill
  exact ⟨suite, hne, hfill, hwithout suite rfl hne hsource _ hfill⟩

end Template

end OverloadSuite
