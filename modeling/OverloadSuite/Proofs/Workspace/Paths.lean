import OverloadSuite.Proofs.Text.Marker
import OverloadSuite.Proofs.Workspace.Places

/-!
# Paths seen from a directory

A path that is joined to a directory leads to where the path leads from the place of the directory.
The directory of a path, if its last piece is a name, is the place around the place of the path.
-/

namespace OverloadSuite.Path

variable {path directory name piece : String} {parts outer idle : List String} {start : Location}

/-! ## Pieces -/

theorem slash_infix_iff {cs : List Char} : ['/'] <:+: cs ↔ '/' ∈ cs := by
  constructor
  · intro h
    exact h.subset (List.mem_singleton_self _)
  · intro h
    obtain ⟨before, after, rfl⟩ := List.append_of_mem h
    exact ⟨before, after, by simp⟩

/-- A slash ends the piece at hand, wherever it stands. -/
theorem piecesFrom_slash (piece cs rest : List Char) :
    Text.piecesFrom ['/'] 0 piece (cs ++ '/' :: rest) =
      Text.piecesFrom ['/'] 0 piece cs ++ Text.piecesFrom ['/'] 0 [] rest := by
  induction cs generalizing piece with
  | nil => exact Text.piecesFrom_marker
  | cons c cs ih =>
    by_cases hc : c = '/'
    · subst hc
      have hmarker : ∀ cs, Text.piecesFrom ['/'] 0 piece ('/' :: cs) =
          piece.reverse :: Text.piecesFrom ['/'] 0 [] cs := fun _ => Text.piecesFrom_marker
      rw [List.cons_append, hmarker, hmarker, ih, List.cons_append]
    · have hbegins : ∀ cs, ¬ ['/'] <+: c :: cs := by
        intro cs h
        exact hc (List.cons_prefix_cons.mp h).1.symm
      rw [List.cons_append, Text.piecesFrom_cons (hbegins _), Text.piecesFrom_cons (hbegins _), ih]

theorem pieces_slash (s rest : String) : pieces (s ++ "/" ++ rest) = pieces s ++ pieces rest := by
  have hchars : (s ++ "/" ++ rest).toList = s.toList ++ '/' :: rest.toList := by simp
  show ((Text.piecesFrom ['/'] 0 [] (s ++ "/" ++ rest).toList).map String.ofList) = _
  rw [hchars, piecesFrom_slash, List.map_append]
  rfl

theorem divides_pieces (path : String) :
    Text.Divides ['/'] path.toList ((pieces path).map String.toList) :=
  Text.divides_pieces (by decide : "/" ≠ "") path

theorem intercalate_pieces (path : String) : String.intercalate "/" (pieces path) = path := by
  refine String.toList_inj.mp ?_
  rw [String.toList_intercalate]
  exact (divides_pieces path).joined

theorem slash_not_mem (h : piece ∈ pieces path) : '/' ∉ piece.toList := by
  have hwithout := (divides_pieces path).without piece.toList (List.mem_map_of_mem h)
  exact mt slash_infix_iff.mpr hwithout

/-- Pieces without slashes are those of the path that they make. -/
theorem pieces_intercalate (hne : parts ≠ []) (h : ∀ piece ∈ parts, '/' ∉ piece.toList) :
    pieces (String.intercalate "/" parts) = parts := by
  have hdivides : Text.Divides ['/'] (String.intercalate "/" parts).toList
      (parts.map String.toList) := by
    refine ⟨?_, by simpa using hne, fun piece hpiece => ?_⟩
    · rw [String.toList_intercalate]
      rfl
    · obtain ⟨part, hpart, rfl⟩ := List.mem_map.mp hpiece
      exact mt slash_infix_iff.mp (h part hpart)
  have hpieces := hdivides.eq_piecesFrom (by simp)
  refine (List.map_inj_right fun _ _ => String.toList_inj.mp).mp ?_
  rw [hpieces]
  exact Text.toList_pieces "/" _

theorem pieces_append_slash (s : String) : pieces (s ++ "/") = pieces s ++ [""] := by
  rw [← String.append_empty (s := s ++ "/"), pieces_slash]
  rfl

theorem pieces_ne_nil (path : String) : pieces path ≠ [] := by
  intro hnil
  exact (divides_pieces path).ne_nil (List.map_eq_nil_iff.mpr hnil)

/-- A path is absolute if an empty piece stands in front of the others. -/
theorem isAbsolute_iff :
    isAbsolute path = true ↔ ∃ piece parts, pieces path = "" :: piece :: parts := by
  rw [isAbsolute, String.startsWith_string_iff]
  constructor
  · intro h
    obtain ⟨rest, hrest⟩ := h
    have hpath : path = "" ++ "/" ++ String.ofList rest :=
      String.toList_inj.mp (by simpa using hrest.symm)
    obtain ⟨piece, parts, hparts⟩ := List.exists_cons_of_ne_nil (pieces_ne_nil (String.ofList rest))
    refine ⟨piece, parts, ?_⟩
    rw [hpath, pieces_slash, hparts]
    rfl
  · intro h
    obtain ⟨piece, parts, hpieces⟩ := h
    rw [← intercalate_pieces path, hpieces, String.toList_intercalate]
    simp

/-- What follows a path does not make it absolute. -/
theorem isAbsolute_append {s : String} (hs : s ≠ "") (rest : String) :
    isAbsolute (s ++ rest) = isAbsolute s := by
  obtain ⟨c, cs, hcs⟩ := List.exists_cons_of_ne_nil (mt String.toList_eq_nil_iff.mp hs)
  rw [Bool.eq_iff_iff, isAbsolute, isAbsolute, String.startsWith_string_iff,
    String.startsWith_string_iff]
  simp [hcs]

/-! ## Where joined paths lead -/

/-- What a path leads through behind a slash, it leads through from the place in front. -/
theorem place_slash (start : Location) (s rest : String) :
    place start (s ++ "/" ++ rest) = (pieces rest).foldl step (place start (s ++ "/")) := by
  have hne : s ++ "/" ≠ "" := by simp
  rw [place, place, isAbsolute_append hne, pieces_slash, pieces_append_slash, List.foldl_append,
    List.foldl_append]
  rfl

theorem place_append_slash (start : Location) {s : String} (hs : s ≠ "") :
    place start (s ++ "/") = place start s := by
  rw [place, place, isAbsolute_append hs, pieces_append_slash, List.foldl_append]
  rfl

theorem exists_of_endsWith (h : path.endsWith "/" = true) : ∃ s, path = s ++ "/" := by
  rw [← String.endsWith_toSlice, String.Slice.endsWith_string_iff] at h
  obtain ⟨s, hs⟩ := h
  exact ⟨String.ofList s, String.toList_inj.mp (by simpa using hs.symm)⟩

/-- **A joined path leads to where the path leads from the directory.** -/
theorem place_join (start : Location) (directory path : String) :
    place start (join directory path) = place (place start directory) path := by
  unfold join
  by_cases habsolute : isAbsolute path = true
  · rw [if_pos (by simp [habsolute]), place, place, if_pos habsolute, if_pos habsolute]
  · have hplace : place (place start directory) path =
        (pieces path).foldl step (place start directory) := by
      rw [place, if_neg habsolute]
    rw [hplace]
    by_cases hempty : directory = ""
    · subst hempty
      rw [if_pos (by simp), place, if_neg habsolute]
      rfl
    · have hproceeds : ¬ ((isAbsolute path || directory.isEmpty) = true) := by
        simp [habsolute, hempty]
      rw [if_neg hproceeds]
      split
      · rename_i hends
        obtain ⟨s, rfl⟩ := exists_of_endsWith hends
        rw [place_slash]
      · rw [place_slash, place_append_slash start hempty]

/-! ## Where the directory of a path is -/

theorem isIdle_of_mem_takeWhile (h : piece ∈ parts.takeWhile isIdle) : isIdle piece = true :=
  List.all_eq_true.mp List.all_takeWhile piece h

/-- The pieces that are trimmed lead nowhere. -/
theorem exists_trimIdle_append (parts : List String) : ∃ idle, parts = trimIdle parts ++ idle ∧
    ∀ piece ∈ idle, isIdle piece = true := by
  refine ⟨(parts.reverse.takeWhile isIdle).reverse, ?_, fun piece hpiece => ?_⟩
  · rw [trimIdle, ← List.reverse_append, List.takeWhile_append_dropWhile, List.reverse_reverse]
  · exact isIdle_of_mem_takeWhile (List.mem_reverse.mp hpiece)

theorem foldl_step_trimIdle (parts : List String) (start : Location) :
    (trimIdle parts).foldl step start = parts.foldl step start := by
  obtain ⟨idle, hparts, hidle⟩ := exists_trimIdle_append parts
  conv_rhs => rw [hparts, List.foldl_append, foldl_step_of_isIdle hidle]

theorem mem_of_mem_trimIdle (h : piece ∈ trimIdle parts) : piece ∈ parts := by
  obtain ⟨idle, hparts, -⟩ := exists_trimIdle_append parts
  rw [hparts]
  exact List.mem_append_left idle h

/-- A name ends what is left after trimming. -/
theorem trimIdle_append_cons (outer : List String) (hname : isIdle name = false)
    (hidle : ∀ piece ∈ idle, isIdle piece = true) :
    trimIdle (outer ++ name :: idle) = outer ++ [name] := by
  have hreverse : (outer ++ name :: idle).reverse = idle.reverse ++ name :: outer.reverse := by
    simp
  have hdrop : (idle.reverse ++ name :: outer.reverse).dropWhile isIdle =
      name :: outer.reverse := by
    rw [List.dropWhile_append_of_pos (by simpa using hidle),
      List.dropWhile_cons_of_neg (by simp [hname])]
  rw [trimIdle, hreverse, hdrop]
  simp

theorem foldl_step_pieces (h : ∀ piece ∈ parts, '/' ∉ piece.toList) (start : Location) :
    (pieces (String.intercalate "/" parts)).foldl step start = parts.foldl step start := by
  by_cases hnil : parts = []
  · subst hnil
    rfl
  · rw [pieces_intercalate hnil h]

/-- A path that does not begin with an empty piece leads through its pieces. -/
theorem place_intercalate (h : ∀ piece ∈ parts, '/' ∉ piece.toList) (hhead : parts.head? ≠ some "")
    (start : Location) :
    place start (String.intercalate "/" parts) = parts.foldl step start := by
  have hrelative : ¬ isAbsolute (String.intercalate "/" parts) = true := by
    intro habsolute
    obtain ⟨piece, others, hpieces⟩ := isAbsolute_iff.mp habsolute
    by_cases hnil : parts = []
    · subst hnil
      cases hpieces
    · rw [pieces_intercalate hnil h] at hpieces
      exact hhead (by rw [hpieces]; rfl)
  rw [place, if_neg hrelative, foldl_step_pieces h]

theorem head?_trimIdle_ne (h : outer.head? ≠ some "") : (trimIdle outer).head? ≠ some "" := by
  intro hempty
  obtain ⟨idle, houter, -⟩ := exists_trimIdle_append outer
  obtain ⟨parts, hparts⟩ := List.head?_eq_some_iff.mp hempty
  rw [hparts] at houter
  exact h (by rw [houter]; rfl)

theorem place_root (start : Location) : place start ("" ++ "/") = [] := by
  rw [place, if_pos (by decide +kernel)]
  rfl

theorem append_name_ne_cons (hname : isIdle name = false) (hpiece : isIdle piece = true)
    (hhead : outer.head? ≠ some piece) : outer ++ name :: idle ≠ piece :: parts := by
  intro h
  rcases List.append_eq_cons_iff.mp h with ⟨-, hcons⟩ | ⟨outer', rfl, -⟩
  · rw [(List.cons.inj hcons).1, hpiece] at hname
    cases hname
  · exact hhead rfl

section Parent

variable (hname : isIdle name = false) (hidle : ∀ piece ∈ idle, isIdle piece = true)
include hname hidle

theorem parent?_root (hpieces : pieces path = "" :: (outer ++ name :: idle)) :
    parent? path = some ("" ++ "/" ++ String.intercalate "/" (trimIdle outer)) := by
  obtain ⟨second, others, hrest⟩ : ∃ second others, outer ++ name :: idle = second :: others :=
    List.exists_cons_of_ne_nil (by simp)
  have htrim := trimIdle_append_cons outer hname hidle
  rw [hrest] at hpieces htrim
  unfold parent?
  simp only [hpieces, htrim, List.reverse_append, List.reverse_singleton, List.singleton_append,
    List.reverse_reverse, String.empty_append]

theorem parent?_dot (hpieces : pieces path = "." :: (outer ++ name :: idle)) :
    parent? path = some (String.intercalate "/" ("." :: trimIdle outer)) := by
  have htrim := trimIdle_append_cons outer hname hidle
  unfold parent?
  simp only [hpieces, htrim, List.reverse_append, List.reverse_singleton, List.singleton_append,
    List.reverse_reverse]

theorem parent?_relative (hpieces : pieces path = outer ++ name :: idle)
    (hempty : outer.head? ≠ some "") (hdot : outer.head? ≠ some ".") :
    parent? path = some (String.intercalate "/" (trimIdle outer)) := by
  have htrim := trimIdle_append_cons outer hname hidle
  unfold parent?
  rw [hpieces]
  split
  · rename_i hcons
    exact absurd hcons (append_name_ne_cons hname rfl hempty)
  · rename_i hcons
    exact absurd hcons (append_name_ne_cons hname rfl hdot)
  · simp only [htrim, List.reverse_append, List.reverse_singleton, List.singleton_append,
      List.reverse_reverse]

end Parent

/-- **A path that ends with a name has a directory, which leads to where the pieces in front of the
name lead.** -/
theorem exists_parent (hpieces : pieces path = outer ++ name :: idle)
    (hname : isIdle name = false) (hidle : ∀ piece ∈ idle, isIdle piece = true)
    (start : Location) : ∃ directory, parent? path = some directory ∧
      place start directory = outer.foldl step (if isAbsolute path then [] else start) := by
  have hslash : ∀ piece ∈ outer, '/' ∉ piece.toList := by
    intro piece hpiece
    have hmem : piece ∈ pieces path := hpieces ▸ List.mem_append_left _ hpiece
    exact slash_not_mem hmem
  by_cases hempty : outer.head? = some ""
  · obtain ⟨outer, rfl⟩ := List.head?_eq_some_iff.mp hempty
    have hkept : ∀ piece ∈ trimIdle outer, '/' ∉ piece.toList := fun piece hpiece =>
      hslash piece (List.mem_cons_of_mem _ (mem_of_mem_trimIdle hpiece))
    have habsolute : isAbsolute path = true := by
      obtain ⟨second, others, hrest⟩ := List.exists_cons_of_ne_nil
        (List.append_ne_nil_of_right_ne_nil outer (List.cons_ne_nil name idle))
      exact isAbsolute_iff.mpr ⟨second, others, by rw [hpieces, List.cons_append, hrest]⟩
    refine ⟨_, parent?_root hname hidle hpieces, ?_⟩
    rw [place_slash, place_root, foldl_step_pieces hkept, foldl_step_trimIdle, if_pos habsolute]
    rfl
  · have hrelative : ¬ isAbsolute path = true := by
      intro habsolute
      obtain ⟨second, others, hcons⟩ := isAbsolute_iff.mp habsolute
      exact append_name_ne_cons hname rfl hempty (hpieces.symm.trans hcons)
    rw [if_neg hrelative]
    by_cases hdot : outer.head? = some "."
    · obtain ⟨outer, rfl⟩ := List.head?_eq_some_iff.mp hdot
      have hkept : ∀ piece ∈ "." :: trimIdle outer, '/' ∉ piece.toList := by
        refine List.forall_mem_cons.mpr ⟨by decide, fun piece hpiece => ?_⟩
        exact hslash piece (List.mem_cons_of_mem _ (mem_of_mem_trimIdle hpiece))
      refine ⟨_, parent?_dot hname hidle hpieces, ?_⟩
      rw [place_intercalate hkept (by simp), List.foldl_cons, List.foldl_cons,
        foldl_step_trimIdle]
    · have hkept : ∀ piece ∈ trimIdle outer, '/' ∉ piece.toList := fun piece hpiece =>
        hslash piece (mem_of_mem_trimIdle hpiece)
      refine ⟨_, parent?_relative hname hidle hpieces hempty hdot, ?_⟩
      rw [place_intercalate hkept (head?_trimIdle_ne hempty), foldl_step_trimIdle]

end OverloadSuite.Path

namespace OverloadSuite.Tree

variable {t : Tree} {path : String} {contents : ByteArray}

/-- The directory of a file that is read leads to the place around that of the file. -/
theorem exists_parent_of_read (h : t.read path = .ok contents) :
    ∃ directory, Path.parent? path = some directory ∧
      Path.place t.workingDirectory directory = (Path.place t.workingDirectory path).dropLast := by
  obtain ⟨place, name, htarget, -, -⟩ := read_eq_ok.mp h
  obtain ⟨outer, idle, hpieces, hidle, hname, -, hwalk⟩ := target_eq_entry htarget
  obtain ⟨directory, hparent, hdirectory⟩ :=
    Path.exists_parent hpieces hname hidle t.workingDirectory
  refine ⟨directory, hparent, ?_⟩
  rw [hdirectory, ← place_of_walk hwalk, ← place_of_target htarget, List.dropLast_concat]

end OverloadSuite.Tree
