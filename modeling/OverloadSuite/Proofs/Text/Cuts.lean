/-!
# Where a pattern begins in a text

The places at which a pattern begins, and the text cut in front of each of them. Where a part of a
text begins with the pattern and is free of it afterwards, that part is a piece of its own.
-/

namespace OverloadSuite.Text

/-- The places at which a pattern begins in a text. Occurrences may overlap. -/
def placesIn (pattern cs : List Char) : List Nat :=
  (List.range cs.length).filter fun i => pattern.isPrefixOf (cs.drop i)

/-- The pieces of a text cut in front of every place at which a pattern
begins. No piece is empty. -/
def cutsIn (pattern : List Char) : List Char → List (List Char)
  | [] => []
  | c :: cs =>
    match cutsIn pattern cs with
    | [] => [[c]]
    | piece :: pieces =>
      if pattern.isPrefixOf cs then [c] :: piece :: pieces else (c :: piece) :: pieces

/-- The places at which a pattern begins in a text, counted in characters from zero. -/
def placesOf (pattern s : String) : List Nat := placesIn pattern.toList s.toList

/-- A text cut in front of every place at which a pattern begins. -/
def cutBefore (pattern s : String) : List String :=
  (cutsIn pattern.toList s.toList).map String.ofList

/-- A pattern begins nowhere in a text that is followed by `rest`. -/
def Free (pattern rest : List Char) : List Char → Prop
  | [] => True
  | c :: cs => ¬ pattern <+: c :: (cs ++ rest) ∧ Free pattern rest cs

variable {pattern rest cs cs' : List Char} {c : Char}

theorem free_append : Free pattern rest (cs ++ cs') ↔
    Free pattern (cs' ++ rest) cs ∧ Free pattern rest cs' := by
  induction cs with
  | nil => simp [Free]
  | cons c cs ih => simp [Free, ih, and_assoc]

/-! ## Places -/

theorem placesIn_cons : placesIn pattern (c :: cs) =
    (if pattern <+: c :: cs then [0] else []) ++ (placesIn pattern cs).map (· + 1) := by
  rw [placesIn, List.length_cons, List.range_succ_eq_map, List.filter_cons, List.filter_map]
  simp only [List.drop_zero, List.isPrefixOf_iff_prefix]
  split <;> rfl

theorem map_add_map_add (places : List Nat) (m n : Nat) :
    (places.map (· + m)).map (· + n) = places.map (· + (m + n)) := by
  rw [List.map_map]
  refine List.map_congr_left fun i _ => ?_
  show i + m + n = i + (m + n)
  omega

theorem placesIn_append_of_free (h : Free pattern rest cs) :
    placesIn pattern (cs ++ rest) = (placesIn pattern rest).map (· + cs.length) := by
  induction cs with
  | nil => simp
  | cons c cs ih =>
    rw [List.cons_append, placesIn_cons, if_neg h.1, ih h.2, map_add_map_add]
    rfl

/-- A part that begins with the pattern and is free of it afterwards. -/
theorem placesIn_opened (hopens : pattern <+: c :: (cs ++ rest)) (h : Free pattern rest cs) :
    placesIn pattern (c :: cs ++ rest) =
      0 :: (placesIn pattern rest).map (· + (c :: cs).length) := by
  rw [List.cons_append, placesIn_cons, if_pos hopens, placesIn_append_of_free h, map_add_map_add]
  rfl

/-! ## Pieces -/

theorem cutsIn_eq_nil : cutsIn pattern cs = [] ↔ cs = [] := by
  cases cs with
  | nil => simp [cutsIn]
  | cons c cs =>
    simp only [cutsIn]
    split
    · simp
    · split <;> simp

theorem cutsIn_cons_of_begins (hne : pattern ≠ []) (h : pattern <+: cs) :
    cutsIn pattern (c :: cs) = [c] :: cutsIn pattern cs := by
  have hcuts : cutsIn pattern cs ≠ [] := by
    intro hnil
    rw [cutsIn_eq_nil.mp hnil] at h
    exact hne (List.prefix_nil.mp h)
  obtain ⟨piece, pieces, hpieces⟩ := List.exists_cons_of_ne_nil hcuts
  simp only [cutsIn, hpieces, List.isPrefixOf_iff_prefix.mpr h, if_true]

theorem cutsIn_cons_of_not_begins {piece : List Char} {pieces : List (List Char)}
    (h : ¬ pattern <+: cs) (hpieces : cutsIn pattern cs = piece :: pieces) :
    cutsIn pattern (c :: cs) = (c :: piece) :: pieces := by
  simp [cutsIn, hpieces, List.isPrefixOf_iff_prefix, h]

/-- A part that is free of the pattern after its first character, in front of nothing or of the
pattern, is a piece. -/
theorem cutsIn_opened (hne : pattern ≠ []) (h : Free pattern rest cs)
    (hrest : rest = [] ∨ pattern <+: rest) :
    cutsIn pattern (c :: cs ++ rest) = (c :: cs) :: cutsIn pattern rest := by
  induction cs generalizing c with
  | nil =>
    rcases hrest with rfl | hrest
    · rfl
    · exact cutsIn_cons_of_begins hne hrest
  | cons d cs ih => exact cutsIn_cons_of_not_begins h.1 (ih h.2)

/-! ## Lines -/

/-- Lines with the line feed at the end of each. -/
def joinLines (ls : List (List Char)) : List Char := ls.flatMap (· ++ ['\n'])

variable {line l : List Char} {ls : List (List Char)}

theorem exists_joinLines_eq_append (l : List Char) (ls : List (List Char)) :
    ∃ init, joinLines (l :: ls) = init ++ ['\n'] := by
  induction ls generalizing l with
  | nil => exact ⟨l, by simp [joinLines]⟩
  | cons l' ls ih =>
    obtain ⟨init, hinit⟩ := ih l'
    refine ⟨l ++ '\n' :: init, ?_⟩
    rw [joinLines, List.flatMap_cons, ← joinLines, hinit]
    simp

theorem eq_of_lines_begin (hline : '\n' ∉ line) (hl : '\n' ∉ l)
    (h : line ++ ['\n'] <+: l ++ '\n' :: cs) : line = l := by
  induction line generalizing l with
  | nil =>
    cases l with
    | nil => rfl
    | cons d l =>
      obtain ⟨rfl, -⟩ := List.cons_prefix_cons.mp h
      exact absurd List.mem_cons_self hl
  | cons c line ih =>
    cases l with
    | nil =>
      obtain ⟨rfl, -⟩ := List.cons_prefix_cons.mp h
      exact absurd List.mem_cons_self hline
    | cons d l =>
      rw [List.cons_append, List.cons_append] at h
      obtain ⟨rfl, htail⟩ := List.cons_prefix_cons.mp h
      rw [ih (List.not_mem_of_not_mem_cons hline) (List.not_mem_of_not_mem_cons hl) htail]

theorem free_of_not_mem (hl : c ∉ l) : Free (c :: pattern) rest l := by
  induction l with
  | nil => trivial
  | cons d l ih =>
    refine ⟨fun h => ?_, ih (List.not_mem_of_not_mem_cons hl)⟩
    obtain ⟨rfl, -⟩ := List.cons_prefix_cons.mp h
    exact hl List.mem_cons_self

/-- A line begins nowhere in lines of which none after the first is the same. -/
theorem free_joinLines (hline : '\n' ∉ line) (hl : '\n' ∉ l) (hls : ∀ l ∈ ls, '\n' ∉ l ∧ line ≠ l)
    (hrest : ¬ line ++ ['\n'] <+: rest) :
    Free ('\n' :: (line ++ ['\n'])) rest (joinLines (l :: ls)) := by
  induction ls generalizing l with
  | nil =>
    refine free_append.mpr ⟨free_append.mpr ⟨free_of_not_mem hl, fun h => ?_, trivial⟩, trivial⟩
    exact hrest (List.cons_prefix_cons.mp h).2
  | cons l' ls ih =>
    obtain ⟨⟨hl', hne⟩, hls⟩ := List.forall_mem_cons.mp hls
    refine free_append.mpr ⟨free_append.mpr ⟨free_of_not_mem hl, fun h => ?_, trivial⟩, ih hl' hls⟩
    -- behind the line feed comes the next line, which is another one
    have hnext : line ++ ['\n'] <+: l' ++ '\n' :: (joinLines ls ++ rest) := by
      simpa [joinLines, List.flatMap_def] using h
    exact hne (eq_of_lines_begin hline hl' hnext)

end OverloadSuite.Text
