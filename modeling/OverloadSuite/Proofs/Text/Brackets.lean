import OverloadSuite.Proofs.Text.Marker
import OverloadSuite.Text.Lines

/-!
# Balanced brackets

A scan of a text for brackets, which passes over string literals. Only brackets, double quotes and
backslashes matter to it. A text that is balanced leaves whatever is open around it as it is.
-/

namespace OverloadSuite.Text

/-! ## Scans -/

/-- Where a scan stands: in code, in a string literal, or in one just behind a backslash. -/
inductive Region where
  | code
  | literal
  | escaped
deriving DecidableEq, Repr

/-- A scan for brackets: the closing brackets that are due, innermost first, and where it stands. -/
structure Scan where
  due : List Char
  region : Region
deriving DecidableEq, Repr

namespace Scan

/-- The bracket that closes an opening one. -/
def closing? : Char → Option Char
  | '(' => some ')'
  | '[' => some ']'
  | '\x7b' => some '\x7d'
  | _ => none

/-- A closing bracket. -/
def isClosing (c : Char) : Bool := c == ')' || c == ']' || c == '\x7d'

/-- What is due after a character of code. A closing bracket has to be the one that is due. -/
def next? (due : List Char) (c : Char) : Option (List Char) :=
  match closing? c with
  | some d => some (d :: due)
  | none =>
    if isClosing c then
      match due with
      | [] => none
      | d :: due => if c = d then some due else none
    else some due

/-- One character. Brackets within a literal do not count, and a backslash takes the next character
of the literal with it. -/
def step? (s : Scan) (c : Char) : Option Scan :=
  match s.region with
  | .code =>
    if c = '"' then some { s with region := .literal }
    else (next? s.due c).map fun due => { s with due }
  | .literal =>
    if c = '"' then some { s with region := .code }
    else if c = '\\' then some { s with region := .escaped }
    else some s
  | .escaped => some { s with region := .literal }

/-- A scan of further characters; there is no result if a closing bracket is not due. -/
def run? (s : Scan) (cs : List Char) : Option Scan := cs.foldlM step? s

end Scan

/-- A text with balanced brackets outside its string literals, and with no literal left open. -/
def WellBracketed (s : String) : Prop :=
  Scan.run? ⟨[], .code⟩ s.toList = some ⟨[], .code⟩

instance (s : String) : Decidable (WellBracketed s) :=
  inferInstanceAs (Decidable (_ = _))

/-- Brackets within a literal may stand alone, also behind an escaped quote. -/
example : WellBracketed "a[f(\"]\\\"(\")]" ∧ ¬ WellBracketed "a[f(])" := by decide

namespace Scan

variable {s s' : Scan} {c : Char} {cs cs' : List Char} {due due' : List Char}
  {region region' : Region}

@[simp] theorem run?_nil (s : Scan) : s.run? [] = some s := rfl

@[simp] theorem run?_cons (s : Scan) (c : Char) (cs : List Char) :
    s.run? (c :: cs) = (s.step? c).bind fun s' => s'.run? cs := rfl

theorem run?_append (s : Scan) (cs cs' : List Char) :
    s.run? (cs ++ cs') = (s.run? cs).bind fun s' => s'.run? cs' :=
  List.foldlM_append

/-- What is due further out does not matter to a character. -/
theorem next?_outer (h : next? due c = some due') (outer : List Char) :
    next? (due ++ outer) c = some (due' ++ outer) := by
  unfold next? at h ⊢
  split at h
  · cases h
    rfl
  · split at h
    · rw [if_pos ‹_›]
      cases due with
      | nil => cases h
      | cons d due =>
        obtain ⟨hd, hdue⟩ := Option.ite_none_right_eq_some.mp h
        cases hdue
        exact if_pos hd
    · cases h
      rw [if_neg ‹_›]

theorem step?_outer (h : step? ⟨due, region⟩ c = some ⟨due', region'⟩) (outer : List Char) :
    step? ⟨due ++ outer, region⟩ c = some ⟨due' ++ outer, region'⟩ := by
  unfold step? at h ⊢
  cases region with
  | code =>
    by_cases hquote : c = '"'
    · simpa [hquote] using h
    · obtain ⟨next, hnext, hscan⟩ := Option.map_eq_some_iff.mp ((if_neg hquote).symm.trans h)
      cases hscan
      simp [hquote, next?_outer hnext outer]
  | literal =>
    by_cases hquote : c = '"'
    · simpa [hquote] using h
    · by_cases hbackslash : c = '\\'
      · simpa [hbackslash] using h
      · simpa [hquote, hbackslash] using h
  | escaped => simpa using h

theorem run?_outer (h : run? ⟨due, region⟩ cs = some ⟨due', region'⟩) (outer : List Char) :
    run? ⟨due ++ outer, region⟩ cs = some ⟨due' ++ outer, region'⟩ := by
  induction cs generalizing due region with
  | nil =>
    cases h
    rfl
  | cons c cs ih =>
    obtain ⟨⟨between, region''⟩, hstep, hrun⟩ := Option.bind_eq_some_iff.mp h
    rw [run?_cons, step?_outer hstep]
    exact ih hrun

/-! ## Text that a scan passes over -/

/-- A text that leaves a scan as it is, whatever is due. -/
def Skips (region : Region) (cs : List Char) : Prop :=
  ∀ due, run? ⟨due, region⟩ cs = some ⟨due, region⟩

theorem Skips.nil (region : Region) : Skips region [] := fun _ => rfl

theorem Skips.append (h : Skips region cs) (h' : Skips region cs') : Skips region (cs ++ cs') := by
  intro due
  rw [run?_append, h due]
  exact h' due

theorem skips_of_wellBracketed {s : String} (h : WellBracketed s) : Skips .code s.toList :=
  run?_outer h

/-- An opening bracket and its closing one. -/
inductive Encloses : Char → Char → Prop
  | parentheses : Encloses '(' ')'
  | squares : Encloses '[' ']'
  | braces : Encloses '\x7b' '\x7d'

/-- A text between brackets. -/
theorem Skips.enclosed {opening closing : Char} (hpair : Encloses opening closing)
    (h : Skips .code cs) : Skips .code (opening :: (cs ++ [closing])) := by
  intro due
  have hopen : step? ⟨due, .code⟩ opening = some ⟨closing :: due, .code⟩ := by
    cases hpair <;> rfl
  have hclose : step? ⟨closing :: due, .code⟩ closing = some ⟨due, .code⟩ := by
    cases hpair <;> rfl
  rw [run?_cons, hopen, Option.bind_some, run?_append, h (closing :: due), Option.bind_some,
    run?_cons, hclose]
  rfl

/-- A text between double quotes. -/
theorem Skips.quoted (h : Skips .literal cs) : Skips .code ('"' :: (cs ++ ['"'])) := by
  intro due
  have hopen : step? ⟨due, .code⟩ '"' = some ⟨due, .literal⟩ := rfl
  have hclose : step? ⟨due, .literal⟩ '"' = some ⟨due, .code⟩ := rfl
  rw [run?_cons, hopen, Option.bind_some, run?_append, h due, Option.bind_some, run?_cons, hclose]
  rfl

/-- Text without double quotes and backslashes stays within a literal. -/
theorem skips_literal (hquote : '"' ∉ cs) (hbackslash : '\\' ∉ cs) : Skips .literal cs := by
  intro due
  induction cs with
  | nil => rfl
  | cons c cs ih =>
    rw [List.mem_cons, not_or] at hquote hbackslash
    have hstep : step? ⟨due, .literal⟩ c = some ⟨due, .literal⟩ := by
      simp [step?, Ne.symm hquote.1, Ne.symm hbackslash.1]
    rw [run?_cons, hstep]
    exact ih hquote.2 hbackslash.2

end Scan

/-! ## The characters that matter -/

/-- A bracket, a double quote or a backslash. -/
def isMark (c : Char) : Bool :=
  ['(', ')', '[', ']', '\x7b', '\x7d', '"', '\\'].contains c

/-- The brackets, double quotes and backslashes of a text. -/
def marks (cs : List Char) : List Char := cs.filter isMark

@[simp] theorem marks_nil : marks [] = [] := rfl

@[simp] theorem marks_cons (c : Char) (cs : List Char) :
    marks (c :: cs) = if isMark c then c :: marks cs else marks cs :=
  List.filter_cons

@[simp] theorem marks_append (cs cs' : List Char) : marks (cs ++ cs') = marks cs ++ marks cs' :=
  List.filter_append ..

@[simp] theorem marks_flatMap {α : Type} (f : α → List Char) (as : List α) :
    marks (as.flatMap f) = as.flatMap fun a => marks (f a) :=
  List.filter_flatMap ..

namespace Scan

variable {c : Char} {cs : List Char} {due : List Char} {region : Region}

theorem step?_of_not_isMark (h : isMark c = false) (hregion : region ≠ .escaped) :
    step? ⟨due, region⟩ c = some ⟨due, region⟩ := by
  simp [isMark] at h
  cases region with
  | code => simp [step?, next?, closing?, isClosing, h]
  | literal => simp [step?, h]
  | escaped => exact absurd rfl hregion

theorem region_ne_escaped {s' : Scan} (hbackslash : c ≠ '\\')
    (h : step? ⟨due, region⟩ c = some s') : s'.region ≠ .escaped := by
  unfold step? at h
  cases region with
  | code =>
    by_cases hquote : c = '"'
    · cases (if_pos hquote).symm.trans h
      nofun
    · obtain ⟨next, -, rfl⟩ := Option.map_eq_some_iff.mp ((if_neg hquote).symm.trans h)
      nofun
  | literal =>
    dsimp only at h
    rw [if_neg hbackslash] at h
    by_cases hquote : c = '"'
    · cases (if_pos hquote).symm.trans h
      nofun
    · cases (if_neg hquote).symm.trans h
      nofun
  | escaped =>
    cases h
    nofun

/-- The other characters do not matter where no backslash comes before them. -/
theorem run?_marks (hbackslash : '\\' ∉ cs) (hregion : region ≠ .escaped) :
    run? ⟨due, region⟩ (marks cs) = run? ⟨due, region⟩ cs := by
  induction cs generalizing due region with
  | nil => rfl
  | cons c cs ih =>
    rw [List.mem_cons, not_or] at hbackslash
    by_cases hmark : isMark c
    · rw [marks_cons, if_pos hmark, run?_cons, run?_cons]
      refine Option.bind_congr fun s' hs' => ?_
      exact ih hbackslash.2 (region_ne_escaped (Ne.symm hbackslash.1) hs')
    · rw [marks_cons, if_neg hmark, run?_cons, step?_of_not_isMark (by simpa using hmark) hregion]
      exact ih hbackslash.2 hregion

end Scan

/-- A separator without marks. -/
theorem marks_intercalate {separator : List Char} (h : marks separator = [])
    (parts : List (List Char)) : marks (separator.intercalate parts) = parts.flatMap marks :=
  filter_intercalate h parts

/-! ## Lines -/

theorem marks_endedLine (line : List Char) : marks (endedLine line) = marks line.reverse := by
  unfold endedLine
  split
  · simp [isMark]
  · rfl

theorem marks_linesFrom (line cs : List Char) :
    (linesFrom line cs).flatMap marks = marks (line.reverse ++ cs) := by
  induction cs generalizing line with
  | nil =>
    unfold linesFrom
    split
    · simp_all
    · simp
  | cons c cs ih =>
    by_cases hc : c = '\n'
    · subst hc
      simp [linesFrom, ih, marks_endedLine, isMark]
    · rw [linesFrom, ih]
      · simp
      · exact hc

/-- The lines of a text have its marks. -/
theorem marks_lines (s : String) :
    ((lines s).flatMap fun l => marks l.toList) = marks s.toList := by
  have hlines := marks_linesFrom [] s.toList
  simpa [lines, List.flatMap_map] using hlines

/-! ## Balanced marks -/

/-- A text with balanced brackets that has neither double quotes nor backslashes. -/
structure Neat (s : String) : Prop where
  wellBracketed : WellBracketed s
  no_quote : '"' ∉ s.toList
  no_backslash : '\\' ∉ s.toList

instance (s : String) : Decidable (Neat s) :=
  decidable_of_iff (WellBracketed s ∧ '"' ∉ s.toList ∧ '\\' ∉ s.toList)
    ⟨fun ⟨hbrackets, hquote, hbackslash⟩ => ⟨hbrackets, hquote, hbackslash⟩,
      fun ⟨hbrackets, hquote, hbackslash⟩ => ⟨hbrackets, hquote, hbackslash⟩⟩

/-- Marks over which a scan of code passes, without a backslash. -/
structure Balanced (ms : List Char) : Prop where
  skips : Scan.Skips .code ms
  no_backslash : '\\' ∉ ms

/-- Balanced marks that may stand in a literal as well. -/
structure Inert (ms : List Char) : Prop extends Balanced ms where
  no_quote : '"' ∉ ms

variable {ms ms' : List Char} {opening closing : Char}

theorem Neat.inert {s : String} (h : Neat s) : Inert (marks s.toList) where
  skips due := by
    have hcode : Region.code ≠ .escaped := nofun
    rw [Scan.run?_marks h.no_backslash hcode]
    exact Scan.skips_of_wellBracketed h.wellBracketed due
  no_backslash := fun hmem => h.no_backslash (List.mem_filter.mp hmem).1
  no_quote := fun hmem => h.no_quote (List.mem_filter.mp hmem).1

theorem Balanced.nil : Balanced [] := ⟨.nil .code, List.not_mem_nil⟩

theorem Balanced.append (h : Balanced ms) (h' : Balanced ms') : Balanced (ms ++ ms') where
  skips := h.skips.append h'.skips
  no_backslash := by simp [h.no_backslash, h'.no_backslash]

theorem Balanced.flatMap {α : Type} {f : α → List Char} {as : List α}
    (h : ∀ a ∈ as, Balanced (f a)) : Balanced (as.flatMap f) := by
  induction as with
  | nil => exact .nil
  | cons a as ih =>
    obtain ⟨hfirst, hrest⟩ := List.forall_mem_cons.mp h
    exact hfirst.append (ih hrest)

theorem Balanced.enclosed (hpair : Scan.Encloses opening closing) (h : Balanced ms) :
    Balanced (opening :: (ms ++ [closing])) where
  skips := h.skips.enclosed hpair
  no_backslash := by
    have hmarks := h.no_backslash
    cases hpair <;> simpa using hmarks

theorem Inert.nil : Inert [] := ⟨.nil, List.not_mem_nil⟩

theorem Inert.append (h : Inert ms) (h' : Inert ms') : Inert (ms ++ ms') where
  toBalanced := h.toBalanced.append h'.toBalanced
  no_quote := by simp [h.no_quote, h'.no_quote]

theorem Inert.flatMap {α : Type} {f : α → List Char} {as : List α}
    (h : ∀ a ∈ as, Inert (f a)) : Inert (as.flatMap f) where
  toBalanced := .flatMap fun a ha => (h a ha).toBalanced
  no_quote := by
    rw [List.mem_flatMap]
    rintro ⟨a, ha, hquote⟩
    exact (h a ha).no_quote hquote

theorem Inert.enclosed (hpair : Scan.Encloses opening closing) (h : Inert ms) :
    Inert (opening :: (ms ++ [closing])) where
  toBalanced := h.toBalanced.enclosed hpair
  no_quote := by
    have hmarks := h.no_quote
    cases hpair <;> simpa using hmarks

theorem Inert.quoted (h : Inert ms) : Balanced ('"' :: (ms ++ ['"'])) where
  skips := (Scan.skips_literal h.no_quote h.no_backslash).quoted
  no_backslash := by
    have hmarks := h.no_backslash
    simpa using hmarks

end OverloadSuite.Text
