import OverloadSuite.Command.Arguments
import Mathlib.Data.List.Basic

/-!
# Asking for a comparison

A command whose arguments hold `--check` writes nothing, wherever the flag stands. A request that
asks for outputs to be written asks for the same to be compared once the flag is put in front.
-/

namespace OverloadSuite

namespace Request

/-- What is to be done with outputs, if the request is for any. -/
def mode? : Request → Option OutputMode
  | generate _ mode => some mode
  | batch _ mode => some mode
  | diagnostics => none
  | help => none

/-- The request for a comparison instead. -/
def compared : Request → Request
  | generate job _ => generate job .compare
  | batch manifest _ => batch manifest .compare
  | diagnostics => diagnostics
  | help => help

end Request

namespace Arguments

variable {names : OptionNames} {given given' g : Given} {name value : String} {args : List String}
  {request : Request}

theorem add?_eq_some (h : add? given name value = some given') :
    given' = (name, value) :: given := by
  unfold add? at h
  split at h
  · cases h
  · exact (Option.some.inj h).symm

theorem addValued?_eq_some (h : addValued? names given name value = some given') :
    given' = (name, value) :: given := by
  obtain ⟨kind, -, h⟩ := Option.bind_eq_some_iff.mp h
  split at h
  · exact add?_eq_some h
  · cases h

/-- An option that has been given stays given. -/
theorem mem_of_read? {o : String × String} (ho : o ∈ given)
    (h : read? names given args = some (some g)) : o ∈ g := by
  fun_induction read? names given args with
  | case1 | case2 =>
    obtain rfl := Option.some.inj (Option.some.inj h)
    exact List.mem_reverse.mpr ho
  | case3 => cases h
  | case4 given arg args hend hhelp option hoption name value hsplit ih =>
    obtain ⟨given', hadd, h⟩ := Option.bind_eq_some_iff.mp h
    exact ih given' (by simp [addValued?_eq_some hadd, ho]) h
  | case5 given arg args hend hhelp option hoption name hsplit hflag ih =>
    obtain ⟨given', hadd, h⟩ := Option.bind_eq_some_iff.mp h
    exact ih given' (by simp [add?_eq_some hadd, ho]) h
  | case6 given arg hhelp option hoption name hsplit hflag value args hvalue hend ih =>
    obtain ⟨given', hadd, h⟩ := Option.bind_eq_some_iff.mp h
    exact ih given' (by simp [addValued?_eq_some hadd, ho]) h
  | case7 | case8 | case9 => cases h

theorem splitEquals_check {option : List Char} (h : "--check".toList = '-' :: '-' :: option) :
    splitEquals (String.ofList option) = ("check", none) := by
  have hcheck : "--check".toList = '-' :: '-' :: "check".toList := by decide
  obtain rfl : "check".toList = option :=
    List.tail_eq_of_cons_eq (List.tail_eq_of_cons_eq (hcheck.symm.trans h))
  decide

/-- The flag is found wherever it stands. -/
theorem check_mem_of_read? (hnames : "check" ∈ names.flags) (hcheck : "--check" ∈ args)
    (h : read? names given args = some (some g)) : ("check", "") ∈ g := by
  fun_induction read? names given args with
  | case1 => cases hcheck
  | case2 => simp at hcheck
  | case3 => cases h
  | case4 given arg args hend hhelp option hoption name value hsplit ih =>
    obtain ⟨given', hadd, hread⟩ := Option.bind_eq_some_iff.mp h
    rcases List.mem_cons.mp hcheck with rfl | hcheck
    · rw [splitEquals_check hoption] at hsplit
      cases hsplit
    · exact ih given' hcheck hread
  | case5 given arg args hend hhelp option hoption name hsplit hflag ih =>
    obtain ⟨given', hadd, hread⟩ := Option.bind_eq_some_iff.mp h
    rcases List.mem_cons.mp hcheck with rfl | hcheck
    · rw [splitEquals_check hoption] at hsplit
      cases hsplit
      exact mem_of_read? (by simp [add?_eq_some hadd]) hread
    · exact ih given' hcheck hread
  | case6 given arg hhelp option hoption name hsplit hflag value args hvalue hend ih =>
    obtain ⟨given', hadd, hread⟩ := Option.bind_eq_some_iff.mp h
    rcases List.mem_cons.mp hcheck with rfl | hcheck
    · rw [splitEquals_check hoption] at hsplit
      cases hsplit
      exact absurd hnames hflag
    · rcases List.mem_cons.mp hcheck with rfl | hcheck
      · exact absurd hvalue (by decide +kernel)
      · exact ih given' hcheck hread
  | case7 | case8 | case9 => cases h

/-! ## The flag in front -/

/-- Arguments with the flag right after the command. -/
def withCheck : List String → List String
  | command :: args => command :: "--check" :: args
  | [] => []

theorem flag_of_mem (h : (name, value) ∈ g) : flag g name = true := by
  unfold flag
  rw [Option.isSome_iff_ne_none, ne_eq, List.lookup_eq_none_iff]
  intro hnone
  simpa using hnone _ h

theorem add?_append (hname : name ≠ "check") (h : add? given name value = some given') :
    add? (given ++ [("check", "")]) name value = some (given' ++ [("check", "")]) := by
  obtain rfl := add?_eq_some h
  have hlookup : (given ++ [("check", "")]).lookup name = given.lookup name := by
    have hbeq : (name == "check") = false := beq_eq_false_iff_ne.mpr hname
    simp [List.lookup_append, List.lookup_cons, hbeq]
  unfold add? at h ⊢
  rw [hlookup]
  split at h
  · cases h
  · rename_i hallowed
    rw [if_neg hallowed]
    rfl

theorem addValued?_append (hname : name ≠ "check")
    (h : addValued? names given name value = some given') :
    addValued? names (given ++ [("check", "")]) name value = some (given' ++ [("check", "")]) := by
  obtain ⟨kind, hkind, h⟩ := Option.bind_eq_some_iff.mp h
  refine Option.bind_eq_some_iff.mpr ⟨kind, hkind, ?_⟩
  split at h
  · rename_i hacceptable
    rw [if_pos hacceptable]
    exact add?_append hname h
  · cases h

/-- A flag that is not given may be given before all other options. -/
theorem read?_append (hflag : flag g "check" = false) (h : read? names given args = some (some g)) :
    read? names (given ++ [("check", "")]) args = some (some (("check", "") :: g)) := by
  have hname : ∀ {name value : String}, (name, value) ∈ g → name ≠ "check" := by
    rintro name value hmem rfl
    rw [flag_of_mem hmem] at hflag
    cases hflag
  fun_induction read? names given args with
  | case1 | case2 =>
    obtain rfl := Option.some.inj (Option.some.inj h)
    simp [read?]
  | case3 => cases h
  | case4 given arg args hend hhelp option hoption name value hsplit ih =>
    obtain ⟨given', hadd, hread⟩ := Option.bind_eq_some_iff.mp h
    have hgiven : (name, value) ∈ g := mem_of_read? (by simp [addValued?_eq_some hadd]) hread
    simp [read?, hhelp, hoption, hsplit, addValued?_append (hname hgiven) hadd, ih given' hread]
  | case5 given arg args hend hhelp option hoption name hsplit hflag ih =>
    obtain ⟨given', hadd, hread⟩ := Option.bind_eq_some_iff.mp h
    have hgiven : (name, "") ∈ g := mem_of_read? (by simp [add?_eq_some hadd]) hread
    simp [read?, hhelp, hoption, hsplit, hflag, add?_append (hname hgiven) hadd, ih given' hread]
  | case6 given arg hhelp option hoption name hsplit hflag value args hvalue hend ih =>
    obtain ⟨given', hadd, hread⟩ := Option.bind_eq_some_iff.mp h
    have hgiven : (name, value) ∈ g := mem_of_read? (by simp [addValued?_eq_some hadd]) hread
    simp [read?, hhelp, hoption, hsplit, hflag, hvalue, addValued?_append (hname hgiven) hadd,
      ih given' hread]
  | case7 | case8 | case9 => cases h

theorem read?_check (hnames : "check" ∈ names.flags) (args : List String) :
    read? names [] ("--check" :: args) = read? names [("check", "")] args := by
  have hhelp : asksForHelp "--check" = false := by decide +kernel
  have hsplit : splitEquals (String.ofList "check".toList) = ("check", none) := by decide
  have hadd : add? [] "check" "" = some [("check", "")] := by decide
  have hoption : "--check".toList = '-' :: '-' :: "check".toList := by decide
  rw [read?, hhelp, hoption]
  · simp only [Bool.false_eq_true, if_false, hsplit, if_pos hnames, hadd]
    rfl
  · intro h
    exact absurd h (by decide)

/-! ## Requests -/

theorem mode?_generate? (h : generate? g = some request) : request.mode? = some (mode g) := by
  obtain ⟨types, -, h⟩ := Option.bind_eq_some_iff.mp h
  obtain ⟨functions, -, h⟩ := Option.bind_eq_some_iff.mp h
  obtain ⟨out, -, h⟩ := Option.bind_eq_some_iff.mp h
  obtain rfl := Option.some.inj h
  rfl

theorem mode?_batch? (h : batch? g = some request) : request.mode? = some (mode g) := by
  obtain ⟨manifest, -, h⟩ := Option.bind_eq_some_iff.mp h
  obtain rfl := Option.some.inj h
  rfl

/-- The flag changes nothing in a request but what is done with the outputs. -/
theorem generate?_check (g : Given) :
    generate? (("check", "") :: g) = (generate? g).map Request.compared := by
  have hlookup : ∀ name, name ≠ "check" → (("check", "") :: g).lookup name = g.lookup name := by
    intro name hname
    rw [List.lookup_cons, beq_eq_false_iff_ne.mpr hname]
  have hfilter : (("check", "") :: g).filter (·.1 == "function") =
      g.filter (·.1 == "function") := by
    simp
  unfold generate?
  simp only [flag, hlookup, hfilter, ne_eq, String.reduceEq, not_false_eq_true]
  cases g.lookup "types" <;> cases g.lookup "functions" <;> cases g.lookup "out" <;> rfl

theorem batch?_check (g : Given) :
    batch? (("check", "") :: g) = (batch? g).map Request.compared := by
  have hlookup : (("check", "") :: g).lookup "manifest" = g.lookup "manifest" := by
    rw [List.lookup_cons, beq_eq_false_iff_ne.mpr (by decide)]
  unfold batch?
  rw [hlookup]
  cases g.lookup "manifest" <;> rfl

/-- A command with outputs takes the flag, and its request says what is done with the outputs. -/
structure TakesCheck (names : OptionNames) (request? : Given → Option Request) : Prop where
  hasFlag : "check" ∈ names.flags
  asks : ∀ g request, request? g = some request → request.mode? = some (mode g)
  compares : ∀ g, request? (("check", "") :: g) = (request? g).map Request.compared

theorem takesCheck_generate : TakesCheck generateOptions generate? :=
  ⟨by decide, fun _ _ => mode?_generate?, generate?_check⟩

theorem takesCheck_batch : TakesCheck batchOptions batch? :=
  ⟨by decide, fun _ _ => mode?_batch?, batch?_check⟩

variable {request? : Given → Option Request}

theorem command?_eq_some (h : command? names request? args = some request) :
    (∃ g, read? names [] args = some (some g) ∧ request? g = some request) ∨ request = .help := by
  obtain ⟨result, hread, h⟩ := Option.bind_eq_some_iff.mp h
  cases result with
  | some g => exact .inl ⟨g, hread, h⟩
  | none => exact .inr (Option.some.inj h).symm

theorem TakesCheck.mode?_ne (hc : TakesCheck names request?) (hcheck : "--check" ∈ args)
    (h : command? names request? args = some request) : request.mode? ≠ some .write := by
  rcases command?_eq_some h with ⟨g, hread, hrequest⟩ | rfl
  · have hflag := flag_of_mem (check_mem_of_read? hc.hasFlag hcheck hread)
    rw [hc.asks g request hrequest, mode, if_pos hflag]
    simp
  · simp [Request.mode?]

theorem TakesCheck.command?_check (hc : TakesCheck names request?)
    (h : command? names request? args = some request) (hmode : request.mode? = some .write) :
    command? names request? ("--check" :: args) = some request.compared := by
  rcases command?_eq_some h with ⟨g, hread, hrequest⟩ | rfl
  · have hflag : flag g "check" = false := by
      rw [hc.asks g request hrequest, mode] at hmode
      split at hmode
      · cases hmode
      · rename_i hflag
        simpa using hflag
    rw [command?, read?_check hc.hasFlag, show [("check", "")] = [] ++ [("check", "")] from rfl,
      read?_append hflag hread]
    show request? (("check", "") :: g) = _
    rw [hc.compares, hrequest]
    rfl
  · cases hmode

/-- What arguments with outputs ask for: to generate them, or to do the jobs of a manifest. -/
theorem parse?_eq_some {mode : OutputMode} (h : parse? args = some request)
    (hmode : request.mode? = some mode) :
    (∃ rest, args = "generate" :: rest ∧ command? generateOptions generate? rest = some request) ∨
      ∃ rest, args = "batch" :: rest ∧ command? batchOptions batch? rest = some request := by
  unfold parse? at h
  split at h
  · exact .inl ⟨_, rfl, h⟩
  · exact .inr ⟨_, rfl, h⟩
  · rcases command?_eq_some h with ⟨g, -, hrequest⟩ | rfl
    · obtain rfl := Option.some.inj hrequest
      cases hmode
    · cases hmode
  · obtain rfl := Option.some.inj h
    cases hmode
  · split at h
    · obtain rfl := Option.some.inj h
      cases hmode
    · cases h
  · split at h
    · obtain rfl := Option.some.inj h
      cases hmode
    · cases h
  · cases h

/-- **No request to write is made with the flag.** -/
theorem mode?_ne_of_check (hcheck : "--check" ∈ args) (h : parse? args = some request) :
    request.mode? ≠ some .write := by
  intro hmode
  rcases parse?_eq_some h hmode with ⟨rest, rfl, hcommand⟩ | ⟨rest, rfl, hcommand⟩
  · exact takesCheck_generate.mode?_ne (by simpa using hcheck) hcommand hmode
  · exact takesCheck_batch.mode?_ne (by simpa using hcheck) hcommand hmode

/-- **With the flag in front, the same is compared.** -/
theorem parse?_withCheck (h : parse? args = some request) (hmode : request.mode? = some .write) :
    parse? (withCheck args) = some request.compared := by
  rcases parse?_eq_some h hmode with ⟨rest, rfl, hcommand⟩ | ⟨rest, rfl, hcommand⟩
  · exact takesCheck_generate.command?_check hcommand hmode
  · exact takesCheck_batch.command?_check hcommand hmode

end Arguments

end OverloadSuite
