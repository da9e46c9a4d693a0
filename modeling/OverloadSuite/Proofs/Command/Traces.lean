import OverloadSuite.Proofs.Command.CheckMode

/-!
# Traces of a job

A job finds out everything that can be wrong with its documents before it writes anything. So it
leaves no trace unless it gets to its outputs, and then it touches nothing but these and the
directories around them. Source and report come from one run.
-/

namespace OverloadSuite

open FileAction Attempt

/-- The system did not let an output be written, or the directories around it be made. -/
def Failure.isUnwritable : Failure → Bool
  | unmadeDirectory .. | unwrittenOutput .. => true
  | _ => false

/-- A document is what the file at a path decodes to. -/
def Tree.Holds {α : Type} (t : Tree) (path : String) (ofJson? : Json → Option α) (document : α) :
    Prop :=
  ∃ contents, t.read path = .ok contents ∧ (Json.parseBytes? contents >>= ofJson?) = some document

theorem Tree.Holds.unique {α : Type} {t : Tree} {path : String} {ofJson? : Json → Option α}
    {a b : α} (ha : t.Holds path ofJson? a) (hb : t.Holds path ofJson? b) : a = b := by
  obtain ⟨contents, hread, ha⟩ := ha
  obtain ⟨contents', hread', hb⟩ := hb
  obtain rfl := Except.ok.inj (hread.symm.trans hread')
  exact Option.some.inj (ha.symm.trans hb)

namespace Job

variable {job : Job} {mode : OutputMode} {w : Workspace} {t t' : Tree} {run : Run}
  {path text source : String} {next : UInt64} {outputs : List (String × String)} {failure : Failure}

/-! ## What is written where -/

/-- Writing an output touches nothing else, whether it succeeds or not. -/
theorem touches_writeOutput (path text : String) (w : Workspace) :
    Tree.Touches [path] w.tree (rest (writeOutput path text) w).tree := by
  have hwrite : ∀ w : Workspace, Tree.Touches [path] w.tree
      (rest (orFail (.unwrittenOutput path) (Files.write path text)) w).tree := by
    intro w
    rw [rest_orFail]
    show Tree.Touches [path] w.tree (w.attempt (w.tree.write path text)).2.tree
    cases h : w.tree.write path text with
    | ok t => exact Tree.touches_write h
    | error e => exact .refl w.tree
  unfold writeOutput
  cases hparent : Path.parent? path with
  | none => exact hwrite w
  | some directory =>
    have hmakes : Tree.Touches [path] w.tree
        (rest (orFail (.unmadeDirectory directory) (Files.makeDirectories directory)) w).tree :=
      Tree.touches_makesDirectories (Files.makesDirectories_around hparent w)
    cases hmade : outcome (orFail (.unmadeDirectory directory)
        (Files.makeDirectories directory) : FileAction Unit) w with
    | ok =>
      simp only [rest_bind hmade]
      exact hmakes.trans (hwrite _)
    | error e =>
      simp only [rest_bind_error hmade]
      exact hmakes

theorem touches_emitAll (outputs : List (String × String)) (w : Workspace) :
    Tree.Touches (outputs.map Prod.fst) w.tree (rest (emitAll .write outputs) w).tree := by
  induction outputs generalizing w with
  | nil => exact .refl w.tree
  | cons o outputs ih =>
    rw [emitAll_cons]
    have hfirst : Tree.Touches ((o :: outputs).map Prod.fst) w.tree
        (rest (emit .write o.1 o.2) w).tree := (touches_writeOutput o.1 o.2 w).mono (by simp)
    cases h : outcome (emit .write o.1 o.2) w with
    | ok =>
      rw [rest_bind h]
      exact hfirst.trans ((ih _).mono (by simp))
    | error e =>
      rw [rest_bind_error h]
      exact hfirst

theorem exists_of_orFail_eq_error {α : Type} {cause : SystemError → Failure}
    {action : StateM Workspace (Except SystemError α)}
    (h : outcome (orFail cause action) w = .error failure) : ∃ e, failure = cause e := by
  rw [outcome_orFail] at h
  cases hresult : (action w).1 with
  | ok a =>
    rw [hresult] at h
    cases h
  | error e =>
    rw [hresult] at h
    exact ⟨e, (Except.error.inj h).symm⟩

/-- An output fails for the system's reasons only. -/
theorem isUnwritable_of_writeOutput (h : outcome (writeOutput path text) w = .error failure) :
    failure.isUnwritable = true := by
  unfold writeOutput at h
  cases hparent : Path.parent? path with
  | none =>
    simp only [hparent] at h
    obtain ⟨e, rfl⟩ := exists_of_orFail_eq_error h
    rfl
  | some directory =>
    simp only [hparent] at h
    rcases bind_eq_error.mp h with h | ⟨⟨⟩, -, h⟩
    · obtain ⟨e, rfl⟩ := exists_of_orFail_eq_error h
      rfl
    · obtain ⟨e, rfl⟩ := exists_of_orFail_eq_error h
      rfl

theorem isUnwritable_of_emitAll (h : outcome (emitAll .write outputs) w = .error failure) :
    failure.isUnwritable = true := by
  induction outputs generalizing w with
  | nil => cases h
  | cons o outputs ih =>
    rw [emitAll_cons] at h
    rcases bind_eq_error.mp h with h | ⟨⟨⟩, -, h⟩
    · exact isUnwritable_of_writeOutput h
    · exact ih h

/-- A job that fails for another reason has not come to its outputs. -/
theorem tree_of_perform_eq_error (h : outcome (job.perform .write) w = .error failure)
    (hreason : failure.isUnwritable = false) : (rest (job.perform .write) w).tree = w.tree := by
  rw [perform_eq] at h ⊢
  rcases bind_eq_error.mp h with h | ⟨⟨run, text⟩, -, h⟩
  · rw [rest_bind_error h, job.repeats_prepare.readsOnly]
  · rcases bind_eq_error.mp h with h | ⟨⟨⟩, -, h⟩
    · rw [isUnwritable_of_emitAll h] at hreason
      cases hreason
    · cases h

/-! ## What the outputs are to hold -/

/-- A run is that of the documents of a job: the catalog, the signatures and the selection that
their files hold, or all of the catalog if there is no selection. -/
def IsRun (job : Job) (t : Tree) (run : Run) : Prop :=
  ∃ c signatures s,
    (∃ document, t.Holds job.types TypesDocument.ofJson? document ∧ document.catalog = .ok c) ∧
    (∃ document, t.Holds job.functions FunctionsDocument.ofJson? document ∧
      document.signatures = .ok signatures) ∧
    (match job.selection with
      | none => s = .allOf c
      | some path => ∃ document, t.Holds path SelectionDocument.ofJson? document ∧
        document.checked = .ok s) ∧
    Run.generate c signatures s job.options = .ok run

/-- The documents of a job make one run only. -/
theorem IsRun.unique {run' : Run} (h : job.IsRun t run) (h' : job.IsRun t run') : run = run' := by
  obtain ⟨c, signatures, s, ⟨_, htypes, hc⟩, ⟨_, hfunctions, hsignatures⟩, hs, hgenerate⟩ := h
  obtain ⟨c', signatures', s', ⟨_, htypes', hc'⟩, ⟨_, hfunctions', hsignatures'⟩, hs',
    hgenerate'⟩ := h'
  obtain rfl := htypes.unique htypes'
  obtain rfl := hfunctions.unique hfunctions'
  obtain rfl := Except.ok.inj (hc.symm.trans hc')
  obtain rfl := Except.ok.inj (hsignatures.symm.trans hsignatures')
  obtain rfl : s = s' := by
    cases hselection : job.selection with
    | none =>
      simp only [hselection] at hs hs'
      exact hs.trans hs'.symm
    | some path =>
      simp only [hselection] at hs hs'
      obtain ⟨_, hdocument, hs⟩ := hs
      obtain ⟨_, hdocument', hs'⟩ := hs'
      obtain rfl := hdocument.unique hdocument'
      exact Except.ok.inj (hs.symm.trans hs')
  exact Except.ok.inj (hgenerate.symm.trans hgenerate')

/-- A text is the emitted source, or that of the template with the source in it. -/
def Renders (job : Job) (t : Tree) (source text : String) : Prop :=
  match job.template with
  | none => text = source
  | some path => ∃ template : String, t.read path = .ok template.toUTF8 ∧
    Template.fill? template source = some text

theorem accept_eq_ok {α : Type} {schema : Schema} {x : Except Fault α} {a : α} :
    outcome (accept schema path x) w = .ok a ↔ x = .ok a := by
  cases x with
  | ok b => simp [accept]
  | error fault => exact ⟨nofun, nofun⟩

/-- What is read from a document that is accepted. -/
theorem of_readAccepted {α β : Type} {schema : Schema} {ofJson? : Json → Option α}
    {meaning : α → Except Fault β} {b : β}
    (h : outcome (readDocument schema ofJson? path >>= fun document =>
      accept schema path (meaning document)) w = .ok b) :
    ∃ document, w.tree.Holds path ofJson? document ∧ meaning document = .ok b := by
  obtain ⟨document, hdocument, h⟩ := bind_eq_ok.mp h
  exact ⟨document, readDocument_eq_ok.mp hdocument, accept_eq_ok.mp h⟩

theorem isRun_of_run (h : outcome job.run w = .ok run) : job.IsRun w.tree run := by
  obtain ⟨c, hc, h⟩ := bind_eq_ok.mp h
  obtain ⟨signatures, hsignatures, h⟩ := bind_eq_ok.mp h
  obtain ⟨s, hs, h⟩ := bind_eq_ok.mp h
  -- the tree is still the same wherever a document is read
  have htypes := (repeats_readTypes job.types).readsOnly w
  have hfunctions := (repeats_readFunctions job.functions).readsOnly (rest (readTypes job.types) w)
  rw [htypes] at hfunctions
  refine ⟨c, signatures, s, of_readAccepted hc, ?_, ?_, ?_⟩
  · rw [← htypes]
    exact of_readAccepted hsignatures
  · unfold selectionFor at hs
    cases hselection : job.selection with
    | none =>
      simp only [hselection] at hs
      exact (Except.ok.inj hs).symm
    | some path =>
      simp only [hselection] at hs
      dsimp only
      rw [← hfunctions]
      exact of_readAccepted hs
  · split at h
    · rename_i run' hgenerate
      obtain rfl := Except.ok.inj h
      exact hgenerate
    · cases h

theorem renders_of_fillTemplate (h : outcome (job.fillTemplate source) w = .ok text) :
    job.Renders w.tree source text := by
  unfold fillTemplate at h
  unfold Renders
  cases htemplate : job.template with
  | none =>
    simp only [htemplate] at h
    exact (Except.ok.inj h).symm
  | some path =>
    simp only [htemplate] at h
    obtain ⟨template, hread, h⟩ := bind_eq_ok.mp h
    rw [outcome_orFail, mapError_eq_ok, readText_eq] at hread
    obtain ⟨contents, hread, htext⟩ := Outcome.bind_eq_ok.mp hread
    obtain rfl := textOf_eq_ok.mp htext
    split at h
    · rename_i text' hfill
      obtain rfl := Except.ok.inj h
      exact ⟨template, hread, hfill⟩
    · cases h

theorem renders_of_prepare (h : outcome job.prepare w = .ok (run, text)) :
    job.IsRun w.tree run ∧ job.Renders w.tree run.source text := by
  obtain ⟨run', hrun, h⟩ := bind_eq_ok.mp h
  obtain ⟨⟨⟩, -, h⟩ := bind_eq_ok.mp h
  obtain ⟨text', htext, h⟩ := bind_eq_ok.mp h
  obtain ⟨rfl, rfl⟩ := Prod.mk.inj (Except.ok.inj h)
  have hwarns : Repeats [] (run'.diagnostics.forM fun d =>
      (ExceptT.lift (Files.warn d.text) : FileAction PUnit)) := .forM fun d => .warn d.text
  have htree := hwarns.readsOnly (rest job.run w)
  rw [job.repeats_run.readsOnly] at htree
  rw [← htree]
  exact ⟨htree ▸ isRun_of_run hrun, renders_of_fillTemplate htext⟩

/-! ## What a job leaves -/

/-- The last output that is written is read again, wherever the others went. -/
theorem read_last_of_emitAll {o : String × String}
    (h : outcome (emitAll .write (outputs ++ [o])) w = .ok ()) :
    (rest (emitAll .write (outputs ++ [o])) w).tree.read o.1 = .ok o.2.toUTF8 := by
  induction outputs generalizing w with
  | nil => exact (written_of_emitAll h).read (by simp [placesOf]) o List.mem_cons_self
  | cons first outputs ih =>
    rw [List.cons_append, emitAll_cons] at h ⊢
    obtain ⟨⟨⟩, hfirst, h⟩ := bind_eq_ok.mp h
    rw [rest_bind hfirst]
    exact ih h

/-- A text is a record with a field of this name and value. -/
def Says (text name : String) (value : Json) : Prop :=
  Json.decode? (Json.fields? [name] 1) text = some [some value]

/-- The text of a report sums up a run of a job: what the job asked for, how many overloads and
cases there are, the numbers that they take, what was found on the way, and a digest of the emitted
source. -/
structure Sums (job : Job) (run : Run) (text : String) : Prop where
  version : Says text "schema_version" (.ofString Schema.report.version)
  check : Says text "check" (.ofString job.options.check.name)
  overloadCount : Says text "signature_count" (.natural run.overloadCount)
  caseCount : Says text "test_case_count" (.natural run.suite.length)
  startId : Says text "start_id" (.natural job.options.startId.toNat)
  nextId : Says text "next_id" (.natural (job.options.startId.toNat + run.suite.length))
  diagnostics : ∃ value, Says text "diagnostics" value ∧
    Json.list? Diagnostic.ofJson? value = some run.diagnostics
  digest : Says text "sha256" (.ofString (Sha256.hex run.source.toUTF8))

theorem says_reportText {report : Report} {name : String} {value : Json}
    (h : Json.fields? [name] 1 report.toJson = some [some value]) :
    Says (reportText report) name value := by
  rw [Says, Json.decode?, reportText, (Json.parse?_indented report.textual_toJson).2]
  exact h

theorem sums_of_prepare (h : outcome job.prepare w = .ok (run, text)) :
    job.Sums run (reportText (run.report job.options.check)) := by
  have hstart : run.startId = job.options.startId := by
    obtain ⟨c, signatures, s, hgenerate⟩ := exists_generate_of_run (run_of_prepare h)
    obtain ⟨_, _, -, -, rfl⟩ := Run.draw_eq_ok.mp hgenerate
    rfl
  obtain ⟨-, hnext⟩ := ids_of_prepare h
  rw [← hstart] at hnext
  constructor
  · exact says_reportText rfl
  · exact says_reportText rfl
  · exact says_reportText rfl
  · exact says_reportText rfl
  · rw [← hstart]
    exact says_reportText rfl
  · rw [← hstart, ← hnext]
    exact says_reportText rfl
  · exact ⟨_, says_reportText rfl, Diagnostic.codec.list.read?_write run.diagnostics⟩
  · exact says_reportText rfl

/-- What a job leaves in a tree when it succeeds. Its outputs come from one run; the report is
written last, so the source may be gone if the report goes to the same place. -/
structure Leaves (job : Job) (t t' : Tree) (run : Run) (text : String) : Prop where
  isRun : job.IsRun t run
  renders : job.Renders t run.source text
  touches : Tree.Touches job.outputPaths t t'
  out : (∀ path, job.report = some path →
      Path.place t.workingDirectory path ≠ Path.place t.workingDirectory job.out) →
    t'.read job.out = .ok text.toUTF8
  report : ∀ path, job.report = some path →
    t'.read path = .ok (reportText (run.report job.options.check)).toUTF8
  summary : job.Sums run (reportText (run.report job.options.check))

theorem leaves_of_perform (h : outcome (job.perform .write) w = .ok next) :
    ∃ run text, job.Leaves w.tree (rest (job.perform .write) w).tree run text := by
  obtain ⟨run, text, hprepare, hemit, -⟩ := perform_eq_ok.mp h
  obtain ⟨-, hrest⟩ := emit_of_perform hprepare h
  have htree : (rest job.prepare w).tree = w.tree := job.repeats_prepare.readsOnly w
  obtain ⟨hrun, htext⟩ := renders_of_prepare hprepare
  have hwritten := written_of_emitAll hemit
  have htouches := touches_emitAll (job.emissions run text) (rest job.prepare w)
  rw [map_fst_emissions, htree] at htouches
  rw [htree] at hwritten
  rw [hrest]
  refine ⟨run, text, hrun, htext, htouches, fun hapart => ?_, fun path hpath => ?_,
    sums_of_prepare hprepare⟩
  · refine hwritten.read ?_ (job.out, text) List.mem_cons_self
    rw [placesOf_eq, map_fst_emissions, outputPaths]
    cases hreport : job.report with
    | none => simp
    | some path => simpa [eq_comm] using hapart path hreport
  · have hemissions : job.emissions run text =
        [(job.out, text)] ++ [(path, reportText (run.report job.options.check))] := by
      simp [emissions, hpath]
    rw [hemissions] at hemit ⊢
    exact read_last_of_emitAll hemit

end Job

/-! ## What the command leaves -/

namespace Command

/-- **A generation that fails leaves no trace, and one that succeeds touches its outputs only.** The
tree is as it was if the arguments are wrong, and after every failure but one of the system's to
make a directory or to write an output. After a success it is as it was but for the source, the
report and the directories around them. -/
theorem generate_leaves :
    (∀ args w, Arguments.parse? args = none → exitCode args w = 2 ∧ (after args w).tree = w.tree) ∧
      ∀ args w job, Arguments.parse? args = some (.generate job .write) →
        (exitCode args w ≠ 0 → ∃ failure, outcome (job.perform .write) w = .error failure ∧
          exitCode args w = 1 ∧ (failure.isUnwritable = false → (after args w).tree = w.tree)) ∧
        (exitCode args w = 0 → ∃ run text,
          job.Leaves w.tree (after args w).tree run text) := by
  refine ⟨fun args w hargs => ?_, fun args w job hargs => ?_⟩
  · rw [exitCode, after, run, hargs]
    exact ⟨rfl, rfl⟩
  · rw [exitCode, after, run_eq hargs, perform, tree_conclude]
    rcases Outcome.ok_or_error (outcome (job.perform .write) w) with
      ⟨next, hnext⟩ | ⟨failure, hfails⟩
    · rw [conclude_of_ok hnext]
      exact ⟨fun hne => absurd rfl hne, fun _ => Job.leaves_of_perform hnext⟩
    · rw [conclude_of_error hfails]
      refine ⟨fun _ => ⟨failure, hfails, rfl, Job.tree_of_perform_eq_error hfails⟩, fun hzero => ?_⟩
      cases hzero

/-- A workspace without files. -/
def blank : Workspace where
  tree := ⟨[], ∅⟩
  printed := ""
  warned := ""

/-- The arguments that ask for one of the jobs of the manifest. -/
def generateArgs : List String :=
  ["generate", "--types", "suite/types", "--functions", "suite/functions", "--verified", "--out",
    "suite/first", "--report-out", "suite/first.json"]

open Batch

theorem parse?_generateArgs : Arguments.parse? generateArgs =
    some (.generate (sampleJob "first" "first.json" 0) .write) := by decide +kernel

theorem perform_blank : outcome ((sampleJob "first" "first.json" 0).perform .write) blank =
    .error (.unreadable .types "suite/types" .notFound) := by
  have hpieces : Path.pieces "suite/types" = ["suite"] ++ ["types"] := by decide +kernel
  have htarget : blank.tree.target "suite/types" = .error .notFound := by
    rw [Tree.target_eq_map ⟨by decide, by decide, by decide⟩ (by decide +kernel) hpieces
      (by decide +kernel) (by decide)]
    rfl
  have hread : blank.tree.read "suite/types" = .error .notFound := by
    rw [Tree.read, htarget]
    rfl
  have hopen : outcome (Job.orFail (.unreadable .types "suite/types") (Files.read "suite/types"))
      blank = .error (.unreadable .types "suite/types" .notFound) := by
    rw [Job.outcome_orFail]
    show (blank.tree.read "suite/types").mapError _ = _
    rw [hread]
    rfl
  have htypes : outcome (Job.readTypes "suite/types") blank =
      .error (.unreadable .types "suite/types" .notFound) :=
    bind_eq_error.mpr (.inl (bind_eq_error.mpr (.inl hopen)))
  exact bind_eq_error.mpr (.inl (bind_eq_error.mpr (.inl htypes)))

/-- A source of seven cases and a report are written where the documents are, and nothing where
there are none. -/
theorem generate_leaves_samples :
    (∃ run text, (sampleJob "first" "first.json" 0).Leaves samples.tree
        (after generateArgs samples).tree run text ∧ run.suite.length = 7) ∧
      exitCode generateArgs blank = 1 ∧ (after generateArgs blank).tree = blank.tree := by
  obtain ⟨-, hleaves⟩ := generate_leaves
  obtain ⟨run, hprepare, hlength, hperform, -⟩ := exists_perform_sample offered_samples
    "first" "first.json" 0 (by decide) (by decide) (by decide) (by decide)
    (node?_samples (by decide)) (node?_samples (by decide))
  have hsucceeds : exitCode generateArgs samples = 0 := by
    rw [exitCode, run_eq parse?_generateArgs, perform, conclude_of_ok hperform]
  have hfails : exitCode generateArgs blank ≠ 0 := by
    rw [exitCode, run_eq parse?_generateArgs, perform, conclude_of_error perform_blank]
    decide
  obtain ⟨run', text, hleft⟩ := (hleaves _ _ _ parse?_generateArgs).2 hsucceeds
  obtain rfl : run' = run := hleft.isRun.unique (Job.renders_of_prepare hprepare).1
  obtain ⟨failure, hfailure, hexit, huntouched⟩ := (hleaves _ _ _ parse?_generateArgs).1 hfails
  rw [perform_blank] at hfailure
  obtain rfl := Except.error.inj hfailure
  exact ⟨⟨run', text, hleft, hlength⟩, hexit, huntouched rfl⟩

end Command

end OverloadSuite
