import OverloadSuite.Proofs.Command.Reads
import OverloadSuite.Proofs.Workspace.Touches

/-!
# Outputs that are written and compared

A job prepares what its outputs are to hold, from what it reads, and then writes the outputs or
compares them. What was written is what compares equal afterwards, unless it is written over.
-/

namespace OverloadSuite

open Attempt

/-! ## Directories -/

namespace Files

open Relation

variable {α β : Type} {x : StateM Workspace α} {f : α → StateM Workspace β}
  {paths : String → Prop} {path : String}

/-- All that is done to the tree is that directories are made, each at one of some paths. -/
def MakesDirectories (paths : String → Prop) (x : StateM Workspace α) : Prop :=
  ∀ w : Workspace, Tree.MakesDirectories paths w.tree (x w).2.tree

theorem MakesDirectories.pure (a : α) : MakesDirectories paths (Pure.pure a) := fun _ => .refl

theorem MakesDirectories.bind (hx : MakesDirectories paths x)
    (hf : ∀ a, MakesDirectories paths (f a)) : MakesDirectories paths (x >>= f) :=
  fun w => (hx w).trans (hf (x w).1 (x w).2)

theorem makesDirectories_makeDirectory (hpath : paths path) :
    MakesDirectories paths (makeDirectory path : StateM Workspace _) := by
  intro w
  show Tree.MakesDirectories paths w.tree (w.attempt (w.tree.makeDirectory path)).2.tree
  cases h : w.tree.makeDirectory path with
  | ok t => exact .single ⟨path, hpath, h⟩
  | error e => exact .refl

theorem makesDirectories_settle (path : String) (result : Except SystemError Unit) :
    MakesDirectories paths (settle path result : StateM Workspace _) := by
  cases result with
  | ok => exact .pure _
  | error e =>
    have hread : MakesDirectories paths (isDirectory path : StateM Workspace _) := fun _ => .refl
    refine hread.bind fun found => ?_
    split <;> exact .pure _

/-- Directories are made at a path and around it, as far as they are asked for. -/
theorem makesDirectories_makeNested {steps : Nat} (hpath : paths path)
    (houter : ∀ inner outer, paths inner → Path.parent? inner = some outer → paths outer) :
    MakesDirectories paths (makeNested path steps : StateM Workspace _) := by
  induction steps generalizing path with
  | zero => exact .pure _
  | succ steps ih =>
    unfold makeNested
    split
    · exact .pure _
    · refine (makesDirectories_makeDirectory hpath).bind fun result => ?_
      split
      · have hagain := (makesDirectories_makeDirectory hpath).bind (makesDirectories_settle path)
        dsimp only
        split
        · rename_i outer hparent
          refine (ih (houter _ _ hpath hparent)).bind fun result => ?_
          split
          · exact hagain
          · exact .pure _
        · refine (MakesDirectories.pure _).bind fun result => ?_
          split
          · exact hagain
          · exact .pure _
      · exact makesDirectories_settle path _

/-- A directory that is there is not made again. -/
theorem makeDirectories_of_isDirectory {w : Workspace} (h : w.tree.isDirectory path = true) :
    (makeDirectories path : StateM Workspace _) w = (.ok (), w) := by
  obtain ⟨e, hmake, hfound⟩ := Tree.exists_makeDirectory_eq_error h
  have hmade : (makeDirectory path : StateM Workspace _) w = (.error e, w) := by
    show w.attempt (w.tree.makeDirectory path) = _
    rw [hmake]
    rfl
  have hthere : (isDirectory path : StateM Workspace _) w = (true, w) := by
    show (w.tree.isDirectory path, w) = _
    rw [h]
  have hsettle : (settle path (.error e) : StateM Workspace _) w = (.ok (), w) := by
    simp only [settle, bind, StateT.bind, hthere]
    rfl
  unfold makeDirectories makeNested
  split
  · rfl
  · simp only [bind, StateT.bind, hmade]
    cases e with
    | notFound => exact absurd rfl hfound
    | _ => exact hsettle

/-- The directories that are made for an output are around it. -/
theorem makesDirectories_around {directory : String} (hparent : Path.parent? path = some directory)
    (w : Workspace) : Tree.MakesDirectories (Path.Around · path) w.tree
      ((makeDirectories directory : StateM Workspace _) w).2.tree := by
  refine makesDirectories_makeNested (.single hparent) (fun inner outer hinner houter => ?_) w
  exact hinner.tail houter

end Files

namespace Job

open FileAction

variable {path text : String} {w : Workspace} {contents : ByteArray}

/-! ## One output -/

theorem textOf_eq_ok : textOf contents = .ok text ↔ contents = text.toUTF8 := by
  unfold textOf String.fromUTF8?
  split
  · rename_i hvalid
    simp only [Option.elim_some, Except.ok.injEq]
    constructor
    · rintro rfl
      rfl
    · rintro rfl
      rfl
  · rename_i hvalid
    constructor
    · intro h
      cases h
    · rintro rfl
      exact absurd text.isValidUTF8 hvalid

/-- An output compares equal if it is what the file holds. -/
theorem outcome_compareOutput :
    outcome (compareOutput path text) w = .ok () ↔ w.tree.read path = .ok text.toUTF8 := by
  rw [compareOutput, bind_eq_ok]
  constructor
  · intro h
    obtain ⟨current, hcurrent, h⟩ := h
    rw [outcome_orFail, mapError_eq_ok, readText_eq] at hcurrent
    obtain ⟨contents, hread, htext⟩ := Outcome.bind_eq_ok.mp hcurrent
    split at h
    · rename_i heq
      rw [hread, textOf_eq_ok.mp htext, heq]
    · cases h
  · intro hread
    refine ⟨text, ?_, by rw [if_pos rfl]; rfl⟩
    rw [outcome_orFail, mapError_eq_ok, readText_eq]
    exact Outcome.bind_eq_ok.mpr ⟨_, hread, textOf_eq_ok.mpr rfl⟩

theorem repeats_compareOutput (path text : String) : Repeats [path] (compareOutput path text) := by
  refine repeats_readText.bind fun current => ?_
  split
  · exact .pure _
  · exact .throw _

/-! ## Outputs that were written -/

/-- The places of outputs, which are given as paths with the texts they are to hold. -/
def placesOf (t : Tree) (outputs : List (String × String)) : List Location :=
  outputs.map fun o => Path.place t.workingDirectory o.1

/-- A tree after outputs were written: everything else is kept, and each output is read from it,
provided that they went to different places. -/
structure Written (t : Tree) (outputs : List (String × String)) (t' : Tree) : Prop where
  keeps : Tree.Keeps (placesOf t outputs) t t'
  read : (placesOf t outputs).Nodup → ∀ o ∈ outputs, t'.read o.1 = .ok o.2.toUTF8

variable {t t' t'' : Tree} {outputs outputs' : List (String × String)}

theorem placesOf_eq (t : Tree) (outputs : List (String × String)) : placesOf t outputs =
    (outputs.map Prod.fst).map (Path.place t.workingDirectory) := by
  rw [placesOf, List.map_map]
  rfl

/-- An output is the file at the place of its path. -/
theorem Written.node?_eq (h : Written t outputs t') (hnodup : (placesOf t outputs).Nodup)
    {o : String × String} (ho : o ∈ outputs) :
    t'.node? (Path.place t.workingDirectory o.1) = some (.file o.2.toUTF8) := by
  rw [← h.keeps.workingDirectory]
  exact Tree.node?_of_read (h.read hnodup o ho)

theorem Written.nil (t : Tree) : Written t [] t :=
  ⟨.refl t, fun _ _ h => absurd h List.not_mem_nil⟩

theorem Written.placesOf_append (h : Written t outputs t') :
    placesOf t (outputs ++ outputs') = placesOf t outputs ++ placesOf t' outputs' := by
  rw [placesOf, placesOf, placesOf, List.map_append, h.keeps.workingDirectory]

theorem Written.append (h : Written t outputs t') (h' : Written t' outputs' t'') :
    Written t (outputs ++ outputs') t'' := by
  refine ⟨?_, fun hnodup => ?_⟩
  · rw [h.placesOf_append]
    exact h.keeps.trans h'.keeps
  · rw [h.placesOf_append, List.nodup_append] at hnodup
    obtain ⟨hleft, hright, hapart⟩ := hnodup
    intro o ho
    rcases List.mem_append.mp ho with ho | ho
    · have hplace : Path.place t'.workingDirectory o.1 ∈ placesOf t outputs := by
        rw [h.keeps.workingDirectory]
        exact List.mem_map_of_mem ho
      exact h'.keeps.read (fun hmem => hapart _ hplace _ hmem rfl) (h.read hleft o ho)
    · exact h'.read hright o ho

theorem written_of_write {cause : SystemError → Failure}
    (h : outcome (orFail cause (Files.write path text)) w = .ok ()) :
    Written w.tree [(path, text)] (rest (orFail cause (Files.write path text)) w).tree := by
  rw [outcome_orFail, mapError_eq_ok] at h
  rw [rest_orFail]
  change (w.attempt (w.tree.write path text)).1 = _ at h
  show Written w.tree [(path, text)] (w.attempt (w.tree.write path text)).2.tree
  cases hwrite : w.tree.write path text with
  | ok t =>
    refine ⟨Tree.keeps_write hwrite, fun _ o ho => ?_⟩
    obtain rfl := List.mem_singleton.mp ho
    exact Tree.read_of_write hwrite
  | error e =>
    rw [hwrite] at h
    cases h

theorem written_of_writeOutput (h : outcome (writeOutput path text) w = .ok ()) :
    Written w.tree [(path, text)] (rest (writeOutput path text) w).tree := by
  unfold writeOutput at h ⊢
  cases hparent : Path.parent? path with
  | none =>
    simp only [hparent] at h ⊢
    exact written_of_write h
  | some directory =>
    simp only [hparent] at h ⊢
    obtain ⟨⟨⟩, hmade, hwrite⟩ := bind_eq_ok.mp h
    rw [rest_bind hmade]
    have hmade : Written w.tree [] _ :=
      ⟨Tree.keeps_makesDirectories (Files.makesDirectories_around hparent w), by simp⟩
    exact hmade.append (written_of_write hwrite)

/-- Where the directory of an output is there, it is not made. -/
theorem writeOutput_of_write {directory : String} (hparent : Path.parent? path = some directory)
    (hthere : w.tree.isDirectory directory = true) (hwrite : w.tree.write path text = .ok t) :
    outcome (writeOutput path text) w = .ok () ∧ (rest (writeOutput path text) w).tree = t := by
  have hdone : outcome (orFail (.unwrittenOutput path) (Files.write path text)) w = .ok () ∧
      (rest (orFail (.unwrittenOutput path) (Files.write path text)) w).tree = t := by
    rw [outcome_orFail, rest_orFail]
    show (w.attempt (w.tree.write path text)).1.mapError _ = .ok () ∧
      (w.attempt (w.tree.write path text)).2.tree = t
    rw [hwrite]
    exact ⟨rfl, rfl⟩
  have hnothing := Files.makeDirectories_of_isDirectory hthere
  have hmade : outcome (orFail (.unmadeDirectory directory)
      (Files.makeDirectories directory) : FileAction Unit) w = .ok () := by
    rw [outcome_orFail, hnothing]
    rfl
  have hrest : rest (orFail (.unmadeDirectory directory)
      (Files.makeDirectories directory) : FileAction Unit) w = w := by
    rw [rest_orFail, hnothing]
  unfold writeOutput
  simp only [hparent]
  rw [rest_bind hmade, hrest]
  exact ⟨bind_eq_ok.mpr ⟨(), hmade, by rw [hrest]; exact hdone.1⟩, hdone.2⟩

/-- Does the same with all outputs. -/
def emitAll (mode : OutputMode) (outputs : List (String × String)) : FileAction PUnit :=
  outputs.forM fun o => emit mode o.1 o.2

theorem emitAll_cons (mode : OutputMode) (o : String × String) (outputs : List (String × String)) :
    emitAll mode (o :: outputs) = emit mode o.1 o.2 >>= fun _ => emitAll mode outputs := rfl

theorem readsOnly_emitAll (outputs : List (String × String)) :
    ReadsOnly (emitAll .compare outputs) := by
  induction outputs with
  | nil => exact fun _ => rfl
  | cons o outputs ih => exact (repeats_compareOutput o.1 o.2).readsOnly.bind fun _ => ih

theorem outcome_emitAll_compare : outcome (emitAll .compare outputs) w = .ok () ↔
    ∀ o ∈ outputs, w.tree.read o.1 = .ok o.2.toUTF8 := by
  induction outputs generalizing w with
  | nil => simp [emitAll]
  | cons o outputs ih =>
    rw [emitAll_cons, List.forall_mem_cons, ← outcome_compareOutput, bind_eq_ok]
    have hrest : (rest (emit .compare o.1 o.2) w).tree = w.tree :=
      (repeats_compareOutput o.1 o.2).readsOnly w
    simp only [ih, hrest]
    constructor
    · rintro ⟨⟨⟩, ho, houtputs⟩
      exact ⟨ho, houtputs⟩
    · rintro ⟨ho, houtputs⟩
      exact ⟨(), ho, houtputs⟩

theorem written_of_emitAll (h : outcome (emitAll .write outputs) w = .ok ()) :
    Written w.tree outputs (rest (emitAll .write outputs) w).tree := by
  induction outputs generalizing w with
  | nil => exact .nil w.tree
  | cons o outputs ih =>
    rw [emitAll_cons] at h ⊢
    obtain ⟨⟨⟩, ho, houtputs⟩ := bind_eq_ok.mp h
    rw [rest_bind ho]
    exact (written_of_writeOutput ho).append (ih houtputs)

/-! ## Jobs -/

/-- What a job finds out before it puts anything out: its run, and the source in its template. -/
def prepare (job : Job) : FileAction (Run × String) := do
  let run ← job.run
  run.diagnostics.forM fun d => ExceptT.lift (Files.warn d.text)
  let text ← job.fillTemplate run.source
  return (run, text)

/-- The outputs of a job. -/
def emissions (job : Job) (run : Run) (text : String) : List (String × String) :=
  (job.out, text) ::
    (job.report.map fun path => (path, reportText (run.report job.options.check))).toList

/-- The files that a job puts out. -/
def outputPaths (job : Job) : List String := job.out :: job.report.toList

theorem map_fst_emissions (job : Job) (run : Run) (text : String) :
    (job.emissions run text).map Prod.fst = job.outputPaths := by
  unfold emissions outputPaths
  cases job.report <;> rfl

/-- Everything that a job puts out, and then the first id that it does not use. -/
def putOut (job : Job) (mode : OutputMode) (p : Run × String) : FileAction UInt64 :=
  emitAll mode (job.emissions p.1 p.2) >>= fun _ => pure p.1.nextId

theorem perform_eq (job : Job) (mode : OutputMode) :
    job.perform mode = job.prepare >>= job.putOut mode := by
  unfold perform prepare putOut emissions emitReport
  cases job.report <;> simp [bind_assoc, emitAll]

/-- Warnings do not stop a job. -/
theorem outcome_forM_warn (diagnostics : List Diagnostic) (w : Workspace) :
    outcome (diagnostics.forM fun d => ExceptT.lift (Files.warn d.text) : FileAction PUnit) w =
      .ok () := by
  induction diagnostics generalizing w with
  | nil => rfl
  | cons d diagnostics ih => exact bind_eq_ok.mpr ⟨(), rfl, ih _⟩

theorem repeats_prepare (job : Job) : Repeats job.inputPaths job.prepare := by
  refine job.repeats_run.bind fun run => .bind (.forM fun d => .warn d.text) fun _ =>
    .bind ?_ fun text => .pure _
  refine (job.repeats_fillTemplate run.source).mono ?_
  intro path hpath
  simp [inputPaths, hpath]

end Job

end OverloadSuite
