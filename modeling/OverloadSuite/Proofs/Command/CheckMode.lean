import OverloadSuite.Command.Basic
import OverloadSuite.Proofs.Command.Arguments
import OverloadSuite.Proofs.Command.Chaining

/-!
# Check mode

A command that compares its outputs leaves every file as it is. What a command has written compares
equal right afterwards, as long as no output is written over another one or over a file that is
read, and it does not once an output has been changed.
-/

namespace OverloadSuite

open FileAction Attempt

variable {α : Type} {x y : FileAction α} {w : Workspace} {a : α} {inputs : List String}

/-! ## Requests -/

namespace Request

/-- The files that a request reads: those of its job, or a manifest and the files that its entries
name, as it stands in a tree. -/
def inputPaths (t : Tree) : Request → List String
  | generate job _ => job.inputPaths
  | batch path _ =>
    path :: (Batch.entriesAt t path).flatMap (BatchEntry.inputPaths (Batch.directoryOf path))
  | diagnostics | help => []

/-- The files that a request puts out. -/
def outputPaths (t : Tree) : Request → List String
  | generate job _ => job.outputPaths
  | batch path _ =>
    (Batch.entriesAt t path).flatMap (BatchEntry.outputPaths (Batch.directoryOf path))
  | diagnostics | help => []

/-- The outputs go to different places, and none of them to that of a file that is read. -/
structure Separates (t : Tree) (request : Request) : Prop where
  nodup : ((request.outputPaths t).map (Path.place t.workingDirectory)).Nodup
  apart : ∀ path ∈ request.inputPaths t,
    Path.place t.workingDirectory path ∉ (request.outputPaths t).map (Path.place t.workingDirectory)

end Request

/-! ## Commands -/

namespace Command

/-- The exit code of a command in a workspace. -/
def exitCode (args : List String) (w : Workspace) : UInt32 :=
  ((run args : StateM Workspace UInt32) w).1

/-- The workspace after a command. -/
def after (args : List String) (w : Workspace) : Workspace :=
  ((run args : StateM Workspace UInt32) w).2

theorem conclude_of_ok (h : outcome x w = .ok a) :
    (conclude x : StateM Workspace UInt32) w = (0, rest x w) := by
  have hrun : x.run w = (.ok a, rest x w) := Prod.ext h rfl
  simp only [conclude, bind, StateT.bind, hrun]
  rfl

/-- After a failure a message is printed. -/
theorem conclude_of_error {failure : Failure} (h : outcome x w = .error failure) :
    (conclude x : StateM Workspace UInt32) w =
      (1, { rest x w with warned := (rest x w).warned ++ failure.message ++ "\n" }) := by
  have hrun : x.run w = (.error failure, rest x w) := Prod.ext h rfl
  simp only [conclude, bind, StateT.bind, hrun]
  rfl

/-- A command succeeds if its action does. -/
theorem conclude_eq_zero (h : ((conclude x : StateM Workspace UInt32) w).1 = 0) :
    ∃ a, outcome x w = .ok a := by
  rcases Outcome.ok_or_error (outcome x w) with hok | ⟨failure, herror⟩
  · exact hok
  · rw [conclude_of_error herror] at h
    cases h

theorem tree_conclude (x : FileAction α) (w : Workspace) :
    ((conclude x : StateM Workspace UInt32) w).2.tree = (rest x w).tree := by
  rcases Outcome.ok_or_error (outcome x w) with ⟨a, hok⟩ | ⟨failure, herror⟩
  · rw [conclude_of_ok hok]
  · rw [conclude_of_error herror]

/-- The request of a command decides what it does. -/
def perform : Request → StateM Workspace UInt32
  | .generate job mode => conclude (job.perform mode)
  | .batch path mode => conclude (Batch.perform path mode)
  | .diagnostics => do
    Files.print Diagnostic.catalogPage
    return 0
  | .help => do
    Files.print (usage ++ "\n")
    return 0

theorem run_eq {args : List String} {request : Request} (h : Arguments.parse? args = some request) :
    run args = perform request := by
  unfold run
  rw [h]
  cases request <;> rfl

theorem tree_perform_of_ne {request : Request} (h : request.mode? ≠ some .write) (w : Workspace) :
    (perform request w).2.tree = w.tree := by
  cases request with
  | generate job mode =>
    cases mode with
    | write => exact absurd rfl h
    | compare =>
      show ((conclude (job.perform .compare) : StateM Workspace UInt32) w).2.tree = _
      rw [tree_conclude, job.readsOnly_perform]
  | batch path mode =>
    cases mode with
    | write => exact absurd rfl h
    | compare =>
      show ((conclude (Batch.perform path .compare) : StateM Workspace UInt32) w).2.tree = _
      rw [tree_conclude, Batch.readsOnly_perform]
  | diagnostics => rfl
  | help => rfl

/-- The exit code of a comparison, right after the outputs were written and after a change. -/
theorem conclude_compared {paths : List String} (h : ∃ outputs, outputs.map Prod.fst = paths ∧
      Confirmed inputs outputs x y w a)
    (hnodup : (paths.map (Path.place w.tree.workingDirectory)).Nodup)
    (hapart : ∀ path ∈ inputs, Path.place w.tree.workingDirectory path ∉
      paths.map (Path.place w.tree.workingDirectory)) :
    (∀ w', w'.tree = ((conclude x : StateM Workspace UInt32) w).2.tree →
        ((conclude y : StateM Workspace UInt32) w').1 = 0) ∧
      ∀ path ∈ paths, ∀ w', Tree.DiffersAt (Path.place w.tree.workingDirectory path)
        ((conclude x : StateM Workspace UInt32) w).2.tree w'.tree →
        ((conclude y : StateM Workspace UInt32) w').1 = 1 := by
  obtain ⟨outputs, rfl, hconfirmed⟩ := h
  rw [← Job.placesOf_eq] at hnodup
  simp only [← Job.placesOf_eq] at hapart
  rw [tree_conclude]
  constructor
  · intro w' htree
    rw [conclude_of_ok (hconfirmed.again hnodup hapart htree)]
  · intro path hpath w' hdiffers
    obtain ⟨o, ho, rfl⟩ := List.mem_map.mp hpath
    obtain ⟨failure, herror⟩ := hconfirmed.differs hnodup hapart ho hdiffers
    rw [conclude_of_error herror]

/-- What a request has written is what it compares. -/
theorem perform_compared {request : Request} (hmode : request.mode? = some .write)
    (hsuccess : (perform request w).1 = 0) (hseparates : request.Separates w.tree) :
    (∀ w', w'.tree = (perform request w).2.tree → (perform request.compared w').1 = 0) ∧
      ∀ path ∈ request.outputPaths w.tree, ∀ w', Tree.DiffersAt
        (Path.place w.tree.workingDirectory path) (perform request w).2.tree w'.tree →
        (perform request.compared w').1 = 1 := by
  cases request with
  | generate job mode =>
    obtain rfl := Option.some.inj hmode
    obtain ⟨next, hnext⟩ := conclude_eq_zero hsuccess
    exact conclude_compared (Job.confirmed_perform hnext) hseparates.nodup hseparates.apart
  | batch path mode =>
    obtain rfl := Option.some.inj hmode
    obtain ⟨⟨⟩, hdone⟩ := conclude_eq_zero hsuccess
    exact conclude_compared (Batch.confirmed_perform hdone) hseparates.nodup hseparates.apart
  | diagnostics => cases hmode
  | help => cases hmode

/-- **Check mode is read-only and accepts what generation wrote.** -/
theorem check_accepts_generated :
    (∀ args w, "--check" ∈ args → (after args w).tree = w.tree) ∧
      ∀ args w request, Arguments.parse? args = some request → request.mode? = some .write →
        Arguments.parse? (Arguments.withCheck args) = some request.compared ∧
        (exitCode args w = 0 → request.Separates w.tree →
          ∀ args', Arguments.parse? args' = some request.compared →
            (∀ w', w'.tree = (after args w).tree → exitCode args' w' = 0) ∧
            ∀ path ∈ request.outputPaths w.tree, ∀ w', Tree.DiffersAt
              (Path.place w.tree.workingDirectory path) (after args w).tree w'.tree →
              exitCode args' w' = 1) := by
  refine ⟨fun args w hcheck => ?_, fun args w request hrequest hmode => ⟨?_, ?_⟩⟩
  · cases hrequest : Arguments.parse? args with
    | none =>
      rw [after, run, hrequest]
      rfl
    | some request =>
      rw [after, run_eq hrequest]
      exact tree_perform_of_ne (Arguments.mode?_ne_of_check hcheck hrequest) w
  · exact Arguments.parse?_withCheck hrequest hmode
  · intro hsuccess hseparates args' hrequest'
    rw [exitCode, run_eq hrequest] at hsuccess
    simp only [exitCode, after, run_eq hrequest, run_eq hrequest']
    exact perform_compared hmode hsuccess hseparates

/-- The arguments that ask for the jobs of the manifest. -/
def batchArgs : List String := ["batch", "--manifest", "suite/manifest"]

open Batch

theorem parse?_batchArgs :
    Arguments.parse? batchArgs = some (.batch "suite/manifest" .write) := by decide +kernel

theorem paths_samples :
    Request.outputPaths samples.tree (.batch "suite/manifest" .write) =
        ["suite/first", "suite/first.json", "suite/second", "suite/second.json"] ∧
      Request.inputPaths samples.tree (.batch "suite/manifest" .write) =
        ["suite/manifest", "suite/types", "suite/functions", "suite/types", "suite/functions"] := by
  have hentries : entriesAt samples.tree "suite/manifest" = sampleEntries := by
    rw [entriesAt, manifest?_samples]
    rfl
  rw [Request.outputPaths, Request.inputPaths, hentries]
  decide +kernel

theorem place_second :
    Path.place samples.tree.workingDirectory "suite/second" = ["suite", "second"] := by
  decide +kernel

/-- An output stands where its path leads to. -/
theorem exists_node?_samples : ∃ text : String, (after batchArgs samples).tree.node?
    ["suite", "second"] = some (.file text.toUTF8) := by
  obtain ⟨outputs, houtputs, hconfirmed⟩ := Batch.confirmed_perform perform_samples
  have hpaths := houtputs.trans paths_samples.1
  have hnodup : (Job.placesOf samples.tree outputs).Nodup := by
    rw [Job.placesOf_eq, hpaths]
    decide +kernel
  have hmem : "suite/second" ∈ outputs.map Prod.fst := by
    rw [hpaths]
    decide
  obtain ⟨o, ho, hsecond⟩ := List.mem_map.mp hmem
  refine ⟨o.2, ?_⟩
  rw [after, run_eq parse?_batchArgs, perform, tree_conclude, ← place_second, ← hsecond]
  exact hconfirmed.written.node?_eq hnodup ho

/-- The check accepts what the two jobs of the manifest have written, but neither a source that is
one line longer nor one that was taken away. -/
theorem check_accepts_generated_samples :
    Arguments.parse? batchArgs = some (.batch "suite/manifest" .write) ∧
      exitCode batchArgs samples = 0 ∧
      (after (Arguments.withCheck batchArgs) (after batchArgs samples)).tree =
        (after batchArgs samples).tree ∧
      exitCode (Arguments.withCheck batchArgs) (after batchArgs samples) = 0 ∧
      (∃ text : String, (after batchArgs samples).tree.node? ["suite", "second"] =
          some (.file text.toUTF8) ∧
        exitCode (Arguments.withCheck batchArgs) { samples with
          tree := (after batchArgs samples).tree.put ["suite", "second"]
            (.file (text ++ "\n").toUTF8) } = 1) ∧
      exitCode (Arguments.withCheck batchArgs) { samples with
        tree := (after batchArgs samples).tree.remove ["suite", "second"] } = 1 := by
  have hexit : exitCode batchArgs samples = 0 := by
    rw [exitCode, run_eq parse?_batchArgs, perform, conclude_of_ok perform_samples]
  have hseparates : (Request.batch "suite/manifest" .write).Separates samples.tree := by
    obtain ⟨houtputs, hinputs⟩ := paths_samples
    refine ⟨?_, ?_⟩
    · rw [houtputs]
      decide +kernel
    · rw [houtputs, hinputs]
      decide +kernel
  obtain ⟨hreads, haccepts⟩ := check_accepts_generated
  obtain ⟨hparse, hchecks⟩ := haccepts batchArgs samples _ parse?_batchArgs rfl
  obtain ⟨hagain, hdiffers⟩ := hchecks hexit hseparates _ hparse
  obtain ⟨text, htext⟩ := exists_node?_samples
  have hchanged := hdiffers "suite/second" (by rw [paths_samples.1]; decide)
  rw [place_second] at hchanged
  have hlonger : text.toUTF8 ≠ (text ++ "\n").toUTF8 := by
    intro hsame
    have hlength := congrArg String.length (String.toByteArray_inj.mp hsame)
    rw [String.length_append] at hlength
    exact absurd hlength (Nat.ne_of_lt (Nat.lt_add_of_pos_right (by decide)))
  refine ⟨parse?_batchArgs, hexit, hreads _ _ (by decide), hagain _ rfl,
    ⟨text, htext, hchanged _ (Tree.differsAt_put (by simp) ?_)⟩,
    hchanged _ (Tree.differsAt_remove (by simp) (by simp [htext]))⟩
  rw [htext]
  exact fun hsame => hlonger (Node.file.inj (Option.some.inj hsame))

end Command

end OverloadSuite
