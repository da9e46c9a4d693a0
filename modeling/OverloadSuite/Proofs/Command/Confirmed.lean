import OverloadSuite.Proofs.Command.Entries

/-!
# What was written is confirmed

An action that writes outputs is set beside the one that compares them. Where the files that were
read are the same, the comparison succeeds exactly if each output is what its file holds; this
passes from one action to the next, and so from one job to a whole batch.
-/

namespace OverloadSuite

open Attempt Job

variable {α β : Type} {x y : FileAction α} {f g : α → FileAction β} {w : Workspace} {a : α} {b : β}
  {inputs inputs' : List String} {outputs outputs' : List (String × String)}

namespace FileAction

/-- No output goes to a place of a file that is read. -/
def Apart (t : Tree) (inputs : List String) (outputs : List (String × String)) : Prop :=
  ∀ path ∈ inputs, Path.place t.workingDirectory path ∉ placesOf t outputs

/-- After the first outputs were written, the others do not go to the places of the files either. -/
theorem Apart.of_append {t t' : Tree} (h : Apart t inputs (outputs ++ outputs'))
    (hwritten : Written t outputs t') : Apart t inputs outputs ∧ Apart t' inputs outputs' := by
  have hplaces : ∀ path ∈ inputs, Path.place t.workingDirectory path ∉ placesOf t outputs ∧
      Path.place t.workingDirectory path ∉ placesOf t' outputs' := by
    intro path hpath
    have houtside := h path hpath
    rw [hwritten.placesOf_append] at houtside
    exact not_or.mp (mt List.mem_append.mpr houtside)
  refine ⟨fun path hpath => (hplaces path hpath).1, fun path hpath => ?_⟩
  rw [hwritten.keeps.workingDirectory]
  exact (hplaces path hpath).2

/-- From a workspace, `x` gives `a` and writes outputs; and wherever the files that were read are
the same afterwards, `y` gives `a` exactly if each output is what its file holds. -/
structure Confirmed (inputs : List String) (outputs : List (String × String)) (x y : FileAction α)
    (w : Workspace) (a : α) : Prop where
  succeeds : outcome x w = .ok a
  written : Written w.tree outputs (rest x w).tree
  readsOnly : ReadsOnly y
  compares : Apart w.tree inputs outputs → ∀ w', Tree.Offers inputs (rest x w).tree w'.tree →
    ∀ a', outcome y w' = .ok a' ↔ a' = a ∧ ∀ o ∈ outputs, w'.tree.read o.1 = .ok o.2.toUTF8

namespace Confirmed

/-- What only reads is done again in the same way. -/
theorem of_repeats (hx : Repeats inputs x) (h : outcome x w = .ok a) :
    Confirmed inputs [] x x w a where
  succeeds := h
  written := by
    rw [hx.readsOnly]
    exact .nil w.tree
  readsOnly := hx.readsOnly
  compares := by
    intro _ w' hoffers a'
    rw [hx.readsOnly] at hoffers
    have hagain := hx.again w w' a hoffers h
    simp [hagain, eq_comm]

theorem emitAll (h : outcome (emitAll .write outputs) w = .ok ()) :
    Confirmed [] outputs (emitAll .write outputs) (emitAll .compare outputs) w () where
  succeeds := h
  written := written_of_emitAll h
  readsOnly := readsOnly_emitAll outputs
  compares := by
    intro _ w' _ a'
    rw [outcome_emitAll_compare]
    simp

/-- One action after another. -/
theorem bind (hx : Confirmed inputs outputs x y w a)
    (hf : Confirmed inputs' outputs' (f a) (g a) (rest x w) b) (hg : ∀ a, ReadsOnly (g a)) :
    Confirmed (inputs ++ inputs') (outputs ++ outputs') (x >>= f) (y >>= g) w b where
  succeeds := bind_eq_ok.mpr ⟨a, hx.succeeds, hf.succeeds⟩
  written := by
    rw [rest_bind hx.succeeds]
    exact hx.written.append hf.written
  readsOnly := hx.readsOnly.bind hg
  compares := by
    intro hapart w' hoffers b'
    rw [rest_bind hx.succeeds] at hoffers
    obtain ⟨hapart₁, hapart₂⟩ := List.forall_mem_append.mp hapart
    obtain ⟨hoffers₁, hoffers₂⟩ := List.forall_mem_append.mp hoffers
    obtain ⟨hleft, hlater⟩ := Apart.of_append hapart₁ hx.written
    obtain ⟨-, hright⟩ := Apart.of_append hapart₂ hx.written
    -- what the first action read is still there after the second one
    have hkept : Tree.Offers inputs (rest x w).tree w'.tree := fun path hpath contents hread =>
      hoffers₁ path hpath contents (hf.written.keeps.read (hlater path hpath) hread)
    have htree : (rest y w').tree = w'.tree := hx.readsOnly w'
    have hfirst := hx.compares hleft w' hkept
    have hsecond := hf.compares hright (rest y w') (by rw [htree]; exact hoffers₂)
    rw [htree] at hsecond
    rw [bind_eq_ok, List.forall_mem_append]
    constructor
    · rintro ⟨a', ha', hb'⟩
      obtain ⟨rfl, houtputs⟩ := (hfirst a').mp ha'
      obtain ⟨rfl, houtputs'⟩ := (hsecond b').mp hb'
      exact ⟨rfl, houtputs, houtputs'⟩
    · rintro ⟨rfl, houtputs, houtputs'⟩
      exact ⟨a, (hfirst a).mpr ⟨rfl, houtputs⟩, (hsecond b').mpr ⟨rfl, houtputs'⟩⟩

theorem pure (a : α) : Confirmed [] [] (Pure.pure a) (Pure.pure a) w a :=
  of_repeats (.pure a) rfl

/-- The failures may be reported in another way. -/
theorem adapt {report : Failure → Failure} (h : Confirmed inputs outputs x y w a) :
    Confirmed inputs outputs (ExceptT.adapt report x) (ExceptT.adapt report y) w a where
  succeeds := mapError_eq_ok.mpr h.succeeds
  written := h.written
  readsOnly := h.readsOnly
  compares := by
    intro hapart w' hoffers a'
    rw [← h.compares hapart w' hoffers a']
    exact mapError_eq_ok

/-- Outputs at different places are found right after they were written. -/
theorem again (h : Confirmed inputs outputs x y w a) (hnodup : (placesOf w.tree outputs).Nodup)
    (hapart : Apart w.tree inputs outputs) {w' : Workspace} (htree : w'.tree = (rest x w).tree) :
    outcome y w' = .ok a := by
  have hoffers : Tree.Offers inputs (rest x w).tree w'.tree := by
    intro path _ contents hread
    rw [htree]
    exact hread
  refine (h.compares hapart w' hoffers a).mpr ⟨rfl, fun o ho => ?_⟩
  rw [htree]
  exact h.written.read hnodup o ho

/-- An output that was changed, or taken away, is not found. -/
theorem differs (h : Confirmed inputs outputs x y w a) (hnodup : (placesOf w.tree outputs).Nodup)
    (hapart : Apart w.tree inputs outputs) {o : String × String} (ho : o ∈ outputs) {w' : Workspace}
    (hdiffers : Tree.DiffersAt (Path.place w.tree.workingDirectory o.1) (rest x w).tree w'.tree) :
    ∃ failure, outcome y w' = .error failure := by
  have hdirectory := h.written.keeps.workingDirectory
  have hkeeps := hdiffers.keeps (by simp [h.written.node?_eq hnodup ho])
  have hoffers : Tree.Offers inputs (rest x w).tree w'.tree := by
    intro path hpath contents hcontents
    refine hkeeps.read (fun hplace => hapart path hpath ?_) hcontents
    rw [← hdirectory, List.mem_singleton.mp hplace]
    exact List.mem_map_of_mem ho
  rcases Outcome.ok_or_error (outcome y w') with ⟨a', ha'⟩ | herror
  · have hsame := ((h.compares hapart w' hoffers a').mp ha').2 o ho
    rw [← hdirectory] at hdiffers
    exact absurd hsame (hdiffers.read_ne (h.written.read hnodup o ho))
  · exact herror

end Confirmed

end FileAction

open FileAction

/-! ## Jobs -/

namespace Job

theorem readsOnly_putOut (job : Job) (p : Run × String) : ReadsOnly (job.putOut .compare p) :=
  (readsOnly_emitAll _).bind fun _ => .pure _

theorem readsOnly_perform (job : Job) : ReadsOnly (job.perform .compare) := by
  rw [perform_eq]
  exact job.repeats_prepare.readsOnly.bind job.readsOnly_putOut

theorem confirmed_putOut {job : Job} {run : Run} {text : String} {next : UInt64}
    (h : outcome (job.putOut .write (run, text)) w = .ok next) :
    Confirmed [] (job.emissions run text) (job.putOut .write (run, text))
      (job.putOut .compare (run, text)) w next := by
  obtain ⟨⟨⟩, hemit, hnext⟩ := bind_eq_ok.mp h
  rw [outcome_pure, Except.ok.injEq] at hnext
  subst hnext
  have hconfirmed := (Confirmed.emitAll hemit).bind (f := fun _ => pure run.nextId)
    (g := fun _ => pure run.nextId) (Confirmed.pure run.nextId) fun _ => .pure run.nextId
  rwa [List.append_nil, List.append_nil] at hconfirmed

/-- What a job has written is what it compares. -/
theorem confirmed_perform {job : Job} {next : UInt64}
    (h : outcome (job.perform .write) w = .ok next) :
    ∃ outputs, outputs.map Prod.fst = job.outputPaths ∧
      Confirmed job.inputPaths outputs (job.perform .write) (job.perform .compare) w next := by
  rw [perform_eq] at h
  obtain ⟨⟨run, text⟩, hprepare, hput⟩ := bind_eq_ok.mp h
  refine ⟨job.emissions run text, job.map_fst_emissions run text, ?_⟩
  have hconfirmed := (Confirmed.of_repeats job.repeats_prepare hprepare).bind
    (f := job.putOut .write) (g := job.putOut .compare) (confirmed_putOut hput) job.readsOnly_putOut
  rw [perform_eq, perform_eq]
  rwa [List.append_nil, List.nil_append] at hconfirmed

end Job

/-! ## Batches -/

namespace Batch

variable {directory : String} {index : Nat} {next : UInt64} {entries : List BatchEntry}

theorem readsOnly_performFrom (directory : String) (index : Nat) (next : UInt64)
    (entries : List BatchEntry) :
    ReadsOnly (performFrom .compare directory index next entries) := by
  induction entries generalizing index next with
  | nil => exact fun _ => rfl
  | cons e entries ih =>
    exact ReadsOnly.bind (e.job directory next).readsOnly_perform fun next => ih _ next

/-- The jobs of entries. The files that they read and put out are those that the entries name,
whatever the numbers are. -/
theorem confirmed_performFrom
    (h : outcome (performFrom .write directory index next entries) w = .ok ()) :
    ∃ outputs, outputs.map Prod.fst = entries.flatMap (BatchEntry.outputPaths directory) ∧
      Confirmed (entries.flatMap (BatchEntry.inputPaths directory)) outputs
        (performFrom .write directory index next entries)
        (performFrom .compare directory index next entries) w () := by
  induction entries generalizing index next w with
  | nil => exact ⟨[], rfl, .pure ()⟩
  | cons e entries ih =>
    obtain ⟨next', hjob, hrest⟩ := bind_eq_ok.mp h
    obtain ⟨first, hfirst, hconfirmed⟩ := confirmed_perform (mapError_eq_ok.mp hjob)
    obtain ⟨others, hothers, hconfirmed'⟩ := ih hrest
    have hisJob := e.isJob_job directory next
    rw [hisJob.outputPaths] at hfirst
    rw [hisJob.inputPaths] at hconfirmed
    refine ⟨first ++ others, ?_, hconfirmed.adapt.bind hconfirmed' fun next =>
      readsOnly_performFrom directory (index + 1) next entries⟩
    rw [List.map_append, hfirst, hothers]
    rfl

/-- The manifest that stands at a path. -/
def manifest? (t : Tree) (path : String) : Option Manifest := do
  Manifest.ofJson? (← Json.parseBytes? (← (t.read path).toOption))

theorem repeats_readManifest (path : String) : Repeats [path] (readManifest path) := by
  refine (repeats_readDocument _ _ path).bind fun manifest => ?_
  split
  · exact .pure _
  · exact .throw _

theorem manifest?_of_readManifest {path : String} {manifest : Manifest}
    (h : outcome (readManifest path) w = .ok manifest) : manifest? w.tree path = some manifest := by
  obtain ⟨decoded, hdocument, h⟩ := bind_eq_ok.mp h
  obtain ⟨contents, hread, hdecoded⟩ := readDocument_eq_ok.mp hdocument
  split at h
  · obtain rfl := Except.ok.inj h
    rw [manifest?, hread]
    exact hdecoded
  · cases h

theorem readsOnly_perform (path : String) : ReadsOnly (perform path .compare) :=
  (repeats_readManifest path).readsOnly.bind fun manifest =>
    readsOnly_performFrom (directoryOf path) 0 0 manifest.entries

/-- The entries of the manifest at a path. -/
def entriesAt (t : Tree) (path : String) : List BatchEntry :=
  (manifest? t path).elim [] Manifest.entries

/-- What the jobs of a manifest have written is what they compare. -/
theorem confirmed_perform {path : String} (h : outcome (perform path .write) w = .ok ()) :
    ∃ outputs, outputs.map Prod.fst =
        (entriesAt w.tree path).flatMap (BatchEntry.outputPaths (directoryOf path)) ∧
      Confirmed
        (path :: (entriesAt w.tree path).flatMap (BatchEntry.inputPaths (directoryOf path)))
        outputs (perform path .write) (perform path .compare) w () := by
  obtain ⟨manifest, hmanifest, hjobs⟩ := bind_eq_ok.mp h
  have hentries : entriesAt w.tree path = manifest.entries := by
    rw [entriesAt, manifest?_of_readManifest hmanifest]
    rfl
  obtain ⟨outputs, houtputs, hconfirmed⟩ := confirmed_performFrom hjobs
  have hread := Confirmed.of_repeats (repeats_readManifest path) hmanifest
  rw [hentries]
  exact ⟨outputs, houtputs, hread.bind hconfirmed fun manifest =>
    readsOnly_performFrom (directoryOf path) 0 0 manifest.entries⟩

end Batch

end OverloadSuite
