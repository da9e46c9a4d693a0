import OverloadSuite.Proofs.Command.Confirmed
import OverloadSuite.Proofs.Document.RoundTrip
import OverloadSuite.Proofs.Run.Numbering

/-!
# Batches as chains of jobs

A batch is its jobs, one after the other, and nothing besides. Each job is that of its entry, starts
in the workspace that the one before it left and, unless its entry says otherwise, with the number
that the one before it ended with; the first job that fails ends the batch.
-/

namespace OverloadSuite

open FileAction Attempt

/-! ## The numbers of a job -/

namespace Run

variable {σ : Type} [WordSource σ] {w : σ} {c : Catalog} {signatures : List Signature}
  {s : Selection} {o : RunOptions} {run : Run}

/-- The numbers of the cases, in order. -/
def ids (run : Run) : List Nat := run.suite.map fun c => c.id.toNat

/-- A run takes the numbers from its start on, and gives the first one that it does not take. -/
theorem ids_of_draw (h : (draw c signatures s o : Draw σ Run).outcome w = .ok run) :
    run.ids = List.range' o.startId.toNat run.suite.length ∧
      run.nextId.toNat = o.startId.toNat + run.suite.length := by
  obtain ⟨x, suite, -, hsuite, rfl⟩ := draw_eq_ok.mp h
  obtain ⟨-, hlast⟩ := Suite.exists_drawFrom_eq_ok.mp ⟨suite, hsuite⟩
  rw [← Suite.length_of_drawFrom hsuite] at hlast
  exact ⟨Suite.ids_of_drawFrom hsuite, Suite.toNat_add_ofNat hlast⟩

end Run

namespace Job

variable {job : Job} {mode : OutputMode} {w w' : Workspace} {run : Run} {text path : String}
  {next : UInt64} {outputs : List (String × String)}

theorem exists_generate_of_run (h : outcome job.run w = .ok run) :
    ∃ c signatures s, Run.generate c signatures s job.options = .ok run := by
  obtain ⟨c, -, h⟩ := bind_eq_ok.mp h
  obtain ⟨signatures, -, h⟩ := bind_eq_ok.mp h
  obtain ⟨s, -, h⟩ := bind_eq_ok.mp h
  split at h
  · rename_i run' hrun
    obtain rfl := Except.ok.inj h
    exact ⟨c, signatures, s, hrun⟩
  · cases h

theorem run_of_prepare (h : outcome job.prepare w = .ok (run, text)) :
    outcome job.run w = .ok run := by
  obtain ⟨run', hrun, h⟩ := bind_eq_ok.mp h
  obtain ⟨_, -, h⟩ := bind_eq_ok.mp h
  obtain ⟨_, -, h⟩ := bind_eq_ok.mp h
  obtain ⟨rfl, -⟩ := Prod.mk.inj (Except.ok.inj h)
  exact hrun

/-- A job takes the numbers from its start on. -/
theorem ids_of_prepare (h : outcome job.prepare w = .ok (run, text)) :
    run.ids = List.range' job.options.startId.toNat run.suite.length ∧
      run.nextId.toNat = job.options.startId.toNat + run.suite.length := by
  obtain ⟨c, signatures, s, hgenerate⟩ := exists_generate_of_run (run_of_prepare h)
  exact Run.ids_of_draw hgenerate

/-- A job that succeeds gives the next number of the run that it prepared, whatever it does with the
outputs. -/
theorem perform_eq_ok : outcome (job.perform mode) w = .ok next ↔ ∃ run text,
    outcome job.prepare w = .ok (run, text) ∧
      outcome (emitAll mode (job.emissions run text)) (rest job.prepare w) = .ok () ∧
      next = run.nextId := by
  rw [perform_eq, bind_eq_ok]
  constructor
  · intro h
    obtain ⟨⟨run, text⟩, hprepare, h⟩ := h
    obtain ⟨⟨⟩, hemit, hnext⟩ := bind_eq_ok.mp h
    exact ⟨run, text, hprepare, hemit, (Except.ok.inj hnext).symm⟩
  · rintro ⟨run, text, hprepare, hemit, rfl⟩
    exact ⟨(run, text), hprepare, bind_eq_ok.mpr ⟨(), hemit, rfl⟩⟩

/-- What a job that succeeds does after it has prepared its run. -/
theorem emit_of_perform (hprepare : outcome job.prepare w = .ok (run, text))
    (h : outcome (job.perform mode) w = .ok next) :
    outcome (emitAll mode (job.emissions run text)) (rest job.prepare w) = .ok () ∧
      rest (job.perform mode) w =
        rest (emitAll mode (job.emissions run text)) (rest job.prepare w) := by
  obtain ⟨run', text', hprepare', hemit, -⟩ := perform_eq_ok.mp h
  obtain ⟨rfl, rfl⟩ := Prod.mk.inj (Except.ok.inj (hprepare.symm.trans hprepare'))
  refine ⟨hemit, ?_⟩
  rw [perform_eq, rest_bind hprepare, putOut, rest_bind hemit]
  rfl

/-- A job with a report writes its source, and then the report of the same run. -/
theorem perform_of_writeOutput (hprepare : outcome job.prepare w = .ok (run, text))
    (hreport : job.report = some path)
    (hsource : outcome (writeOutput job.out text) (rest job.prepare w) = .ok ())
    (hsummary : outcome (writeOutput path (reportText (run.report job.options.check)))
      (rest (writeOutput job.out text) (rest job.prepare w)) = .ok ()) :
    outcome (job.perform .write) w = .ok run.nextId ∧
      rest (job.perform .write) w =
        rest (writeOutput path (reportText (run.report job.options.check)))
          (rest (writeOutput job.out text) (rest job.prepare w)) := by
  have hemissions : job.emissions run text =
      [(job.out, text), (path, reportText (run.report job.options.check))] := by
    simp [emissions, hreport]
  have hemitAll : (emitAll .write (job.emissions run text) : FileAction Unit) =
      (writeOutput job.out text >>= fun _ =>
        writeOutput path (reportText (run.report job.options.check)) >>= fun _ => pure ()) := by
    rw [hemissions]
    rfl
  have hemit : outcome (emitAll .write (job.emissions run text)) (rest job.prepare w) = .ok () := by
    rw [hemitAll]
    exact bind_eq_ok.mpr ⟨(), hsource, bind_eq_ok.mpr ⟨(), hsummary, outcome_pure () _⟩⟩
  have hperform : outcome (job.perform .write) w = .ok run.nextId :=
    perform_eq_ok.mpr ⟨run, text, hprepare, hemit, rfl⟩
  refine ⟨hperform, ?_⟩
  rw [(emit_of_perform hprepare hperform).2, hemitAll, rest_bind hsource, rest_bind hsummary,
    rest_pure]

/-! ## Writing what is there -/

/-- A file that is written anew with what it holds is kept. -/
theorem keeps_of_written {t t₀ t' : Tree} {text : String} (hkeeps : Tree.Keeps [] t₀ t)
    (hwritten : Written t [(path, text)] t') (hread : t₀.read path = .ok text.toUTF8) :
    Tree.Keeps [] t₀ t' where
  workingDirectory := hwritten.keeps.workingDirectory.trans hkeeps.workingDirectory
  directory place hplace := hwritten.keeps.directory place (hkeeps.directory place hplace)
  file place contents _ hfile := by
    by_cases hplace : place = Path.place t.workingDirectory path
    · have hsame := Tree.node?_of_read hread
      rw [← hkeeps.workingDirectory, ← hplace, hfile] at hsame
      have hanew : t'.node? (Path.place t.workingDirectory path) = some (.file text.toUTF8) :=
        hwritten.node?_eq (by simp [placesOf]) (List.mem_singleton_self (path, text))
      rw [hsame, hplace, hanew]
    · refine hwritten.keeps.file place contents ?_ (hkeeps.file place contents (by simp) hfile)
      simpa [placesOf] using hplace

theorem keeps_emitAll {t₀ : Tree} (hkeeps : Tree.Keeps [] t₀ w.tree)
    (hread : ∀ o ∈ outputs, t₀.read o.1 = .ok o.2.toUTF8)
    (h : outcome (emitAll .write outputs) w = .ok ()) :
    Tree.Keeps [] t₀ (rest (emitAll .write outputs) w).tree := by
  induction outputs generalizing w with
  | nil => exact hkeeps
  | cons o outputs ih =>
    obtain ⟨ho, houtputs⟩ := List.forall_mem_cons.mp hread
    rw [emitAll_cons] at h ⊢
    obtain ⟨⟨⟩, hwrite, hothers⟩ := bind_eq_ok.mp h
    rw [rest_bind hwrite]
    exact ih (keeps_of_written hkeeps (written_of_writeOutput hwrite) ho) houtputs hothers

/-- What is prepared in a tree is prepared in one that keeps all its files. -/
theorem prepare_of_keeps {p : Run × String} (hkeeps : Tree.Keeps [] w.tree w'.tree)
    (h : outcome job.prepare w = .ok p) : outcome job.prepare w' = .ok p := by
  refine job.repeats_prepare.again w w' p ?_ h
  intro path _ contents hread
  exact hkeeps.read (by simp) hread

/-- If outputs compare equal, the job that writes them writes what their files hold. -/
theorem keeps_perform {next' : UInt64} (hkeeps : Tree.Keeps [] w.tree w'.tree)
    (hprepare : outcome job.prepare w = .ok (run, text))
    (hcompare : outcome (job.perform .compare) w = .ok next)
    (hwrite : outcome (job.perform .write) w' = .ok next') :
    Tree.Keeps [] w.tree (rest (job.perform .write) w').tree := by
  obtain ⟨hequal, -⟩ := emit_of_perform hprepare hcompare
  obtain ⟨hemit, hrest⟩ := emit_of_perform (prepare_of_keeps hkeeps hprepare) hwrite
  rw [outcome_emitAll_compare, job.repeats_prepare.readsOnly w] at hequal
  rw [hrest]
  refine keeps_emitAll ?_ hequal hemit
  rw [job.repeats_prepare.readsOnly w']
  exact hkeeps

end Job

/-! ## Chains -/

namespace Batch

variable {mode : OutputMode} {directory path : String} {next last : UInt64} {w w' : Workspace}
  {entries more : List BatchEntry} {runs : List Run} {failure : Failure}

/-- From a number and a workspace the jobs of entries succeed one after the other. Each is the job
of its entry with the number at hand, and hands the next number of its run and the workspace it
leaves on to the jobs after it. The chain ends with a number and a workspace. -/
inductive Chain (mode : OutputMode) (directory : String) :
    UInt64 → Workspace → List BatchEntry → List Run → UInt64 → Workspace → Prop
  | nil {next : UInt64} {w : Workspace} : Chain mode directory next w [] [] next w
  | cons {next last : UInt64} {w w' : Workspace} {e : BatchEntry} {entries : List BatchEntry}
      {job : Job} {run : Run} {text : String} {runs : List Run} :
    e.IsJob directory next job →
    outcome job.prepare w = .ok (run, text) →
    outcome (job.perform mode) w = .ok run.nextId →
    Chain mode directory run.nextId (rest (job.perform mode) w) entries runs last w' →
    Chain mode directory next w (e :: entries) (run :: runs) last w'

/-- There is one chain only. -/
theorem Chain.unique {runs' : List Run} {last' : UInt64} {w'' : Workspace}
    (h : Chain mode directory next w entries runs last w')
    (h' : Chain mode directory next w entries runs' last' w'') :
    runs = runs' ∧ last = last' ∧ w' = w'' := by
  induction h generalizing runs' with
  | nil =>
    cases h'
    exact ⟨rfl, rfl, rfl⟩
  | cons hjob hprepare _ _ ih =>
    cases h' with
    | cons hjob' hprepare' _ hrest =>
      obtain rfl := hjob.eq.trans hjob'.eq.symm
      obtain ⟨rfl, -⟩ := Prod.mk.inj (Except.ok.inj (hprepare.symm.trans hprepare'))
      obtain ⟨rfl, rfl, rfl⟩ := ih hrest
      exact ⟨rfl, rfl, rfl⟩

/-- What is left of a batch after a chain is done from where the chain ended. -/
theorem Chain.performFrom (h : Chain mode directory next w entries runs last w') (index : Nat)
    (more : List BatchEntry) :
    outcome (Batch.performFrom mode directory index next (entries ++ more)) w =
        outcome (Batch.performFrom mode directory (index + entries.length) last more) w' ∧
      rest (Batch.performFrom mode directory index next (entries ++ more)) w =
        rest (Batch.performFrom mode directory (index + entries.length) last more) w' := by
  induction h generalizing index with
  | nil => exact ⟨rfl, rfl⟩
  | @cons next last w w' e entries job run text runs hjob hprepare hperform _ ih =>
    obtain rfl := hjob.eq
    have hjob : outcome (ExceptT.adapt (Failure.entry index) ((e.job directory next).perform mode))
        w = .ok run.nextId := Job.mapError_eq_ok.mpr hperform
    have hlength : index + (e :: entries).length = index + 1 + entries.length := by
      rw [List.length_cons]
      omega
    rw [List.cons_append, Batch.performFrom, outcome_bind, rest_bind hjob, hjob, hlength]
    exact ih (index + 1)

/-- The jobs of entries succeed up to one that fails, or all of them do. -/
theorem exists_chain (mode : OutputMode) (directory : String) (next : UInt64) (w : Workspace)
    (entries : List BatchEntry) :
    ∃ done left runs last w', entries = done ++ left ∧
      Chain mode directory next w done runs last w' ∧
      ∀ e ∈ left.head?, ∃ failure,
        outcome ((e.job directory last).perform mode) w' = .error failure := by
  induction entries generalizing next w with
  | nil => exact ⟨[], [], [], next, w, rfl, .nil, by simp⟩
  | cons e entries ih =>
    rcases Outcome.ok_or_error (outcome ((e.job directory next).perform mode) w) with
      ⟨next', hperform⟩ | herror
    · obtain ⟨run, text, hprepare, -, rfl⟩ := Job.perform_eq_ok.mp hperform
      obtain ⟨done, left, runs, last, w', rfl, hchain, hleft⟩ :=
        ih run.nextId (rest ((e.job directory next).perform mode) w)
      exact ⟨e :: done, left, run :: runs, last, w', rfl,
        .cons (e.isJob_job directory next) hprepare hperform hchain, hleft⟩
    · refine ⟨[], e :: entries, [], next, w, rfl, .nil, fun d hd => ?_⟩
      obtain rfl : e = d := Option.some.inj hd
      exact herror

/-- A chain of jobs whose entries leave the start to the job before takes numbers without gaps. -/
theorem Chain.ids (h : Chain mode directory next w entries runs last w')
    (hstart : ∀ e ∈ entries, e.startId = none) :
    runs.flatMap Run.ids = List.range' next.toNat (runs.flatMap Run.ids).length ∧
      last.toNat = next.toNat + (runs.flatMap Run.ids).length := by
  induction h with
  | nil => simp
  | @cons next last w w' e entries job run text runs hjob hprepare _ _ ih =>
    obtain ⟨hfirst, hothers⟩ := List.forall_mem_cons.mp hstart
    obtain ⟨hids, hlast⟩ := ih hothers
    obtain ⟨hrun, hnext⟩ := Job.ids_of_prepare hprepare
    have hlength : run.ids.length = run.suite.length := List.length_map _
    rw [hjob.chained hfirst] at hrun hnext
    rw [List.flatMap_cons, List.length_append, hlength]
    constructor
    · rw [← List.range'_append_1, ← hnext, ← hids, ← hrun]
    · rw [hlast, hnext]
      omega

/-- Jobs that compare and jobs that write make the same runs: outputs that compare equal are files
that are written anew with what they hold, so the jobs after them read the same. -/
theorem Chain.runs_eq {runs' : List Run} {last' : UInt64} {w₁ w₁' w₂ w₂' : Workspace}
    (hwrite : Chain .write directory next w₁ entries runs last w₁')
    (hcompare : Chain .compare directory next w₂ entries runs' last' w₂')
    (hkeeps : Tree.Keeps [] w₂.tree w₁.tree) :
    runs = runs' ∧ last = last' ∧ Tree.Keeps [] w₂'.tree w₁'.tree := by
  induction hwrite generalizing w₂ runs' with
  | nil =>
    cases hcompare
    exact ⟨rfl, rfl, hkeeps⟩
  | @cons next last w₁ w₁' e entries job run text runs hjob hprepare hperform _ ih =>
    cases hcompare with
    | @cons _ _ _ _ _ _ job' run' text' runs' hjob' hprepare' hperform' hcompare =>
      obtain rfl := hjob.eq.trans hjob'.eq.symm
      have hsame := Job.prepare_of_keeps hkeeps hprepare'
      obtain ⟨rfl, rfl⟩ := Prod.mk.inj (Except.ok.inj (hprepare.symm.trans hsame))
      have htree : (rest (job.perform .compare) w₂).tree = w₂.tree := job.readsOnly_perform w₂
      have hkeeps' := Job.keeps_perform hkeeps hprepare' hperform' hperform
      rw [← htree] at hkeeps'
      obtain ⟨rfl, rfl, hlast⟩ := ih hcompare hkeeps'
      exact ⟨rfl, rfl, hlast⟩

/-! ## Batches -/

theorem exists_read_of_manifest? {manifest : Manifest}
    (hmanifest : manifest? w.tree path = some manifest) :
    ∃ contents, w.tree.read path = .ok contents := by
  cases hread : w.tree.read path with
  | ok contents => exact ⟨contents, rfl⟩
  | error e =>
    rw [manifest?, hread] at hmanifest
    cases hmanifest

/-- A manifest is read without a trace. -/
theorem readManifest_eq {manifest : Manifest} (hmanifest : manifest? w.tree path = some manifest)
    (haccepts : Schema.manifest.accepts manifest.schemaVersion = true) :
    outcome (readManifest path) w = .ok manifest ∧ rest (readManifest path) w = w := by
  obtain ⟨contents, hread⟩ := exists_read_of_manifest? hmanifest
  have hdecoded : (Json.parseBytes? contents >>= Manifest.ofJson?) = some manifest := by
    rw [manifest?, hread] at hmanifest
    exact hmanifest
  have hdocument : outcome (Job.readDocument .manifest Manifest.ofJson? path) w = .ok manifest :=
    Job.readDocument_eq_ok.mpr ⟨contents, hread, hdecoded⟩
  have hbytes : outcome (Job.orFail (.unreadable .manifest path) (Files.read path)) w =
      .ok contents := Job.mapError_eq_ok.mpr hread
  have hrest : rest (Job.readDocument .manifest Manifest.ofJson? path) w = w := by
    rw [Job.readDocument, rest_bind hbytes, hdecoded]
    rfl
  constructor
  · exact bind_eq_ok.mpr ⟨manifest, hdocument, by rw [if_pos haccepts]; rfl⟩
  · rw [readManifest, rest_bind hdocument, if_pos haccepts]
    exact hrest

theorem perform_eq {manifest : Manifest} (hmanifest : manifest? w.tree path = some manifest)
    (haccepts : Schema.manifest.accepts manifest.schemaVersion = true) (mode : OutputMode) :
    outcome (perform path mode) w =
        outcome (performFrom mode (directoryOf path) 0 0 manifest.entries) w ∧
      rest (perform path mode) w =
        rest (performFrom mode (directoryOf path) 0 0 manifest.entries) w := by
  obtain ⟨hread, hrest⟩ := readManifest_eq hmanifest haccepts
  rw [perform, outcome_bind, rest_bind hread, hread, hrest]
  exact ⟨rfl, rfl⟩

/-- A batch does a chain of jobs and stops at the first entry whose job fails, if there is one. -/
theorem exists_chain_perform {manifest : Manifest}
    (hmanifest : manifest? w.tree path = some manifest)
    (haccepts : Schema.manifest.accepts manifest.schemaVersion = true) (mode : OutputMode) :
    ∃ done left runs last w', manifest.entries = done ++ left ∧
      Chain mode (directoryOf path) 0 w done runs last w' ∧
      ((left = [] ∧ outcome (perform path mode) w = .ok () ∧ rest (perform path mode) w = w') ∨
        ∃ e others job failure, left = e :: others ∧ e.IsJob (directoryOf path) last job ∧
          outcome (job.perform mode) w' = .error failure ∧
          outcome (perform path mode) w = .error (.entry done.length failure) ∧
          rest (perform path mode) w = rest (job.perform mode) w') := by
  obtain ⟨done, left, runs, last, w', hentries, hdone, hleft⟩ :=
    exists_chain mode (directoryOf path) 0 w manifest.entries
  obtain ⟨houtcome, hrest⟩ := perform_eq hmanifest haccepts mode
  rw [hentries, (hdone.performFrom 0 left).1] at houtcome
  rw [hentries, (hdone.performFrom 0 left).2] at hrest
  refine ⟨done, left, runs, last, w', hentries, hdone, ?_⟩
  cases left with
  | nil => exact .inl ⟨rfl, houtcome, hrest⟩
  | cons e others =>
    obtain ⟨failure, hfailure⟩ := hleft e rfl
    have hadapted : outcome (ExceptT.adapt (Failure.entry (0 + done.length))
        ((e.job (directoryOf path) last).perform mode)) w' =
          .error (.entry (0 + done.length) failure) :=
      congrArg (Except.mapError (Failure.entry (0 + done.length))) hfailure
    rw [performFrom, rest_bind_error hadapted] at hrest
    rw [performFrom, outcome_bind, hadapted, Nat.zero_add] at houtcome
    exact .inr ⟨e, others, _, failure, rfl, e.isJob_job _ last, hfailure, houtcome, hrest⟩

/-- **A batch is a chain of jobs.** Take a manifest of the right schema that stands at a path. Its
entries are the ones that a chain of jobs does, from the number zero and the workspace at hand, and
those left over. If none is left over, the batch succeeds and leaves the workspace in which the
chain ends. Otherwise the job of the first entry left over, with the number and in the workspace in
which the chain ends, fails; the batch fails for this reason and leaves the workspace that this job
leaves. If no entry has a start of its own, a chain takes the numbers from zero on, each one once
and without gaps. Chains of the same entries that write and that compare make the same runs and come
to the same number, and whatever the jobs after them prepare for comparing they prepare for writing
as well. The paths of the jobs lead to where the paths of their entries lead from the directory in
which the manifest stands. -/
theorem perform_chains_jobs (path : String) (w : Workspace) (manifest : Manifest)
    (hmanifest : manifest? w.tree path = some manifest)
    (haccepts : Schema.manifest.accepts manifest.schemaVersion = true) :
    (∀ mode, ∃ done left runs last w', manifest.entries = done ++ left ∧
      Chain mode (directoryOf path) 0 w done runs last w' ∧
      ((left = [] ∧ outcome (perform path mode) w = .ok () ∧ rest (perform path mode) w = w') ∨
        ∃ e others job failure, left = e :: others ∧ e.IsJob (directoryOf path) last job ∧
          outcome (job.perform mode) w' = .error failure ∧
          outcome (perform path mode) w = .error (.entry done.length failure) ∧
          rest (perform path mode) w = rest (job.perform mode) w')) ∧
    (∀ mode, (∀ e ∈ manifest.entries, e.startId = none) →
      outcome (perform path mode) w = .ok () →
        ∃ runs last w', Chain mode (directoryOf path) 0 w manifest.entries runs last w' ∧
          runs.flatMap Run.ids = List.range last.toNat) ∧
    (∀ entries runs runs' last last' w₁ w₂,
      Chain .write (directoryOf path) 0 w entries runs last w₁ →
      Chain .compare (directoryOf path) 0 w entries runs' last' w₂ →
        runs = runs' ∧ last = last' ∧ ∀ job p, outcome (Job.prepare job) w₂ = .ok p →
          outcome (Job.prepare job) w₁ = .ok p) ∧
    ∀ named, Path.place w.tree.workingDirectory (Path.join (directoryOf path) named) =
      Path.place (Path.place w.tree.workingDirectory path).dropLast named := by
  refine ⟨exists_chain_perform hmanifest haccepts, ?_, ?_, ?_⟩
  · intro mode hstart hok
    obtain ⟨done, left, runs, last, w', hentries, hdone, hleft⟩ :=
      exists_chain_perform hmanifest haccepts mode
    rcases hleft with ⟨rfl, -, -⟩ | ⟨_, _, _, _, -, -, -, herror, -⟩
    · rw [List.append_nil] at hentries
      subst hentries
      obtain ⟨hids, hlast⟩ := hdone.ids hstart
      refine ⟨runs, last, w', hdone, ?_⟩
      rw [hids, List.range_eq_range', hlast]
      simp
    · rw [hok] at herror
      cases herror
  · intro entries runs runs' last last' w₁ w₂ hwrite hcompare
    obtain ⟨hruns, hlast, hkeeps⟩ := hwrite.runs_eq hcompare (.refl w.tree)
    exact ⟨hruns, hlast, fun job p h => Job.prepare_of_keeps hkeeps h⟩
  · obtain ⟨contents, hread⟩ := exists_read_of_manifest? hmanifest
    exact place_join_directoryOf hread

/-! ## Two jobs of a manifest -/

/-- The text of the diamond. -/
def diamondTypes : String :=
  Json.encode TypesDocument.toJson ⟨Schema.types.version, Catalog.diamond.entries⟩

/-- A function of numbers as a document holds it. -/
def floatRecord (name : String) (argKeys : List String) (pointers : List UInt64) : FunctionRecord :=
  { scope := "sycl", name, returnKey := "float", argKeys, pointers, mutations := [],
    accuracy := none, comment := none, reference := none }

/-- The text of the two functions. -/
def sampleFunctions : String := Json.encode FunctionsDocument.toJson
  ⟨Schema.functions.version,
    [floatRecord "sin" ["float"] [], floatRecord "fract" ["float", "float"] [2]]⟩

/-- An entry for the two functions over the diamond, without a start of its own. -/
def sampleEntry (out report : String) : BatchEntry where
  types := "types"
  functions := "functions"
  selection := none
  check := .verified
  startId := none
  functionFilter := []
  template := none
  out
  report := some report

/-- The record of such an entry. -/
def sampleRecord (out report : String) : Json := .object [
  Json.member "types" (.ofString "types"), Json.member "functions" (.ofString "functions"),
  Json.member "check" (.ofString "verified"), Json.member "out" (.ofString out),
  Json.member "report_out" (.ofString report)]

/-- The record of a manifest with two such entries. -/
def sampleManifest : Json := .object [
  Json.member "schema_version" (.ofString Schema.manifest.version),
  Json.member "entries"
    (.array [sampleRecord "first" "first.json", sampleRecord "second" "second.json"])]

/-- The entries of the manifest. -/
def sampleEntries : List BatchEntry :=
  [sampleEntry "first" "first.json", sampleEntry "second" "second.json"]

/-- A workspace with these documents in a directory of their own. -/
def samples : Workspace where
  tree := (((Tree.put ⟨[], ∅⟩ ["suite"] .directory).put ["suite", "types"]
    (.file diamondTypes.toUTF8)).put ["suite", "functions"] (.file sampleFunctions.toUTF8)).put
      ["suite", "manifest"] (.file sampleManifest.compact.toUTF8)
  printed := ""
  warned := ""

/-- The names of the outputs. -/
def sampleOutputs : List String := ["first", "first.json", "second", "second.json"]

/-- A tree of the working directory with a directory that holds the two documents. -/
structure Offered (t : Tree) : Prop where
  workingDirectory : t.workingDirectory = []
  directory : t.node? ["suite"] = some .directory
  types : t.node? ["suite", "types"] = some (.file diamondTypes.toUTF8)
  functions : t.node? ["suite", "functions"] = some (.file sampleFunctions.toUTF8)

theorem offered_samples : Offered samples.tree where
  workingDirectory := rfl
  directory := by simp [samples, Tree.node?_put]
  types := by simp [samples, Tree.node?_put]
  functions := by simp [samples, Tree.node?_put]

namespace Offered

variable {t : Tree} {name : String}

theorem put (h : Offered t) (hname : name ∈ sampleOutputs) (node : Node) :
    Offered (t.put ["suite", name] node) := by
  have htypes : name ≠ "types" := ne_of_mem_of_not_mem hname (by decide)
  have hfunctions : name ≠ "functions" := ne_of_mem_of_not_mem hname (by decide)
  exact ⟨h.workingDirectory, by simp [Tree.node?_put, h.directory],
    by simp [Tree.node?_put, htypes, h.types], by simp [Tree.node?_put, hfunctions, h.functions]⟩

theorem target (h : Offered t) (hname : name ∈ "types" :: "functions" :: "manifest" ::
    sampleOutputs) : t.target ("suite/" ++ name) = .ok (.entry ["suite"] name false) ∧
      Tree.checkName name = .ok () := by
  have hwalk : t.walk t.workingDirectory ["suite"] = .ok ["suite"] := by
    refine Tree.walk_cons_eq_ok.mpr ⟨.inr (.inr ⟨by decide +kernel, ?_⟩), ?_⟩
    · rw [h.workingDirectory]
      exact h.directory
    · rw [h.workingDirectory]
      rfl
  have hfinds : ∀ {path : String}, Tree.Admits path → Path.isAbsolute path = false →
      Path.pieces path = ["suite"] ++ [name] → Path.isIdle name = false → name ≠ ".." →
      t.target path = .ok (.entry ["suite"] name false) := by
    intro path hadmits hrelative hpieces hnamed hup
    rw [Tree.target_eq_map hadmits hrelative hpieces hnamed hup, hwalk]
    rfl
  simp only [sampleOutputs, List.mem_cons, List.not_mem_nil, or_false] at hname
  rcases hname with rfl | rfl | rfl | rfl | rfl | rfl | rfl <;>
    exact ⟨hfinds ⟨by decide +kernel, by decide +kernel, by decide +kernel⟩ (by decide +kernel)
      (by decide +kernel) (by decide +kernel) (by decide), rfl⟩

theorem read (h : Offered t) {contents : ByteArray}
    (hname : name ∈ "types" :: "functions" :: "manifest" :: sampleOutputs)
    (hnode : t.node? ["suite", name] = some (.file contents)) :
    t.read ("suite/" ++ name) = .ok contents := by
  obtain ⟨htarget, hcheck⟩ := h.target hname
  exact Tree.read_eq_ok.mpr ⟨_, _, htarget, hcheck, hnode⟩

/-- An output is written where there is none. -/
theorem writeOutput {w : Workspace} (h : Offered w.tree) (hname : name ∈ sampleOutputs)
    (hnode : w.tree.node? ["suite", name] = none) (text : String) :
    outcome (Job.writeOutput ("suite/" ++ name) text) w = .ok () ∧
      (rest (Job.writeOutput ("suite/" ++ name) text) w).tree =
        w.tree.put ["suite", name] (.file text.toUTF8) := by
  have hnamed : name ∈ "types" :: "functions" :: "manifest" :: sampleOutputs := by simp [hname]
  obtain ⟨htarget, hcheck⟩ := h.target hnamed
  have hwrite : w.tree.write ("suite/" ++ name) text =
      .ok (w.tree.put ["suite", name] (.file text.toUTF8)) :=
    Tree.write_eq_ok.mpr ⟨_, _, htarget, hcheck, by simp [hnode], by simp⟩
  have hparent : Path.parent? ("suite/" ++ name) = some "suite" := by
    simp only [sampleOutputs, List.mem_cons, List.not_mem_nil, or_false] at hname
    rcases hname with rfl | rfl | rfl | rfl <;> decide +kernel
  have hdirectory : w.tree.target "suite" = .ok (.entry [] "suite" false) := by
    rw [← h.workingDirectory]
    have hpieces : Path.pieces "suite" = [] ++ ["suite"] := by decide +kernel
    exact Tree.target_eq_map ⟨by decide, by decide, by decide⟩ (by decide +kernel) hpieces
      (by decide +kernel) (by decide)
  refine Job.writeOutput_of_write hparent ?_ hwrite
  rw [Tree.isDirectory, hdirectory]
  simp [Tree.Target.location, h.directory]

end Offered

theorem ofList_diamond : Catalog.ofList Catalog.diamond.entries = .ok .diamond := by
  have hentries : Catalog.entryFault? ∅ Catalog.diamond.entries = none := by decide +kernel
  have hchildren : Catalog.childFault? (TypeEntry.indexOf Catalog.diamond.entries)
      Catalog.diamond.entries = none := by decide +kernel
  unfold Catalog.ofList
  split
  · rename_i h
    rw [hentries] at h
    cases h
  · dsimp only
    split
    · rename_i h
      rw [hchildren] at h
      cases h
    · rfl

/-- The job of an entry. -/
def sampleJob (out report : String) (next : UInt64) : Job where
  types := "suite/types"
  functions := "suite/functions"
  selection := none
  template := none
  out := "suite/" ++ out
  report := some ("suite/" ++ report)
  options := { startId := next, check := .verified, functions := [] }

theorem isJob_sample {out report : String} (hout : out ∈ sampleOutputs)
    (hreport : report ∈ sampleOutputs) (next : UInt64) :
    (sampleEntry out report).IsJob "suite" next (sampleJob out report next) := by
  have hjoin : ∀ name ∈ sampleOutputs, "suite/" ++ name = Path.join "suite" name := by
    decide +kernel
  have hdocuments : "suite/types" = Path.join "suite" "types" ∧
      "suite/functions" = Path.join "suite" "functions" := by decide +kernel
  exact ⟨hdocuments.1, hdocuments.2, rfl, rfl, hjoin out hout,
    congrArg some (hjoin report hreport), rfl, rfl, nofun, fun _ => rfl⟩

/-- Wherever the documents are and seven numbers are left, the job of an entry makes its run. -/
theorem exists_prepare_sample {w : Workspace} (h : Offered w.tree) (out report : String)
    {next : UInt64} (hnext : next.toNat + 7 < UInt64.size) :
    ∃ run, outcome (sampleJob out report next).prepare w = .ok (run, run.source) ∧
      run.suite.length = 7 := by
  have htestable := Overload.testable_of_mem_samples .verified
  obtain ⟨suite, hsuite⟩ : ∃ suite, (Suite.draw next .verified [.sin, .fract] :
      Draw KeyStream Suite).outcome KeyStream.ofRun = .ok suite :=
    (Suite.exists_draw_eq_ok Overload.expanded_of_mem_samples).mpr ⟨htestable, hnext⟩
  obtain ⟨run, hgenerate, hlength⟩ : ∃ run, Run.generate .diamond
      [Overload.sin.template, Overload.fract.template] (.allOf .diamond)
        (sampleJob out report next).options = .ok run ∧ run.suite.length = 7 :=
    ⟨_, Run.draw_eq_ok.mpr ⟨_, suite, Run.expansion_diamond next .verified, hsuite, rfl⟩,
      Suite.length_of_drawFrom hsuite⟩
  have htypes : outcome (Job.readTypes "suite/types") w = .ok .diamond := by
    refine bind_eq_ok.mpr ⟨_, Job.readDocument_eq_ok.mpr ⟨_, h.read (by simp) h.types,
      TypesDocument.codec.survives.decode_bytes _⟩, ?_⟩
    rw [TypesDocument.catalog, ofList_diamond]
    rfl
  have hfunctions : ∀ w' : Workspace, w'.tree = w.tree →
      outcome (Job.readFunctions "suite/functions") w' =
        .ok [Overload.sin.template, Overload.fract.template] := by
    intro w' hw'
    rw [← hw'] at h
    refine bind_eq_ok.mpr ⟨_, Job.readDocument_eq_ok.mpr ⟨_, h.read (by simp) h.functions,
      FunctionsDocument.codec.survives.decode_bytes _⟩, ?_⟩
    rfl
  have hrun : outcome (sampleJob out report next).run w = .ok run := by
    refine bind_eq_ok.mpr ⟨_, htypes, bind_eq_ok.mpr ⟨_, hfunctions _
      ((Job.repeats_readTypes _).readsOnly w), bind_eq_ok.mpr ⟨.allOf .diamond, rfl, ?_⟩⟩⟩
    rw [hgenerate]
    rfl
  exact ⟨run, bind_eq_ok.mpr ⟨run, hrun, bind_eq_ok.mpr ⟨(), Job.outcome_forM_warn _ _, rfl⟩⟩,
    hlength⟩

/-- The job writes a source and a report where there are none, and nothing else. -/
theorem exists_perform_sample {w : Workspace} (h : Offered w.tree) (out report : String)
    (next : UInt64) (hout : out ∈ sampleOutputs) (hreport : report ∈ sampleOutputs)
    (hne : out ≠ report) (hnext : next.toNat + 7 < UInt64.size)
    (hnoOut : w.tree.node? ["suite", out] = none)
    (hnoReport : w.tree.node? ["suite", report] = none) :
    ∃ run, outcome (sampleJob out report next).prepare w = .ok (run, run.source) ∧
      run.suite.length = 7 ∧
      outcome ((sampleJob out report next).perform .write) w = .ok run.nextId ∧
      (rest ((sampleJob out report next).perform .write) w).tree =
        (w.tree.put ["suite", out] (.file run.source.toUTF8)).put ["suite", report]
          (.file (Job.reportText (run.report .verified)).toUTF8) := by
  obtain ⟨run, hprepare, hlength⟩ := exists_prepare_sample h out report hnext
  have htree : (rest (sampleJob out report next).prepare w).tree = w.tree :=
    (sampleJob out report next).repeats_prepare.readsOnly w
  rw [← htree] at h hnoOut hnoReport
  obtain ⟨hsource, hafter⟩ := h.writeOutput hout hnoOut run.source
  have hput := h.put hout (.file run.source.toUTF8)
  rw [← hafter] at hput
  obtain ⟨hwritten, hlast⟩ := hput.writeOutput hreport
    (by rw [hafter, Tree.node?_put _ _ _ _ (by simp), if_neg (by simpa using hne)]; exact hnoReport)
    (Job.reportText (run.report .verified))
  obtain ⟨hperform, hrest⟩ := Job.perform_of_writeOutput hprepare rfl hsource hwritten
  refine ⟨run, hprepare, hlength, hperform, ?_⟩
  rw [hrest, ← htree, ← hafter]
  exact hlast

theorem node?_samples {name : String} (hname : name ∈ sampleOutputs) :
    samples.tree.node? ["suite", name] = none := by
  have htypes : "types" ≠ name := (ne_of_mem_of_not_mem hname (by decide)).symm
  have hfunctions : "functions" ≠ name := (ne_of_mem_of_not_mem hname (by decide)).symm
  have hmanifest : "manifest" ≠ name := (ne_of_mem_of_not_mem hname (by decide)).symm
  have hbefore : samples.tree.node? ["suite", name] =
      Tree.node? ⟨[], ∅⟩ ["suite", name] := by
    simp [samples, Tree.node?_put, htypes, hfunctions, hmanifest]
  rw [hbefore]
  simp [Tree.node?]

theorem textual_sampleManifest : sampleManifest.Textual := by
  have hrecord : ∀ out report, (sampleRecord out report).Textual := by
    intro out report
    refine .object (by simp [Json.member]) fun m hm => ?_
    simp only [List.mem_cons, List.not_mem_nil, or_false] at hm
    rcases hm with rfl | rfl | rfl | rfl | rfl <;> exact .string _
  refine .object (by simp [Json.member]) fun m hm => ?_
  rcases List.mem_pair.mp hm with rfl | rfl
  · exact .string _
  · refine .array fun item hitem => ?_
    rcases List.mem_pair.mp hitem with rfl | rfl <;> exact hrecord _ _

theorem manifest?_samples : manifest? samples.tree "suite/manifest" =
    some ⟨Schema.manifest.version, sampleEntries⟩ := by
  have hnode : samples.tree.node? ["suite", "manifest"] =
      some (.file sampleManifest.compact.toUTF8) := by simp [samples, Tree.node?_put]
  have hread : samples.tree.read "suite/manifest" = .ok sampleManifest.compact.toUTF8 :=
    offered_samples.read (by simp) hnode
  have hdecoded : (Json.parseBytes? sampleManifest.compact.toUTF8 >>= Manifest.ofJson?) =
      some ⟨Schema.manifest.version, sampleEntries⟩ := by
    rw [Json.parseBytes?_toUTF8, Json.parse?_compact textual_sampleManifest]
    decide +kernel
  rw [manifest?, hread]
  exact hdecoded

/-- The two jobs take seven numbers each, the second one from where the first one ended. -/
theorem exists_chain_samples : ∃ runs last w',
    Chain .write "suite" 0 samples sampleEntries runs last w' ∧
      runs.map Run.ids = [List.range' 0 7, List.range' 7 7] ∧ last.toNat = 14 := by
  obtain ⟨run₁, hprepare₁, hlength₁, hperform₁, htree₁⟩ := exists_perform_sample offered_samples
    "first" "first.json" 0 (by decide) (by decide) (by decide) (by decide)
    (node?_samples (by decide)) (node?_samples (by decide))
  obtain ⟨hids₁, hnext₁⟩ := Job.ids_of_prepare hprepare₁
  rw [hlength₁] at hids₁ hnext₁
  have hoffered :
      Offered (rest ((sampleJob "first" "first.json" 0).perform .write) samples).tree := by
    rw [htree₁]
    exact (offered_samples.put (by decide) _).put (by decide) _
  have hnode : ∀ name ∈ ["second", "second.json"],
      (rest ((sampleJob "first" "first.json" 0).perform .write) samples).tree.node?
        ["suite", name] = none := by
    intro name hname
    have hnone : samples.tree.node? ["suite", name] = none :=
      node?_samples (List.mem_of_mem_drop (i := 2) hname)
    have hfirst : "first" ≠ name := (ne_of_mem_of_not_mem hname (by decide)).symm
    have hreport : "first.json" ≠ name := (ne_of_mem_of_not_mem hname (by decide)).symm
    simp [htree₁, Tree.node?_put, hfirst, hreport, hnone]
  obtain ⟨run₂, hprepare₂, hlength₂, hperform₂, -⟩ := exists_perform_sample hoffered
    "second" "second.json" run₁.nextId (by decide) (by decide) (by decide)
    (by rw [hnext₁]; decide) (hnode _ (by simp)) (hnode _ (by simp))
  obtain ⟨hids₂, hnext₂⟩ := Job.ids_of_prepare hprepare₂
  rw [hlength₂, show (sampleJob "second" "second.json" run₁.nextId).options.startId =
    run₁.nextId from rfl, hnext₁] at hids₂ hnext₂
  refine ⟨_, _, _, .cons (isJob_sample (by decide) (by decide) 0) hprepare₁ hperform₁
    (.cons (isJob_sample (by decide) (by decide) _) hprepare₂ hperform₂ .nil), ?_, hnext₂⟩
  simp [hids₁, hids₂]
  rfl

theorem accepts_manifest : Schema.manifest.accepts Schema.manifest.version = true := by
  decide +kernel

theorem directoryOf_samples : directoryOf "suite/manifest" = "suite" := by decide +kernel

theorem perform_samples : outcome (perform "suite/manifest" .write) samples = .ok () := by
  obtain ⟨runs, last, w', hchain, -⟩ := exists_chain_samples
  rw [(perform_eq manifest?_samples accepts_manifest .write).1, directoryOf_samples]
  exact (hchain.performFrom 0 []).1

/-- The two jobs of the manifest take seven numbers each, and none of them twice. -/
theorem perform_chains_samples :
    outcome (perform "suite/manifest" .write) samples = .ok () ∧
      (∃ runs last w', Chain .write "suite" 0 samples sampleEntries runs last w' ∧
        runs.map Run.ids = [List.range' 0 7, List.range' 7 7] ∧
        runs.flatMap Run.ids = List.range 14) ∧
      Path.place [] (Path.join "suite" "types") = ["suite", "types"] := by
  obtain ⟨runs, last, w', hchain, hruns, hlast⟩ := exists_chain_samples
  obtain ⟨-, hids, -, hplace⟩ :=
    perform_chains_jobs "suite/manifest" samples _ manifest?_samples accepts_manifest
  obtain ⟨runs', last', w'', hchain', hrange⟩ := hids .write (by decide) perform_samples
  rw [directoryOf_samples] at hchain' hplace
  obtain ⟨rfl, rfl, rfl⟩ := hchain.unique hchain'
  refine ⟨perform_samples, ⟨_, _, _, hchain, hruns, ?_⟩, ?_⟩
  · rw [hrange, hlast]
  · have htypes := hplace "types"
    rw [show samples.tree.workingDirectory = [] from rfl] at htypes
    rw [htypes]
    decide +kernel

end Batch

end OverloadSuite
