import OverloadSuite.Proofs.Command.Outputs
import OverloadSuite.Proofs.Workspace.Paths

/-!
# The job of an entry

An entry of a manifest stands for one job. Its paths are those of the entry as seen from the
directory of the manifest, it asks for what the entry asks for, and it starts with the number that
the entry gives, or with the one at hand if the entry gives none.
-/

namespace OverloadSuite

namespace BatchEntry

variable {e : BatchEntry} {directory : String} {next : UInt64} {job : Job}

/-- The job that an entry stands for, seen from a directory and with a number at hand. -/
structure IsJob (e : BatchEntry) (directory : String) (next : UInt64) (job : Job) : Prop where
  types : job.types = Path.join directory e.types
  functions : job.functions = Path.join directory e.functions
  selection : job.selection = e.selection.map (Path.join directory)
  template : job.template = e.template.map (Path.join directory)
  out : job.out = Path.join directory e.out
  report : job.report = e.report.map (Path.join directory)
  check : job.options.check = e.check
  wanted : job.options.functions = e.functionFilter
  given : ∀ id, e.startId = some id → job.options.startId = id
  chained : e.startId = none → job.options.startId = next

theorem isJob_job (e : BatchEntry) (directory : String) (next : UInt64) :
    e.IsJob directory next (e.job directory next) where
  types := rfl
  functions := rfl
  selection := rfl
  template := rfl
  out := rfl
  report := rfl
  check := rfl
  wanted := rfl
  given id h := by simp [BatchEntry.job, h]
  chained h := by simp [BatchEntry.job, h]

theorem IsJob.startId (h : e.IsJob directory next job) :
    job.options.startId = e.startId.getD next := by
  cases hstart : e.startId with
  | none => exact h.chained hstart
  | some id => exact h.given id hstart

/-- An entry stands for one job only. -/
theorem IsJob.eq (h : e.IsJob directory next job) : job = e.job directory next := by
  have hstart := h.startId
  obtain ⟨htypes, hfunctions, hselection, htemplate, hout, hreport, hcheck, hwanted, -, -⟩ := h
  obtain ⟨types, functions, selection, template, out, report, start, check, wanted⟩ := job
  subst htypes hfunctions hselection htemplate hout hreport hcheck hwanted hstart
  rfl

/-! ## The files of an entry -/

/-- The files that an entry names to be read. -/
def inputPaths (directory : String) (e : BatchEntry) : List String :=
  (e.types :: e.functions :: (e.selection.toList ++ e.template.toList)).map (Path.join directory)

/-- The files that an entry names to be put out. -/
def outputPaths (directory : String) (e : BatchEntry) : List String :=
  (e.out :: e.report.toList).map (Path.join directory)

theorem IsJob.inputPaths (h : e.IsJob directory next job) :
    job.inputPaths = e.inputPaths directory := by
  unfold Job.inputPaths BatchEntry.inputPaths
  rw [h.types, h.functions, h.selection, h.template]
  cases e.selection <;> cases e.template <;> rfl

theorem IsJob.outputPaths (h : e.IsJob directory next job) :
    job.outputPaths = e.outputPaths directory := by
  unfold Job.outputPaths BatchEntry.outputPaths
  rw [h.out, h.report]
  cases e.report <;> rfl

end BatchEntry

namespace Batch

/-- The paths of entries are taken from the place around that of the manifest, unless they are
absolute. -/
theorem place_join_directoryOf {t : Tree} {path : String} {contents : ByteArray}
    (h : t.read path = .ok contents) (named : String) :
    Path.place t.workingDirectory (Path.join (directoryOf path) named) =
      Path.place (Path.place t.workingDirectory path).dropLast named := by
  obtain ⟨directory, hparent, hplace⟩ := Tree.exists_parent_of_read h
  rw [Path.place_join, directoryOf, hparent, Option.getD_some, hplace]

end Batch

end OverloadSuite
