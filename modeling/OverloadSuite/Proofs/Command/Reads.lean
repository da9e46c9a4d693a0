import OverloadSuite.Command.Batch
import OverloadSuite.Proofs.Attempt
import OverloadSuite.Proofs.Workspace.Places

/-!
# What is only read

An action that only reads leaves the tree as it is, and once it has succeeded it succeeds again with
the same result wherever the files that it reads are the same.
-/

namespace OverloadSuite

open Attempt

/-- What a command does in a workspace, unless it fails. -/
abbrev FileAction (α : Type) := ExceptT Failure (StateM Workspace) α

/-- The files at these paths that can be read in the one tree can be read in the other one, with the
same contents. -/
def Tree.Offers (paths : List String) (t t' : Tree) : Prop :=
  ∀ path ∈ paths, ∀ contents, t.read path = .ok contents → t'.read path = .ok contents

namespace FileAction

variable {α β : Type} {x : FileAction α} {f : α → FileAction β} {paths paths' : List String}
  {path : String}

/-- The action leaves the tree as it is. -/
def ReadsOnly (x : FileAction α) : Prop := ∀ w, (rest x w).tree = w.tree

theorem ReadsOnly.pure (a : α) : ReadsOnly (Pure.pure a) := fun _ => rfl

theorem ReadsOnly.bind (hx : ReadsOnly x) (hf : ∀ a, ReadsOnly (f a)) : ReadsOnly (x >>= f) := by
  intro w
  cases hw : outcome x w with
  | ok a => rw [rest_bind hw, hf a, hx w]
  | error e => rw [rest_bind_error hw, hx w]

/-- The action only reads, and it succeeds again with the same result where the files at these paths
are the same. -/
structure Repeats (paths : List String) (x : FileAction α) : Prop where
  readsOnly : ReadsOnly x
  again : ∀ w w' a, Tree.Offers paths w.tree w'.tree → outcome x w = .ok a → outcome x w' = .ok a

namespace Repeats

theorem mono (h : Repeats paths x) (hpaths : paths ⊆ paths') : Repeats paths' x where
  readsOnly := h.readsOnly
  again w w' a hoffers := h.again w w' a fun path hpath => hoffers path (hpaths hpath)

theorem pure (a : α) : Repeats paths (Pure.pure a) :=
  ⟨.pure a, fun _ _ _ _ h => h⟩

theorem throw (e : Failure) : Repeats paths (MonadExcept.throw e : FileAction α) :=
  ⟨fun _ => rfl, fun _ _ _ _ h => h⟩

theorem bind (hx : Repeats paths x) (hf : ∀ a, Repeats paths (f a)) : Repeats paths (x >>= f) where
  readsOnly := hx.readsOnly.bind fun a => (hf a).readsOnly
  again w w' b hoffers h := by
    obtain ⟨a, ha, hb⟩ := bind_eq_ok.mp h
    refine bind_eq_ok.mpr ⟨a, hx.again w w' a hoffers ha, ?_⟩
    refine (hf a).again _ _ b ?_ hb
    rw [hx.readsOnly, hx.readsOnly]
    exact hoffers

theorem warn (line : String) : Repeats paths (ExceptT.lift (Files.warn line) : FileAction Unit) :=
  ⟨fun _ => rfl, fun _ _ _ _ h => h⟩

theorem forM {as : List β} {f : β → FileAction PUnit} (hf : ∀ b, Repeats paths (f b)) :
    Repeats paths (as.forM f) := by
  induction as with
  | nil => exact pure _
  | cons a as ih => exact (hf a).bind fun _ => ih

end Repeats

end FileAction

/-! ## The files of a job -/

namespace Job

open FileAction

variable {α : Type} {cause : SystemError → Failure} {path : String} {w : Workspace}

theorem outcome_orFail (cause : SystemError → Failure)
    (action : StateM Workspace (Except SystemError α)) (w : Workspace) :
    outcome (orFail cause action) w = (action w).1.mapError cause := rfl

theorem rest_orFail (cause : SystemError → Failure)
    (action : StateM Workspace (Except SystemError α)) (w : Workspace) :
    rest (orFail cause action) w = (action w).2 := rfl

theorem mapError_eq_ok {ε ε' : Type} {report : ε → ε'} {x : Except ε α} {a : α} :
    x.mapError report = .ok a ↔ x = .ok a := by
  cases x <;> simp [Except.mapError]

/-- Reading a file and taking something from its contents. -/
theorem repeats_orFail {action : StateM Workspace (Except SystemError α)}
    (take : ByteArray → Except SystemError α)
    (h : ∀ w : Workspace, action w = (w.tree.read path >>= take, w)) :
    Repeats [path] (orFail cause action) where
  readsOnly w := by
    rw [rest_orFail, h]
  again w w' a hoffers houtcome := by
    rw [outcome_orFail, h, mapError_eq_ok, Outcome.bind_eq_ok] at houtcome ⊢
    obtain ⟨contents, hread, htake⟩ := houtcome
    exact ⟨contents, hoffers path List.mem_cons_self contents hread, htake⟩

theorem repeats_read : Repeats [path] (orFail cause (Files.read path)) :=
  repeats_orFail .ok fun w => by
    rw [show w.tree.read path >>= Except.ok = w.tree.read path from bind_pure _]
    rfl

/-- The text of a file, if it is one. -/
def textOf (contents : ByteArray) : Except SystemError String :=
  (String.fromUTF8? contents).elim (.error .notUtf8) .ok

theorem readText_eq (path : String) (w : Workspace) :
    (Files.readText path : StateM Workspace _) w = (w.tree.read path >>= textOf, w) := by
  have hread : (Files.read path : StateM Workspace _) w = (w.tree.read path, w) := rfl
  cases hcontents : w.tree.read path with
  | ok contents =>
    rw [hcontents] at hread
    simp only [Files.readText, bind, StateT.bind, hread]
    rfl
  | error e =>
    rw [hcontents] at hread
    simp only [Files.readText, bind, StateT.bind, hread]
    rfl

theorem repeats_readText : Repeats [path] (orFail cause (Files.readText path)) :=
  repeats_orFail textOf (readText_eq path)

theorem repeats_readDocument (schema : Schema) (ofJson? : Json → Option α) (path : String) :
    Repeats [path] (readDocument schema ofJson? path) := by
  refine repeats_read.bind fun contents => ?_
  split
  · exact .pure _
  · exact .throw _

theorem readDocument_eq_ok {schema : Schema} {ofJson? : Json → Option α} {document : α} :
    outcome (readDocument schema ofJson? path) w = .ok document ↔
      ∃ contents, w.tree.read path = .ok contents ∧
        (Json.parseBytes? contents >>= ofJson?) = some document := by
  rw [readDocument, bind_eq_ok]
  constructor
  · intro h
    obtain ⟨contents, hread, h⟩ := h
    split at h
    · rename_i hdecoded
      obtain rfl := Except.ok.inj h
      exact ⟨contents, mapError_eq_ok.mp hread, hdecoded⟩
    · cases h
  · intro h
    obtain ⟨contents, hread, hdecoded⟩ := h
    refine ⟨contents, mapError_eq_ok.mpr hread, ?_⟩
    rw [hdecoded]
    rfl

theorem repeats_accept (schema : Schema) (path : String) (x : Except Fault α) :
    Repeats [] (accept schema path x) := by
  cases x with
  | ok a => exact .pure a
  | error fault => exact .throw _

theorem repeats_readTypes (path : String) : Repeats [path] (readTypes path) :=
  (repeats_readDocument _ _ path).bind fun _ => (repeats_accept _ _ _).mono (by simp)

theorem repeats_readFunctions (path : String) : Repeats [path] (readFunctions path) :=
  (repeats_readDocument _ _ path).bind fun _ => (repeats_accept _ _ _).mono (by simp)

theorem repeats_readSelection (path : String) : Repeats [path] (readSelection path) :=
  (repeats_readDocument _ _ path).bind fun _ => (repeats_accept _ _ _).mono (by simp)

theorem repeats_selectionFor (job : Job) (c : Catalog) :
    Repeats job.selection.toList (job.selectionFor c) := by
  unfold selectionFor
  cases job.selection with
  | none => exact .pure _
  | some path => exact repeats_readSelection path

theorem repeats_fillTemplate (job : Job) (source : String) :
    Repeats job.template.toList (job.fillTemplate source) := by
  unfold fillTemplate
  cases job.template with
  | none => exact .pure _
  | some path =>
    refine repeats_readText.bind fun template => ?_
    split
    · exact .pure _
    · exact .throw _

/-- The files that a job reads. -/
def inputPaths (job : Job) : List String :=
  job.types :: job.functions :: (job.selection.toList ++ job.template.toList)

theorem repeats_run (job : Job) : Repeats job.inputPaths job.run := by
  refine .bind ((repeats_readTypes _).mono ?_) fun c => .bind ((repeats_readFunctions _).mono ?_)
    fun signatures => .bind ((job.repeats_selectionFor c).mono ?_) fun s => ?_
  · simp [inputPaths]
  · simp [inputPaths]
  · intro path hpath
    simp [inputPaths, hpath]
  · split
    · exact .pure _
    · exact .throw _

end Job

end OverloadSuite
