import Mathlib.Logic.Relation
import OverloadSuite.Proofs.Workspace.Places

/-!
# What writing touches

Writing an output changes the place of its path and no other, but for the directories around it that
are not there before.
-/

namespace OverloadSuite

open Relation

/-- A directory is around a path if it is that of the path, or around its directory. -/
def Path.Around (outer path : String) : Prop :=
  TransGen (fun inner outer => parent? inner = some outer) path outer

namespace Tree

variable {t t' t'' : Tree} {path outer text : String} {paths outputs outputs' : List String}

/-- Directories are made one after the other, each at one of some paths. -/
def MakesDirectories (paths : String → Prop) : Tree → Tree → Prop :=
  ReflTransGen fun t t' => ∃ path, paths path ∧ t.makeDirectory path = .ok t'

/-- Between two trees only outputs and the directories around them differ: any other place is as it
was, or a directory around an output is now where nothing was. -/
structure Touches (outputs : List String) (t t' : Tree) : Prop where
  workingDirectory : t'.workingDirectory = t.workingDirectory
  node? : ∀ place, t'.node? place = t.node? place ∨
    (∃ path ∈ outputs, place = Path.place t.workingDirectory path) ∨
    t.node? place = none ∧ t'.node? place = some .directory ∧
      ∃ path ∈ outputs, ∃ outer, Path.Around outer path ∧
        place = Path.place t.workingDirectory outer

namespace Touches

theorem refl (t : Tree) : Touches outputs t t := ⟨rfl, fun _ => .inl rfl⟩

theorem trans (h : Touches outputs t t') (h' : Touches outputs t' t'') : Touches outputs t t'' where
  workingDirectory := h'.workingDirectory.trans h.workingDirectory
  node? place := by
    have hlater := h'.node? place
    rw [h.workingDirectory] at hlater
    rcases hlater with hsame' | houtput | ⟨hnone, hdirectory, haround⟩
    · rw [hsame']
      exact h.node? place
    · exact .inr (.inl houtput)
    · rcases h.node? place with hsame | houtput | ⟨-, hdirectory', -⟩
      · exact .inr (.inr ⟨hsame ▸ hnone, hdirectory, haround⟩)
      · exact .inr (.inl houtput)
      · rw [hnone] at hdirectory'
        cases hdirectory'

theorem mono (h : Touches outputs t t') (houtputs : outputs ⊆ outputs') :
    Touches outputs' t t' where
  workingDirectory := h.workingDirectory
  node? place := by
    rcases h.node? place with hsame | ⟨path, hpath, hplace⟩ | ⟨hnone, hdirectory, path, hpath, h⟩
    · exact .inl hsame
    · exact .inr (.inl ⟨path, houtputs hpath, hplace⟩)
    · exact .inr (.inr ⟨hnone, hdirectory, path, houtputs hpath, h⟩)

end Touches

/-- A node that is put somewhere leaves all other places as they are. -/
theorem node?_put_of_ne {location place : Location} (node : Node) (h : location ≠ place) :
    (t.put location node).node? place = t.node? place := by
  by_cases hroot : place = []
  · simp [hroot, Tree.node?]
  · rw [node?_put _ _ _ _ hroot, if_neg h]

theorem touches_write (h : t.write path text = .ok t') : Touches [path] t t' := by
  obtain ⟨place, name, htarget, -, -, rfl⟩ := write_eq_ok.mp h
  refine ⟨rfl, fun other => ?_⟩
  by_cases hother : place ++ [name] = other
  · exact .inr (.inl ⟨path, List.mem_cons_self, hother ▸ place_of_target htarget⟩)
  · exact .inl (node?_put_of_ne _ hother)

theorem touches_makeDirectory (h : t.makeDirectory outer = .ok t')
    (houter : Path.Around outer path) : Touches [path] t t' := by
  obtain ⟨place, name, hplace, hnone, rfl⟩ := makeDirectory_eq_ok h
  refine ⟨rfl, fun other => ?_⟩
  by_cases hother : place ++ [name] = other
  · subst hother
    refine .inr (.inr ⟨hnone, ?_, path, List.mem_cons_self, outer, houter, hplace⟩)
    rw [node?_put _ _ _ _ (by simp), if_pos rfl]
  · exact .inl (node?_put_of_ne _ hother)

theorem touches_makesDirectories (h : MakesDirectories (Path.Around · path) t t') :
    Touches [path] t t' := by
  induction h with
  | refl => exact .refl t
  | tail _ hstep ih =>
    obtain ⟨outer, houter, hmade⟩ := hstep
    exact ih.trans (touches_makeDirectory hmade houter)

/-- What was there before is there after directories have been made. -/
theorem keeps_makesDirectories {paths : String → Prop} (h : MakesDirectories paths t t') :
    Keeps [] t t' := by
  induction h with
  | refl => exact .refl t
  | tail _ hstep ih =>
    obtain ⟨outer, -, hmade⟩ := hstep
    exact ih.trans (keeps_makeDirectory hmade)

end Tree

end OverloadSuite
