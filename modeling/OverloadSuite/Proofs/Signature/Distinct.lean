import OverloadSuite.Proofs.FirstOccurrences
import OverloadSuite.Signature.Overload

/-!
# Overloads without repetitions

Of the overloads that are the same, the first one stays. What stays is said without the walk along
the list: which overloads, in which order, and what more overloads at the end change.
-/

namespace OverloadSuite.Overload

open FirstOccurrences

/-- Two overloads that are the same in everything that tells overloads apart. What their templates
say besides does not count. -/
structure Alike (a b : Overload) : Prop where
  scope : a.template.scope = b.template.scope
  name : a.template.name = b.template.name
  returnKey : a.returnType.key = b.returnType.key
  argKeys : (a.argTypes.map fun t => t.key) = b.argTypes.map fun t => t.key
  pointers : a.template.pointers = b.template.pointers

theorem alike_iff {a b : Overload} : a.Alike b ↔ a.identity = b.identity := by
  simp only [identity, Identity.mk.injEq, Overload.argKeys]
  constructor
  · rintro ⟨hscope, hname, hreturn, hargs, hpointers⟩
    exact ⟨hscope, hname, hreturn, hargs, hpointers⟩
  · rintro ⟨hscope, hname, hreturn, hargs, hpointers⟩
    exact ⟨hscope, hname, hreturn, hargs, hpointers⟩

theorem same_iff_alike {a b : Overload} : a.same b = true ↔ a.Alike b := by
  rw [alike_iff, same, beq_iff_eq]

instance (a b : Overload) : Decidable (a.Alike b) := decidable_of_iff _ same_iff_alike

theorem decide_alike (a b : Overload) : decide (a.Alike b) = a.same b := by
  rw [Bool.eq_iff_iff, decide_eq_true_iff, same_iff_alike]

theorem distinct_sublist (os : List Overload) : (distinct os).Sublist os := by
  rw [distinct_eq_eraseDupsBy]
  exact sublist_eraseDupsBy same os

/-- More overloads at the end do not change what stays of the earlier ones. -/
theorem distinct_prefix_append (os os' : List Overload) : distinct os <+: distinct (os ++ os') := by
  rw [distinct_eq_eraseDupsBy, distinct_eq_eraseDupsBy]
  exact prefix_eraseDupsBy_append same os os'

theorem map_identity_distinct (os : List Overload) :
    (distinct os).map identity = (os.map identity).eraseDups := by
  rw [distinct_eq_eraseDupsBy]
  exact map_eraseDupsBy identity os

theorem nodup_map_identity_distinct (os : List Overload) :
    ((distinct os).map identity).Nodup := by
  rw [map_identity_distinct]
  exact nodup_eraseDups _

theorem pairwise_distinct (os : List Overload) : (distinct os).Pairwise fun a b => ¬a.Alike b := by
  simp only [alike_iff]
  exact List.pairwise_map.mp (nodup_map_identity_distinct os)

/-- No overload is lost: one that is alike stays. -/
theorem exists_alike_distinct {o : Overload} {os : List Overload} :
    (∃ a ∈ distinct os, a.Alike o) ↔ ∃ a ∈ os, a.Alike o := by
  simp only [alike_iff, ← List.mem_map, map_identity_distinct, List.mem_eraseDups]

/-- Of the overloads that are alike, the first stays, and no other. -/
theorem filter_alike_distinct (o : Overload) (os : List Overload) :
    (distinct os).filter (fun a => a.Alike o) = (os.find? fun a => a.Alike o).toList := by
  simp only [decide_alike]
  rw [distinct_eq_eraseDupsBy]
  exact filter_eraseDupsBy identity o.identity os

/-- Overloads may be filtered by what is alike in them before or after repetitions are dropped. -/
theorem distinct_filter {p : Overload → Bool} (hp : ∀ a b, a.Alike b → p a = p b)
    (os : List Overload) : distinct (os.filter p) = (distinct os).filter p := by
  rw [distinct_eq_eraseDupsBy, distinct_eq_eraseDupsBy]
  exact eraseDupsBy_filter (fun a b h => hp b a (same_iff_alike.mp h)) os

theorem distinct_distinct (os : List Overload) : distinct (distinct os) = distinct os := by
  rw [distinct_eq_eraseDupsBy (distinct os)]
  exact eraseDupsBy_of_nodup identity (nodup_map_identity_distinct os)

end OverloadSuite.Overload
