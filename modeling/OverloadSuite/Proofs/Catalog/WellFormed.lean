import OverloadSuite.Proofs.Catalog.Graph
import OverloadSuite.Proofs.Outcome

/-!
# Well-formed catalogs

Which lists of entries make a catalog, and for which fault any other list is refused. Entries are
looked at one by one, first for their shape and then for their key; children are looked up only when
all entries are known, so that an entry may mention a later one.
-/

namespace OverloadSuite

namespace TypeEntry

variable {e : TypeEntry}

/-- The shape of a leaf: it has elements, an element type and no children. -/
def LeafShaped (e : TypeEntry) : Prop :=
  0 < e.dim ∧ (∃ base, e.baseType = some base) ∧ e.children = []

/-- The shape of a generic: it has no elements, no element type and at least one child. -/
def GenericShaped (e : TypeEntry) : Prop := e.dim = 0 ∧ e.baseType = none ∧ e.children ≠ []

/-- An entry that is shaped like a leaf or like a generic. -/
def WellShaped (e : TypeEntry) : Prop := e.LeafShaped ∨ e.GenericShaped

theorem dim_pos_iff : 0 < e.dim ↔ e.dim ≠ 0 := by
  rw [UInt32.lt_iff_toNat_lt, ne_eq, ← UInt32.toNat_inj]
  exact Nat.pos_iff_ne_zero

theorem malformation?_eq_none : e.malformation? = none ↔ e.WellShaped := by
  simp only [malformation?, isLeaf, WellShaped, LeafShaped, GenericShaped, dim_pos_iff]
  by_cases hdim : e.dim = 0
  · cases e.baseType <;> cases e.children <;> simp [hdim]
  · cases e.baseType <;> cases e.children <;> simp [hdim]

end TypeEntry

namespace Catalog

variable {entries before after : List TypeEntry} {e : TypeEntry} {fault : Fault}

/-- The key of some entry of a list. -/
def IsKeyOf (entries : List TypeEntry) (key : String) : Prop := ∃ e ∈ entries, e.key = key

/-- Entries that are well shaped and do not repeat the key of an earlier one. -/
structure Sound (entries : List TypeEntry) : Prop where
  shaped : ∀ e ∈ entries, e.WellShaped
  keys_nodup : (entries.map TypeEntry.key).Nodup

/-- Sound entries whose children are entries of the same list, earlier or later. -/
structure WellFormed (entries : List TypeEntry) : Prop extends Sound entries where
  closed : ∀ e ∈ entries, ∀ child ∈ e.children, IsKeyOf entries child

/-- What is wrong with an entry behind others: its shape or, if that is right, its key. -/
inductive Flaw (before : List TypeEntry) (e : TypeEntry) : Fault → Prop
  | malformed {malformation : Malformation} : e.malformation? = some malformation →
    Flaw before e (.malformedType e.key malformation)
  | duplicate : e.WellShaped → IsKeyOf before e.key → Flaw before e (.duplicateType e.key)

/-- The fault for which a list of entries is refused. It is that of the first entry with a flaw;
only if there is none, it is about the first unknown child of the first entry that has one. -/
inductive Refused (entries : List TypeEntry) : Fault → Prop
  | flawed {before after : List TypeEntry} {e : TypeEntry} {fault : Fault} :
    entries = before ++ e :: after → Sound before → Flaw before e fault → Refused entries fault
  | unknownChild {before after : List TypeEntry} {e : TypeEntry} {earlier later : List String}
      {child : String} :
    Sound entries → entries = before ++ e :: after →
      (∀ d ∈ before, ∀ c ∈ d.children, IsKeyOf entries c) →
      e.children = earlier ++ child :: later → (∀ c ∈ earlier, IsKeyOf entries c) →
      ¬IsKeyOf entries child → Refused entries (.unknownType child (.entry e.key))

theorem sound_nil : Sound [] := ⟨nofun, .nil⟩

theorem Sound.of_append (h : Sound (before ++ after)) : Sound before := by
  obtain ⟨hshaped, hnodup⟩ := h
  rw [List.map_append] at hnodup
  exact ⟨fun d hd => hshaped d (List.mem_append_left after hd), (List.nodup_append.mp hnodup).1⟩

theorem sound_append_singleton :
    Sound (before ++ [e]) ↔ Sound before ∧ e.WellShaped ∧ ¬IsKeyOf before e.key := by
  constructor
  · intro h
    have hnodup := h.keys_nodup
    rw [List.map_append, List.nodup_append] at hnodup
    refine ⟨h.of_append, h.shaped e (by simp), ?_⟩
    rintro ⟨d, hd, hkey⟩
    exact hnodup.2.2 _ (List.mem_map_of_mem hd) e.key (by simp) hkey
  · intro h
    obtain ⟨⟨hshaped, hnodup⟩, he, hnew⟩ := h
    refine ⟨?_, ?_⟩
    · simpa [or_imp, forall_and] using ⟨hshaped, he⟩
    · rw [List.map_append, List.nodup_append]
      refine ⟨hnodup, List.pairwise_singleton _ _, ?_⟩
      simpa [IsKeyOf] using hnew

/-- Sound entries go on being sound with the next one exactly if it has no flaw. -/
theorem sound_append_singleton_iff_flaw (h : Sound before) :
    Sound (before ++ [e]) ↔ ∀ fault, ¬Flaw before e fault := by
  rw [sound_append_singleton]
  constructor
  · intro h fault hflaw
    cases hflaw with
    | malformed hshape =>
      rw [TypeEntry.malformation?_eq_none.mpr h.2.1] at hshape
      cases hshape
    | duplicate _ hkey => exact h.2.2 hkey
  · intro hflaw
    have hshape : e.WellShaped := by
      rw [← TypeEntry.malformation?_eq_none, Option.eq_none_iff_forall_ne_some]
      exact fun malformation hm => hflaw _ (.malformed hm)
    exact ⟨h, hshape, fun hkey => hflaw _ (.duplicate hshape hkey)⟩

/-! ## The two checks -/

theorem exists_append_cons {P : List TypeEntry → TypeEntry → Prop} :
    (∃ between d rest, e :: after = between ++ d :: rest ∧ P between d) ↔
      P [] e ∨ ∃ between d rest, after = between ++ d :: rest ∧ P (e :: between) d := by
  constructor
  · rintro ⟨between, d, rest, heq, h⟩
    rcases List.cons_eq_append_iff.mp heq with ⟨rfl, heq⟩ | ⟨between, rfl, rfl⟩
    · obtain ⟨rfl, rfl⟩ := List.cons.inj heq
      exact .inl h
    · exact .inr ⟨between, d, rest, rfl, h⟩
  · rintro (h | ⟨between, d, rest, rfl, h⟩)
    · exact ⟨[], e, after, rfl, h⟩
    · exact ⟨e :: between, d, rest, rfl, h⟩

/-- One step of the check of the entries: a flaw ends it. -/
theorem entryFault?_cons {seen : Std.TreeSet String}
    (hseen : ∀ key, key ∈ seen ↔ IsKeyOf before key) :
    entryFault? seen (e :: after) = some fault ↔ Flaw before e fault ∨
      (∀ f, ¬Flaw before e f) ∧ entryFault? (seen.insert e.key) after = some fault := by
  rw [entryFault?]
  split
  · rename_i malformation hshape
    have hflaw : Flaw before e (.malformedType e.key malformation) := .malformed hshape
    constructor
    · rintro ⟨⟩
      exact .inl hflaw
    · rintro (h | ⟨hnone, -⟩)
      · cases h with
        | malformed hshape' => rw [← Option.some.inj (hshape.symm.trans hshape')]
        | duplicate hshape' _ =>
          rw [TypeEntry.malformation?_eq_none.mpr hshape'] at hshape
          cases hshape
      · exact absurd hflaw (hnone _)
  · rename_i hshape
    have hkey : seen.contains e.key = true ↔ IsKeyOf before e.key := by
      rw [Std.TreeSet.contains_iff_mem, hseen]
    have hflaw : ∀ f, Flaw before e f ↔ IsKeyOf before e.key ∧ f = .duplicateType e.key := by
      intro f
      constructor
      · rintro (hshape' | ⟨-, hrepeated⟩)
        · rw [hshape] at hshape'
          cases hshape'
        · exact ⟨hrepeated, rfl⟩
      · rintro ⟨hrepeated, rfl⟩
        exact .duplicate (TypeEntry.malformation?_eq_none.mp hshape) hrepeated
    simp only [hflaw]
    by_cases hrepeated : IsKeyOf before e.key
    · rw [if_pos (hkey.mpr hrepeated), Option.some.injEq]
      constructor
      · rintro rfl
        exact .inl ⟨hrepeated, rfl⟩
      · rintro (⟨-, rfl⟩ | ⟨hnone, -⟩)
        · rfl
        · exact absurd ⟨hrepeated, rfl⟩ (hnone _)
    · rw [if_neg (mt hkey.mp hrepeated)]
      simp only [hrepeated, false_and, not_false_eq_true, implies_true, true_and, false_or]

/-- The check of the entries stops at the first one with a flaw. The entries before those at hand
are sound, and their keys are the ones that have been seen. -/
theorem entryFault?_eq_some {seen : Std.TreeSet String} (hbefore : Sound before)
    (hseen : ∀ key, key ∈ seen ↔ IsKeyOf before key) :
    entryFault? seen after = some fault ↔
      ∃ between e rest, after = between ++ e :: rest ∧
        Sound (before ++ between) ∧ Flaw (before ++ between) e fault := by
  induction after generalizing before seen with
  | nil => simp [entryFault?]
  | cons e after ih =>
    rw [entryFault?_cons hseen, exists_append_cons, List.append_nil]
    refine or_congr (by simp [hbefore]) ?_
    rw [← sound_append_singleton_iff_flaw hbefore]
    -- the entry joins those before it, and its key those that have been seen
    by_cases hsound : Sound (before ++ [e])
    · have hseen' : ∀ key, key ∈ seen.insert e.key ↔ IsKeyOf (before ++ [e]) key := by
        intro key
        rw [Std.TreeSet.mem_insert, Std.compare_eq_iff_eq, hseen]
        simp [IsKeyOf, or_comm, or_and_right, exists_or]
      simp only [hsound, true_and, ih hsound hseen', List.append_assoc, List.singleton_append]
    · simp only [hsound, false_and, false_iff]
      rintro ⟨between, d, rest, -, hbetween, -⟩
      rw [List.append_cons] at hbetween
      exact hsound hbetween.of_append

theorem entryFault?_empty_eq_some : entryFault? ∅ entries = some fault ↔
    ∃ before e after, entries = before ++ e :: after ∧ Sound before ∧ Flaw before e fault := by
  simpa using entryFault?_eq_some sound_nil (by simp [IsKeyOf])

theorem entryFault?_empty_eq_none : entryFault? ∅ entries = none ↔ Sound entries := by
  constructor
  · intro h
    obtain ⟨hshaped, hnodup⟩ := entryFault?_eq_none h
    exact ⟨fun e he => TypeEntry.malformation?_eq_none.mp (hshaped e he).1, hnodup⟩
  · intro h
    rw [Option.eq_none_iff_forall_ne_some]
    intro fault hfault
    obtain ⟨before, e, after, rfl, hbefore, hflaw⟩ := entryFault?_empty_eq_some.mp hfault
    rw [List.append_cons] at h
    exact (sound_append_singleton_iff_flaw hbefore).mp h.of_append fault hflaw

/-- The check of the children stops at the first child that is no entry. -/
theorem childFault?_eq_some : childFault? (TypeEntry.indexOf entries) entries = some fault ↔
    ∃ before e after earlier child later, entries = before ++ e :: after ∧
      (∀ d ∈ before, ∀ c ∈ d.children, IsKeyOf entries c) ∧
      e.children = earlier ++ child :: later ∧ (∀ c ∈ earlier, IsKeyOf entries c) ∧
      ¬IsKeyOf entries child ∧ fault = .unknownType child (.entry e.key) := by
  have hunknown : ∀ c, (!(TypeEntry.indexOf entries).contains c) = true ↔ ¬IsKeyOf entries c := by
    intro c
    rw [Std.TreeMap.contains_eq_isSome_getElem?, TypeEntry.getElem?_indexOf]
    simp [IsKeyOf]
  have hknown : ∀ c, (!!(TypeEntry.indexOf entries).contains c) = true ↔ IsKeyOf entries c := by
    intro c
    rw [Bool.not_eq_true', ← Bool.not_eq_true, hunknown, Classical.not_not]
  rw [childFault?, List.findSome?_eq_some_iff]
  simp only [Option.map_eq_some_iff, Option.map_eq_none_iff, List.find?_eq_some_iff_append,
    List.find?_eq_none, hunknown, hknown, Classical.not_not]
  constructor
  · rintro ⟨before, e, after, hentries, ⟨child, ⟨hchild, earlier, later, hsplit, hearlier⟩, rfl⟩,
      hbefore⟩
    exact ⟨before, e, after, earlier, child, later, hentries, hbefore, hsplit, hearlier, hchild,
      rfl⟩
  · rintro ⟨before, e, after, earlier, child, later, hentries, hbefore, hsplit, hearlier, hchild,
      rfl⟩
    exact ⟨before, e, after, hentries, ⟨child, ⟨hchild, earlier, later, hsplit, hearlier⟩, rfl⟩,
      hbefore⟩

/-! ## The catalog of a list of entries -/

theorem ofList_eq_error : ofList entries = .error fault ↔ Refused entries fault := by
  have hcheck : ofList entries = .error fault ↔ entryFault? ∅ entries = some fault ∨
      entryFault? ∅ entries = none ∧
        childFault? (TypeEntry.indexOf entries) entries = some fault := by
    unfold ofList
    split
    · simp_all
    · dsimp only
      split <;> simp_all
  rw [hcheck, entryFault?_empty_eq_some, entryFault?_empty_eq_none, childFault?_eq_some]
  constructor
  · rintro (⟨before, e, after, hentries, hbefore, hflaw⟩ |
      ⟨hsound, before, e, after, earlier, child, later, hentries, hbefore, hsplit, hearlier,
        hchild, rfl⟩)
    · exact .flawed hentries hbefore hflaw
    · exact .unknownChild hsound hentries hbefore hsplit hearlier hchild
  · rintro (⟨hentries, hbefore, hflaw⟩ | ⟨hsound, hentries, hbefore, hsplit, hearlier, hchild⟩)
    · exact .inl ⟨_, _, _, hentries, hbefore, hflaw⟩
    · exact .inr ⟨hsound, _, _, _, _, _, _, hentries, hbefore, hsplit, hearlier, hchild, rfl⟩

theorem entries_of_ofList {c : Catalog} (h : ofList entries = .ok c) : c.entries = entries := by
  unfold ofList at h
  split at h
  · cases h
  · dsimp only at h
    split at h
    · cases h
    · exact congrArg Catalog.entries (Except.ok.inj h).symm

/-- The entries of a catalog are well formed: its fields say so. -/
theorem wellFormed_entries (c : Catalog) : WellFormed c.entries :=
  ⟨⟨fun e he => TypeEntry.malformation?_eq_none.mp (c.shaped e he), c.keys_nodup⟩, c.closed⟩

theorem WellFormed.not_refused (h : WellFormed entries) : ¬Refused entries fault := by
  intro hrefused
  cases hrefused with
  | flawed hentries hbefore hflaw =>
    have hsound := h.toSound
    rw [hentries, List.append_cons] at hsound
    exact (sound_append_singleton_iff_flaw hbefore).mp hsound.of_append fault hflaw
  | @unknownChild before after e earlier later child _ hentries _ hsplit _ hchild =>
    -- the list is closed, so that the child is a key of it after all
    have he : e ∈ entries := by simp [hentries]
    have hmem : child ∈ e.children := by simp [hsplit]
    exact hchild (h.closed e he child hmem)

/-- **Exactly the well-formed lists make a catalog.** The catalog holds the entries in their order
and finds each of them by its key. Any other list is refused for the first flaw of an entry and,
only if there is none, for the first unknown child. -/
theorem ofList_accepts_well_formed (entries : List TypeEntry) :
    ((∃ c, ofList entries = .ok c) ↔ WellFormed entries) ∧
    (∀ c, ofList entries = .ok c → c.entries = entries ∧
      (∀ key e, c.get? key = some e ↔ e ∈ entries ∧ e.key = key) ∧
      ∀ key, c.get? key = none ↔ ¬IsKeyOf entries key) ∧
    ∀ fault, ofList entries = .error fault ↔ Refused entries fault := by
  refine ⟨⟨?_, ?_⟩, ?_, fun fault => ofList_eq_error⟩
  · intro h
    obtain ⟨c, hc⟩ := h
    rw [← entries_of_ofList hc]
    exact c.wellFormed_entries
  · intro h
    rcases Outcome.ok_or_error (ofList entries) with hok | ⟨fault, herror⟩
    · exact hok
    · exact absurd (ofList_eq_error.mp herror) h.not_refused
  · intro c hc
    obtain rfl := entries_of_ofList hc
    refine ⟨rfl, fun key e => get?_eq_some, fun key => ?_⟩
    rw [get?_eq_none, keys, List.mem_map]
    rfl

end Catalog

end OverloadSuite
