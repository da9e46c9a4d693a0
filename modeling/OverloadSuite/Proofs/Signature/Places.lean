import OverloadSuite.Proofs.Signature.Odometer
import OverloadSuite.Proofs.Signature.Requirements

/-!
# Expansion by places

How the overloads of a signature come about when slots, leaves and types are addressed by their
places: every key is searched for among the keys of the slots, rows are filled place by place, and
an odometer runs through the leaves of the free slots. Whatever is looked up where nothing stands
ends the computation here. For a valid signature nothing is looked up in vain, and the overloads
are those of the expansion.
-/

namespace OverloadSuite

open Outcome Signature

namespace ByPlace

variable {slots : List (String × List TypeEntry)} {slot : String × List TypeEntry} {key : String}
  {x : TypeEntry} {row : List TypeEntry} {place pick : Nat} {picks : List Nat}

/-- The places of the free slots: those that do not hold exactly one leaf. -/
def freePlaces (slots : List (String × List TypeEntry)) : List Nat :=
  (List.range slots.length).filter fun place => slots[place]?.any (·.2.length != 1)

/-- The numbers of leaves of the free slots. -/
def freeCounts? (slots : List (String × List TypeEntry)) : Option (List Nat) :=
  (freePlaces slots).mapM fun place => slots[place]?.map (·.2.length)

/-- The row that takes one leaf of each free slot, and the only one of each other slot. -/
def singleRow? (slots : List (String × List TypeEntry)) (pick : Nat) : Option (List TypeEntry) :=
  slots.mapM fun slot => if slot.2.length = 1 then slot.2[0]? else slot.2[pick]?

/-- A row with the leaf that a slot holds at some position written to the place of the slot. -/
def write? (slots : List (String × List TypeEntry)) (row : List TypeEntry) (place pick : Nat) :
    Option (List TypeEntry) := do
  let slot ← slots[place]?
  let leaf ← slot.2[pick]?
  if place < row.length then some (row.set place leaf) else none

/-- A row with leaves written to several places, one after the other. -/
def writeAll? (slots : List (String × List TypeEntry)) (row : List TypeEntry)
    (picks : List (Nat × Nat)) : Option (List TypeEntry) :=
  picks.foldlM (fun row pick => write? slots row pick.1 pick.2) row

/-- The row of the first leaves, in which the picked leaves take the places of the free slots. -/
def jointRow? (slots : List (String × List TypeEntry)) (picks : List Nat) :
    Option (List TypeEntry) := do
  let row ← slots.mapM fun slot => slot.2[0]?
  writeAll? slots row ((freePlaces slots).zip picks)

/-- Whether the types at the places of the constraints may go together. -/
def permitted? (placed : List PlacedConstraint) (row : List TypeEntry) : Option Bool := do
  let verdicts ← placed.mapM fun c => do return c.rule.permits (← row[c.base]?) (← row[c.derived]?)
  return verdicts.all id

/-- The rows. One free slot varies alone; of two or more, the constraints decide. -/
def rows? (slots : List (String × List TypeEntry)) (placed : List PlacedConstraint) :
    Option (List (List TypeEntry)) :=
  match freePlaces slots with
  | [] => [0].mapM (singleRow? slots)
  | [place] => do
    let slot ← slots[place]?
    (List.range slot.2.length).mapM (singleRow? slots)
  | _ => do
    let picks ← Odometer.readings? (← freeCounts? slots)
    let rows ← picks.mapM (jointRow? slots)
    let verdicts ← rows.mapM (permitted? placed)
    return (rows.zip verdicts).filterMap fun (row, permitted) =>
      if permitted then some row else none

/-- A constraint on the places at which its two keys are found. -/
def place? (keys : List String) (c : Constraint) : Option PlacedConstraint := do
  return { base := ← keys.idxOf? c.base, derived := ← keys.idxOf? c.derived, rule := c.rule }

/-- The overloads of a signature. -/
def overloads? (f : Signature) (slots : List (String × List TypeEntry))
    (constraints : List Constraint) : Option (List Overload) := do
  let keys := slots.map (·.1)
  let placed ← constraints.mapM (place? keys)
  let rows ← rows? slots placed
  let returnPlace ← keys.idxOf? f.returnKey
  let argPlaces ← f.argKeys.mapM keys.idxOf?
  rows.mapM fun row => Expansion.overload? f returnPlace argPlaces row.toArray

/-! ## The free slots -/

theorem freePlaces_cons : freePlaces (slot :: slots) =
    if slot.2.length = 1 then (freePlaces slots).map (· + 1)
    else 0 :: (freePlaces slots).map (· + 1) := by
  rw [freePlaces, List.length_cons, List.range_succ_eq_map, List.filter_cons, List.filter_map]
  by_cases hone : slot.2.length = 1
  · simp [hone, freePlaces, Function.comp_def]
  · simp [hone, freePlaces, Function.comp_def]

/-- The numbers of leaves of the slots that are free. -/
def freeCounts (slots : List (String × List TypeEntry)) : List Nat :=
  (slots.map (·.2.length)).filter (· != 1)

theorem freeCounts_cons : freeCounts (slot :: slots) =
    if slot.2.length = 1 then freeCounts slots else slot.2.length :: freeCounts slots := by
  rw [freeCounts, List.map_cons, List.filter_cons]
  by_cases hone : slot.2.length = 1
  · simp [hone, freeCounts]
  · simp [hone, freeCounts]

theorem freeCounts?_eq (slots : List (String × List TypeEntry)) :
    freeCounts? slots = some (freeCounts slots) := by
  rw [freeCounts?]
  induction slots with
  | nil => rfl
  | cons slot slots ih =>
    -- the places of the other slots are one higher now, and what stands there is the same
    have hrest : ((freePlaces slots).map (· + 1)).mapM
        (fun place => (slot :: slots)[place]?.map (·.2.length)) = some (freeCounts slots) := by
      simpa [List.mapM_map, Function.comp_def] using ih
    rw [freePlaces_cons, freeCounts_cons]
    by_cases hone : slot.2.length = 1
    · rw [if_pos hone, if_pos hone, hrest]
    · rw [if_neg hone, if_neg hone, List.mapM_cons, hrest]
      rfl

/-! ## Rows -/

/-- The types of a binding, place by place. -/
def typesOf (b : Binding) : List TypeEntry := b.map (·.2)

theorem write?_cons : write? (slot :: slots) (x :: row) (place + 1) pick =
    (write? slots row place pick).map (x :: ·) := by
  simp only [write?, List.getElem?_cons_succ, List.length_cons, Nat.add_lt_add_iff_right,
    List.set_cons_succ]
  cases slots[place]? with
  | none => rfl
  | some slot =>
    cases hpick : slot.2[pick]? with
    | none => simp [hpick]
    | some leaf => by_cases h : place < row.length <;> simp [hpick, h]

/-- Behind the first place, the first slot and the first type play no part. -/
theorem writeAll?_map_succ (picks : List (Nat × Nat)) :
    writeAll? (slot :: slots) (x :: row) (picks.map (Prod.map (· + 1) id)) =
      (writeAll? slots row picks).map (x :: ·) := by
  induction picks generalizing row with
  | nil => rfl
  | cons pick picks ih =>
    show (write? (slot :: slots) (x :: row) (pick.1 + 1) pick.2).bind _ =
      ((write? slots row pick.1 pick.2).bind _).map _
    rw [write?_cons]
    cases write? slots row pick.1 pick.2 with
    | none => rfl
    | some row' => exact ih

theorem jointRow?_single (hone : slot.2 = [x]) :
    jointRow? (slot :: slots) picks = (jointRow? slots picks).map (x :: ·) := by
  simp only [jointRow?, List.mapM_cons, freePlaces_cons, hone, List.length_singleton, if_true,
    List.zip_map_left]
  cases slots.mapM fun slot => slot.2[0]? with
  | none => rfl
  | some row => exact writeAll?_map_succ _

theorem jointRow?_free (hfree : slot.2.length ≠ 1) (hpick : slot.2[pick]? = some x) :
    jointRow? (slot :: slots) (pick :: picks) = (jointRow? slots picks).map (x :: ·) := by
  obtain ⟨y, hy⟩ : ∃ y, slot.2[0]? = some y := by
    obtain ⟨hlt, -⟩ := List.getElem?_eq_some_iff.mp hpick
    exact ⟨_, List.getElem?_eq_getElem (by omega)⟩
  simp only [jointRow?, List.mapM_cons, freePlaces_cons, hfree, if_false, hy, List.zip_cons_cons,
    List.zip_map_left]
  cases slots.mapM fun slot => slot.2[0]? with
  | none => rfl
  | some row =>
    -- the picked leaf is written over the first one, before anything is written behind it
    have hwrite : write? (slot :: slots) (y :: row) 0 pick = some (x :: row) := by
      simp [write?, hpick]
    show (write? (slot :: slots) (y :: row) 0 pick).bind _ = _
    rw [hwrite]
    exact writeAll?_map_succ _

theorem singleRow?_cons (h : (if slot.2.length = 1 then slot.2[0]? else slot.2[pick]?) = some x) :
    singleRow? (slot :: slots) pick = (singleRow? slots pick).map (x :: ·) := by
  rw [singleRow?, List.mapM_cons, h]
  show (singleRow? slots pick).bind _ = _
  cases singleRow? slots pick <;> rfl

/-- Without free slots there is one row, whatever is picked. -/
theorem exists_all_eq_singleton (h : freeCounts slots = []) :
    ∃ b, Binding.all slots = [b] ∧ ∀ pick, singleRow? slots pick = some (typesOf b) := by
  induction slots with
  | nil => exact ⟨[], rfl, fun _ => rfl⟩
  | cons slot slots ih =>
    obtain ⟨key, leaves⟩ := slot
    rw [freeCounts_cons] at h
    split at h
    · rename_i hone
      obtain ⟨x, rfl⟩ := List.length_eq_one_iff.mp hone
      obtain ⟨b, hall, hrow⟩ := ih h
      refine ⟨(key, x) :: b, by simp [Binding.all_cons, hall], fun pick => ?_⟩
      rw [singleRow?_cons (x := x) rfl, hrow]
      rfl
    · cases h

/-- One free slot varies alone. -/
theorem forall₂_singleRow? {n : Nat} (h : freeCounts slots = [n]) :
    List.Forall₂ (fun pick b => singleRow? slots pick = some (typesOf b)) (List.range n)
      (Binding.all slots) := by
  induction slots with
  | nil => cases h
  | cons slot slots ih =>
    obtain ⟨key, leaves⟩ := slot
    rw [freeCounts_cons] at h
    split at h
    · rename_i hone
      obtain ⟨x, rfl⟩ := List.length_eq_one_iff.mp hone
      rw [Binding.all_cons, List.flatMap_singleton, List.forall₂_map_right_iff]
      refine (ih h).imp fun pick b hrow => ?_
      rw [singleRow?_cons (x := x) rfl, hrow]
      rfl
    · rename_i hfree
      obtain ⟨rfl, hrest⟩ := List.cons.inj h
      obtain ⟨b, hall, hrow⟩ := exists_all_eq_singleton hrest
      simp only [Binding.all_cons, hall, List.map_cons, List.map_nil, ← List.map_eq_flatMap,
        List.forall₂_map_right_iff]
      refine (forall₂_range leaves).imp fun pick t ht => ?_
      rw [singleRow?_cons (x := t) (by simpa [hfree] using ht), hrow]
      rfl

theorem all_eq_nil (hslot : slot ∈ slots) (hempty : slot.2 = []) : Binding.all slots = [] := by
  induction slots with
  | nil => cases hslot
  | cons slot' slots ih =>
    obtain ⟨key, leaves⟩ := slot'
    rw [Binding.all_cons]
    rcases List.mem_cons.mp hslot with rfl | hslot
    · rw [show leaves = [] from hempty, List.flatMap_nil]
    · simp [ih hslot]

/-- Two or more free slots vary jointly, the last one fastest. -/
theorem forall₂_jointRow? (hne : ∀ slot ∈ slots, slot.2 ≠ []) :
    List.Forall₂ (fun picks b => jointRow? slots picks = some (typesOf b))
      (choices (freeCounts slots)) (Binding.all slots) := by
  induction slots with
  | nil => exact .cons rfl .nil
  | cons slot slots ih =>
    obtain ⟨key, leaves⟩ := slot
    have ih := ih fun slot hslot => hne slot (List.mem_cons_of_mem _ hslot)
    rw [freeCounts_cons, Binding.all_cons]
    -- a slot with one leaf takes part in no pick; a free one is the slowest wheel
    split
    · rename_i hone
      obtain ⟨x, rfl⟩ := List.length_eq_one_iff.mp hone
      rw [List.flatMap_singleton, List.forall₂_map_right_iff]
      refine ih.imp fun picks b hrow => ?_
      rw [jointRow?_single rfl, hrow]
      rfl
    · rename_i hfree
      refine List.rel_flatMap (forall₂_range leaves) fun pick t ht => ?_
      refine List.rel_map (fun picks b hrow => ?_) ih
      rw [jointRow?_free hfree ht, hrow]
      rfl

/-- A slot without leaves leaves no rows, so that its first leaf is never asked for. -/
theorem mapM_jointRow? (slots : List (String × List TypeEntry)) :
    (choices (freeCounts slots)).mapM (jointRow? slots) =
      some ((Binding.all slots).map typesOf) := by
  by_cases hne : ∀ slot ∈ slots, slot.2 ≠ []
  · exact mapM_eq_some (List.forall₂_map_right_iff.mpr (forall₂_jointRow? hne))
  · obtain ⟨slot, hslot, hempty⟩ : ∃ slot ∈ slots, slot.2 = [] := by simpa using hne
    have hzero : 0 ∈ freeCounts slots :=
      List.mem_filter.mpr ⟨List.mem_map.mpr ⟨slot, hslot, by simp [hempty]⟩, rfl⟩
    rw [Odometer.choices_eq_nil hzero, all_eq_nil hslot hempty]
    rfl

theorem length_freePlaces (slots : List (String × List TypeEntry)) :
    (freePlaces slots).length = slots.countP (·.2.length != 1) := by
  induction slots with
  | nil => rfl
  | cons slot slots ih =>
    rw [freePlaces_cons, List.countP_cons]
    by_cases hone : slot.2.length = 1
    · simp [hone, ih]
    · simp [hone, ih]

/-! ## Lookups by key -/

theorem idxOf?_eq_some {keys : List String} (h : key ∈ keys) :
    keys.idxOf? key = some (keys.idxOf key) := by
  induction keys with
  | nil => cases h
  | cons key' keys ih =>
    rw [List.idxOf?_cons, List.idxOf_cons]
    by_cases heq : key' = key
    · simp [heq]
    · have hmem : key ∈ keys := (List.mem_cons.mp h).resolve_left (Ne.symm heq)
      simp [beq_eq_false_iff_ne.mpr heq, ih hmem]

variable {b : Binding} {f : Signature} {ds : List Constraint}

/-- The type that a binding binds to a key stands at the key's place. -/
theorem getElem?_typesOf (hb : b ∈ Binding.all slots) (key : String) :
    (typesOf b)[(slots.map (·.1)).idxOf key]? = b.lookup key := by
  rw [← Binding.keys_of_mem_all hb, ← Binding.getElem?_types_idxOf, Binding.types,
    List.getElem?_toArray, typesOf]

theorem exists_lookup (hb : b ∈ Binding.all slots) (hkey : key ∈ slots.map (·.1)) :
    ∃ t, b.lookup key = some t := by
  rw [← Binding.keys_of_mem_all hb] at hkey
  obtain ⟨slot, hslot, rfl⟩ := List.mem_map.mp hkey
  cases hlookup : b.lookup slot.1 with
  | some t => exact ⟨t, rfl⟩
  | none => exact absurd (List.lookup_eq_none_iff.mp hlookup slot hslot) (by simp)

theorem permitted?_eq (hds : ∀ d ∈ ds, d.base ∈ slots.map (·.1) ∧ d.derived ∈ slots.map (·.1))
    (hb : b ∈ Binding.all slots) :
    permitted? (ds.map (PlacedConstraint.ofKeys (slots.map (·.1)))) (typesOf b) =
      some (ds.all b.satisfies) := by
  have hverdicts : (ds.map (PlacedConstraint.ofKeys (slots.map (·.1)))).mapM
      (fun c => do
        return c.rule.permits (← (typesOf b)[c.base]?) (← (typesOf b)[c.derived]?) :
          _ → Option Bool) =
      some (ds.map b.satisfies) := by
    rw [List.mapM_map]
    refine mapM_eq_some (List.forall₂_map_right_iff.mpr (List.forall₂_same.mpr fun d hd => ?_))
    obtain ⟨base, hbase⟩ := exists_lookup hb (hds d hd).1
    obtain ⟨derived, hderived⟩ := exists_lookup hb (hds d hd).2
    simp [PlacedConstraint.ofKeys, getElem?_typesOf hb, Binding.satisfies, hbase, hderived]
  rw [permitted?, hverdicts]
  simp [List.all_map]

/-- **The rows by places are those of the bindings that remain.** -/
theorem rows?_eq (hds : ∀ d ∈ ds, d.base ∈ slots.map (·.1) ∧ d.derived ∈ slots.map (·.1)) :
    rows? slots (ds.map (PlacedConstraint.ofKeys (slots.map (·.1)))) =
      some ((Binding.remaining slots ds).map typesOf) := by
  have hlength := length_freePlaces slots
  have hcounts := freeCounts?_eq slots
  rw [freeCounts?] at hcounts
  rw [rows?, Binding.remaining, ← hlength]
  cases hfree : freePlaces slots with
  | nil =>
    have hnone : freeCounts slots = [] := by
      rw [hfree] at hcounts
      exact (Option.some.inj hcounts).symm
    obtain ⟨b, hall, hrow⟩ := exists_all_eq_singleton hnone
    simp [hall, hrow]
  | cons place places =>
    cases places with
    | nil =>
      -- one free slot, whose leaves are counted
      rw [hfree] at hcounts
      cases hslot : slots[place]? with
      | none => simp [hslot] at hcounts
      | some slot =>
        have hone : freeCounts slots = [slot.2.length] := by simpa [hslot, eq_comm] using hcounts
        show slots[place]?.bind (fun slot => (List.range slot.2.length).mapM (singleRow? slots)) = _
        rw [hslot]
        exact mapM_eq_some (List.forall₂_map_right_iff.mpr (forall₂_singleRow? hone))
    | cons place' places =>
      -- two or more: what the constraints say of a row is what they say of its binding
      have hverdicts : ((Binding.all slots).map typesOf).mapM
          (permitted? (ds.map (PlacedConstraint.ofKeys (slots.map (·.1))))) =
          some ((Binding.all slots).map fun b => ds.all b.satisfies) := by
        rw [List.mapM_map]
        exact mapM_eq_some (List.forall₂_map_right_iff.mpr
          (List.forall₂_same.mpr fun b hb => permitted?_eq hds hb))
      simp only [freeCounts?_eq, Odometer.readings?_eq_choices, mapM_jointRow?, hverdicts,
        Option.bind_eq_bind, Option.bind_some, Option.pure_def, List.zip_map', List.filterMap_map]
      rw [if_pos (by simp), ← List.filterMap_eq_map, List.filterMap_filter]
      rfl

/-- **Nothing is looked up in vain.** If there are slots for all keys of a signature and of its
constraints, the overloads by places are those of the expansion. -/
theorem overloads?_eq (hkeys : ∀ key ∈ f.keys, key ∈ slots.map (·.1))
    (hds : ∀ d ∈ ds, d.base ∈ slots.map (·.1) ∧ d.derived ∈ slots.map (·.1)) :
    overloads? f slots ds = some (Expansion.overloadsOf f slots ds) := by
  have hplaced : ds.mapM (place? (slots.map (·.1))) =
      some (ds.map (PlacedConstraint.ofKeys (slots.map (·.1)))) := by
    refine mapM_eq_some (List.forall₂_map_right_iff.mpr (List.forall₂_same.mpr fun d hd => ?_))
    simp [place?, idxOf?_eq_some (hds d hd).1, idxOf?_eq_some (hds d hd).2, PlacedConstraint.ofKeys]
  have hargs : f.argKeys.mapM (slots.map (·.1)).idxOf? =
      some (f.argKeys.map (slots.map (·.1)).idxOf) :=
    mapM_eq_some (List.forall₂_map_right_iff.mpr (List.forall₂_same.mpr fun key hkey =>
      idxOf?_eq_some (hkeys key (List.mem_append_left _ hkey))))
  have hreturn := idxOf?_eq_some (hkeys f.returnKey (by simp [keys]))
  have hoverloads : List.Forall₂ (fun b o => Expansion.overload? f
      ((slots.map (·.1)).idxOf f.returnKey) (f.argKeys.map (slots.map (·.1)).idxOf)
      (typesOf b).toArray = some o) (Binding.remaining slots ds)
      ((Binding.remaining slots ds).filterMap (Binding.overload? f)) := by
    refine forall₂_filterMap (R := fun b b' => b = b' ∧ b ∈ Binding.all slots)
      (List.forall₂_same.mpr fun b hb => ⟨rfl, Binding.mem_all_of_mem_remaining hb⟩) ?_
    rintro b _ ⟨rfl, hb⟩
    obtain ⟨returnType, argTypes, ho, -, -⟩ :=
      exists_overload?_eq_some fun key hkey => exists_lookup hb (hkeys key hkey)
    refine ⟨⟨f, returnType, argTypes⟩, ho, ?_⟩
    rw [← Binding.keys_of_mem_all hb, ← ho]
    exact Expansion.overload?_types f b
  simp only [overloads?, hplaced, rows?_eq hds, hreturn, hargs, Option.bind_eq_bind,
    Option.bind_some]
  rw [Expansion.overloadsOf_eq_filterMap_remaining, List.mapM_map]
  exact mapM_eq_some hoverloads

end ByPlace

namespace Expansion

variable {r : Resolution} {f : Signature}

/-- **A signature expands exactly if its requirements hold.** Otherwise the expansion stops at the
first one that does not hold. If they hold, every key that is searched for has a slot, and neither
a list of leaves nor a row is ever looked into past its end. -/
theorem ofSignature_stops_at_first_flaw (r : Resolution) (f : Signature) :
    ((∃ e, ofSignature r f = .ok e) ↔ ∀ q ∈ f.requirements r, q.holds) ∧
    (∀ fault, ofSignature r f = .error fault ↔
      Requirement.FirstBroken (f.requirements r) fault) ∧
    ∀ e, ofSignature r f = .ok e → ∃ slots constraints, Expansion.slots r f = .ok slots ∧
      f.constraints = .ok constraints ∧
      ByPlace.overloads? f slots constraints = some e.overloads := by
  refine ⟨(ofSignature_enforces r f).exists_eq_ok, ofSignature_enforces r f, fun e he => ?_⟩
  obtain ⟨_, constraints, slots, -, -, hconstraints, hslots, rfl⟩ := ofSignature_eq_ok.mp he
  have hkeys : ∀ key ∈ f.keys, key ∈ slots.map (·.1) := by
    intro key hkey
    simpa [slots_eq_map hslots] using mem_distinctKeys.mpr hkey
  refine ⟨slots, constraints, hslots, hconstraints, ByPlace.overloads?_eq hkeys fun d hd => ?_⟩
  obtain ⟨m, -, hm⟩ := exists_of_forall₂_right (constraints_eq_ok.mp hconstraints) hd
  obtain ⟨-, hbase, hderived, hbaseKey, hderivedKey⟩ := constraint_eq_ok.mp hm
  rw [hbase, hderived]
  exact ⟨hkeys _ hbaseKey, hkeys _ hderivedKey⟩

end Expansion

end OverloadSuite
