import OverloadSuite.Proofs.Run.Success

/-!
# The numbering of suites

A suite lists the blocks of its overloads one after the other and numbers them on from where it
starts, without gaps and without wrapping. The number after the last block must exist as well, so
the largest number of all is never given to a block.
-/

namespace OverloadSuite

/-! ## The blocks of a suite -/

/-- The blocks that test an overload, in order: the memory space and the decoration of each. -/
def Overload.blocks (check : Checking) (o : Overload) : List (Memory × Option Decoration) :=
  if o.template.pointers = [] then
    match check with
    | .plain => [(.privateSpace, none)]
    | .verified => [(.noPointer, none)]
  else
    [(.privateSpace, some .undecorated), (.privateSpace, some .decorated),
      (.localSpace, some .undecorated), (.localSpace, some .decorated),
      (.globalSpace, some .undecorated), (.globalSpace, some .decorated)]

theorem Overload.map_ofOverload (check : Checking) (o : Overload) :
    (Variant.ofOverload check o).map (fun v => (v.memory, v.decoration)) = o.blocks check := by
  by_cases hnone : o.template.pointers = []
  · cases check <;> simp [Variant.ofOverload, hasPointer, blocks, hnone]
  · simp [Variant.ofOverload, Variant.spaces, hasPointer, blocks, hnone]

/-- The overload of a case with its memory space and the decoration that is shown. -/
def TestCase.listing (c : TestCase) : Overload × Memory × Option Decoration :=
  (c.overload, c.variant.memory, c.shownDecoration)

namespace TestCase

variable {σ : Type} [WordSource σ] {w : σ} {check : Checking} {id : UInt64} {o : Overload}
  {v : Variant} {c : TestCase}

theorem decoration_of_mem_ofOverload (hv : v ∈ Variant.ofOverload check o)
    (hnone : o.hasPointer = false) : v.decoration = none := by
  cases check <;> simp_all [Variant.ofOverload]

/-- The decoration of a variant is shown: only overloads with a pointer have variants with one. -/
theorem listing_of_draw (hv : v ∈ Variant.ofOverload check o)
    (h : (draw id o v : Draw σ TestCase).outcome w = .ok c) :
    c.listing = (o, v.memory, v.decoration) := by
  obtain ⟨pointer, inputs, known, hchecked, -, -, rfl⟩ := draw_eq_ok.mp h
  obtain ⟨hpointer, -⟩ := checkedPointer_eq_ok.mp hchecked
  have hisSome : pointer.isSome = o.hasPointer := Signature.isSome_of_pointerIndex hpointer
  cases hhas : o.hasPointer with
  | true => simp [listing, shownDecoration, hisSome, hhas]
  | false => simp [listing, shownDecoration, hisSome, hhas, decoration_of_mem_ofOverload hv hhas]

end TestCase

namespace Suite

variable {σ : Type} [WordSource σ] {w : σ} {check : Checking} {start id : UInt64}
  {os : List Overload} {plan : List (Overload × Variant)} {suite : Suite}

/-- The blocks of some overloads, in their order. -/
def blocks (check : Checking) (os : List Overload) :
    List (Overload × Memory × Option Decoration) :=
  os.flatMap fun o => (o.blocks check).map (o, ·)

theorem map_plan (check : Checking) (os : List Overload) :
    (Suite.plan check os).map (fun (o, v) => (o, v.memory, v.decoration)) = blocks check os := by
  rw [Suite.plan, blocks, List.map_flatMap]
  congr 1
  funext o
  rw [← Overload.map_ofOverload, List.map_map, List.map_map]
  rfl

theorem length_blocks (check : Checking) (os : List Overload) :
    (blocks check os).length = (Suite.plan check os).length := by
  rw [← map_plan, List.length_map]

theorem mem_ofOverload_of_mem_plan :
    ∀ entry ∈ Suite.plan check os, entry.2 ∈ Variant.ofOverload check entry.1 := by
  intro entry hentry
  obtain ⟨o, -, hentry⟩ := List.mem_flatMap.mp hentry
  obtain ⟨v, hv, rfl⟩ := List.mem_map.mp hentry
  exact hv

/-! ## The loop over a plan -/

theorem map_listing_of_drawFrom (hplan : ∀ entry ∈ plan, entry.2 ∈ Variant.ofOverload check entry.1)
    (h : (drawFrom start id plan : Draw σ Suite).outcome w = .ok suite) :
    suite.map TestCase.listing = plan.map fun (o, v) => (o, v.memory, v.decoration) := by
  induction plan generalizing id w suite with
  | nil =>
    cases h
    rfl
  | cons entry plan ih =>
    obtain ⟨c, cs, hc, -, hcs, rfl⟩ := drawFrom_cons_eq_ok.mp h
    obtain ⟨hv, hplan⟩ := List.forall_mem_cons.mp hplan
    rw [List.map_cons, List.map_cons, TestCase.listing_of_draw hv hc, ih hplan hcs]

/-- The numbers of a suite are those from its first one on. -/
theorem ids_of_drawFrom (h : (drawFrom start id plan : Draw σ Suite).outcome w = .ok suite) :
    suite.map (·.id.toNat) = List.range' id.toNat suite.length := by
  induction plan generalizing id w suite with
  | nil =>
    cases h
    rfl
  | cons entry plan ih =>
    obtain ⟨c, cs, hc, hlast, hcs, rfl⟩ := drawFrom_cons_eq_ok.mp h
    obtain ⟨_, _, _, -, -, -, rfl⟩ := TestCase.draw_eq_ok.mp hc
    rw [List.map_cons, ih hcs, toNat_add_one hlast, List.length_cons, List.range'_succ]

theorem toNat_id_of_drawFrom (h : (drawFrom start id plan : Draw σ Suite).outcome w = .ok suite)
    {i : Nat} {c : TestCase} (hc : suite[i]? = some c) : c.id.toNat = id.toNat + i := by
  obtain ⟨hi, rfl⟩ := List.getElem?_eq_some_iff.mp hc
  have hid := congrArg (·[i]?) (ids_of_drawFrom h)
  simpa [hi] using hid

/-- Where every case can be made, only the numbers can run out; they do so for the suite as a
whole, whatever number the loop has reached. -/
theorem drawFrom_overflows (hplan : ∀ entry ∈ plan, TestCase.Drawable σ entry.1 entry.2)
    (hover : UInt64.size ≤ id.toNat + plan.length) :
    (drawFrom start id plan : Draw σ Suite).outcome w = .error (.idOverflow start) := by
  induction plan generalizing id w with
  | nil =>
    have hid : id.toNat < UInt64.size := id.toNat_lt_size
    simp only [List.length_nil] at hover
    omega
  | cons entry plan ih =>
    obtain ⟨hfirst, hplan⟩ := List.forall_mem_cons.mp hplan
    obtain ⟨c, hc⟩ := hfirst.exists_draw id w
    refine drawFrom_cons_eq_error.mpr (.inr ⟨c, hc, ?_⟩)
    rw [List.length_cons] at hover
    by_cases hlast : id.toNat + 1 < UInt64.size
    · exact .inr ⟨hlast, ih hplan (by rw [toNat_add_one hlast]; omega)⟩
    · exact .inl ⟨by omega, rfl⟩

end Suite

namespace Run

variable {σ : Type} [WordSource σ]

/-- **The blocks of a suite and their numbers.** A suite that is made lists the blocks of its
overloads in order, numbered on from its start without wrapping, and never with the largest number
there is. Where every case can be made on its own, the suite is made exactly if its start and the
number of its blocks add up to a number, and fails for want of numbers otherwise. A run makes the
suite of its overloads, and its next number is the first one after the suite. -/
theorem draw_numbers_blocks (start : UInt64) (check : Checking) (os : List Overload) (w : σ) :
    (∀ suite, (Suite.draw start check os : Draw σ Suite).outcome w = .ok suite →
      suite.map TestCase.listing = Suite.blocks check os ∧
      (∀ i c, suite[i]? = some c →
        c.id.toNat = start.toNat + i ∧ c.id.toNat + 1 < UInt64.size)) ∧
    ((∀ entry ∈ Suite.plan check os, TestCase.Drawable σ entry.1 entry.2) →
      ((∃ suite, (Suite.draw start check os : Draw σ Suite).outcome w = .ok suite) ↔
        start.toNat + (Suite.blocks check os).length < UInt64.size) ∧
      ((Suite.draw start check os : Draw σ Suite).outcome w = .error (.idOverflow start) ↔
        UInt64.size ≤ start.toNat + (Suite.blocks check os).length)) ∧
    (∀ c signatures s o run, (draw c signatures s o : Draw σ Run).outcome w = .ok run →
      ∃ x, expansion c signatures s o = .ok x ∧
        (Suite.draw o.startId o.check x.overloads : Draw σ Suite).outcome w = .ok run.suite ∧
        run.nextId.toNat = o.startId.toNat + run.suite.length) := by
  refine ⟨fun suite h => ⟨?_, fun i c hc => ?_⟩, fun hdrawable => ⟨?_, ?_⟩,
    fun c signatures s o run h => ?_⟩
  · rw [← Suite.map_plan]
    exact Suite.map_listing_of_drawFrom Suite.mem_ofOverload_of_mem_plan h
  · obtain ⟨-, hlast⟩ := Suite.exists_drawFrom_eq_ok.mp ⟨suite, h⟩
    obtain ⟨hi, rfl⟩ := List.getElem?_eq_some_iff.mp hc
    have hid : suite[i].id.toNat = start.toNat + i := by
      have hids := congrArg (·[i]?) (Suite.ids_of_drawFrom h)
      simpa [hi] using hids
    rw [← Suite.length_of_drawFrom h] at hlast
    exact ⟨hid, by omega⟩
  · rw [Suite.draw, Suite.exists_drawFrom_eq_ok, Suite.length_blocks]
    exact and_iff_right hdrawable
  · rw [Suite.length_blocks]
    constructor
    · intro h
      by_contra hlast
      obtain ⟨suite, hok⟩ :
          ∃ suite, (Suite.draw start check os : Draw σ Suite).outcome w = .ok suite :=
        Suite.exists_drawFrom_eq_ok.mpr ⟨hdrawable, Nat.not_le.mp hlast⟩
      rw [hok] at h
      cases h
    · exact Suite.drawFrom_overflows hdrawable
  · obtain ⟨x, suite, hx, hsuite, rfl⟩ := draw_eq_ok.mp h
    obtain ⟨-, hlast⟩ := Suite.exists_drawFrom_eq_ok.mp ⟨suite, hsuite⟩
    rw [← Suite.length_of_drawFrom hsuite] at hlast
    exact ⟨x, hx, hsuite, Suite.toNat_add_ofNat hlast⟩

/-- Seven blocks end just below the largest number; one further on they do not fit. -/
theorem draw_numbers_last_blocks :
    (∃ suite, (Suite.draw 18446744073709551608 .verified [.sin, .fract] : Draw Ramp Suite).outcome
        ⟨0, 1⟩ = .ok suite ∧
      ∃ c, suite[6]? = some c ∧ c.id = 18446744073709551614 ∧
        c.listing = (.fract, .globalSpace, some .decorated)) ∧
    (Suite.draw 18446744073709551609 .verified [.sin, .fract] : Draw Ramp Suite).outcome ⟨0, 1⟩ =
      .error (.idOverflow 18446744073709551609) := by
  have hdrawable := Overload.drawable_of_mem_plan .verified
  obtain ⟨hmade, hlast, -⟩ :=
    draw_numbers_blocks 18446744073709551608 .verified [.sin, .fract] (⟨0, 1⟩ : Ramp)
  obtain ⟨-, hover, -⟩ :=
    draw_numbers_blocks 18446744073709551609 .verified [.sin, .fract] (⟨0, 1⟩ : Ramp)
  obtain ⟨suite, hsuite⟩ := (hlast hdrawable).1.mpr (by decide)
  obtain ⟨hlisting, hids⟩ := hmade suite hsuite
  have hlen : suite.length = 7 := by
    rw [← List.length_map TestCase.listing, hlisting]
    rfl
  have hc : suite[6]? = some suite[6] := List.getElem?_eq_getElem (by omega)
  have hblock :
      (suite.map TestCase.listing)[6]? = some (.fract, .globalSpace, some .decorated) := by
    rw [hlisting]
    rfl
  refine ⟨⟨suite, hsuite, suite[6], hc, ?_, by simpa [hc] using hblock⟩, ?_⟩
  · exact UInt64.toNat_inj.mp (hids 6 _ hc).1
  · exact (hover hdrawable).2.mpr (by decide)

end Run

end OverloadSuite
