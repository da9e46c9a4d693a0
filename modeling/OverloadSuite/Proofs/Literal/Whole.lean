import OverloadSuite.Proofs.Literal.Consumption
import OverloadSuite.Random.Ramp

/-!
# Literals of whole numbers

Whole numbers are drawn within the bounds of their class, however unfair the words are, and Booleans
are drawn without words. So the literals of other arguments, and where they leave the source, do not
depend on which Booleans stand between them.
-/

namespace OverloadSuite

namespace LiteralClass

/-- The least and the greatest number of a class of whole numbers. -/
def bounds? : LiteralClass → Option (Int × Int)
  | .char => some (0, 127)
  | .i8 => some (-128, 127)
  | .u8 => some (0, 255)
  | .i16 => some (-32768, 32767)
  | .u16 => some (0, 65535)
  | .i32 => some (-2147483648, 2147483647)
  | .u32 => some (0, 4294967295)
  | .i64 => some (-9223372036854775808, 9223372036854775807)
  | .u64 => some (0, 18446744073709551615)
  | .bool | .float => none

end LiteralClass

namespace Literal

variable {σ : Type} [WordSource σ] {w w' : σ} {low : Int} {count : UInt64} {cls : LiteralClass}
  {t : TypeEntry} {types : List TypeEntry}

/-! ## Rejection -/

/-- The greatest low half of a product that counts: the number of values moved up to the
highest bit, less one. -/
def zone (count : UInt64) : UInt64 :=
  count <<< UInt64.ofNat (63 - count.toNat.log2) - 1

/-- A number among `count` numbers from `low` on is drawn with rejection. Words are passed over
until the low half of the product with `count` is within the zone, and the high half of that
product is the index of the number. -/
inductive Samples (low : Int) (count : UInt64) : (passed : Nat) → σ → Int → σ → Prop where
  | accept {w : σ} (h : (WordSource.next64 w).1 * count ≤ zone count) :
      Samples low count 0 w
        (low + (((WordSource.next64 w).1.toNat * count.toNat) >>> 64 : Nat)) (WordSource.next64 w).2
  | pass {w w' : σ} {passed : Nat} {i : Int} (h : ¬ (WordSource.next64 w).1 * count ≤ zone count)
      (hrest : Samples low count passed (WordSource.next64 w).2 i w') :
      Samples low count (passed + 1) w i w'

/-- A power of two moved up to the highest bit is 2^63. -/
theorem zone_eq : ∀ k < 64, zone (UInt64.ofNat (Nat.pow 2 k)) = 0x7fffffffffffffff := by decide

theorem fair_iff {k : Nat} (hk : k < 64) (hcount : count = UInt64.ofNat (Nat.pow 2 k))
    (x : UInt64) : fair count x = true ↔ x * count ≤ zone count := by
  rw [fair, hcount, zone_eq k hk, decide_eq_true_iff, UInt64.lt_iff_toNat_lt,
    UInt64.le_iff_toNat_le]
  show _ < 0x8000000000000000 ↔ _ ≤ 0x7fffffffffffffff
  omega

theorem run_drawIndex_of_samples {k : Nat} (hk : k < 64)
    (hcount : count = UInt64.ofNat (Nat.pow 2 k)) {passed tries : Nat} {i : Int}
    (h : Samples low count passed w i w') (htries : passed ≤ tries) :
    ∃ index : Nat, (drawIndex count tries).run w = (index, w') ∧ i = low + index := by
  induction h generalizing tries with
  | @accept w hfair =>
    refine ⟨selected count (WordSource.next64 w).1, ?_, ?_⟩
    · cases tries with
      | zero => rfl
      | succ tries => rw [run_drawIndex_succ, if_pos ((fair_iff hk hcount _).mpr hfair)]
    · rw [selected, Nat.shiftRight_eq_div_pow]
  | @pass w w' passed i hunfair _ ih =>
    obtain ⟨tries, rfl⟩ : ∃ rest, tries = rest + 1 := Nat.exists_eq_add_one.mpr (by omega)
    obtain ⟨index, hindex, hi⟩ := ih (Nat.le_of_succ_le_succ htries)
    refine ⟨index, ?_, hi⟩
    rw [run_drawIndex_succ, if_neg (fun hfair => hunfair ((fair_iff hk hcount _).mp hfair)), hindex]

/-- Numbers are drawn with rejection as long as patience lasts. -/
theorem run_drawWhole_of_samples {k : Nat} (hk : k < 64)
    (hcount : count = UInt64.ofNat (Nat.pow 2 k)) {passed : Nat} {i : Int}
    (h : Samples low count passed w i w') (hpassed : passed ≤ patience) :
    (drawWhole low count).run w = (toString i, w') := by
  obtain ⟨index, hindex, rfl⟩ := run_drawIndex_of_samples hk hcount h hpassed
  show (toString (low + (((drawIndex count patience).run w).1 : Int)),
    ((drawIndex count patience).run w).2) = _
  rw [hindex]

/-! ## Bounds -/

/-- A literal of a class: `true`, or a whole number within the bounds in decimal. -/
inductive InRange : LiteralClass → String → Prop where
  | true : InRange .bool "true"
  | number {cls : LiteralClass} {low high i : Int} (hbounds : cls.bounds? = some (low, high))
      (hlow : low ≤ i) (hhigh : i ≤ high) : InRange cls (toString i)

theorem selected_lt (hcount : 0 < count.toNat) (x : UInt64) : selected count x < count.toNat := by
  refine Nat.div_lt_of_lt_mul ?_
  exact Nat.mul_lt_mul_of_pos_right x.toNat_lt_size hcount

theorem drawIndex_lt (hcount : 0 < count.toNat) (tries : Nat) (w : σ) :
    ((drawIndex count tries).run w).1 < count.toNat := by
  obtain ⟨x, hx⟩ := exists_drawIndex_eq_selected count tries w
  rw [hx]
  exact selected_lt hcount x

theorem inRange_drawWhole {high : Int} (hbounds : cls.bounds? = some (low, high))
    (hcount : low + count.toNat = high + 1) (hle : low ≤ high) (w : σ) :
    InRange cls ((drawWhole low count).run w).1 := by
  have hlt : ((drawIndex count patience).run w).1 < count.toNat :=
    drawIndex_lt (by omega) patience w
  show InRange cls (toString (low + (((drawIndex count patience).run w).1 : Int)))
  exact .number hbounds (by omega) (by omega)

/-- Every class but that of floating-point numbers draws literals within its bounds. -/
theorem inRange_draw (hcls : cls ≠ .float) (w : σ) : InRange cls ((draw cls).run w).1 := by
  cases cls with
  | bool => exact .true
  | float => exact absurd rfl hcls
  | char | i8 | u8 | i16 | u16 => exact inRange_drawWhole rfl (by decide) (by decide) w
  | i32 =>
    have hlow := (word32.run w).1.toInt32.le_toInt
    have hhigh := (word32.run w).1.toInt32.toInt_lt
    exact .number rfl (i := (word32.run w).1.toInt32.toInt) (by omega) (by omega)
  | u32 =>
    have hhigh := (word32.run w).1.toNat_lt
    exact .number rfl (i := (word32.run w).1.toNat) (by omega) (by omega)
  | i64 =>
    have hlow := (word64.run w).1.toInt64.le_toInt
    have hhigh := (word64.run w).1.toInt64.toInt_lt
    exact .number rfl (i := (word64.run w).1.toInt64.toInt) (by omega) (by omega)
  | u64 =>
    have hhigh := (word64.run w).1.toNat_lt
    exact .number rfl (i := (word64.run w).1.toNat) (by omega) (by omega)

/-! ## Booleans -/

/-- A Boolean type. -/
def isBoolean (t : TypeEntry) : Bool := LiteralClass.ofBase? t.base = some .bool

/-- A Boolean type or one of whole numbers. -/
def Whole (t : TypeEntry) : Prop := ∃ cls, LiteralClass.ofBase? t.base = some cls ∧ cls ≠ .float

/-- The types that are not Boolean, in order. -/
def withoutBooleans (types : List TypeEntry) : List TypeEntry := types.filter (!isBoolean ·)

/-- The literals of the arguments that are not Boolean, in order. -/
def inputsWithoutBooleans (types : List TypeEntry) (inputs : List (List String)) :
    List (List String) :=
  ((types.zip inputs).filter fun input => !isBoolean input.1).map Prod.snd

theorem drawMany_boolean (ht : isBoolean t = true) (count : Nat) :
    (drawMany t.base count : Draw σ _) = pure (List.replicate count "true") := by
  have hclass : LiteralClass.ofBase? t.base = some .bool := of_decide_eq_true ht
  rw [drawMany, hclass]
  induction count with
  | zero => rfl
  | succ count ih =>
    dsimp only at ih ⊢
    rw [List.replicate_succ, List.mapM_cons, ih]
    rfl

/-- Booleans can be left out of a draw, or put in anywhere. -/
theorem drawArguments_withoutBooleans (types : List TypeEntry) :
    (drawArguments (withoutBooleans types) : Draw σ _) =
      drawArguments types >>= fun inputs => pure (inputsWithoutBooleans types inputs) := by
  induction types with
  | nil => rfl
  | cons t types ih =>
    rw [drawArguments_cons]
    cases ht : isBoolean t with
    | true =>
      have hinputs : ∀ literals inputs, inputsWithoutBooleans (t :: types) (literals :: inputs) =
          inputsWithoutBooleans types inputs := fun _ _ => by simp [inputsWithoutBooleans, ht]
      have hfilter : withoutBooleans (t :: types) = withoutBooleans types := by
        simp [withoutBooleans, ht]
      rw [hfilter, ih, drawMany_boolean ht]
      simp [hinputs]
    | false =>
      have hinputs : ∀ literals inputs, inputsWithoutBooleans (t :: types) (literals :: inputs) =
          literals :: inputsWithoutBooleans types inputs := fun _ _ => by
        simp [inputsWithoutBooleans, ht]
      have hfilter : withoutBooleans (t :: types) = t :: withoutBooleans types := by
        simp [withoutBooleans, ht]
      rw [hfilter, drawArguments_cons, ih]
      simp [hinputs]

theorem inputsWithoutBooleans_of_drawArguments {inputs : List (List String)}
    (h : (drawArguments types : Draw σ _).outcome w = .ok inputs) :
    (drawArguments (withoutBooleans types) : Draw σ _).outcome w =
        .ok (inputsWithoutBooleans types inputs) ∧
      (drawArguments (withoutBooleans types) : Draw σ _).rest w =
        (drawArguments types : Draw σ _).rest w := by
  rw [drawArguments_withoutBooleans, Draw.rest_bind_pure]
  exact ⟨Draw.bind_eq_ok.mpr ⟨inputs, h, rfl⟩, rfl⟩

/-! ## Arguments -/

/-- The literals of an argument are as many as its type has elements, all of them in
the range of its class. -/
structure DrawnFor (t : TypeEntry) (literals : List String) : Prop where
  length : literals.length = t.dim.toNat
  inRange : ∃ cls, LiteralClass.ofBase? t.base = some cls ∧ ∀ s ∈ literals, InRange cls s

theorem drawnFor_of_drawMany {literals : List String} (ht : Whole t)
    (h : (drawMany t.base t.dim.toNat : Draw σ _).outcome w = .ok literals) :
    DrawnFor t literals := by
  refine ⟨length_of_drawMany h, ?_⟩
  obtain ⟨cls, hclass, hcls⟩ := ht
  refine ⟨cls, hclass, ?_⟩
  rw [drawMany, hclass] at h
  have hdraws : ∀ (cls : LiteralClass) (w : σ) (s : String),
      Draw.outcome (ExceptT.lift (draw cls)) w = .ok s → cls ≠ .float → InRange cls s := by
    intro cls w s hs hcls
    rw [Draw.outcome_lift] at hs
    rw [← Except.ok.inj hs]
    exact inRange_draw hcls w
  intro s hs
  obtain ⟨cls', hcls', hrange⟩ := Outcome.exists_of_forall₂_right
    (Draw.forall₂_of_mapM_eq_ok hdraws h) hs
  rw [List.eq_of_mem_replicate hcls'] at hrange
  exact hrange hcls

theorem exists_drawArguments_whole (htypes : ∀ t ∈ types, Whole t) (w : σ) :
    ∃ inputs, (drawArguments types : Draw σ _).outcome w = .ok inputs := by
  refine exists_drawArguments_eq_ok.mpr fun t ht => ?_
  obtain ⟨cls, hclass, -⟩ := htypes t ht
  rw [hclass]
  rfl

theorem forall₂_drawnFor {inputs : List (List String)} (htypes : ∀ t ∈ types, Whole t)
    (h : (drawArguments types : Draw σ _).outcome w = .ok inputs) :
    List.Forall₂ DrawnFor types inputs := by
  have hdraws : List.Forall₂ (fun t literals => Whole t → DrawnFor t literals) types inputs :=
    Draw.forall₂_of_mapM_eq_ok (fun _ _ _ h ht => drawnFor_of_drawMany ht h) h
  exact ((List.forall₂_and_left types inputs).mpr ⟨htypes, hdraws⟩).imp fun _ _ h => h.2 h.1

/-- **Literals of whole numbers have the right number and stay in range, and Booleans take
nothing.** Arguments of Boolean types and types of whole numbers can always be drawn; each gets a
literal for each element, within the bounds of its class. Arguments that differ in Booleans only
get the same literals besides and leave the source in the same state, and drawing a list of
arguments is drawing its first part and then the second. -/
theorem drawArguments_whole (htypes : ∀ t ∈ types, Whole t) (w : σ) : ∃ inputs,
    (drawArguments types : Draw σ _).outcome w = .ok inputs ∧
      List.Forall₂ DrawnFor types inputs ∧
      (∀ types', (∀ t ∈ types', Whole t) → withoutBooleans types' = withoutBooleans types →
        ∃ inputs', (drawArguments types' : Draw σ _).outcome w = .ok inputs' ∧
          inputsWithoutBooleans types' inputs' = inputsWithoutBooleans types inputs ∧
          (drawArguments types' : Draw σ _).rest w = (drawArguments types : Draw σ _).rest w) ∧
      ∀ first second, types = first ++ second → ∃ inputs₁ inputs₂, inputs = inputs₁ ++ inputs₂ ∧
        (drawArguments first : Draw σ _).outcome w = .ok inputs₁ ∧
        (drawArguments second : Draw σ _).outcome ((drawArguments first : Draw σ _).rest w) =
          .ok inputs₂ ∧
        (drawArguments types : Draw σ _).rest w =
          (drawArguments second : Draw σ _).rest ((drawArguments first : Draw σ _).rest w) := by
  obtain ⟨inputs, hinputs⟩ := exists_drawArguments_whole htypes w
  obtain ⟨houtcome, hrest⟩ := inputsWithoutBooleans_of_drawArguments hinputs
  refine ⟨inputs, hinputs, forall₂_drawnFor htypes hinputs, fun types' htypes' hsame => ?_,
    fun first second hsplit => ?_⟩
  · obtain ⟨inputs', hinputs'⟩ := exists_drawArguments_whole htypes' w
    obtain ⟨houtcome', hrest'⟩ := inputsWithoutBooleans_of_drawArguments hinputs'
    rw [hsame] at houtcome' hrest'
    exact ⟨inputs', hinputs', Except.ok.inj (houtcome'.symm.trans houtcome),
      hrest'.symm.trans hrest⟩
  · subst hsplit
    rw [drawArguments_append] at hinputs ⊢
    obtain ⟨inputs₁, hfirst, hinputs⟩ := Draw.bind_eq_ok.mp hinputs
    obtain ⟨inputs₂, hsecond, hinputs⟩ := Draw.bind_eq_ok.mp hinputs
    rw [Draw.rest_bind hfirst, Draw.rest_bind_pure]
    exact ⟨inputs₁, inputs₂, (Except.ok.inj hinputs).symm, hfirst, hsecond, rfl⟩

/-- Two Booleans, three small numbers and a large one. -/
def mixed : List TypeEntry :=
  [.leaf "bool2" "bool2" "marray" "bool" 2, .leaf "char3" "char3" "vec" "int8_t" 3,
    .leaf "ulong" "ulong" "scalar" "uint64_t" 1]

/-- The second and the fourth word are passed over, for their low halves are out of the zone. -/
theorem drawArguments_whole_mixed : (∀ t ∈ mixed, Whole t) ∧
    ∃ inputs, inputs = [["true", "true"], ["-128", "-47", "34"], ["14591662792680407040"]] ∧
      (drawArguments mixed : Draw Ramp _).outcome ⟨0, 0x2880000000000000⟩ = .ok inputs ∧
      List.Forall₂ DrawnFor mixed inputs := by
  have hwhole : ∀ t ∈ mixed, Whole t := by
    simp only [mixed, List.forall_mem_cons]
    exact ⟨⟨.bool, rfl, by decide⟩, ⟨.i8, rfl, by decide⟩, ⟨.u64, rfl, by decide⟩,
      List.forall_mem_nil _⟩
  have hvalue : (drawArguments mixed : Draw Ramp _).outcome ⟨0, 0x2880000000000000⟩ =
    .ok [["true", "true"], ["-128", "-47", "34"], ["14591662792680407040"]] := by decide +kernel
  obtain ⟨inputs, hinputs, hdrawn, -⟩ := drawArguments_whole hwhole (⟨0, 0x2880000000000000⟩ : Ramp)
  exact ⟨hwhole, inputs, Except.ok.inj (hinputs.symm.trans hvalue), hinputs, hdrawn⟩

end Literal

end OverloadSuite
