import Mathlib.Logic.Relation
import OverloadSuite.Proofs.Literal.Draw
import OverloadSuite.Random.Ramp
import OverloadSuite.Run

/-!
# What a run does to its source

A run takes words from its source, one after the other, and does nothing else to it. So
it leaves the key stream, and every ramp, where some further words have been dropped,
whether it succeeds or not.
-/

namespace OverloadSuite

open Relation

section Sources

variable {σ α β : Type} [WordSource σ]

/-- From the one state of a source to the other by taking words. -/
def WordSource.Leads : σ → σ → Prop :=
  ReflTransGen fun w w' => w' = (next32 w).2 ∨ w' = (next64 w).2

/-- A computation takes words from the source, and that is all that it does to it. -/
def TakesWords (x : StateM σ α) : Prop := ∀ w, WordSource.Leads w (x.run w).2

namespace TakesWords

theorem pure (a : α) : TakesWords (Pure.pure a : StateM σ α) := fun _ => .refl

theorem bind {x : StateM σ α} {f : α → StateM σ β} (hx : TakesWords x)
    (hf : ∀ a, TakesWords (f a)) : TakesWords (x >>= f) :=
  fun w => (hx w).trans (hf (x.run w).1 (x.run w).2)

theorem word32 : TakesWords (Literal.word32 : StateM σ UInt32) := fun _ => .single (.inl rfl)

theorem word64 : TakesWords (Literal.word64 : StateM σ UInt64) := fun _ => .single (.inr rfl)

end TakesWords

/-! ## Draws -/

/-- A draw takes words from its source whatever comes of it. -/
def Draw.TakesWords (d : Draw σ α) : Prop := ∀ w, WordSource.Leads w (d.rest w)

namespace Draw.TakesWords

theorem pure (a : α) : TakesWords (Pure.pure a : Draw σ α) := fun _ => .refl

theorem throw (fault : Fault) : TakesWords (MonadExcept.throw fault : Draw σ α) := fun _ => .refl

theorem ofExcept (x : Except Fault α) : TakesWords (liftExcept x : Draw σ α) := by
  intro w
  rw [rest_liftExcept]
  exact .refl

theorem lift {x : StateM σ α} (hx : OverloadSuite.TakesWords x) :
    TakesWords (ExceptT.lift x : Draw σ α) := fun w => hx w

theorem bind {d : Draw σ α} {f : α → Draw σ β} (hd : TakesWords d)
    (hf : ∀ a, TakesWords (f a)) : TakesWords (d >>= f) := by
  intro w
  cases h : d.outcome w with
  | ok a =>
    rw [rest_bind h]
    exact (hd w).trans (hf a (d.rest w))
  | error fault =>
    rw [rest_bind_error h]
    exact hd w

theorem mapM {f : α → Draw σ β} (hf : ∀ a, TakesWords (f a)) (as : List α) :
    TakesWords (as.mapM f) := by
  induction as with
  | nil => exact .pure []
  | cons a as ih =>
    rw [List.mapM_cons]
    exact (hf a).bind fun b => ih.bind fun bs => .pure (b :: bs)

end Draw.TakesWords

/-! ## Literals, cases and suites -/

theorem Literal.takesWords_drawIndex (count : UInt64) (tries : Nat) :
    TakesWords (drawIndex count tries : StateM σ Nat) := by
  induction tries with
  | zero => exact TakesWords.word64.bind fun w => .pure _
  | succ tries ih =>
    refine TakesWords.word64.bind fun w => ?_
    split
    · exact .pure _
    · exact ih

theorem Literal.takesWords_draw (cls : LiteralClass) :
    TakesWords (draw cls : StateM σ String) := by
  cases cls with
  | bool => exact .pure _
  | float | i64 | u64 => exact TakesWords.word64.bind fun w => .pure _
  | i32 | u32 => exact TakesWords.word32.bind fun w => .pure _
  | char | i8 | u8 | i16 | u16 => exact (takesWords_drawIndex _ _).bind fun index => .pure _

theorem Literal.takesWords_drawArguments (types : List TypeEntry) :
    Draw.TakesWords (drawArguments types : Draw σ _) := by
  refine .mapM (fun t => ?_) types
  unfold drawMany
  split
  · exact .mapM (fun cls => .lift (takesWords_draw cls)) _
  · exact .throw _

theorem TestCase.takesWords_draw (id : UInt64) (o : Overload) (v : Variant) :
    Draw.TakesWords (draw id o v : Draw σ TestCase) := by
  refine .bind (.ofExcept _) fun pointer =>
    .bind (Literal.takesWords_drawArguments _) fun inputs => ?_
  dsimp only
  split
  · exact .bind (.ofExcept _) fun known => .pure _
  · exact .pure _

theorem Suite.takesWords_drawFrom (start id : UInt64) (plan : List (Overload × Variant)) :
    Draw.TakesWords (drawFrom start id plan : Draw σ Suite) := by
  induction plan generalizing id with
  | nil => exact .pure _
  | cons entry plan ih =>
    exact (TestCase.takesWords_draw id entry.1 entry.2).bind fun c =>
      (Draw.TakesWords.ofExcept _).bind fun id => (ih id).bind fun cs => .pure _

/-- **A run takes words from its source and does nothing else to it.** -/
theorem Run.takesWords_draw (c : Catalog) (signatures : List Signature) (s : Selection)
    (o : RunOptions) : Draw.TakesWords (draw c signatures s o : Draw σ Run) :=
  (Draw.TakesWords.ofExcept _).bind fun _ =>
    (Suite.takesWords_drawFrom _ _ _).bind fun _ => .pure _

end Sources

/-! ## Words that are dropped -/

/-- Where each word moves a source on by some of the words that are dropped, taking
words is dropping them. -/
theorem exists_drop_of_leads {σ : Type} [WordSource σ] {drop : σ → Nat → σ} {w w' : σ}
    (hzero : drop w 0 = w)
    (hnext32 : ∀ count, ∃ count', (WordSource.next32 (drop w count)).2 = drop w count')
    (hnext64 : ∀ count, ∃ count', (WordSource.next64 (drop w count)).2 = drop w count')
    (h : WordSource.Leads w w') : ∃ count, w' = drop w count := by
  induction h with
  | refl => exact ⟨0, hzero.symm⟩
  | tail _ hstep ih =>
    obtain ⟨count, rfl⟩ := ih
    rcases hstep with rfl | rfl
    · exact hnext32 count
    · exact hnext64 count

/-- Taking words from the key stream is dropping them. -/
theorem KeyStream.leads_iff {s s' : KeyStream} :
    WordSource.Leads s s' ↔ ∃ count, s' = s.drop count := by
  constructor
  · refine exists_drop_of_leads (drop_eq_repeat s 0) (fun count => ⟨count + 1, ?_⟩)
      fun count => ⟨count + 1 + 1, ?_⟩
    · exact next32_snd_drop s count
    · show (s.drop count).next32.2.next32.2 = _
      rw [next32_snd_drop, next32_snd_drop]
  · rintro ⟨count, rfl⟩
    rw [drop_eq_repeat]
    induction count with
    | zero => exact .refl
    | succ count ih => exact ih.tail (.inl rfl)

theorem Ramp.leads_iff {r r' : Ramp} : WordSource.Leads r r' ↔ ∃ count, r' = r.drop count := by
  have hzero : r.drop 0 = r := by simp [drop]
  constructor
  · refine exists_drop_of_leads hzero (fun count => ⟨count + 1, ?_⟩) fun count => ⟨count + 1, ?_⟩
    · exact next32_snd_drop r count
    · exact next32_snd_drop r count
  · rintro ⟨count, rfl⟩
    induction count with
    | zero =>
      rw [hzero]
      exact .refl
    | succ count ih => exact ih.tail (.inl (next32_snd_drop r count).symm)

/-- **A run leaves the key stream where some further words begin**, whatever comes of it. -/
theorem Run.exists_rest_draw_eq_drop (c : Catalog) (signatures : List Signature) (s : Selection)
    (o : RunOptions) (stream : KeyStream) :
    ∃ count, (draw c signatures s o : Draw KeyStream Run).rest stream = stream.drop count :=
  KeyStream.leads_iff.mp (takesWords_draw c signatures s o stream)

end OverloadSuite
