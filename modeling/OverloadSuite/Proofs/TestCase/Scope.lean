import OverloadSuite.Proofs.TestCase.Fragments
import OverloadSuite.Proofs.TestCase.Inputs
import Mathlib.Data.List.Nodup
import Std.Data.String.ToNat

/-!
# Scopes of a case

A case has two scopes, the statements before the call of the harness and the lambda with its
parameters. In each of them every name is declared once and before it is used. What is passed to the
harness after the lambda is declared before the call, and an argument that is declared in both
scopes has the same data in both.
-/

namespace OverloadSuite

/-! ## Statements one after the other -/

namespace Name

end Name

namespace Statement

variable {scope scope' : List Name} {s : Statement} {statements statements' : List Statement}

/-- The names that statements declare, in order. -/
def declaredIn (statements : List Statement) : List Name := statements.flatMap declares

/-- Each name that a statement uses is in scope, or a statement before it declares it. -/
def Closed (scope : List Name) (statements : List Statement) : Prop :=
  ∀ earlier s later, statements = earlier ++ s :: later →
    ∀ n ∈ s.uses, n ∈ scope ++ declaredIn earlier

theorem Closed.mono (h : Closed scope statements) (hscope : scope ⊆ scope') :
    Closed scope' statements := by
  intro earlier s later heq n hn
  rcases List.mem_append.mp (h earlier s later heq n hn) with hn | hn
  · exact List.mem_append_left _ (hscope hn)
  · exact List.mem_append_right _ hn

end Statement

namespace TestCase

open Statement

variable {c : TestCase} {a : Argument} {n : Name} {s : Statement}

variable {σ : Type} [WordSource σ] {w : σ} {id : UInt64} {o : Overload} {v : Variant}

end TestCase

end OverloadSuite
