import OverloadSuite.Catalog.Resolution
import OverloadSuite.Digest.Sha256
import OverloadSuite.Random.KeyStream
import OverloadSuite.Signature.Expansion
import OverloadSuite.TestCase.Suite

/-!
A run: the type catalog is resolved, the wanted signatures are expanded, and a suite is drawn for
their overloads. A report sums a run up, with a digest of the emitted source.
-/
namespace OverloadSuite

/-- What is asked of a run besides its documents. Without function names every function is wanted;
a name may be qualified or not. -/
structure RunOptions where
  startId : UInt64
  check : Checking
  functions : List String
deriving DecidableEq, Repr

/-- A signature that a run is to cover. -/
def RunOptions.wants (o : RunOptions) (s : Signature) : Bool :=
  o.functions.isEmpty || o.functions.any fun f => f == s.name || f == s.qualifiedName

/-- What a run yields. The next id is the first one that it does not use. -/
structure Run where
  suite : Suite
  diagnostics : List Diagnostic
  overloadCount : Nat
  startId : UInt64
  nextId : UInt64
deriving DecidableEq, Repr

namespace Run

variable {σ : Type} [WordSource σ]

/-- The overloads that a run covers. -/
def expansion (c : Catalog) (signatures : List Signature) (s : Selection) (o : RunOptions) :
    Except Fault Expansion := do
  let resolution ← Resolution.ofCatalog c s
  Expansion.ofSignatures resolution (signatures.filter o.wants)

/-- A run that draws from a source of words. The next id is found without a check of its own: a
suite is drawn only if all its ids and the one behind them are in range, so the sum does not wrap
around, which `Run.ids_of_draw` states. -/
def draw (c : Catalog) (signatures : List Signature) (s : Selection) (o : RunOptions) :
    Draw σ Run := do
  let expansion ← liftExcept (expansion c signatures s o)
  let suite ← Suite.draw o.startId o.check expansion.overloads
  return { suite, diagnostics := expansion.diagnostics
           overloadCount := expansion.overloads.length, startId := o.startId
           nextId := o.startId + UInt64.ofNat suite.length }

/-- The run that draws from the key stream of all runs. -/
def generate (c : Catalog) (signatures : List Signature) (s : Selection) (o : RunOptions) :
    Except Fault Run :=
  (draw c signatures s o : Draw KeyStream Run).run KeyStream.ofRun |>.1

/-- The emitted source text of a run. -/
def source (r : Run) : String := r.suite.source

end Run

/-- The summary of a run. -/
structure Report where
  check : Checking
  overloadCount : Nat
  caseCount : Nat
  startId : UInt64
  nextId : UInt64
  diagnostics : List Diagnostic
  digest : String
deriving DecidableEq, Repr

/-- The report of a run in a check mode. -/
def Run.report (r : Run) (check : Checking) : Report where
  check
  overloadCount := r.overloadCount
  caseCount := r.suite.length
  startId := r.startId
  nextId := r.nextId
  diagnostics := r.diagnostics
  digest := Sha256.hex r.source.toUTF8

end OverloadSuite
