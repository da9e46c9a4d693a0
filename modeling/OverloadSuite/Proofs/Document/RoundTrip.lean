import OverloadSuite.Document.Diagnostic
import OverloadSuite.Document.Functions
import OverloadSuite.Document.Report
import OverloadSuite.Document.Selection
import OverloadSuite.Document.Types
import OverloadSuite.Proofs.Json.Record

/-!
# Documents that are written and read

Every document is a record whose fields are written in the order in which they are read, and what is
left out of it is what its absence stands for.
-/

namespace OverloadSuite

open Json

namespace TypeEntry

/-- The fields of an entry. -/
def fieldValues (e : TypeEntry) : List (Option Json) := [
  some (ofString e.key), some (ofString e.name), some (ofString e.varType), e.baseType.map ofString,
  some (.natural e.dim.toNat), Codec.text.unlessEmpty e.children]

theorem toJson_eq_present (e : TypeEntry) : e.toJson = .object (present
    ["key", "name", "var_type", "base_type", "dim", "child_types"] e.fieldValues) := by
  obtain ⟨key, name, varType, baseType, dim, children⟩ := e
  cases baseType <;> cases children <;> rfl

/-- Entries of a type catalog. -/
def codec : Codec TypeEntry where
  read? := ofJson?
  write := toJson
  textual e := by
    rw [toJson_eq_present]
    refine textual_present ?_
    simp only [fieldValues, List.forall_mem_cons]
    exact ⟨Codec.text.textual_of_mem_write _, Codec.text.textual_of_mem_write _,
      Codec.text.textual_of_mem_write _, textual_of_mem_text _, Codec.word32.textual_of_mem_write _,
      Codec.text.textual_of_mem_unlessEmpty _, by simp⟩
  read?_write e := by
    have hdim : required? word32? (some (.natural e.dim.toNat)) = some e.dim :=
      Codec.word32.read?_write e.dim
    have hchildren : defaulted? [] (list? text?) (Codec.text.unlessEmpty e.children) =
        some e.children := Codec.text.defaulted?_unlessEmpty e.children
    rw [ofJson?, toJson_eq_present, fields?_present (by decide) rfl]
    simp [fieldValues, hdim, hchildren]

end TypeEntry

namespace TypesDocument

/-- The fields of a type catalog. -/
def fieldValues (d : TypesDocument) : List (Option Json) := [
  some (ofString d.schemaVersion), some (TypeEntry.codec.list.write d.types)]

theorem toJson_eq_present (d : TypesDocument) :
    d.toJson = .object (present ["schema_version", "types"] d.fieldValues) := rfl

/-- Type catalogs. -/
def codec : Codec TypesDocument where
  read? := ofJson?
  write := toJson
  textual d := by
    rw [toJson_eq_present]
    refine textual_present ?_
    simp only [fieldValues, List.forall_mem_cons]
    exact ⟨Codec.text.textual_of_mem_write _, TypeEntry.codec.list.textual_of_mem_write _, by simp⟩
  read?_write d := by
    have htypes : required? (list? TypeEntry.ofJson?) (some (TypeEntry.codec.list.write d.types)) =
        some d.types := TypeEntry.codec.list.read?_write d.types
    rw [ofJson?, toJson_eq_present, fields?_present (by decide) rfl]
    simp [fieldValues, htypes]

end TypesDocument

/-- Mutations, as arrays of three strings. -/
def Mutation.codec : Codec Mutation where
  read? := ofJson?
  write := toJson
  textual m := Codec.text.list.textual [m.base, m.derived, m.rule]
  read?_write _ := rfl

namespace FunctionRecord

/-- The fields of an entry. -/
def fieldValues (e : FunctionRecord) : List (Option Json) := [
  some (ofString e.scope), some (ofString e.name), some (ofString e.returnKey),
  some (ofStrings e.argKeys), Codec.word64.unlessEmpty e.pointers,
  Mutation.codec.unlessEmpty e.mutations, e.accuracy.map ofString, e.comment.map ofString,
  e.reference.map ofString]

theorem optionalMember_eq (name : String) (s : Option String) :
    optionalMember name s = ((s.map ofString).map (member name)).toList := by
  cases s <;> rfl

theorem listMember_eq {α : Type} (name : String) (c : Codec α) (as : List α) :
    listMember name (as.map c.write) = ((c.unlessEmpty as).map (member name)).toList := by
  cases as <;> rfl

theorem toJson_eq_present (e : FunctionRecord) :
    e.toJson = .object (present fieldNames e.fieldValues) := by
  have hpointers : listMember "pntr_indx" (e.pointers.map fun index => .natural index.toNat) = _ :=
    listMember_eq "pntr_indx" Codec.word64 e.pointers
  have hmutations : listMember "mutations" (e.mutations.map Mutation.toJson) = _ :=
    listMember_eq "mutations" Mutation.codec e.mutations
  simp only [toJson, fieldNames, fieldValues, present_cons, optionalMember_eq, hpointers,
    hmutations]
  simp [present]

/-- Entries of a function catalog. -/
def codec : Codec FunctionRecord where
  read? := ofJson?
  write := toJson
  textual e := by
    rw [toJson_eq_present]
    refine textual_present ?_
    simp only [fieldValues, List.forall_mem_cons]
    exact ⟨Codec.text.textual_of_mem_write _, Codec.text.textual_of_mem_write _,
      Codec.text.textual_of_mem_write _, Codec.text.list.textual_of_mem_write _,
      Codec.word64.textual_of_mem_unlessEmpty _, Mutation.codec.textual_of_mem_unlessEmpty _,
      textual_of_mem_text _, textual_of_mem_text _, textual_of_mem_text _, by simp⟩
  read?_write e := by
    have hscope : defaulted? defaultScope text? (some (ofString e.scope)) = some e.scope := rfl
    have harguments : required? (list? text?) (some (ofStrings e.argKeys)) = some e.argKeys :=
      Codec.text.list.read?_write e.argKeys
    have hpointers : defaulted? [] (list? word64?) (Codec.word64.unlessEmpty e.pointers) =
        some e.pointers := Codec.word64.defaulted?_unlessEmpty e.pointers
    have hmutations : defaulted? [] (list? Mutation.ofJson?)
        (Mutation.codec.unlessEmpty e.mutations) = some e.mutations :=
      Mutation.codec.defaulted?_unlessEmpty e.mutations
    rw [ofJson?, toJson_eq_present, fields?_present (by decide) rfl]
    simp [fieldValues, hscope, harguments, hpointers, hmutations]

end FunctionRecord

namespace FunctionsDocument

/-- The fields of a function catalog. -/
def fieldValues (d : FunctionsDocument) : List (Option Json) := [
  some (ofString d.schemaVersion), some (FunctionRecord.codec.list.write d.functions)]

theorem toJson_eq_present (d : FunctionsDocument) :
    d.toJson = .object (present ["schema_version", "functions"] d.fieldValues) := rfl

/-- Function catalogs. -/
def codec : Codec FunctionsDocument where
  read? := ofJson?
  write := toJson
  textual d := by
    rw [toJson_eq_present]
    refine textual_present ?_
    simp only [fieldValues, List.forall_mem_cons]
    exact ⟨Codec.text.textual_of_mem_write _, FunctionRecord.codec.list.textual_of_mem_write _,
      by simp⟩
  read?_write d := by
    have hfunctions : required? (list? FunctionRecord.ofJson?)
        (some (FunctionRecord.codec.list.write d.functions)) = some d.functions :=
      FunctionRecord.codec.list.read?_write d.functions
    rw [ofJson?, toJson_eq_present, fields?_present (by decide) rfl]
    simp [fieldValues, hfunctions]

end FunctionsDocument

namespace SelectionDocument

/-- The fields of a selection. -/
def fieldValues (d : SelectionDocument) : List (Option Json) := [
  some (ofString d.schemaVersion), some (ofStrings d.selection.varTypes.toList),
  some (ofStrings d.selection.baseTypes.toList),
  some (Codec.word32.list.write d.selection.dimensions.toList)]

theorem toJson_eq_present (d : SelectionDocument) :
    d.toJson = .object (present fieldNames d.fieldValues) := rfl

/-- Selections. The sets are read from their ascending lists. -/
def codec : Codec SelectionDocument where
  read? := ofJson?
  write := toJson
  textual d := by
    rw [toJson_eq_present]
    refine textual_present ?_
    simp only [fieldValues, List.forall_mem_cons]
    exact ⟨Codec.text.textual_of_mem_write _, Codec.text.list.textual_of_mem_write _,
      Codec.text.list.textual_of_mem_write _, Codec.word32.list.textual_of_mem_write _, by simp⟩
  read?_write d := by
    have htexts : ∀ ss : List String, required? (list? text?) (some (ofStrings ss)) = some ss :=
      Codec.text.list.read?_write
    have hdimensions : required? (list? word32?)
        (some (Codec.word32.list.write d.selection.dimensions.toList)) =
        some d.selection.dimensions.toList := Codec.word32.list.read?_write _
    rw [ofJson?, toJson_eq_present, fields?_present (by decide) rfl]
    simp [fieldValues, htexts, hdimensions, SortedSet.ofList_toList]

end SelectionDocument

theorem Finding.ofName?_name (code : Finding) : ofName? code.name = some code := by
  cases code <;> rfl

theorem Phase.ofName?_name (phase : Phase) : ofName? phase.name = some phase := by
  cases phase <;> rfl

theorem Severity.ofName?_name (severity : Severity) : ofName? severity.name = some severity := by
  cases severity <;> rfl

namespace Diagnostic

/-- The fields of a diagnostic. -/
def fieldValues (d : Diagnostic) : List (Option Json) := [
  some (ofString d.code.name), some (ofString d.phase.name), some (ofString d.severity.name),
  some (ofString d.message), some ((d.help.map ofString).getD .null)]

theorem toJson_eq_present (d : Diagnostic) : d.toJson = .object (present
    ["code", "phase", "severity", "message", "help"] d.fieldValues) := rfl

/-- Diagnostics. Help that there is none of is null. -/
def codec : Codec Diagnostic where
  read? := ofJson?
  write := toJson
  textual d := by
    have hhelp : ∀ value ∈ some ((d.help.map ofString).getD .null), value.Textual := by
      rintro value ⟨⟩
      cases d.help with
      | none => exact .null
      | some help => exact .string help
    rw [toJson_eq_present]
    refine textual_present ?_
    simp only [fieldValues, List.forall_mem_cons]
    exact ⟨Codec.text.textual_of_mem_write _, Codec.text.textual_of_mem_write _,
      Codec.text.textual_of_mem_write _, Codec.text.textual_of_mem_write _, hhelp, by simp⟩
  read?_write d := by
    have hname : ∀ name : String, required? choice? (some (ofString name)) = some name :=
      fun _ => rfl
    have hhelp : optional? text? (some ((d.help.map ofString).getD .null)) = some d.help := by
      cases d.help <;> rfl
    rw [ofJson?, toJson_eq_present, fields?_present (by decide) rfl]
    simp [fieldValues, hname, hhelp, Finding.ofName?_name, Phase.ofName?_name,
      Severity.ofName?_name]

end Diagnostic

/-- A report is determined by its text. -/
theorem Report.textual_toJson (r : Report) : r.toJson.Textual := by
  refine .object (by simp [member]) ?_
  simp only [List.forall_mem_cons, member]
  exact ⟨.string _, .string _, .natural _, .natural _, .natural _, .natural _,
    Diagnostic.codec.list.textual r.diagnostics, .string _, by simp⟩

/-- **Documents survive being written and read.** -/
theorem documents_survive : Survives TypesDocument.ofJson? TypesDocument.toJson ∧
    Survives FunctionsDocument.ofJson? FunctionsDocument.toJson ∧
    Survives SelectionDocument.ofJson? SelectionDocument.toJson ∧
    Survives Diagnostic.ofJson? Diagnostic.toJson :=
  ⟨TypesDocument.codec.survives, FunctionsDocument.codec.survives, SelectionDocument.codec.survives,
    Diagnostic.codec.survives⟩

end OverloadSuite
