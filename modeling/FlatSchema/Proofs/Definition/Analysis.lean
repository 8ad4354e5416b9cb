import FlatSchema.Definition.Analysis
import FlatSchema.Proofs.Definition.Reports

/-!
What a schema resolves to. Every declaration gives what it gives by itself; the one thing it takes
from the others is the namespace of the last namespace declaration before it.

        table A { hp: int; }                A
        namespace N;                                       namespace N
        table B { hp: int; hp: int; }       N.B            error[B]: duplicate field `hp`
        enum C: int { Red }                 N.C
        file_identifier "ABC";                             error: not four characters

Reports come declaration by declaration, and no scope stays open.
-/

namespace FlatSchema

/-- Items with those before them, when `before` comes before the row. -/
def placedBehind {α : Type} (before : List α) : List α → List (List α × α)
  | [] => []
  | a :: rest => (before, a) :: placedBehind (before ++ [a]) rest

/-- Items with those before them. -/
def placed {α : Type} (items : List α) : List (List α × α) := placedBehind [] items

theorem placedBehind_append {α : Type} (before as bs : List α) :
    placedBehind before (as ++ bs) = placedBehind before as ++ placedBehind (before ++ as) bs := by
  induction as generalizing before with
  | nil => rw [List.nil_append, List.append_nil, placedBehind, List.nil_append]
  | cons a as ih =>
    rw [List.cons_append, placedBehind, placedBehind, ih, List.append_assoc, List.singleton_append,
      List.cons_append]

@[simp] theorem placed_concat {α : Type} (items : List α) (a : α) :
    placed (items ++ [a]) = placed items ++ [(items, a)] := by
  rw [placed, placedBehind_append]
  rfl

/-- Items that repeat another are found among the items with those before them. -/
theorem repeatsFrom_eq {α κ : Type} [BEq κ] (key : α → Option κ) (before items : List α) :
    repeatsFrom key before items = (placedBehind before items).filterMap fun (earlier, a) =>
      ((key a).bind fun k => earlier.find? fun b => key b == some k).map fun b => (a, b) := by
  induction items generalizing before with
  | nil => rfl
  | cons a rest ih =>
    rw [repeatsFrom, placedBehind, List.filterMap_cons, ih]
    cases h : (key a).bind fun k => before.find? fun b => key b == some k with
    | none => simp only [h, Option.map_none, Option.toList_none, List.nil_append]
    | some b => simp only [h, Option.map_some, Option.toList_some, List.singleton_append]

/-- The texts of the directives of one kind among some declarations. -/
def Directive.texts (kind : Directive) (ds : List Declaration) : List String :=
  ds.filterMap fun
    | .directive k value _ => if k = kind then some value else none
    | _ => none

/-- The namespace that holds behind some declarations, that of the last namespace declaration. -/
def namespaceBehind (ds : List Declaration) : Option String :=
  (Directive.namespacePath.texts ds).getLast?

namespace TypeDecl

/-- The reports on the fields, each field by itself, in the scope of the type and the field. -/
def fieldErrors (decl : TypeDecl) : List Diagnostic :=
  decl.fields.flatMap fun f => (f.analyze {}).2.diagnostics.map fun d =>
    { d with scope := [decl.name, f.name.text] }

/-- One error for each field with the name of a field before it. -/
def nameErrors (decl : TypeDecl) : List Diagnostic :=
  (placed decl.fields).filterMap fun (before, f) =>
    (before.find? fun g => g.name.text = f.name.text).map fun g =>
      { severity := .error
        message := s!"duplicate field `{f.name.text}` in {decl.kind.word} `{decl.name}`"
        span := some f.name.span
        scope := [decl.name]
        related := [⟨g.name.span, "first declared here"⟩] }

/-- One error for each field with the index of a field before it. -/
def indexErrors (decl : TypeDecl) : List Diagnostic :=
  (placed decl.fields).filterMap fun (before, f) =>
    (f.analyze {}).1.index.bind fun id =>
      (before.find? fun g => (g.analyze {}).1.index = some id).map fun g =>
        { severity := .error
          message := s!"field `{f.name.text}` reuses id {id} already assigned to `{g.name.text}`"
          span := some f.span
          scope := [decl.name]
          related := [⟨g.span, "id first assigned here"⟩] }

/-- All that is reported about a type: on its fields, then on names, and for a table on indices. -/
def errors (decl : TypeDecl) : List Diagnostic :=
  decl.fieldErrors ++ decl.nameErrors ++
    match decl.kind with
    | .table => decl.indexErrors
    | .struct => []

end TypeDecl

namespace Declaration

/-- The type that a declaration defines, if it does, in the namespace that holds. -/
def typeIn? (namespacePath : Option String) : Declaration → Option TypeDefinition
  | .type decl =>
    some ⟨decl.name, namespacePath, decl.kind, decl.fields.map fun f => (f.analyze {}).1⟩
  | _ => none

/-- The enum or union that a declaration defines, if it does, in the namespace that holds. -/
def enumIn? (namespacePath : Option String) : Declaration → Option EnumDefinition
  | .enum decl => some ⟨decl.name, namespacePath, decl.kind, decl.underlyingType,
      decl.values.map EnumValue.name⟩
  | _ => none

/-- All that is reported about a declaration. -/
def errors : Declaration → List Diagnostic
  | .type decl => decl.errors
  | .directive .fileIdentifier value span =>
    if value.length = 4 then []
    else [{
      severity := .error
      message := s!"file_identifier must be exactly 4 characters, found \"{value}\""
      span := some span
      scope := [] }]
  | _ => []

end Declaration

/-- What some declarations give together, each in its place. -/
def Analysis.composed (ds : List Declaration) : Analysis where
  namespacePath := namespaceBehind ds
  definition :=
    { includes := Directive.includedFile.texts ds
      declaredAttributes := Directive.attributeName.texts ds
      rootType := (Directive.rootType.texts ds).getLast?
      fileIdentifier := (Directive.fileIdentifier.texts ds).getLast?
      fileExtension := (Directive.fileExtension.texts ds).getLast?
      types := (placed ds).filterMap fun (before, d) => d.typeIn? (namespaceBehind before)
      enums := (placed ds).filterMap fun (before, d) => d.enumIn? (namespaceBehind before) }
  bag := ⟨ds.flatMap Declaration.errors, []⟩

/-! ### Types -/

namespace TypeDecl

variable (decl : TypeDecl)

theorem definition_eq (namespacePath : Option String) : decl.definition namespacePath =
    ⟨decl.name, namespacePath, decl.kind, decl.fields.map fun f => (f.analyze {}).1⟩ := rfl

/-- The fields are resolved one after the other, and the scopes stay as they are. -/
theorem foldl_analyze (fields : List FieldDecl) (bag : Bag) :
    fields.foldl (fun bag f => (f.analyze bag).2) bag =
      ⟨bag.diagnostics ++ fields.flatMap fun f => f.reports.map fun d =>
        { d with scope := bag.scopes ++ [f.name.text] }, bag.scopes⟩ := by
  induction fields generalizing bag with
  | nil => simp only [List.foldl_nil, List.flatMap_nil, List.append_nil]
  | cons f rest ih =>
    rw [List.foldl_cons, ih, FieldDecl.analyze_bag, List.flatMap_cons, List.append_assoc]

theorem fieldErrors_eq : decl.fieldErrors = decl.fields.flatMap fun f => f.reports.map fun d =>
    { d with scope := [decl.name, f.name.text] } := by
  rw [fieldErrors]
  congr 1
  funext f
  rw [FieldDecl.analyze_bag, List.nil_append, List.map_map]
  rfl

theorem nameErrors_eq : decl.nameErrors = decl.nameReports.map (Diagnostic.within [decl.name]) := by
  rw [nameErrors, nameReports, repeatsBy, repeatsFrom_eq, placed, List.map_map, List.map_filterMap]
  congr 1
  funext ⟨before, f⟩
  simp only [Option.bind_some, Option.map_map]
  rfl

theorem indexErrors_eq : decl.indexReports.map (Diagnostic.within [decl.name]) =
    match decl.kind with
    | .table => decl.indexErrors
    | .struct => [] := by
  rw [indexReports]
  cases decl.kind with
  | struct => rfl
  | table =>
    simp only
    rw [indexErrors, repeatsBy, repeatsFrom_eq, placed, List.map_map, List.map_filterMap]
    congr 1
    funext ⟨before, f⟩
    have hindex (g : FieldDecl) : (g.analyze {}).1.index = g.index := rfl
    simp only [hindex]
    cases h : f.index with
    | none => simp only [Option.bind_none, Option.map_none]
    | some id =>
      simp only [Option.bind_some, Option.map_map, beq_eq_decide]
      congr 1
      funext g
      simp only [Function.comp_apply, h, Option.getD_some]
      rfl

/-- Reporting on a type, with no scope open, adds its errors and leaves no scope open. -/
@[simp] theorem report_unscoped (earlier : List Diagnostic) :
    decl.report ⟨earlier, []⟩ = ⟨earlier ++ decl.errors, []⟩ := by
  rw [report, foldl_analyze, errors, fieldErrors_eq, nameErrors_eq, ← indexErrors_eq]
  simp [Bag.enter, Bag.leave]

end TypeDecl

/-! ### Schemas -/

@[simp] theorem Bag.reportAll_unscoped (earlier ds : List Diagnostic) :
    Bag.reportAll ⟨earlier, []⟩ ds = ⟨earlier ++ ds, []⟩ := by
  have hdiagnostics := Bag.diagnostics_reportAll ⟨earlier, []⟩ ds
  have hscopes := Bag.scopes_reportAll ⟨earlier, []⟩ ds
  have hwithin : Diagnostic.within [] = id := rfl
  rw [hwithin, List.map_id] at hdiagnostics
  rw [← hdiagnostics]
  exact congrArg (Bag.mk _) hscopes

theorem fileIdentifierReports_eq (value : String) (span : Span) :
    fileIdentifierReports value span =
      (Declaration.directive .fileIdentifier value span).errors := rfl

namespace Directive

variable (kind : Directive)

@[simp] theorem texts_concat (ds : List Declaration) (d : Declaration) :
    kind.texts (ds ++ [d]) = kind.texts ds ++ kind.texts [d] := List.filterMap_append

@[simp] theorem texts_directive (k : Directive) (value : String) (span : Span) :
    kind.texts [.directive k value span] = if k = kind then [value] else [] := by
  by_cases h : k = kind <;> simp [texts, h]

@[simp] theorem texts_type (decl : TypeDecl) : kind.texts [.type decl] = [] := rfl

@[simp] theorem texts_enum (decl : EnumDecl) : kind.texts [.enum decl] = [] := rfl

@[simp] theorem texts_service (name : String) (span : Span) :
    kind.texts [.service name span] = [] := rfl

end Directive

namespace Analysis

/-- The next declaration adds what it gives by itself, in the namespace that holds. -/
theorem composed_concat (ds : List Declaration) (d : Declaration) :
    composed (ds ++ [d]) = (composed ds).visit d := by
  cases d with
  | directive kind value span =>
    cases kind <;> simp [composed, visit, visitDirective, namespaceBehind, Declaration.typeIn?,
      Declaration.enumIn?, Declaration.errors, fileIdentifierReports_eq]
  | type decl =>
    simp [composed, visit, namespaceBehind, Declaration.typeIn?, Declaration.enumIn?,
      Declaration.errors, decl.definition_eq]
  | enum decl =>
    simp [composed, visit, namespaceBehind, Declaration.typeIn?, Declaration.enumIn?,
      Declaration.errors, EnumDecl.definition]
  | service name span =>
    simp [composed, visit, namespaceBehind, Declaration.typeIn?, Declaration.enumIn?,
      Declaration.errors]

theorem foldl_visit_composed (ds more : List Declaration) :
    more.foldl visit (composed ds) = composed (ds ++ more) := by
  induction more generalizing ds with
  | nil => rw [List.foldl_nil, List.append_nil]
  | cons d more ih => rw [List.foldl_cons, ← composed_concat, ih, ← List.append_cons]

/-- Resolving a schema puts together what its declarations give: every declaration by itself, and
    in the namespace of the last namespace declaration before it. -/
theorem ofSchema_eq_composed (schema : Schema) :
    ofSchema schema = composed schema.declarations :=
  foldl_visit_composed [] schema.declarations

end Analysis

end FlatSchema
