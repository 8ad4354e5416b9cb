import FlatSchema.Compilation
import FlatSchema.Proofs.Definition.Handoff

/-!
Resolving declarations whose places are changed. Resolving never compares places, it only passes
them on. So any change of spans goes through it, into the definition and into the reports, and the
reports stay the same in number, order, wording and scope.

        declarations  ──resolve──▶  definition, reports
              │ f                          │ f
              ▼                            ▼
        declarations  ──resolve──▶  definition, reports
-/

namespace FlatSchema

section Moving

variable (f : Span → Span)

/-! ### Bags -/

/-- A bag with every span changed. -/
def Bag.mapSpans (bag : Bag) : Bag := ⟨bag.diagnostics.map (Diagnostic.mapSpans f), bag.scopes⟩

theorem Bag.reportAll_mapSpans (bag : Bag) (ds : List Diagnostic) :
    (bag.mapSpans f).reportAll (ds.map (Diagnostic.mapSpans f)) =
      (bag.reportAll ds).mapSpans f := by
  induction ds generalizing bag with
  | nil => rfl
  | cons d ds ih =>
    have hreport : (bag.mapSpans f).report (d.mapSpans f) = (bag.report d).mapSpans f := by
      rw [mapSpans, mapSpans, Bag.diagnostics_report, List.map_append]
      rfl
    rw [List.map_cons, reportAll, List.foldl_cons, hreport]
    exact ih (bag.report d)

theorem Bag.absorb_mapSpans (bag other : Bag) :
    (bag.mapSpans f).absorb (other.mapSpans f) = (bag.absorb other).mapSpans f :=
  bag.reportAll_mapSpans f other.diagnostics

theorem Bag.hasErrors_mapSpans (bag : Bag) : (bag.mapSpans f).hasErrors = bag.hasErrors := by
  rw [hasErrors, mapSpans, List.any_map]
  rfl

/-! ### Fields -/

section Attributes

variable {f} {m m' : AttributeMap}
  (h : ∀ key, m'.get? key = (m.get? key).map (Attribute.mapSpan f))

include h

theorem AttributeMap.duplicatesFrom_mapSpans (entries : List MetadataEntry) :
    m'.duplicatesFrom (entries.map (MetadataEntry.mapSpans f)) =
      (m.duplicatesFrom entries).map (Diagnostic.mapSpans f) := by
  induction entries generalizing m m' with
  | nil => rfl
  | cons e rest ih =>
    have hadd (key : String) : (m'.add (e.mapSpans f)).get? key =
        ((m.add e).get? key).map (Attribute.mapSpan f) := by
      have hkey : (e.mapSpans f).key = e.key := rfl
      rw [get?_add, get?_add, h, attributeOf_mapSpans, hkey]
      split <;> rfl
    have hkey : (e.mapSpans f).key = e.key := rfl
    rw [List.map_cons, duplicatesFrom, duplicatesFrom, ih hadd, List.map_append, h, hkey]
    congr 1
    cases m.get? e.key <;> rfl

theorem AttributeMap.number_mapSpans (key : String) : m'.number key = m.number key := by
  rw [number, number, h]
  cases m.get? key <;> rfl

theorem AttributeRule.reports_mapSpans {α : Type} (rule : AttributeRule α) :
    rule.reports m' = (rule.reports m).map (Diagnostic.mapSpans f) := by
  rw [reports, reports, h]
  cases m.get? rule.key with
  | none => rfl
  | some a =>
    have htext : (a.mapSpan f).text? = a.text? := rfl
    simp only [Option.map_some, htext]
    cases a.text? with
    | none => rfl
    | some text =>
      simp only
      split <;> rfl

end Attributes

namespace FieldDecl

variable (decl : FieldDecl)

theorem get?_attributes_mapSpans (key : String) : (decl.mapSpans f).attributes.get? key =
    (decl.attributes.get? key).map (Attribute.mapSpan f) :=
  AttributeMap.get?_mapSpans f decl.metadata.entries key

theorem problemAt_mapSpans (key : String) (problem : FieldProblem) :
    (decl.mapSpans f).problemAt key problem = (decl.problemAt key problem).mapSpans f := by
  rw [problemAt, problemAt, AttributeMap.spanOf?, AttributeMap.spanOf?, get?_attributes_mapSpans]
  cases decl.attributes.get? key <;> rfl

theorem typeReports_mapSpans :
    (decl.mapSpans f).typeReports = decl.typeReports.map (Diagnostic.mapSpans f) := by
  have hvector : (decl.mapSpans f).isVector = decl.isVector := rfl
  have hname : (decl.mapSpans f).name.text = decl.name.text := rfl
  rw [typeReports, typeReports, get?_attributes_mapSpans, hvector, hname]
  cases decl.attributes.get? "vectortype" with
  | none => rfl
  | some a =>
    have htext : (a.mapSpan f).text? = a.text? := rfl
    simp only [Option.map_some, htext, problemAt_mapSpans]
    split
    · rfl
    · split <;> rfl

theorem flagReports_mapSpans :
    (decl.mapSpans f).flagReports = decl.flagReports.map (Diagnostic.mapSpans f) := by
  have hrule {α : Type} (rule : AttributeRule α) : rule.reports (decl.mapSpans f).attributes =
      (rule.reports decl.attributes).map (Diagnostic.mapSpans f) :=
    rule.reports_mapSpans (decl.get?_attributes_mapSpans f)
  simp only [flagReports, hrule, List.map_append, List.map_flatMap]

theorem idReports_mapSpans :
    (decl.mapSpans f).idReports = decl.idReports.map (Diagnostic.mapSpans f) := by
  have hname : (decl.mapSpans f).name.text = decl.name.text := rfl
  rw [idReports, idReports, AttributeMap.number_mapSpans (decl.get?_attributes_mapSpans f), hname]
  cases decl.attributes.number "id" with
  | absent => rfl
  | invalid => simp only [problemAt_mapSpans, List.map_cons, List.map_nil]
  | value n =>
    simp only [problemAt_mapSpans]
    split <;> rfl

theorem unsupportedReports_mapSpans :
    (decl.mapSpans f).unsupportedReports =
      decl.unsupportedReports.map (Diagnostic.mapSpans f) := by
  have hcontains (key : String) :
      (decl.mapSpans f).attributes.contains key = decl.attributes.contains key := by
    rw [AttributeMap.contains, AttributeMap.contains, get?_attributes_mapSpans, Option.isSome_map]
  rw [unsupportedReports, unsupportedReports, funext hcontains, List.map_map]
  exact List.map_congr_left fun key _ => decl.problemAt_mapSpans f key _

theorem stepReports_mapSpans (step : FieldStep) :
    (decl.mapSpans f).stepReports step = (decl.stepReports step).map (Diagnostic.mapSpans f) := by
  cases step with
  | type => exact decl.typeReports_mapSpans f
  | default => rfl
  | flags => exact decl.flagReports_mapSpans f
  | id => exact decl.idReports_mapSpans f
  | unsupported => exact decl.unsupportedReports_mapSpans f

theorem reports_mapSpans :
    (decl.mapSpans f).reports = decl.reports.map (Diagnostic.mapSpans f) := by
  have hduplicates : AttributeMap.duplicates (decl.mapSpans f).metadata.entries =
      (AttributeMap.duplicates decl.metadata.entries).map (Diagnostic.mapSpans f) :=
    AttributeMap.duplicatesFrom_mapSpans (fun _ => rfl) decl.metadata.entries
  rw [reports, reports, hduplicates, funext (decl.stepReports_mapSpans f), List.map_append,
    List.map_flatMap]

theorem bag_analyze_mapSpans (bag : Bag) :
    ((decl.mapSpans f).analyze (bag.mapSpans f)).2 = ((decl.analyze bag).2).mapSpans f := by
  have hreports := (bag.enter decl.name.text).reportAll_mapSpans f decl.reports
  rw [← reports_mapSpans] at hreports
  exact congrArg Bag.leave hreports

end FieldDecl

/-! ### Types -/

/-- What repeats among changed items is what repeats among the items. -/
theorem repeatsFrom_map {α β κ : Type} [BEq κ] (g : α → β) (key : α → Option κ)
    (key' : β → Option κ) (hkey : ∀ a, key' (g a) = key a) (earlier items : List α) :
    repeatsFrom key' (earlier.map g) (items.map g) =
      (repeatsFrom key earlier items).map (Prod.map g g) := by
  induction items generalizing earlier with
  | nil => rfl
  | cons a rest ih =>
    have hearlier : earlier.map g ++ [g a] = (earlier ++ [a]).map g := by simp
    have hfind (k : κ) : (earlier.map g).find? (fun b => key' b == some k) =
        (earlier.find? fun b => key b == some k).map g := by
      rw [List.find?_map]
      congr 2
      funext b
      rw [Function.comp_apply, hkey]
    rw [List.map_cons, repeatsFrom, repeatsFrom, hearlier, ih, List.map_append, hkey]
    simp only [hfind]
    congr 1
    cases key a with
    | none => rfl
    | some k => cases h : earlier.find? fun b => key b == some k <;> simp [h]

/-- A type with every span changed. -/
def TypeDecl.mapSpans (decl : TypeDecl) : TypeDecl :=
  ⟨decl.kind, decl.name, decl.metadata.mapSpans f, decl.fields.map (FieldDecl.mapSpans f),
    f decl.span⟩

namespace TypeDecl

variable (decl : TypeDecl)

theorem nameReports_mapSpans :
    (decl.mapSpans f).nameReports = decl.nameReports.map (Diagnostic.mapSpans f) := by
  have hrepeats := repeatsFrom_map (FieldDecl.mapSpans f) (fun field => some field.name.text)
    (fun field => some field.name.text) (fun _ => rfl) [] decl.fields
  rw [nameReports, nameReports, repeatsBy, repeatsBy, List.map_map]
  refine (congrArg (List.map _) hrepeats).trans ?_
  rw [List.map_map]
  rfl

theorem indexReports_mapSpans :
    (decl.mapSpans f).indexReports = decl.indexReports.map (Diagnostic.mapSpans f) := by
  have hindex (field : FieldDecl) : (field.mapSpans f).index = field.index :=
    congrArg FieldDefinition.index (field.definition_mapSpans f)
  have hrepeats := repeatsFrom_map (FieldDecl.mapSpans f) _ _ hindex [] decl.fields
  have hkind : (decl.mapSpans f).kind = decl.kind := rfl
  rw [indexReports, indexReports, hkind]
  cases decl.kind with
  | struct => rfl
  | table =>
    simp only [repeatsBy, List.map_map]
    refine (congrArg (List.map _) hrepeats).trans ?_
    rw [List.map_map]
    refine List.map_congr_left fun p _ => ?_
    simp only [Function.comp_apply, Prod.map, hindex]
    rfl

theorem foldl_analyze_mapSpans (fields : List FieldDecl) (bag : Bag) :
    (fields.map (FieldDecl.mapSpans f)).foldl (fun bag f => (f.analyze bag).2) (bag.mapSpans f) =
      (fields.foldl (fun bag f => (f.analyze bag).2) bag).mapSpans f := by
  induction fields generalizing bag with
  | nil => rfl
  | cons field rest ih =>
    rw [List.map_cons, List.foldl_cons, FieldDecl.bag_analyze_mapSpans, ih, List.foldl_cons]

theorem report_mapSpans (bag : Bag) :
    (decl.mapSpans f).report (bag.mapSpans f) = (decl.report bag).mapSpans f := by
  have hleave (bag : Bag) : (bag.mapSpans f).leave = bag.leave.mapSpans f := rfl
  have hfields := foldl_analyze_mapSpans f decl.fields (bag.enter decl.name)
  rw [report, report, nameReports_mapSpans, indexReports_mapSpans, ← hleave,
    ← Bag.reportAll_mapSpans, ← Bag.reportAll_mapSpans, ← hfields]
  rfl

theorem definition_mapSpans (namespacePath : Option String) :
    (decl.mapSpans f).definition namespacePath = (decl.definition namespacePath).mapSpans f := by
  have hfields : (decl.fields.map (FieldDecl.mapSpans f)).map FieldDecl.definition =
      (decl.fields.map FieldDecl.definition).map (FieldDefinition.mapSpan f) := by
    rw [List.map_map, List.map_map]
    exact List.map_congr_left fun field _ => field.definition_mapSpans f
  rw [definition, definition, mapSpans, hfields]
  rfl

end TypeDecl

/-! ### Schemas -/

/-- A definition with every span changed; only fields have one. -/
def SchemaDefinition.mapSpans (s : SchemaDefinition) : SchemaDefinition :=
  { s with types := s.types.map (TypeDefinition.mapSpans f) }

namespace Analysis

/-- What is resolved so far, with every span changed. -/
def mapSpans (a : Analysis) : Analysis :=
  ⟨a.namespacePath, a.definition.mapSpans f, a.bag.mapSpans f⟩

theorem visitDirective_mapSpans (a : Analysis) (value : String) (span : Span) (kind : Directive) :
    (a.mapSpans f).visitDirective value (f span) kind =
      (a.visitDirective value span kind).mapSpans f := by
  cases kind with
  | fileIdentifier =>
    have hreports : fileIdentifierReports value (f span) =
        (fileIdentifierReports value span).map (Diagnostic.mapSpans f) := by
      rw [fileIdentifierReports, fileIdentifierReports]
      split <;> rfl
    rw [visitDirective, visitDirective, hreports]
    simp only [mapSpans, Bag.reportAll_mapSpans]
    rfl
  | _ => rfl

/-- Visiting a changed declaration changes what visiting it gives. -/
theorem visit_mapSpans (a : Analysis) (d : Declaration) :
    (a.mapSpans f).visit (d.mapSpans f) = (a.visit d).mapSpans f := by
  cases d with
  | directive kind value span => exact a.visitDirective_mapSpans f value span kind
  | type decl =>
    have hd : (Declaration.type decl).mapSpans f = .type (decl.mapSpans f) := rfl
    have hnamespace : (a.mapSpans f).namespacePath = a.namespacePath := rfl
    have hbag : (a.mapSpans f).bag = a.bag.mapSpans f := rfl
    rw [hd, visit, visit, hnamespace, hbag, decl.definition_mapSpans, decl.report_mapSpans]
    simp only [mapSpans, SchemaDefinition.mapSpans, List.map_append, List.map_cons, List.map_nil]
  | enum decl =>
    have hdefinition (namespacePath : Option String) :
        EnumDecl.definition ⟨decl.kind, decl.name, decl.underlyingType, decl.metadata.mapSpans f,
          decl.values.map (EnumValue.mapSpans f), f decl.span⟩ namespacePath =
            decl.definition namespacePath := by
      rw [EnumDecl.definition, EnumDecl.definition, List.map_map]
      rfl
    rw [Declaration.mapSpans, visit, visit, hdefinition]
    rfl
  | service name span => rfl

/-- Resolving goes along with every change of spans. -/
theorem ofSchema_mapSpans (schema : Schema) :
    ofSchema (schema.mapSpans f) = (ofSchema schema).mapSpans f := by
  have hfold (ds : List Declaration) (a : Analysis) :
      (ds.map (Declaration.mapSpans f)).foldl visit (a.mapSpans f) =
        (ds.foldl visit a).mapSpans f := by
    induction ds generalizing a with
    | nil => rfl
    | cons d ds ih => rw [List.map_cons, List.foldl_cons, visit_mapSpans, ih, List.foldl_cons]
  exact hfold schema.declarations {}

end Analysis

/-! ### Texts -/

theorem TypeDefinition.toJson_mapSpans (t : TypeDefinition) :
    (t.mapSpans f).toJson = t.toJson := by
  rw [toJson, toJson, mapSpans, List.map_map]
  rfl

/-- What is handed on says nothing about places. -/
theorem SchemaDefinition.handoff_mapSpans (s : SchemaDefinition) (layout : Json.Layout) :
    (s.mapSpans f).handoff layout = s.handoff layout := by
  have htypes : (s.types.map (TypeDefinition.mapSpans f)).map TypeDefinition.toJson =
      s.types.map TypeDefinition.toJson := by
    rw [List.map_map]
    exact List.map_congr_left fun t _ => t.toJson_mapSpans f
  rw [handoff, handoff, toJson, toJson, mapSpans, htypes]

end Moving

end FlatSchema
