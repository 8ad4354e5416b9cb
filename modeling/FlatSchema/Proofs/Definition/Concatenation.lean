import FlatSchema.Compilation
import FlatSchema.Proofs.Declaration.Concatenation
import FlatSchema.Proofs.Definition.Analysis

/-!
What two texts with a line feed between them define. Resolving looks at places only to pass them
on, and from one declaration to the next it keeps nothing but the namespace. So the second text
defines what it defines alone, moved behind the first, and where it is in no namespace of its own it
is in the last namespace of the first.

        first    namespace N; table A { }                N.A
        second   table B { } namespace M; enum C { }     B, M.C
        ↦                                                N.A, N.B, M.C
-/

namespace FlatSchema

/-! ### Moved declarations -/

def Attribute.mapSpan (f : Span → Span) (a : Attribute) : Attribute := ⟨a.value, f a.span⟩

def FieldDefinition.mapSpan (f : Span → Span) (d : FieldDefinition) : FieldDefinition :=
  { d with span := f d.span }

/-- A type with the spans of its fields changed. -/
def TypeDefinition.mapSpans (f : Span → Span) (t : TypeDefinition) : TypeDefinition :=
  { t with fields := t.fields.map (FieldDefinition.mapSpan f) }

/-- A type of a text that is put behind another one: what has no namespace of its own gets the
    namespace that holds there. -/
def TypeDefinition.movedInto (f : Span → Span) (outer : Option String) (t : TypeDefinition) :
    TypeDefinition :=
  { t.mapSpans f with namespacePath := t.namespacePath.or outer }

/-- An enum of a text that is put behind another one. -/
def EnumDefinition.movedInto (outer : Option String) (e : EnumDefinition) : EnumDefinition :=
  { e with namespacePath := e.namespacePath.or outer }

section Moving

variable (f : Span → Span)

theorem AttributeMap.attributeOf_mapSpans (e : MetadataEntry) :
    attributeOf (e.mapSpans f) = (attributeOf e).mapSpan f := by
  rw [attributeOf, MetadataEntry.mapSpans, Option.map_map]
  rfl

theorem AttributeMap.get?_mapSpans (entries : List MetadataEntry) (key : String) :
    (ofEntries (entries.map (MetadataEntry.mapSpans f))).get? key =
      ((ofEntries entries).get? key).map (Attribute.mapSpan f) := by
  rw [get?_ofEntries, get?_ofEntries, ← List.map_reverse, List.find?_map, Option.map_map,
    Option.map_map]
  congr 1
  funext e
  exact attributeOf_mapSpans f e

/-- What a rule reads off an attribute does not depend on where the attribute is. -/
theorem AttributeRule.value_mapSpans {α : Type} (rule : AttributeRule α) {m m' : AttributeMap}
    (h : m'.get? rule.key = (m.get? rule.key).map (Attribute.mapSpan f)) :
    rule.value m' = rule.value m := by
  rw [value, value, h]
  cases m.get? rule.key <;> rfl

theorem FieldDecl.definition_mapSpans (decl : FieldDecl) :
    (decl.mapSpans f).definition = decl.definition.mapSpan f := by
  have hget (key : String) : (decl.mapSpans f).attributes.get? key =
      (decl.attributes.get? key).map (Attribute.mapSpan f) :=
    AttributeMap.get?_mapSpans f decl.metadata.entries key
  have hvalue {α : Type} (rule : AttributeRule α) :
      rule.value (decl.mapSpans f).attributes = rule.value decl.attributes :=
    rule.value_mapSpans f (hget rule.key)
  have hvector : (decl.mapSpans f).vector = decl.vector := by
    have htext {α : Type} (k : Option String → Option α) (a : Option Attribute) :
        (a.map (Attribute.mapSpan f)).bind (fun a => k a.text?) = a.bind fun a => k a.text? := by
      cases a <;> rfl
    rw [vector, vector, hget,
      htext fun text => (Choice.ofWord? (trimString (text.getD "")) : Option VectorForm)]
    rfl
  have hindex : (decl.mapSpans f).index = decl.index := by
    rw [index, index, AttributeMap.number, AttributeMap.number, hget]
    cases decl.attributes.get? "id" <;> rfl
  have hdefault : (decl.mapSpans f).default.map Spelling.text = decl.default.map Spelling.text := by
    rw [mapSpans, Option.map_map]
    rfl
  simp only [definition, FieldDefinition.mapSpan, hvalue, hvector, hindex, isOptionalScalar,
    defaultValue, hdefault]
  rfl

theorem FieldDecl.analyze_mapSpans (decl : FieldDecl) (bag : Bag) :
    ((decl.mapSpans f).analyze bag).1 = (decl.analyze bag).1.mapSpan f :=
  decl.definition_mapSpans f

theorem Declaration.typeIn?_mapSpans (outer namespacePath : Option String) (d : Declaration) :
    (d.mapSpans f).typeIn? (namespacePath.or outer) =
      (d.typeIn? namespacePath).map (TypeDefinition.movedInto f outer) := by
  cases d with
  | type decl =>
    have hfields : (decl.fields.map (FieldDecl.mapSpans f)).map (fun decl => (decl.analyze {}).1) =
        (decl.fields.map fun decl => (decl.analyze {}).1).map (FieldDefinition.mapSpan f) := by
      rw [List.map_map, List.map_map]
      exact List.map_congr_left fun decl _ => decl.analyze_mapSpans f {}
    rw [mapSpans, typeIn?, hfields]
    rfl
  | _ => rfl

theorem Declaration.enumIn?_mapSpans (outer namespacePath : Option String) (d : Declaration) :
    (d.mapSpans f).enumIn? (namespacePath.or outer) =
      (d.enumIn? namespacePath).map (EnumDefinition.movedInto outer) := by
  cases d with
  | enum decl =>
    have hvalues : (decl.values.map (EnumValue.mapSpans f)).map EnumValue.name =
        decl.values.map EnumValue.name := by
      rw [List.map_map]
      rfl
    rw [mapSpans, enumIn?, hvalues]
    rfl
  | _ => rfl

theorem Directive.texts_mapSpans (kind : Directive) (ds : List Declaration) :
    kind.texts (ds.map (Declaration.mapSpans f)) = kind.texts ds := by
  rw [texts, texts, List.filterMap_map]
  congr 1
  funext d
  cases d <;> rfl

theorem namespaceBehind_mapSpans (ds : List Declaration) :
    namespaceBehind (ds.map (Declaration.mapSpans f)) = namespaceBehind ds := by
  rw [namespaceBehind, namespaceBehind, Directive.texts_mapSpans]

end Moving

/-! ### Declarations behind others -/

/-- The last namespace counts, wherever it is. -/
theorem namespaceBehind_append (ds more : List Declaration) :
    namespaceBehind (ds ++ more) = (namespaceBehind more).or (namespaceBehind ds) := by
  rw [namespaceBehind, Directive.texts, List.filterMap_append, List.getLast?_append]
  rfl

theorem placedBehind_map {α β : Type} (g : α → β) (outer : List β) (before items : List α) :
    placedBehind (outer ++ before.map g) (items.map g) =
      (placedBehind before items).map fun (earlier, a) => (outer ++ earlier.map g, g a) := by
  induction items generalizing before with
  | nil => rfl
  | cons a rest ih =>
    have hearlier : outer ++ before.map g ++ [g a] = outer ++ (before ++ [a]).map g := by simp
    rw [List.map_cons, placedBehind, placedBehind, hearlier, ih, List.map_cons]

/-- What some declarations define, each in the namespace that holds before it. -/
def definedBy {τ : Type} (define : Option String → Declaration → Option τ)
    (ds : List Declaration) : List τ :=
  (placed ds).filterMap fun p => define (namespaceBehind p.1) p.2

/-- What moved declarations define behind others, where the outer namespace only goes into what has
    no namespace of its own. -/
theorem definedBy_append {τ : Type} {f : Span → Span}
    {define : Option String → Declaration → Option τ} {move : Option String → τ → τ}
    (h : ∀ outer namespacePath d, define (namespacePath.or outer) (d.mapSpans f) =
      (define namespacePath d).map (move outer)) (ds more : List Declaration) :
    definedBy define (ds ++ more.map (Declaration.mapSpans f)) =
      definedBy define ds ++ (definedBy define more).map (move (namespaceBehind ds)) := by
  have hbehind := placedBehind_map (Declaration.mapSpans f) ds [] more
  rw [List.map_nil, List.append_nil] at hbehind
  rw [definedBy, definedBy, definedBy, placed, placedBehind_append, List.nil_append, hbehind,
    List.filterMap_append, List.filterMap_map, List.map_filterMap]
  congr 2
  funext p
  rw [← h, ← namespaceBehind_mapSpans f p.1, ← namespaceBehind_append]
  rfl

/-! ### Texts -/

/-- Two texts with a line feed between them, of which the first reads without errors, give what they
    give alone, the second moved behind the first by its bytes and lines and one more. Types and
    enums of the second that are in no namespace of their own are in the last one of the first. -/
theorem Parsed.ofSource_lineFeed (first second file : String)
    (h : ∀ d ∈ (ofSource first file).diagnostics, d.severity ≠ .error) :
    (ofSource (first ++ "\n" ++ second) file).schema.declarations =
        (ofSource first file).schema.declarations ++
          (ofSource second file).schema.declarations.map
            (Declaration.mapSpans (Shift.behind first).span) ∧
      (ofSource (first ++ "\n" ++ second) file).diagnostics =
        (Lexed.ofSource second file).diagnostics.map (Diagnostic.mapSpans (Shift.behind first).span)
          ++ (ofTokens (Lexed.ofSource first file).tokens).diagnostics
          ++ (ofTokens (Lexed.ofSource second file).tokens).diagnostics.map
            (Diagnostic.mapSpans (Shift.behind first).span) ∧
      (Analysis.ofSchema (ofSource (first ++ "\n" ++ second) file).schema).definition.types =
        (Analysis.ofSchema (ofSource first file).schema).definition.types ++
          (Analysis.ofSchema (ofSource second file).schema).definition.types.map
            (TypeDefinition.movedInto (Shift.behind first).span
              (namespaceBehind (ofSource first file).schema.declarations)) ∧
      (Analysis.ofSchema (ofSource (first ++ "\n" ++ second) file).schema).definition.enums =
        (Analysis.ofSchema (ofSource first file).schema).definition.enums ++
          (Analysis.ofSchema (ofSource second file).schema).definition.enums.map
            (EnumDefinition.movedInto
              (namespaceBehind (ofSource first file).schema.declarations)) := by
  have hok : ∀ d ∈ (ofSource first file).diagnostics, d.isError = false := by
    intro d hd
    simpa [Diagnostic.isError] using h d hd
  obtain ⟨hdeclarations, hdiagnostics⟩ := ofSource_append second file hok
  have hcomposed (schema : Schema) :
      Analysis.ofSchema schema = Analysis.composed schema.declarations :=
    Analysis.foldl_visit_composed [] schema.declarations
  refine ⟨hdeclarations, hdiagnostics, ?_, ?_⟩
  · rw [hcomposed, hcomposed, hcomposed, hdeclarations]
    exact definedBy_append (Declaration.typeIn?_mapSpans _) _ _
  · rw [hcomposed, hcomposed, hcomposed, hdeclarations]
    exact definedBy_append (Declaration.enumIn?_mapSpans _) _ _

theorem Parsed.ofSource_lineFeed_namespace :
    (∀ d ∈ (ofSource "namespace N; // own" "t.fbs").diagnostics, d.severity ≠ .error) ∧
      (Analysis.ofSchema (ofSource ("namespace N; // own" ++ "\n" ++ "table A \x7b\x7d ?")
        "t.fbs").schema).definition.types =
          (Analysis.ofSchema (ofSource "namespace N; // own" "t.fbs").schema).definition.types ++
            (Analysis.ofSchema
              (ofSource "table A \x7b\x7d ?" "t.fbs").schema).definition.types.map
                (TypeDefinition.movedInto (Shift.behind "namespace N; // own").span
                  (namespaceBehind
                    (ofSource "namespace N; // own" "t.fbs").schema.declarations)) := by
  have hok : ∀ d ∈ (ofSource "namespace N; // own" "t.fbs").diagnostics, d.severity ≠ .error := by
    decide +kernel
  exact ⟨hok, (ofSource_lineFeed _ "table A \x7b\x7d ?" "t.fbs" hok).2.2.1⟩

end FlatSchema
