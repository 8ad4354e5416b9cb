import FlatSchema.Proofs.Definition.Repetition

/-!
Fields that clash. In a table or a struct no field may have the name of a field before it, and in a
table none may have the index that a field before it was given by hand. Every field that does is
reported once, against the first field of that name or index, however often the name or the index
comes; whatever is reported, the type keeps all its fields.

        table T {
          hp: int (id: 0);
          hp: int (id: 1);        name of field 0
          mp: int (id: 0);        index of field 0
          hp: int (id: 0);        name of field 0 · index of field 0
        }
-/

namespace FlatSchema

/-- The index that a field was given by hand. -/
def FieldDefinition.manualIndex (d : FieldDefinition) : Option Int :=
  if d.isIndexManual then d.index else none

namespace FieldDecl

/-- The name of a field as a key that every field has. -/
def nameKey (f : FieldDecl) : Option String := some f.name.text

/-- The index that a field is given by hand, as it is resolved alone. -/
def indexKey (f : FieldDecl) : Option Int := (f.analyze {}).1.manualIndex

theorem index_eq_indexKey : index = indexKey := by
  funext f
  have hresolved : f.indexKey = if f.index.isSome then f.index else none := rfl
  rw [hresolved]
  cases f.index <;> rfl

end FieldDecl

namespace TypeDecl

/-- The error `d` about the field at the place `i`, whose name a field before it has: it stands at
    the name and points to the name of the first field of that name. -/
def NameClash (decl : TypeDecl) (scopes : List String) (i : Nat) (d : Diagnostic) : Prop :=
  ∃ f first, decl.fields[i]? = some f ∧
    IsFirst FieldDecl.nameKey decl.fields f.name.text first ∧
    d = { severity := .error
          message := s!"duplicate field `{f.name.text}` in {decl.kind.word} `{decl.name}`"
          span := some f.name.span
          scope := scopes ++ [decl.name]
          related := [⟨first.name.span, "first declared here"⟩] }

/-- The error `d` about the field at the place `i`, whose index a field before it has: it stands at
    the field, and names and points to the first field of that index. -/
def IndexClash (decl : TypeDecl) (scopes : List String) (i : Nat) (d : Diagnostic) : Prop :=
  ∃ f first id, decl.fields[i]? = some f ∧ f.indexKey = some id ∧
    IsFirst FieldDecl.indexKey decl.fields id first ∧
    d = { severity := .error
          message :=
            s!"field `{f.name.text}` reuses id {id} already assigned to `{first.name.text}`"
          span := some f.span
          scope := scopes ++ [decl.name]
          related := [⟨first.span, "id first assigned here"⟩] }

variable (decl : TypeDecl) (scopes : List String)

/-- The fields that are reported for their names are those whose names come again. -/
theorem nameReports_tell : TellsAgain FieldDecl.nameKey decl.fields (decl.NameClash scopes)
    (decl.nameReports.map (Diagnostic.within (scopes ++ [decl.name]))) := by
  rw [nameReports, List.map_map]
  refine (repeatsBy_tells FieldDecl.nameKey decl.fields).map ?_
  rintro i ⟨f, first⟩ ⟨hf, name, hname, hfirst⟩
  obtain rfl := Option.some.inj hname
  exact ⟨f, first, hf, hfirst, by simp [Diagnostic.within, Diagnostic.relatedTo, Diagnostic.errorAt]⟩

/-- The fields of a table that are reported for their indices are those whose indices come again. -/
theorem indexReports_tell (hkind : decl.kind = .table) :
    TellsAgain FieldDecl.indexKey decl.fields (decl.IndexClash scopes)
      (decl.indexReports.map (Diagnostic.within (scopes ++ [decl.name]))) := by
  rw [indexReports, hkind]
  simp only
  rw [List.map_map, FieldDecl.index_eq_indexKey]
  refine (repeatsBy_tells FieldDecl.indexKey decl.fields).map ?_
  rintro i ⟨f, first⟩ ⟨hf, id, hid, hfirst⟩
  refine ⟨f, first, id, hf, hid, hfirst, ?_⟩
  simp [hid, Diagnostic.within, Diagnostic.relatedTo, Diagnostic.errorAt]

/-- Reporting on a type adds the reports on its fields, then those on names, then those on indices,
    and leaves the scopes as they are. -/
theorem report_eq (bag : Bag) : decl.report bag =
    ⟨bag.diagnostics
      ++ (decl.fields.flatMap fun f => (f.analyze {}).2.diagnostics.map
        (Diagnostic.within (bag.scopes ++ [decl.name])))
      ++ decl.nameReports.map (Diagnostic.within (bag.scopes ++ [decl.name]))
      ++ decl.indexReports.map (Diagnostic.within (bag.scopes ++ [decl.name])), bag.scopes⟩ := by
  have hfield (f : FieldDecl) : (f.analyze {}).2.diagnostics.map
      (Diagnostic.within (bag.scopes ++ [decl.name])) =
        f.reports.map fun d => { d with scope := bag.scopes ++ [decl.name] ++ [f.name.text] } := by
    rw [FieldDecl.analyze_bag, List.nil_append, List.map_map]
    rfl
  simp only [hfield]
  rw [report, foldl_analyze]
  simp [Bag.enter, Bag.leave]

end TypeDecl

/-- Taking in a table or a struct keeps all its fields, each as it resolves alone. Behind the
    reports on the single fields there is one error for each field whose name a field before it has,
    and for a table one for each field whose index a field before it has; there are none exactly if
    all names, and all indices given by hand, differ. -/
theorem Analysis.clashes_visit (a : Analysis) (decl : TypeDecl) :
    ∃ type names indices,
      (a.visit (.type decl)).definition =
        { a.definition with types := a.definition.types ++ [type] } ∧
      type.fields = decl.fields.map (fun f => (f.analyze {}).1) ∧
      (a.visit (.type decl)).bag =
        ⟨a.bag.diagnostics
          ++ (decl.fields.flatMap fun f => (f.analyze {}).2.diagnostics.map
            (Diagnostic.within (a.bag.scopes ++ [decl.name])))
          ++ names ++ indices, a.bag.scopes⟩ ∧
      TellsAgain FieldDecl.nameKey decl.fields (decl.NameClash a.bag.scopes) names ∧
      (match decl.kind with
        | .table => TellsAgain FieldDecl.indexKey decl.fields (decl.IndexClash a.bag.scopes) indices
        | .struct => indices = []) ∧
      (names = [] ↔ (type.fields.map FieldDefinition.name).Nodup) ∧
      (indices = [] ↔
        decl.kind = .struct ∨ (type.fields.filterMap FieldDefinition.manualIndex).Nodup) := by
  have hnames := decl.nameReports_tell a.bag.scopes
  refine ⟨decl.definition a.namespacePath, _, _, rfl, rfl, decl.report_eq a.bag, hnames, ?_, ?_, ?_⟩
  · cases hkind : decl.kind with
    | table => exact decl.indexReports_tell a.bag.scopes hkind
    | struct =>
      rw [TypeDecl.indexReports, hkind]
      rfl
  · have hkeys : decl.fields.filterMap FieldDecl.nameKey =
        (decl.definition a.namespacePath).fields.map FieldDefinition.name := by
      rw [TypeDecl.definition, List.map_map, ← List.filterMap_eq_map]
      rfl
    rw [hnames.eq_nil_iff, hkeys]
  · have hkeys : decl.fields.filterMap FieldDecl.indexKey =
        (decl.definition a.namespacePath).fields.filterMap FieldDefinition.manualIndex := by
      rw [TypeDecl.definition, List.filterMap_map]
      rfl
    cases hkind : decl.kind with
    | table =>
      rw [(decl.indexReports_tell a.bag.scopes hkind).eq_nil_iff, hkeys]
      simp
    | struct =>
      rw [TypeDecl.indexReports, hkind]
      simp

end FlatSchema
