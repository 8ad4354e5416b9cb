import FlatSchema.Proofs.Declaration.Defaults
import FlatSchema.Proofs.Definition.Field

/-!
What a definition keeps of its declaration. The declared type is the type of the definition, in
brackets if it is a vector, and the declared default is `null` if it is an optional scalar and the
default value otherwise. So the type and the default of a declaration can be told from its
definition, and different ones lead to different definitions.

        declared                       definition
        pos: [float:3];                vector of float:3
        rows: [[int]] = null;          vector of [int]      optional scalar
        name: string = "null";         string               default "null", in quotes
        far: float = -null;            float                default -null

Brackets are taken off the text, not off the tokens. This gives the element type since no name
starts with a bracket and every type that starts with one ends with its own.
-/

namespace FlatSchema

open Grammar

namespace FieldDefinition

/-- The type as it was declared. -/
def typeText (d : FieldDefinition) : String := if d.isVector then s!"[{d.type}]" else d.type

/-- The default as it was declared, if there was one. -/
def defaultText (d : FieldDefinition) : Option String :=
  if d.isOptionalScalar then some "null" else d.defaultValue

variable {d d' : FieldDefinition}

theorem typeText_congr (hvector : d.isVector = d'.isVector) (htype : d.type = d'.type) :
    d.typeText = d'.typeText := by
  rw [typeText, typeText, hvector, htype]

theorem defaultText_congr (hoptional : d.isOptionalScalar = d'.isOptionalScalar)
    (hvalue : d.defaultValue = d'.defaultValue) : d.defaultText = d'.defaultText := by
  rw [defaultText, defaultText, hoptional, hvalue]

theorem defaultText_eq_none_iff :
    d.defaultText = none ↔ d.isOptionalScalar = false ∧ d.defaultValue = none := by
  rw [defaultText]
  cases d.isOptionalScalar <;> simp

end FieldDefinition

/-! ### Types -/

section Types

variable {source file : String} {ts : List Token} {text : String}

/-- A name of a source is not empty and does not start with a bracket. -/
theorem exists_head_of_isName {t : Token} (ht : t ∈ (Lexed.ofSource source file).tokens)
    (hk : IsName t.kind) : ∃ c more, t.lexeme.toList = c :: more ∧ c ≠ '[' := by
  obtain ⟨q, -, hglyph, hsplit⟩ := exists_piece_alone ht (.inr (.inr hk))
  cases hlexeme : t.lexeme.toList with
  | nil =>
    rw [hlexeme, Piece.split] at hsplit
    cases hsplit
  | cons c more =>
    refine ⟨c, more, rfl, ?_⟩
    rintro rfl
    have hfirst : Piece.first '[' more = Piece.plain '[' :=
      Piece.first_eq_plain (by decide) (by decide) (by decide) (by decide) (by simp) (by simp)
    rw [hlexeme, Piece.split, hfirst] at hsplit
    obtain rfl := (List.cons.inj hsplit).1
    have hkind : TokenKind.mark .leftBracket = t.kind :=
      congrArg Prod.fst (Option.some.inj hglyph)
    exact (kind_ne_of_plain (.inr (.inr hk))).2.2 _ hkind.symm

/-- A dotted name starts with the first of its names. -/
theorem Grammar.Dotted.exists_name (h : Dotted ts text) :
    ∃ t rest, ts = t :: rest ∧ IsName t.kind ∧ t.lexeme.toList <+: text.toList := by
  obtain ⟨parts, hrow, rfl⟩ := h
  rw [String.toList_intercalate]
  cases hrow with
  | one hname =>
    obtain ⟨hk⟩ := hname
    exact ⟨_, [], rfl, hk, by simp⟩
  | more hname _ hrest =>
    obtain ⟨hk⟩ := hname
    refine ⟨_, _, rfl, hk, ?_⟩
    cases hrest with
    | one | more =>
      rw [List.map_cons, List.map_cons, List.intercalate_cons_cons, List.append_assoc]
      exact List.prefix_append _ _

/-- A type is a vector or an array in brackets, or it is a name. -/
inductive Brackets (ts : List Token) (text : List Char) : Prop where
  | around {l : Token} {rest : List Token} {inner : List Char} : ts = l :: rest →
      l.kind = .mark .leftBracket → text = '[' :: (inner ++ [']']) → Brackets ts text
  | plain {t : Token} {rest : List Token} : ts = t :: rest → t.kind ≠ .mark .leftBracket →
      text.head? ≠ some '[' → Brackets ts text

theorem Grammar.TypeText.brackets (h : TypeText ts text)
    (hts : ts ⊆ (Lexed.ofSource source file).tokens) : Brackets ts text.toList := by
  cases h with
  | dotted hdotted =>
    obtain ⟨t, rest, rfl, hk, more, htext⟩ := hdotted.exists_name
    obtain ⟨c, lexeme, hlexeme, hc⟩ := exists_head_of_isName (hts (List.mem_cons_self ..)) hk
    refine .plain rfl ((kind_ne_of_plain (.inr (.inr hk))).2.2 _) ?_
    rw [← htext, hlexeme]
    simpa using hc
  | @vector l r ts text hl _ _ =>
    have hinner : (s!"[{text}]").toList = '[' :: (text.toList ++ [']']) := by simp [toString]
    exact .around rfl hl hinner
  | @array l colon n r ts text hl _ _ _ _ =>
    have hinner : (s!"[{text}:{n.lexeme}]").toList =
        '[' :: (text.toList ++ ':' :: n.lexeme.toList ++ [']']) := by simp [toString]
    exact .around rfl hl hinner

end Types

/-! ### Defaults -/

section Defaults

variable {source file : String} {ts : List Token} {text : String}

/-- A string is put back between quotes, and everything else is no string. -/
theorem Grammar.ScalarText.quoted_or_plain (h : ScalarText true ts text) :
    text.toList.head? = some '"' ∨ ∀ t ∈ ts, t.kind ≠ .stringLiteral := by
  cases h with
  | string hk => exact .inl (by simp [toString])
  | plain hk => exact .inr (List.forall_mem_singleton.mpr (kind_ne_of_plain hk).2.1)
  | signed hsign hk => exact .inr (forall_ne_of_signed hsign hk)

theorem Grammar.ScalarText.ne_empty (h : ScalarText true ts text)
    (hts : ts <:+: (Lexed.ofSource source file).tokens) : text ≠ "" := by
  rintro rfl
  rcases h.quoted_or_plain with hquote | hplain
  · cases hquote
  · have hglyphs := (h.rereads hts).1.mpr (verbatim_of_forall hplain)
    have hempty : Piece.split "".toList = [] := by rw [String.toList_empty, Piece.split]
    rw [hempty] at hglyphs
    exact h.ne_nil (List.map_eq_nil_iff.mp hglyphs.symm)

/-- The word `null` alone, no string and nothing with a sign, has the text `null`. -/
theorem Grammar.ScalarText.eq_null_iff (h : ScalarText true ts text)
    (hts : ts <:+: (Lexed.ofSource source file).tokens) :
    text = "null" ↔ ∃ t, ts = [t] ∧ t.kind = .identifier ∧ t.lexeme = "null" := by
  constructor
  · rintro rfl
    rcases h.quoted_or_plain with hquote | hplain
    · exact absurd hquote (by decide)
    · -- What is no string reads as its own tokens, and `null` reads as one word.
      have hglyphs := (h.rereads hts).1.mpr (verbatim_of_forall hplain)
      have hword : (Piece.split "null".toList).filterMap Piece.glyph? =
          [(.identifier, "null")] := by decide +kernel
      rw [hword] at hglyphs
      obtain ⟨t, rfl, hglyph⟩ := List.map_eq_singleton_iff.mp hglyphs.symm
      exact ⟨t, rfl, congrArg Prod.fst hglyph, congrArg Prod.snd hglyph⟩
  · rintro ⟨t, rfl, hk, hlexeme⟩
    cases h with
    | string hstring =>
      rw [hk] at hstring
      cases hstring
    | plain => exact hlexeme

/-! Defaults behind their equality sign, where there may be none. -/

variable {default : Option Spelling}

theorem Grammar.Behind.eq_none_iff {m : Mark} {Item : List Token → Spelling → Prop}
    (h : Behind m Item ts default) : default = none ↔ ts = [] := by
  cases h <;> simp

theorem Grammar.Behind.text_ne_empty (h : Behind .equal (Spelled (ScalarText true)) ts default)
    (hts : ts <:+: (Lexed.ofSource source file).tokens) : ∀ s ∈ default, s.text ≠ "" := by
  cases h with
  | absent => simp
  | present _ hscalar =>
    rintro s ⟨⟩
    exact hscalar.1.ne_empty ((List.suffix_cons _ _).isInfix.trans hts)

theorem Grammar.Behind.null_iff (h : Behind .equal (Spelled (ScalarText true)) ts default)
    (hts : ts <:+: (Lexed.ofSource source file).tokens) :
    (∃ s, default = some s ∧ s.text = "null") ↔
      ∃ equal t, ts = [equal, t] ∧ t.kind = .identifier ∧ t.lexeme = "null" := by
  cases h with
  | absent => simp
  | present _ hscalar =>
    simpa using hscalar.1.eq_null_iff ((List.suffix_cons _ _).isInfix.trans hts)

end Defaults

/-! ### Definitions -/

namespace FieldDecl

variable {decl : FieldDecl} {source file : String} {ts : List Token}

theorem isVector_definition (decl : FieldDecl) :
    decl.definition.isVector = (elementType? decl.type.text).isSome := by
  show decl.vector.isSome = _
  rw [vector_eq]
  split
  · next h => exact h.symm
  · next h => exact (Bool.eq_false_iff.mpr h).symm

theorem typeText_definition (h : Brackets ts decl.type.text.toList) :
    decl.definition.typeText = decl.type.text ∧
      (decl.definition.isVector = true ↔ ∃ t ∈ ts.head?, t.kind = .mark .leftBracket) := by
  have hvector := decl.isVector_definition
  have htype : decl.definition.type = (elementType? decl.type.text).getD decl.type.text := rfl
  cases h with
  | @around l rest inner hts hl htext =>
    have helement : elementType? decl.type.text = some (String.ofList inner) := by
      rw [elementType?_of_cons htext]
      simp
    rw [helement] at hvector htype
    rw [FieldDefinition.typeText, hvector, htype]
    refine ⟨?_, iff_of_true rfl ⟨l, by rw [hts]; rfl, hl⟩⟩
    rw [← String.toList_inj, htext]
    simp [toString]
  | @plain t rest hts ht htext =>
    have helement : elementType? decl.type.text = none := elementType?_of_head_ne htext
    rw [helement] at hvector htype
    rw [FieldDefinition.typeText, hvector, htype]
    refine ⟨rfl, iff_of_false (by simp) ?_⟩
    rintro ⟨l, hl, hk⟩
    obtain rfl : t = l := by simpa [hts] using hl
    exact ht hk

theorem defaultText_definition (h : ∀ s ∈ decl.default, s.text ≠ "") :
    decl.definition.defaultText = decl.default.map Spelling.text := by
  show (if decl.isOptionalScalar then some "null" else decl.defaultValue) = _
  rw [isOptionalScalar, defaultValue]
  cases hdefault : decl.default with
  | none => rfl
  | some s =>
    have hs := h s hdefault
    by_cases hnull : s.text = "null"
    · simp [hnull]
    · simp [hnull, hs]

end FieldDecl

/-- What a definition tells of the tokens that the type and the default of a field are written
    with. -/
structure FieldDecl.Origin (decl : FieldDecl) (typeTokens defaultTokens : List Token)
    (d : FieldDefinition) : Prop where
  type : Spelled TypeText typeTokens decl.type
  default : Behind .equal (Spelled (ScalarText true)) defaultTokens decl.default
  typeText : d.typeText = decl.type.text
  isVector : d.isVector = true ↔ ∃ t ∈ typeTokens.head?, t.kind = .mark .leftBracket
  defaultText : d.defaultText = decl.default.map Spelling.text
  noDefault : d.isOptionalScalar = false ∧ d.defaultValue = none ↔ defaultTokens = []
  isOptionalScalar : d.isOptionalScalar = true ↔
    ∃ equal t, defaultTokens = [equal, t] ∧ t.kind = .identifier ∧ t.lexeme = "null"

section Origins

variable {source file : String} {decl : FieldDecl}

theorem FieldDecl.origin_definition {typeTokens defaultTokens : List Token}
    (htype : Spelled TypeText typeTokens decl.type)
    (hdefault : Behind .equal (Spelled (ScalarText true)) defaultTokens decl.default)
    (htypeTokens : typeTokens ⊆ (Lexed.ofSource source file).tokens)
    (hdefaultTokens : defaultTokens <:+: (Lexed.ofSource source file).tokens) :
    decl.Origin typeTokens defaultTokens decl.definition := by
  obtain ⟨htypeText, hvector⟩ := typeText_definition (htype.1.brackets htypeTokens)
  have hdefaultText := defaultText_definition (hdefault.text_ne_empty hdefaultTokens)
  refine ⟨htype, hdefault, htypeText, hvector, hdefaultText, ?_, ?_⟩
  · rw [← FieldDefinition.defaultText_eq_none_iff, hdefaultText, Option.map_eq_none_iff,
      hdefault.eq_none_iff]
  · exact decl.isOptionalScalar_iff.trans (hdefault.null_iff hdefaultTokens)

/-- A field of a source has its name, its type and its default in a row of tokens, and its
    definition tells the type and the default. -/
theorem Parsed.exists_origin {type : TypeDecl}
    (htype : .type type ∈ (ofSource source file).schema.declarations)
    (hdecl : decl ∈ type.fields) :
    ∃ name colon semicolon typeTokens defaultTokens metadataTokens row,
      row = name :: colon :: (typeTokens ++ defaultTokens ++ metadataTokens ++ [semicolon]) ∧
      row <:+: (Lexed.ofSource source file).tokens ∧ Field row decl ∧
      decl.Origin typeTokens defaultTokens decl.definition := by
  obtain ⟨row, hrow, hfield⟩ := exists_field_row htype hdecl
  have hagain := hfield
  obtain ⟨-, -, htypeText, hdefault, -, -, hts⟩ := hfield
  next name colon semicolon typeTokens defaultTokens metadataTokens _ _ _ =>
  have htypeTokens : typeTokens <:+: row :=
    ⟨[name, colon], defaultTokens ++ metadataTokens ++ [semicolon], by simp [hts]⟩
  have hdefaultTokens : defaultTokens <:+: row :=
    ⟨name :: colon :: typeTokens, metadataTokens ++ [semicolon], by simp [hts]⟩
  exact ⟨name, colon, semicolon, typeTokens, defaultTokens, metadataTokens, row, hts, hrow, hagain,
    FieldDecl.origin_definition htypeText hdefault (htypeTokens.trans hrow).subset
      (hdefaultTokens.trans hrow)⟩

/-- The type and the default of a declared field are told by its definition, so that different
    types and different defaults lead to different definitions. -/
theorem Parsed.definition_origin {type : TypeDecl}
    (htype : .type type ∈ (ofSource source file).schema.declarations) (hdecl : decl ∈ type.fields)
    (bag : Bag) :
    (∃ name colon semicolon typeTokens defaultTokens metadataTokens row,
      row = name :: colon :: (typeTokens ++ defaultTokens ++ metadataTokens ++ [semicolon]) ∧
      row <:+: (Lexed.ofSource source file).tokens ∧ Field row decl ∧
      decl.Origin typeTokens defaultTokens (decl.analyze bag).1) ∧
    ∀ (source' file' : String) (type' : TypeDecl) (decl' : FieldDecl) (bag' : Bag),
      .type type' ∈ (ofSource source' file').schema.declarations → decl' ∈ type'.fields →
      (decl.type.text ≠ decl'.type.text →
        (decl.analyze bag).1.isVector ≠ (decl'.analyze bag').1.isVector ∨
          (decl.analyze bag).1.type ≠ (decl'.analyze bag').1.type) ∧
      (decl.default.map Spelling.text ≠ decl'.default.map Spelling.text →
        (decl.analyze bag).1.isOptionalScalar ≠ (decl'.analyze bag').1.isOptionalScalar ∨
          (decl.analyze bag).1.defaultValue ≠ (decl'.analyze bag').1.defaultValue) := by
  have horigin := exists_origin htype hdecl
  refine ⟨horigin, fun source' file' type' decl' bag' htype' hdecl' => ?_⟩
  obtain ⟨_, _, _, _, _, _, _, -, -, -, h⟩ := horigin
  obtain ⟨_, _, _, _, _, _, _, -, -, -, h'⟩ := exists_origin htype' hdecl'
  constructor
  · intro hne
    by_contra! hsame
    have htext := FieldDefinition.typeText_congr hsame.1 hsame.2
    exact hne (h.typeText.symm.trans (htext.trans h'.typeText))
  · intro hne
    by_contra! hsame
    have htext := FieldDefinition.defaultText_congr hsame.1 hsame.2
    exact hne (h.defaultText.symm.trans (htext.trans h'.defaultText))

/-- A table whose field is a vector of vectors and has the default `null`. -/
def vectorSource : String := "table T \x7b rows: [[int]] = null; \x7d"

def vectorTable : TypeDecl :=
  match (Parsed.ofSource vectorSource "t.fbs").schema.declarations with
  | .type d :: _ => d
  | _ => default

def vectorField : FieldDecl := vectorTable.fields.headD default

theorem Parsed.definition_origin_vector :
    .type vectorTable ∈ (ofSource vectorSource "t.fbs").schema.declarations ∧
      vectorField ∈ vectorTable.fields ∧
      (vectorField.analyze {}).1.typeText = "[[int]]" ∧
      (vectorField.analyze {}).1.defaultText = some "null" := by
  have htype : .type vectorTable ∈ (ofSource vectorSource "t.fbs").schema.declarations := by
    decide +kernel
  have hdecl : vectorField ∈ vectorTable.fields := by decide +kernel
  obtain ⟨⟨_, _, _, _, _, _, _, -, -, -, horigin⟩, -⟩ := definition_origin htype hdecl {}
  have htext : vectorField.type.text = "[[int]]" := by decide +kernel
  have hdefault : vectorField.default.map Spelling.text = some "null" := by decide +kernel
  exact ⟨htype, hdecl, horigin.typeText.trans htext, horigin.defaultText.trans hdefault⟩

end Origins

end FlatSchema
