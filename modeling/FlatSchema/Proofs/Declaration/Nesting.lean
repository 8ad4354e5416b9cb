import FlatSchema.Proofs.Declaration.Concatenation
import FlatSchema.Proofs.Declaration.Scattered
import FlatSchema.Proofs.Source.Hull
import FlatSchema.Proofs.Token.Standing

/-!
Spans of declarations nest as the text does. Every span of a phrase has its ends at tokens of the
phrase, and the tokens of its parts come one part after the other; so the parts of a phrase have
spans in order, apart from each other and inside the span of the phrase. What was given up on the
way lies between the parts.

        table A (k) { hp: int = 1; ?? mp: int; }
        └──────────────────────────────────────┘
                └─┘   └──────────┘    └──────┘
                      └┘  └─┘   ╵     └┘  └─┘
-/

namespace FlatSchema

open Grammar

/-! ### Spans in spans -/

namespace Span

/-- One span ends where another one starts, or before. -/
def Before (a b : Span) : Prop := a.stop.offset ≤ b.start.offset

/-- Spans in order, apart from each other, and inside a whole. -/
structure Nests (whole : Span) (parts : List Span) : Prop where
  ordered : parts.Pairwise Before
  inside : ∀ part ∈ parts, part.Inside whole

/-- A span reaches from a keyword of a source to a mark of it. -/
structure Delimited (source file : String) (s : Span) (k : Keyword) (m : Mark) : Prop where
  opened : ∃ t ∈ (Lexed.ofSource source file).tokens, t.kind = .keyword k ∧
    s.start = t.span.start
  closed : ∃ t ∈ (Lexed.ofSource source file).tokens, t.kind = .mark m ∧ s.stop = t.span.stop
  text : ∃ between, s.Marks source file (k.text.toList ++ between ++ [m.char])

end Span

/-- The entries are in the parentheses, and each value is in its entry. -/
structure Metadata.Nested (m : Metadata) : Prop where
  bare : m.span = none → m.entries = []
  entries : ∀ span ∈ m.span, span.Nests (m.entries.map MetadataEntry.span)
  values : ∀ e ∈ m.entries, ∀ v ∈ e.value, v.span.Inside e.span

/-- The parts of a field are in it, and its name is where the name's span says. -/
structure FieldDecl.Nested (source file : String) (f : FieldDecl) : Prop where
  parts : f.span.Nests ([f.name.span, f.type.span] ++ (f.default.map Spelling.span).toList ++
    f.metadata.span.toList)
  name : f.name.span.Marks source file f.name.text.toList
  metadata : f.metadata.Nested

/-- The attributes and fields of a table or a struct are in it. -/
structure TypeDecl.Nested (source file : String) (d : TypeDecl) : Prop where
  parts : d.span.Nests (d.metadata.span.toList ++ d.fields.map FieldDecl.span)
  metadata : d.metadata.Nested
  fields : ∀ f ∈ d.fields, f.Nested source file

/-- The attributes and values of an enum or a union are in it. -/
structure EnumDecl.Nested (d : EnumDecl) : Prop where
  parts : d.span.Nests (d.metadata.span.toList ++ d.values.map EnumValue.span)
  metadata : d.metadata.Nested

namespace Declaration

/-- The keyword that opens a declaration. -/
def opening : Declaration → Keyword
  | directive kind _ _ => directiveWord kind
  | type d => typeWord d.kind
  | enum d => enumWord d.kind
  | service _ _ => .rpcServiceWord

/-- The mark that closes a declaration. -/
def closing : Declaration → Mark
  | directive _ _ _ => .semicolon
  | _ => .rightBrace

/-- What is in a declaration nests. Of directives and services no parts are kept. -/
def PartsNested (source file : String) : Declaration → Prop
  | type d => d.Nested source file
  | enum d => d.Nested
  | directive _ _ _ | service _ _ => True

/-- A declaration reaches from its keyword to its closing mark, and what is in it nests. -/
structure Nested (source file : String) (d : Declaration) : Prop where
  delimited : d.span.Delimited source file d.opening d.closing
  parts : d.PartsNested source file

end Declaration

/-- The declarations of a schema are in it, and what is in them nests. -/
structure Schema.Nested (source file : String) (schema : Schema) : Prop where
  parts : schema.span.Nests (schema.declarations.map Declaration.span)
  declarations : ∀ d ∈ schema.declarations, d.Nested source file

/-! ### Ends of spans -/

/-- The ends of a span are ends of tokens, and it covers one of them. -/
structure Span.EndsIn (ts : List Token) (s : Span) : Prop where
  file : ∃ t ∈ ts, s.file = t.span.file
  start : ∃ t ∈ ts, s.start = t.span.start
  stop : ∃ t ∈ ts, s.stop = t.span.stop
  covers : ∃ t ∈ ts, s.start.offset ≤ t.span.start.offset ∧ t.span.stop.offset ≤ s.stop.offset

namespace Span.EndsIn

variable {ts us : List Token} {a b : Span}

theorem mono (h : a.EndsIn ts) (hsub : ts ⊆ us) : a.EndsIn us where
  file := h.file.imp fun _ ht => ⟨hsub ht.1, ht.2⟩
  start := h.start.imp fun _ ht => ⟨hsub ht.1, ht.2⟩
  stop := h.stop.imp fun _ ht => ⟨hsub ht.1, ht.2⟩
  covers := h.covers.imp fun _ ht => ⟨hsub ht.1, ht.2⟩

theorem merge (ha : a.EndsIn ts) (hb : b.EndsIn ts) : (a.merge b).EndsIn ts where
  file := ha.file
  start := by
    rcases start_merge a b with h | h
    · exact h ▸ ha.start
    · exact h ▸ hb.start
  stop := by
    rcases stop_merge a b with h | h
    · exact h ▸ ha.stop
    · exact h ▸ hb.stop
  covers := by
    obtain ⟨t, ht, hstart, hstop⟩ := ha.covers
    refine ⟨t, ht, ?_, ?_⟩
    · rw [offset_start_merge]
      exact (min_le_left _ _).trans hstart
    · rw [offset_stop_merge]
      exact hstop.trans (le_max_right _ _)

theorem of_mem {t : Token} (ht : t ∈ ts) : t.span.EndsIn ts :=
  ⟨⟨t, ht, rfl⟩, ⟨t, ht, rfl⟩, ⟨t, ht, rfl⟩, t, ht, Nat.le_refl _, Nat.le_refl _⟩

theorem last (hne : ts ≠ []) : (ts.getLastD default).span.EndsIn ts := by
  obtain ⟨t, rest, rfl⟩ := List.exists_cons_of_ne_nil hne
  refine of_mem ?_
  rw [List.getLastD_cons]
  exact List.getLastD_mem_cons ..

theorem covering (hne : ts ≠ []) : (covering ts).EndsIn ts := by
  refine merge ?_ (last hne)
  obtain ⟨t, rest, rfl⟩ := List.exists_cons_of_ne_nil hne
  exact of_mem (List.mem_cons_self ..)

end Span.EndsIn

/-! ### Phrases among tokens -/

/-- Phrases that follow each other among tokens, each with the tokens that belong to it. Other
    tokens may stand between these too, so that more tokens never hurt. -/
def Grammar.Among {α : Type} (Item : List Token → α → Prop) (ts : List Token) (as : List α) :
    Prop :=
  ∃ rows : List (List Token), List.Forall₂ Item rows as ∧ rows.flatten.Sublist ts

namespace Grammar

variable {α β : Type} {Item : List Token → α → Prop} {ts us : List Token} {as bs : List α} {a : α}

namespace Among

theorem nil (ts : List Token) : Among Item ts [] := ⟨[], .nil, List.nil_sublist _⟩

theorem one (h : Item ts a) : Among Item ts [a] := ⟨[ts], .cons h .nil, by simp⟩

theorem mono (h : Among Item ts as) (hsub : ts.Sublist us) : Among Item us as := by
  obtain ⟨rows, hrows, hflat⟩ := h
  exact ⟨rows, hrows, hflat.trans hsub⟩

theorem append (h : Among Item ts as) (h' : Among Item us bs) :
    Among Item (ts ++ us) (as ++ bs) := by
  obtain ⟨rows, hrows, hflat⟩ := h
  obtain ⟨rows', hrows', hflat'⟩ := h'
  refine ⟨rows ++ rows', List.rel_append hrows hrows', ?_⟩
  rw [List.flatten_append]
  exact hflat.append hflat'

theorem map {P : List Token → β → Prop} {f : α → β} (h : Among Item ts as)
    (hf : ∀ row a, Item row a → P row (f a)) : Among P ts (as.map f) := by
  obtain ⟨rows, hrows, hflat⟩ := h
  exact ⟨rows, List.forall₂_map_right_iff.mpr (hrows.imp hf), hflat⟩

/-- Each phrase has its tokens among them. -/
theorem exists_row (h : Among Item ts as) (ha : a ∈ as) : ∃ row, row.Sublist ts ∧ Item row a := by
  obtain ⟨rows, hrows, hflat⟩ := h
  induction hrows generalizing ts with
  | nil => cases ha
  | @cons row _ rows _ hitem _ ih =>
    rcases List.mem_cons.mp ha with rfl | ha
    · exact ⟨row, (List.sublist_append_left _ _).trans hflat, hitem⟩
    · exact ih ha ((List.sublist_append_right _ _).trans hflat)

end Among

theorem Row.among {m : Mark} (h : Row Item m ts as) : Among Item ts as := by
  induction h with
  | one ha => exact .one ha
  | more ha _ _ ih => exact (Among.one ha).append (ih.mono (List.sublist_cons_self ..))

theorem Listed.among {m : Mark} (h : Listed Item m ts as) : Among Item ts as := by
  cases h with
  | none => exact .nil _
  | row hr => exact hr.among
  | trailing hr ht => exact hr.among.mono (List.sublist_append_left _ _)

theorem Scattered.among (h : Scattered Item ts as) : Among Item ts as := by
  induction h with
  | done lost => exact .nil _
  | item lost ha _ ih =>
    exact ((Among.one ha).mono (List.sublist_append_right lost _)).append ih

/-- Items with nothing between them are items among tokens. -/
theorem Scattered.of_rows {rows : List (List Token)} (h : List.Forall₂ Item rows as) :
    Scattered Item rows.flatten as := by
  induction h with
  | nil => exact .done []
  | cons ha _ ih => exact .item [] ha ih

end Grammar

/-! ### Standing rows -/

namespace Standing

variable {source file : String} {ts us : List Token} {spans : List Span}

theorem start_le_stop (h : Standing source file ts) {t : Token} (ht : t ∈ ts) :
    t.span.start.offset ≤ t.span.stop.offset := by
  obtain ⟨text, hmarks, -⟩ := h.exists_written ht
  rw [hmarks.offset_stop]
  exact Nat.le_add_right _ _

theorem file_eq (h : Standing source file ts) {t : Token} (ht : t ∈ ts) : t.span.file = file := by
  obtain ⟨text, hmarks, -⟩ := h.exists_written ht
  exact hmarks.file_eq

/-- The span of a row covers each of its tokens. -/
theorem inside_covering (h : Standing source file ts) {t : Token} (ht : t ∈ ts) :
    t.span.Inside (covering ts) := by
  have hfirst : (ts.headD default).span.start.offset ≤ t.span.start.offset := by
    obtain ⟨x, rest, rfl⟩ := List.exists_cons_of_ne_nil (List.ne_nil_of_mem ht)
    have hx := h.start_le_stop (List.mem_cons_self ..)
    rcases List.mem_cons.mp ht with rfl | ht
    · exact Nat.le_refl _
    · exact hx.trans ((List.pairwise_cons.mp h.ordered).1 t ht)
  have hlast : t.span.stop.offset ≤ (ts.getLastD default).span.stop.offset := by
    obtain rfl | ⟨init, x, rfl⟩ := ts.eq_nil_or_concat'
    · cases ht
    have hx := h.start_le_stop (List.mem_append_right init (List.mem_singleton_self x))
    rw [List.getLastD_concat]
    rcases List.mem_append.mp ht with ht | ht
    · have hordered := (List.pairwise_append.mp h.ordered).2.2 t ht x (List.mem_singleton_self x)
      exact hordered.trans hx
    · rw [List.mem_singleton.mp ht]
  refine ⟨?_, ?_, h.start_le_stop ht, ?_⟩
  · obtain ⟨x, rest, rfl⟩ := List.exists_cons_of_ne_nil (List.ne_nil_of_mem ht)
    exact (h.file_eq ht).trans (h.file_eq (List.mem_cons_self ..)).symm
  · simp only [covering, Span.merge]
    split <;> omega
  · simp only [covering, Span.merge]
    split <;> omega

theorem inside (h : Standing source file ts) {s : Span} (hs : s.EndsIn ts) :
    s.Inside (covering ts) := by
  obtain ⟨f, hf, hfile⟩ := hs.file
  obtain ⟨a, ha, hstart⟩ := hs.start
  obtain ⟨b, hb, hstop⟩ := hs.stop
  obtain ⟨t, ht, hfrom, hto⟩ := hs.covers
  refine ⟨hfile ▸ (h.inside_covering hf).file, hstart ▸ (h.inside_covering ha).start, ?_,
    hstop ▸ (h.inside_covering hb).stop⟩
  exact hfrom.trans ((h.start_le_stop ht).trans hto)

/-- Spans of phrases that follow each other nest in the span of the whole row. -/
theorem nests (h : Standing source file ts) (hspans : Among Span.EndsIn ts spans) :
    (covering ts).Nests spans := by
  refine ⟨?_, fun s hs => ?_⟩
  · obtain ⟨rows, hrows, hflat⟩ := hspans
    have hstanding := h.sublist hflat
    clear h hflat
    induction hrows with
    | nil => exact .nil
    | @cons row s rows spans hs hrows ih =>
      -- The phrases behind the first have all their tokens behind those of the first.
      have hrest : Among Span.EndsIn rows.flatten spans := ⟨rows, hrows, .refl _⟩
      have hbehind := (List.pairwise_append.mp hstanding.ordered).2.2
      refine .cons (fun s' hs' => ?_) (ih (hstanding.sublist (List.sublist_append_right _ _)))
      obtain ⟨row', hrow', hends⟩ := hrest.exists_row hs'
      obtain ⟨b, hb, hstop⟩ := hs.stop
      obtain ⟨a, ha, hstart⟩ := hends.start
      rw [Span.Before, hstop, hstart]
      exact hbehind b hb a (hrow'.subset ha)
  · obtain ⟨row, hrow, hends⟩ := hspans.exists_row hs
    exact h.inside (hends.mono hrow.subset)

/-- The span of a row reaches from its first token to its last. -/
theorem delimited_covering {first last : Token} {k : Keyword} {m : Mark}
    (h : Standing source file us) (hus : us = first :: (ts ++ [last]))
    (hk : first.kind = .keyword k) (hm : last.kind = .mark m) :
    (covering us).Delimited source file k m := by
  subst hus
  have hmem : last ∈ ts ++ [last] := List.mem_append_right _ (List.mem_singleton_self _)
  have hfirst := h.marks_keyword (List.mem_cons_self ..) hk
  have hlast := h.marks_mark (List.mem_cons_of_mem _ hmem) hm
  have hordered := (List.pairwise_cons.mp h.ordered).1 last hmem
  have hspan : covering (first :: (ts ++ [last])) = ⟨file, first.span.start, last.span.stop⟩ := by
    have hle := h.start_le_stop (List.mem_cons_self ..)
    have hlt : last.span.start.offset < last.span.stop.offset := by
      have hpos := m.char.utf8Size_pos
      rw [hlast.offset_stop, String.utf8Len_cons]
      omega
    rw [covering, List.getLastD_cons, List.getLastD_concat, List.headD_cons, Span.merge,
      if_pos (by omega), if_neg (by omega), hfirst.file_eq]
  rw [hspan]
  exact ⟨⟨first, h.subset (List.mem_cons_self ..), hk, rfl⟩,
    ⟨last, h.subset (List.mem_cons_of_mem _ hmem), hm, rfl⟩,
    hfirst.exists_between hlast hordered⟩

end Standing

/-! ### Parts of declarations -/

section Parts

variable {source file : String} {ts : List Token}

theorem Grammar.Dotted.ne_nil {text : String} (h : Dotted ts text) : ts ≠ [] := by
  obtain ⟨parts, hrow, -⟩ := h
  refine hrow.ne_nil fun row part hname => ?_
  cases hname
  exact List.cons_ne_nil _ _

theorem Grammar.TypeText.ne_nil {text : String} (h : TypeText ts text) : ts ≠ [] := by
  cases h with
  | dotted hd => exact hd.ne_nil
  | vector _ _ _ => simp
  | array _ _ _ _ _ => simp

theorem Grammar.ScalarText.ne_nil {quoting : Bool} {text : String}
    (h : ScalarText quoting ts text) : ts ≠ [] := by
  cases h <;> exact List.cons_ne_nil _ _

theorem Grammar.Spelled.endsIn {Text : List Token → String → Prop} {s : Spelling}
    (h : Spelled Text ts s) (hne : ∀ ts text, Text ts text → ts ≠ []) : s.span.EndsIn ts := by
  rw [h.2]
  exact .covering (hne ts s.text h.1)

theorem Grammar.Behind.among {m : Mark} {Text : List Token → String → Prop}
    {o : Option Spelling} (h : Behind m (Spelled Text) ts o)
    (hne : ∀ ts text, Text ts text → ts ≠ []) :
    Among Span.EndsIn ts (o.map Spelling.span).toList := by
  cases h with
  | absent => exact .nil _
  | present _ hs => exact (Among.one (hs.endsIn hne)).mono (List.sublist_cons_self ..)

theorem Grammar.Entry.endsIn {e : MetadataEntry} (h : Entry ts e) : e.span.EndsIn ts := by
  cases h
  exact .covering (List.cons_ne_nil _ _)

theorem Grammar.Entry.value_inside {e : MetadataEntry} (h : Entry ts e)
    (hs : Standing source file ts) : ∀ v ∈ e.value, v.span.Inside e.span := by
  cases h with
  | mk _ hvalue =>
    intro v hv
    have hspans := hvalue.among fun _ _ => ScalarText.ne_nil
    refine (hs.nests (hspans.mono (List.sublist_cons_self ..))).inside v.span ?_
    exact Option.mem_toList.mpr (Option.mem_map_of_mem Spelling.span hv)

theorem Grammar.Attributes.among {m : Metadata} (h : Attributes ts m) :
    Among Span.EndsIn ts m.span.toList := by
  cases h with
  | absent => exact .nil _
  | empty _ _ => exact .one (.covering (List.cons_ne_nil _ _))
  | entries _ _ _ => exact .one (.covering (List.cons_ne_nil _ _))

theorem Grammar.Attributes.nested {m : Metadata} (h : Attributes ts m)
    (hs : Standing source file ts) : m.Nested := by
  cases h with
  | absent => exact ⟨fun _ => rfl, by simp, by simp⟩
  | empty _ _ => exact ⟨fun _ => rfl, fun span _ => ⟨.nil, by simp⟩, by simp⟩
  | @entries l r row es _ hrow _ =>
    have hentries := hrow.among.mono ((List.sublist_append_left row [r]).cons l)
    refine ⟨by simp, fun span hspan => ?_, fun e he => ?_⟩
    · obtain rfl := Option.mem_some.mp hspan
      exact hs.nests (hentries.map fun _ _ => Entry.endsIn)
    · obtain ⟨row, hrow, hentry⟩ := hentries.exists_row he
      exact hentry.value_inside (hs.sublist hrow)

theorem Grammar.Field.endsIn {f : FieldDecl} (h : Field ts f) : f.span.EndsIn ts := by
  cases h with
  | mk _ _ _ _ _ _ hts => exact .covering (hts ▸ List.cons_ne_nil _ _)

/-- Names are written as their lexemes. -/
theorem Standing.marks_name (h : Standing source file ts) {t : Token} (ht : t ∈ ts)
    (hname : IsName t.kind) : t.span.Marks source file t.lexeme.toList := by
  rcases hname with hkind | ⟨w, hkind⟩
  · exact h.marks_lexeme ht (by simp [hkind]) (by simp [hkind])
  · exact h.marks_lexeme ht (by simp [hkind]) (by simp [hkind])

theorem Grammar.Field.nested {f : FieldDecl} (h : Field ts f) (hs : Standing source file ts) :
    f.Nested source file := by
  cases h with
  | @mk name colon semicolon typeTokens defaultTokens metadataTokens type default metadata _ hname
      _ htype hdefault hmetadata _ hts =>
    have hinner : (typeTokens ++ defaultTokens ++ metadataTokens).Sublist
        (colon :: (typeTokens ++ defaultTokens ++ metadataTokens ++ [semicolon])) :=
      (List.sublist_append_left _ _).cons colon
    have hnameSpan : Among Span.EndsIn [name] [name.span] :=
      .one (.of_mem (List.mem_singleton_self _))
    have htypeSpan : Among Span.EndsIn typeTokens [type.span] :=
      .one (htype.endsIn fun _ _ => TypeText.ne_nil)
    have hdefaultSpan := hdefault.among fun _ _ => ScalarText.ne_nil
    -- The marks between the parts belong to none of them.
    have hparts := hnameSpan.append ((htypeSpan.append hdefaultSpan).append hmetadata.among)
    have hmem : name ∈ ts := hts ▸ List.mem_cons_self ..
    have hrow : metadataTokens.Sublist ts :=
      hts ▸ ((List.sublist_append_right _ _).trans hinner).cons name
    exact ⟨hs.nests (hparts.mono (hts ▸ hinner.cons_cons name)), hs.marks_name hmem hname,
      hmetadata.nested (hs.sublist hrow)⟩

theorem Grammar.Value.endsIn {v : EnumValue} (h : Value ts v) : v.span.EndsIn ts := by
  cases h with
  | @mk nameTokens scalarTokens _ _ hname _ =>
    refine .merge ((Span.EndsIn.covering hname.ne_nil).mono (List.subset_append_left ..)) ?_
    exact .last (by simp [hname.ne_nil])

end Parts

/-! ### Declarations -/

section Declarations

variable {source file : String} {ts : List Token}

theorem Grammar.Recovered.nested_type {kind : TypeKind} {word name l r : Token}
    {metadataTokens fieldTokens : List Token} {metadata : Metadata} {fields : List FieldDecl}
    (hs : Standing source file ts) (hword : word.kind = .keyword (typeWord kind))
    (hmetadata : Attributes metadataTokens metadata) (hfields : Scattered Field fieldTokens fields)
    (hr : r.kind = .mark .rightBrace)
    (hts : ts = word :: name :: (metadataTokens ++ l :: (fieldTokens ++ [r]))) :
    Declaration.Nested source file
      (.type ⟨kind, name.lexeme, metadata, fields, covering ts⟩) := by
  have hends : ts = word :: (name :: (metadataTokens ++ l :: fieldTokens) ++ [r]) := by
    simpa using hts
  have hsub : (metadataTokens ++ fieldTokens).Sublist ts := by
    rw [hts]
    exact .cons _ (.cons _ ((List.Sublist.refl _).append ((List.sublist_append_left _ _).cons l)))
  have hspans := hfields.among.map fun _ _ => Field.endsIn
  refine ⟨hs.delimited_covering hends hword hr, ?_, ?_, fun f hf => ?_⟩
  · exact hs.nests ((hmetadata.among.append hspans).mono hsub)
  · exact hmetadata.nested (hs.sublist ((List.sublist_append_left _ _).trans hsub))
  · obtain ⟨row, hrow, hfield⟩ := hfields.among.exists_row hf
    exact hfield.nested (hs.sublist (hrow.trans ((List.sublist_append_right _ _).trans hsub)))

theorem Grammar.Recovered.nested_enum {kind : EnumKind} {word name l r : Token}
    {typeTokens metadataTokens valueTokens : List Token} {type : Option String}
    {metadata : Metadata} {values : List EnumValue}
    (hs : Standing source file ts) (hword : word.kind = .keyword (enumWord kind))
    (hmetadata : Attributes metadataTokens metadata)
    (hvalues : Listed Value .comma valueTokens values) (hr : r.kind = .mark .rightBrace)
    (hts : ts = word :: name :: (typeTokens ++ metadataTokens ++ l :: (valueTokens ++ [r]))) :
    Declaration.Nested source file
      (.enum ⟨kind, name.lexeme, type, metadata, values, covering ts⟩) := by
  have hends : ts =
      word :: (name :: (typeTokens ++ metadataTokens ++ l :: valueTokens) ++ [r]) := by
    simpa using hts
  have hsub : (metadataTokens ++ valueTokens).Sublist ts := by
    rw [hts]
    exact .cons _ (.cons _ ((List.sublist_append_right _ _).append
      ((List.sublist_append_left _ _).cons l)))
  have hspans := hvalues.among.map fun _ _ => Value.endsIn
  refine ⟨hs.delimited_covering hends hword hr, ?_, ?_⟩
  · exact hs.nests ((hmetadata.among.append hspans).mono hsub)
  · exact hmetadata.nested (hs.sublist ((List.sublist_append_left _ _).trans hsub))

theorem Grammar.Recovered.nested {d : Declaration} (h : Recovered ts d)
    (hs : Standing source file ts) : d.Nested source file := by
  cases h with
  | type hword _ hmetadata _ hfields hr hts => exact nested_type hs hword hmetadata hfields hr hts
  | whole hd =>
    cases hd with
    | directive hword _ hsemicolon hts =>
      exact ⟨hs.delimited_covering hts hword hsemicolon, trivial⟩
    | type hword _ hmetadata _ hrows hr hts =>
      exact nested_type hs hword hmetadata (.of_rows hrows) hr hts
    | enum hword _ _ hmetadata _ hvalues hr hts =>
      exact nested_enum hs hword hmetadata hvalues hr hts
    | @service word name l r body _ hword _ _ _ hr hts =>
      have hends : ts = word :: (name :: l :: body ++ [r]) := by simpa using hts
      exact ⟨hs.delimited_covering hends hword hr, trivial⟩

theorem Grammar.Recovered.endsIn {d : Declaration} (h : Recovered ts d) : d.span.EndsIn ts := by
  cases h with
  | type _ _ _ _ _ _ hts => exact .covering (hts ▸ List.cons_ne_nil _ _)
  | whole hd =>
    cases hd with
    | directive _ _ _ hts => exact .covering (hts ▸ List.cons_ne_nil _ _)
    | type _ _ _ _ _ _ hts => exact .covering (hts ▸ List.cons_ne_nil _ _)
    | enum _ _ _ _ _ _ _ hts => exact .covering (hts ▸ List.cons_ne_nil _ _)
    | service _ _ _ _ _ hts => exact .covering (hts ▸ List.cons_ne_nil _ _)

end Declarations

/-! ### Files -/

/-- The tokens of a source are what is read, and its end. -/
theorem Lexed.body_concat_endOf (source file : String) :
    Stream.body (ofSource source file).tokens ++ [Stream.endOf (ofSource source file).tokens] =
      (ofSource source file).tokens := by
  obtain ⟨strays, hlayout⟩ := exists_layout file .first source.toList
  obtain ⟨init, htokens, hinit⟩ := hlayout.exists_eof
  rw [ofSource, Cursor.ofSource, htokens, Stream.body_concat hinit rfl,
    Stream.endOf_append hinit (List.find?_cons_of_pos (by rfl))]

/-- The declarations of a source, whatever is wrong in it, come in order, apart from each other and
    in the span of the file; each reaches from its keyword to its closing mark, and what is in a
    declaration, a field or a list of attributes nests in the same way. -/
theorem Parsed.nested_ofSource (source file : String) :
    (ofSource source file).schema.Nested source file := by
  have hall := Lexed.body_concat_endOf source file
  obtain ⟨hscattered, hspan⟩ :=
    scattered_ofTokens fun t (ht : t ∈ (Lexed.ofSource source file).tokens) =>
      Lexed.lexeme_ne_of_isSign ht
  rw [hall] at hspan
  have hstanding : Standing source file (Lexed.ofSource source file).tokens := .refl _
  have hbody := hall ▸ List.sublist_append_left (Stream.body (Lexed.ofSource source file).tokens) _
  have hdeclarations := hscattered.among.mono hbody
  refine ⟨?_, fun d hd => ?_⟩
  · rw [show (ofSource source file).schema.span = _ from hspan]
    exact hstanding.nests (hdeclarations.map fun _ _ => Recovered.endsIn)
  · obtain ⟨row, hrow, hd⟩ := hdeclarations.exists_row hd
    exact hd.nested (hstanding.sublist hrow)

end FlatSchema
