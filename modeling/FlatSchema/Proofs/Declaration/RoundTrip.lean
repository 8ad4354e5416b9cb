import FlatSchema.Proofs.Declaration.Abstract
import FlatSchema.Proofs.Declaration.Completeness

/-!
Writing and reading again. Where the lexemes of an abstract declaration stand among tokens there is
a derivation of what is meant, part by part; the reader takes this derivation, and the lexer gives
the lexemes of a text however they are laid out. Put together, reading a text that declarations are
written as gives exactly these declarations.

        abstract declarations  →  lexemes  →  text  →  tokens  →  declarations
                               what is meant, up to places
-/

namespace FlatSchema

namespace Abstract

open Grammar

/-! ### Lexemes among tokens -/

theorem isName_word (w : Word) : IsName w.kind := by
  unfold Word.kind
  split
  · exact .inr ⟨_, rfl⟩
  · exact .inl rfl

/-- The tokens are the lexemes, at some places. -/
def Spell (ts : List Token) (xs : List Lexeme) : Prop := ts.map Token.glyph = xs.map Lexeme.glyph

section Spell

variable {ts : List Token} {x : Lexeme} {xs ys : List Lexeme}

theorem Spell.eq_nil (h : Spell ts []) : ts = [] := List.map_eq_nil_iff.mp h

theorem Spell.uncons (h : Spell ts (x :: xs)) :
    ∃ t us, ts = t :: us ∧ t.kind = x.kind ∧ t.lexeme = x.lexeme ∧ Spell us xs := by
  obtain ⟨t, us, rfl, ht, hus⟩ := List.map_eq_cons_iff.mp h
  obtain ⟨hkind, hlexeme⟩ := Prod.mk.inj ht
  exact ⟨t, us, rfl, hkind, hlexeme, hus⟩

/-- A word is written as a name. -/
theorem Spell.uncons_word {w : Word} (h : Spell ts (.word w :: xs)) :
    ∃ t us, ts = t :: us ∧ IsName t.kind ∧ t.lexeme = String.ofList w.text ∧ Spell us xs := by
  obtain ⟨t, us, rfl, hkind, hlexeme, hus⟩ := h.uncons
  exact ⟨t, us, rfl, hkind ▸ isName_word w, hlexeme, hus⟩

theorem Spell.split (h : Spell ts (xs ++ ys)) :
    ∃ us vs, ts = us ++ vs ∧ Spell us xs ∧ Spell vs ys := by
  rw [Spell, List.map_append] at h
  obtain ⟨us, vs, rfl, hus, hvs⟩ := List.map_eq_append_iff.mp h
  exact ⟨us, vs, rfl, hus, hvs⟩

theorem Spell.singleton (h : Spell ts [x]) :
    ∃ t, ts = [t] ∧ t.kind = x.kind ∧ t.lexeme = x.lexeme := by
  obtain ⟨t, us, rfl, hkind, hlexeme, hus⟩ := h.uncons
  obtain rfl := hus.eq_nil
  exact ⟨t, rfl, hkind, hlexeme⟩

end Spell

theorem kind_keyword (k : Keyword) : (keyword k).kind = .keyword k := by
  cases k <;> decide

/-! ### Parts -/

section Parts

variable {α β A : Type} {P : List Token → α → Prop} {g : α → β} {xs : List Lexeme} {b : β}

/-- Wherever the lexemes stand there is a derivation of something that is `b` under `g`. -/
def Derives (P : List Token → α → Prop) (g : α → β) (xs : List Lexeme) (b : β) : Prop :=
  ∀ ts, Spell ts xs → ∃ a, P ts a ∧ g a = b

theorem derives_spelled {P : List Token → String → Prop} {text : String}
    (h : Derives P id xs text) :
    Derives (Spelled P) (Spelling.mapSpans nowhere) xs (spelled text) := by
  intro ts hts
  obtain ⟨_, hP, rfl⟩ := h ts hts
  exact ⟨⟨_, covering ts⟩, ⟨hP, rfl⟩, rfl⟩

theorem derives_behind {m : Mark} {f : A → List Lexeme} {k : A → β}
    (h : ∀ a, Derives P g (f a) (k a)) (o : Option A) :
    Derives (Behind m P) (Option.map g) (behindMark m f o) (o.map k) := by
  intro ts hts
  cases o with
  | none =>
    obtain rfl := hts.eq_nil
    exact ⟨none, .absent, rfl⟩
  | some a =>
    obtain ⟨t, us, rfl, hkind, -, hus⟩ := hts.uncons
    obtain ⟨b, hb, hg⟩ := h a us hus
    exact ⟨some b, .present hkind hb, congrArg some hg⟩

theorem derives_row {m : Mark} {f : A → List Lexeme} {k : A → β} (h : ∀ a, Derives P g (f a) (k a))
    (a : A) (as : List A) :
    Derives (Row P m) (List.map g) ([.mark m].intercalate ((a :: as).map f)) ((a :: as).map k) := by
  induction as generalizing a with
  | nil =>
    intro ts hts
    rw [List.map_singleton, List.intercalate_singleton] at hts
    obtain ⟨b, hb, hg⟩ := h a ts hts
    exact ⟨[b], .one hb, congrArg ([·]) hg⟩
  | cons a' as ih =>
    intro ts hts
    rw [List.map_cons, List.map_cons, List.intercalate_cons_cons, List.append_assoc] at hts
    obtain ⟨us, vs, rfl, hus, hvs⟩ := hts.split
    obtain ⟨t, ws, rfl, hkind, -, hws⟩ := hvs.uncons
    obtain ⟨b, hb, hg⟩ := h a us hus
    obtain ⟨bs, hbs, hgs⟩ := ih a' ws hws
    exact ⟨b :: bs, .more hb hkind hbs, congrArg₂ List.cons hg hgs⟩

theorem derives_path (p : Path) : Derives Dotted id p.lexemes p.text := by
  have hword (w : Word) : Derives Name id [.word w] (String.ofList w.text) := by
    intro ts hts
    obtain ⟨t, rfl, hkind, hlexeme⟩ := hts.singleton
    exact ⟨t.lexeme, .mk (by rw [hkind]; exact isName_word w), hlexeme⟩
  intro ts hts
  obtain ⟨parts, hrow, hparts⟩ := derives_row hword p.first p.more ts hts
  rw [List.map_id] at hparts
  exact ⟨p.text, ⟨parts, hrow, by rw [hparts]; rfl⟩, rfl⟩

theorem derives_type (t : TypeExpr) : Derives TypeText id t.lexemes t.text := by
  induction t with
  | path p =>
    intro ts hts
    obtain ⟨_, h, rfl⟩ := derives_path p ts hts
    exact ⟨_, .dotted h, rfl⟩
  | vector t ih =>
    intro ts hts
    obtain ⟨us, vs, rfl, hus, hvs⟩ := hts.split
    obtain ⟨l, us, rfl, hl, -, hus⟩ := hus.uncons
    obtain ⟨r, rfl, hr, -⟩ := hvs.singleton
    obtain ⟨_, h, rfl⟩ := ih us hus
    exact ⟨_, .vector hl h hr, rfl⟩
  | array t n hn ih =>
    intro ts hts
    obtain ⟨us, vs, rfl, hus, hvs⟩ := hts.split
    obtain ⟨l, us, rfl, hl, -, hus⟩ := hus.uncons
    obtain ⟨colon, vs, rfl, hcolon, -, hvs⟩ := hvs.uncons
    obtain ⟨length, vs, rfl, hlength, hlexeme, hvs⟩ := hvs.uncons
    obtain ⟨r, rfl, hr, -⟩ := hvs.singleton
    obtain ⟨_, h, rfl⟩ := ih us hus
    refine ⟨_, .array hl h hcolon (hlength.trans hn) hr, ?_⟩
    rw [hlexeme]
    rfl

theorem kind_number (n : Numeral) : n.kind = .intLiteral ∨ n.kind = .floatLiteral := by
  obtain ⟨kind, text, h⟩ := n
  cases h <;> simp

theorem isSign_mark (s : Sign) : IsSign (.mark s.mark) := by
  cases s
  · exact .inl rfl
  · exact .inr rfl

theorem derives_scalar (quoting : Bool) (s : Scalar) :
    Derives (ScalarText quoting) id s.lexemes (s.text quoting) := by
  intro ts hts
  cases s with
  | string value =>
    obtain ⟨t, rfl, hkind, hlexeme⟩ := hts.singleton
    refine ⟨_, .string hkind, ?_⟩
    rw [hlexeme]
    rfl
  | number n =>
    obtain ⟨t, rfl, hkind, hlexeme⟩ := hts.singleton
    have hnumber : t.kind = .intLiteral ∨ t.kind = .floatLiteral := hkind ▸ kind_number n
    exact ⟨_, .plain (hnumber.imp_right .inl), hlexeme⟩
  | word w =>
    obtain ⟨t, rfl, hkind, hlexeme⟩ := hts.singleton
    have hname : IsName t.kind := hkind ▸ isName_word w
    exact ⟨_, .plain (.inr (.inr hname)), hlexeme⟩
  | signedNumber sign n =>
    obtain ⟨x, us, rfl, hx, hsign, hus⟩ := hts.uncons
    obtain ⟨t, rfl, hkind, hlexeme⟩ := hus.singleton
    have hnumber : TakesSign t.kind := by
      rcases kind_number n with hn | hn
      · exact .inl (hkind.trans hn)
      · exact .inr (.inl (hkind.trans hn))
    exact ⟨_, .signed (hx ▸ isSign_mark sign) hnumber, congrArg₂ (· ++ ·) hsign hlexeme⟩
  | signedWord sign w hw =>
    obtain ⟨x, us, rfl, hx, hsign, hus⟩ := hts.uncons
    obtain ⟨t, rfl, hkind, hlexeme⟩ := hus.singleton
    have hword : TakesSign t.kind := hkind ▸ hw
    exact ⟨_, .signed (hx ▸ isSign_mark sign) hword, congrArg₂ (· ++ ·) hsign hlexeme⟩

theorem derives_entry (e : Entry) :
    Derives Grammar.Entry (MetadataEntry.mapSpans nowhere) e.lexemes e.meant := by
  intro ts hts
  obtain ⟨key, us, rfl, hkey, hlexeme, hus⟩ := hts.uncons_word
  have hvalue (v : Scalar) : Derives (Spelled (ScalarText false)) (Spelling.mapSpans nowhere)
      v.lexemes (spelled (v.text false)) := derives_spelled (derives_scalar false v)
  obtain ⟨value, hvalue, hmeant⟩ := derives_behind hvalue e.value us hus
  refine ⟨_, .mk hkey hvalue, ?_⟩
  rw [MetadataEntry.mapSpans, hmeant, hlexeme]
  rfl

theorem derives_attributes (a : Attributes) :
    Derives Grammar.Attributes (Metadata.mapSpans nowhere) a.lexemes a.meant := by
  intro ts hts
  match a with
  | none =>
    obtain rfl := hts.eq_nil
    exact ⟨{}, .absent, rfl⟩
  | some [] =>
    obtain ⟨l, us, rfl, hl, -, hus⟩ := hts.uncons
    obtain ⟨r, rfl, hr, -⟩ := hus.singleton
    exact ⟨_, .empty hl hr, rfl⟩
  | some (e :: es) =>
    obtain ⟨us, vs, rfl, hus, hvs⟩ := hts.split
    obtain ⟨l, us, rfl, hl, -, hus⟩ := hus.uncons
    obtain ⟨r, rfl, hr, -⟩ := hvs.singleton
    obtain ⟨entries, hrow, hmeant⟩ := derives_row derives_entry e es us hus
    refine ⟨_, .entries hl hrow hr, ?_⟩
    rw [Metadata.mapSpans, hmeant]
    rfl

theorem derives_field (f : Field) :
    Derives Grammar.Field (FieldDecl.mapSpans nowhere) f.lexemes f.meant := by
  intro ts hts
  obtain ⟨name, us, rfl, hname, hlexeme, hus⟩ := hts.uncons_word
  obtain ⟨colon, us, rfl, hcolon, -, hus⟩ := hus.uncons
  obtain ⟨parts, vs, rfl, hparts, hvs⟩ := hus.split
  obtain ⟨semicolon, rfl, hsemicolon, -⟩ := hvs.singleton
  obtain ⟨front, as, rfl, hfront, has⟩ := hparts.split
  obtain ⟨types, ds, rfl, htypes, hds⟩ := hfront.split
  have hvalue (v : Scalar) : Derives (Spelled (ScalarText true)) (Spelling.mapSpans nowhere)
      v.lexemes (spelled (v.text true)) := derives_spelled (derives_scalar true v)
  obtain ⟨type, htype, hmeantType⟩ := derives_spelled (derives_type f.type) types htypes
  obtain ⟨default, hdefault, hmeantDefault⟩ := derives_behind hvalue f.default ds hds
  obtain ⟨metadata, hmetadata, hmeantMetadata⟩ := derives_attributes f.attributes as has
  refine ⟨_, .mk hname hcolon htype hdefault hmetadata hsemicolon rfl, ?_⟩
  rw [FieldDecl.mapSpans, hmeantType, hmeantDefault, hmeantMetadata, hlexeme]
  rfl

theorem derives_value (v : Value) :
    Derives Grammar.Value (EnumValue.mapSpans nowhere) v.lexemes v.meant := by
  intro ts hts
  obtain ⟨us, vs, rfl, hus, hvs⟩ := hts.split
  obtain ⟨_, hname, rfl⟩ := derives_path v.path us hus
  obtain ⟨number, hnumber, hmeant⟩ := derives_behind (derives_scalar false) v.number vs hvs
  refine ⟨_, .mk hname hnumber, ?_⟩
  rw [Option.map_id] at hmeant
  rw [EnumValue.mapSpans, show number = _ from hmeant]
  rfl

/-- Items with nothing between them fall into rows, one for each item. -/
theorem derives_rows {f : A → List Lexeme} {k : A → β} (h : ∀ a, Derives P g (f a) (k a))
    (as : List A) :
    Derives (fun ts bs => ∃ rows : List (List Token), ts = rows.flatten ∧ List.Forall₂ P rows bs)
      (List.map g) (as.flatMap f) (as.map k) := by
  induction as with
  | nil =>
    intro ts hts
    obtain rfl := hts.eq_nil
    exact ⟨[], ⟨[], rfl, .nil⟩, rfl⟩
  | cons a as ih =>
    intro ts hts
    obtain ⟨us, vs, rfl, hus, hvs⟩ := hts.split
    obtain ⟨b, hb, hg⟩ := h a us hus
    obtain ⟨bs, ⟨rows, rfl, hrows⟩, hgs⟩ := ih vs hvs
    exact ⟨b :: bs, ⟨us :: rows, rfl, .cons hb hrows⟩, congrArg₂ List.cons hg hgs⟩

theorem derives_values (values : List Value) (trailingComma : Bool) :
    Derives (Listed Grammar.Value .comma) (List.map (EnumValue.mapSpans nowhere))
      (valueLexemes values trailingComma) (values.map Value.meant) := by
  intro ts hts
  cases values with
  | nil =>
    have hnil : Spell ts [] := by simpa [valueLexemes] using hts
    obtain rfl := hnil.eq_nil
    exact ⟨[], .none, rfl⟩
  | cons v values =>
    obtain ⟨us, vs, rfl, hus, hvs⟩ := Spell.split hts
    obtain ⟨bs, hrow, hmeant⟩ := derives_row derives_value v values us hus
    cases trailingComma with
    | false =>
      obtain rfl := Spell.eq_nil hvs
      rw [List.append_nil]
      exact ⟨bs, .row hrow, hmeant⟩
    | true =>
      obtain ⟨t, rfl, ht, -⟩ := Spell.singleton hvs
      exact ⟨bs, .trailing hrow ht, hmeant⟩

theorem balanced_of_spell {body : Body} {ts : List Token} (h : Spell ts body.lexemes) :
    Balanced ts := by
  induction body generalizing ts with
  | nil =>
    obtain rfl := h.eq_nil
    exact .nil
  | other x hleft hright rest ih =>
    obtain ⟨t, us, rfl, hkind, -, hus⟩ := h.uncons
    exact .other (hkind ▸ hleft) (hkind ▸ hright) (ih hus)
  | block inner rest ihinner ihrest =>
    obtain ⟨us, vs, rfl, hus, hvs⟩ := h.split
    obtain ⟨l, us, rfl, hl, -, hus⟩ := hus.uncons
    obtain ⟨r, vs, rfl, hr, -, hvs⟩ := hvs.uncons
    exact .block hl (ihinner hus) hr (ihrest hvs)

/-! ### Declarations -/

theorem derives_content {kind : Directive} (content : Content kind) :
    Derives (DirectiveText kind) id content.lexemes content.text := by
  intro ts hts
  cases content with
  | namespacePath p =>
    obtain ⟨_, h, rfl⟩ := derives_path p ts hts
    exact ⟨_, .path h, rfl⟩
  | rootType p =>
    obtain ⟨_, h, rfl⟩ := derives_path p ts hts
    exact ⟨_, .root h, rfl⟩
  | includedFile value =>
    obtain ⟨t, rfl, hkind, hlexeme⟩ := hts.singleton
    exact ⟨_, .file hkind, hlexeme⟩
  | fileIdentifier value =>
    obtain ⟨t, rfl, hkind, hlexeme⟩ := hts.singleton
    exact ⟨_, .identifier hkind, hlexeme⟩
  | fileExtension value =>
    obtain ⟨t, rfl, hkind, hlexeme⟩ := hts.singleton
    exact ⟨_, .extension hkind, hlexeme⟩
  | attributeString value =>
    obtain ⟨t, rfl, hkind, hlexeme⟩ := hts.singleton
    exact ⟨_, .attribute (.inl hkind), hlexeme⟩
  | attributeWord w =>
    obtain ⟨t, rfl, hkind, hlexeme⟩ := hts.singleton
    exact ⟨_, .attribute (.inr (hkind ▸ isName_word w)), hlexeme⟩

/-- Wherever a declaration is written there is a derivation of what is meant. -/
theorem derives_decl (d : Decl) : Derives Declared Declaration.unplaced d.lexemes d.meant := by
  intro ts hts
  cases d with
  | @directive kind content =>
    obtain ⟨word, us, rfl, hword, -, hus⟩ := hts.uncons
    obtain ⟨vs, ws, rfl, hvs, hws⟩ := hus.split
    obtain ⟨semicolon, rfl, hsemicolon, -⟩ := hws.singleton
    obtain ⟨_, htext, rfl⟩ := derives_content content vs hvs
    exact ⟨_, .directive (hword.trans (kind_keyword _)) htext hsemicolon rfl, rfl⟩
  | type kind name attributes fields =>
    obtain ⟨word, us, rfl, hword, -, hus⟩ := hts.uncons
    obtain ⟨t, us, rfl, hname, hlexeme, hus⟩ := hus.uncons_word
    obtain ⟨as, vs, rfl, has, hvs⟩ := hus.split
    obtain ⟨l, vs, rfl, hl, -, hvs⟩ := hvs.uncons
    obtain ⟨fs, ws, rfl, hfs, hws⟩ := hvs.split
    obtain ⟨r, rfl, hr, -⟩ := hws.singleton
    obtain ⟨metadata, hmetadata, hmeantMetadata⟩ := derives_attributes attributes as has
    obtain ⟨decls, ⟨rows, rfl, hrows⟩, hmeant⟩ := derives_rows derives_field fields fs hfs
    refine ⟨_, .type (hword.trans (kind_keyword _)) hname hmetadata hl hrows hr rfl, ?_⟩
    rw [Declaration.unplaced, Declaration.mapSpans, hmeantMetadata, hmeant, hlexeme]
    rfl
  | enum kind name underlying attributes values trailingComma =>
    obtain ⟨word, us, rfl, hword, -, hus⟩ := hts.uncons
    obtain ⟨t, us, rfl, hname, hlexeme, hus⟩ := hus.uncons_word
    obtain ⟨front, vs, rfl, hfront, hvs⟩ := hus.split
    obtain ⟨types, as, rfl, htypes, has⟩ := hfront.split
    obtain ⟨l, vs, rfl, hl, -, hvs⟩ := hvs.uncons
    obtain ⟨bs, ws, rfl, hbs, hws⟩ := hvs.split
    obtain ⟨r, rfl, hr, -⟩ := hws.singleton
    obtain ⟨type, htype, hmeantType⟩ := derives_behind derives_type underlying types htypes
    obtain ⟨metadata, hmetadata, hmeantMetadata⟩ := derives_attributes attributes as has
    obtain ⟨enumValues, hvalues, hmeant⟩ := derives_values values trailingComma bs hbs
    rw [Option.map_id] at hmeantType
    refine ⟨_, .enum (hword.trans (kind_keyword _)) hname htype hmetadata hl hvalues hr rfl, ?_⟩
    rw [Declaration.unplaced, Declaration.mapSpans, hmeantMetadata, hmeant, hlexeme,
      show type = _ from hmeantType]
    rfl
  | service name body =>
    obtain ⟨word, us, rfl, hword, -, hus⟩ := hts.uncons
    obtain ⟨t, us, rfl, hname, hlexeme, hus⟩ := hus.uncons_word
    obtain ⟨l, us, rfl, hl, -, hus⟩ := hus.uncons
    obtain ⟨vs, ws, rfl, hvs, hws⟩ := hus.split
    obtain ⟨r, rfl, hr, -⟩ := hws.singleton
    have hword : word.kind = .keyword .rpcServiceWord := hword.trans (kind_keyword .rpcServiceWord)
    refine ⟨_, .service hword hname hl (balanced_of_spell hvs) hr rfl, ?_⟩
    rw [hlexeme]
    rfl

end Parts

end Abstract

/-! ### Files -/

open Abstract

/-- No lexeme is the end of the file. -/
theorem Lexeme.kind_ne_eof (x : Lexeme) : x.kind ≠ .eof := by
  cases x with
  | word w =>
    rcases isName_word w with h | ⟨k, h⟩ <;> simp [Lexeme.kind, h]
  | number n =>
    rcases kind_number n with h | h <;> simp [Lexeme.kind, h]
  | string => simp [Lexeme.kind]
  | mark => simp [Lexeme.kind]

/-- Before the end of the file stand the tokens of the lexemes. -/
theorem takeWhile_of_glyphs {tokens : List Token} {xs : List Lexeme}
    (h : tokens.map Token.glyph = xs.map Lexeme.glyph ++ [(.eof, "")]) :
    Spell (tokens.takeWhile (·.kind != .eof)) xs := by
  obtain ⟨ts, us, rfl, hts, hus⟩ := List.map_eq_append_iff.mp h
  obtain ⟨eof, vs, rfl, heof, -⟩ := List.map_eq_cons_iff.mp hus
  have hkind : eof.kind = .eof := congrArg Prod.fst heof
  have hne : ∀ t ∈ ts, (t.kind != .eof) = true := by
    intro t ht
    have hmem : t.glyph ∈ xs.map Lexeme.glyph := hts ▸ List.mem_map_of_mem ht
    obtain ⟨x, -, hx⟩ := List.mem_map.mp hmem
    rw [bne_iff_ne, show t.kind = x.kind from (congrArg Prod.fst hx).symm]
    exact x.kind_ne_eof
  rw [List.takeWhile_append_of_pos hne, List.takeWhile_cons_of_neg (by simp [hkind]),
    List.append_nil]
  exact hts

/-- However declarations are written down, reading the text gives exactly them, up to places, and
    nothing is said but that services are ignored, once for each. -/
theorem Parsed.ofSource_of_rendered {ds : List Decl} {source : String}
    (h : Rendered (ds.flatMap Decl.lexemes) source.toList) (file : String) :
    (ofSource source file).schema.declarations.map Declaration.unplaced = ds.map Decl.meant ∧
      (ofSource source file).diagnostics =
        (ofSource source file).schema.declarations.flatMap Declaration.remarks := by
  obtain ⟨hglyphs, hnone⟩ := Lexed.glyphs_ofSource h file
  obtain ⟨decls, ⟨rows, hrows, hall⟩, hmeant⟩ :=
    derives_rows derives_decl ds _ (takeWhile_of_glyphs hglyphs)
  obtain ⟨hdecls, hremarks⟩ := ofTokens_of_derivations hrows hall
  constructor
  · rw [← hmeant, ← hdecls]
    rfl
  · show (Lexed.ofSource source file).diagnostics ++ _ = _
    rw [hnone, List.nil_append, hremarks, ← hdecls]
    rfl

/-- An attribute with a quote in its name, and a service named like a keyword. -/
def quotedSample : List Decl :=
  [.directive (.attributeString ['a', '"']),
    .service (keyword .tableWord)
      (.block .nil (.other (.string ['\n']) (by decide) (by decide) .nil))]

/-- The sample with a space behind each lexeme. -/
def quotedSampleText : String :=
  "attribute \"a\\\"\" ; rpc_service table \x7b \x7b \x7d \"\\n\" \x7d "

theorem rendered_quotedSample :
    Rendered (quotedSample.flatMap Decl.lexemes) quotedSampleText.toList := by
  have htext : spaced (quotedSample.flatMap Decl.lexemes) = quotedSampleText.toList := by decide
  rw [← htext]
  exact rendered_spaced _

theorem Parsed.ofSource_quotedSample :
    Rendered (quotedSample.flatMap Decl.lexemes) quotedSampleText.toList ∧
      (ofSource quotedSampleText "s.fbs").schema.declarations.map Declaration.unplaced =
        quotedSample.map Decl.meant ∧
      (ofSource quotedSampleText "s.fbs").diagnostics =
        (ofSource quotedSampleText "s.fbs").schema.declarations.flatMap Declaration.remarks :=
  ⟨rendered_quotedSample, ofSource_of_rendered rendered_quotedSample "s.fbs"⟩

end FlatSchema
