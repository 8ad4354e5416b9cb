import FlatSchema.Proofs.CommandLine.Outcome
import FlatSchema.Proofs.Declaration.Isolation
import FlatSchema.Proofs.Text.Utf8
import FlatSchema.Proofs.Token.Cutting

/-!
What a run leaves behind. A good run that writes has written its inputs one after the other, each
into the file that its output path leads to. The definitions of an input are there in the end,
unless the output path of a later input leads to the same file.

A link can lead an output path to a schema, too. But definitions begin with a brace, and no schema
does; so a run that has overwritten a schema that it still has to read does not end well.

        fbsc a.fbs b.fbs -o out         out/a.fields.json    a link to out/b.fields.json
                                        the definitions of a are lost

Without links, schemas share a file only if they show the same stem, and if there is no directory
for the output they are in one directory and one of them has a name that is no text.
-/

namespace FlatSchema

open Location (IsName)

/-! ### Names of outputs -/

namespace Path

theorem isSchema_iff {p : Path} :
    Manifest.isSchema p = true ↔ ∃ stem, p.Named stem (bytesOf "fbs") := by
  rw [Manifest.isSchema, beq_iff_eq, extension?_eq_some_iff]

/-- The stem of a path, as it is shown. -/
def shownStem (p : Path) : String := shownOf (p.stem?.getD [])

/-- The name of the file for the definitions of a schema. -/
def fieldsName (p : Path) : String := p.shownStem ++ ".fields.json"

theorem no_slash_stem (p : Path) : slash ∉ p.stem?.getD [] := by
  rw [stem?]
  cases hname : p.fileName? with
  | none => simp
  | some name =>
    have hslash := (isName_of_fileName? hname).no_slash
    rw [Option.map_some, Option.getD_some, splitName]
    split
    · exact hslash
    · exact fun h => hslash (List.mem_of_mem_take h)

theorem isName_fieldsName (p : Path) : IsName (bytesOf p.fieldsName) := by
  have hfields : bytesOf p.fieldsName = bytesOf p.shownStem ++ bytesOf ".fields.json" :=
    bytesOf_append _ _
  constructor
  · have hstem : slash ∉ bytesOf p.shownStem := fun h => by
      rw [bytesOf, shownStem, shownOf, String.toList_ofList] at h
      exact p.no_slash_stem (Utf8.of_mem_encode_decode (by decide) h)
    rw [hfields, List.mem_append, not_or]
    exact ⟨hstem, by decide +kernel⟩
  · intro h
    have hlong : 2 < (bytesOf p.fieldsName).length := by
      have hext : (bytesOf ".fields.json").length = 12 := by decide +kernel
      rw [hfields, List.length_append, hext]
      omega
    simp only [List.mem_cons, List.not_mem_nil, or_false] at h
    rcases h with h | h | h <;> simp [h] at hlong

/-- The file for definitions is in the directory that is set, or beside the schema. -/
theorem target_outputPath (p : Path) (directory : Option Path) (current : Location) :
    (outputPath p directory).target current =
      (directory.getD (p.parent?.getD ⟨[]⟩)).target current ++ [bytesOf p.fieldsName] :=
  target_child _ current p.isName_fieldsName

/-- Schemas whose output paths lead to one place show the same stem, and if no directory is set
    they are in one directory: they are the same schema, if their stems are texts. -/
theorem eq_of_target_outputPath {p q : Path} (hp : Manifest.isSchema p = true)
    (hq : Manifest.isSchema q = true) {directory : Option Path} {current : Location}
    (h : (outputPath p directory).target current = (outputPath q directory).target current) :
    p.shownStem = q.shownStem ∧ (directory = none →
      (p.target current).dropLast = (q.target current).dropLast ∧
        (Utf8.IsText (p.stem?.getD []) → Utf8.IsText (q.stem?.getD []) →
          p.target current = q.target current)) := by
  obtain ⟨stem, hname⟩ := isSchema_iff.mp hp
  obtain ⟨stem', hname'⟩ := isSchema_iff.mp hq
  obtain ⟨above, habove, htarget⟩ := exists_target_parent hname.fileName current
  obtain ⟨above', habove', htarget'⟩ := exists_target_parent hname'.fileName current
  rw [target_outputPath, target_outputPath] at h
  obtain ⟨hdirectories, hnames⟩ := List.append_inj' h rfl
  have hfields : p.shownStem ++ ".fields.json" = q.shownStem ++ ".fields.json" :=
    bytesOf_injective (List.cons.inj hnames).1
  have hstems : p.shownStem = q.shownStem := by
    simpa [← String.toList_inj] using hfields
  refine ⟨hstems, ?_⟩
  rintro rfl
  rw [habove, habove'] at hdirectories
  rw [htarget, htarget', List.dropLast_concat, List.dropLast_concat]
  refine ⟨hdirectories, fun htext htext' => ?_⟩
  rw [shownStem, shownStem, hname.stem?_eq, hname'.stem?_eq, Option.getD_some, Option.getD_some]
    at hstems
  rw [hname.stem?_eq, Option.getD_some] at htext
  rw [hname'.stem?_eq, Option.getD_some] at htext'
  obtain rfl : stem = stem' := by
    have hbytes := congrArg bytesOf hstems
    rwa [bytesOf_shownOf htext, bytesOf_shownOf htext'] at hbytes
  exact congrArg (· ++ _) hdirectories

end Path

/-! ### Definitions are no schema -/

/-- The text of definitions begins with a brace. -/
theorem SchemaDefinition.exists_handoff_eq (d : SchemaDefinition) (layout : Json.Layout) :
    ∃ rest, (d.handoff layout).toList = Mark.leftBrace.char :: rest := by
  rw [handoff, Json.render, String.toList_ofList]
  exact ⟨_, rfl⟩

/-- Tokens that begin with none that opens a declaration are not read without an error. -/
theorem Parsed.fault_mem_diagnostics {tokens rest : List Token} {x : Token}
    (htokens : Stream.body tokens = x :: rest) (hx : Stream.opensDeclaration x.kind = false) :
    Fault.diagnostic ⟨"declaration", x⟩ ∈ (ofTokens tokens).diagnostics := by
  have htakes := Stream.Takes.of_cons (s := Stream.ofTokens tokens) htokens
  show _ ∈ (Reader.declarations (Stream.ofTokens tokens)).reports
  rw [Reader.declarations, Reader.itemsFrom_eq _ _ rfl htakes, Reader.declaration?_eq_none hx]
  exact List.mem_cons_self ..

/-- A text that begins with a brace is not read without an error. -/
theorem Parsed.exists_error_of_brace {source : String} {rest : List Char}
    (h : source.toList = Mark.leftBrace.char :: rest) (file : String) :
    ∃ d ∈ (ofSource source file).diagnostics, d.severity = .error := by
  have hfirst : Piece.first Mark.leftBrace.char rest =
      ⟨.token (.mark .leftBrace) "\x7b", [Mark.leftBrace.char], []⟩ := by
    cases rest <;> rfl
  have hcut : Mark.leftBrace.char :: rest =
      (Piece.first Mark.leftBrace.char rest).text ++ rest := by
    rw [hfirst]
    rfl
  obtain ⟨x, more, htokens, hx⟩ : ∃ x more, (Lexed.ofSource source file).tokens = x :: more ∧
      x.kind = .mark .leftBrace := by
    rw [Lexed.ofSource, h, Piece.split_cons hcut, Lexed.ofPieces, hfirst]
    exact ⟨_, _, rfl, rfl⟩
  have hbody : Stream.body (Lexed.ofSource source file).tokens = x :: Stream.body more := by
    rw [htokens, Stream.body, List.takeWhile_cons_of_pos (by simp [hx])]
    rfl
  refine ⟨_, List.mem_append_right _ (fault_mem_diagnostics hbody ?_), rfl⟩
  rw [hx]
  rfl

/-- Definitions, read as a schema, are not clean. -/
theorem Settings.not_clean_fields (s : Settings) (input q : Path) (source : String) :
    ¬ s.Clean input (s.fields q source) := by
  intro hclean
  obtain ⟨rest, hrest⟩ := SchemaDefinition.exists_handoff_eq
    (Analysis.ofSchema (Parsed.ofSource source q.toString).schema).definition s.layout
  obtain ⟨d, hd, herror⟩ := Parsed.exists_error_of_brace hrest input.toString
  exact (hclean d (List.mem_append_left _ hd)).1 herror

/-! ### One input -/

namespace Run

open FileTree (Kept Unlinked Wrote files)

variable {o : Options} {s : Settings} {t t₁ t' : FileTree}

/-- A good input of a run that writes is written. -/
theorem Treated.written_of_good (ho : o.Writing) {input : Path} {fate : Fate}
    (h : Treated o s input t fate t') (hgood : fate.isGood = true) :
    ∃ source, t.readText input = .ok source ∧ s.Clean input source ∧
      Wrote (outputPath input s.outputDirectory) (s.fields input source) t t' := by
  cases h with
  | written hread hclean _ _ hwrote => exact ⟨_, hread, hclean, hwrote⟩
  | shown _ _ hmode =>
    have hcheck := ho .check (by simp)
    have hjson := ho .emitJson (by simp)
    simp [hcheck, hjson] at hmode
  | unreadable | rejected | unwritable => cases hgood

theorem Treated.unlinked {input : Path} {fate : Fate} (h : Treated o s input t fate t')
    (hlinks : Unlinked t) : Unlinked t' := by
  cases h with
  | written _ _ _ _ hwrote => exact hwrote.unlinked hlinks
  | unwritable _ _ _ _ hrefused => exact hrefused.grown.unlinked hlinks
  | unreadable | rejected | shown => exact hlinks

/-- Every file of a later tree is one of an earlier tree and holds what it held, or it holds
    definitions. -/
def Handed (s : Settings) (t t' : FileTree) : Prop :=
  ∀ l n, t'.at? l = some (.file n) →
    ((∃ l, t.at? l = some (.file n)) ∧ t'.contents n = t.contents n) ∨
      ∃ q source, t'.contents n = .text (s.fields q source)

theorem Handed.refl (s : Settings) (t : FileTree) : Handed s t t :=
  fun l _ h => .inl ⟨⟨l, h⟩, rfl⟩

/-- What is written is definitions. -/
theorem Handed.wrote (h : Handed s t t₁) {p q : Path} {source : String}
    (hwrote : Wrote p (s.fields q source) t₁ t') : Handed s t t' := by
  obtain ⟨m, hm, htext⟩ := hwrote.exists_file
  intro l n hn
  by_cases hnm : n = m
  · subst hnm
    exact .inr ⟨q, source, htext⟩
  · have hother : t'.fileOf p ≠ .ok n := by
      rw [hm]
      exact fun hmn => hnm (Except.ok.inj hmn).symm
    rw [hwrote.contents n hother]
    rcases hwrote.made l _ hn with hold | ⟨he, -⟩ | ⟨k, he, hfound, -⟩
    · exact h l n hold
    · cases he
    · cases he
      exact absurd (FileTree.fileOf_eq_ok_iff.mpr ⟨l, hfound⟩) hother

/-- A schema that is clean when it is read was there from the start. -/
theorem Handed.exists_source (h : Handed s t t₁) {input : Path} {source : String}
    (hread : t₁.readText input = .ok source) (hclean : s.Clean input source) :
    ∃ n, (∃ l, t.at? l = some (.file n)) ∧ t.contents n = .text source ∧
      t₁.fileOf input = .ok n := by
  obtain ⟨n, hfile, htext⟩ := FileTree.readText_eq_ok_iff.mp hread
  obtain ⟨l, hlocate⟩ := FileTree.fileOf_eq_ok_iff.mp hfile
  have hat : t₁.at? l = some (.file n) := FileTree.at?_of_locate hlocate (by simp [Place.entry?])
  rcases h l n hat with ⟨hold, hsame⟩ | ⟨q, source', hfields⟩
  · exact ⟨n, hold, hsame ▸ htext, hfile⟩
  · cases htext.symm.trans hfields
    exact absurd hclean (s.not_clean_fields input q source')

/-! ### All inputs -/

theorem Course.unlinked {inputs : List Path} {fates : List Fate}
    (h : Course o s t inputs fates t') (hlinks : Unlinked t) : Unlinked t' := by
  induction h with
  | done => exact hlinks
  | next htreated _ _ ih => exact ih (htreated.unlinked hlinks)
  | stop htreated _ => exact htreated.unlinked hlinks

/-- A good course only fills the files that the output paths lead to. -/
theorem Course.contents (ho : o.Writing) {inputs : List Path} {fates : List Fate}
    (h : Course o s t inputs fates t') (hgood : ∀ fate ∈ fates, fate.isGood = true) :
    Kept t t' ∧ ∀ n, (∀ q ∈ inputs, t'.fileOf (outputPath q s.outputDirectory) ≠ .ok n) →
      t'.contents n = t.contents n := by
  induction h with
  | done => exact ⟨.refl _, fun _ _ => rfl⟩
  | @next t t₁ t' input rest fate fates htreated _ _ ih =>
    obtain ⟨hfate, hfates⟩ := List.forall_mem_cons.mp hgood
    obtain ⟨source, -, -, hwrote⟩ := htreated.written_of_good ho hfate
    obtain ⟨hkept, hcontents⟩ := ih hfates
    refine ⟨hwrote.toKept.trans hkept, fun n hn => ?_⟩
    obtain ⟨hinput, hrest⟩ := List.forall_mem_cons.mp hn
    rw [hcontents n hrest, hwrote.contents n]
    exact fun hfile => hinput (FileTree.fileOf_kept hkept hfile)
  | @stop t t' input rest fate _ hstops =>
    have hfate := hgood fate (by simp)
    cases fate <;> cases hstops <;> cases hfate

/-- After a good course there are the definitions of every input whose file no later input shares.
    The induction is on the course: what later inputs do leaves the file of the first one as it is,
    and what the first one writes is no schema, so the later ones are read as they were. -/
theorem Course.outputs (ho : o.Writing) {inputs : List Path} {fates : List Fate}
    (h : Course o s t₁ inputs fates t') (hgood : ∀ fate ∈ fates, fate.isGood = true)
    (hstart : Handed s t t₁) {before behind : List Path} {input : Path}
    (hsplit : inputs = before ++ input :: behind) :
    ∃ n source m, (∃ l, t.at? l = some (.file n)) ∧ t.contents n = .text source ∧
      t'.fileOf input = .ok n ∧ t'.fileOf (outputPath input s.outputDirectory) = .ok m ∧
      ((∀ q ∈ behind, t'.fileOf (outputPath q s.outputDirectory) ≠ .ok m) →
        t'.contents m = .text (s.fields input source)) := by
  induction h generalizing before with
  | done => simp at hsplit
  | @next t₁ t₂ t' first rest fate fates htreated _ hrest ih =>
    obtain ⟨hfate, hfates⟩ := List.forall_mem_cons.mp hgood
    obtain ⟨source, hread, hclean, hwrote⟩ := htreated.written_of_good ho hfate
    cases before with
    | nil =>
      cases hsplit
      obtain ⟨n, hold, hsource, hfile⟩ := hstart.exists_source hread hclean
      obtain ⟨m, hm, htext⟩ := hwrote.exists_file
      obtain ⟨hkept, hcontents⟩ := hrest.contents ho hfates
      refine ⟨n, source, m, hold, hsource, ?_, FileTree.fileOf_kept hkept hm, fun hlater => ?_⟩
      · exact FileTree.fileOf_kept (hwrote.toKept.trans hkept) hfile
      · rw [hcontents m hlater, htext]
    | cons b before =>
      cases hsplit
      exact ih hfates (hstart.wrote hwrote) rfl
  | @stop t t' input rest fate _ hstops =>
    have hfate := hgood fate (by simp)
    cases fate <;> cases hstops <;> cases hfate

/-! ### Whole runs -/

/-- Without links, distinct schemas share a file for their definitions only if they show the same
    stem, and if no directory is set they are in one directory and not both have a name that is a
    text. -/
theorem shownStem_eq_of_fileOf (hlinks : Unlinked t) {p q : Path}
    (hp : Manifest.isSchema p = true) (hq : Manifest.isSchema q = true) {directory : Option Path}
    {k n m : Nat} (hk : t.fileOf p = .ok k) (hn : t.fileOf q = .ok n) (hdistinct : k ≠ n)
    (hpm : t.fileOf (outputPath p directory) = .ok m)
    (hqm : t.fileOf (outputPath q directory) = .ok m) :
    p.shownStem = q.shownStem ∧ (directory = none →
      (p.target t.current).dropLast = (q.target t.current).dropLast ∧
        ¬ (Utf8.IsText (p.stem?.getD []) ∧ Utf8.IsText (q.stem?.getD []))) := by
  have hshared : (outputPath p directory).target t.current =
      (outputPath q directory).target t.current :=
    hlinks.one_name _ _ m (FileTree.at?_target hlinks hpm) (FileTree.at?_target hlinks hqm)
  obtain ⟨hstems, hbeside⟩ := Path.eq_of_target_outputPath hp hq hshared
  refine ⟨hstems, fun hnone => ⟨(hbeside hnone).1, fun ⟨htext, htext'⟩ => hdistinct ?_⟩⟩
  have hat := FileTree.at?_target hlinks hk
  rw [(hbeside hnone).2 htext htext', FileTree.at?_target hlinks hn] at hat
  cases hat
  rfl

/-- After a good run that writes, the file of each input's output path has the definitions of what
    the input held before the run, unless the output path of a later input leads to the same file.
    Without links, distinct schemas share a file only if they show the same stem, and if there is no
    directory for the output they are in one directory and not both have a name that is a text. -/
theorem outputs_of_withArguments (t t' : FileTree) (arguments : List Bytes) (o : Options)
    (r : Report) (ho : Options.ofArguments arguments = .ok o) (hwriting : o.Writing)
    (hrun : (withArguments files arguments).run t = (r, t')) (hcode : r.exitCode = 0) :
    ∃ s, settings? o t = .ok s ∧
      (∀ before input behind, s.inputs = before ++ input :: behind →
        ∃ n source m, (∃ l, t.at? l = some (.file n)) ∧ t.contents n = .text source ∧
          t'.fileOf input = .ok n ∧ t'.fileOf (outputPath input s.outputDirectory) = .ok m ∧
          ((∀ q ∈ behind, t'.fileOf (outputPath q s.outputDirectory) ≠ .ok m) →
            t'.contents m = .text (s.fields input source))) ∧
      (Unlinked t → ∀ p ∈ s.inputs, ∀ q ∈ s.inputs,
        Manifest.isSchema p = true → Manifest.isSchema q = true → t'.fileOf p ≠ t'.fileOf q →
        t'.fileOf (outputPath p s.outputDirectory) = t'.fileOf (outputPath q s.outputDirectory) →
        p.shownStem = q.shownStem ∧ (s.outputDirectory = none →
          (p.target t.current).dropLast = (q.target t.current).dropLast ∧
            ¬ (Utf8.IsText (p.stem?.getD []) ∧ Utf8.IsText (q.stem?.getD [])))) := by
  rw [withArguments, ho] at hrun
  obtain ⟨lines, result, hoptions, ⟨rfl, -⟩ | ⟨-, hone⟩⟩ := report_cases hrun
  · obtain ⟨found, s, hfound, hs⟩ := exists_settings hoptions
    have htokens := hwriting .emitTokens (by simp)
    have hast := hwriting .emitAst (by simp)
    obtain ⟨fates, hcourse, hgood⟩ := withOptions_course htokens hast hfound hs hoptions
    have hall := hgood.mp rfl
    refine ⟨s, by rw [settings?, hfound]; exact hs, ?_, ?_⟩
    · exact fun before input behind hsplit =>
        hcourse.outputs hwriting hall (Handed.refl s t) hsplit
    · intro hlinks p hp q hq hschema hschema' hdistinct hshared
      obtain ⟨before, behind, hsplit⟩ := List.append_of_mem hp
      obtain ⟨before', behind', hsplit'⟩ := List.append_of_mem hq
      obtain ⟨k, -, m, -, -, hk, hpm, -⟩ :=
        hcourse.outputs hwriting hall (Handed.refl s t) hsplit
      obtain ⟨n, -, -, -, -, hn, -, -⟩ :=
        hcourse.outputs hwriting hall (Handed.refl s t) hsplit'
      rw [hk, hn] at hdistinct
      rw [← (hcourse.contents hwriting hall).1.current]
      exact shownStem_eq_of_fileOf (hcourse.unlinked hlinks) hschema hschema' hk hn
        (fun hkn => hdistinct (congrArg _ hkn)) hpm (hshared.symm.trans hpm)
  · cases hone.symm.trans hcode

/-- Two schemas of one stem in two directories. -/
def twins : FileTree := .ofTexts [
  (["a", "x.fbs"], "table A \x7b\x7d"), (["b", "x.fbs"], "table B \x7b\x7d")]

/-- Both schemas, with one directory for their definitions. -/
def twinArguments : List Bytes := ["a/x.fbs", "b/x.fbs", "-o", "out"].map bytesOf

def twinOptions : Options where
  inputs := [.ofString "a/x.fbs", .ofString "b/x.fbs"]
  output := some (.ofString "out")

def twinSettings : Settings := ⟨twinOptions.inputs, twinOptions.output, .pretty, false⟩

/-- What comes of both. -/
def twinRun : Report × FileTree := (withArguments files twinArguments).run twins

/-- The later twin has its definitions. -/
theorem outputs_of_withArguments_twins : twinRun.1.exitCode = 0 ∧
    twinRun.2.readText (.ofString "out/x.fields.json") =
      .ok (twinSettings.fields (.ofString "b/x.fbs") "table B \x7b\x7d") := by
  have hoptions : Options.ofArguments twinArguments = .ok twinOptions := by decide +kernel
  have hwriting : twinOptions.Writing := by simp [Options.Writing, Options.has, twinOptions]
  have hcode : twinRun.1.exitCode = 0 := by decide +kernel
  have hsettings : settings? twinOptions twins = .ok twinSettings := by decide +kernel
  have hfile : twinRun.2.fileOf (.ofString "b/x.fbs") = .ok 1 := by decide +kernel
  have htext : twins.contents 1 = .text "table B \x7b\x7d" := by decide +kernel
  have hpath : outputPath (.ofString "b/x.fbs") twinSettings.outputDirectory =
      .ofString "out/x.fields.json" := by decide +kernel
  refine ⟨hcode, ?_⟩
  obtain ⟨s, hs, houtputs, -⟩ := outputs_of_withArguments twins twinRun.2 twinArguments twinOptions
    twinRun.1 hoptions hwriting rfl hcode
  obtain rfl : twinSettings = s := Except.ok.inj (hsettings.symm.trans hs)
  obtain ⟨n, source, m, -, hsource, hn, hm, hfields⟩ :=
    houtputs [.ofString "a/x.fbs"] (.ofString "b/x.fbs") [] rfl
  obtain rfl : 1 = n := Except.ok.inj (hfile.symm.trans hn)
  obtain rfl : "table B \x7b\x7d" = source := by simpa using htext.symm.trans hsource
  exact FileTree.readText_eq_ok_iff.mpr ⟨m, hpath ▸ hm, hfields (by simp)⟩

/-- Two schemas in one directory, whose names are no texts. -/
def nameless : FileTree :=
  (({} : FileTree).putFile [0xff :: bytesOf ".fbs"] (.text "root_type A;")).putFile
    [0xfe :: bytesOf ".fbs"] (.text "")

def namelessInputs : List Bytes := [0xff :: bytesOf ".fbs", 0xfe :: bytesOf ".fbs"]

/-- Two schemas, and a link from the file for the definitions of one to that of the other. -/
def linked : FileTree :=
  (FileTree.ofTexts [(["a.fbs"], "root_type A;"), (["b.fbs"], "")]).put
    [bytesOf "a.fields.json"] (.link (.ofString "b.fields.json"))

def linkedInputs : List Bytes := ["a.fbs", "b.fbs"].map bytesOf

/-- Schemas on the command line, with nothing else. -/
def plainOptions (inputs : List Bytes) : Options where
  inputs := inputs.map Path.mk

def plainSettings (inputs : List Bytes) : Settings := ⟨inputs.map Path.mk, none, .pretty, false⟩

/-- A run is good and its inputs are distinct schemas, but the definitions of one of them are not
    where they should be. -/
def Loses (t : FileTree) (arguments : List Bytes) (o : Options) (s : Settings) (input : Path)
    (source : String) : Prop :=
  Options.ofArguments arguments = .ok o ∧ settings? o t = .ok s ∧
    (∀ p ∈ s.inputs, Manifest.isSchema p = true) ∧ (s.inputs.map t.fileOf).Nodup ∧
    input ∈ s.inputs ∧ t.readText input = .ok source ∧
    ((withArguments files arguments).run t).1.exitCode = 0 ∧
    ((withArguments files arguments).run t).2.readText (outputPath input s.outputDirectory) ≠
      .ok (s.fields input source)

instance (t : FileTree) (arguments : List Bytes) (o : Options) (s : Settings) (input : Path)
    (source : String) : Decidable (Loses t arguments o s input source) :=
  inferInstanceAs (Decidable (_ ∧ _))

/-- The earlier of two schemas loses its definitions: with an output directory if both have one
    stem, in one directory if their names show the same, and anywhere if there is a link. -/
theorem not_outputs_of_withArguments_twins :
    (twinOptions.Writing ∧ Loses twins twinArguments twinOptions twinSettings
      (.ofString "a/x.fbs") "table A \x7b\x7d") ∧
    ((plainOptions namelessInputs).Writing ∧ Loses nameless namelessInputs
      (plainOptions namelessInputs) (plainSettings namelessInputs) ⟨0xff :: bytesOf ".fbs"⟩
      "root_type A;") ∧
    (plainOptions linkedInputs).Writing ∧ Loses linked linkedInputs (plainOptions linkedInputs)
      (plainSettings linkedInputs) (.ofString "a.fbs") "root_type A;" := by
  have hplain (inputs : List Bytes) : (plainOptions inputs).Writing := by
    simp [Options.Writing, Options.has, plainOptions]
  refine ⟨⟨by simp [Options.Writing, Options.has, twinOptions], ?_⟩, ⟨hplain _, ?_⟩, hplain _, ?_⟩
  · decide +kernel
  · decide +kernel
  · decide +kernel

end Run

end FlatSchema
