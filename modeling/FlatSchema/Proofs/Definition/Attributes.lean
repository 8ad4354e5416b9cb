import FlatSchema.Definition
import FlatSchema.Definition.Attributes
import FlatSchema.Proofs.Text.Blank
import FlatSchema.Proofs.Text.Numeral
import Mathlib.Data.List.Induction

/-!
What a row of attributes says about a key. Only the last entry of the key counts, and an empty value
counts as none, so that there are three things to say: nothing, the bare key, or a text.

        (id: 1, key, id: " 2 ", key: "")        id ↦ text " 2 "      key ↦ bare      hash ↦ nothing
-/

namespace FlatSchema

/-- What is said about a key. -/
inductive Saying where
  | nothing
  | bare
  | text (t : String)
deriving DecidableEq, Inhabited

/-- What the entries of a row say about a key: the last entry of the key decides. -/
inductive Says (entries : List MetadataEntry) (key : String) : Saying → Prop where
  | nothing : (∀ e ∈ entries, e.key ≠ key) → Says entries key .nothing
  | bare {before behind : List MetadataEntry} {e : MetadataEntry} :
      entries = before ++ e :: behind → e.key = key → (∀ later ∈ behind, later.key ≠ key) →
      (∀ v ∈ e.value, v.text = "") → Says entries key .bare
  | text {before behind : List MetadataEntry} {e : MetadataEntry} {v : Spelling} :
      entries = before ++ e :: behind → e.key = key → (∀ later ∈ behind, later.key ≠ key) →
      e.value = some v → v.text ≠ "" → Says entries key (.text v.text)

namespace AttributeMap

/-! ### The last entry of a key -/

/-- An entry as an attribute. -/
def attributeOf (e : MetadataEntry) : Attribute := ⟨e.value.map Spelling.text, e.span⟩

theorem lookup_set_self (key : String) (a : Attribute) (entries : List (String × Attribute)) :
    (set key a entries).lookup key = some a := by
  induction entries with
  | nil => simp [set]
  | cons e rest ih =>
    unfold set
    split
    · simp
    · next hne => rw [List.lookup_cons, beq_false_of_ne (Ne.symm hne), ih]

theorem lookup_set_of_ne {key other : String} (hne : other ≠ key) (a : Attribute)
    (entries : List (String × Attribute)) :
    (set key a entries).lookup other = entries.lookup other := by
  induction entries with
  | nil => simp [set, hne]
  | cons e rest ih =>
    unfold set
    split
    · next heq =>
      subst heq
      rw [List.lookup_cons, List.lookup_cons, beq_false_of_ne hne]
    · rw [List.lookup_cons, List.lookup_cons, ih]

theorem get?_add (m : AttributeMap) (e : MetadataEntry) (key : String) :
    (m.add e).get? key = if e.key = key then some (attributeOf e) else m.get? key := by
  split
  · next heq =>
    subst heq
    exact lookup_set_self _ _ _
  · next hne => exact lookup_set_of_ne (Ne.symm hne) _ _

theorem ofEntries_concat (entries : List MetadataEntry) (e : MetadataEntry) :
    ofEntries (entries ++ [e]) = (ofEntries entries).add e := by
  rw [ofEntries, List.foldl_append]
  rfl

/-- The map holds the last entry of every key. -/
theorem get?_ofEntries (entries : List MetadataEntry) (key : String) :
    (ofEntries entries).get? key =
      (entries.reverse.find? fun e => e.key = key).map attributeOf := by
  induction entries using List.reverseRecOn with
  | nil => rfl
  | append_singleton entries e ih =>
    rw [ofEntries_concat, get?_add, ih, List.reverse_append, List.reverse_singleton,
      List.singleton_append, List.find?_cons]
    split <;> simp_all

/-- The last entry of a key is the one in the map. -/
theorem get?_of_last {entries before behind : List MetadataEntry} {e : MetadataEntry} {key : String}
    (hentries : entries = before ++ e :: behind) (hkey : e.key = key)
    (hbehind : ∀ later ∈ behind, later.key ≠ key) :
    (ofEntries entries).get? key = some (attributeOf e) := by
  have hnone : behind.reverse.find? (fun e => e.key = key) = none := by
    rw [List.find?_eq_none]
    intro later hlater
    simpa using hbehind later (List.mem_reverse.mp hlater)
  rw [get?_ofEntries, hentries, List.reverse_append, List.reverse_cons, List.append_assoc,
    List.find?_append, hnone, List.singleton_append, List.find?_cons_of_pos (by simpa using hkey)]
  rfl

/-- What the map holds for a key is its last entry. -/
theorem exists_last {entries : List MetadataEntry} {key : String} {a : Attribute}
    (h : (ofEntries entries).get? key = some a) :
    ∃ before e behind, entries = before ++ e :: behind ∧ e.key = key ∧
      (∀ later ∈ behind, later.key ≠ key) ∧ a = attributeOf e := by
  rw [get?_ofEntries, Option.map_eq_some_iff] at h
  obtain ⟨e, he, rfl⟩ := h
  obtain ⟨hkey, behind, before, hreverse, hbehind⟩ := List.find?_eq_some_iff_append.mp he
  refine ⟨before.reverse, e, behind.reverse, ?_, by simpa using hkey, ?_, rfl⟩
  · have hentries := congrArg List.reverse hreverse
    rw [List.reverse_reverse, List.reverse_append, List.reverse_cons] at hentries
    rw [hentries, List.append_assoc, List.singleton_append]
  · intro later hlater
    simpa using hbehind later (List.mem_reverse.mp hlater)

theorem get?_eq_none_iff {entries : List MetadataEntry} {key : String} :
    (ofEntries entries).get? key = none ↔ ∀ e ∈ entries, e.key ≠ key := by
  simp [get?_ofEntries]

/-- `e` is the last entry of a key. -/
def IsLast (entries : List MetadataEntry) (key : String) (e : MetadataEntry) : Prop :=
  ∃ before behind, entries = before ++ e :: behind ∧ e.key = key ∧ ∀ later ∈ behind, later.key ≠ key

theorem get?_eq_some_iff {entries : List MetadataEntry} {key : String} {a : Attribute} :
    (ofEntries entries).get? key = some a ↔ ∃ e, IsLast entries key e ∧ a = attributeOf e := by
  constructor
  · intro h
    obtain ⟨before, e, behind, hentries, hkey, hbehind, ha⟩ := exists_last h
    exact ⟨e, ⟨before, behind, hentries, hkey, hbehind⟩, ha⟩
  · rintro ⟨e, ⟨before, behind, hentries, hkey, hbehind⟩, rfl⟩
    exact get?_of_last hentries hkey hbehind

/-! ### Keys that come again -/

/-- `Repeats before entries ds`: the warnings about entries behind `before` whose key came before
    are `ds`, one for each such entry, pointing back to the entry whose value it replaces. -/
inductive Repeats : List MetadataEntry → List MetadataEntry → List Diagnostic → Prop where
  | done {before : List MetadataEntry} : Repeats before [] []
  | new {before rest : List MetadataEntry} {e : MetadataEntry} {ds : List Diagnostic} :
      (∀ p ∈ before, p.key ≠ e.key) → Repeats (before ++ [e]) rest ds →
      Repeats before (e :: rest) ds
  | again {before rest : List MetadataEntry} {e p : MetadataEntry} {ds : List Diagnostic} :
      IsLast before e.key p → Repeats (before ++ [e]) rest ds →
      Repeats before (e :: rest)
        ({ severity := .warning, message := s!"duplicate attribute `{e.key}`", span := some e.span,
           related := [⟨p.span, "previously set here"⟩] } :: ds)

theorem repeats_iff {before entries : List MetadataEntry} {ds : List Diagnostic} :
    Repeats before entries ds ↔ (ofEntries before).duplicatesFrom entries = ds := by
  constructor
  · intro h
    induction h with
    | done => rfl
    | new hnew _ ih => rw [duplicatesFrom, get?_eq_none_iff.mpr hnew, ← ofEntries_concat, ih]; rfl
    | again hlast _ ih =>
      rw [duplicatesFrom, get?_eq_some_iff.mpr ⟨_, hlast, rfl⟩, ← ofEntries_concat, ih]
      rfl
  · rintro rfl
    induction entries generalizing before with
    | nil => exact .done
    | cons e rest ih =>
      rw [duplicatesFrom, ← ofEntries_concat]
      cases h : (ofEntries before).get? e.key with
      | none => exact .new (get?_eq_none_iff.mp h) ih
      | some a =>
        obtain ⟨p, hlast, rfl⟩ := get?_eq_some_iff.mp h
        exact .again hlast ih

/-- Every warning is about an entry and an attribute of its key. -/
theorem exists_of_mem_duplicatesFrom {m : AttributeMap} {entries : List MetadataEntry}
    {d : Diagnostic} (hd : d ∈ m.duplicatesFrom entries) : ∃ e a, d = duplicateWarning e a := by
  induction entries generalizing m with
  | nil => cases hd
  | cons e rest ih =>
    rw [duplicatesFrom, List.mem_append, Option.mem_toList, Option.map_eq_some_iff] at hd
    rcases hd with ⟨a, -, rfl⟩ | hd
    · exact ⟨e, a, rfl⟩
    · exact ih hd

/-- There is no warning exactly if no key comes again. -/
theorem duplicates_eq_nil_iff {entries : List MetadataEntry} :
    duplicates entries = [] ↔ (entries.map MetadataEntry.key).Nodup := by
  have hfrom (before : List MetadataEntry) : (ofEntries before).duplicatesFrom entries = [] ↔
      (∀ e ∈ entries, ∀ p ∈ before, p.key ≠ e.key) ∧ (entries.map MetadataEntry.key).Nodup := by
    induction entries generalizing before with
    | nil => simp [duplicatesFrom]
    | cons e rest ih =>
      have hhead : ((ofEntries before).get? e.key).map (duplicateWarning e) = none ↔
          ∀ p ∈ before, p.key ≠ e.key := by
        rw [Option.map_eq_none_iff, get?_eq_none_iff]
      rw [duplicatesFrom, List.append_eq_nil_iff, Option.toList_eq_nil_iff, hhead,
        ← ofEntries_concat, ih]
      simp only [List.mem_append, List.mem_singleton, List.forall_mem_cons, List.map_cons,
        List.nodup_cons, List.mem_map]
      grind
  rw [duplicates, show ({} : AttributeMap) = ofEntries [] from rfl, hfrom]
  simp

/-! ### Sayings -/

/-- What a map says about a key. -/
def saying (m : AttributeMap) (key : String) : Saying :=
  match m.get? key with
  | none => .nothing
  | some a =>
    match a.text? with
    | none => .bare
    | some t => .text t

theorem text?_attributeOf_eq_none_iff {e : MetadataEntry} :
    (attributeOf e).text? = none ↔ ∀ v ∈ e.value, v.text = "" := by
  cases h : e.value <;> simp [attributeOf, Attribute.text?, h, Option.filter]

theorem text?_attributeOf_eq_some_iff {e : MetadataEntry} {t : String} :
    (attributeOf e).text? = some t ↔ ∃ v, e.value = some v ∧ v.text ≠ "" ∧ v.text = t := by
  cases h : e.value <;> simp [attributeOf, Attribute.text?, h, Option.filter]

/-- The map of a row says what the row says. -/
theorem says_iff {entries : List MetadataEntry} {key : String} {s : Saying} :
    Says entries key s ↔ (ofEntries entries).saying key = s := by
  constructor
  · intro h
    unfold saying
    cases h with
    | nothing h => rw [get?_eq_none_iff.mpr h]
    | bare hentries hkey hbehind hvalue =>
      rw [get?_of_last hentries hkey hbehind]
      simp only [text?_attributeOf_eq_none_iff.mpr hvalue]
    | text hentries hkey hbehind hvalue hne =>
      rw [get?_of_last hentries hkey hbehind]
      simp only [text?_attributeOf_eq_some_iff.mpr ⟨_, hvalue, hne, rfl⟩]
  · rintro rfl
    unfold saying
    split
    · next h => exact .nothing (get?_eq_none_iff.mp h)
    · next a h =>
      obtain ⟨before, e, behind, hentries, hkey, hbehind, rfl⟩ := exists_last h
      split
      · next hvalue =>
        exact .bare hentries hkey hbehind (text?_attributeOf_eq_none_iff.mp hvalue)
      · next t hvalue =>
        obtain ⟨v, hv, hne, rfl⟩ := text?_attributeOf_eq_some_iff.mp hvalue
        exact .text hentries hkey hbehind hv hne

/-- An attribute is read as the number that its text without the white space around it says. -/
theorem number_eq_value_iff {m : AttributeMap} {key : String} {n : Int} :
    m.number key = .value n ↔ ∃ t core, m.saying key = .text t ∧
      IsCore t.toList core ∧ IsNumeral core n ∧ -0x80000000 ≤ n ∧ n < 0x80000000 := by
  have hint (text : List Char) : int32? (trim text) = some n ↔
      ∃ core, IsCore text core ∧ IsNumeral core n ∧ -0x80000000 ≤ n ∧ n < 0x80000000 := by
    simp only [isCore_iff, exists_eq_left', int32?_eq_some_iff]
  unfold number saying
  cases m.get? key with
  | none => simp
  | some a =>
    cases ha : a.text? with
    | none => simp [ha]
    | some t =>
      simp only [ha, Option.bind_some, Saying.text.injEq, exists_and_left, exists_eq_left', ← hint]
      cases int32? (trim t.toList) <;> simp

end AttributeMap

/-- A rule reads what is said about its key. -/
theorem AttributeRule.value_eq {α : Type} (rule : AttributeRule α) (m : AttributeMap) :
    rule.value m = match m.saying rule.key with
      | .nothing => rule.absent
      | .bare => rule.present
      | .text t => (rule.accept t).getD rule.absent := by
  unfold value AttributeMap.saying
  cases m.get? rule.key with
  | none => rfl
  | some a => cases ha : a.text? <;> simp [ha]

/-! ### Texts -/

/-- `text` is `word` up to white space around it and the case of ASCII letters. -/
def Names (text word : String) : Prop :=
  ∃ core, IsCore text.toList core ∧ sameLetters (String.ofList core) word = true

theorem names_iff {text word : String} : Names text word ↔ sameLetters (trimString text) word := by
  constructor
  · rintro ⟨core, hcore, hsame⟩
    rwa [trimString, isCore_iff.mp hcore]
  · intro h
    exact ⟨trim text.toList, isCore_trim _, h⟩

theorem sameLetters_of_names {text a b : String} (ha : Names text a) (hb : Names text b) :
    sameLetters a b = true := by
  rw [names_iff, sameLetters, beq_iff_eq] at ha hb
  rw [sameLetters, beq_iff_eq, ← ha, hb]

/-- A truth value is named by its word. -/
theorem truth?_eq_some_iff {text : String} {b : Bool} :
    truth? text = some b ↔ Names text (if b then "true" else "false") := by
  have hnot : ¬ (Names text "true" ∧ Names text "false") :=
    fun ⟨ht, hf⟩ => absurd (sameLetters_of_names ht hf) (by decide)
  simp only [names_iff] at hnot ⊢
  unfold truth?
  cases b <;> grind

theorem truth?_eq_none_iff {text : String} :
    truth? text = none ↔ ¬ Names text "true" ∧ ¬ Names text "false" := by
  simp only [Option.eq_none_iff_forall_ne_some, ne_eq, truth?_eq_some_iff, Bool.forall_bool]
  simp [and_comm]

end FlatSchema
