import FlatSchema.Json
import FlatSchema.Toml.Text

/-!
What a JSON text says. The grammar has all of JSON except numbers with a fraction or an exponent:
white space around every mark, both ways to write a character by its code, and members in any
number. It is given by what it derives, apart from any reader and from the writer, and a text of it
says one value only.

        [ 1 ,{"a\u0062" : -0} ]   says   [1, {"ab": 0}]

That is so because of what each part starts with and ends in. White space and rows of digits end
where another character comes, a string ends at the first quote that no backslash takes away, and
the first character of a value tells of which kind it is.
-/

namespace FlatSchema.Json

open Toml (isHexDigit hexNumber)

/-! ### Rows -/

/-- White space in JSON. -/
def isSpace (c : Char) : Bool := c ∈ [' ', '\t', '\n', '\r']

/-- A row of characters of one class ends where the class ends. -/
theorem row_unique {p : Char → Bool} {row row' rest rest' : List Char}
    (hrow : ∀ c ∈ row, p c = true) (hrow' : ∀ c ∈ row', p c = true)
    (hrest : ∀ c ∈ rest.head?, p c = false) (hrest' : ∀ c ∈ rest'.head?, p c = false)
    (h : row ++ rest = row' ++ rest') : row = row' ∧ rest = rest' := by
  have htake {row rest : List Char} (hrow : ∀ c ∈ row, p c = true)
      (hrest : ∀ c ∈ rest.head?, p c = false) : (row ++ rest).takeWhile p = row := by
    rw [List.takeWhile_append_of_pos hrow]
    cases rest with
    | nil => simp
    | cons c rest => rw [List.takeWhile_cons_of_neg (by simp [hrest c rfl]), List.append_nil]
  have hrows : row = row' := by rw [← htake hrow hrest, h, htake hrow' hrest']
  subst hrows
  exact ⟨rfl, List.append_cancel_left h⟩

/-! ### Strings -/

/-- The character that a letter behind a backslash stands for. -/
def lettered? : Char → Option Char
  | '"' => some '"'
  | '\\' => some '\\'
  | '/' => some '/'
  | 'b' => some '\x08'
  | 'f' => some '\x0c'
  | 'n' => some '\n'
  | 'r' => some '\r'
  | 't' => some '\t'
  | _ => none

/-- Four hexadecimal digits that write a number. -/
structure IsCode (digits : List Char) (n : Nat) : Prop where
  length : digits.length = 4
  hex : ∀ d ∈ digits, isHexDigit d = true
  value : hexNumber digits = n

/-- The ways to write one character inside a string. What four digits cannot write is written by the
    two halves of its code, of ten bits each. -/
inductive Spells : List Char → Char → Prop where
  | plain {c : Char} : ' ' ≤ c → c ≠ '"' → c ≠ '\\' → Spells [c] c
  | letter {l c : Char} : lettered? l = some c → Spells ['\\', l] c
  | code {digits : List Char} {n : Nat} : IsCode digits n → n.isValidChar →
      Spells ('\\' :: 'u' :: digits) (Char.ofNat n)
  | halves {digits more : List Char} {high low : Nat} : high < 0x400 → low < 0x400 →
      IsCode digits (0xd800 + high) → IsCode more (0xdc00 + low) →
      Spells ('\\' :: 'u' :: (digits ++ '\\' :: 'u' :: more))
        (Char.ofNat (0x10000 + 0x400 * high + low))

/-- The ways to write characters one after another. -/
inductive SpellsAll : List Char → List Char → Prop where
  | nil : SpellsAll [] []
  | cons {text more : List Char} {c : Char} {cs : List Char} :
      Spells text c → SpellsAll more cs → SpellsAll (text ++ more) (c :: cs)

/-- The ways to write a string. -/
inductive IsQuoted : List Char → String → Prop where
  | mk {body : List Char} {s : String} : SpellsAll body s.toList →
      IsQuoted ('"' :: (body ++ ['"'])) s

theorem IsCode.unique {digits digits' rest rest' : List Char} {n n' : Nat}
    (hcode : IsCode digits n) (hcode' : IsCode digits' n') (h : digits ++ rest = digits' ++ rest') :
    n = n' ∧ rest = rest' := by
  obtain ⟨rfl, hrest⟩ := List.append_inj h (hcode.length.trans hcode'.length.symm)
  exact ⟨hcode.value.symm.trans hcode'.value, hrest⟩

/-- No written character starts with a quote. -/
theorem Spells.head {text : List Char} {c : Char} (h : Spells text c) :
    ∃ d more, text = d :: more ∧ d ≠ '"' := by
  cases h with
  | plain _ hquote _ => exact ⟨_, _, rfl, hquote⟩
  | letter _ | code _ _ | halves _ _ _ _ => exact ⟨'\\', _, rfl, by decide⟩

/-- The number of the first half of a code is no code by itself. -/
theorem not_isValidChar_high {high : Nat} (h : high < 0x400) : ¬ (0xd800 + high).isValidChar := by
  simp only [Nat.isValidChar]
  omega

theorem Spells.unique {text text' rest rest' : List Char} {c c' : Char}
    (hc : Spells text c) (hc' : Spells text' c') (h : text ++ rest = text' ++ rest') :
    c = c' ∧ rest = rest' := by
  cases hc with
  | plain _ _ hne =>
    cases hc' with
    | plain => simpa using h
    | letter | code | halves => simp [hne] at h
  | letter hl =>
    cases hc' with
    | plain _ _ hne => simp [hne.symm] at h
    | letter hl' =>
      obtain ⟨rfl, hrest⟩ : _ ∧ rest = rest' := by simpa using h
      exact ⟨Option.some.inj (hl.symm.trans hl'), hrest⟩
    | code | halves =>
      obtain ⟨rfl, -⟩ : _ = 'u' ∧ _ := by simpa using h
      cases hl
  | code hcode hvalid =>
    cases hc' with
    | plain _ _ hne => simp [hne.symm] at h
    | letter hl' =>
      obtain ⟨rfl, -⟩ : 'u' = _ ∧ _ := by simpa using h
      cases hl'
    | code hcode' hvalid' =>
      obtain ⟨rfl, hrest⟩ := hcode.unique hcode' (by simpa using h)
      exact ⟨rfl, hrest⟩
    | halves hhigh _ hcode' _ =>
      obtain ⟨rfl, -⟩ := hcode.unique hcode' (by simpa using h)
      exact absurd hvalid (not_isValidChar_high hhigh)
  | halves hhigh hlow hcode hmore =>
    cases hc' with
    | plain _ _ hne => simp [hne.symm] at h
    | letter hl' =>
      obtain ⟨rfl, -⟩ : 'u' = _ ∧ _ := by simpa using h
      cases hl'
    | code hcode' hvalid' =>
      obtain ⟨rfl, -⟩ := hcode.unique hcode' (by simpa using h)
      exact absurd hvalid' (not_isValidChar_high hhigh)
    | halves _ _ hcode' hmore' =>
      obtain ⟨hhighs, hrest⟩ := hcode.unique hcode' (by simpa using h)
      obtain ⟨hlows, hrest⟩ := hmore.unique hmore' (by simpa using hrest)
      rw [Nat.add_left_cancel hhighs, Nat.add_left_cancel hlows]
      exact ⟨rfl, hrest⟩

theorem SpellsAll.unique {text text' rest rest' cs cs' : List Char}
    (hcs : SpellsAll text cs) (hcs' : SpellsAll text' cs')
    (h : text ++ '"' :: rest = text' ++ '"' :: rest') : cs = cs' ∧ rest = rest' := by
  induction hcs generalizing text' cs' with
  | nil =>
    cases hcs' with
    | nil => simpa using h
    | cons hc _ =>
      obtain ⟨d, more, rfl, hd⟩ := hc.head
      simp [hd.symm] at h
  | cons hc _ ih =>
    cases hcs' with
    | nil =>
      obtain ⟨d, more, rfl, hd⟩ := hc.head
      simp [hd] at h
    | cons hc' hmore' =>
      simp only [List.append_assoc] at h
      obtain ⟨rfl, h⟩ := hc.unique hc' h
      obtain ⟨rfl, hrest⟩ := ih hmore' h
      exact ⟨rfl, hrest⟩

theorem IsQuoted.head {text : List Char} {s : String} (h : IsQuoted text s) :
    ∃ more, text = '"' :: more := by
  obtain ⟨-⟩ := h
  exact ⟨_, rfl⟩

theorem IsQuoted.unique {text text' rest rest' : List Char} {s s' : String}
    (hs : IsQuoted text s) (hs' : IsQuoted text' s') (h : text ++ rest = text' ++ rest') :
    s = s' ∧ rest = rest' := by
  obtain ⟨hcs⟩ := hs
  obtain ⟨hcs'⟩ := hs'
  obtain ⟨hs, hrest⟩ := hcs.unique hcs' (by simpa using h)
  exact ⟨String.toList_inj.mp hs, hrest⟩

/-! ### Integers -/

/-- What may stand before the digits of a number, and what it multiplies them by. -/
def signs : List (List Char × Int) := [([], 1), (['-'], -1)]

/-- The ways to write an integer: no more than one zero in front, and no plus. -/
inductive IsInteger : List Char → Int → Prop where
  | mk {sign digits : List Char} {factor : Int} : (sign, factor) ∈ signs → digits ≠ [] →
      (∀ d ∈ digits, d.isDigit = true) → (digits.head? = some '0' → digits = ['0']) →
      IsInteger (sign ++ digits) (factor * Nat.ofDigitChars 10 digits 0)

theorem IsInteger.head {text : List Char} {n : Int} (h : IsInteger text n) :
    ∃ c more, text = c :: more ∧ (c == '-' || c.isDigit) = true := by
  obtain ⟨hsign, hne, hdigits, -⟩ := h
  obtain ⟨d, digits, rfl⟩ := List.exists_cons_of_ne_nil hne
  have hd : d.isDigit = true := hdigits d List.mem_cons_self
  simp only [signs, List.mem_cons, Prod.mk.injEq, List.not_mem_nil, or_false] at hsign
  rcases hsign with ⟨rfl, -⟩ | ⟨rfl, -⟩
  · exact ⟨d, digits, rfl, by simp [hd]⟩
  · exact ⟨'-', d :: digits, rfl, rfl⟩

theorem IsInteger.unique {text text' rest rest' : List Char} {n n' : Int}
    (hn : IsInteger text n) (hn' : IsInteger text' n')
    (hrest : ∀ c ∈ rest.head?, c.isDigit = false) (hrest' : ∀ c ∈ rest'.head?, c.isDigit = false)
    (h : text ++ rest = text' ++ rest') : n = n' ∧ rest = rest' := by
  obtain ⟨hsign, hne, hdigits, -⟩ := hn
  obtain ⟨hsign', hne', hdigits', -⟩ := hn'
  next sign digits factor sign' digits' factor' =>
  have hhead {digits : List Char} (hdigits : ∀ d ∈ digits, d.isDigit = true) (hne : digits ≠ [])
      (more : List Char) : (digits ++ more).head? ≠ some '-' := by
    obtain ⟨d, digits, rfl⟩ := List.exists_cons_of_ne_nil hne
    rintro hd
    obtain rfl : d = '-' := by simpa using hd
    exact absurd (hdigits '-' List.mem_cons_self) (by decide)
  have hsigns : (sign, factor) = (sign', factor') ∧ digits ++ rest = digits' ++ rest' := by
    simp only [signs, List.mem_cons, Prod.mk.injEq, List.not_mem_nil, or_false] at hsign hsign'
    rcases hsign with ⟨rfl, rfl⟩ | ⟨rfl, rfl⟩ <;> rcases hsign' with ⟨rfl, rfl⟩ | ⟨rfl, rfl⟩
    · exact ⟨rfl, h⟩
    · exact absurd (congrArg List.head? h) (hhead hdigits hne rest)
    · exact absurd (congrArg List.head? h).symm (hhead hdigits' hne' rest')
    · exact ⟨rfl, by simpa using h⟩
  obtain ⟨hsigns, hrows⟩ := hsigns
  cases hsigns
  obtain ⟨rfl, hrest⟩ := row_unique hdigits hdigits' hrest hrest' hrows
  exact ⟨rfl, hrest⟩

/-! ### Values -/

/-- A value inside a text, with the white space around it. -/
structure Item where
  before : List Char
  text : List Char
  behind : List Char
  value : Json

/-- A member of an object inside a text: its key with the white space around it, and its value. -/
structure Member where
  before : List Char
  quoted : List Char
  behind : List Char
  key : String
  item : Item

def Item.written (i : Item) : List Char := i.before ++ (i.text ++ i.behind)

def Member.written (m : Member) : List Char :=
  m.before ++ (m.quoted ++ (m.behind ++ ':' :: m.item.written))

def Member.entry (m : Member) : String × Json := (m.key, m.item.value)

/-- There is nothing but white space around the value. -/
structure Item.Spaced (i : Item) : Prop where
  before : ∀ c ∈ i.before, isSpace c = true
  behind : ∀ c ∈ i.behind, isSpace c = true

structure Member.Spaced (m : Member) : Prop where
  before : ∀ c ∈ m.before, isSpace c = true
  behind : ∀ c ∈ m.behind, isSpace c = true
  quoted : IsQuoted m.quoted m.key
  item : m.item.Spaced

/-- Written items with commas between them. Where there are none, there may be white space. -/
def listing (gap : List Char) : List (List Char) → List Char
  | [] => gap
  | first :: rest => first ++ rest.flatMap (',' :: ·)

/-- What a text without white space around it says. -/
inductive Denotes : List Char → Json → Prop where
  | null : Denotes "null".toList .null
  | bool (b : Bool) : Denotes (if b then "true" else "false").toList (.bool b)
  | integer {text : List Char} {n : Int} : IsInteger text n → Denotes text (.integer n)
  | string {text : List Char} {s : String} : IsQuoted text s → Denotes text (.string s)
  | array {gap : List Char} {row : List Item} : (∀ c ∈ gap, isSpace c = true) →
      (∀ i ∈ row, i.Spaced) → (∀ i ∈ row, Denotes i.text i.value) →
      Denotes ('[' :: (listing gap (row.map Item.written) ++ [']'])) (.array (row.map Item.value))
  | object {gap : List Char} {row : List Member} : (∀ c ∈ gap, isSpace c = true) →
      (∀ m ∈ row, m.Spaced) → (∀ m ∈ row, Denotes m.item.text m.item.value) →
      Denotes ('\x7b' :: (listing gap (row.map Member.written) ++ ['\x7d']))
        (.object (row.map Member.entry))

/-- What a whole text says. -/
inductive Says : String → Json → Prop where
  | mk {i : Item} : i.Spaced → Denotes i.text i.value → Says (String.ofList i.written) i.value

/-! ### One value only -/

/-- Whether a value starts with a character. -/
def opens (c : Char) : Json → Bool
  | null => c == 'n'
  | bool b => c == if b then 't' else 'f'
  | integer _ => c == '-' || c.isDigit
  | string _ => c == '"'
  | array _ => c == '['
  | object _ => c == '\x7b'

/-- Values of one kind. The two truth values are of different kinds. -/
def Alike : Json → Json → Prop
  | null, null => True
  | bool a, bool b => a = b
  | integer _, integer _ => True
  | string _, string _ => True
  | array _, array _ => True
  | object _, object _ => True
  | _, _ => False

/-- The first character of a value tells of which kind it is. -/
theorem alike_of_opens {c : Char} {v v' : Json} (h : v.opens c = true) (h' : v'.opens c = true) :
    v.Alike v' := by
  have hletter : ∀ d ∈ ['n', 't', 'f', '"', '[', '\x7b'], (d == '-' || d.isDigit) = false := by
    simp
  cases v <;> cases v' <;> simp only [opens, beq_iff_eq] at h h' <;> grind [Alike]

theorem opens_not_mark {c : Char} {v : Json} (h : v.opens c = true) :
    c ∉ [' ', '\t', '\n', '\r', ']', '\x7d'] := by
  have hmark : ∀ d ∈ [' ', '\t', '\n', '\r', ']', '\x7d'],
      (d == '-' || d.isDigit) = false ∧ d ∉ ['n', 't', 'f', '"', '[', '\x7b'] := by
    simp
  intro hc
  cases v <;> simp only [opens, beq_iff_eq] at h <;> grind

theorem Denotes.head {text : List Char} {v : Json} (h : Denotes text v) :
    ∃ c more, text = c :: more ∧ v.opens c = true := by
  cases h with
  | null => exact ⟨'n', _, rfl, rfl⟩
  | bool b => cases b <;> exact ⟨_, _, rfl, rfl⟩
  | integer hn => exact hn.head
  | string hs =>
    obtain ⟨-⟩ := hs
    exact ⟨'"', _, rfl, rfl⟩
  | array | object => exact ⟨_, _, rfl, rfl⟩

/-- A text that goes on neither with white space nor with a digit. -/
def Stops (rest : List Char) : Prop := ∀ c ∈ rest.head?, isSpace c = false ∧ c.isDigit = false

/-- Behind white space no digit comes where none came before it. -/
theorem Stops.behind {gap rest : List Char} (hrest : Stops rest)
    (hgap : ∀ c ∈ gap, isSpace c = true) : ∀ c ∈ (gap ++ rest).head?, c.isDigit = false := by
  have hspace : ∀ d ∈ [' ', '\t', '\n', '\r'], d.isDigit = false := by simp
  cases gap with
  | nil => exact fun c hc => (hrest c hc).2
  | cons d gap =>
    rintro c hc
    obtain rfl : d = c := by simpa using hc
    exact hspace d (by simpa [isSpace] using hgap d List.mem_cons_self)

/-- The text says this value however it goes on, and it ends at one place only. -/
def SaysOnly (text : List Char) (v : Json) : Prop :=
  ∀ text' v' rest rest', Denotes text' v' → (∀ c ∈ rest.head?, c.isDigit = false) →
    (∀ c ∈ rest'.head?, c.isDigit = false) → text ++ rest = text' ++ rest' → v = v' ∧ rest = rest'

theorem not_space_head {text : List Char} {v : Json} (h : Denotes text v) (more : List Char) :
    ∀ c ∈ (text ++ more).head?, isSpace c = false := by
  obtain ⟨d, text, rfl, hd⟩ := h.head
  rintro c hc
  obtain rfl : d = c := by simpa using hc
  have hmark := opens_not_mark hd
  simp only [List.mem_cons, not_or] at hmark
  simp [isSpace, hmark]

theorem IsQuoted.not_space_head {text : List Char} {s : String} (h : IsQuoted text s)
    (more : List Char) : ∀ c ∈ (text ++ more).head?, isSpace c = false := by
  obtain ⟨text, rfl⟩ := h.head
  rintro c hc
  obtain rfl : '"' = c := by simpa using hc
  decide

theorem Item.unique {i j : Item} {rest rest' : List Char} (hi : i.Spaced) (hj : j.Spaced)
    (hvalid : Denotes i.text i.value) (hvalid' : Denotes j.text j.value)
    (honly : SaysOnly i.text i.value) (hrest : Stops rest) (hrest' : Stops rest')
    (h : i.written ++ rest = j.written ++ rest') : i.value = j.value ∧ rest = rest' := by
  simp only [Item.written, List.append_assoc] at h
  obtain ⟨-, h⟩ := row_unique hi.before hj.before (not_space_head hvalid _)
    (not_space_head hvalid' _) h
  obtain ⟨hvalue, h⟩ := honly _ _ _ _ hvalid' (hrest.behind hi.behind) (hrest'.behind hj.behind) h
  obtain ⟨-, h⟩ := row_unique hi.behind hj.behind (fun c hc => (hrest c hc).1)
    (fun c hc => (hrest' c hc).1) h
  exact ⟨hvalue, h⟩

theorem Member.unique {m n : Member} {rest rest' : List Char} (hm : m.Spaced) (hn : n.Spaced)
    (hvalid : Denotes m.item.text m.item.value) (hvalid' : Denotes n.item.text n.item.value)
    (honly : SaysOnly m.item.text m.item.value) (hrest : Stops rest) (hrest' : Stops rest')
    (h : m.written ++ rest = n.written ++ rest') : m.entry = n.entry ∧ rest = rest' := by
  have hcolon (more : List Char) : ∀ c ∈ (':' :: more).head?, isSpace c = false := by
    rintro c hc
    obtain rfl : ':' = c := by simpa using hc
    decide
  simp only [Member.written, List.append_assoc, List.cons_append] at h
  obtain ⟨-, h⟩ := row_unique hm.before hn.before (hm.quoted.not_space_head _)
    (hn.quoted.not_space_head _) h
  obtain ⟨hkey, h⟩ := hm.quoted.unique hn.quoted h
  obtain ⟨-, h⟩ := row_unique hm.behind hn.behind (hcolon _) (hcolon _) h
  obtain ⟨hvalue, h⟩ := Item.unique hm.item hn.item hvalid hvalid' honly hrest hrest'
    (List.cons.inj h).2
  exact ⟨Prod.ext hkey hvalue, h⟩

section Rows

variable {α β : Type} {written : α → List Char} {value : α → β} {close : Char}
  {gap gap' rest rest' : List Char} {row row' : List α}

theorem stops_mark {c : Char} (hc : c ∈ [',', ']', '\x7d']) (more : List Char) :
    Stops (c :: more) := by
  have hmark : ∀ d ∈ [',', ']', '\x7d'], isSpace d = false ∧ d.isDigit = false := by
    simp [isSpace]
  rintro d hd
  obtain rfl : c = d := by simpa using hd
  exact hmark c hc

theorem stops_more (hclose : close ∈ [']', '\x7d']) (ws : List (List Char)) (rest : List Char) :
    Stops (ws.flatMap (',' :: ·) ++ close :: rest) := by
  cases ws with
  | nil => exact stops_mark (List.mem_cons_of_mem _ hclose) _
  | cons w ws => exact stops_mark List.mem_cons_self _

variable (hunique : ∀ i ∈ row, ∀ j ∈ row', ∀ rest rest', Stops rest → Stops rest' →
  written i ++ rest = written j ++ rest' → value i = value j ∧ rest = rest')
include hunique

/-- Behind the first item the items of a row are told apart by the commas. -/
theorem more_unique (hclose : close ∈ [']', '\x7d'])
    (h : (row.map written).flatMap (',' :: ·) ++ close :: rest =
      (row'.map written).flatMap (',' :: ·) ++ close :: rest') :
    row.map value = row'.map value ∧ rest = rest' := by
  have hcomma : close ≠ ',' := by
    rintro rfl
    exact absurd hclose (by decide)
  induction row generalizing row' with
  | nil =>
    cases row' with
    | nil => simpa using h
    | cons j row' => simp [hcomma] at h
  | cons i row ih =>
    cases row' with
    | nil => simp [hcomma.symm] at h
    | cons j row' =>
      simp only [List.map_cons, List.flatMap_cons, List.cons_append, List.append_assoc,
        List.cons.injEq, true_and] at h
      obtain ⟨hvalue, h⟩ := hunique i List.mem_cons_self j List.mem_cons_self _ _
        (stops_more hclose _ _) (stops_more hclose _ _) h
      obtain ⟨hvalues, hrest⟩ := ih (fun i hi j hj => hunique i
        (List.mem_cons_of_mem _ hi) j (List.mem_cons_of_mem _ hj)) h
      rw [List.map_cons, List.map_cons, hvalue, hvalues]
      exact ⟨rfl, hrest⟩

/-- A bracket closes a row where no item starts. -/
theorem listing_unique (hclose : close ∈ [']', '\x7d'])
    (hstart : ∀ i ∈ row ++ row', ∀ gap rest rest', (∀ c ∈ gap, isSpace c = true) →
      gap ++ close :: rest ≠ written i ++ rest')
    (hgap : ∀ c ∈ gap, isSpace c = true) (hgap' : ∀ c ∈ gap', isSpace c = true)
    (h : listing gap (row.map written) ++ close :: rest =
      listing gap' (row'.map written) ++ close :: rest') :
    row.map value = row'.map value ∧ rest = rest' := by
  cases row with
  | nil =>
    cases row' with
    | nil =>
      have hstops (more : List Char) : ∀ c ∈ (close :: more).head?, isSpace c = false :=
        fun c hc => (stops_mark (List.mem_cons_of_mem _ hclose) more c hc).1
      obtain ⟨-, h⟩ := row_unique hgap hgap' (hstops rest) (hstops rest') h
      exact ⟨rfl, (List.cons.inj h).2⟩
    | cons j row' =>
      simp only [List.map_nil, List.map_cons, listing, List.append_assoc] at h
      exact absurd h (hstart j (by simp) _ _ _ hgap)
  | cons i row =>
    cases row' with
    | nil =>
      simp only [List.map_nil, List.map_cons, listing, List.append_assoc] at h
      exact absurd h.symm (hstart i (by simp) _ _ _ hgap')
    | cons j row' =>
      simp only [List.map_cons, listing, List.append_assoc] at h
      obtain ⟨hvalue, h⟩ := hunique i List.mem_cons_self j List.mem_cons_self _ _
        (stops_more hclose _ _) (stops_more hclose _ _) h
      obtain ⟨hvalues, hrest⟩ := more_unique (fun i hi j hj => hunique i
        (List.mem_cons_of_mem _ hi) j (List.mem_cons_of_mem _ hj)) hclose h
      rw [List.map_cons, List.map_cons, hvalue, hvalues]
      exact ⟨rfl, hrest⟩

end Rows

theorem not_close_item {i : Item} (hi : i.Spaced) (hvalid : Denotes i.text i.value)
    (gap rest rest' : List Char) (hgap : ∀ c ∈ gap, isSpace c = true) :
    gap ++ ']' :: rest ≠ i.written ++ rest' := by
  intro h
  simp only [Item.written, List.append_assoc] at h
  obtain ⟨-, h⟩ := row_unique hgap hi.before
    (fun c hc => (stops_mark (by decide) rest c hc).1) (not_space_head hvalid _) h
  obtain ⟨c, text, htext, hc⟩ := hvalid.head
  obtain ⟨rfl, -⟩ : ']' = c ∧ _ := by simpa [htext] using h
  exact absurd (opens_not_mark hc) (by decide)

theorem not_close_member {m : Member} (hm : m.Spaced) (gap rest rest' : List Char)
    (hgap : ∀ c ∈ gap, isSpace c = true) : gap ++ '\x7d' :: rest ≠ m.written ++ rest' := by
  intro h
  simp only [Member.written, List.append_assoc] at h
  obtain ⟨-, h⟩ := row_unique hgap hm.before
    (fun c hc => (stops_mark (by decide) rest c hc).1) (hm.quoted.not_space_head _) h
  obtain ⟨more, hmore⟩ := hm.quoted.head
  simp [hmore] at h

theorem alike_of_append {text text' rest rest' : List Char} {v v' : Json} (hv : Denotes text v)
    (hv' : Denotes text' v') (h : text ++ rest = text' ++ rest') : v.Alike v' := by
  obtain ⟨c, more, rfl, hc⟩ := hv.head
  obtain ⟨c', more', rfl, hc'⟩ := hv'.head
  obtain ⟨rfl, -⟩ : c = c' ∧ _ := by simpa using h
  exact alike_of_opens hc hc'

/-- What a text says is said by nothing else that starts in the same way. The induction is on how
    the first text says it; the second one says a value of the same kind. -/
theorem Denotes.saysOnly {text : List Char} {v : Json} (hv : Denotes text v) : SaysOnly text v := by
  induction hv with
    intro text' v' rest rest' hv' hrest hrest' h
  | null =>
    have hkind := alike_of_append .null hv' h
    cases hv' with
    | null => exact ⟨rfl, List.append_cancel_left h⟩
    | _ => exact False.elim hkind
  | bool b =>
    have hkind := alike_of_append (.bool b) hv' h
    cases hv' with
    | bool b' =>
      obtain rfl : b = b' := hkind
      exact ⟨rfl, List.append_cancel_left h⟩
    | _ => exact False.elim hkind
  | integer hn =>
    have hkind := alike_of_append (.integer hn) hv' h
    cases hv' with
    | integer hn' =>
      obtain ⟨rfl, hrest⟩ := hn.unique hn' hrest hrest' h
      exact ⟨rfl, hrest⟩
    | _ => exact False.elim hkind
  | string hs =>
    have hkind := alike_of_append (.string hs) hv' h
    cases hv' with
    | string hs' =>
      obtain ⟨rfl, hrest⟩ := hs.unique hs' h
      exact ⟨rfl, hrest⟩
    | _ => exact False.elim hkind
  | array hgap hspaced hvalid ih =>
    have hkind := alike_of_append (.array hgap hspaced hvalid) hv' h
    cases hv' with
    | array hgap' hspaced' hvalid' =>
      simp only [List.cons_append, List.append_assoc, List.nil_append, List.cons.injEq,
        true_and] at h
      obtain ⟨hvalues, hrest⟩ := listing_unique
        (fun i hi j hj _ _ => Item.unique (hspaced i hi) (hspaced' j hj) (hvalid i hi) (hvalid' j hj)
          (ih i hi)) (by decide)
        (List.forall_mem_append.mpr ⟨fun i hi => not_close_item (hspaced i hi) (hvalid i hi),
          fun j hj => not_close_item (hspaced' j hj) (hvalid' j hj)⟩) hgap hgap' h
      exact ⟨congrArg Json.array hvalues, hrest⟩
    | _ => exact False.elim hkind
  | object hgap hspaced hvalid ih =>
    have hkind := alike_of_append (.object hgap hspaced hvalid) hv' h
    cases hv' with
    | object hgap' hspaced' hvalid' =>
      simp only [List.cons_append, List.append_assoc, List.nil_append, List.cons.injEq,
        true_and] at h
      obtain ⟨hentries, hrest⟩ := listing_unique
        (fun m hm n hn _ _ => Member.unique (hspaced m hm) (hspaced' n hn) (hvalid m hm)
          (hvalid' n hn) (ih m hm)) (by decide)
        (List.forall_mem_append.mpr ⟨fun m hm => not_close_member (hspaced m hm),
          fun n hn => not_close_member (hspaced' n hn)⟩) hgap hgap' h
      exact ⟨congrArg Json.object hentries, hrest⟩
    | _ => exact False.elim hkind

/-- A text says no more than one value. -/
theorem Says.unique {text : String} {v v' : Json} (h : Says text v) (h' : Says text v') :
    v = v' := by
  obtain ⟨hi, hvalid⟩ := h
  generalize htext : String.ofList _ = text at h'
  obtain ⟨hj, hvalid'⟩ := h'
  next i j =>
  have hwritten : i.written ++ [] = j.written ++ [] := by
    rw [List.append_nil, List.append_nil]
    exact String.ofList_inj.mp htext
  have hstops : Stops [] := fun c hc => by cases hc
  exact (Item.unique hi hj hvalid hvalid' hvalid.saysOnly hstops hstops hwritten).1

end FlatSchema.Json
