import FlatSchema.Proofs.Json.Grammar

/-!
What is written is a JSON text of the value it was written for, in both layouts. The two layouts
differ in white space only, and it stands where the grammar allows it: before each member, behind
the colon of a key, and behind the last member.
-/

namespace FlatSchema.Json

open Toml (isHexDigit hexNumber)

/-! ### Strings -/

theorem lettered?_of_escapeLetter? {c letter : Char} (h : escapeLetter? c = some letter) :
    lettered? letter = some c := by
  unfold escapeLetter? at h
  split at h <;> cases h <;> rfl

theorem isCode_twoHexDigits {n : Nat} (h : n < 32) : IsCode ('0' :: '0' :: twoHexDigits n) n := by
  have hall : ∀ n < 32, ('0' :: '0' :: twoHexDigits n).all isHexDigit = true ∧
      hexNumber ('0' :: '0' :: twoHexDigits n) = n := by decide
  exact ⟨rfl, List.all_eq_true.mp (hall n h).1, (hall n h).2⟩

theorem spells_escape (c : Char) : Spells (escape c) c := by
  unfold escape
  split
  · next letter h => exact .letter (lettered?_of_escapeLetter? h)
  · next h =>
    split
    · next hcontrol =>
      have hcode := Spells.code (isCode_twoHexDigits hcontrol) c.valid
      rwa [Char.ofNat_toNat] at hcode
    · next hcontrol =>
      refine .plain ?_ ?_ ?_
      · exact Nat.le_of_not_lt hcontrol
      · rintro rfl
        cases h
      · rintro rfl
        cases h

theorem isQuoted_quote (s : String) : IsQuoted (quote s) s := by
  have hall (cs : List Char) : SpellsAll (cs.flatMap escape) cs := by
    induction cs with
    | nil => exact .nil
    | cons c cs ih => exact .cons (spells_escape c) ih
  exact .mk (hall s.toList)

/-! ### Integers -/

/-- Only the number zero is written with a zero in front. -/
theorem eq_zero_of_head_toDigits {n : Nat} (h : (Nat.toDigits 10 n).head? = some '0') : n = 0 := by
  induction n using Nat.strongRecOn with
  | ind n ih =>
    rcases Nat.lt_or_ge n 10 with hn | hn
    · rw [Nat.toDigits_of_lt_base hn] at h
      exact Nat.digitChar_eq_zero.mp (Option.some.inj h)
    · obtain ⟨d, digits, hdigits⟩ := List.exists_cons_of_ne_nil
        (Nat.toDigits_ne_nil (n := n / 10) (b := 10))
      rw [Nat.toDigits_of_base_le (by decide) hn, hdigits, List.cons_append] at h
      have hzero : n / 10 = 0 := ih (n / 10) (by omega) (by rw [hdigits, ← h]; rfl)
      omega

theorem isInteger_toDigits {sign : List Char} {factor : Int} (hsign : (sign, factor) ∈ signs)
    (n : Nat) : IsInteger (sign ++ Nat.toDigits 10 n) (factor * n) := by
  have hint := IsInteger.mk hsign (Nat.toDigits_ne_nil (n := n) (b := 10))
    (fun d hd => Nat.isDigit_of_mem_toDigits (by decide) (by decide) hd) (by
      intro h
      rw [eq_zero_of_head_toDigits h]
      rfl)
  rwa [Nat.ofDigitChars_ten_toDigits] at hint

theorem isInteger_toString (n : Int) : IsInteger (toString n).toList n := by
  have hrepr (m : Nat) : m.repr.toList = Nat.toDigits 10 m := by
    rw [Nat.repr_eq_ofList_toDigits, String.toList_ofList]
  cases n with
  | ofNat m =>
    have htext : (toString (Int.ofNat m)).toList = [] ++ Nat.toDigits 10 m := hrepr m
    have hint : IsInteger ([] ++ Nat.toDigits 10 m) (1 * m) := isInteger_toDigits (by decide) m
    rwa [← htext, Int.one_mul] at hint
  | negSucc m =>
    have htext : (toString (Int.negSucc m)).toList = ['-'] ++ Nat.toDigits 10 (m + 1) := by
      rw [← hrepr]
      exact String.toList_append
    have hint : IsInteger (['-'] ++ Nat.toDigits 10 (m + 1)) (-1 * (m + 1 : Nat)) :=
      isInteger_toDigits (by decide) (m + 1)
    have hvalue : -1 * ((m + 1 : Nat) : Int) = Int.negSucc m := by omega
    rwa [← htext, hvalue] at hint

/-! ### Lists and objects -/

/-- A row of parts, the last of which has white space behind it. -/
def rowOf {α β : Type} (part : List Char → β → α) (gap : List Char) : List β → List α
  | [] => []
  | [b] => [part gap b]
  | b :: c :: rest => part [] b :: rowOf part gap (c :: rest)

section Rows

variable {α β : Type} {part : List Char → β → α} {gap : List Char}

theorem exists_of_mem_rowOf {a : α} {bs : List β} (h : a ∈ rowOf part gap bs) :
    ∃ b ∈ bs, a = part [] b ∨ a = part gap b := by
  fun_induction rowOf part gap bs with
  | case1 => cases h
  | case2 b => exact ⟨b, List.mem_cons_self, .inr (List.mem_singleton.mp h)⟩
  | case3 b c rest ih =>
    rcases List.mem_cons.mp h with rfl | h
    · exact ⟨b, List.mem_cons_self, .inl rfl⟩
    · obtain ⟨d, hd, ha⟩ := ih h
      exact ⟨d, List.mem_cons_of_mem _ hd, ha⟩

theorem map_rowOf {value : α → β} (h : ∀ gap b, value (part gap b) = b) (bs : List β) :
    (rowOf part gap bs).map value = bs := by
  fun_induction rowOf part gap bs with
  | case1 => rfl
  | case2 b => rw [List.map_singleton, h]
  | case3 b c rest ih => rw [List.map_cons, ih, h]

theorem listing_cons_cons (gap w : List Char) (ws : List (List Char)) (hne : ws ≠ []) :
    listing gap (w :: ws) = w ++ ',' :: listing gap ws := by
  obtain ⟨v, ws, rfl⟩ := List.exists_cons_of_ne_nil hne
  simp [listing]

/-- Members between brackets are a listing of them, with the white space before the closing bracket
    given to the last one. -/
theorem enclose_eq_listing {written : α → List Char} {text : β → List Char} (layout : Layout)
    (depth : Nat) (left right : Char)
    (h : ∀ gap b, written (part gap b) = layout.line (depth + 1) ++ (text b ++ gap))
    (bs : List β) : enclose layout depth left right (bs.map text) =
      left :: (listing [] ((rowOf part (layout.line depth) bs).map written) ++ [right]) := by
  have hlisting (b : β) (rest : List β) :
      listing [] ((rowOf part (layout.line depth) (b :: rest)).map written) =
        layout.line (depth + 1) ++ text b ++
          (rest.map text).flatMap (fun m => ',' :: (layout.line (depth + 1) ++ m)) ++
          layout.line depth := by
    induction rest generalizing b with
    | nil => simp [rowOf, listing, h]
    | cons c rest ih =>
      have hne : (rowOf part (layout.line depth) (c :: rest)).map written ≠ [] := by
        cases rest <;> simp [rowOf]
      rw [rowOf, List.map_cons, listing_cons_cons _ _ _ hne, ih, h]
      simp
  cases bs with
  | nil => rfl
  | cons b rest => rw [hlisting, List.map_cons, enclose]

end Rows

theorem writeItems_eq (layout : Layout) (depth : Nat) (items : List Json) :
    writeItems layout depth items = items.map (write layout depth) := by
  induction items with
  | nil => rfl
  | cons item rest ih => rw [writeItems, ih, List.map_cons]

theorem writeMembers_eq (layout : Layout) (depth : Nat) (members : List (String × Json)) :
    writeMembers layout depth members =
      members.map fun m => quote m.1 ++ layout.colon ++ write layout depth m.2 := by
  induction members with
  | nil => rfl
  | cons m rest ih => rw [writeMembers, ih, List.map_cons]

theorem isSpace_line (layout : Layout) (depth : Nat) :
    ∀ c ∈ layout.line depth, isSpace c = true := by
  intro c hc
  cases layout with
  | compact => cases hc
  | pretty =>
    rcases List.mem_cons.mp hc with rfl | hc
    · decide
    · rw [List.eq_of_mem_replicate hc]
      decide

theorem isSpace_colon (layout : Layout) : ∀ c ∈ layout.colon.tail, isSpace c = true := by
  cases layout <;> simp [Layout.colon, isSpace]

/-- An item of a list as it is written. -/
def itemPart (layout : Layout) (depth : Nat) (gap : List Char) (j : Json) : Item :=
  ⟨layout.line depth, write layout depth j, gap, j⟩

/-- A member of an object as it is written. -/
def memberPart (layout : Layout) (depth : Nat) (gap : List Char) (m : String × Json) : Member :=
  ⟨layout.line depth, quote m.1, [], m.1,
    ⟨layout.colon.tail, write layout depth m.2, gap, m.2⟩⟩

theorem spaced_itemPart (layout : Layout) (depth : Nat) {gap : List Char}
    (hgap : ∀ c ∈ gap, isSpace c = true) (j : Json) : (itemPart layout depth gap j).Spaced :=
  ⟨isSpace_line layout depth, hgap⟩

theorem spaced_memberPart (layout : Layout) (depth : Nat) {gap : List Char}
    (hgap : ∀ c ∈ gap, isSpace c = true) (m : String × Json) :
    (memberPart layout depth gap m).Spaced :=
  ⟨isSpace_line layout depth, by simp [memberPart], isQuoted_quote m.1,
    ⟨isSpace_colon layout, hgap⟩⟩

/-- A property of the parts with and without white space behind them holds of a row of them. -/
theorem forall_mem_rowOf {α β : Type} {part : List Char → β → α} {gap : List Char} {P : α → Prop}
    {bs : List β} (hgap : ∀ c ∈ gap, isSpace c = true)
    (h : ∀ b ∈ bs, ∀ gap, (∀ c ∈ gap, isSpace c = true) → P (part gap b)) :
    ∀ a ∈ rowOf part gap bs, P a := by
  intro a ha
  obtain ⟨b, hb, rfl | rfl⟩ := exists_of_mem_rowOf ha
  · exact h b hb [] (by simp)
  · exact h b hb gap hgap

theorem denotes_writeItems (layout : Layout) (depth : Nat) {items : List Json}
    (h : ∀ i ∈ items, Denotes (write layout (depth + 1) i) i) :
    Denotes (write layout depth (.array items)) (.array items) := by
  have hgap := isSpace_line layout depth
  have hwritten (gap : List Char) (i : Json) : (itemPart layout (depth + 1) gap i).written =
      layout.line (depth + 1) ++ (write layout (depth + 1) i ++ gap) := rfl
  have hvalues : (rowOf (itemPart layout (depth + 1)) (layout.line depth) items).map Item.value =
      items := map_rowOf (fun _ _ => rfl) items
  have harray := Denotes.array (List.forall_mem_nil _)
    (forall_mem_rowOf hgap fun i (_ : i ∈ items) _ hgap => spaced_itemPart layout _ hgap i)
    (forall_mem_rowOf hgap fun i hi _ _ => h i hi)
  rw [write, writeItems_eq, enclose_eq_listing layout depth '[' ']' hwritten]
  rwa [hvalues] at harray

theorem denotes_writeMembers (layout : Layout) (depth : Nat) {members : List (String × Json)}
    (h : ∀ m ∈ members, Denotes (write layout (depth + 1) m.2) m.2) :
    Denotes (write layout depth (.object members)) (.object members) := by
  have hgap := isSpace_line layout depth
  have hcolon : ':' :: layout.colon.tail = layout.colon := by cases layout <;> rfl
  have hwritten (gap : List Char) (m : String × Json) :
      (memberPart layout (depth + 1) gap m).written = layout.line (depth + 1) ++
        (quote m.1 ++ layout.colon ++ write layout (depth + 1) m.2 ++ gap) := by
    rw [← hcolon]
    simp [memberPart, Member.written, Item.written]
  have hentries : (rowOf (memberPart layout (depth + 1)) (layout.line depth) members).map
      Member.entry = members := map_rowOf (fun _ _ => rfl) members
  have hobject := Denotes.object (List.forall_mem_nil _)
    (forall_mem_rowOf hgap fun m (_ : m ∈ members) _ hgap => spaced_memberPart layout _ hgap m)
    (forall_mem_rowOf hgap fun m hm _ _ => h m hm)
  rw [write, writeMembers_eq, enclose_eq_listing layout depth _ _ hwritten]
  rwa [hentries] at hobject

/-- A value is written as a text that says it, at every depth. -/
theorem denotes_write (layout : Layout) (depth : Nat) (j : Json) :
    Denotes (write layout depth j) j := by
  match j with
  | null =>
    rw [write]
    exact .null
  | bool b =>
    rw [write]
    exact .bool b
  | integer n =>
    rw [write]
    exact .integer (isInteger_toString n)
  | string s =>
    rw [write]
    exact .string (isQuoted_quote s)
  | array items =>
    exact denotes_writeItems layout depth fun i hi => denotes_write layout (depth + 1) i
  | object members =>
    exact denotes_writeMembers layout depth fun m hm => denotes_write layout (depth + 1) m.2
termination_by sizeOf j
decreasing_by
  · have hlt := List.sizeOf_lt_of_mem hi
    rw [array.sizeOf_spec]
    omega
  · have hlt := List.sizeOf_lt_of_mem hm
    obtain ⟨key, value⟩ := m
    rw [Prod.mk.sizeOf_spec] at hlt
    rw [object.sizeOf_spec]
    change sizeOf value < 1 + sizeOf members
    omega

/-- A written value is a text that says the value. -/
theorem says_render (layout : Layout) (j : Json) : Says (j.render layout) j := by
  have hspaced : Item.Spaced ⟨[], write layout 0 j, [], j⟩ := ⟨by simp, by simp⟩
  have hvalid := Says.mk hspaced (denotes_write layout 0 j)
  simpa [Item.written, render] using hvalid

end FlatSchema.Json
