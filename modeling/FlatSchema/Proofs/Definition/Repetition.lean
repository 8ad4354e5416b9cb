import FlatSchema.Proofs.Definition.Analysis

/-!
Items that come again. An item comes again if an item before it has the same key; an item without a
key never does. Who looks for repetition has one thing to tell for each place where an item comes
again, place by place, and nothing else.

        keys      a   b   a   –   c   –   b   a
        places    0   1   2   3   4   5   6   7
        again             ×               ×   ×

The attributes of a declaration are looked at in this way while their map is built: the keys of the
map are the keys that come for the first time, and every key that comes again is warned about.
-/

namespace FlatSchema

/-! ### Places -/

section Places

variable {α κ δ : Type}

/-- The item at a place has the key of an item before it. -/
def ComesAgain (key : α → Option κ) (items : List α) (i : Nat) : Prop :=
  ∃ j < i, ∃ a b k, items[i]? = some a ∧ items[j]? = some b ∧ key a = some k ∧ key b = some k

/-- `ds` holds one thing for each place where an item comes again, in the order of the places;
    `Told i d` says that `d` is what there is to tell at the place `i`. -/
def TellsAgain (key : α → Option κ) (items : List α) (Told : Nat → δ → Prop) (ds : List δ) : Prop :=
  ∃ places : List Nat, places.Pairwise (· < ·) ∧ (∀ i, i ∈ places ↔ ComesAgain key items i) ∧
    List.Forall₂ Told places ds

/-- `a` is the first item of a key. -/
def IsFirst (key : α → Option κ) (items : List α) (k : κ) (a : α) : Prop :=
  ∃ before behind, items = before ++ a :: behind ∧ key a = some k ∧ ∀ b ∈ before, key b ≠ some k

variable {key : α → Option κ}

theorem ComesAgain.lt {items : List α} {i : Nat} (h : ComesAgain key items i) :
    i < items.length := by
  obtain ⟨-, -, a, -, -, ha, -⟩ := h
  exact (List.getElem?_eq_some_iff.mp ha).1

theorem comesAgain_concat_of_lt {items : List α} {i : Nat} (hi : i < items.length) (a : α) :
    ComesAgain key (items ++ [a]) i ↔ ComesAgain key items i := by
  have hplace {j : Nat} (hj : j ≤ i) : (items ++ [a])[j]? = items[j]? :=
    List.getElem?_append_left (by omega)
  refine exists_congr fun j => and_congr_right fun hj => ?_
  rw [hplace le_rfl, hplace hj.le]

theorem comesAgain_concat_length (items : List α) (a : α) :
    ComesAgain key (items ++ [a]) items.length ↔
      ∃ b ∈ items, ∃ k, key a = some k ∧ key b = some k := by
  constructor
  · rintro ⟨j, hj, a', b, k, ha, hb, hka, hkb⟩
    rw [List.getElem?_concat_length, Option.some.injEq] at ha
    rw [List.getElem?_append_left hj] at hb
    exact ⟨b, List.mem_of_getElem? hb, k, ha ▸ hka, hkb⟩
  · rintro ⟨b, hb, k, hka, hkb⟩
    obtain ⟨j, hj, rfl⟩ := List.getElem_of_mem hb
    refine ⟨j, hj, a, _, k, List.getElem?_concat_length, ?_, hka, hkb⟩
    rw [List.getElem?_append_left hj, List.getElem?_eq_getElem hj]

/-- No item comes again exactly if no key is there twice. -/
theorem forall_not_comesAgain_iff (items : List α) :
    (∀ i, ¬ ComesAgain key items i) ↔ (items.filterMap key).Nodup := by
  induction items using List.reverseRecOn with
  | nil =>
    refine iff_of_true (fun i h => ?_) (by simp)
    exact absurd h.lt (Nat.not_lt_zero i)
  | append_singleton items a ih =>
    have hfront : (∀ i, ¬ ComesAgain key (items ++ [a]) i) ↔
        (∀ i, ¬ ComesAgain key items i) ∧ ¬ ComesAgain key (items ++ [a]) items.length := by
      constructor
      · refine fun h => ⟨fun i hi => h i ?_, h _⟩
        exact (comesAgain_concat_of_lt hi.lt a).mpr hi
      · rintro ⟨hitems, hlength⟩ i hi
        rcases Nat.lt_or_ge i items.length with hlt | hge
        · exact hitems i ((comesAgain_concat_of_lt hlt a).mp hi)
        · have hle := hi.lt
          rw [List.length_append, List.length_singleton] at hle
          obtain rfl : i = items.length := by omega
          exact hlength hi
    rw [hfront, ih, comesAgain_concat_length, List.filterMap_append, List.nodup_append]
    cases h : key a with
    | none => simp [h]
    | some k =>
      have hnew : (¬ ∃ b ∈ items, ∃ j, some k = some j ∧ key b = some j) ↔
          ∀ j ∈ items.filterMap key, j ≠ k := by
        simp only [Option.some.injEq, exists_eq_left', List.mem_filterMap]
        grind
      rw [hnew]
      simp [h]

namespace TellsAgain

variable {items : List α} {Told Told' : Nat → δ → Prop} {ds : List δ}

theorem imp (h : TellsAgain key items Told ds) (himp : ∀ i d, Told i d → Told' i d) :
    TellsAgain key items Told' ds := by
  obtain ⟨places, hsorted, hmem, hall⟩ := h
  exact ⟨places, hsorted, hmem, hall.imp himp⟩

theorem map {ε : Type} {Told' : Nat → ε → Prop} {f : δ → ε} (h : TellsAgain key items Told ds)
    (himp : ∀ i d, Told i d → Told' i (f d)) : TellsAgain key items Told' (ds.map f) := by
  obtain ⟨places, hsorted, hmem, hall⟩ := h
  exact ⟨places, hsorted, hmem, List.forall₂_map_right_iff.mpr (hall.imp himp)⟩

/-- There is nothing to tell exactly if no key is there twice. -/
theorem eq_nil_iff (h : TellsAgain key items Told ds) : ds = [] ↔ (items.filterMap key).Nodup := by
  obtain ⟨places, -, hmem, hall⟩ := h
  have hplaces : ds = [] ↔ places = [] := by
    rw [← List.length_eq_zero_iff, ← hall.length_eq, List.length_eq_zero_iff]
  rw [hplaces, List.eq_nil_iff_forall_not_mem, ← forall_not_comesAgain_iff]
  simp only [hmem]

end TellsAgain

/-- Who goes through a row with what came before at hand, and finds something to tell exactly where
    the key came before, tells of every item that comes again. -/
theorem tellsAgain_placed {tell : List α → α → Option δ}
    (htell : ∀ before a, (tell before a).isSome ↔
      ∃ b ∈ before, ∃ k, key a = some k ∧ key b = some k) (items : List α) :
    TellsAgain key items (fun i d => ∃ a, items[i]? = some a ∧ tell (items.take i) a = some d)
      ((placed items).filterMap fun (before, a) => tell before a) := by
  induction items using List.reverseRecOn with
  | nil =>
    refine ⟨[], .nil, fun i => iff_of_false (by simp) fun h => ?_, .nil⟩
    exact absurd h.lt (Nat.not_lt_zero i)
  | append_singleton items a ih =>
    obtain ⟨places, hsorted, hmem, hall⟩ := ih
    have hlt : ∀ i ∈ places, i < items.length := fun i hi => ((hmem i).mp hi).lt
    have hagain (i : Nat) : ComesAgain key (items ++ [a]) i ↔
        i ∈ places ∨ i = items.length ∧ (tell items a).isSome := by
      rw [htell, ← comesAgain_concat_length]
      rcases Nat.lt_trichotomy i items.length with hi | rfl | hi
      · rw [comesAgain_concat_of_lt hi, hmem]
        simp [hi.ne]
      · have hnot : items.length ∉ places := fun h => (hlt _ h).ne rfl
        simp [hnot]
      · refine iff_of_false (fun h => ?_) ?_
        · have hle := h.lt
          rw [List.length_append, List.length_singleton] at hle
          omega
        · rintro (h | ⟨rfl, -⟩)
          · exact absurd (hlt i h) (by omega)
          · exact absurd hi (lt_irrefl _)
    -- What was told of the items before stays as it is with one more item behind them.
    have hkept : List.Forall₂ (fun i d => ∃ b, (items ++ [a])[i]? = some b ∧
        tell ((items ++ [a]).take i) b = some d) places
          ((placed items).filterMap fun (before, a) => tell before a) := by
      refine ((List.forall₂_and_left _ _).mpr ⟨hlt, hall⟩).imp ?_
      rintro i d ⟨hi, b, hb, hd⟩
      refine ⟨b, ?_, ?_⟩
      · rw [List.getElem?_append_left hi, hb]
      · rw [List.take_append_of_le_length hi.le, hd]
    rw [placed_concat, List.filterMap_append]
    cases htold : tell items a with
    | none =>
      refine ⟨places, hsorted, fun i => ?_, ?_⟩
      · simp [hagain, htold]
      · simpa [htold] using hkept
    | some d =>
      refine ⟨places ++ [items.length], ?_, fun i => ?_, ?_⟩
      · rw [List.pairwise_append]
        exact ⟨hsorted, List.pairwise_singleton _ _, fun i hi j hj =>
          List.mem_singleton.mp hj ▸ hlt i hi⟩
      · simp [hagain, htold]
      · have hlast : List.Forall₂ (fun i d => ∃ b, (items ++ [a])[i]? = some b ∧
            tell ((items ++ [a]).take i) b = some d) [items.length] [d] :=
          .cons ⟨a, List.getElem?_concat_length, by rw [List.take_left, htold]⟩ .nil
        simpa [htold] using List.rel_append hkept hlast

/-- The items that repeat another are those that come again, each with the first item of its key. -/
theorem repeatsBy_tells [BEq κ] [LawfulBEq κ] (key : α → Option κ) (items : List α) :
    TellsAgain key items (fun i (a, first) => items[i]? = some a ∧
      ∃ k, key a = some k ∧ IsFirst key items k first) (repeatsBy key items) := by
  have htell (before : List α) (a : α) :
      (((key a).bind fun k => before.find? fun b => key b == some k).map fun b => (a, b)).isSome ↔
        ∃ b ∈ before, ∃ k, key a = some k ∧ key b = some k := by
    cases h : key a with
    | none => simp
    | some k => simp [List.find?_isSome]
  rw [repeatsBy, repeatsFrom_eq]
  refine (tellsAgain_placed htell items).imp ?_
  rintro i ⟨a, first⟩ ⟨a', ha, htold⟩
  obtain ⟨first', hfirst, hpair⟩ := Option.map_eq_some_iff.mp htold
  obtain ⟨rfl, rfl⟩ := Prod.mk.inj hpair
  obtain ⟨k, hk, hfind⟩ := Option.bind_eq_some_iff.mp hfirst
  obtain ⟨hkey, before, behind, hbefore, hnot⟩ := List.find?_eq_some_iff_append.mp hfind
  refine ⟨ha, k, hk, before, behind ++ items.drop i, ?_, by simpa using hkey, ?_⟩
  · rw [← List.cons_append, ← List.append_assoc, ← hbefore, List.take_append_drop]
  · intro b hb
    simpa using hnot b hb

end Places

/-! ### Attributes -/

namespace AttributeMap

/-- The places of keys in a row of entries are counted from the start. -/
def firstPlace (entries : List MetadataEntry) (key : String) : Nat :=
  (entries.map MetadataEntry.key).idxOf key

/-- `m` is the map of a row of entries, and `warnings` are the warnings about the row. The map has
    the keys of the row in the order in which they first came, each with its last entry; however it
    is looked at, it says the same. Every entry whose key came before is warned about, with a note
    to the entry of that key next before it. -/
structure Built (entries : List MetadataEntry) (m : AttributeMap) (warnings : List Diagnostic) :
    Prop where
  mem_keys : ∀ key, key ∈ m.keys ↔ ∃ e ∈ entries, e.key = key
  keys_sorted : m.keys.Pairwise fun key key' => firstPlace entries key < firstPlace entries key'
  get? : ∀ key a, m.get? key = some a ↔
    ∃ e, IsLast entries key e ∧ a = ⟨e.value.map Spelling.text, e.span⟩
  mem_entries : ∀ key a, (key, a) ∈ m.entries ↔ m.get? key = some a
  keys_entries : m.keys = m.entries.map Prod.fst
  contains : ∀ key, m.contains key = true ↔ key ∈ m.keys
  spanOf? : ∀ key span, m.spanOf? key = some span ↔ ∃ a, m.get? key = some a ∧ a.span = span
  tells : TellsAgain (fun e => some e.key) entries (fun i d => ∃ e previous,
    entries[i]? = some e ∧ IsLast (entries.take i) e.key previous ∧
      d = { severity := .warning, message := s!"duplicate attribute `{e.key}`", span := some e.span,
            related := [⟨previous.span, "previously set here"⟩] }) warnings
  size : m.size + warnings.length = entries.length

theorem map_fst_set (key : String) (a : Attribute) (entries : List (String × Attribute)) :
    (set key a entries).map Prod.fst = if key ∈ entries.map Prod.fst then entries.map Prod.fst
      else entries.map Prod.fst ++ [key] := by
  induction entries with
  | nil => rfl
  | cons e rest ih =>
    unfold set
    split
    · next heq => simp [heq]
    · next hne =>
      rw [List.map_cons, ih, List.map_cons]
      have hmem : key ∈ e.1 :: rest.map Prod.fst ↔ key ∈ rest.map Prod.fst := by
        simp [Ne.symm hne]
      simp only [hmem]
      split <;> rfl

/-- A new key comes behind the others, and a key that is there keeps its place. -/
theorem keys_add (m : AttributeMap) (e : MetadataEntry) :
    (m.add e).keys = if e.key ∈ m.keys then m.keys else m.keys ++ [e.key] :=
  map_fst_set _ _ _

theorem contains_eq_true_iff {m : AttributeMap} {key : String} :
    m.contains key = true ↔ key ∈ m.keys := by
  rw [contains, Option.isSome_iff_ne_none, get?, ne_eq, List.lookup_eq_none_iff, keys, List.mem_map]
  simp only [bne_iff_ne, ne_eq, not_forall, not_not, exists_prop]
  exact exists_congr fun e => and_congr_right fun _ => eq_comm

theorem mem_keys_ofEntries {entries : List MetadataEntry} {key : String} :
    key ∈ (ofEntries entries).keys ↔ ∃ e ∈ entries, e.key = key := by
  rw [← contains_eq_true_iff, contains, Option.isSome_iff_ne_none, ne_eq, get?_eq_none_iff]
  simp

theorem firstPlace_concat {entries : List MetadataEntry} {key : String}
    (h : key ∈ (ofEntries entries).keys) (e : MetadataEntry) :
    firstPlace (entries ++ [e]) key = firstPlace entries key := by
  rw [firstPlace, List.map_append, List.idxOf_append_of_mem]
  · rfl
  · exact List.mem_map.mpr (mem_keys_ofEntries.mp h)

theorem firstPlace_concat_self {entries : List MetadataEntry} {e : MetadataEntry}
    (h : e.key ∉ (ofEntries entries).keys) : firstPlace (entries ++ [e]) e.key = entries.length := by
  rw [firstPlace, List.map_append, List.idxOf_append_of_notMem, List.map_singleton,
    List.idxOf_cons_self, List.length_map, Nat.add_zero]
  exact fun hmem => h (mem_keys_ofEntries.mpr (List.mem_map.mp hmem))

/-- The keys of a map stand in the order in which they first came. -/
theorem keys_ofEntries_sorted (entries : List MetadataEntry) :
    (ofEntries entries).keys.Pairwise fun key key' =>
      firstPlace entries key < firstPlace entries key' := by
  induction entries using List.reverseRecOn with
  | nil => exact .nil
  | append_singleton entries e ih =>
    have hkept : (ofEntries entries).keys.Pairwise fun key key' =>
        firstPlace (entries ++ [e]) key < firstPlace (entries ++ [e]) key' := by
      refine ih.imp_of_mem fun hkey hkey' hlt => ?_
      rwa [firstPlace_concat hkey, firstPlace_concat hkey']
    rw [ofEntries_concat, keys_add]
    split
    · exact hkept
    · next hnew =>
      refine List.pairwise_append.mpr ⟨hkept, List.pairwise_singleton _ _, ?_⟩
      intro key hkey last hlast
      obtain rfl := List.mem_singleton.mp hlast
      rw [firstPlace_concat hkey, firstPlace_concat_self hnew, ← List.length_map MetadataEntry.key]
      exact List.idxOf_lt_length_iff.mpr (List.mem_map.mpr (mem_keys_ofEntries.mp hkey))

theorem nodup_keys_ofEntries (entries : List MetadataEntry) : (ofEntries entries).keys.Nodup :=
  (keys_ofEntries_sorted entries).imp fun hlt heq => absurd (heq ▸ hlt) (lt_irrefl _)

/-- A map whose keys differ has the entries that are found by their keys. -/
theorem mem_entries_iff {m : AttributeMap} (h : m.keys.Nodup) {key : String} {a : Attribute} :
    (key, a) ∈ m.entries ↔ m.get? key = some a := by
  rw [get?, List.lookup_eq_some_iff]
  constructor
  · intro hmem
    obtain ⟨before, behind, hentries⟩ := List.append_of_mem hmem
    refine ⟨before, behind, hentries, fun p hp => ?_⟩
    rw [keys, hentries, List.map_append, List.map_cons, List.nodup_append] at h
    have hne : p.1 ≠ key := h.2.2 p.1 (List.mem_map_of_mem hp) key (List.mem_cons_self ..)
    simpa using hne.symm
  · rintro ⟨before, behind, hentries, -⟩
    rw [hentries]
    exact List.mem_append_right _ (List.mem_cons_self ..)

/-- The warnings, each given by an entry and the entries before it. -/
theorem duplicates_eq (entries : List MetadataEntry) :
    duplicates entries = (placed entries).filterMap fun (before, e) =>
      ((ofEntries before).get? e.key).map (duplicateWarning e) := by
  have hfrom (before : List MetadataEntry) : (ofEntries before).duplicatesFrom entries =
      (placedBehind before entries).filterMap fun (before, e) =>
        ((ofEntries before).get? e.key).map (duplicateWarning e) := by
    induction entries generalizing before with
    | nil => rfl
    | cons e rest ih =>
      rw [duplicatesFrom, placedBehind, List.filterMap_cons, ← ofEntries_concat, ih]
      cases h : (ofEntries before).get? e.key <;> simp [h]
  exact hfrom []

/-- Each entry either brings a new key or is warned about. -/
theorem size_add_length_duplicates (entries : List MetadataEntry) :
    (ofEntries entries).size + (duplicates entries).length = entries.length := by
  have hsize (m : AttributeMap) : m.size = m.keys.length := (List.length_map _).symm
  induction entries using List.reverseRecOn with
  | nil => rfl
  | append_singleton entries e ih =>
    rw [hsize] at ih ⊢
    rw [duplicates_eq] at ih ⊢
    rw [placed_concat, List.filterMap_append, ofEntries_concat, keys_add, List.length_append,
      List.length_append, List.length_singleton, ← ih]
    cases h : (ofEntries entries).get? e.key with
    | none =>
      have hnew : e.key ∉ (ofEntries entries).keys := by
        rw [← contains_eq_true_iff, contains, h]
        simp
      simp only [if_neg hnew, h, List.filterMap_cons, List.filterMap_nil, Option.map_none,
        List.length_append, List.length_singleton, List.length_nil]
      omega
    | some a =>
      have hold : e.key ∈ (ofEntries entries).keys := by
        rw [← contains_eq_true_iff, contains, h]
        rfl
      simp only [if_pos hold, h, List.filterMap_cons, List.filterMap_nil, Option.map_some,
        List.length_singleton]
      omega

/-- The warnings about a row of entries tell of every entry whose key comes again. -/
theorem duplicates_tell (entries : List MetadataEntry) :
    TellsAgain (fun e => some e.key) entries (fun i d => ∃ e previous,
      entries[i]? = some e ∧ IsLast (entries.take i) e.key previous ∧
        d = duplicateWarning e (attributeOf previous)) (duplicates entries) := by
  have htell (before : List MetadataEntry) (e : MetadataEntry) :
      (((ofEntries before).get? e.key).map (duplicateWarning e)).isSome ↔
        ∃ b ∈ before, ∃ key, some e.key = some key ∧ some b.key = some key := by
    rw [Option.isSome_map, ← contains, contains_eq_true_iff, mem_keys_ofEntries]
    simp [eq_comm]
  rw [duplicates_eq]
  refine (tellsAgain_placed htell entries).imp ?_
  rintro i d ⟨e, he, htold⟩
  obtain ⟨a, ha, rfl⟩ := Option.map_eq_some_iff.mp htold
  obtain ⟨previous, hlast, rfl⟩ := get?_eq_some_iff.mp ha
  exact ⟨e, previous, he, hlast, rfl⟩

/-- The map of a row and the warnings about it are what they have to be. -/
theorem built_ofEntries (entries : List MetadataEntry) :
    Built entries (ofEntries entries) (duplicates entries) where
  mem_keys _ := mem_keys_ofEntries
  keys_sorted := keys_ofEntries_sorted entries
  get? _ _ := get?_eq_some_iff
  mem_entries _ _ := mem_entries_iff (nodup_keys_ofEntries entries)
  keys_entries := rfl
  contains _ := contains_eq_true_iff
  spanOf? _ _ := Option.map_eq_some_iff
  tells := duplicates_tell entries
  size := size_add_length_duplicates entries

end AttributeMap

end FlatSchema
