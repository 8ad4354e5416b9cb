import FlatSchema.Text.Utf8
import Mathlib.Data.List.Basic

/-!
What bytes show. The bytes of a text show that text; other bytes show the characters that they have
and U+FFFD. A byte of ASCII is a character wherever it stands, so bytes of a text that are cut at
one are those of two texts.

        61 2f e2 82 ac      shows a/€       cut at 2f      61, e2 82 ac      a, €
        61 2f e2 82         shows a/U+FFFD
-/

namespace FlatSchema

namespace Utf8

/-! ### One character -/

/-- Bytes begin with a character if they begin with its bytes. -/
theorem first?_eq_some_iff {bytes : Bytes} {c : Char} :
    first? bytes = some c ↔ String.utf8EncodeChar c <+: bytes := by
  have hlength : (String.utf8EncodeChar c).length ≤ 4 := by
    rw [String.length_utf8EncodeChar]
    exact c.utf8Size_le_four
  rw [first?]
  constructor
  · intro h
    obtain ⟨more, hmore⟩ := ByteArray.exists_of_utf8DecodeChar?_eq_some h
    have hlist := congrArg (·.data.toList) hmore
    simp only [ByteArray.data_append, Array.toList_append, List.toList_data_toByteArray] at hlist
    exact (List.prefix_append _ _).trans (hlist ▸ List.take_prefix 4 bytes)
  · intro h
    obtain ⟨more, hmore⟩ : String.utf8EncodeChar c <+: bytes.take 4 :=
      List.prefix_take_iff.mpr ⟨h, hlength⟩
    rw [← hmore, List.toByteArray_append]
    exact ByteArray.utf8DecodeChar?_utf8EncodeChar_append

/-- A byte of ASCII stands in no character but its own. -/
theorem eq_singleton_of_mem {b : UInt8} (hb : b < 0x80) {c : Char}
    (h : b ∈ String.utf8EncodeChar c) : String.utf8EncodeChar c = [b] := by
  have hhigh {n : Nat} (hn : 0x80 ≤ n ∧ n < 0x100) : b ≠ UInt8.ofNat n := by
    rintro rfl
    rw [UInt8.lt_iff_toNat_lt, UInt8.toNat_ofNat'] at hb
    simp at hb
    omega
  unfold String.utf8EncodeChar at h ⊢
  dsimp only at h ⊢
  split at h
  · next hsmall =>
    rw [if_pos hsmall, List.mem_singleton.mp h]
  · exfalso
    split at h
    · simp only [List.mem_cons, List.not_mem_nil, or_false] at h
      rcases h with h | h <;> exact hhigh (by omega) h
    · split at h
      · simp only [List.mem_cons, List.not_mem_nil, or_false] at h
        rcases h with h | h | h <;> exact hhigh (by omega) h
      · simp only [List.mem_cons, List.not_mem_nil, or_false] at h
        rcases h with h | h | h | h <;> exact hhigh (by omega) h

/-! ### Texts -/

theorem encode_append (a b : List Char) : encode (a ++ b) = encode a ++ encode b :=
  List.flatMap_append

theorem encode_cons (c : Char) (text : List Char) :
    encode (c :: text) = String.utf8EncodeChar c ++ encode text := rfl

theorem decode_encodeChar_append (c : Char) (rest : Bytes) :
    decode (String.utf8EncodeChar c ++ rest) = c :: decode rest := by
  have hfirst : first? (String.utf8EncodeChar c ++ rest) = some c :=
    first?_eq_some_iff.mpr (List.prefix_append _ _)
  have hlength := String.length_utf8EncodeChar c
  have hpos := c.utf8Size_pos
  generalize String.utf8EncodeChar c = run at hfirst hlength
  cases run with
  | nil => simp at hlength; omega
  | cons b run =>
    have hdrop : (run ++ rest).drop (c.utf8Size - 1) = rest := by
      rw [← hlength, List.length_cons, Nat.add_sub_cancel, List.drop_left]
    rw [List.cons_append] at hfirst ⊢
    rw [decode, hfirst]
    dsimp only
    rw [hdrop]

/-- The bytes of a text show the text. -/
theorem decode_encode (text : List Char) : decode (encode text) = text := by
  induction text with
  | nil => rw [encode, List.flatMap_nil, decode]
  | cons c text ih => rw [encode_cons, decode_encodeChar_append, ih]

/-- What bytes show is U+FFFD or stands in them. -/
theorem of_mem_decode {bytes : Bytes} {c : Char} (h : c ∈ decode bytes) :
    c = '\ufffd' ∨ String.utf8EncodeChar c <:+: bytes := by
  fun_induction decode bytes with
  | case1 => cases h
  | case2 b rest d hfirst ih =>
    rcases List.mem_cons.mp h with rfl | h
    · exact .inr (first?_eq_some_iff.mp hfirst).isInfix
    · have hsuffix := (List.drop_suffix (d.utf8Size - 1) rest).trans (List.suffix_cons b rest)
      exact (ih h).imp_right fun hc => hc.trans hsuffix.isInfix
  | case3 b rest hfirst ih =>
    rcases List.mem_cons.mp h with rfl | h
    · exact .inl rfl
    · have hsuffix := (List.drop_suffix (brokenLength (b :: rest) - 1) rest).trans
        (List.suffix_cons b rest)
      exact (ih h).imp_right fun hc => hc.trans hsuffix.isInfix

example : decode [0xe2, 0x82, 0x62, 0xf0, 0x9f, 0x92] = ['\ufffd', 'b', '\ufffd'] := by
  decide +kernel

/-- A byte of ASCII in what bytes show stands in the bytes. -/
theorem of_mem_encode_decode {b : UInt8} (hb : b < 0x80) {bytes : Bytes}
    (h : b ∈ encode (decode bytes)) : b ∈ bytes := by
  obtain ⟨c, hc, hbc⟩ := List.mem_flatMap.mp h
  rcases of_mem_decode hc with rfl | hinfix
  · have hlone := eq_singleton_of_mem hb hbc
    simp [String.utf8EncodeChar] at hlone
  · exact hinfix.subset hbc

/-! ### Bytes that are a text -/

/-- Bytes are those of a text. -/
def IsText (bytes : Bytes) : Prop := ∃ text, encode text = bytes

theorem isText_encode (text : List Char) : IsText (encode text) := ⟨text, rfl⟩

/-- Bytes that are a text are the bytes of what they show. -/
theorem IsText.encode_decode {bytes : Bytes} (h : IsText bytes) :
    encode (decode bytes) = bytes := by
  obtain ⟨text, rfl⟩ := h
  rw [decode_encode]

/-- A text that is cut at a byte of ASCII leaves two texts. -/
theorem IsText.cut {b : UInt8} (hb : b < 0x80) {front back : Bytes}
    (h : IsText (front ++ b :: back)) : IsText front ∧ IsText back := by
  obtain ⟨text, htext⟩ := h
  induction text generalizing front with
  | nil => simp [encode] at htext
  | cons c text ih =>
    rw [encode_cons] at htext
    rcases List.append_eq_append_iff.mp htext with ⟨more, rfl, hrest⟩ | ⟨more, hchar, hrest⟩
    · obtain ⟨⟨left, rfl⟩, hback⟩ := ih hrest
      exact ⟨⟨c :: left, rfl⟩, hback⟩
    · cases more with
      | nil =>
        have hwhole : encode text = [] ++ b :: back := hrest.symm
        rw [List.append_nil] at hchar
        exact ⟨⟨[c], (List.append_nil _).trans hchar⟩, (ih hwhole).2⟩
      | cons x more =>
        obtain ⟨rfl, rfl⟩ := List.cons.inj hrest
        have hmem : b ∈ String.utf8EncodeChar c := hchar ▸ List.mem_append_right _ (.head _)
        rw [eq_singleton_of_mem hb hmem] at hchar
        cases front with
        | nil =>
          obtain rfl : [] = more := (List.cons.inj hchar).2
          exact ⟨⟨[], rfl⟩, ⟨text, rfl⟩⟩
        | cons y front => simp at hchar

end Utf8

/-! ### Strings -/

open Utf8 (IsText)

theorem bytesOf_append (s t : String) : bytesOf (s ++ t) = bytesOf s ++ bytesOf t := by
  rw [bytesOf, String.toList_append, Utf8.encode_append, bytesOf, bytesOf]

theorem isText_bytesOf (s : String) : IsText (bytesOf s) := Utf8.isText_encode _

theorem shownOf_bytesOf (s : String) : shownOf (bytesOf s) = s := by
  rw [shownOf, bytesOf, Utf8.decode_encode, String.ofList_toList]

theorem bytesOf_injective : Function.Injective bytesOf :=
  Function.LeftInverse.injective shownOf_bytesOf

/-- Bytes that are a text are the bytes of the string that they show. -/
theorem bytesOf_shownOf {bytes : Bytes} (h : IsText bytes) : bytesOf (shownOf bytes) = bytes := by
  rw [bytesOf, shownOf, String.toList_ofList, h.encode_decode]

end FlatSchema
