import Mathlib.Data.List.Basic
import Mathlib.Tactic

/-! Texts as bytes in UTF-8, and the places where the bytes of a text can be cut. -/
namespace EntityService.Lib.Utf8

def encode (text : List Char) : List UInt8 := text.flatMap String.utf8EncodeChar

/-- The text that the bytes encode, if there is one. -/
def decode (data : List UInt8) : Option (List Char) :=
  data.toByteArray.utf8Decode?.map Array.toList

@[simp] theorem encode_nil : encode [] = [] := rfl

@[simp] theorem encode_cons (c : Char) (text : List Char) :
    encode (c :: text) = String.utf8EncodeChar c ++ encode text := List.flatMap_cons ..

@[simp] theorem encode_append (text text' : List Char) :
    encode (text ++ text') = encode text ++ encode text' := List.flatMap_append ..

theorem toByteArray_encode (text : List Char) : (encode text).toByteArray = text.utf8Encode := rfl

theorem decode_encode (text : List Char) : decode (encode text) = some text := by
  rw [decode, toByteArray_encode, List.utf8Decode?_utf8Encode]
  rfl

theorem encode_injective : Function.Injective encode := by
  intro text text' h
  have hsome : some text = some text' := by rw [← decode_encode, ← decode_encode, h]
  exact Option.some.inj hsome

theorem decode_eq_some {data : List UInt8} {text : List Char} :
    decode data = some text ↔ data = encode text := by
  constructor
  · intro h
    obtain ⟨chars, hchars, rfl⟩ := Option.map_eq_some_iff.mp h
    have hvalid : data.toByteArray.utf8Decode?.isSome := Option.isSome_of_eq_some hchars
    have hencode : chars.toList.utf8Encode = data.toByteArray := by
      have hget := ByteArray.utf8Encode_get_utf8Decode? (h := hvalid)
      simpa only [hchars, Option.get_some] using hget
    rw [← toByteArray_encode] at hencode
    have hdata := congrArg (fun b => b.data.toList) hencode
    simpa using hdata.symm
  · rintro rfl
    exact decode_encode text

/-- The first characters of a text are the text of its first bytes. -/
theorem prefix_of_encode_append {text front : List Char} {data : List UInt8}
    (h : encode text = encode front ++ data) :
    ∃ rest, text = front ++ rest ∧ data = encode rest := by
  have hbytes : front.utf8Encode ++ data.toByteArray = text.utf8Encode := by
    rw [← toByteArray_encode, ← toByteArray_encode, h, List.toByteArray_append]
  obtain ⟨rest, rfl⟩ := List.isPrefix_of_utf8Encode_append_eq_utf8Encode _ hbytes
  rw [encode_append, List.append_cancel_left_eq] at h
  exact ⟨rest, rfl, h.symm⟩

theorem length_encode_cons (c : Char) (text : List Char) :
    (encode (c :: text)).length = c.utf8Size + (encode text).length := by
  rw [encode_cons, List.length_append, String.length_utf8EncodeChar]

/-- Of the bytes of a character, the first is no continuation byte. -/
theorem isUTF8FirstByte_encode_zero {text : List Char} {b : UInt8}
    (h : (encode text)[0]? = some b) : b.IsUTF8FirstByte := by
  cases text with
  | nil => cases h
  | cons c text =>
    have hpos : 0 < (String.utf8EncodeChar c).length := by
      rw [String.length_utf8EncodeChar]
      exact c.utf8Size_pos
    rw [encode_cons, List.getElem?_append_left hpos, List.getElem?_eq_getElem hpos,
      Option.some.injEq] at h
    rw [← h]
    exact UInt8.isUTF8FirstByte_getElem_utf8EncodeChar.mpr rfl

/-- The bytes of a text can be cut in front of the first byte of a character. -/
theorem exists_cut_iff {text : List Char} {n : ℕ} (hn : n ≤ (encode text).length) :
    (∃ front rest, text = front ++ rest ∧ (encode front).length = n) ↔
      ∀ b, (encode text)[n]? = some b → b.IsUTF8FirstByte := by
  constructor
  · rintro ⟨front, rest, rfl, rfl⟩ b hb
    rw [encode_append, List.getElem?_append_right le_rfl, Nat.sub_self] at hb
    exact isUTF8FirstByte_encode_zero hb
  · intro hfirst
    induction text generalizing n with
    | nil =>
      have hzero : n = 0 := Nat.le_zero.mp hn
      exact ⟨[], [], rfl, hzero.symm⟩
    | cons c text ih =>
      rw [length_encode_cons] at hn
      rcases lt_or_ge n c.utf8Size with hlt | hge
      · have hlength : n < (String.utf8EncodeChar c).length := by
          rw [String.length_utf8EncodeChar]
          exact hlt
        have hbyte : (encode (c :: text))[n]? = some (String.utf8EncodeChar c)[n] := by
          rw [encode_cons, List.getElem?_append_left hlength, List.getElem?_eq_getElem hlength]
        have hzero : n = 0 := UInt8.isUTF8FirstByte_getElem_utf8EncodeChar.mp (hfirst _ hbyte)
        exact ⟨[], c :: text, rfl, hzero.symm⟩
      · obtain ⟨m, rfl⟩ := Nat.exists_eq_add_of_le hge
        have hrest : ∀ b, (encode text)[m]? = some b → b.IsUTF8FirstByte := by
          intro b hb
          apply hfirst
          rw [encode_cons, List.getElem?_append_right (by rw [String.length_utf8EncodeChar]; omega),
            String.length_utf8EncodeChar, Nat.add_sub_cancel_left, hb]
        obtain ⟨front, rest, rfl, hlength⟩ := ih (by omega) hrest
        refine ⟨c :: front, rest, rfl, ?_⟩
        rw [length_encode_cons, hlength]

end EntityService.Lib.Utf8
