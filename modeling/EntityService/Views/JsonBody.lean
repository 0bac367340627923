import EntityService.Basic
import EntityService.Lib.Reading
import EntityService.Lib.Utf8

/-! The two readers of a JSON body. A body that comes in chunks is decoded in pieces, which goes
wrong when the bytes of a character are in two of them. -/
namespace EntityService.Views
open Lib Utf8

structure JsonRequest where
  transferEncoding : Option String
  body : Bytes
deriving DecidableEq, Repr

/-- `bytes.decode`, which raises a `UnicodeDecodeError`. -/
def decodeBytes (data : Bytes) : Except Error (List Char) := orRaise (decode data) Error.valueError

/-- The texts of the pieces are joined. -/
def consumeAsString (byteStream : Bytes) : Except Error (List Char) :=
  let byteData := (readUpTo 4096 byteStream).1
  if _h : byteData = [] then .ok []
  else do
    let text ← decodeBytes byteData
    let data ← consumeAsString (readUpTo 4096 byteStream).2
    return text ++ data
termination_by byteStream.length
decreasing_by
  have hne : byteStream ≠ [] := by
    rintro rfl
    exact _h rfl
  have hpos := List.length_pos_iff.mpr hne
  simp only [readUpTo, List.length_drop]
  omega

section Readers
variable {Object : Type} (loads : List Char → Except Error Object)

def requestGetJson (request : JsonRequest) : Except Error Object := do
  let text ← decodeBytes request.body
  loads text

def getJson (request : JsonRequest) : Except Error Object :=
  if request.transferEncoding = some "chunked" then do
    let text ← consumeAsString request.body
    loads text
  else requestGetJson loads request

end Readers

/-- No piece starts with a continuation byte. -/
def NoCharacterCut (body : Bytes) : Prop :=
  ∀ k b, body[4096 * k]? = some b → b.IsUTF8FirstByte

theorem decodeBytes_eq_ok {data : Bytes} {text : List Char} :
    decodeBytes data = .ok text ↔ data = encode text := by
  rw [decodeBytes, orRaise_eq_ok, decode_eq_some]

theorem consumeAsString_nil : consumeAsString [] = .ok [] := by
  rw [consumeAsString]
  rfl

theorem consumeAsString_of_ne_nil {byteStream : Bytes} (h : byteStream ≠ []) :
    consumeAsString byteStream = do
      let text ← decodeBytes (byteStream.take 4096)
      let data ← consumeAsString (byteStream.drop 4096)
      return text ++ data := by
  have hne : (readUpTo 4096 byteStream).1 ≠ [] := by
    intro hnil
    rcases List.take_eq_nil_iff.mp hnil with hzero | hempty
    · exact absurd hzero (by decide)
    · exact h hempty
  rw [consumeAsString, dif_neg hne]
  rfl

/-- Pieces behind the first start where the rest of the body is cut. -/
theorem noCharacterCut_append {front rest : List Char}
    (hlength : (encode front).length = 4096 ∨ rest = [] ∧ (encode front).length ≤ 4096) :
    NoCharacterCut (encode (front ++ rest)) ↔ NoCharacterCut (encode rest) := by
  rw [encode_append]
  rcases hlength with hfull | ⟨rfl, hle⟩
  · have hshift : ∀ k, (encode front ++ encode rest)[4096 * (k + 1)]? =
        (encode rest)[4096 * k]? := by
      intro k
      have hindex : 4096 * (k + 1) - 4096 = 4096 * k := by omega
      rw [List.getElem?_append_right (by omega), hfull, hindex]
    constructor
    · intro h k b hb
      exact h (k + 1) b ((hshift k).trans hb)
    · intro h k b hb
      cases k with
      | zero =>
        rw [← encode_append] at hb
        exact isUTF8FirstByte_encode_zero hb
      | succ k => exact h k b ((hshift k).symm.trans hb)
  · constructor
    · intro _ k b hb
      cases hb
    · intro _ k b hb
      rw [encode_nil, List.append_nil] at hb
      cases k with
      | zero => exact isUTF8FirstByte_encode_zero hb
      | succ k =>
        have hlt := (List.getElem?_eq_some_iff.mp hb).1
        omega

/-- The text is read when no character is cut, and another one never. -/
theorem consumeAsString_encode (text : List Char) {data : List Char} :
    consumeAsString (encode text) = .ok data ↔ data = text ∧ NoCharacterCut (encode text) := by
  induction hn : (encode text).length using Nat.strong_induction_on generalizing text data with
  | _ n ih =>
  by_cases hempty : encode text = []
  · have htext : text = [] := encode_injective hempty
    rw [htext, encode_nil, consumeAsString_nil]
    constructor
    · intro h
      refine ⟨(Except.ok.inj h).symm, fun k b hb => ?_⟩
      cases hb
    · rintro ⟨rfl, -⟩
      rfl
  have hpos := List.length_pos_iff.mpr hempty
  -- a first piece that is decoded leaves the bytes of the rest of the text
  have hpiece : ∀ front, decodeBytes ((encode text).take 4096) = .ok front →
      ∃ rest, text = front ++ rest ∧ (encode text).drop 4096 = encode rest ∧
        ((encode front).length = 4096 ∨ rest = [] ∧ (encode front).length ≤ 4096) := by
    intro front hfront
    have htake := decodeBytes_eq_ok.mp hfront
    have hsplit : encode text = encode front ++ (encode text).drop 4096 := by
      rw [← htake, List.take_append_drop]
    obtain ⟨rest, htext, hdrop⟩ := prefix_of_encode_append hsplit
    refine ⟨rest, htext, hdrop, ?_⟩
    have hlength : (encode front).length = min 4096 (encode text).length := by
      rw [← htake, List.length_take]
    rcases le_or_gt 4096 (encode text).length with hlong | hshort
    · left
      omega
    · right
      have hnil : encode rest = [] := by
        rw [← hdrop, List.drop_eq_nil_iff]
        exact hshort.le
      exact ⟨encode_injective hnil, by omega⟩
  have hless : ∀ rest, (encode text).drop 4096 = encode rest → (encode rest).length < n := by
    intro rest hdrop
    rw [← hdrop, List.length_drop]
    omega
  rw [consumeAsString_of_ne_nil hempty]
  constructor
  · intro h
    obtain ⟨front, hfront, h⟩ := bind_eq_ok.mp h
    obtain ⟨rest, htext, hdrop, hlength⟩ := hpiece front hfront
    rw [hdrop] at h
    obtain ⟨data', hdata', h⟩ := bind_eq_ok.mp h
    obtain ⟨hsame, hcut⟩ := (ih _ (hless rest hdrop) rest rfl).mp hdata'
    have hjoined : front ++ data' = data := Except.ok.inj h
    constructor
    · rw [← hjoined, hsame, htext]
    · rw [htext]
      exact (noCharacterCut_append hlength).mpr hcut
  · rintro ⟨rfl, hcut⟩
    have hfirst : ∃ front, decodeBytes ((encode data).take 4096) = .ok front := by
      rcases le_or_gt 4096 (encode data).length with hlong | hshort
      · obtain ⟨front, rest, htext, hlength⟩ := (exists_cut_iff hlong).mpr (hcut 1)
        refine ⟨front, decodeBytes_eq_ok.mpr ?_⟩
        rw [htext, encode_append, List.take_left' hlength]
      · refine ⟨data, decodeBytes_eq_ok.mpr ?_⟩
        rw [List.take_of_length_le hshort.le]
    obtain ⟨front, hfront⟩ := hfirst
    obtain ⟨rest, htext, hdrop, hlength⟩ := hpiece front hfront
    have hrest : NoCharacterCut (encode rest) := by
      rw [htext] at hcut
      exact (noCharacterCut_append hlength).mp hcut
    have hdata := (ih _ (hless rest hdrop) rest rfl).mpr ⟨rfl, hrest⟩
    rw [hfront, ok_bind, hdrop, hdata, ok_bind, htext]
    rfl

section Readers
variable {Object : Type} (loads : List Char → Except Error Object) {text : List Char}
  {object : Object}

/-- A body that comes in one piece is read as its text. -/
theorem getJson_plain {transferEncoding : Option String}
    (hplain : transferEncoding ≠ some "chunked") :
    getJson loads ⟨transferEncoding, encode text⟩ = loads text := by
  rw [getJson, if_neg hplain, requestGetJson, decodeBytes_eq_ok.mpr rfl, ok_bind]

/-- A body in chunks gives the object of its text exactly when no character is cut. -/
theorem getJson_chunked_iff (hloads : loads text = .ok object) :
    getJson loads ⟨some "chunked", encode text⟩ = .ok object ↔ NoCharacterCut (encode text) := by
  rw [getJson, if_pos rfl]
  constructor
  · intro h
    obtain ⟨data, hdata, -⟩ := bind_eq_ok.mp h
    exact ((consumeAsString_encode text).mp hdata).2
  · intro hcut
    rw [(consumeAsString_encode text).mpr ⟨rfl, hcut⟩, ok_bind, hloads]

/-- Both readers give the object of the text exactly when no character is cut. -/
theorem readersAgree_iff (hloads : loads text = .ok object) :
    getJson loads ⟨some "chunked", encode text⟩ = .ok object ∧
        getJson loads ⟨none, encode text⟩ = .ok object ↔ NoCharacterCut (encode text) := by
  rw [getJson_chunked_iff loads hloads, getJson_plain loads (by decide), hloads]
  exact and_iff_left rfl

end Readers

/-- `json.loads` of a string without escapes. -/
def loadsString : List Char → Except Error (List Char)
  | '"' :: text => if text.getLast? = some '"' then .ok text.dropLast else .error .valueError
  | _ => .error .valueError

theorem readersAgree_iff_accent :
    getJson loadsString ⟨some "chunked", encode ['"', 'é', '"']⟩ = .ok ['é'] ∧
        getJson loadsString ⟨none, encode ['"', 'é', '"']⟩ = .ok ['é'] ↔
      NoCharacterCut (encode ['"', 'é', '"']) :=
  readersAgree_iff loadsString (by decide)

def quoted (text : List Char) : List Char := '"' :: (text ++ ['"'])

theorem loadsString_quoted (text : List Char) : loadsString (quoted text) = .ok text := by
  rw [quoted, loadsString, List.getLast?_concat, if_pos rfl, List.dropLast_concat]

def accented (n : ℕ) : List Char := List.replicate n 'a' ++ ['é']

theorem getElem?_quoted_accented (n : ℕ) : (encode (quoted (accented n)))[n + 2]? = some 169 := by
  have hletters : encode (List.replicate n 'a') = List.replicate n 97 := by
    induction n with
    | zero => rfl
    | succ n ih =>
      rw [List.replicate_succ, encode_cons, ih]
      rfl
  have hfront : (encode ('"' :: List.replicate n 'a')).length = n + 1 := by
    rw [length_encode_cons, hletters, List.length_replicate, Nat.add_comm]
    rfl
  have hbytes : encode (quoted (accented n)) =
      encode ('"' :: List.replicate n 'a') ++ encode ['é', '"'] := by
    rw [← encode_append, quoted, accented, List.append_assoc]
    rfl
  rw [hbytes, List.getElem?_append_right (by omega), hfront, Nat.add_sub_add_left]
  decide

/-- A string whose accented letter has its bytes in two pieces. -/
theorem not_readersAgree_accented :
    loadsString (quoted (accented 4094)) = .ok (accented 4094) ∧
      getJson loadsString ⟨none, encode (quoted (accented 4094))⟩ = .ok (accented 4094) ∧
      ¬ getJson loadsString ⟨some "chunked", encode (quoted (accented 4094))⟩ =
        .ok (accented 4094) := by
  have hloads := loadsString_quoted (accented 4094)
  refine ⟨hloads, ?_, ?_⟩
  · rw [getJson_plain loadsString (by decide), hloads]
  · rw [getJson_chunked_iff loadsString hloads]
    intro hcut
    have hfirst := hcut 1 169 (getElem?_quoted_accented 4094)
    exact absurd hfirst (by decide)

end EntityService.Views
