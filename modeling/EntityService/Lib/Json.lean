import Mathlib.Data.List.Basic
import Mathlib.Data.List.Forall2
import Mathlib.Data.List.TakeWhile
import Mathlib.Tactic

/-! JSON documents and the values that they denote. Numbers and strings are kept as they are
written, strings without their quotes. -/
namespace EntityService.Lib

inductive Json
  | null
  | bool (b : Bool)
  | number (text : List Char)
  | string (text : List Char)
  | array (items : List Json)
  | object (members : List (List Char × Json))
deriving Repr

namespace Json

section Grammar

def isSpace (c : Char) : Bool := c = ' ' || c = '\t' || c = '\n' || c = '\r'

def skipSpace (text : List Char) : List Char := text.dropWhile isSpace

def isNumberChar (c : Char) : Bool :=
  c.isDigit || c = '-' || c = '+' || c = '.' || c = 'e' || c = 'E'

/-- One digit or more, and nothing else. -/
def areDigits (text : List Char) : Bool := text ≠ [] && text.all Char.isDigit

/-- An optional exponent with an optional sign. -/
def isExponent : List Char → Bool
  | [] => true
  | c :: text =>
    (c = 'e' || c = 'E') &&
      (areDigits text || (text.head? = some '+' || text.head? = some '-') && areDigits text.tail)

/-- An optional fraction and an optional exponent. -/
def isFraction (text : List Char) : Bool :=
  if text.head? = some '.' then
    text.tail.takeWhile Char.isDigit ≠ [] && isExponent (text.tail.dropWhile Char.isDigit)
  else isExponent text

/-- Digits without a leading zero, a fraction and an exponent. -/
def isUnsigned (text : List Char) : Bool :=
  let int := text.takeWhile Char.isDigit
  int ≠ [] && (int = ['0'] || int.head? ≠ some '0') && isFraction (text.dropWhile Char.isDigit)

def isNumber (text : List Char) : Bool :=
  if text.head? = some '-' then isUnsigned text.tail else isUnsigned text

/-- A number goes on for as long as its characters do. -/
def scanNumber (text : List Char) : Option (Json × List Char) :=
  let number := text.takeWhile isNumberChar
  if isNumber number then some (.number number, text.dropWhile isNumberChar) else none

def isHexDigit (c : Char) : Bool :=
  c.isDigit || ('a' ≤ c && c ≤ 'f') || ('A' ≤ c && c ≤ 'F')

/-- The character after a backslash, which has four hexadecimal digits behind a `u`. -/
def isEscape (c : Char) (text : List Char) : Bool :=
  c ∈ ['"', '\\', '/', 'b', 'f', 'n', 'r', 't'] ||
    c = 'u' && (text.take 4).length = 4 && (text.take 4).all isHexDigit

/-- A string up to its closing quote, and what follows. -/
def scanString : List Char → Option (List Char × List Char)
  | [] => none
  | [c] => if c = '"' then some ([], []) else none
  | c :: e :: text =>
    if c = '"' then some ([], e :: text)
    else if c = '\\' then
      if isEscape e text then (scanString text).map fun r => (c :: e :: r.1, r.2) else none
    else if c.toNat < 32 then none
    else (scanString (e :: text)).map fun r => (c :: r.1, r.2)

mutual

/-- A value at the front of a text, and what follows. The first number bounds the nesting. -/
def value : ℕ → List Char → Option (Json × List Char)
  | 0, _ => none
  | n + 1, text =>
    match skipSpace text with
    | [] => none
    | c :: rest =>
      if c = '[' then
        if (skipSpace rest).head? = some ']' then some (.array [], (skipSpace rest).tail)
        else (items n rest).map fun r => (.array r.1, r.2)
      else if c = '{' then
        if (skipSpace rest).head? = some '}' then some (.object [], (skipSpace rest).tail)
        else (members n rest).map fun r => (.object r.1, r.2)
      else if c = '"' then (scanString rest).map fun r => (.string r.1, r.2)
      else if ['t', 'r', 'u', 'e'].isPrefixOf (c :: rest) then some (.bool true, rest.drop 3)
      else if ['f', 'a', 'l', 's', 'e'].isPrefixOf (c :: rest) then
        some (.bool false, rest.drop 4)
      else if ['n', 'u', 'l', 'l'].isPrefixOf (c :: rest) then some (.null, rest.drop 3)
      else scanNumber (c :: rest)

def items : ℕ → List Char → Option (List Json × List Char)
  | 0, _ => none
  | n + 1, text => do
    let (item, rest) ← value n text
    match skipSpace rest with
    | [] => none
    | c :: rest =>
      if c = ',' then (items n rest).map fun r => (item :: r.1, r.2)
      else if c = ']' then some ([item], rest)
      else none

def members : ℕ → List Char → Option (List (List Char × Json) × List Char)
  | 0, _ => none
  | n + 1, text => do
    let (key, rest) ← if (skipSpace text).head? = some '"' then scanString (skipSpace text).tail
      else none
    let (member, rest) ← if (skipSpace rest).head? = some ':' then value n (skipSpace rest).tail
      else none
    match skipSpace rest with
    | [] => none
    | c :: rest =>
      if c = ',' then (members n rest).map fun r => ((key, member) :: r.1, r.2)
      else if c = '}' then some ([(key, member)], rest)
      else none

end

def parse (text : List Char) : Option Json := do
  let (v, rest) ← value (text.length + 1) text
  if skipSpace rest = [] then some v else none

end Grammar

/-- A text is read as a value wherever it ends before something that is no part of a number. -/
def Reads (v : Json) (text : List Char) : Prop :=
  ∀ n rest, text.length < n → (∀ c ∈ rest.head?, isNumberChar c = false) →
    value n (text ++ rest) = some (v, rest)

theorem skipSpace_cons {c : Char} (h : isSpace c = false) (text : List Char) :
    skipSpace (c :: text) = c :: text := List.dropWhile_cons_of_neg (by simp [h])

theorem Reads.parse {v : Json} {text : List Char} (h : Reads v text) : parse text = some v := by
  have hvalue := h (text.length + 1) [] (Nat.lt_succ_self _) (by simp)
  rw [List.append_nil] at hvalue
  rw [Json.parse, hvalue]
  rfl

section Numbers

theorem isNumberChar_of_isDigit {c : Char} (h : c.isDigit = true) : isNumberChar c = true := by
  simp [isNumberChar, h]

theorem isNumberChar_of_areDigits {text : List Char} (h : areDigits text = true) :
    ∀ c ∈ text, isNumberChar c = true := by
  simp only [areDigits, Bool.and_eq_true, List.all_eq_true] at h
  exact fun c hc => isNumberChar_of_isDigit (h.2 c hc)

theorem isNumberChar_of_isExponent {text : List Char} (h : isExponent text = true) :
    ∀ c ∈ text, isNumberChar c = true := by
  cases text with
  | nil => simp
  | cons c text =>
    simp only [isExponent, Bool.and_eq_true, Bool.or_eq_true, decide_eq_true_eq] at h
    obtain ⟨he, hrest⟩ := h
    have hc : isNumberChar c = true := by
      rcases he with rfl | rfl <;> decide
    refine List.forall_mem_cons.mpr ⟨hc, ?_⟩
    rcases hrest with hdigits | ⟨hsign, hdigits⟩
    · exact isNumberChar_of_areDigits hdigits
    · cases text with
      | nil => simp
      | cons d text =>
        simp only [List.head?_cons, Option.some.injEq] at hsign
        have hd : isNumberChar d = true := by
          rcases hsign with rfl | rfl <;> decide
        exact List.forall_mem_cons.mpr ⟨hd, isNumberChar_of_areDigits hdigits⟩

theorem forall_mem_of_takeWhile {text : List Char}
    (h : ∀ c ∈ text.dropWhile Char.isDigit, isNumberChar c = true) :
    ∀ c ∈ text, isNumberChar c = true := by
  intro c hc
  rw [← List.takeWhile_append_dropWhile (p := Char.isDigit) (l := text), List.mem_append] at hc
  rcases hc with hdigit | hrest
  · exact isNumberChar_of_isDigit (List.mem_takeWhile_imp hdigit)
  · exact h c hrest

theorem isNumberChar_of_isFraction {text : List Char} (h : isFraction text = true) :
    ∀ c ∈ text, isNumberChar c = true := by
  unfold isFraction at h
  split_ifs at h with hdot
  · cases text with
    | nil => simp
    | cons c text =>
      simp only [List.head?_cons, Option.some.injEq] at hdot
      simp only [List.tail_cons, Bool.and_eq_true] at h
      have hc : isNumberChar c = true := by
        rw [hdot]
        decide
      exact List.forall_mem_cons.mpr
        ⟨hc, forall_mem_of_takeWhile (isNumberChar_of_isExponent h.2)⟩
  · exact isNumberChar_of_isExponent h

theorem isNumberChar_of_isUnsigned {text : List Char} (h : isUnsigned text = true) :
    text ≠ [] ∧ ∀ c ∈ text, isNumberChar c = true := by
  simp only [isUnsigned, Bool.and_eq_true, decide_eq_true_eq] at h
  constructor
  · rintro rfl
    exact h.1.1 rfl
  · exact forall_mem_of_takeWhile (isNumberChar_of_isFraction h.2)

theorem isNumberChar_of_isNumber {text : List Char} (h : isNumber text = true) :
    text ≠ [] ∧ ∀ c ∈ text, isNumberChar c = true := by
  unfold isNumber at h
  split_ifs at h with hsign
  · cases text with
    | nil => simp at hsign
    | cons c text =>
      simp only [List.head?_cons, Option.some.injEq] at hsign
      have hc : isNumberChar c = true := by
        rw [hsign]
        decide
      exact ⟨List.cons_ne_nil _ _, List.forall_mem_cons.mpr ⟨hc, (isNumberChar_of_isUnsigned h).2⟩⟩
  · exact isNumberChar_of_isUnsigned h

theorem ne_of_isNumberChar {c d : Char} (hc : isNumberChar c = true)
    (hd : isNumberChar d = false) : c ≠ d := by
  rintro rfl
  rw [hc] at hd
  cases hd

theorem isSpace_of_isNumberChar {c : Char} (h : isNumberChar c = true) : isSpace c = false := by
  have hspace := ne_of_isNumberChar (d := ' ') h (by decide)
  have htab := ne_of_isNumberChar (d := '\t') h (by decide)
  have hline := ne_of_isNumberChar (d := '\n') h (by decide)
  have hreturn := ne_of_isNumberChar (d := '\r') h (by decide)
  simp [isSpace, hspace, htab, hline, hreturn]

/-- A number ends in front of a character of something else. -/
theorem scanNumber_append {text rest : List Char} (h : isNumber text = true)
    (hrest : ∀ c ∈ rest.head?, isNumberChar c = false) :
    scanNumber (text ++ rest) = some (.number text, rest) := by
  have hchars := (isNumberChar_of_isNumber h).2
  have htake : rest.takeWhile isNumberChar = [] ∧ rest.dropWhile isNumberChar = rest := by
    cases rest with
    | nil => exact ⟨rfl, rfl⟩
    | cons c rest =>
      have hc : ¬ isNumberChar c = true := by simp [hrest c rfl]
      exact ⟨List.takeWhile_cons_of_neg hc, List.dropWhile_cons_of_neg hc⟩
  rw [scanNumber, List.takeWhile_append_of_pos hchars, List.dropWhile_append_of_pos hchars,
    htake.1, htake.2, List.append_nil]
  exact if_pos h

theorem reads_number {text : List Char} (h : isNumber text = true) : Reads (.number text) text := by
  obtain ⟨hne, hchars⟩ := isNumberChar_of_isNumber h
  intro n rest hn hrest
  obtain ⟨n, rfl⟩ := Nat.exists_eq_add_one_of_ne_zero (Nat.ne_zero_of_lt hn)
  have hscan := scanNumber_append h hrest
  obtain ⟨c, text, rfl⟩ := List.exists_cons_of_ne_nil hne
  have hc := hchars c List.mem_cons_self
  have hother : ∀ d, isNumberChar d = false → c ≠ d := fun d hd => ne_of_isNumberChar hc hd
  rw [List.cons_append] at hscan ⊢
  rw [value, skipSpace_cons (isSpace_of_isNumberChar hc)]
  have hword : ∀ d word, isNumberChar d = false →
      (d :: word).isPrefixOf (c :: (text ++ rest)) = false := by
    intro d word hd
    rw [List.isPrefixOf_cons_cons, beq_eq_false_iff_ne.mpr (hother d hd).symm, Bool.false_and]
  simp only [hother '[' (by decide), hother '{' (by decide), hother '"' (by decide), if_false,
    hword 't' _ (by decide), hword 'f' _ (by decide), hword 'n' _ (by decide), hscan,
    Bool.false_eq_true]

theorem head?_toDigits {n : ℕ} (h : (Nat.toDigits 10 n).head? = some '0') : n = 0 := by
  induction n using Nat.strong_induction_on with
  | _ n ih =>
  rcases lt_or_ge n 10 with hlt | hge
  · rw [Nat.toDigits_of_lt_base hlt, List.head?_cons, Option.some.injEq] at h
    exact Nat.digitChar_eq_zero.mp h
  · rw [Nat.toDigits_of_base_le (by decide) hge,
      List.head?_append_of_ne_nil _ Nat.toDigits_ne_nil] at h
    have hzero := ih (n / 10) (by omega) h
    omega

/-- The digits of a number do not start with a zero unless it is zero. -/
theorem isNumber_toDigits (n : ℕ) : isNumber (Nat.toDigits 10 n) = true := by
  have hdigits : ∀ c ∈ Nat.toDigits 10 n, c.isDigit = true := fun c hc =>
    Nat.isDigit_of_mem_toDigits (by decide) (by decide) hc
  have hsign : (Nat.toDigits 10 n).head? ≠ some '-' := by
    intro hhead
    exact absurd (hdigits '-' (List.mem_of_head? hhead)) (by decide)
  have htake : (Nat.toDigits 10 n).takeWhile Char.isDigit = Nat.toDigits 10 n :=
    List.takeWhile_eq_self_iff.mpr hdigits
  have hdrop : (Nat.toDigits 10 n).dropWhile Char.isDigit = [] :=
    List.dropWhile_eq_nil_iff.mpr hdigits
  have hzero : Nat.toDigits 10 n = ['0'] ∨ (Nat.toDigits 10 n).head? ≠ some '0' := by
    by_cases hn : n = 0
    · exact .inl (hn ▸ Nat.toDigits_zero 10)
    · exact .inr fun hhead => hn (head?_toDigits hhead)
  have hfraction : isFraction [] = true := rfl
  rw [isNumber, if_neg hsign, isUnsigned, htake, hdrop, hfraction]
  simp only [Bool.and_true, Bool.and_eq_true, Bool.or_eq_true, decide_eq_true_eq]
  exact ⟨Nat.toDigits_ne_nil, hzero⟩

theorem reads_toDigits (n : ℕ) : Reads (.number (Nat.toDigits 10 n)) (Nat.toDigits 10 n) :=
  reads_number (isNumber_toDigits n)

end Numbers

section Containers

/-- A space in front of a value is skipped. -/
theorem Reads.space {v : Json} {text : List Char} (h : Reads v text) : Reads v (' ' :: text) := by
  intro n rest hn hrest
  rw [List.length_cons] at hn
  have hvalue := h n rest (by omega) hrest
  obtain ⟨n, rfl⟩ := Nat.exists_eq_add_one_of_ne_zero (Nat.ne_zero_of_lt hn)
  rw [value] at hvalue ⊢
  have hskip : skipSpace (' ' :: text ++ rest) = skipSpace (text ++ rest) :=
    List.dropWhile_cons_of_pos (by decide)
  rw [hskip]
  exact hvalue

/-- The text of a value does not start like the end of an array or an object. -/
theorem Reads.skipSpace_append {v : Json} {text : List Char} (h : Reads v text)
    (rest : List Char) :
    ∃ c tail, skipSpace (text ++ rest) = c :: tail ∧ c ≠ ']' ∧ c ≠ '}' := by
  have hvalue := h (text.length + 1) [] (Nat.lt_succ_self _) (by simp)
  rw [List.append_nil, value] at hvalue
  cases hskip : skipSpace text with
  | nil =>
    rw [hskip] at hvalue
    cases hvalue
  | cons c tail =>
    rw [hskip] at hvalue
    have happend : skipSpace (text ++ rest) = c :: (tail ++ rest) := by
      unfold skipSpace at hskip ⊢
      rw [List.dropWhile_append, hskip]
      rfl
    refine ⟨c, tail ++ rest, happend, ?_, ?_⟩
    · rintro rfl
      cases hvalue
    · rintro rfl
      cases hvalue

theorem items_intercalate {vs : List Json} {texts : List (List Char)}
    (h : List.Forall₂ Reads vs texts) (hne : texts ≠ []) {n : ℕ} {rest : List Char}
    (hn : ([','].intercalate texts).length + 2 ≤ n) :
    items n ([','].intercalate texts ++ ']' :: rest) = some (vs, rest) := by
  induction h generalizing n with
  | nil => exact absurd rfl hne
  | @cons v text vs texts hv hvs ih =>
    obtain ⟨n, rfl⟩ := Nat.exists_eq_add_one_of_ne_zero (show n ≠ 0 by omega)
    cases texts with
    | nil =>
      cases hvs
      have hjoined : [','].intercalate [text] = text := by simp
      rw [hjoined] at hn ⊢
      have hvalue := hv n (']' :: rest) (by omega) (by simp [isNumberChar])
      rw [items, hvalue]
      rfl
    | cons text' texts =>
      have hjoined : [','].intercalate (text :: text' :: texts) =
          text ++ ',' :: [','].intercalate (text' :: texts) := by simp
      rw [hjoined] at hn ⊢
      rw [List.length_append, List.length_cons] at hn
      have hvalue := hv n (',' :: ([','].intercalate (text' :: texts) ++ ']' :: rest)) (by omega)
        (by simp [isNumberChar])
      have hitems := ih (List.cons_ne_nil _ _) (n := n) (by omega)
      rw [List.append_assoc, List.cons_append, items, hvalue]
      change Option.map _ (items n _) = _
      rw [hitems]
      rfl

theorem reads_array_nil : Reads (.array []) ['[', ']'] := by
  intro n rest hn _
  obtain ⟨n, rfl⟩ := Nat.exists_eq_add_one_of_ne_zero (Nat.ne_zero_of_lt hn)
  rw [value]
  rfl

theorem reads_array {vs : List Json} {texts : List (List Char)}
    (h : List.Forall₂ Reads vs texts) :
    Reads (.array vs) ('[' :: [','].intercalate texts ++ [']']) := by
  cases h with
  | nil => exact reads_array_nil
  | @cons v text vs texts hv hvs =>
    intro n rest hn _
    obtain ⟨n, rfl⟩ := Nat.exists_eq_add_one_of_ne_zero (Nat.ne_zero_of_lt hn)
    simp only [List.length_append, List.length_cons, List.length_nil] at hn
    have hitems : items n ([','].intercalate (text :: texts) ++ ']' :: rest) =
        some (v :: vs, rest) :=
      items_intercalate (.cons hv hvs) (List.cons_ne_nil _ _) (by omega)
    have hjoined : ∃ others, [','].intercalate (text :: texts) ++ ']' :: rest = text ++ others := by
      cases texts with
      | nil => exact ⟨']' :: rest, by simp⟩
      | cons text' texts =>
        exact ⟨',' :: [','].intercalate (text' :: texts) ++ ']' :: rest, by simp⟩
    obtain ⟨others, hothers⟩ := hjoined
    obtain ⟨c, tail, hskip, hc, -⟩ := hv.skipSpace_append others
    rw [← hothers] at hskip
    have hhead : (skipSpace ([','].intercalate (text :: texts) ++ ']' :: rest)).head? ≠
        some ']' := by
      rw [hskip, List.head?_cons]
      exact fun heq => hc (Option.some.inj heq)
    rw [List.cons_append, List.cons_append, List.append_assoc, List.singleton_append, value,
      skipSpace_cons (by decide)]
    simp only [if_true, if_neg hhead, hitems, Option.map_some]

theorem scanString_quote (rest : List Char) : scanString ('"' :: rest) = some ([], rest) := by
  cases rest with
  | nil => rfl
  | cons e rest => rfl

/-- Characters that are not special are part of the string up to its closing quote. -/
theorem scanString_append {text : List Char}
    (h : ∀ c ∈ text, c ≠ '"' ∧ c ≠ '\\' ∧ ¬ c.toNat < 32) (rest : List Char) :
    scanString (text ++ '"' :: rest) = some (text, rest) := by
  induction text with
  | nil => exact scanString_quote rest
  | cons c text ih =>
    obtain ⟨⟨hquote, hescape, hcontrol⟩, htext⟩ := List.forall_mem_cons.mp h
    have hne : text ++ '"' :: rest ≠ [] := by simp
    obtain ⟨e, tail, htail⟩ := List.exists_cons_of_ne_nil hne
    have hstring := ih htext
    rw [htail] at hstring
    rw [List.cons_append, htail, scanString, if_neg hquote, if_neg hescape, if_neg hcontrol,
      hstring]
    rfl

/-- An object with one member, whose key is written without escapes. -/
theorem reads_object {key text : List Char} {v : Json}
    (hkey : ∀ c ∈ key, c ≠ '"' ∧ c ≠ '\\' ∧ ¬ c.toNat < 32) (h : Reads v text) :
    Reads (.object [(key, v)]) ('{' :: '"' :: (key ++ '"' :: ':' :: text) ++ ['}']) := by
  intro n rest hn _
  obtain ⟨n, rfl⟩ := Nat.exists_eq_add_one_of_ne_zero (Nat.ne_zero_of_lt hn)
  simp only [List.length_append, List.length_cons, List.length_nil] at hn
  obtain ⟨n, rfl⟩ := Nat.exists_eq_add_one_of_ne_zero (show n ≠ 0 by omega)
  have hvalue := h n ('}' :: rest) (by omega) (by simp [isNumberChar])
  have hstring := scanString_append hkey (':' :: (text ++ '}' :: rest))
  have hmembers : members (n + 1) ('"' :: (key ++ '"' :: ':' :: (text ++ '}' :: rest))) =
      some ([(key, v)], rest) := by
    rw [members, skipSpace_cons (by decide)]
    simp only [List.head?_cons, List.tail_cons, if_true, hstring]
    rw [Option.bind_eq_bind, Option.bind_some]
    simp only [skipSpace_cons (show isSpace ':' = false by decide), List.head?_cons,
      List.tail_cons, if_true, hvalue]
    rfl
  have htext : '{' :: '"' :: (key ++ '"' :: ':' :: text) ++ ['}'] ++ rest =
      '{' :: '"' :: (key ++ '"' :: ':' :: (text ++ '}' :: rest)) := by simp
  rw [htext, value, skipSpace_cons (by decide)]
  simp only [skipSpace_cons (show isSpace '"' = false by decide), List.head?_cons,
    hmembers, Option.map_some]
  rfl

end Containers

end Json
end EntityService.Lib
