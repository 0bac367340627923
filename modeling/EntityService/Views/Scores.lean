import EntityService.EncodingStorage.Pipeline
import EntityService.Lib.Json
import EntityService.Tasks.Aggregation

/-! The similarity scores of a run as a JSON document, which is yielded in pieces. The loop is
one line behind, as only the last line has no comma. -/
namespace EntityService.Views
open Lib Tasks.Aggregation

section Model
variable {σ : Type}

/-- `anonlink.serialization.load_candidate_pairs`: parallel arrays. -/
structure CandidateArrays (σ : Type) where
  sims : List σ
  dsetIs0 : List UInt32
  dsetIs1 : List UInt32
  recIs0 : List UInt32
  recIs1 : List UInt32
deriving DecidableEq, Repr

def CandidateArrays.zip (arrays : CandidateArrays σ) : List (CandidatePair σ) :=
  (arrays.sims.zip (arrays.dsetIs0.zip (arrays.dsetIs1.zip
    (arrays.recIs0.zip arrays.recIs1)))).map fun (sim, dsetI0, dsetI1, recI0, recI1) =>
      ⟨sim, dsetI0, dsetI1, recI0, recI1⟩

def candidateArrays (pairs : List (CandidatePair σ)) : CandidateArrays σ :=
  ⟨pairs.map CandidatePair.sim, pairs.map CandidatePair.dsetI0, pairs.map CandidatePair.dsetI1,
    pairs.map CandidatePair.recI0, pairs.map CandidatePair.recI1⟩

/-- `str` of an unsigned integer. -/
def unsignedText (n : UInt32) : List Char := decimal n.toNat

variable (str : σ → List Char)

/-- `[{dset_i0}, {rec_i0}], [{dset_i1}, {rec_i1}], {sim}` -/
def scoreLine (c : CandidatePair σ) : List Char :=
  '[' :: unsignedText c.dsetI0 ++ [',', ' '] ++ unsignedText c.recI0 ++ [']', ',', ' ', '['] ++
    unsignedText c.dsetI1 ++ [',', ' '] ++ unsignedText c.recI1 ++ [']', ',', ' '] ++ str c.sim

/-- The last line is yielded without a trailing comma, and closes the object. -/
def laggedLines (prevLine : List Char) : List (List Char) → List (List Char)
  | [] => ['[' :: strip prevLine ++ [']'], [']', '}']]
  | line :: lines => ('[' :: strip prevLine ++ [']', ',']) :: laggedLines line lines

def scoresKey : List Char :=
  ['s', 'i', 'm', 'i', 'l', 'a', 'r', 'i', 't', 'y', '_', 's', 'c', 'o', 'r', 'e', 's']

def generateScores (candidatePairs : CandidateArrays σ) : List (List Char) :=
  ('{' :: '"' :: scoresKey ++ ['"', ':', ' ', '[']) ::
    match candidatePairs.zip.map (scoreLine str) with
    | [] => [[']', '}']]
    | prevLine :: lines => laggedLines prevLine lines

/-- `[[dset0, rec0], [dset1, rec1], similarity]` -/
def scoreJson (c : CandidatePair σ) : Json :=
  .array [.array [.number (unsignedText c.dsetI0), .number (unsignedText c.recI0)],
    .array [.number (unsignedText c.dsetI1), .number (unsignedText c.recI1)],
    .number (str c.sim)]

end Model

section Document
variable {σ : Type} {str : σ → List Char}

theorem zip_candidateArrays (pairs : List (CandidatePair σ)) :
    (candidateArrays pairs).zip = pairs := by
  induction pairs with
  | nil => rfl
  | cons c pairs ih =>
    unfold candidateArrays CandidateArrays.zip at ih ⊢
    simp only [List.map_cons, List.zip_cons_cons, ih]

theorem reads_unsignedText (n : UInt32) :
    Json.Reads (.number (unsignedText n)) (unsignedText n) := by
  rw [unsignedText, decimal_natCast]
  exact Json.reads_toDigits n.toNat

theorem reads_indices (m n : UInt32) :
    Json.Reads (.array [.number (unsignedText m), .number (unsignedText n)])
      ('[' :: unsignedText m ++ [',', ' '] ++ unsignedText n ++ [']']) := by
  have hboth : List.Forall₂ Json.Reads [.number (unsignedText m), .number (unsignedText n)]
      [unsignedText m, ' ' :: unsignedText n] :=
    .cons (reads_unsignedText m) (.cons (reads_unsignedText n).space .nil)
  have harray := Json.reads_array hboth
  simpa using harray

theorem reads_scoreLine {c : CandidatePair σ} (h : Json.isNumber (str c.sim) = true) :
    Json.Reads (scoreJson str c) ('[' :: scoreLine str c ++ [']']) := by
  have hall : List.Forall₂ Json.Reads
      [.array [.number (unsignedText c.dsetI0), .number (unsignedText c.recI0)],
        .array [.number (unsignedText c.dsetI1), .number (unsignedText c.recI1)],
        .number (str c.sim)]
      ['[' :: unsignedText c.dsetI0 ++ [',', ' '] ++ unsignedText c.recI0 ++ [']'],
        ' ' :: ('[' :: unsignedText c.dsetI1 ++ [',', ' '] ++ unsignedText c.recI1 ++ [']']),
        ' ' :: str c.sim] :=
    .cons (reads_indices _ _) (.cons (reads_indices _ _).space
      (.cons (Json.reads_number h).space .nil))
  have harray := Json.reads_array hall
  simpa [scoreJson, scoreLine] using harray

theorem strip_scoreLine {c : CandidatePair σ} (h : Json.isNumber (str c.sim) = true) :
    strip (scoreLine str c) = scoreLine str c := by
  obtain ⟨hne, hchars⟩ := Json.isNumberChar_of_isNumber h
  apply trim_eq_self
  · intro d hd
    have hd : '[' = d := Option.some.inj hd
    rw [← hd]
    decide
  · intro d hd
    rw [scoreLine, List.getLast?_append_of_ne_nil _ hne] at hd
    have hspace := Json.isSpace_of_isNumberChar (hchars d (List.mem_of_getLast? hd))
    simp only [Json.isSpace, Bool.or_eq_false_iff, decide_eq_false_iff_not] at hspace
    simp [Char.isWhitespace, hspace]

/-- What the loop yields is joined to the lines in brackets with commas between them. -/
theorem flatten_laggedLines {prevLine : List Char} {lines : List (List Char)}
    (h : ∀ line ∈ prevLine :: lines, strip line = line) :
    (laggedLines prevLine lines).flatten =
      [','].intercalate ((prevLine :: lines).map fun line => '[' :: line ++ [']']) ++
        [']', '}'] := by
  induction lines generalizing prevLine with
  | nil => simp [laggedLines, h prevLine List.mem_cons_self]
  | cons line lines ih =>
    have hlines := ih fun l hl => h l (List.mem_cons_of_mem prevLine hl)
    have hjoined : [','].intercalate ((prevLine :: line :: lines).map fun l => '[' :: l ++ [']']) =
        ('[' :: prevLine ++ [']']) ++
          ',' :: [','].intercalate ((line :: lines).map fun l => '[' :: l ++ [']']) := by simp
    rw [laggedLines, List.flatten_cons, hlines, h prevLine List.mem_cons_self, hjoined]
    simp only [List.append_assoc, List.cons_append, List.nil_append]

/-- The pieces are an object whose one array has the lines in brackets. -/
theorem flatten_generateScores {pairs : List (CandidatePair σ)}
    (h : ∀ c ∈ pairs, Json.isNumber (str c.sim) = true) :
    (generateScores str (candidateArrays pairs)).flatten =
      '{' :: '"' :: (scoresKey ++ '"' :: ':' :: ' ' ::
        ('[' :: [','].intercalate (pairs.map fun c => '[' :: scoreLine str c ++ [']']) ++
          [']'])) ++ ['}'] := by
  rw [generateScores, zip_candidateArrays, List.flatten_cons]
  cases pairs with
  | nil => simp
  | cons c pairs =>
    have hstrip : ∀ line ∈ scoreLine str c :: pairs.map (scoreLine str), strip line = line := by
      intro line hline
      rw [← List.map_cons] at hline
      obtain ⟨d, hd, rfl⟩ := List.mem_map.mp hline
      exact strip_scoreLine (h d hd)
    have hlines := flatten_laggedLines hstrip
    rw [← List.map_cons, List.map_map] at hlines
    rw [List.map_cons]
    change _ ++ (laggedLines (scoreLine str c) (pairs.map (scoreLine str))).flatten = _
    rw [hlines]
    simp [Function.comp_def]

/-- The pieces are a document, and its value has the candidate pairs in their order. -/
theorem parse_generateScores (pairs : List (CandidatePair σ))
    (h : ∀ c ∈ pairs, Json.isNumber (str c.sim) = true) :
    Json.parse (generateScores str (candidateArrays pairs)).flatten =
      some (.object [(scoresKey, .array (pairs.map (scoreJson str)))]) := by
  have hlines : List.Forall₂ Json.Reads (pairs.map (scoreJson str))
      (pairs.map fun c => '[' :: scoreLine str c ++ [']']) := by
    rw [List.forall₂_map_left_iff, List.forall₂_map_right_iff, List.forall₂_same]
    exact fun c hc => reads_scoreLine (h c hc)
  have hkey : ∀ c ∈ scoresKey, c ≠ '"' ∧ c ≠ '\\' ∧ ¬ c.toNat < 32 := by simp [scoresKey]
  rw [flatten_generateScores h]
  exact (Json.reads_object hkey (Json.reads_array hlines).space).parse

/-- The text of half a number, as a floating point number. -/
def halfText (n : ℕ) : List Char :=
  decimal (n / 2 : ℕ) ++ ['.', if n % 2 = 0 then '0' else '5']

def twoPairs : List (CandidatePair ℕ) := [⟨2, 0, 1, 5, 7⟩, ⟨1, 0, 2, 5, 8⟩]

theorem parse_generateScores_twoPairs :
    Json.parse (generateScores halfText (candidateArrays twoPairs)).flatten =
      some (.object [(scoresKey, .array (twoPairs.map (scoreJson halfText)))]) :=
  parse_generateScores twoPairs (by decide)

end Document
end EntityService.Views
