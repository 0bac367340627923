import EntityService.Database.BinaryCopy

/-! What parsing does with a stream that PostgreSQL does not send. Only the header is checked. A
read at the end of the stream is short and gives the number zero, which is a row without fields,
so that a stream that was cut off gives such rows forever. -/
namespace EntityService.Database
open Lib

/-- A single byte is not the number of the trailer. -/
theorem fromBytes_ne_trailer {count : Bytes} (h : count.length < 2) : fromBytes count ≠ 65535 := by
  rcases count with - | ⟨b, - | ⟨c, count⟩⟩
  · decide
  · have hlt := b.toNat_lt
    simp only [fromBytes, List.foldl_cons, List.foldl_nil]
    omega
  · simp only [List.length_cons] at h
    omega

section Truncated

theorem readFields_nil (n : ℕ) : (readFields n []).2 = [] := by
  induction n with
  | zero => rfl
  | succ n ih =>
    simp only [readFields, readUpTo_nil, ih]

/-- Fields that are cut off use up the stream. -/
theorem readFields_truncated {rowValues : List Bytes} (h : ∀ v ∈ rowValues, v.length < 2 ^ 31)
    {stream : Bytes} (hcut : stream <+: rowValues.flatMap copyField)
    (hlt : stream.length < (rowValues.flatMap copyField).length) :
    (readFields rowValues.length stream).2 = [] := by
  induction rowValues generalizing stream with
  | nil => exact absurd hlt (Nat.not_lt_zero _)
  | cons elValue rowValues ih =>
    obtain ⟨hsize, htail⟩ := List.forall_mem_cons.mp h
    have hlength : fromBytes (packUInt32 elValue.length) = elValue.length :=
      fromBytes_packUInt32 (by omega)
    rw [List.flatMap_cons, copyField, List.append_assoc] at hcut hlt
    rw [List.length_cons, readFields]
    rcases prefix_append_cases hcut with ⟨-, hshort⟩ | ⟨rest, rfl, hrest⟩
    · rw [readUpTo_short (by rw [length_packUInt32] at hshort; omega)]
      simp only [readUpTo_nil, readFields_nil]
    · rw [readUpTo_append (length_packUInt32 _)]
      simp only [hlength]
      rcases prefix_append_cases hrest with ⟨-, hshort⟩ | ⟨rest', rfl, hrest'⟩
      · rw [readUpTo_short hshort.le]
        simp only [readFields_nil]
      · rw [readUpTo_append rfl]
        apply ih htail hrest'
        simp only [List.length_append] at hlt
        omega

/-- A row that is cut off uses up the stream. -/
theorem nextRow_truncated {rowValues : List Bytes} (hcount : rowValues.length < 2 ^ 15)
    (h : ∀ v ∈ rowValues, v.length < 2 ^ 31) {stream : Bytes}
    (hcut : stream <+: copyRow rowValues)
    (hlt : stream.length < (copyRow rowValues).length) :
    ∃ row, nextRow stream = some (row, []) := by
  rw [copyRow] at hcut hlt
  rcases prefix_append_cases hcut with ⟨-, hshort⟩ | ⟨rest, rfl, hrest⟩
  · rw [length_packUInt16] at hshort
    rw [nextRow, readUpTo_short hshort.le]
    simp only [if_neg (fromBytes_ne_trailer hshort), readFields_nil]
    exact ⟨_, rfl⟩
  · have hnumber : fromBytes (packUInt16 rowValues.length) = rowValues.length :=
      fromBytes_packUInt16 (by omega)
    have hne : rowValues.length ≠ 65535 := by omega
    have hfields : (readFields rowValues.length rest).2 = [] := by
      apply readFields_truncated h hrest
      simp only [List.length_append] at hlt
      omega
    rw [nextRow, readUpTo_append (length_packUInt16 _)]
    simp only [hnumber, if_neg hne, hfields]
    exact ⟨_, rfl⟩

/-- At the end of the stream rows without fields are yielded forever. -/
theorem exhaust_nil (n : ℕ) : exhaust nextRow n [] = none := by
  have hnext : ∀ stream : Bytes, stream = [] → ∃ row rest, nextRow stream = some (row, rest) ∧
      rest = [] := by
    rintro stream rfl
    exact ⟨.values [], [], rfl, rfl⟩
  exact exhaust_eq_none hnext n rfl

/-- Rows that are cut off anywhere up to the end of the trailer have no end. -/
theorem exhaust_truncated {rows : List (List Bytes)} (h : Copyable rows) {stream : Bytes}
    (hcut : stream <+: rows.flatMap copyRow ++ trailer)
    (hlt : stream.length < (rows.flatMap copyRow ++ trailer).length) (n : ℕ) :
    exhaust nextRow n stream = none := by
  induction rows generalizing stream n with
  | nil =>
    have hshort : stream.length < 2 := hlt
    have hnext : nextRow stream = some (Row.ofValues (readFields (fromBytes stream) []).1, []) := by
      rw [nextRow, readUpTo_short hshort.le]
      simp only [if_neg (fromBytes_ne_trailer hshort), readFields_nil]
    exact exhaust_eq_none_of_next hnext exhaust_nil n
  | cons row rows ih =>
    obtain ⟨hcount, hcounts⟩ := List.forall_mem_cons.mp h.count
    obtain ⟨hlength, hlengths⟩ := List.forall_mem_cons.mp h.length
    rw [List.flatMap_cons, List.append_assoc] at hcut hlt
    rcases prefix_append_cases hcut with ⟨hrow, hshort⟩ | ⟨rest, rfl, hrest⟩
    · obtain ⟨last, hnext⟩ := nextRow_truncated hcount hlength hrow hshort
      exact exhaust_eq_none_of_next hnext exhaust_nil n
    · have hnext := nextRow_copyRow hcount hlength rest
      refine exhaust_eq_none_of_next hnext (fun n => ih ⟨hcounts, hlengths⟩ hrest ?_ n) n
      simp only [List.length_append] at hlt ⊢
      omega

end Truncated

section Header

/-- The signature, zero flags and no header extension. -/
def HasHeader (stream : Bytes) : Prop := header ++ headerExtension <+: stream

theorem skipHeader_eq_ok {stream rest : Bytes} :
    skipHeader stream = .ok rest ↔ stream = header ++ headerExtension ++ rest := by
  constructor
  · intro h
    obtain ⟨_, hstart, h⟩ := bind_eq_ok.mp h
    obtain ⟨_, hextension, h⟩ := bind_eq_ok.mp h
    have hstart : stream.take 15 = header := ensure_eq_ok.mp hstart
    have hextension : (stream.drop 15).take 4 = headerExtension := ensure_eq_ok.mp hextension
    have hrest : (stream.drop 15).drop 4 = rest := Except.ok.inj h
    rw [List.append_assoc, ← hstart, ← hextension, ← hrest, List.take_append_drop,
      List.take_append_drop]
  · rintro rfl
    exact skipHeader_copyStream rest

theorem hasHeader_iff {stream : Bytes} :
    HasHeader stream ↔ ∃ rest, skipHeader stream = .ok rest := by
  simp only [skipHeader_eq_ok]
  exact exists_congr fun rest => eq_comm

def Raises (stream : Bytes) : Prop := ∃ e, ∀ n, binaryRows n stream = .error e

theorem raises_iff {stream : Bytes} : Raises stream ↔ ¬ HasHeader stream := by
  rw [hasHeader_iff]
  constructor
  · rintro ⟨e, herror⟩ ⟨rest, hrest⟩
    have hzero := herror 0
    rw [binaryRows, hrest] at hzero
    cases hzero
  · intro hnone
    cases hskip : skipHeader stream with
    | ok rest => exact absurd ⟨rest, hskip⟩ hnone
    | error e =>
      refine ⟨e, fun n => ?_⟩
      rw [binaryRows, hskip]
      rfl

theorem WellFormed.hasHeader {stream : Bytes} (h : WellFormed stream) : HasHeader stream := by
  obtain ⟨rows, -, rfl⟩ := h
  exact ⟨_, rfl⟩

/-- A stream that is cut off behind its header gives rows forever. -/
theorem binaryRows_truncated {rows : List (List Bytes)} (h : Copyable rows) {stream : Bytes}
    (hheader : HasHeader stream) (hcut : stream <+: copyStream rows)
    (hlt : stream.length < (copyStream rows).length) (n : ℕ) :
    binaryRows n stream = .ok none := by
  obtain ⟨rest, rfl⟩ := hheader
  have hrest : rest <+: rows.flatMap copyRow ++ trailer :=
    (List.prefix_append_right_inj _).mp hcut
  have hshort : rest.length < (rows.flatMap copyRow ++ trailer).length := by
    simp only [copyStream, List.length_append] at hlt ⊢
    omega
  rw [binaryRows, skipHeader_copyStream, ok_bind, exhaust_truncated h hrest hshort]
  rfl

end Header

/-- Unless the stream is complete, iterating over it ends in an exception. -/
def Rejected (stream : Bytes) : Prop := ¬ WellFormed stream → Raises stream

theorem rejected_iff (stream : Bytes) :
    Rejected stream ↔ WellFormed stream ∨ ¬ HasHeader stream := by
  unfold Rejected
  rw [raises_iff]
  constructor
  · intro h
    by_cases hwf : WellFormed stream
    · exact .inl hwf
    · exact .inr (h hwf)
  · rintro (hwf | hheader) hnot
    · exact absurd hwf hnot
    · exact hheader

/-- A stream that ends after its header. -/
theorem not_rejected_headerOnly : ¬ Rejected (header ++ headerExtension) ∧
    ∀ n, binaryRows n (header ++ headerExtension) = .ok none := by
  have hheader : HasHeader (header ++ headerExtension) := List.prefix_refl _
  constructor
  · intro hrejected
    refine raises_iff.mp (hrejected ?_) hheader
    rintro ⟨rows, -, heq⟩
    have hlength := congrArg List.length heq
    have htrailer : trailer.length = 2 := rfl
    simp only [copyStream, List.length_append] at hlength
    omega
  · intro n
    exact binaryRows_truncated (show Copyable [] from ⟨by simp, by simp⟩) hheader ⟨trailer, rfl⟩
      (by decide) n

end EntityService.Database
