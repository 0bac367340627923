import EntityService.Basic
import EntityService.Lib.Reading

/-! The raw stream that reads from an iterable of byte strings. What a call has no room for is
left over for the next call. -/
namespace EntityService
open Lib

structure IterRawStream where
  leftover : Bytes
  iterable : List Bytes
deriving DecidableEq, Repr

namespace IterRawStream

def init (iterable : List Bytes) : IterRawStream := ⟨[], iterable⟩

/-- The loop of `readinto`, which skips empty chunks and stops with the iterable. -/
def nextChunk : Bytes → List Bytes → Option (Bytes × List Bytes)
  | [], [] => none
  | [], chunk :: iterable => nextChunk chunk iterable
  | byte :: chunk, iterable => some (byte :: chunk, iterable)

/-- The stream after the call, the buffer as the call leaves it, and the number returned. -/
def readinto (s : IterRawStream) (b : Bytes) : IterRawStream × Bytes × ℕ :=
  let l := b.length
  match nextChunk s.leftover s.iterable with
  | none => ({ s with iterable := [] }, b, 0)
  | some (chunk, iterable) =>
    let output := chunk.take l
    (⟨chunk.drop l, iterable⟩, output ++ b.drop output.length, output.length)

/-- Calls with these buffers, one after the other: each buffer afterwards, and what is returned. -/
def calls : IterRawStream → List Bytes → List (Bytes × ℕ)
  | _, [] => []
  | s, b :: bs => (s.readinto b).2 :: calls (s.readinto b).1 bs

/-- The bytes that a call has written into its buffer. -/
def written (call : Bytes × ℕ) : Bytes := call.1.take call.2

theorem written_eq_nil_iff {call : Bytes × ℕ} (h : call.2 ≤ call.1.length) :
    written call = [] ↔ call.2 = 0 := by
  rw [← List.length_eq_zero_iff, written, List.length_take, Nat.min_eq_left h]

/-- The calls deliver the concatenation of the chunks, from its start and without a gap, and
return zero at its end only. -/
structure Delivers (chunks buffers : List Bytes) (results : List (Bytes × ℕ)) : Prop where
  buffers : List.Forall₂ (fun b r => r.2 ≤ b.length ∧ r.1.length = b.length ∧
    r.1.drop r.2 = b.drop r.2) buffers results
  delivered : (results.map written).flatten <+: chunks.flatten
  ended : ∀ i (h : i < results.length),
    results[i].2 = 0 ↔ ((results.take i).map written).flatten = chunks.flatten

/-- What the stream has yet to deliver. -/
def contents (s : IterRawStream) : Bytes := s.leftover ++ s.iterable.flatten

theorem contents_of_nextChunk_none {chunk : Bytes} {iterable : List Bytes}
    (h : nextChunk chunk iterable = none) : chunk ++ iterable.flatten = [] := by
  induction iterable generalizing chunk with
  | nil =>
    cases chunk with
    | nil => rfl
    | cons => cases h
  | cons next iterable ih =>
    cases chunk with
    | nil => exact ih h
    | cons => cases h

theorem contents_of_nextChunk_some {chunk chunk' : Bytes} {iterable iterable' : List Bytes}
    (h : nextChunk chunk iterable = some (chunk', iterable')) :
    chunk' ≠ [] ∧ chunk ++ iterable.flatten = chunk' ++ iterable'.flatten := by
  induction iterable generalizing chunk with
  | nil =>
    cases chunk with
    | nil => cases h
    | cons byte chunk =>
      cases h
      exact ⟨List.cons_ne_nil _ _, rfl⟩
  | cons next iterable ih =>
    cases chunk with
    | nil => exact ih h
    | cons byte chunk =>
      cases h
      exact ⟨List.cons_ne_nil _ _, rfl⟩

section Call
variable (s : IterRawStream) (b : Bytes)

/-- A call fills a part of the buffer and leaves the rest of it alone. -/
theorem readinto_buffer : (s.readinto b).2.2 ≤ b.length ∧ (s.readinto b).2.1.length = b.length ∧
    (s.readinto b).2.1.drop (s.readinto b).2.2 = b.drop (s.readinto b).2.2 := by
  unfold readinto
  cases nextChunk s.leftover s.iterable with
  | none => exact ⟨Nat.zero_le _, rfl, rfl⟩
  | some next =>
    obtain ⟨chunk, iterable⟩ := next
    have hle : (chunk.take b.length).length ≤ b.length := List.length_take_le _ _
    refine ⟨hle, ?_, List.drop_left' rfl⟩
    rw [List.length_append, List.length_drop]
    omega

/-- A call writes the next bytes, none of them only at the end or without a buffer. -/
theorem readinto_contents : written (s.readinto b).2 ++ (s.readinto b).1.contents = s.contents ∧
    (0 < b.length → ((s.readinto b).2.2 = 0 ↔ s.contents = [])) := by
  unfold readinto written contents
  cases hnext : nextChunk s.leftover s.iterable with
  | none =>
    have hnil := contents_of_nextChunk_none hnext
    obtain ⟨hleftover, -⟩ := List.append_eq_nil_iff.mp hnil
    refine ⟨?_, fun _ => iff_of_true rfl hnil⟩
    rw [hnil]
    simp [hleftover]
  | some next =>
    obtain ⟨chunk, iterable⟩ := next
    obtain ⟨hne, hcontents⟩ := contents_of_nextChunk_some hnext
    rw [hcontents]
    dsimp only
    refine ⟨?_, fun hpos => ?_⟩
    · rw [List.take_left' rfl, ← List.append_assoc, List.take_append_drop]
    · have hlength := List.length_pos_iff.mpr hne
      refine iff_of_false ?_ (List.append_ne_nil_of_left_ne_nil hne _)
      rw [List.length_take]
      omega

end Call

def deliver (s : IterRawStream) (b : Bytes) : IterRawStream × Bytes :=
  ((s.readinto b).1, written (s.readinto b).2)

theorem map_written_calls (s : IterRawStream) (bs : List Bytes) :
    (s.calls bs).map written = deliveries deliver s bs := by
  induction bs generalizing s with
  | nil => rfl
  | cons b bs ih =>
    rw [calls, List.map_cons, ih]
    rfl

theorem forall₂_calls (s : IterRawStream) (bs : List Bytes) :
    List.Forall₂ (fun b r => r.2 ≤ b.length ∧ r.1.length = b.length ∧ r.1.drop r.2 = b.drop r.2)
      bs (s.calls bs) := by
  induction bs generalizing s with
  | nil => exact .nil
  | cons b bs ih => exact .cons (s.readinto_buffer b) (ih _)

section Calls
variable (chunks : List Bytes) {buffers : List Bytes} (hpos : ∀ b ∈ buffers, 0 < b.length)

theorem deliver_contents (s : IterRawStream) (b : Bytes) :
    (deliver s b).2 ++ (deliver s b).1.contents = s.contents := (s.readinto_contents b).1

theorem deliver_eq_nil_iff (s : IterRawStream) (b : Bytes) (hb : 0 < b.length) :
    (deliver s b).2 = [] ↔ s.contents = [] := by
  obtain ⟨hle, hlength, -⟩ := s.readinto_buffer b
  exact (written_eq_nil_iff (hle.trans hlength.ge)).trans ((s.readinto_contents b).2 hb)

include hpos

/-- However a reader chooses its buffers, it gets the concatenation of the chunks. -/
theorem readinto_delivers : Delivers chunks buffers ((init chunks).calls buffers) := by
  have hcontents : (init chunks).contents = chunks.flatten := rfl
  have hcalls := forall₂_calls (init chunks) buffers
  refine ⟨hcalls, ?_, fun i hi => ?_⟩
  · rw [map_written_calls, ← hcontents]
    exact flatten_deliveries_prefix deliver_contents _ _
  · have hlt : i < (deliveries deliver (init chunks) buffers).length := by
      rw [← map_written_calls, List.length_map]
      exact hi
    have hnil := deliveries_eq_nil_iff deliver_contents deliver_eq_nil_iff hpos hlt
    simp only [← map_written_calls, List.getElem_map, ← List.map_take, hcontents] at hnil
    obtain ⟨hle, hlength, -⟩ := (List.forall₂_iff_get.mp hcalls).2 i (by simpa using hlt) hi
    exact (written_eq_nil_iff (hle.trans hlength.ge)).symm.trans hnil

/-- As many calls as there are bytes deliver all of them, so an upload that reads on until a call
returns zero stores the concatenation. -/
theorem written_eq_flatten (hlen : chunks.flatten.length ≤ buffers.length) :
    (((init chunks).calls buffers).map written).flatten = chunks.flatten := by
  rw [map_written_calls]
  exact flatten_deliveries_eq deliver_contents deliver_eq_nil_iff hpos hlen

end Calls

/-- A chunk that is longer than the first buffer, and empty chunks before and after the last one. -/
theorem readinto_delivers_threeBytes :
    (init [[80, 81], [], [82], []]).calls [[0], [0, 0], [0, 0, 0], [0]] =
        [([80], 1), ([81, 0], 1), ([82, 0, 0], 1), ([0], 0)] ∧
      Delivers [[80, 81], [], [82], []] [[0], [0, 0], [0, 0, 0], [0]]
        ((init [[80, 81], [], [82], []]).calls [[0], [0, 0], [0, 0, 0], [0]]) :=
  ⟨by decide, readinto_delivers _ (by decide)⟩

end IterRawStream
end EntityService
