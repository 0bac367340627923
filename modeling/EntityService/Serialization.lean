import EntityService.Basic

/-! The packed form of an encoding: a four-byte entity id in network byte order, then the
raw bytes of the encoding. -/
namespace EntityService
open Lib

def base64Value (c : Char) : Option ℕ :=
  if 'A' ≤ c ∧ c ≤ 'Z' then some (c.toNat - 65)
  else if 'a' ≤ c ∧ c ≤ 'z' then some (c.toNat - 71)
  else if '0' ≤ c ∧ c ≤ '9' then some (c.toNat + 4)
  else if c = '+' then some 62
  else if c = '/' then some 63
  else none

/-- The loop of `binascii.a2b_base64`: `quad` data characters of the current group of four
are read, `left` holds their unused bits and `pads` the padding characters since then.
Characters outside the alphabet are skipped. -/
def a2bBase64 (quad left pads : ℕ) : List Char → Except Error Bytes
  | [] => if quad = 0 then .ok [] else .error .binasciiError
  | c :: cs =>
    if c = '=' then
      if 2 ≤ quad then
        if 4 ≤ quad + (pads + 1) then .ok [] else a2bBase64 quad left (pads + 1) cs
      else a2bBase64 quad left pads cs
    else match base64Value c with
      | none => a2bBase64 quad left pads cs
      | some v =>
        match quad with
        | 0 => a2bBase64 1 v 0 cs
        | 1 => return UInt8.ofNat (left * 4 + v / 16) :: (← a2bBase64 2 (v % 16) 0 cs)
        | 2 => return UInt8.ofNat (left * 16 + v / 4) :: (← a2bBase64 3 (v % 4) 0 cs)
        | _ => return UInt8.ofNat (left * 64 + v) :: (← a2bBase64 0 0 0 cs)

/-- `base64.b64decode` of a text, which has to be ASCII. -/
def deserializeBytes (data : List Char) : Except Error Bytes :=
  if data.all (fun c => c.toNat < 128) then a2bBase64 0 0 0 data else .error .valueError

def packUInt32 (n : ℕ) : Bytes := [n / 2 ^ 24, n / 2 ^ 16, n / 2 ^ 8, n].map UInt8.ofNat

/-- `int.from_bytes` in network byte order. -/
def fromBytes (data : Bytes) : ℕ := data.foldl (fun n b => n * 256 + b.toNat) 0

theorem fromBytes_packUInt32 {n : ℕ} (h : n < 2 ^ 32) : fromBytes (packUInt32 n) = n := by
  simp only [fromBytes, packUInt32, List.map_cons, List.map_nil, List.foldl_cons,
    List.foldl_nil, UInt8.toNat_ofNat']
  omega

/-- Struct's `Ns`: cut to `n` bytes, or fill up with zeros. -/
def fit (n : ℕ) (data : Bytes) : Bytes := data.take n ++ List.replicate (n - data.length) 0

@[simp] theorem length_fit (n : ℕ) (data : Bytes) : (fit n data).length = n := by
  simp only [fit, List.length_append, List.length_take, List.length_replicate]
  omega

theorem fit_of_length {n : ℕ} {data : Bytes} (h : data.length = n) : fit n data = data := by
  simp [fit, h]

/-- Packing leaves an encoding as it is only when it has the packed length. -/
theorem fit_eq_self_iff {n : ℕ} {data : Bytes} : fit n data = data ↔ data.length = n := by
  constructor
  · intro h
    rw [← h, length_fit]
  · exact fit_of_length

/-- A `struct.Struct` of format `!I{encoding_size}s`. -/
structure BitPacking where
  encodingSize : ℕ
deriving DecidableEq, Repr

/-- A negative size makes a format that `struct` does not know. -/
def binaryFormat (encodingSize : ℤ) : Except Error BitPacking :=
  if 0 ≤ encodingSize then .ok ⟨encodingSize.toNat⟩ else .error .structError

theorem binaryFormat_eq_ok {encodingSize : ℤ} {p : BitPacking} :
    binaryFormat encodingSize = .ok p ↔ encodingSize = p.encodingSize := by
  unfold binaryFormat
  obtain ⟨n⟩ := p
  split_ifs with h
  · rw [Except.ok.injEq, BitPacking.mk.injEq]
    change encodingSize.toNat = n ↔ encodingSize = n
    omega
  · have hne : encodingSize ≠ n := by omega
    simp [hne]

@[simp] theorem binaryFormat_natCast (n : ℕ) : binaryFormat n = .ok ⟨n⟩ :=
  binaryFormat_eq_ok.mpr rfl

namespace BitPacking
variable (p : BitPacking)

def size : ℕ := 4 + p.encodingSize

def pack (entityId : ℕ) (data : Bytes) : Except Error Bytes :=
  if entityId < 2 ^ 32 then .ok (packUInt32 entityId ++ fit p.encodingSize data)
  else .error .structError

def unpack (data : Bytes) : Except Error (ℕ × Bytes) :=
  if data.length = p.size then .ok (fromBytes (data.take 4), data.drop 4)
  else .error .structError

theorem pack_eq_ok {entityId : ℕ} {data packed : Bytes} :
    p.pack entityId data = .ok packed ↔
      entityId < 2 ^ 32 ∧ packed = packUInt32 entityId ++ fit p.encodingSize data := by
  unfold pack
  split_ifs with h
  · rw [Except.ok.injEq, eq_comm]
    exact (and_iff_right h).symm
  · constructor
    · intro he
      cases he
    · exact fun he => absurd he.1 h

/-- Unpacking gives back the entity id and the encoding, cut or filled to the size. -/
theorem unpack_pack {entityId : ℕ} {data packed : Bytes}
    (h : p.pack entityId data = .ok packed) :
    p.unpack packed = .ok (entityId, fit p.encodingSize data) := by
  obtain ⟨hid, rfl⟩ := p.pack_eq_ok.mp h
  have hlen : (packUInt32 entityId).length = 4 := rfl
  have hsize : (packUInt32 entityId ++ fit p.encodingSize data).length = p.size := by
    rw [List.length_append, length_fit, hlen, size]
  have htake : (packUInt32 entityId ++ fit p.encodingSize data).take 4 = packUInt32 entityId :=
    List.take_left' hlen
  have hdrop : (packUInt32 entityId ++ fit p.encodingSize data).drop 4 =
      fit p.encodingSize data := List.drop_left' hlen
  rw [unpack, if_pos hsize, htake, hdrop, fromBytes_packUInt32 hid]

/-- A packed encoding unpacks to itself exactly when it has the packed size. -/
theorem unpack_pack_eq_iff {entityId : ℕ} {data packed : Bytes}
    (h : p.pack entityId data = .ok packed) :
    p.unpack packed = .ok (entityId, data) ↔ data.length = p.encodingSize := by
  rw [p.unpack_pack h, Except.ok.injEq, Prod.mk.injEq, ← fit_eq_self_iff]
  exact and_iff_right rfl

end BitPacking

example : deserializeBytes "UG9vcA==".toList = .ok [80, 111, 111, 112] := by decide

end EntityService
