/-
  Exceptions and the record codec of the node (`utils/serialize.h`).

  Integers are written with the most significant byte first, strings as an
  8-byte length followed by the bytes.  The readers take a position by
  reference; here they return the new position with the value.  Positions are
  64-bit and wrap; `std::string::operator[]` behind the end is undefined.

  `deserializeIntBigEndian_at` and `deserializeStringBigEndian_at`: a reader
  that stands on an encoding returns the encoded value and the position just
  behind it.
-/
import TorrentNode.Lib.Exec

open Wire

namespace TorrentNode

/-! ## Exceptions -/

/-- What the code throws: `common::exception` (from `CHECK` and `throwErr`) with its message, or
    an exception of the standard library. -/
inductive Exn where
  | common (message : String)
  | std (what : String)
deriving DecidableEq, Repr

/-- A byte string inside the message of an exception. -/
def text (bs : Bytes) : String := String.ofList (bs.map fun b => Char.ofNat b.toNat)

/-- `CHECK(c, message)`. -/
def check (c : Prop) [Decidable c] (message : String) : Exec Exn Unit :=
  Exec.check c (.common message)

/-- `std::string::max_size()`. -/
def maxSize : ℕ := 2 ^ 63 - 1

/-- The content of a `std::string`. -/
abbrev StdString := { bs : Bytes // bs.length ≤ maxSize }

/-- A `std::string` of the bytes `bs`, built by `+=` or from a length. -/
def stdString (bs : Bytes) : Exec Exn Bytes :=
  Exec.check (bs.length ≤ maxSize) (.std "basic_string::append") >>= fun _ => .ok bs

/-- `raw.substr(pos, n)`. -/
def substr (raw : Bytes) (pos n : ℕ) : Exec Exn Bytes :=
  Exec.check (pos ≤ raw.length) (.std "basic_string::substr") >>= fun _ => .ok (slice raw pos n)

theorem stdString_eq_ok {bs r : Bytes} (h : stdString bs = .ok r) : r = bs ∧ bs.length ≤ maxSize := by
  obtain ⟨_, hc, hr⟩ := Exec.bind_eq_ok.1 h
  by_cases hl : bs.length ≤ maxSize
  · exact ⟨(Exec.ok.inj hr).symm, hl⟩
  · rw [Exec.check_neg hl] at hc; cases hc

theorem check_eq_ok {c : Prop} [Decidable c] {message : String} {u : Unit}
    (h : check c message = .ok u) : c := by
  by_contra hc
  rw [check, Exec.check_neg hc] at h; cases h

theorem check_of {c : Prop} [Decidable c] (h : c) (message : String) : check c message = .ok () :=
  Exec.check_pos h _

theorem StdString.length_lt (r : StdString) : r.1.length < 2 ^ 63 := by
  have h : r.1.length ≤ 2 ^ 63 - 1 := r.2
  omega

/-! ## Integers -/

/-- The loop of `toBinaryStringBigEndian`: `i + 1` bytes are still to be written, in front of
    `result`. -/
def toBinaryStringBigEndianLoop : ℕ → ℕ → Bytes → Bytes
  | 0, _, result => result
  | i + 1, val, result =>
    -- the bytes not reached keep the zero they were created with
    if val = 0 then List.replicate (i + 1) 0 ++ result
    else toBinaryStringBigEndianLoop i (val / 256) (UInt8.ofNat (val % 256) :: result)

/-- `toBinaryStringBigEndian<T>` for an unsigned `T` of `w` bytes. -/
def toBinaryStringBigEndian (w val : ℕ) : Bytes := toBinaryStringBigEndianLoop w val []

/-- `fromBinaryStringBigEndian<T>` for an unsigned `T` of `w` bytes: the value and `endPos`. -/
def fromBinaryStringBigEndian (w : ℕ) (raw : Bytes) (fromPos : ℕ) : Exec Exn (ℕ × ℕ) :=
  if raw.length < (w + fromPos) % 2 ^ 64 then .ok (0, fromPos)
  else if fromPos + w ≤ raw.length then
    .ok (beNat (slice raw fromPos w), (fromPos + w) % 2 ^ 64)
  else .undef (.readOutside fromPos)

/-- `serializeIntBigEndian<T>`. -/
def serializeIntBigEndian (w val : ℕ) : Bytes := toBinaryStringBigEndian w val

/-- `deserializeIntBigEndian<T>(raw, fromPos)`: the value and the new `fromPos`. -/
def deserializeIntBigEndian (w : ℕ) (raw : Bytes) (fromPos : ℕ) : Exec Exn (ℕ × ℕ) := do
  let (val, endPos) ← fromBinaryStringBigEndian w raw fromPos
  check (endPos ≠ fromPos) "Incorrect raw"
  return (val, endPos)

/-! ## Strings -/

/-- `serializeStringBigEndian(str)`. -/
def serializeStringBigEndian (str : Bytes) : Bytes := serializeIntBigEndian 8 str.length ++ str

/-- `deserializeStringBigEndian(raw, fromPos, endPos)`: the string and `endPos`. -/
def deserializeStringBigEndianEnd (raw : Bytes) (fromPos : ℕ) : Exec Exn (Bytes × ℕ) := do
  let (sizeString, endPos) ← fromBinaryStringBigEndian 8 raw fromPos
  if fromPos = endPos then return ([], endPos)
  let str ← substr raw endPos sizeString
  return (str, (endPos + sizeString) % 2 ^ 64)

/-- `deserializeStringBigEndian(raw, fromPos)`: the string and the new `fromPos`. -/
def deserializeStringBigEndian (raw : Bytes) (fromPos : ℕ) : Exec Exn (Bytes × ℕ) := do
  let (str, endPos) ← deserializeStringBigEndianEnd raw fromPos
  check (endPos ≠ fromPos) "Incorrect raw"
  return (str, endPos)

/-! ## Reading back what was written -/

theorem leBytes_zero (w : ℕ) : leBytes w 0 = List.replicate w 0 := by
  induction w with
  | zero => rfl
  | succ w ih => rw [leBytes, Nat.zero_div, ih, List.replicate_succ]; rfl

theorem toBinaryStringBigEndianLoop_eq (w val : ℕ) (result : Bytes) :
    toBinaryStringBigEndianLoop w val result = beBytes w val ++ result := by
  induction w generalizing val result with
  | zero => simp [toBinaryStringBigEndianLoop, beBytes, leBytes]
  | succ w ih =>
    rw [toBinaryStringBigEndianLoop]
    split_ifs with h
    · simp [h, beBytes, leBytes_zero]
    · have hb : UInt8.ofNat (val % 256) = UInt8.ofNat val := by
        apply UInt8.toNat_inj.1; simp
      rw [ih, hb]; simp [beBytes, leBytes]

theorem serializeIntBigEndian_eq (w val : ℕ) : serializeIntBigEndian w val = beBytes w val := by
  rw [serializeIntBigEndian, toBinaryStringBigEndian, toBinaryStringBigEndianLoop_eq,
    List.append_nil]

@[simp] theorem serializeIntBigEndian_length (w val : ℕ) :
    (serializeIntBigEndian w val).length = w := by simp [serializeIntBigEndian_eq]

@[simp] theorem serializeStringBigEndian_length (str : Bytes) :
    (serializeStringBigEndian str).length = 8 + str.length := by
  simp [serializeStringBigEndian]

/-- The integer read at a position inside the string. -/
theorem fromBinaryStringBigEndian_inside {w : ℕ} {raw : Bytes} {pos : ℕ}
    (hraw : raw.length < 2 ^ 64) (h : pos + w ≤ raw.length) :
    fromBinaryStringBigEndian w raw pos = .ok (beNat (slice raw pos w), pos + w) := by
  have h1 : (w + pos) % 2 ^ 64 = w + pos := Nat.mod_eq_of_lt (by omega)
  have h2 : (pos + w) % 2 ^ 64 = pos + w := Nat.mod_eq_of_lt (by omega)
  rw [fromBinaryStringBigEndian, h1, h2, if_neg (by omega), if_pos h]

theorem fromBinaryStringBigEndian_at {w val : ℕ} {raw : Bytes} {pos : ℕ} (hw : w ≠ 0)
    (hval : val < 256 ^ w) (hraw : raw.length < 2 ^ 64)
    (h : StandsAt raw pos (serializeIntBigEndian w val)) :
    fromBinaryStringBigEndian w raw pos = .ok (val, pos + w) := by
  have hlen : (serializeIntBigEndian w val).length = w := serializeIntBigEndian_length w val
  have hle := h.le_length (List.ne_nil_of_length_pos (by omega))
  have hs := h.slice_eq
  rw [hlen] at hle hs
  rw [fromBinaryStringBigEndian_inside hraw hle, hs, serializeIntBigEndian_eq, beNat_beBytes hval]

theorem deserializeIntBigEndian_at {w val : ℕ} {raw : Bytes} {pos : ℕ} (hw : w ≠ 0)
    (hval : val < 256 ^ w) (hraw : raw.length < 2 ^ 64)
    (h : StandsAt raw pos (serializeIntBigEndian w val)) :
    deserializeIntBigEndian w raw pos = .ok (val, pos + w) := by
  rw [deserializeIntBigEndian, fromBinaryStringBigEndian_at hw hval hraw h]
  simp [check, Exec.check, hw]

/-- The length field at a position. -/
def lengthAt (raw : Bytes) (pos : ℕ) : ℕ := beNat (slice raw pos 8)

theorem lengthAt_lt {raw : Bytes} {pos : ℕ} (h : pos + 8 ≤ raw.length) : lengthAt raw pos < 2 ^ 64 := by
  have := beNat_lt (slice raw pos 8)
  rw [slice_length h] at this
  exact this

/-- A string whose length field lies inside `raw`; its end is taken modulo 2^64. -/
theorem deserializeStringBigEndianEnd_inside {raw : Bytes} {pos : ℕ} (hraw : raw.length < 2 ^ 64)
    (h : pos + 8 ≤ raw.length) :
    deserializeStringBigEndianEnd raw pos =
      .ok (slice raw (pos + 8) (lengthAt raw pos), (pos + 8 + lengthAt raw pos) % 2 ^ 64) := by
  have hsub : substr raw (pos + 8) (beNat (slice raw pos 8)) =
      .ok (slice raw (pos + 8) (lengthAt raw pos)) := by
    rw [substr, Exec.check_pos h]; rfl
  rw [deserializeStringBigEndianEnd, fromBinaryStringBigEndian_inside hraw h]
  simp [-Nat.reducePow, hsub, lengthAt]

/-- A length field that does not lie inside `raw`. -/
theorem deserializeStringBigEndianEnd_outside {raw : Bytes} {pos : ℕ} (hpos : pos < 2 ^ 63)
    (h : raw.length < pos + 8) : deserializeStringBigEndianEnd raw pos = .ok ([], pos) := by
  have hint : fromBinaryStringBigEndian 8 raw pos = .ok (0, pos) := by
    rw [fromBinaryStringBigEndian, if_pos]
    rw [Nat.mod_eq_of_lt (by omega)]; omega
  rw [deserializeStringBigEndianEnd, hint]
  simp

theorem deserializeStringBigEndianEnd_at {raw str : Bytes} {pos : ℕ} (hraw : raw.length < 2 ^ 64)
    (h : StandsAt raw pos (serializeStringBigEndian str)) :
    deserializeStringBigEndianEnd raw pos = .ok (str, pos + (8 + str.length)) := by
  have hlen := h.le_length (List.ne_nil_of_length_pos (by simp))
  rw [serializeStringBigEndian_length] at hlen
  rw [serializeStringBigEndian, standsAt_append, serializeIntBigEndian_length] at h
  have hl : lengthAt raw pos = str.length := by
    have hs := h.1.slice_eq
    rw [serializeIntBigEndian_length] at hs
    rw [lengthAt, hs, serializeIntBigEndian_eq, beNat_beBytes (by omega)]
  have hend : (pos + 8 + str.length) % 2 ^ 64 = pos + (8 + str.length) := by
    rw [Nat.mod_eq_of_lt (by omega)]; omega
  rw [deserializeStringBigEndianEnd_inside hraw (by omega), hl, h.2.slice_eq, hend]

theorem deserializeStringBigEndian_at {raw str : Bytes} {pos : ℕ} (hraw : raw.length < 2 ^ 64)
    (h : StandsAt raw pos (serializeStringBigEndian str)) :
    deserializeStringBigEndian raw pos = .ok (str, pos + (8 + str.length)) := by
  rw [deserializeStringBigEndian, deserializeStringBigEndianEnd_at hraw h]
  simp [check, Exec.check]

end TorrentNode
