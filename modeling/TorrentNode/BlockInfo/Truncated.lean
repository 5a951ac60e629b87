/-
  Truncated records (`utils/serialize.h`).

  A string is stored behind its length.  `raw.substr(from, length)` takes what there
  is, and the end of the string is computed from the stored length, modulo 2^64; the
  callers only compare it with the beginning.  So a string that is cut is noticed by
  the reader of the next field, whose bytes are missing as well, but not if there is
  no next field.

  `truncated_iff`: when a string is decoded strictly, when a truncated header is
  refused, and that a truncated envelope always is.
-/
import TorrentNode.BlockInfo
import TorrentNode.PrivateKey.Envelope

open Wire Exec

namespace TorrentNode

/-! ## One string -/

/-- A string is decoded strictly: the reader throws, or returns as many bytes as the length says,
    and the position behind them. -/
def StrictAt (raw : Bytes) (pos : ℕ) : Prop :=
  (∃ e, deserializeStringBigEndian raw pos = .throw e) ∨
    ∃ str, deserializeStringBigEndian raw pos = .ok (str, pos + 8 + lengthAt raw pos) ∧
      str.length = lengthAt raw pos ∧ pos + 8 + lengthAt raw pos ≤ raw.length

theorem string_throws {raw : Bytes} {pos : ℕ} (hpos : pos < 2 ^ 63) (h : raw.length < pos + 8) :
    deserializeStringBigEndian raw pos = .throw (.common "Incorrect raw") := by
  rw [deserializeStringBigEndian, deserializeStringBigEndianEnd_outside hpos h, ok_bind]
  simp [check, Exec.check]

/-- A string whose length field lies inside: only an end that is the beginning is refused. -/
theorem string_inside {raw : Bytes} {pos : ℕ} (hraw : raw.length < 2 ^ 63)
    (h : pos + 8 ≤ raw.length) : deserializeStringBigEndian raw pos =
      if lengthAt raw pos = 2 ^ 64 - 8 then .throw (.common "Incorrect raw")
      else .ok (slice raw (pos + 8) (lengthAt raw pos), (pos + 8 + lengthAt raw pos) % 2 ^ 64) := by
  have hlen := lengthAt_lt h
  have hiff : (pos + 8 + lengthAt raw pos) % 2 ^ 64 = pos ↔ lengthAt raw pos = 2 ^ 64 - 8 := by omega
  rw [deserializeStringBigEndian, deserializeStringBigEndianEnd_inside (by omega) h, ok_bind]
  dsimp only
  split_ifs with hwrap
  · rw [check, Exec.check_neg (not_not.2 (hiff.2 hwrap))]
    rfl
  · rw [check_of (by rwa [ne_eq, hiff]), ok_bind]
    rfl

/-- **When a string is decoded strictly**: there is no length, or as many bytes as it says, or the end
    that is computed from it is the beginning. -/
theorem strictAt_iff {raw : Bytes} {pos : ℕ} (hraw : raw.length < 2 ^ 63) (hpos : pos ≤ raw.length) :
    StrictAt raw pos ↔ raw.length < pos + 8 ∨ pos + 8 + lengthAt raw pos ≤ raw.length ∨
      lengthAt raw pos = 2 ^ 64 - 8 := by
  by_cases hshort : raw.length < pos + 8
  · exact iff_of_true (Or.inl ⟨_, string_throws (by omega) hshort⟩) (Or.inl hshort)
  · have hlen := lengthAt_lt (not_lt.1 hshort)
    rw [StrictAt, string_inside hraw (not_lt.1 hshort)]
    split_ifs with hwrap
    · exact iff_of_true (Or.inl ⟨_, rfl⟩) (Or.inr (Or.inr hwrap))
    · simp only [hshort, hwrap, false_or, or_false, exists_false, Exec.ok.injEq,
        Prod.mk.injEq]
      constructor
      · rintro ⟨str, -, -, hle⟩
        exact hle
      · intro hle
        exact ⟨_, ⟨rfl, Nat.mod_eq_of_lt (by omega)⟩, slice_length hle, hle⟩

/-! ## Fields one after another -/

/-- The fields of a record. -/
inductive RecordField where
  | string (str : Bytes)
  | int (val : UInt64)
  | filePos (p : FilePosition)

inductive FieldKind where
  | string
  | int
  | filePos

namespace RecordField

def kind : RecordField → FieldKind
  | .string _ => .string
  | .int _ => .int
  | .filePos _ => .filePos

def bytes : RecordField → Bytes
  | .string str => serializeStringBigEndian str
  | .int val => serializeIntBigEndian 8 val.toNat
  | .filePos p => p.serialize

end RecordField

/-- The position behind a field. -/
def FieldKind.skip (raw : Bytes) (pos : ℕ) : FieldKind → Exec Exn ℕ
  | .string => do
    let (_, pos) ← deserializeStringBigEndian raw pos
    return pos
  | .int => do
    let (_, pos) ← deserializeIntBigEndian 8 raw pos
    return pos
  | .filePos => do
    let (_, pos) ← FilePosition.deserialize raw pos
    return pos

/-- The position behind some fields. -/
def skipFields (raw : Bytes) : List FieldKind → ℕ → Exec Exn ℕ
  | [], pos => .ok pos
  | kind :: kinds, pos => kind.skip raw pos >>= skipFields raw kinds

theorem int_throws {raw : Bytes} {pos : ℕ} (hpos : pos < 2 ^ 63) (h : raw.length < pos + 8) :
    fromBinaryStringBigEndian 8 raw pos = .ok (0, pos) := by
  rw [fromBinaryStringBigEndian, if_pos]
  rw [Nat.mod_eq_of_lt (by omega)]
  omega

/-- There must be eight bytes of each field. -/
theorem FieldKind.skip_throws {raw : Bytes} {pos : ℕ} (hpos : pos < 2 ^ 63)
    (h : raw.length < pos + 8) (kind : FieldKind) : ∃ e, kind.skip raw pos = .throw e := by
  cases kind with
  | string => exact ⟨_, by rw [skip, string_throws hpos h]; rfl⟩
  | int =>
    refine ⟨.common "Incorrect raw", ?_⟩
    rw [skip, deserializeIntBigEndian, int_throws hpos h, ok_bind]
    simp [check, Exec.check]
  | filePos =>
    refine ⟨.common "Incorrect raw ", ?_⟩
    rw [skip, FilePosition.deserialize, FilePosition.deserializeEnd,
      deserializeStringBigEndianEnd_outside hpos h]
    simp [check, Exec.check]

/-- A field that is there is read to its end. -/
theorem RecordField.skip_fits {raw : Bytes} {pos : ℕ} (hraw : raw.length < 2 ^ 63) {field : RecordField}
    (h : StandsAt raw pos field.bytes) :
    field.kind.skip raw pos = .ok (pos + field.bytes.length) := by
  cases field with
  | string str =>
    rw [kind, FieldKind.skip, deserializeStringBigEndian_at (by omega) h, ok_bind, bytes,
      serializeStringBigEndian_length]
    rfl
  | int val =>
    rw [kind, FieldKind.skip, deserializeIntBigEndian_at (by decide) val.toNat_lt (by omega) h, ok_bind,
      bytes, serializeIntBigEndian_length]
    rfl
  | filePos p =>
    rw [kind, FieldKind.skip, FilePosition.deserialize_at (by omega) h, ok_bind]
    rfl

/-! ## Cuts -/

section
variable {full : Bytes} {k pos : ℕ}

/-- What stands in front of the cut. -/
theorem standsAt_take {xs : Bytes} (h : StandsAt full pos xs) (hk : pos + xs.length ≤ k) :
    StandsAt (full.take k) pos xs := by
  rw [StandsAt, List.drop_take]
  exact List.prefix_take_iff.2 ⟨h, by omega⟩

theorem take_length {xs : Bytes} (h : StandsAt full pos xs) (hk : k < pos + xs.length) (hpos : pos ≤ k) :
    (full.take k).length = k := by
  have hle := h.le_length (List.ne_nil_of_length_pos (by omega))
  rw [List.length_take]
  omega

/-- The length of a string that is cut behind its length. -/
theorem lengthAt_take {str : Bytes} (hfull : full.length < 2 ^ 63)
    (h : StandsAt full pos (serializeStringBigEndian str)) (hk : pos + 8 ≤ k) :
    lengthAt (full.take k) pos = str.length := by
  have hlen := h.le_length (List.ne_nil_of_length_pos (by simp))
  rw [serializeStringBigEndian_length] at hlen
  rw [serializeStringBigEndian, standsAt_append] at h
  have hstands : StandsAt (full.take k) pos (serializeIntBigEndian 8 str.length) :=
    standsAt_take h.1 (by rwa [serializeIntBigEndian_length])
  have hs := hstands.slice_eq
  rw [serializeIntBigEndian_length] at hs
  rw [lengthAt, hs, serializeIntBigEndian_eq, beNat_beBytes (by omega)]

/-- A string that is cut is shortened, and ends where it did. -/
theorem stringEnd_cut {str : Bytes} (hfull : full.length < 2 ^ 63)
    (h : StandsAt full pos (serializeStringBigEndian str)) (hpos : pos + 8 ≤ k)
    (hk : k < pos + (8 + str.length)) :
    deserializeStringBigEndianEnd (full.take k) pos =
      .ok (str.take (k - (pos + 8)), pos + (8 + str.length)) := by
  have hlength := take_length (k := k) h (by rwa [serializeStringBigEndian_length]) (by omega)
  have hend := h.le_length (List.ne_nil_of_length_pos (by simp))
  rw [serializeStringBigEndian_length] at hend
  rw [deserializeStringBigEndianEnd_inside (by omega) (by omega), lengthAt_take hfull h hpos]
  rw [serializeStringBigEndian, standsAt_append, serializeIntBigEndian_length] at h
  have hslice : slice (full.take k) (pos + 8) str.length = str.take (k - (pos + 8)) := by
    have hs := h.2.slice_eq
    rw [slice, List.drop_take, List.take_take, Nat.min_comm, ← List.take_take]
    exact congrArg (List.take (k - (pos + 8))) hs
  rw [hslice, Nat.mod_eq_of_lt (by omega), Nat.add_assoc]

theorem string_cut {str : Bytes} (hfull : full.length < 2 ^ 63)
    (h : StandsAt full pos (serializeStringBigEndian str)) (hpos : pos + 8 ≤ k)
    (hk : k < pos + (8 + str.length)) :
    deserializeStringBigEndian (full.take k) pos =
      .ok (str.take (k - (pos + 8)), pos + (8 + str.length)) := by
  rw [deserializeStringBigEndian, stringEnd_cut hfull h hpos hk, ok_bind]
  dsimp only
  rw [check_of (by omega), ok_bind]
  rfl

/-- A field that is cut is refused, or ends behind the cut. -/
theorem RecordField.skip_cut {field : RecordField} (hfull : full.length < 2 ^ 63)
    (h : StandsAt full pos field.bytes) (hpos : pos ≤ k) (hk : k < pos + field.bytes.length) :
    (∃ e, field.kind.skip (full.take k) pos = .throw e) ∨
      field.kind.skip (full.take k) pos = .ok (pos + field.bytes.length) := by
  have hlength := take_length h hk hpos
  have hend := h.le_length (List.ne_nil_of_length_pos (by omega))
  by_cases hshort : k < pos + 8
  · exact Or.inl (FieldKind.skip_throws (by omega) (by omega) _)
  · cases field with
    | string str =>
      rw [bytes, serializeStringBigEndian_length] at hk
      right
      rw [kind, FieldKind.skip, string_cut hfull h (not_lt.1 hshort) hk, ok_bind, bytes,
        serializeStringBigEndian_length]
      rfl
    | int val =>
      rw [bytes, serializeIntBigEndian_length] at hk
      exact absurd hk hshort
    | filePos p =>
      -- the position behind the name is missing
      left
      refine ⟨.common "Incorrect raw ", ?_⟩
      have hname : StandsAt full pos (serializeStringBigEndian p.fileName) :=
        (standsAt_append.1 h).1
      have hsize : (bytes (.filePos p)).length = 8 + p.fileName.length + 8 := by
        simp [bytes, FilePosition.serialize]
      rw [hsize] at hk hend
      have hstring : ∃ str, deserializeStringBigEndianEnd (full.take k) pos =
          .ok (str, pos + (8 + p.fileName.length)) := by
        by_cases hcut : k < pos + (8 + p.fileName.length)
        · exact ⟨_, stringEnd_cut hfull hname (not_lt.1 hshort) hcut⟩
        · refine ⟨_, deserializeStringBigEndianEnd_at (by omega) (standsAt_take hname ?_)⟩
          rw [serializeStringBigEndian_length]
          omega
      obtain ⟨str, hstring⟩ := hstring
      rw [kind, FieldKind.skip, FilePosition.deserialize, FilePosition.deserializeEnd, hstring, ok_bind]
      dsimp only
      rw [check_of (by omega), ok_bind, int_throws (by omega) (by omega), ok_bind]
      simp [check, Exec.check]

/-- **Fields that are cut**: the cut is noticed unless it is in the last string, behind its length. -/
theorem skipFields_cut {fields : List RecordField} {str : Bytes} (hfull : full.length < 2 ^ 63)
    (h : StandsAt full pos (fields.flatMap RecordField.bytes ++ serializeStringBigEndian str))
    (hpos : pos ≤ k)
    (hk : k < pos + (fields.flatMap RecordField.bytes).length + (8 + str.length)) :
    (∃ e, skipFields (full.take k) (fields.map RecordField.kind ++ [.string]) pos = .throw e) ↔
      k < pos + (fields.flatMap RecordField.bytes).length + 8 := by
  induction fields generalizing pos with
  | nil =>
    rw [List.flatMap_nil, List.nil_append] at h
    rw [List.flatMap_nil, List.length_nil, Nat.add_zero] at hk ⊢
    have hlength := take_length h (by rwa [serializeStringBigEndian_length]) hpos
    have hend := h.le_length (List.ne_nil_of_length_pos (by simp))
    rw [serializeStringBigEndian_length] at hend
    show (∃ e, (FieldKind.string.skip (full.take k) pos >>= pure) = .throw e) ↔ _
    rw [bind_pure]
    by_cases hshort : k < pos + 8
    · exact iff_of_true (FieldKind.skip_throws (by omega) (by omega) _) hshort
    · rw [FieldKind.skip, string_cut hfull h (not_lt.1 hshort) hk]
      exact iff_of_false (by rintro ⟨e, he⟩; cases he) hshort
  | cons field fields ih =>
    rw [List.flatMap_cons, List.append_assoc] at h
    obtain ⟨hfield, hrest⟩ := standsAt_append.1 h
    rw [List.flatMap_cons, List.length_append] at hk ⊢
    rw [List.map_cons, List.cons_append, skipFields]
    by_cases hfits : pos + field.bytes.length ≤ k
    · rw [RecordField.skip_fits (by rw [List.length_take]; omega) (standsAt_take hfield hfits), ok_bind,
        ih hrest hfits (by omega), Nat.add_assoc pos]
    · -- the field is cut, and the next one is missing
      refine iff_of_true ?_ (by omega)
      have hlength := take_length hfield (not_le.1 hfits) hpos
      have hend := hfield.le_length (List.ne_nil_of_length_pos (by omega))
      rcases RecordField.skip_cut hfull hfield hpos (not_le.1 hfits) with ⟨e, he⟩ | hok
      · exact ⟨e, by rw [he]; rfl⟩
      · rw [hok, ok_bind]
        have hnext : ∀ kind kinds, ∃ e, skipFields (full.take k) (kind :: kinds)
            (pos + field.bytes.length) = .throw e := by
          intro kind kinds
          obtain ⟨e, he⟩ : ∃ e, kind.skip (full.take k) (pos + field.bytes.length) = .throw e :=
            FieldKind.skip_throws (by omega) (by omega) kind
          exact ⟨e, by rw [skipFields, he]; rfl⟩
        cases fields with
        | nil => exact hnext _ _
        | cons field' fields => exact hnext _ _

end

/-! ## Headers -/

theorem void_eq_throw {α : Type} {x : Exec Exn α} {e : Exn} :
    (x >>= fun _ => pure ()) = .throw e ↔ x = .throw e := by
  cases x <;> simp

namespace BlockHeader

/-- The fields of a header record without the last one. -/
def fields (h : BlockHeader) (countTxs : UInt64) : List RecordField :=
  [.filePos h.filePos, .string h.prevHash, .string h.hash, .string h.txsHash, .string h.signature,
    .int h.blockSize, .int h.blockType, .int h.timestamp, .int countTxs, .string h.senderSign,
    .string h.senderPubkey]

theorem record_eq (h : BlockHeader) (countTxs : UInt64) : h.record countTxs =
    (h.fields countTxs).flatMap RecordField.bytes ++ serializeStringBigEndian h.senderAddress := by
  simp [record, fields, RecordField.bytes]

/-- A header is refused if one of its fields is. -/
theorem deserialize_throws_iff (h : BlockHeader) (countTxs : UInt64) (raw : Bytes) :
    (∃ e, deserialize raw = .throw e) ↔
      ∃ e, skipFields raw ((h.fields countTxs).map RecordField.kind ++ [.string]) 0 = .throw e := by
  have heq : (deserialize raw >>= fun _ => pure ()) =
      skipFields raw ((h.fields countTxs).map RecordField.kind ++ [.string]) 0 >>= fun _ => pure () := by
    simp only [deserialize, fields, List.map_cons, List.map_nil, List.cons_append, List.nil_append,
      RecordField.kind, skipFields, FieldKind.skip, bind_assoc, pure_bind]
    rfl
  simp only [← void_eq_throw (x := deserialize raw), heq, void_eq_throw]

/-- **When a truncated header is refused**: some of what is missing is in front of the bytes of the
    last field. -/
theorem truncated_throws_iff {h : BlockHeader} {raw : Bytes} (hs : h.serialize = .ok raw) {k : ℕ}
    (hk : k < raw.length) :
    (∃ e, deserialize (raw.take k) = .throw e) ↔ k + h.senderAddress.length < raw.length := by
  obtain ⟨-, -, n, -, rfl, hmax⟩ := serialize_eq_ok hs
  rw [maxSize] at hmax
  have hlength : (h.record n).length =
      ((h.fields n).flatMap RecordField.bytes).length + (8 + h.senderAddress.length) := by
    rw [record_eq, List.length_append, serializeStringBigEndian_length]
  have hstands : StandsAt (h.record n) 0
      ((h.fields n).flatMap RecordField.bytes ++ serializeStringBigEndian h.senderAddress) := by
    rw [← record_eq]
    exact standsAt_self _
  rw [deserialize_throws_iff h n, skipFields_cut (by omega) hstands (Nat.zero_le k) (by omega), hlength]
  omega

end BlockHeader

/-! ## Envelopes -/

/-- The four strings of an envelope. -/
def readEnvelope (raw : Bytes) : Exec Exn BlockSignatureCheckResult := do
  let (block, pos) ← deserializeStringBigEndian raw 0
  let (sign, pos) ← deserializeStringBigEndian raw pos
  let (pubkey, pos) ← deserializeStringBigEndian raw pos
  let (address, _) ← deserializeStringBigEndian raw pos
  return ⟨block, sign, pubkey, address⟩

theorem checkSignatureBlock_eq (C : Crypto) (raw : Bytes) :
    checkSignatureBlock C raw = readEnvelope raw >>= checkSignature C := by
  simp only [checkSignatureBlock, readEnvelope, bind_assoc, pure_bind]
  rfl

theorem readEnvelope_throws_iff (raw : Bytes) : (∃ e, readEnvelope raw = .throw e) ↔
    ∃ e, skipFields raw [.string, .string, .string, .string] 0 = .throw e := by
  have heq : (readEnvelope raw >>= fun _ => pure ()) =
      skipFields raw [.string, .string, .string, .string] 0 >>= fun _ => pure () := by
    simp only [readEnvelope, skipFields, FieldKind.skip, bind_assoc, pure_bind]
    rfl
  simp only [← void_eq_throw (x := readEnvelope raw), heq, void_eq_throw]

/-- The checks return or throw. -/
theorem checkSignature_outcome (C : Crypto) (r : BlockSignatureCheckResult) :
    (∃ e, checkSignature C r = .throw e) ∨ checkSignature C r = .ok r := by
  have hcheck : ∀ (c : Prop) [Decidable c] (message : String),
      (∃ e, (check c message >>= fun _ => pure r) = .throw e) ∨
        (check c message >>= fun _ => pure r) = .ok r := by
    intro c _ message
    by_cases hc : c
    · exact Or.inr (by rw [check_of hc]; rfl)
    · exact Or.inl ⟨_, by rw [check, Exec.check_neg hc]; rfl⟩
  rw [checkSignature]
  by_cases hsign : cryptoCheckSignData C r.sign r.pubkey r.block = true
  · rw [check_of hsign, ok_bind, makeAddressFromSecpKey]
    cases C.ecPubkeyParse r.pubkey with
    | none => exact hcheck _ _
    | some key =>
      dsimp only
      split_ifs
      · exact Or.inr rfl
      · exact hcheck _ _
  · exact Or.inl ⟨_, by rw [check, Exec.check_neg hsign]; rfl⟩

/-- **A truncated envelope is refused**: its address is not the one of the key any more. -/
theorem truncated_envelope_throws {C : Crypto} (hC : C.Lawful) {block sign pubkey address : Bytes}
    (hmax : (serializeStringBigEndian block ++ signPart sign pubkey address).length ≤ maxSize)
    {r : BlockSignatureCheckResult} (hok : checkSignatureBlock C
      (serializeStringBigEndian block ++ signPart sign pubkey address) = .ok r) {k : ℕ}
    (hk : k < (serializeStringBigEndian block ++ signPart sign pubkey address).length) :
    ∃ e, checkSignatureBlock C
      ((serializeStringBigEndian block ++ signPart sign pubkey address).take k) = .throw e := by
  rw [maxSize] at hmax
  rw [signPart] at hmax hok hk ⊢
  generalize hfull : serializeStringBigEndian block ++ (serializeStringBigEndian sign ++
    (serializeStringBigEndian pubkey ++ serializeStringBigEndian address)) = full at hmax hok hk ⊢
  have hstands : StandsAt full 0 (serializeStringBigEndian block ++ (serializeStringBigEndian sign ++
      (serializeStringBigEndian pubkey ++ serializeStringBigEndian address))) := by
    rw [hfull]
    exact standsAt_self full
  have hlength : full.length = (8 + block.length) + ((8 + sign.length) + ((8 + pubkey.length) +
      (8 + address.length))) := by
    rw [← hfull]
    simp
  have hread := checkSignatureBlock_standsAt (C := C) (by omega) hstands
  rw [checkSignatureBlock_eq]
  by_cases hcut : k + address.length < full.length
  · -- one of the strings is refused
    let strings : List RecordField := [.string block, .string sign, .string pubkey]
    have hstrings : StandsAt full 0
        (strings.flatMap RecordField.bytes ++ serializeStringBigEndian address) := by
      simpa [strings, RecordField.bytes, List.append_assoc] using hstands
    have hcuts := skipFields_cut (k := k) (by omega) hstrings (Nat.zero_le k)
      (by simp [strings, RecordField.bytes]; omega)
    obtain ⟨e, he⟩ := (readEnvelope_throws_iff (full.take k)).2
      (hcuts.2 (by simp [strings, RecordField.bytes]; omega))
    exact ⟨e, by rw [he]; rfl⟩
  · simp only [standsAt_append, serializeStringBigEndian_length] at hstands
    obtain ⟨hblock, hsign, hpubkey, haddress⟩ := hstands
    have hlt : (full.take k).length < 2 ^ 64 := by
      rw [List.length_take]
      omega
    have henvelope : readEnvelope (full.take k) = .ok ⟨block, sign, pubkey, address.take
        (k - (0 + (8 + block.length) + (8 + sign.length) + (8 + pubkey.length) + 8))⟩ := by
      rw [readEnvelope, deserializeStringBigEndian_at hlt
        (standsAt_take hblock (by rw [serializeStringBigEndian_length]; omega)), ok_bind]
      dsimp only
      rw [deserializeStringBigEndian_at hlt
        (standsAt_take hsign (by rw [serializeStringBigEndian_length]; omega)), ok_bind]
      dsimp only
      rw [deserializeStringBigEndian_at hlt
        (standsAt_take hpubkey (by rw [serializeStringBigEndian_length]; omega)), ok_bind]
      dsimp only
      rw [string_cut (by omega) haddress (by omega) (by omega), ok_bind]
      rfl
    rw [henvelope, ok_bind]
    rcases checkSignature_outcome C ⟨block, sign, pubkey, address.take
        (k - (0 + (8 + block.length) + (8 + sign.length) + (8 + pubkey.length) + 8))⟩ with hthrow | haccept
    · exact hthrow
    · -- both addresses would be the address of the key
      have haddr := getAddress_of_accepted hC hok
      rw [checkSignature_eq_ok (hread.symm.trans hok)] at haddr
      have haddr' := getAddress_of_accepted hC
        (show checkSignatureBlock C (full.take k) = .ok _ by
          rw [checkSignatureBlock_eq, henvelope, ok_bind, haccept])
      have hlen := congrArg List.length (haddr.symm.trans haddr')
      rw [List.length_take] at hlen
      dsimp only at hlen
      omega

/-- **When a cut is noticed**: by the reader of a string, in a header, and in an envelope. -/
theorem truncated_iff (C : Crypto) :
    (∀ (raw : StdString) (pos : ℕ), pos ≤ raw.1.length → (StrictAt raw.1 pos ↔
      raw.1.length < pos + 8 ∨ pos + 8 + lengthAt raw.1 pos ≤ raw.1.length ∨
        lengthAt raw.1 pos = 2 ^ 64 - 8)) ∧
    (∀ (h : BlockHeader) (raw : Bytes), h.serialize = .ok raw → ∀ k < raw.length,
      ((∃ e, BlockHeader.deserialize (raw.take k) = .throw e) ↔
        k + h.senderAddress.length < raw.length)) ∧
    (C.Lawful → ∀ block sign pubkey address : Bytes,
      (serializeStringBigEndian block ++ signPart sign pubkey address).length ≤ maxSize →
      ∀ r, checkSignatureBlock C (serializeStringBigEndian block ++ signPart sign pubkey address) =
          .ok r →
        ∀ k < (serializeStringBigEndian block ++ signPart sign pubkey address).length,
          ∃ e, checkSignatureBlock C
            ((serializeStringBigEndian block ++ signPart sign pubkey address).take k) = .throw e) := by
  refine ⟨fun raw pos hpos => strictAt_iff raw.length_lt hpos, ?_, ?_⟩
  · intro h raw hs k hk
    exact BlockHeader.truncated_throws_iff hs hk
  · intro hC block sign pubkey address hmax r hok k hk
    exact truncated_envelope_throws hC hmax hok hk

/-- A header with a sender. -/
def sentHeader : BlockHeader where
  hash := lit "01"
  prevHash := lit "00"
  countTxs := some 0
  senderAddress := lit "0x00"

/-- A string of five bytes of which two are there. -/
def shortString : Bytes := serializeIntBigEndian 8 5 ++ lit "ab"

/-- The header is refused if more than the address is missing. -/
theorem truncated_sentHeader : ∃ raw, sentHeader.serialize = .ok raw ∧
    ∃ e, BlockHeader.deserialize (raw.take (raw.length - 5)) = .throw e := by
  have hs : sentHeader.serialize = .ok (sentHeader.record 0) := by decide +kernel
  refine ⟨_, hs, ((truncated_iff Sample.crypto).2.1 _ _ hs _ ?_).2 ?_⟩
  · decide +kernel
  · decide +kernel

/-- A string that is cut is accepted, and so is a header without its last byte. -/
theorem truncated_accepted :
    (¬ ∀ (raw : StdString) (pos : ℕ), pos ≤ raw.1.length → StrictAt raw.1 pos) ∧
      ∃ raw, sentHeader.serialize = .ok raw ∧ BlockHeader.deserialize (raw.take (raw.length - 1)) =
        .ok { sentHeader with senderAddress := lit "0x0" } := by
  refine ⟨?_, sentHeader.record 0, by decide +kernel, by decide +kernel⟩
  intro h
  have hstrict := h ⟨shortString, by decide +kernel⟩ 0 (Nat.zero_le _)
  rcases hstrict with ⟨e, he⟩ | ⟨str, -, -, hle⟩
  · have hok : deserializeStringBigEndian shortString 0 = .ok (lit "ab", 13) := by decide +kernel
    rw [hok] at he
    cases he
  · exact absurd hle (by decide +kernel)

end TorrentNode
