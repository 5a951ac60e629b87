/-
  Statuses of transactions and the entries of the address index (`BlockInfo.cpp`).

  The status of a transaction is a variant, written as its index followed by the
  alternative.  A signed value is written as the unsigned one of its width.  The
  value of an undelegation in an index entry is recognised by the bytes that are
  left.

  `TransactionStatus.deserialize_serialize`, `AddressInfo.deserialize_serialize`:
  both decode to what was stored.
-/
import TorrentNode.BlockInfo

open Wire Exec

namespace TorrentNode

/-! ## Statuses -/

/-- `std::variant<std::monostate, Delegate, UnDelegate, V8Status>`. -/
inductive Status where
  | monostate
  | delegate
  | undelegate (value : Int64) (delegateHash : Bytes)
  | v8Status (isServerError isScriptError : Bool) (compiledContractAddress : Address)
deriving DecidableEq

/-- `status.index()`. -/
def Status.index : Status → ℕ
  | monostate => 0
  | delegate => 1
  | undelegate .. => 2
  | v8Status .. => 3

structure TransactionStatus where
  isSuccess : Bool
  transaction : Bytes
  blockNumber : UInt64
  status : Status
deriving DecidableEq

/-- `INITIAL_WALLET_TRANSACTION`. -/
def Address.initialWalletTransaction : Bytes := lit "InitialWalletTransaction"

/-- `getBinaryString()`. -/
def Address.getBinaryString (a : Address) : Exec Exn Bytes := do
  check a.isSet "Address not set"
  if a.address = [] then pure initialWalletTransaction else pure a.address

/-- `isEmpty()`. -/
def Address.isEmpty (a : Address) : Exec Exn Bool := do
  check a.isSet "Address not set"
  pure (decide (a.address = []))

/-- The string that `V8Status::serialize` writes for an address. -/
def Address.statusString (a : Address) : Exec Exn Bytes := do
  let isEmpty ← a.isEmpty
  if !isEmpty then a.getBinaryString else pure []

/-- A `bool` in a byte. -/
def serializeBool (b : Bool) : Bytes := serializeIntBigEndian 1 b.toNat

/-- The visitor of `TransactionStatus::serialize`. -/
def Status.serialize : Status → Exec Exn Bytes
  | monostate => pure []
  | delegate => pure []
  | undelegate value delegateHash =>
    pure (serializeIntBigEndian 8 value.toUInt64.toNat ++ serializeStringBigEndian delegateHash)
  | v8Status isServerError isScriptError compiledContractAddress => do
    let address ← compiledContractAddress.statusString
    pure (serializeBool isServerError ++ (serializeBool isScriptError ++
      serializeStringBigEndian address))

/-- `TransactionStatus::serialize(buffer)`. -/
def TransactionStatus.serialize (s : TransactionStatus) : Exec Exn Bytes := do
  check (s.status.index ≠ 0) "Status not set"
  let status ← s.status.serialize
  pure (serializeBool s.isSuccess ++ (serializeIntBigEndian 8 s.blockNumber.toNat ++
    (serializeStringBigEndian s.transaction ++ (serializeIntBigEndian 8 s.status.index ++ status))))

/-- `parseVarint`: the alternative with the index `number`, if there is one. -/
def Status.deserialize (raw : Bytes) (pos number : ℕ) : Exec Exn Status :=
  match number with
  | 1 => pure .delegate
  | 2 => do
    let (value, pos) ← deserializeIntBigEndian 8 raw pos
    let (delegateHash, _) ← deserializeStringBigEndian raw pos
    pure (.undelegate (UInt64.ofNat value).toInt64 delegateHash)
  | 3 => do
    let (isServerError, pos) ← deserializeIntBigEndian 1 raw pos
    let (isScriptError, pos) ← deserializeIntBigEndian 1 raw pos
    let (addressString, _) ← deserializeStringBigEndian raw pos
    let address := if addressString ≠ [] then Address.ofRange addressString
      else Address.setEmpty {}
    pure (.v8Status (decide (isServerError ≠ 0)) (decide (isScriptError ≠ 0)) address)
  | _ => pure .monostate

/-- `TransactionStatus::deserialize(raw)`. -/
def TransactionStatus.deserialize (raw : Bytes) : Exec Exn TransactionStatus := do
  let (isSuccess, pos) ← deserializeIntBigEndian 1 raw 0
  let (blockNumber, pos) ← deserializeIntBigEndian 8 raw pos
  let (transaction, pos) ← deserializeStringBigEndian raw pos
  let (number, pos) ← deserializeIntBigEndian 8 raw pos
  check (number ≠ 0 ∧ number < 4) "Incorrect type in transaction status"
  let status ← Status.deserialize raw pos number
  pure ⟨decide (isSuccess ≠ 0), transaction, UInt64.ofNat blockNumber, status⟩

/-! ## Round trips of statuses -/

/-- What is stored of an address: its bytes.  An empty one is read as the initial wallet. -/
def Address.persisted (a : Address) : Address :=
  { address := a.address, isInitialW := decide (a.address = []), isSet := true }

/-- What is stored of a status. -/
def Status.persisted : Status → Status
  | v8Status isServerError isScriptError address =>
    v8Status isServerError isScriptError address.persisted
  | s => s

/-- What is stored of the status of a transaction. -/
def TransactionStatus.persisted (s : TransactionStatus) : TransactionStatus :=
  { s with status := s.status.persisted }

/-- The stored address compares equal to the address. -/
theorem Address.eq_persisted {a : Address} (h : a.isSet = true) : a.eq a.persisted = .ok true := by
  simp [Address.eq, Address.persisted, check_of, h]

/-- A status stores the bytes of an address. -/
theorem Address.statusString_eq {a : Address} {bs : Bytes} (h : a.statusString = .ok bs) :
    bs = a.address := by
  obtain ⟨isEmpty, hempty, h⟩ := bind_eq_ok.1 h
  obtain ⟨_, hset, hempty⟩ := bind_eq_ok.1 hempty
  cases hempty
  by_cases haddress : a.address = []
  · simp only [haddress, decide_true, Bool.not_true] at h
    cases h
    exact haddress.symm
  · simp only [haddress, decide_false, Bool.not_false, if_true, getBinaryString, if_false,
      check_of (check_eq_ok hset), ok_bind] at h
    cases h
    rfl

theorem deserializeBool_at {raw : Bytes} {pos : ℕ} {b : Bool} (hraw : raw.length < 2 ^ 64)
    (h : StandsAt raw pos (serializeBool b)) :
    deserializeIntBigEndian 1 raw pos = .ok (b.toNat, pos + 1) :=
  deserializeIntBigEndian_at (by norm_num) (by cases b <;> decide) hraw h

theorem decide_toNat_ne_zero (b : Bool) : decide (b.toNat ≠ 0) = b := by
  cases b <;> rfl

theorem ofRange_or_setEmpty (address : Bytes) :
    (if address ≠ [] then Address.ofRange address else Address.setEmpty {}) =
      { address := address, isInitialW := decide (address = []), isSet := true } := by
  by_cases h : address = []
  · simp [h, Address.setEmpty]
  · simp [h, Address.ofRange]

/-- The alternative behind its index. -/
theorem Status.deserialize_at {raw record : Bytes} {pos : ℕ} {s : Status}
    (hraw : raw.length < 2 ^ 64) (hs : s.serialize = .ok record) (h : StandsAt raw pos record) :
    Status.deserialize raw pos s.index = .ok s.persisted := by
  cases s with
  | monostate => rfl
  | delegate => rfl
  | undelegate value delegateHash =>
    cases hs
    rw [standsAt_append, serializeIntBigEndian_length] at h
    have hvalue := deserializeIntBigEndian_at (by norm_num) value.toUInt64.toNat_lt hraw h.1
    simp only [index, Status.deserialize, hvalue, deserializeStringBigEndian_at hraw h.2, ok_bind,
      UInt64.ofNat_toNat, Int64.toInt64_toUInt64]
    rfl
  | v8Status isServerError isScriptError address =>
    obtain ⟨bs, hbs, hs⟩ := bind_eq_ok.1 hs
    cases hs
    obtain rfl := Address.statusString_eq hbs
    simp only [standsAt_append, serializeBool, serializeIntBigEndian_length] at h
    simp only [index, Status.deserialize, deserializeBool_at hraw h.1,
      deserializeBool_at hraw h.2.1, deserializeStringBigEndian_at hraw h.2.2, ok_bind,
      decide_toNat_ne_zero, ofRange_or_setEmpty]
    rfl

/-- **The status of a transaction decodes to itself.** -/
theorem TransactionStatus.deserialize_serialize {s : TransactionStatus} {raw : StdString}
    (hs : s.serialize = .ok raw.1) : TransactionStatus.deserialize raw.1 = .ok s.persisted := by
  have hraw : raw.1.length < 2 ^ 64 := by have := raw.length_lt; omega
  obtain ⟨_, hindex, hs⟩ := bind_eq_ok.1 hs
  obtain ⟨record, hrecord, hs⟩ := bind_eq_ok.1 hs
  have hindex := check_eq_ok hindex
  have hat := standsAt_self raw.1
  nth_rewrite 2 [← ok.inj hs] at hat
  simp only [standsAt_append, serializeBool, serializeIntBigEndian_length,
    serializeStringBigEndian_length, Nat.zero_add] at hat
  obtain ⟨hsuccess, hnumber, htransaction, hindexAt, hstatus⟩ := hat
  have hlt : s.status.index < 4 := by cases s.status <;> simp [Status.index]
  have inumber := deserializeIntBigEndian_at (by norm_num) s.blockNumber.toNat_lt hraw hnumber
  have iindex := deserializeIntBigEndian_at (by norm_num) (by omega) hraw hindexAt
  simp only [TransactionStatus.deserialize, deserializeBool_at hraw hsuccess, inumber, iindex,
    deserializeStringBigEndian_at hraw htransaction, ok_bind, Nat.zero_add,
    check_of (show s.status.index ≠ 0 ∧ s.status.index < 4 from ⟨hindex, hlt⟩),
    Status.deserialize_at hraw hrecord hstatus, decide_toNat_ne_zero, UInt64.ofNat_toNat]
  rfl

/-! ## Entries of the address index -/

structure AddressInfo where
  filePos : FilePosition := {}
  blockNumber : UInt64 := 0
  undelegateValue : Option Int64 := none
deriving DecidableEq

/-- `AddressInfo::serialize(buffer)`. -/
def AddressInfo.serialize (info : AddressInfo) : Bytes :=
  info.filePos.serialize ++ (serializeIntBigEndian 8 info.blockNumber.toNat ++
    match info.undelegateValue with
    | some value => serializeIntBigEndian 8 value.toUInt64.toNat
    | none => [])

/-- The value of the undelegation, if bytes are left. -/
def AddressInfo.deserializeUndelegate (raw : Bytes) (pos : ℕ) : Exec Exn (Option Int64) :=
  if pos < raw.length then do
    let (value, _) ← deserializeIntBigEndian 8 raw pos
    pure (some (UInt64.ofNat value).toInt64)
  else pure none

/-- `AddressInfo::deserialize(raw)`. -/
def AddressInfo.deserialize (raw : Bytes) : Exec Exn AddressInfo := do
  let (filePos, pos) ← FilePosition.deserialize raw 0
  let (blockNumber, pos) ← deserializeIntBigEndian 8 raw pos
  let undelegateValue ← deserializeUndelegate raw pos
  pure ⟨filePos, UInt64.ofNat blockNumber, undelegateValue⟩

/-- **An entry of the address index decodes to itself**, with and without the value. -/
theorem AddressInfo.deserialize_serialize {info : AddressInfo} {raw : StdString}
    (hr : raw.1 = info.serialize) : AddressInfo.deserialize raw.1 = .ok info := by
  have hraw : raw.1.length < 2 ^ 64 := by have := raw.length_lt; omega
  have hat := standsAt_self raw.1
  nth_rewrite 2 [hr] at hat
  simp only [AddressInfo.serialize, standsAt_append, serializeIntBigEndian_length] at hat
  obtain ⟨hfile, hnumber, hvalue⟩ := hat
  have inumber := deserializeIntBigEndian_at (by norm_num) info.blockNumber.toNat_lt hraw hnumber
  have hlength := congrArg List.length hr
  simp only [AddressInfo.serialize, List.length_append, serializeIntBigEndian_length] at hlength
  have hundelegate : deserializeUndelegate raw.1 (0 + info.filePos.serialize.length + 8) =
      .ok info.undelegateValue := by
    rw [deserializeUndelegate]
    cases hinfo : info.undelegateValue with
    | none =>
      rw [hinfo, List.length_nil] at hlength
      rw [if_neg (by omega)]
      rfl
    | some value =>
      rw [hinfo] at hvalue hlength
      rw [serializeIntBigEndian_length] at hlength
      have ivalue := deserializeIntBigEndian_at (by norm_num) value.toUInt64.toNat_lt hraw hvalue
      simp only [if_pos (show 0 + info.filePos.serialize.length + 8 < raw.1.length by omega), ivalue,
        ok_bind, UInt64.ofNat_toNat, Int64.toInt64_toUInt64]
      rfl
  simp only [AddressInfo.deserialize, FilePosition.deserialize_at hraw hfile, inumber, hundelegate,
    ok_bind, UInt64.ofNat_toNat]
  rfl

end TorrentNode
