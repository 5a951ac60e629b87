/-
  The data model of the node (`Address.h`, `BlockInfo.h`) and the records it
  persists (`BlockInfo.cpp`).

  A header is stored without its number and without the end of its record in
  the block file; `BlockHeader.persisted` is what is left.
  `BlockHeader.deserialize_serialize` and `BlocksMetadata.deserialize_serialize`:
  records decode to what was stored.
-/
import TorrentNode.Utils.Serialize

open Wire

namespace TorrentNode

/-! ## Addresses -/

/-- `class Address`. -/
structure Address where
  address : Bytes := []
  isInitialW : Bool := false
  isSet : Bool := false
deriving DecidableEq, Repr

namespace Address

/-- `Address(begin, end)`. -/
def ofRange (bs : Bytes) : Address := { address := bs, isSet := true }

/-- `Address(address, isBlockedAddress)`: a blocked address has its first byte replaced. -/
def ofVector (bs : Bytes) (isBlockedAddress : Bool) : Address :=
  { address := if isBlockedAddress then bs.set 0 1 else bs, isSet := true }

/-- `setEmpty()`. -/
def setEmpty (_ : Address) : Address := { address := [], isInitialW := true, isSet := true }

/-- `operator==`. -/
def eq (first second : Address) : Exec Exn Bool := do
  check first.isSet "Address not set"
  check second.isSet "Address not set"
  return first.address == second.address

/-- `isInitialWallet()`. -/
def isInitialWallet (a : Address) : Exec Exn Bool := do
  check a.isSet "Address not set"
  return a.isInitialW

/-- `isScriptAddress()`: the first byte of `std::string` is `'\0'` for the empty address. -/
def isScriptAddress (a : Address) : Exec Exn Bool := do
  check a.isSet "Address not set"
  return a.address.headD 0 == 8

end Address

/-! ## Blocks and transactions -/

structure FilePosition where
  pos : UInt64 := 0
  fileName : Bytes := []
deriving DecidableEq, Repr

/-- `TransactionInfo::DelegateInfo`; the value of an undelegation is never written. -/
structure DelegateInfo where
  value : Option Int64
  isDelegate : Bool
deriving DecidableEq

/-- `TransactionInfo::ScriptInfo`. -/
structure ScriptInfo where
  txRaw : Bytes := []
  isInitializeScript : Bool
deriving DecidableEq, Repr

structure TransactionInfo where
  hash : Bytes := []
  fromAddress : Address := {}
  toAddress : Address := {}
  value : Int64 := 0
  fees : Int64 := 0
  nonce : UInt64 := 0
  blockNumber : ℕ := 0
  sizeRawTx : ℕ := 0
  isSaveToBd : Bool := true
  isSignBlockTx : Bool := false
  intStatus : Option UInt64 := none
  sign : Bytes := []
  pubKey : Bytes := []
  data : Bytes := []
  allRawTx : Bytes := []
  realFees : Option ℕ := none
  delegate : Option DelegateInfo := none
  scriptInfo : Option ScriptInfo := none
  filePos : FilePosition := {}
  isModuleNotSet : Bool := false
  isInitialized : Bool := false
deriving DecidableEq

/-- `calcRealFee()`. -/
def TransactionInfo.calcRealFee (tx : TransactionInfo) : Exec Exn TransactionInfo := do
  check (0 < tx.sizeRawTx) "Size raw tx not set"
  return { tx with realFees := some (if 255 < tx.sizeRawTx then tx.sizeRawTx - 255 else 0) }

structure BlockHeader where
  timestamp : UInt64 := 0
  blockSize : UInt64 := 0
  blockType : UInt64 := 0
  hash : Bytes := []
  prevHash : Bytes := []
  signature : Bytes := []
  txsHash : Bytes := []
  countTxs : Option UInt64 := none
  filePos : FilePosition := {}
  endBlockPos : UInt64 := 0
  blockNumber : Option ℕ := none
  senderSign : Bytes := []
  senderPubkey : Bytes := []
  senderAddress : Bytes := []
deriving DecidableEq, Repr

structure BlockInfo where
  header : BlockHeader := {}
  txs : List TransactionInfo := []
deriving DecidableEq

/-- A block file and how far it is processed. -/
structure FileInfo where
  filePos : FilePosition := {}
deriving DecidableEq, Repr

structure BlocksMetadata where
  blockHash : Bytes := []
  prevBlockHash : Bytes := []
  blockNumber : UInt64 := 0
deriving DecidableEq, Repr

/-- The last block of the main worker. -/
structure MainBlockInfo where
  blockNumber : UInt64 := 0
  blockHash : Bytes := []
  countVal : UInt64 := 0
deriving DecidableEq, Repr

/-! ## Records -/

/-- `FilePosition::serialize()`. -/
def FilePosition.serialize (p : FilePosition) : Bytes :=
  serializeStringBigEndian p.fileName ++ serializeIntBigEndian 8 p.pos.toNat

/-- `FilePosition::deserialize(raw, from, nextFrom)`: the position and `nextFrom`. -/
def FilePosition.deserializeEnd (raw : Bytes) (fromPos : ℕ) : Exec Exn (FilePosition × ℕ) := do
  let (fileName, next) ← deserializeStringBigEndianEnd raw fromPos
  check (next ≠ fromPos) "Incorrect raw "
  let (pos, endPos) ← fromBinaryStringBigEndian 8 raw next
  check (endPos ≠ next) "Incorrect raw "
  return ({ pos := UInt64.ofNat pos, fileName := fileName }, endPos)

/-- `FilePosition::deserialize(raw, from)`: the position and the new `from`. -/
def FilePosition.deserialize (raw : Bytes) (fromPos : ℕ) : Exec Exn (FilePosition × ℕ) := do
  let (res, endPos) ← FilePosition.deserializeEnd raw fromPos
  check (endPos ≠ fromPos) "Incorrect raw"
  return (res, endPos)

/-- `FileInfo::serialize()`. -/
def FileInfo.serialize (fi : FileInfo) : Bytes := fi.filePos.serialize

/-- `FileInfo::deserialize(raw)`. -/
def FileInfo.deserialize (raw : Bytes) : Exec Exn FileInfo := do
  let (filePos, _) ← FilePosition.deserializeEnd raw 0
  return { filePos := filePos }

/-- The bytes of a header record, in the order of `BlockHeader::serialize()`. -/
def BlockHeader.record (h : BlockHeader) (countTxs : UInt64) : Bytes :=
  h.filePos.serialize ++ (serializeStringBigEndian h.prevHash ++
  (serializeStringBigEndian h.hash ++ (serializeStringBigEndian h.txsHash ++
  (serializeStringBigEndian h.signature ++ (serializeIntBigEndian 8 h.blockSize.toNat ++
  (serializeIntBigEndian 8 h.blockType.toNat ++ (serializeIntBigEndian 8 h.timestamp.toNat ++
  (serializeIntBigEndian 8 countTxs.toNat ++ (serializeStringBigEndian h.senderSign ++
  (serializeStringBigEndian h.senderPubkey ++ serializeStringBigEndian h.senderAddress))))))))))

/-- `BlockHeader::serialize()`. -/
def BlockHeader.serialize (h : BlockHeader) : Exec Exn Bytes := do
  check (h.hash ≠ []) "empty hash"
  check (h.prevHash ≠ []) "empty prevHash"
  check h.countTxs.isSome "Count txs not set"
  stdString (h.record (h.countTxs.getD 0))

/-- `BlockHeader::deserialize(raw)`. -/
def BlockHeader.deserialize (raw : Bytes) : Exec Exn BlockHeader := do
  let (filePos, pos) ← FilePosition.deserialize raw 0
  let (prevHash, pos) ← deserializeStringBigEndian raw pos
  let (hash, pos) ← deserializeStringBigEndian raw pos
  let (txsHash, pos) ← deserializeStringBigEndian raw pos
  let (sign, pos) ← deserializeStringBigEndian raw pos
  let (blockSize, pos) ← deserializeIntBigEndian 8 raw pos
  let (blockType, pos) ← deserializeIntBigEndian 8 raw pos
  let (timestamp, pos) ← deserializeIntBigEndian 8 raw pos
  let (countTxs, pos) ← deserializeIntBigEndian 8 raw pos
  let (senderSign, pos) ← deserializeStringBigEndian raw pos
  let (senderPubkey, pos) ← deserializeStringBigEndian raw pos
  let (senderAddress, _) ← deserializeStringBigEndian raw pos
  return {
    timestamp := UInt64.ofNat timestamp, blockSize := UInt64.ofNat blockSize,
    blockType := UInt64.ofNat blockType, hash := hash, prevHash := prevHash, signature := sign,
    txsHash := txsHash, countTxs := some (UInt64.ofNat countTxs), filePos := filePos,
    senderSign := senderSign, senderPubkey := senderPubkey, senderAddress := senderAddress }

/-- `BlocksMetadata::serialize()`. -/
def BlocksMetadata.serialize (m : BlocksMetadata) : Exec Exn Bytes := do
  check (m.blockHash ≠ []) "Incorrect metadata"
  check (m.prevBlockHash ≠ []) "Incorrect metadata"
  stdString (serializeStringBigEndian m.blockHash ++
    (serializeStringBigEndian m.prevBlockHash ++ serializeIntBigEndian 8 m.blockNumber.toNat))

/-- `BlocksMetadata::deserialize(raw)`. -/
def BlocksMetadata.deserialize (raw : Bytes) : Exec Exn BlocksMetadata := do
  if raw = [] then return {}
  let (blockHash, pos) ← deserializeStringBigEndian raw 0
  let (prevBlockHash, pos) ← deserializeStringBigEndian raw pos
  let (blockNumber, _) ← deserializeIntBigEndian 8 raw pos
  return { blockHash := blockHash, prevBlockHash := prevBlockHash,
           blockNumber := UInt64.ofNat blockNumber }

/-- The record of the last block a worker has processed (`MainBlockInfo`, `NodeStatBlockInfo`). -/
def serializeLastBlock (blockNumber : UInt64) (blockHash : Bytes) (countVal : UInt64) :
    Exec Exn Bytes := do
  check (blockHash ≠ []) "Incorrect metadata"
  stdString (serializeStringBigEndian blockHash ++
    (serializeIntBigEndian 8 blockNumber.toNat ++ serializeIntBigEndian 8 countVal.toNat))

/-- The number, the hash and the count of such a record; an empty one has the defaults. -/
def deserializeLastBlock (raw : Bytes) : Exec Exn (UInt64 × Bytes × UInt64) := do
  if raw = [] then return (0, [], 0)
  let (blockHash, pos) ← deserializeStringBigEndian raw 0
  let (blockNumber, pos) ← deserializeIntBigEndian 8 raw pos
  let (countVal, _) ← deserializeIntBigEndian 8 raw pos
  return (UInt64.ofNat blockNumber, blockHash, UInt64.ofNat countVal)

/-- `MainBlockInfo::serialize()`. -/
def MainBlockInfo.serialize (m : MainBlockInfo) : Exec Exn Bytes :=
  serializeLastBlock m.blockNumber m.blockHash m.countVal

/-- `MainBlockInfo::deserialize(raw)`. -/
def MainBlockInfo.deserialize (raw : Bytes) : Exec Exn MainBlockInfo := do
  let (blockNumber, blockHash, countVal) ← deserializeLastBlock raw
  return { blockNumber := blockNumber, blockHash := blockHash, countVal := countVal }

/-- `TransactionInfo::serialize(buffer)`: the record of the index. -/
def TransactionInfo.serialize (tx : TransactionInfo) : Bytes :=
  tx.filePos.serialize ++ serializeIntBigEndian 8 tx.blockNumber

/-- `TransactionInfo::deserialize(raw, from)`: the transaction and the new `from`. -/
def TransactionInfo.deserialize (raw : Bytes) (fromPos : ℕ) : Exec Exn (TransactionInfo × ℕ) := do
  let (filePos, pos) ← FilePosition.deserialize raw fromPos
  let (blockNumber, pos) ← deserializeIntBigEndian 8 raw pos
  return ({ filePos := filePos, blockNumber := blockNumber }, pos)

/-! ## Round trips -/

/-- A position at any offset of a longer string, with `nextFrom`. -/
theorem FilePosition.deserializeEnd_at {raw : Bytes} {pos : ℕ} {p : FilePosition}
    (hraw : raw.length < 2 ^ 64) (h : StandsAt raw pos p.serialize) :
    FilePosition.deserializeEnd raw pos = .ok (p, pos + p.serialize.length) := by
  simp only [FilePosition.serialize, List.length_append, serializeStringBigEndian_length,
    serializeIntBigEndian_length]
  rw [FilePosition.serialize, standsAt_append, serializeStringBigEndian_length] at h
  have hpos := fromBinaryStringBigEndian_at (by norm_num) p.pos.toNat_lt hraw h.2
  have c1 : pos + (8 + p.fileName.length) ≠ pos := by omega
  have c2 : pos + (8 + p.fileName.length) + 8 ≠ pos + (8 + p.fileName.length) := by omega
  simp only [FilePosition.deserializeEnd, deserializeStringBigEndianEnd_at hraw h.1, hpos,
    Exec.ok_bind, check_of c1, check_of c2, UInt64.ofNat_toNat, Exec.pure_eq_ok]
  rw [Nat.add_assoc]

theorem FilePosition.serialize_length (p : FilePosition) :
    p.serialize.length = 8 + p.fileName.length + 8 := by
  simp [FilePosition.serialize]

/-- `FilePosition::deserialize` at any offset of a longer string. -/
theorem FilePosition.deserialize_at {raw : Bytes} {pos : ℕ} {p : FilePosition}
    (hraw : raw.length < 2 ^ 64) (h : StandsAt raw pos p.serialize) :
    FilePosition.deserialize raw pos = .ok (p, pos + p.serialize.length) := by
  have hne : pos + p.serialize.length ≠ pos := by rw [p.serialize_length]; omega
  simp only [FilePosition.deserialize, FilePosition.deserializeEnd_at hraw h, Exec.ok_bind,
    check_of hne, Exec.pure_eq_ok]

/-- What is stored of a header: all fields but the number and the end of the record. -/
def BlockHeader.persisted (h : BlockHeader) : BlockHeader :=
  { h with endBlockPos := 0, blockNumber := none }

theorem BlockHeader.serialize_eq_ok {h : BlockHeader} {raw : Bytes} (hs : h.serialize = .ok raw) :
    h.hash ≠ [] ∧ h.prevHash ≠ [] ∧ ∃ n, h.countTxs = some n ∧ raw = h.record n ∧
      raw.length ≤ maxSize := by
  simp only [BlockHeader.serialize, Exec.bind_eq_ok] at hs
  obtain ⟨_, h1, _, h2, _, h3, h4⟩ := hs
  obtain ⟨n, hn⟩ := Option.isSome_iff_exists.1 (check_eq_ok h3)
  obtain ⟨rfl, hl⟩ := stdString_eq_ok h4
  exact ⟨check_eq_ok h1, check_eq_ok h2, n, hn, by rw [hn]; rfl, hl⟩

theorem BlockHeader.deserialize_record {h : BlockHeader} {n : UInt64} (hn : h.countTxs = some n)
    (hlen : (h.record n).length ≤ maxSize) :
    BlockHeader.deserialize (h.record n) = .ok h.persisted := by
  have hraw : (h.record n).length < 2 ^ 64 := by rw [maxSize] at hlen; omega
  obtain ⟨raw, hr⟩ : ∃ raw, raw = h.record n := ⟨_, rfl⟩
  have hat : StandsAt raw 0 (h.record n) := by
    rw [← hr]; exact standsAt_self raw
  rw [← hr] at hraw ⊢
  simp only [BlockHeader.record, standsAt_append, serializeStringBigEndian_length,
    serializeIntBigEndian_length] at hat
  obtain ⟨h1, h2, h3, h4, h5, h6, h7, h8, h9, h10, h11, h12⟩ := hat
  have i6 := deserializeIntBigEndian_at (by norm_num) h.blockSize.toNat_lt hraw h6
  have i7 := deserializeIntBigEndian_at (by norm_num) h.blockType.toNat_lt hraw h7
  have i8 := deserializeIntBigEndian_at (by norm_num) h.timestamp.toNat_lt hraw h8
  have i9 := deserializeIntBigEndian_at (by norm_num) n.toNat_lt hraw h9
  rw [BlockHeader.deserialize, FilePosition.deserialize_at hraw h1]
  simp only [Exec.ok_bind, deserializeStringBigEndian_at hraw h2,
    deserializeStringBigEndian_at hraw h3, deserializeStringBigEndian_at hraw h4,
    deserializeStringBigEndian_at hraw h5, i6, i7, i8, i9, deserializeStringBigEndian_at hraw h10,
    deserializeStringBigEndian_at hraw h11, deserializeStringBigEndian_at hraw h12]
  simp [BlockHeader.persisted, hn]

/-- **A header record decodes to the stored fields of the header.** -/
theorem BlockHeader.deserialize_serialize {h : BlockHeader} {raw : Bytes}
    (hs : h.serialize = .ok raw) : BlockHeader.deserialize raw = .ok h.persisted := by
  obtain ⟨-, -, n, hn, rfl, hl⟩ := BlockHeader.serialize_eq_ok hs
  exact BlockHeader.deserialize_record hn hl

/-- **The block metadata decode to themselves.** -/
theorem BlocksMetadata.deserialize_serialize {m : BlocksMetadata} {raw : Bytes}
    (hs : m.serialize = .ok raw) : BlocksMetadata.deserialize raw = .ok m := by
  simp only [BlocksMetadata.serialize, Exec.bind_eq_ok] at hs
  obtain ⟨_, _, _, _, h4⟩ := hs
  obtain ⟨hr, hl⟩ := stdString_eq_ok h4
  have hraw : raw.length < 2 ^ 64 := by rw [hr]; rw [maxSize] at hl; omega
  have hne : raw ≠ [] := by
    rw [hr]; exact List.ne_nil_of_length_pos (by simp)
  have hat := standsAt_self raw
  nth_rewrite 2 [hr] at hat
  simp only [standsAt_append, serializeStringBigEndian_length] at hat
  obtain ⟨h1, h2, h3⟩ := hat
  rw [BlocksMetadata.deserialize, if_neg hne]
  simp only [Exec.ok_bind, deserializeStringBigEndian_at hraw h1,
    deserializeStringBigEndian_at hraw h2,
    deserializeIntBigEndian_at (by norm_num) m.blockNumber.toNat_lt hraw h3,
    UInt64.ofNat_toNat, Exec.pure_eq_ok]

/-- The record of the last block decodes to itself. -/
theorem deserializeLastBlock_serialize {blockNumber countVal : UInt64} {blockHash raw : Bytes}
    (hs : serializeLastBlock blockNumber blockHash countVal = .ok raw) :
    deserializeLastBlock raw = .ok (blockNumber, blockHash, countVal) := by
  simp only [serializeLastBlock, Exec.bind_eq_ok] at hs
  obtain ⟨_, _, h4⟩ := hs
  obtain ⟨hr, hl⟩ := stdString_eq_ok h4
  have hraw : raw.length < 2 ^ 64 := by rw [hr]; rw [maxSize] at hl; omega
  have hne : raw ≠ [] := by
    rw [hr]; exact List.ne_nil_of_length_pos (by simp)
  have hat := standsAt_self raw
  nth_rewrite 2 [hr] at hat
  simp only [standsAt_append, serializeStringBigEndian_length, serializeIntBigEndian_length] at hat
  obtain ⟨h1, h2, h3⟩ := hat
  rw [deserializeLastBlock, if_neg hne]
  simp only [Exec.ok_bind, deserializeStringBigEndian_at hraw h1,
    deserializeIntBigEndian_at (by norm_num) blockNumber.toNat_lt hraw h2,
    deserializeIntBigEndian_at (by norm_num) countVal.toNat_lt hraw h3,
    UInt64.ofNat_toNat, Exec.pure_eq_ok]

/-- A record of the index at any offset of a longer string. -/
theorem TransactionInfo.deserialize_at {raw : Bytes} {pos : ℕ} {tx : TransactionInfo}
    (hraw : raw.length < 2 ^ 64) (hnum : tx.blockNumber < 2 ^ 64) (h : StandsAt raw pos tx.serialize) :
    TransactionInfo.deserialize raw pos =
      .ok ({ filePos := tx.filePos, blockNumber := tx.blockNumber }, pos + tx.serialize.length) := by
  rw [TransactionInfo.serialize, standsAt_append] at h
  simp only [TransactionInfo.deserialize, FilePosition.deserialize_at hraw h.1, Exec.ok_bind,
    deserializeIntBigEndian_at (by norm_num) hnum hraw h.2, Exec.pure_eq_ok]
  simp [TransactionInfo.serialize, Nat.add_assoc]

end TorrentNode
