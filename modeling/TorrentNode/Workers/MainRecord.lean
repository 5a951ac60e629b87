/-
  The worker that records the last block of the node (`WorkerMain.cpp`).

  The worker takes blocks from a queue and writes the number and the hash of the last
  one to the database of the node, with a count that each start-up lowers by one
  (`Counter<false>::store`).  A block that is not newer than the record is skipped; one
  that does not continue it is refused.  The worker passes the number on to the caches
  of the transactions.

  `workBlock_cases`: what an iteration does, by the number and the parent of the block.
-/
import TorrentNode.BlockInfo.TransactionStatus
import TorrentNode.Cache.LocalCache
import TorrentNode.Workers.WorkerCache
import TorrentNode.Workers.WorkerNodeTest

open Wire Exec

namespace TorrentNode

/-- `Counter<inc>::store(value)`: the value that is stored. -/
def Counter.store (inc : Bool) (value : UInt64) : UInt64 := if inc then value + 1 else value - 1

/-- `findMainBlock(leveldb)`. -/
def LevelDb.findMainBlock (db : LevelDb) : Bytes := db.findOneValueWithoutCheck mainBlockNumberPrefix

namespace WorkerMain

open WorkerNodeTest (optionalValue)

/-! ## The worker -/

/-- The caches that the worker writes to. -/
structure Caches where
  maxCountElementsTxsCache : ℕ
  txsStatusCache : Cache TransactionStatus := {}
  localCacheTxs : LocalCacheInternal TransactionInfo ℤ

/-- `CachesOptions`, without the limit of the cache of dumps. -/
structure CachesOptions where
  maxCountElementsTxsCache : ℕ
  macLocalCacheElements : ℕ

/-- The caches of a node that starts. -/
def Caches.create (cachesOpt : CachesOptions) : Caches where
  maxCountElementsTxsCache := cachesOpt.maxCountElementsTxsCache
  localCacheTxs := LocalCacheInternal.init cachesOpt.macLocalCacheElements

/-- What the worker does to the caches for a block that it has recorded. -/
def Caches.blockSaved (caches : Caches) (blockNumber : ℕ) : Caches :=
  { caches with
    txsStatusCache := caches.txsStatusCache.remove
      (toStringSize (subSize blockNumber caches.maxCountElementsTxsCache))
    localCacheTxs := caches.localCacheTxs.setLastBlockNum blockNumber }

/-- The members of `WorkerMain`. -/
structure Members where
  lastSavedBlock : ℕ
  countVal : UInt64
  queue : List BlockInfo := []

/-- The constructor. -/
def create (leveldb : LevelDb) : Exec Exn Members := do
  let oldMetadata ← MainBlockInfo.deserialize leveldb.findMainBlock
  return {
    lastSavedBlock := oldMetadata.blockNumber.toNat
    countVal := Counter.store false oldMetadata.countVal }

/-- `process(bi, dump)`. -/
def Members.process (w : Members) (bi : BlockInfo) : Exec Exn Members := do
  let blockNumber ← optionalValue bi.header.blockNumber
  return if w.lastSavedBlock < blockNumber then { w with queue := w.queue ++ [bi] } else w

/-- `getInitBlockNumber()`. -/
def Members.getInitBlockNumber (w : Members) : Option ℕ := some w.lastSavedBlock

/-- The body of the loop of `worker()`, behind the queue: the database and the caches it leaves. -/
def workBlock (countVal : UInt64) (leveldb : LevelDb) (caches : Caches) (bi : BlockInfo) :
    Exec Exn (LevelDb × Caches) := do
  let blockNumber ← optionalValue bi.header.blockNumber
  let oldMetadata ← MainBlockInfo.deserialize leveldb.findMainBlock
  if blockNumber ≤ oldMetadata.blockNumber.toNat then return (leveldb, caches)
  check (oldMetadata.blockHash = [] ∨ oldMetadata.blockHash = bi.header.prevHash)
    ("Incorrect prev hash. Expected " ++ text oldMetadata.blockHash ++ ", received " ++
      text bi.header.prevHash)
  let info : MainBlockInfo :=
    { blockNumber := UInt64.ofNat blockNumber, blockHash := bi.header.hash, countVal := countVal }
  let value ← info.serialize
  return (addBatch (Batch.addMainBlock [] value) leveldb, caches.blockSaved blockNumber)

/-! ## The record -/

/-- The record of the last block. -/
def Recorded (leveldb : LevelDb) (info : MainBlockInfo) : Prop :=
  MainBlockInfo.deserialize leveldb.findMainBlock = .ok info

section
variable {leveldb : LevelDb} {info : MainBlockInfo}

theorem Recorded.unique {info' : MainBlockInfo} (h : Recorded leveldb info)
    (h' : Recorded leveldb info') : info = info' :=
  Exec.ok.inj (h.symm.trans h')

/-- A write to another key keeps the record. -/
theorem Recorded.insert_of_ne (h : Recorded leveldb info) {key : Bytes}
    (hne : key ≠ mainBlockNumberPrefix) (value : Bytes) : Recorded (leveldb.insert key value) info := by
  rw [Recorded, LevelDb.findMainBlock, LevelDb.findOneValueWithoutCheck,
    Finmap.lookup_insert_of_ne _ hne.symm]
  exact h

/-- What is written is read. -/
theorem recorded_insert {value : Bytes} (hv : info.serialize = .ok value) (leveldb : LevelDb) :
    Recorded (leveldb.insert mainBlockNumberPrefix value) info := by
  rw [Recorded, LevelDb.findMainBlock, LevelDb.findOneValueWithoutCheck, Finmap.lookup_insert,
    Option.getD_some, MainBlockInfo.deserialize, deserializeLastBlock_serialize hv, ok_bind]
  rfl

/-- A hash of a usual length can be recorded. -/
theorem serialize_returns (info : MainBlockInfo) (hne : info.blockHash ≠ [])
    (hlen : info.blockHash.length + 32 ≤ maxSize) : ∃ value, info.serialize = .ok value := by
  have hfits : (serializeStringBigEndian info.blockHash ++
      (serializeIntBigEndian 8 info.blockNumber.toNat ++
        serializeIntBigEndian 8 info.countVal.toNat)).length ≤ maxSize := by
    simp only [List.length_append, serializeStringBigEndian_length, serializeIntBigEndian_length]
    omega
  rw [MainBlockInfo.serialize, serializeLastBlock, check_of hne, ok_bind, stdString,
    Exec.check_pos hfits]
  exact ⟨_, rfl⟩

theorem create_eq_ok (h : Recorded leveldb info) : create leveldb = .ok {
    lastSavedBlock := info.blockNumber.toNat
    countVal := Counter.store false info.countVal } := by
  rw [create, h, ok_bind]
  rfl

/-- An iteration writes the record or nothing. -/
theorem workBlock_leveldb {countVal : UInt64} {caches caches' : Caches} {bi : BlockInfo}
    {leveldb' : LevelDb} (h : workBlock countVal leveldb caches bi = .ok (leveldb', caches')) :
    leveldb' = leveldb ∨ ∃ value, leveldb' = leveldb.insert mainBlockNumberPrefix value := by
  obtain ⟨blockNumber, -, h⟩ := Exec.bind_eq_ok.1 h
  obtain ⟨oldMetadata, -, h⟩ := Exec.bind_eq_ok.1 h
  split_ifs at h
  · cases h
    exact Or.inl rfl
  · obtain ⟨_, -, h⟩ := Exec.bind_eq_ok.1 h
    obtain ⟨value, -, h⟩ := Exec.bind_eq_ok.1 h
    cases h
    exact Or.inr ⟨value, rfl⟩

/-- **What an iteration does** with the block number `n`: a block that is not newer is skipped, one
    that continues the record becomes the record, and any other one is refused. -/
theorem workBlock_cases (h : Recorded leveldb info) {bi : BlockInfo} {n : ℕ}
    (hn : bi.header.blockNumber = some n) (hne : bi.header.hash ≠ [])
    (hlen : bi.header.hash.length + 32 ≤ maxSize) (countVal : UInt64) (caches : Caches) :
    (n ≤ info.blockNumber.toNat ∧
      workBlock countVal leveldb caches bi = .ok (leveldb, caches)) ∨
    (info.blockNumber.toNat < n ∧ (info.blockHash = [] ∨ info.blockHash = bi.header.prevHash) ∧
      ∃ value, workBlock countVal leveldb caches bi =
          .ok (leveldb.insert mainBlockNumberPrefix value, caches.blockSaved n) ∧
        Recorded (leveldb.insert mainBlockNumberPrefix value)
          { blockNumber := UInt64.ofNat n, blockHash := bi.header.hash, countVal := countVal }) ∨
    (info.blockNumber.toNat < n ∧ info.blockHash ≠ [] ∧ info.blockHash ≠ bi.header.prevHash ∧
      ∃ e, workBlock countVal leveldb caches bi = .throw e) := by
  rw [workBlock, hn, optionalValue, ok_bind, h, ok_bind]
  by_cases hold : n ≤ info.blockNumber.toNat
  · left
    rw [if_pos hold]
    exact ⟨hold, rfl⟩
  · right
    rw [if_neg hold]
    by_cases hlink : info.blockHash = [] ∨ info.blockHash = bi.header.prevHash
    · left
      obtain ⟨value, hv⟩ := serialize_returns
        { blockNumber := UInt64.ofNat n, blockHash := bi.header.hash, countVal := countVal } hne hlen
      refine ⟨by omega, hlink, value, ?_, recorded_insert hv leveldb⟩
      rw [check_of hlink, ok_bind]
      dsimp only
      rw [hv, ok_bind]
      rfl
    · right
      push Not at hlink
      refine ⟨by omega, hlink.1, hlink.2, ?_⟩
      rw [check, Exec.check_neg (by tauto)]
      exact ⟨_, rfl⟩

end

end WorkerMain

end TorrentNode
