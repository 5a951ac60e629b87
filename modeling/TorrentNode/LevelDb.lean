/-
  The database of the node (`LevelDb.h`, `LevelDb.cpp`).

  LevelDB keeps its keys in bytewise order and writes a batch atomically; an
  iterator yields the keys from the one it was set to.  Failures of the
  database itself are not modelled.

  `mem_getAllBlocks`: the range scan for block headers yields the values under
  the keys that begin with `b_`, whatever else the database holds.
-/
import TorrentNode.Utils.FileSystem

open Wire

namespace TorrentNode

/-! ## Keys -/

def keyBlockMetadata : Bytes := ascii ['?', 'b', 'l', 'o', 'c', 'k', '_', 'm', 'e', 't', 'a']
def versionDb : Bytes := ascii ['?', 'v', 'e', 'r', 's', 'i', 'o', 'n', '_', 'd', 'b']
def blockPrefix : Bytes := ascii ['b', '_']
def mainBlockNumberPrefix : Bytes := ascii ['m', 's', '_']
def filePrefix : Bytes := ascii ['f', '_']
def modulesKey : Bytes := ascii ['m', 'o', 'd', 'u', 'l', 'e', 's']
def nodeStatBlockNumberPrefix : Bytes := ascii ['n', 's', '_']
def nodesStatsAll : Bytes := ascii ['n', 's', 'a', 'a', '_']

/-- `makeBlockKey(blockHash)`. -/
def makeBlockKey (blockHash : Bytes) : Exec Exn Bytes := do
  check (blockHash ≠ []) "Incorrect blockHash: empty"
  return blockPrefix ++ blockHash

/-- `makeFileKey(fileName)`. -/
def makeFileKey (fileName : Bytes) : Exec Exn Bytes := do
  check (fileName ≠ []) "Incorrect blockHash: empty"
  return filePrefix ++ fileName

/-! ## The database -/

/-- What the database holds. -/
abbrev LevelDb := Finmap fun _ : Bytes => Bytes

namespace LevelDb

/-- `saveValue(key, value)`. -/
def saveValue (db : LevelDb) (key value : Bytes) : LevelDb := db.insert key value

/-- `findOneValueWithoutCheck(key)`. -/
def findOneValueWithoutCheck (db : LevelDb) (key : Bytes) : Bytes := (db.lookup key).getD []

/-- The keys an iterator set to `key` yields. -/
def iterator (db : LevelDb) (key : Bytes) : List Bytes := seek (db.keys.sort (· ≤ ·)) key

/-- The loop of `findKeyInternal`, over the keys the iterator still yields. -/
def findKeyLoop (db : LevelDb) (keyTo : Bytes) (fromIndex count : ℕ) : ℕ → List Bytes → List Bytes
  | _, [] => []
  | index, key :: keys =>
    if key < keyTo then
      if count ≠ 0 ∧ (fromIndex + count) % 2 ^ 64 ≤ index then []
      else if fromIndex ≤ index then
        db.findOneValueWithoutCheck key :: findKeyLoop db keyTo fromIndex count (index + 1) keys
      else findKeyLoop db keyTo fromIndex count (index + 1) keys
    else []

/-- `findKey(keyFrom, keyTo, from, count)`. -/
def findKey (db : LevelDb) (keyFrom keyTo : Bytes) (fromIndex count : ℕ) : List Bytes :=
  findKeyLoop db keyTo fromIndex count 0 (db.iterator keyFrom)

/-- The end of the range of keys with a given beginning: its last character is raised by one. -/
def rangeEnd (beginning : Bytes) : Bytes := beginning.dropLast ++ [beginning.getLastD 0 + 1]

/-- `getAllBlocks(leveldb)`: a `std::set` lists its elements in order, each once. -/
def getAllBlocks (db : LevelDb) : List Bytes :=
  (db.findKey blockPrefix (rangeEnd blockPrefix) 0 0).toFinset.sort (· ≤ ·)

/-- `getAllFiles(leveldb)`. -/
def getAllFiles (db : LevelDb) : Exec Exn (Finmap fun _ : CroppedFileName => FileInfo) :=
  (db.findKey filePrefix (rangeEnd filePrefix) 0 0).foldlM (fun result f => do
    let fi ← FileInfo.deserialize f
    return result.insert (CroppedFileName.ofName fi.filePos.fileName) fi) ∅

/-- `findBlockMetadata(leveldb)`. -/
def findBlockMetadata (db : LevelDb) : Bytes := db.findOneValueWithoutCheck keyBlockMetadata

/-- `findNodeStatBlock(leveldb)`. -/
def findNodeStatBlock (db : LevelDb) : Bytes := db.findOneValueWithoutCheck nodeStatBlockNumberPrefix

/-- `findAllNodes(leveldb)`. -/
def findAllNodes (db : LevelDb) : Bytes := db.findOneValueWithoutCheck nodesStatsAll

/-- `saveModules(modules, leveldb)`. -/
def saveModules (db : LevelDb) (modules : Bytes) : LevelDb := db.saveValue modulesKey modules

/-- `saveVersionDb(value, leveldb)`. -/
def saveVersionDb (db : LevelDb) (value : Bytes) : LevelDb := db.saveValue versionDb value

end LevelDb

/-- The writes of a `Batch`, the first one first. -/
abbrev Batch := List (Bytes × Bytes)

namespace Batch

/-- `addKey(key, value)`. -/
def addKey (batch : Batch) (key value : Bytes) : Batch := batch ++ [(key, value)]

/-- `addBlockHeader(blockHash, value)`. -/
def addBlockHeader (batch : Batch) (blockHash value : Bytes) : Exec Exn Batch := do
  let key ← makeBlockKey blockHash
  return batch.addKey key value

/-- `addBlockMetadata(value)`. -/
def addBlockMetadata (batch : Batch) (value : Bytes) : Batch := batch.addKey keyBlockMetadata value

/-- `addFileMetadata(fileName, value)`. -/
def addFileMetadata (batch : Batch) (fileName : CroppedFileName) (value : Bytes) :
    Exec Exn Batch := do
  let key ← makeFileKey fileName.name
  return batch.addKey key value

/-- `addMainBlock(value)`. -/
def addMainBlock (batch : Batch) (value : Bytes) : Batch := batch.addKey mainBlockNumberPrefix value

/-- `addNodeStatBlock(value)`. -/
def addNodeStatBlock (batch : Batch) (value : Bytes) : Batch :=
  batch.addKey nodeStatBlockNumberPrefix value

/-- `addAllNodes(value)`. -/
def addAllNodes (batch : Batch) (value : Bytes) : Batch := batch.addKey nodesStatsAll value

end Batch

/-- `addBatch(batch, leveldb)`. -/
def addBatch (batch : Batch) (db : LevelDb) : LevelDb :=
  batch.foldl (fun db kv => db.insert kv.1 kv.2) db

/-! ## The range scan -/

namespace LevelDb

theorem lookup_iff_findOneValue {db : LevelDb} {key : Bytes} (h : key ∈ db) (value : Bytes) :
    db.lookup key = some value ↔ db.findOneValueWithoutCheck key = value := by
  obtain ⟨v, hv⟩ := Finmap.mem_iff.1 h
  rw [findOneValueWithoutCheck, hv, Option.getD_some, Option.some.injEq]

theorem mem_findKeyLoop {db : LevelDb} {keyTo value : Bytes} {index : ℕ} {keys : List Bytes}
    (hs : keys.Pairwise (· ≤ ·)) :
    value ∈ findKeyLoop db keyTo 0 0 index keys ↔
      ∃ key ∈ keys, key < keyTo ∧ db.findOneValueWithoutCheck key = value := by
  induction keys generalizing index with
  | nil => simp [findKeyLoop]
  | cons key keys ih =>
    rw [List.pairwise_cons] at hs
    by_cases hk : key < keyTo
    · simp only [findKeyLoop, hk, if_true, ne_eq, not_true, false_and, if_false, Nat.zero_le,
        List.mem_cons, ih hs.2, exists_eq_or_imp, true_and, @eq_comm _ value]
    · simp only [findKeyLoop, hk, if_false, List.not_mem_nil, List.mem_cons, exists_eq_or_imp,
        false_and, false_or, false_iff]
      rintro ⟨k, hm, hlt, -⟩
      exact hk ((hs.1 k hm).trans_lt hlt)

/-- A scan without limits yields the values of all keys in the range. -/
theorem mem_findKey {db : LevelDb} {keyFrom keyTo value : Bytes} :
    value ∈ db.findKey keyFrom keyTo 0 0 ↔
      ∃ key, keyFrom ≤ key ∧ key < keyTo ∧ db.lookup key = some value := by
  have hsort : (db.keys.sort (· ≤ ·)).Pairwise (· ≤ ·) := Finset.pairwise_sort _ _
  rw [findKey, iterator, mem_findKeyLoop (pairwise_seek hsort _)]
  constructor
  · rintro ⟨key, hm, hlt, hv⟩
    rw [mem_seek hsort, Finset.mem_sort, Finmap.mem_keys] at hm
    exact ⟨key, hm.2, hlt, (lookup_iff_findOneValue hm.1 value).2 hv⟩
  · rintro ⟨key, hle, hlt, hl⟩
    have hmem := Finmap.mem_of_lookup_eq_some hl
    refine ⟨key, ?_, hlt, (lookup_iff_findOneValue hmem value).1 hl⟩
    rw [mem_seek hsort, Finset.mem_sort, Finmap.mem_keys]
    exact ⟨hmem, hle⟩

theorem blockPrefix_range (key : Bytes) :
    blockPrefix <+: key ↔ blockPrefix ≤ key ∧ key < rangeEnd blockPrefix := by
  have hnext : ('_'.toUInt8) ⋖ ('_'.toUInt8 + 1) := by
    refine ⟨by decide, ?_⟩
    intro c h1 h2
    rw [UInt8.lt_iff_toNat_lt] at h1 h2
    have e1 : ('_'.toUInt8).toNat = 95 := by decide
    have e2 : ('_'.toUInt8 + 1).toNat = 96 := by decide
    omega
  exact prefix_iff_range hnext ['b'.toUInt8] key

/-- **The scan for block headers** yields the values under the keys that begin with `b_`. -/
theorem mem_getAllBlocks {db : LevelDb} {value : Bytes} :
    value ∈ db.getAllBlocks ↔ ∃ hash, db.lookup (blockPrefix ++ hash) = some value := by
  rw [getAllBlocks, Finset.mem_sort, List.mem_toFinset, mem_findKey]
  constructor
  · rintro ⟨key, hle, hlt, hl⟩
    obtain ⟨hash, rfl⟩ := (blockPrefix_range key).2 ⟨hle, hlt⟩
    exact ⟨hash, hl⟩
  · rintro ⟨hash, hl⟩
    have := (blockPrefix_range (blockPrefix ++ hash)).1 (List.prefix_append _ _)
    exact ⟨_, this.1, this.2, hl⟩

end LevelDb

end TorrentNode
