/-
  Persisting the block chain and loading it at start-up (`SyncImpl.cpp`).

  `saveBlockToLeveldb` writes the header, the metadata and the state of the
  block file in one batch, the last thing it does: a call that throws, or a
  crash before the batch is written, leaves the database as it was.
-/
import TorrentNode.BlockChain
import TorrentNode.LevelDb

open Wire

namespace TorrentNode

/-- The modules of the node (`Modules.h`). -/
structure Modules where
  block : Bool
  blockRaw : Bool
  users : Bool
  nodeTest : Bool
deriving DecidableEq, Repr

namespace SyncImpl

/-- The metadata `saveBlockToLeveldb` writes: of two blocks with the same parent the smaller hash
    is kept. -/
def newMetadata (metadata : BlocksMetadata) (header : BlockHeader) : BlocksMetadata where
  prevBlockHash := header.prevHash
  blockHash :=
    if metadata.prevBlockHash = header.prevHash then
      if metadata.blockHash < header.hash then metadata.blockHash else header.hash
    else header.hash

/-- `saveBlockToLeveldb(bi)`: the database it leaves. -/
def saveBlockToLeveldb (modules : Modules) (leveldb : LevelDb) (bi : BlockInfo) :
    Exec Exn LevelDb := do
  let batch : Batch ←
    if modules.block then do
      let value ← bi.header.serialize
      Batch.addBlockHeader [] bi.header.hash value
    else pure []
  let metadata ← BlocksMetadata.deserialize leveldb.findBlockMetadata
  let value ← (newMetadata metadata bi.header).serialize
  let batch := batch.addBlockMetadata value
  let fi : FileInfo :=
    { filePos := { fileName := bi.header.filePos.fileName, pos := bi.header.endBlockPos } }
  let batch ← batch.addFileMetadata (CroppedFileName.ofName fi.filePos.fileName) fi.serialize
  return addBatch batch leveldb

/-- The loop of `synchronize` over the raw headers. -/
def addBlocksRaw : List Bytes → BlockChain → Exec Exn Unit × BlockChain
  | [], blockchain => (.ok (), blockchain)
  | blockRaw :: blocksRaw, blockchain =>
    match BlockHeader.deserialize blockRaw with
    | .ok bh =>
      match blockchain.addWithoutCalc bh with
      | (.ok _, blockchain) => addBlocksRaw blocksRaw blockchain
      | (r, blockchain) => (r >>= fun _ => .ok (), blockchain)
    | r => (r >>= fun _ => .ok (), blockchain)

/-- The chain built from the metadata and the raw headers, taken in the given order. -/
def buildBlockchain (metadata : BlocksMetadata) (blocksRaw : List Bytes) (blockchain : BlockChain) :
    Exec Exn Unit × BlockChain :=
  match addBlocksRaw blocksRaw blockchain.clear with
  | (.ok (), blockchain) =>
    if metadata.blockHash ≠ [] then
      let (r, blockchain) := blockchain.calcBlockchain metadata.blockHash
      (r >>= fun _ => .ok (), blockchain)
    else (.ok (), blockchain)
  | r => r

/-- The part of `synchronize` that loads the block chain at start-up. -/
def loadBlockchain (leveldb : LevelDb) (blockchain : BlockChain) : Exec Exn Unit × BlockChain :=
  match BlocksMetadata.deserialize leveldb.findBlockMetadata with
  | .ok metadata => buildBlockchain metadata leveldb.getAllBlocks blockchain
  | r => (r >>= fun _ => .ok (), blockchain)

end SyncImpl

end TorrentNode
