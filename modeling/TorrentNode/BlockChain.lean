/-
  The in-memory index of the block chain (`BlockChain.h`, `BlockChain.cpp`).

  The index is kept twice: `blocks` maps a hash to its header, `hashes` lists
  the hashes by number.  An exception does not undo what a call has written,
  so every method that writes returns its outcome together with the state it
  leaves.  A reference to a header in `blocks` is the key of the header.

  `calcBlockchain` walks back from a hash until it meets a numbered header
  (`walkBack`), numbering with `0, 1, 2, …` on the way, and then gives the
  walked headers their final numbers from the other end (`numberBlocks`).
-/
import TorrentNode.BlockInfo

open Wire

namespace TorrentNode

/-- `std::unordered_map<std::string, BlockHeader>`. -/
abbrev Blocks := Finmap fun _ : Bytes => BlockHeader

structure BlockChain where
  blocks : Blocks
  hashes : List Bytes
deriving DecidableEq

namespace BlockChain

/-- `GENESIS_BLOCK_HASH`: 64 times the digit zero. -/
def genesisHash : Bytes := List.replicate 64 '0'.toUInt8

/-- `initialize()`. -/
def initializeChain (c : BlockChain) : BlockChain where
  blocks := c.blocks.insert genesisHash { hash := genesisHash, blockNumber := some 0 }
  hashes := c.hashes ++ [genesisHash]

/-- `BlockChain()`. -/
def new : BlockChain := initializeChain ⟨∅, []⟩

/-- `clear()`. -/
def clear (_ : BlockChain) : BlockChain := initializeChain ⟨∅, []⟩

/-- `addWithoutCalc(block)`: whether the hash was there already. -/
def addWithoutCalc (c : BlockChain) (block : BlockHeader) : Exec Exn Bool × BlockChain :=
  if block.hash = [] then (.throw (.common "Empty block hash"), c)
  else if block.hash ∈ c.blocks then (.ok true, c)
  else (.ok false, { c with blocks := c.blocks.insert block.hash block })

/-- `removeBlock(block)`. -/
def removeBlock (c : BlockChain) (block : BlockHeader) : Exec Exn Unit × BlockChain :=
  if block.hash = [] then (.throw (.common "Empty block hash"), c)
  else (.ok (), { c with blocks := c.blocks.erase block.hash })

/-! ## Numbering -/

/-- The header a reference stands for. -/
def header (blocks : Blocks) (ref : Bytes) : BlockHeader := (blocks.lookup ref).getD {}

/-- Write the number of a header through a reference. -/
def setNumber (blocks : Blocks) (ref : Bytes) (n : Option ℕ) : Blocks :=
  blocks.insert ref { header blocks ref with blockNumber := n }

/-- The variables of the first loop of `calcBlockchain`; the last element of `processedBlocks`
    comes first. -/
structure Walk where
  blocks : Blocks
  bh : Bytes
  currNum : ℕ
  processedBlocks : List Bytes

/-- The first loop of `calcBlockchain`. -/
def walkBack : ℕ → Walk → Exec Exn Unit × Walk
  | 0, w => (.outOfFuel, w)
  | fuel + 1, w =>
    if (header w.blocks w.bh).blockNumber.isSome then (.ok (), w)
    else
      let w' : Walk :=
        { blocks := setNumber w.blocks w.bh (some w.currNum), bh := w.bh,
          currNum := w.currNum + 1, processedBlocks := w.bh :: w.processedBlocks }
      let prevHash := (header w.blocks w.bh).prevHash
      if prevHash = [] then (.throw (.common "Empty block hash"), w')
      else if prevHash ∈ w'.blocks then walkBack fuel { w' with bh := prevHash }
      -- `break`: `bh` still refers to the header numbered just now
      else (.ok (), w')

/-- The second loop of `calcBlockchain`, over `processedBlocks` from its end. -/
def numberBlocks (allNum : ℕ) : List Bytes → BlockChain → Exec Exn Unit × BlockChain
  | [], c => (.ok (), c)
  | ref :: refs, c =>
    let bh := header c.blocks ref
    let num := allNum - bh.blockNumber.getD 0
    let c' : BlockChain := { c with blocks := setNumber c.blocks ref (some num) }
    if num ≠ c.hashes.length then (.throw (.common "Ups"), c')
    else numberBlocks allNum refs { c' with hashes := c.hashes ++ [bh.hash] }

/-- `calcBlockchain(lastHash)`. -/
def calcBlockchain (c : BlockChain) (lastHash : Bytes) : Exec Exn ℕ × BlockChain :=
  if lastHash = [] then (.throw (.common "Empty block hash"), c)
  else if lastHash ∉ c.blocks then
    (.throw (.common ("Hash " ++ text lastHash ++ " dont append to blockchain")), c)
  else
    let (r, w) := walkBack (c.blocks.keys.card + 1) ⟨c.blocks, lastHash, 0, []⟩
    match r with
    | .ok () =>
      match (header w.blocks w.bh).blockNumber with
      | some n =>
        let allNum := w.currNum + n
        let (r, c') := numberBlocks allNum w.processedBlocks { c with blocks := w.blocks }
        (r >>= fun _ => .ok allNum, c')
      | none =>
        (.ok 0, { c with blocks := w.processedBlocks.foldr (fun ref bs => setNumber bs ref none) w.blocks })
    | r => (r >>= fun _ => .ok 0, { c with blocks := w.blocks })

/-- `addBlock(block)`. -/
def addBlock (c : BlockChain) (block : BlockHeader) : Exec Exn ℕ × BlockChain :=
  match addWithoutCalc c block with
  | (.ok true, c') =>
    (.throw (.common ("Block " ++ text block.hash ++ " already exist")), c')
  | (.ok false, c') =>
    match calcBlockchain c' block.hash with
    | (.throw (.common message), c'') => (.throw (.common message), (removeBlock c'' block).2)
    | r => r
  | (r, c') => (r >>= fun _ => .ok 0, c')

/-! ## Queries -/

/-- `getBlockImpl(hash)`. -/
def getBlockImplHash (c : BlockChain) (hash : Bytes) : BlockHeader := (c.blocks.lookup hash).getD {}

/-- `getBlock(hash)`. -/
def getBlockHash (c : BlockChain) (hash : Bytes) : Exec Exn BlockHeader := do
  check (hash ≠ []) "Empty block hash"
  return c.getBlockImplHash hash

/-- `getBlock(blockNumber)`. -/
def getBlockNumber (c : BlockChain) (blockNumber : ℕ) : BlockHeader :=
  match c.hashes[blockNumber]? with
  | none => {}
  | some hash => c.getBlockImplHash hash

/-- `getLastBlock()`. -/
def getLastBlock (c : BlockChain) : BlockHeader := c.getBlockNumber (c.hashes.length - 1)

/-- `countBlocks()`. -/
def countBlocks (c : BlockChain) : ℕ := c.hashes.length - 1

/-! ## References -/

theorem header_of_lookup {blocks : Blocks} {ref : Bytes} {h : BlockHeader}
    (hl : blocks.lookup ref = some h) : header blocks ref = h := by simp [header, hl]

@[simp] theorem header_insert (blocks : Blocks) (ref : Bytes) (h : BlockHeader) :
    header (blocks.insert ref h) ref = h := by simp [header]

theorem header_insert_of_ne {blocks : Blocks} {ref ref' : Bytes} (h : BlockHeader)
    (hne : ref ≠ ref') : header (blocks.insert ref' h) ref = header blocks ref := by
  simp [header, hne]

@[simp] theorem header_setNumber (blocks : Blocks) (ref : Bytes) (n : Option ℕ) :
    header (setNumber blocks ref n) ref = { header blocks ref with blockNumber := n } := by
  simp [setNumber]

theorem header_setNumber_of_ne {blocks : Blocks} {ref ref' : Bytes} (n : Option ℕ)
    (hne : ref ≠ ref') : header (setNumber blocks ref' n) ref = header blocks ref := by
  rw [setNumber, header_insert_of_ne _ hne]

theorem mem_setNumber {blocks : Blocks} {ref k : Bytes} {n : Option ℕ} :
    k ∈ setNumber blocks ref n ↔ k = ref ∨ k ∈ blocks := Finmap.mem_insert

@[simp] theorem setNumber_insert (blocks : Blocks) (ref : Bytes) (h : BlockHeader) (n : Option ℕ) :
    setNumber (blocks.insert ref h) ref n = blocks.insert ref { h with blockNumber := n } := by
  simp [setNumber]

/-- Removing a header that was not there before gives the old map back. -/
theorem erase_insert {blocks : Blocks} {ref : Bytes} (h : BlockHeader) (hn : ref ∉ blocks) :
    (blocks.insert ref h).erase ref = blocks := by
  apply Finmap.ext_lookup
  intro k
  by_cases hk : k = ref
  · subst hk; rw [Finmap.lookup_erase, Finmap.lookup_eq_none.2 hn]
  · rw [Finmap.lookup_erase_ne hk, Finmap.lookup_insert_of_ne _ hk]

theorem walkBack_numbered {fuel : ℕ} {w : Walk} (h : (header w.blocks w.bh).blockNumber.isSome) :
    walkBack (fuel + 1) w = (.ok (), w) := by rw [walkBack, if_pos h]

end BlockChain

end TorrentNode
