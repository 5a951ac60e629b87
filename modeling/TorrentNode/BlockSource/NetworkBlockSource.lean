/-
  Blocks from the network (`NetworkBlockSource.cpp`).

  `process` loads the headers and the dumps of up to eight blocks, parses the
  dumps, and delivers the first block; the others are delivered by the next calls.
  What goes wrong with one block is kept and thrown when the block is its turn.
  The answers of the peers are arguments: `LastBlockResponse` in a call of
  `doProcess`, and for each block two `P2PCalls`, one for the header and one for the
  dump, in a call of `process`.

  `process_fetched`: in every run, a block that is delivered has the dump that was
  requested under the hash of its header, of the size of its header; its own hash
  is the hash of the dump.  The two hashes are not compared
  (`process_not_authenticated`).
-/
import TorrentNode.BlockSource.Prefetch
import TorrentNode.BlockchainRead.Files
import TorrentNode.BlockchainRead.Format
import TorrentNode.LevelDb
import TorrentNode.PrivateKey.Envelope
import TorrentNode.Lib.Machine

open Wire Exec

namespace TorrentNode

open GetNewBlocksFromServer

/-- The libraries and the memory of the node. -/
structure SourceEnv where
  client : ClientEnv
  libs : Libs
  memory : Allocator

/-- `struct AdvancedBlock` without an exception. -/
structure AdvancedBlock where
  header : MinimumBlockHeader
  bi : BlockInfo
  dump : Bytes

/-- `struct LastBlockResponse`. -/
structure LastBlockResponse where
  lastBlock : ℕ
  servers : List Bytes
  error : Option String

/-- The fields of `NetworkBlockSource`; `advancedBlocks` in the order of the numbers. -/
structure NetworkBlockSource where
  folderPath : Bytes
  saveAllTx : Bool
  isValidate : Bool
  isVerifySign : Bool
  getterBlocks : Getter
  nextBlockToRead : ℕ := 0
  servers : List Bytes := []
  lastBlockInBlockchain : ℕ := 0
  advancedBlocks : List (ℕ × Except Exn AdvancedBlock) := []

namespace NetworkBlockSource

/-- `COUNT_ADVANCED_BLOCKS`. -/
def countAdvancedBlocks : ℕ := 8

/-- `doProcess(countBlocks, lastBlockHash)`: whether there are new blocks, and the last one. -/
def doProcess (s : NetworkBlockSource) (countBlocks : ℕ) (lastBlock : LastBlockResponse) :
    Exec Exn (Bool × ℕ) × NetworkBlockSource :=
  let s := { s with nextBlockToRead := countBlocks + 1 }
  match lastBlock.error with
  | some error => (.throw (.common error), s)
  | none =>
    let s := { s with
      lastBlockInBlockchain := lastBlock.lastBlock
      servers := lastBlock.servers
      advancedBlocks := []
      getterBlocks := s.getterBlocks.clearAdvanced }
    (.ok (decide (s.nextBlockToRead ≤ s.lastBlockInBlockchain), s.lastBlockInBlockchain), s)

/-- `knownBlock()`. -/
def knownBlock (s : NetworkBlockSource) : ℕ := s.lastBlockInBlockchain

section
variable (E : SourceEnv) (s : NetworkBlockSource)

/-- The header and the dump of a block, or the exception. -/
def loadBlock (g : Getter) (p2p : P2PCalls × P2PCalls) (currBlock : ℕ) :
    Exec Exn (Except Exn (MinimumBlockHeader × Bytes)) × Getter :=
  match g.getBlockHeader E.client.json p2p.1 currBlock s.lastBlockInBlockchain (s.servers.headD []) with
  | (.ok header, g) =>
    let (dump, g) := g.getBlockDump E.client p2p.2 header.hash header.blockSize s.servers s.isVerifySign
    (Exec.attempt (dump >>= fun dump => .ok (header, dump)), g)
  | (r, g) => (Exec.attempt (r >>= fun header => .ok (header, [])), g)

/-- The loop of `process` over the blocks that are loaded. -/
def loadBlocks (calls : ℕ → P2PCalls × P2PCalls) :
    List ℕ → Getter → Exec Exn (List (ℕ × Except Exn (MinimumBlockHeader × Bytes))) × Getter
  | [], g => (.ok [], g)
  | currBlock :: blocks, g =>
    match loadBlock E s g (calls currBlock) currBlock with
    | (.ok block, g) =>
      let (blocks, g) := loadBlocks calls blocks g
      (blocks >>= fun blocks => .ok ((currBlock, block) :: blocks), g)
    | (r, g) => (r >>= fun _ => .ok [], g)

/-- The signed dump of a block, or the dump itself. -/
def openDump (isVerifySign : Bool) (dump : Bytes) : Exec Exn BlockSignatureCheckResult :=
  if isVerifySign then checkSignatureBlock E.libs.crypto dump
  else .ok { block := dump, sign := [], pubkey := [], address := [] }

/-- The block in a dump. -/
def parseBlock (header : MinimumBlockHeader) (dump : Bytes) : Exec Exn AdvancedBlock := do
  let signBlock ← openDump E s.isVerifySign dump
  let dump := signBlock.block
  check (dump.length = header.blockSize) "binaryDump.size() == nextBlockHeader.blockSize"
  let buf ← E.memory.vector dump
  let bi ← readNextBlockInfo buf E.libs {
    posInFile := 0
    isValidate := s.isValidate
    isSaveAllTx := s.saveAllTx
    beginTx := 0
    countTx := 0 }
  return {
    header := header
    dump := dump
    bi := { bi with header := { bi.header with
      filePos := { bi.header.filePos with
        fileName := getFullPath (getBasename header.fileName) s.folderPath }
      senderSign := signBlock.sign
      senderPubkey := signBlock.pubkey
      senderAddress := signBlock.address } } }

/-- The body of the parallel loop of `process`. -/
def parseAdvanced : ℕ × Except Exn (MinimumBlockHeader × Bytes) →
    Exec Exn (ℕ × Except Exn AdvancedBlock)
  | (number, .error e) => .ok (number, .error e)
  | (number, .ok (header, dump)) => do
    let advanced ← Exec.attempt (parseBlock E s header dump)
    return (number, advanced)

/-- `processAdvanced(advanced)`. -/
def processAdvanced (advanced : Except Exn AdvancedBlock) :
    Exec Exn (Option (BlockInfo × Bytes)) × NetworkBlockSource :=
  match advanced with
  | .error e => (.throw e, s)
  | .ok advanced =>
    (.ok (some (advanced.bi, advanced.dump)), { s with nextBlockToRead := s.nextBlockToRead + 1 })

/-- `advancedBlocks.find(number)`. -/
def findBlock (number : ℕ) : Option (Except Exn AdvancedBlock) :=
  (s.advancedBlocks.find? (·.1 = number)).map (·.2)

/-- `process` if the next block is not loaded. -/
def loadAndProcess (calls : ℕ → P2PCalls × P2PCalls) :
    Exec Exn (Option (BlockInfo × Bytes)) × NetworkBlockSource :=
  let s := { s with advancedBlocks := [] }
  let countAdvanced :=
    min countAdvancedBlocks (s.lastBlockInBlockchain - s.nextBlockToRead + 1)
  if s.servers = [] then (.throw (.common "Servers empty"), s)
  else
    let (loaded, g) :=
      loadBlocks E s calls (List.range' s.nextBlockToRead countAdvanced) s.getterBlocks
    let s := { s with getterBlocks := g }
    match loaded >>= fun loaded => loaded.mapM (parseAdvanced E s) with
    | .ok advanced =>
      let s := { s with advancedBlocks := advanced }
      match s.findBlock s.nextBlockToRead with
      | some advanced => s.processAdvanced advanced
      | none => (.throw (.common "Incorrect results"), s)
    | r => (r >>= fun _ => .ok none, s)

/-- `process(bi, binaryDump)`: the block and its dump, if there is one. -/
def process (calls : ℕ → P2PCalls × P2PCalls) :
    Exec Exn (Option (BlockInfo × Bytes)) × NetworkBlockSource :=
  if s.lastBlockInBlockchain < s.nextBlockToRead then (.ok none, s)
  else
    match s.findBlock s.nextBlockToRead with
    | some advanced => s.processAdvanced advanced
    | none => loadAndProcess E s calls

end

/-! ## Blocks that are loaded -/

/-- The header and the dump come from calls of the getter, the dump under the hash of the header. -/
def Requested (E : SourceEnv) (isVerifySign : Bool) (header : MinimumBlockHeader) (dump : Bytes) :
    Prop :=
  (∃ g p2p blockNum maxBlockNum server,
    (Getter.getBlockHeader E.client.json g p2p blockNum maxBlockNum server).1 = .ok header) ∧
  ∃ g p2p servers,
    (Getter.getBlockDump E.client g p2p header.hash header.blockSize servers isVerifySign).1 = .ok dump

/-- What is known of a block that is loaded. -/
structure Fetched (E : SourceEnv) (isVerifySign : Bool) (a : AdvancedBlock) : Prop where
  /-- the dump was requested under the hash of the header, and its signature was checked -/
  dump : ∃ answer signBlock, Requested E isVerifySign a.header answer ∧
    openDump E isVerifySign answer = .ok signBlock ∧ a.dump = signBlock.block ∧
    a.bi.header.senderSign = signBlock.sign ∧ a.bi.header.senderPubkey = signBlock.pubkey ∧
    a.bi.header.senderAddress = signBlock.address
  size : a.dump.length = a.header.blockSize
  hash : a.bi.header.hash = E.libs.support.toHex (getDoubleSha256 E.libs.crypto a.dump).1

section
variable {E : SourceEnv} {s : NetworkBlockSource}

theorem readNextBlockInfo_hash {b : Buf} {L : Libs} {o : ReadOptions} {bi : BlockInfo}
    (h : readNextBlockInfo b L o = .ok bi) :
    bi.header.hash = L.support.toHex (getDoubleSha256 L.crypto b.bytes).1 := by
  have hload : (b.load b.beginPos b.bytes.length : Exec Exn Bytes) = .ok b.bytes :=
    Buf.load_standsAt b (standsAt_self b.bytes)
  obtain ⟨header, -, h⟩ := bind_eq_ok.1 h
  obtain ⟨bi', htxs, h⟩ := bind_eq_ok.1 h
  cases h
  rw [readBlockTxs, hload, ok_bind] at htxs
  obtain ⟨loop, -, htxs⟩ := bind_eq_ok.1 htxs
  obtain ⟨signature, -, htxs⟩ := bind_eq_ok.1 htxs
  cases htxs
  dsimp only
  split_ifs <;> rfl

theorem loadBlock_requested {g : Getter} {p2p : P2PCalls × P2PCalls} {currBlock : ℕ}
    {header : MinimumBlockHeader} {dump : Bytes}
    (h : (loadBlock E s g p2p currBlock).1 = .ok (.ok (header, dump))) :
    Requested E s.isVerifySign header dump := by
  rw [loadBlock] at h
  split at h
  · rename_i header' g' hheader
    obtain ⟨dump', hdump, heq⟩ := bind_eq_ok.1 (attempt_eq_ok.1 h)
    cases heq
    exact ⟨⟨g, p2p.1, currBlock, s.lastBlockInBlockchain, s.servers.headD [], by rw [hheader]⟩,
      g', p2p.2, s.servers, hdump⟩
  · rename_i r g' hne hheader
    obtain ⟨header', hr, -⟩ := bind_eq_ok.1 (attempt_eq_ok.1 h)
    exact absurd hr (hne header')

theorem loadBlocks_requested {calls : ℕ → P2PCalls × P2PCalls} {blocks : List ℕ} {g : Getter}
    {loaded : List (ℕ × Except Exn (MinimumBlockHeader × Bytes))}
    (h : (loadBlocks E s calls blocks g).1 = .ok loaded) {number : ℕ} {header : MinimumBlockHeader}
    {dump : Bytes} (hmem : (number, .ok (header, dump)) ∈ loaded) :
    Requested E s.isVerifySign header dump := by
  induction blocks generalizing g loaded with
  | nil =>
    cases h
    cases hmem
  | cons currBlock blocks ih =>
    rw [loadBlocks] at h
    split at h
    · rename_i block g' hblock
      obtain ⟨loaded', hloaded, heq⟩ := bind_eq_ok.1 h
      cases heq
      rcases List.mem_cons.1 hmem with heq | hmem
      · cases heq
        exact loadBlock_requested (by rw [hblock])
      · exact ih hloaded hmem
    · rename_i r g' hne hblock
      obtain ⟨block, hr, -⟩ := bind_eq_ok.1 h
      exact absurd hr (hne block)

theorem vector_bytes {M : Allocator} {bytes : Bytes} {b : Buf} (h : M.vector bytes = .ok b) :
    b.bytes = bytes := by
  rw [Allocator.vector] at h
  split_ifs at h
  cases h
  rfl

theorem parseBlock_fetched {header : MinimumBlockHeader} {dump : Bytes} {a : AdvancedBlock}
    (h : parseBlock E s header dump = .ok a) (hreq : Requested E s.isVerifySign header dump) :
    a.header = header ∧ Fetched E s.isVerifySign a := by
  obtain ⟨signBlock, hopen, h⟩ := bind_eq_ok.1 h
  obtain ⟨_, hsize, h⟩ := bind_eq_ok.1 h
  obtain ⟨buf, hbuf, h⟩ := bind_eq_ok.1 h
  obtain ⟨bi, hbi, h⟩ := bind_eq_ok.1 h
  cases h
  have hhash := readNextBlockInfo_hash hbi
  rw [vector_bytes hbuf] at hhash
  exact ⟨rfl, ⟨dump, signBlock, hreq, hopen, rfl, rfl, rfl, rfl⟩, check_eq_ok hsize, hhash⟩

theorem parseAdvanced_fetched {p : ℕ × Except Exn (MinimumBlockHeader × Bytes)} {number : ℕ}
    {a : AdvancedBlock} (h : parseAdvanced E s p = .ok (number, .ok a))
    (hreq : ∀ header dump, p.2 = .ok (header, dump) → Requested E s.isVerifySign header dump) :
    Fetched E s.isVerifySign a := by
  rcases p with ⟨number', e | ⟨header, dump⟩⟩
  · cases h
  · obtain ⟨advanced, hadvanced, heq⟩ := bind_eq_ok.1 h
    cases heq
    exact (parseBlock_fetched (attempt_eq_ok.1 hadvanced) (hreq header dump rfl)).2

/-- The blocks that wait for their turn are as they were fetched. -/
def Inv (E : SourceEnv) (s : NetworkBlockSource) : Prop :=
  ∀ number a, (number, .ok a) ∈ s.advancedBlocks → Fetched E s.isVerifySign a

theorem mem_of_findBlock {number : ℕ} {advanced : Except Exn AdvancedBlock}
    (h : s.findBlock number = some advanced) : (number, advanced) ∈ s.advancedBlocks := by
  obtain ⟨⟨number', advanced'⟩, hfind, heq⟩ := Option.map_eq_some_iff.1 h
  have hnumber := List.find?_some hfind
  simp only [decide_eq_true_eq] at hnumber heq
  rw [← hnumber, ← heq]
  exact List.mem_of_find?_eq_some hfind

/-- What a call of `process` leaves: a block that is delivered is one of the fetched ones. -/
structure Processed (E : SourceEnv) (s : NetworkBlockSource)
    (r : Exec Exn (Option (BlockInfo × Bytes)) × NetworkBlockSource) : Prop where
  inv : Inv E r.2
  isVerifySign : r.2.isVerifySign = s.isVerifySign
  delivered : ∀ bi dump, r.1 = .ok (some (bi, dump)) →
    ∃ h, (s.nextBlockToRead, .ok ⟨h, bi, dump⟩) ∈ r.2.advancedBlocks

theorem processAdvanced_processed (hinv : Inv E s) {advanced : Except Exn AdvancedBlock}
    (h : s.findBlock s.nextBlockToRead = some advanced) : Processed E s (s.processAdvanced advanced) := by
  rcases advanced with e | a
  · exact ⟨hinv, rfl, fun _ _ h => by cases h⟩
  · refine ⟨hinv, rfl, fun bi dump heq => ?_⟩
    cases heq
    exact ⟨a.header, mem_of_findBlock h⟩

theorem loadAndProcess_processed (calls : ℕ → P2PCalls × P2PCalls) :
    Processed E s (loadAndProcess E s calls) := by
  have hnil : ∀ g : Getter, Inv E { s with advancedBlocks := [], getterBlocks := g } :=
    fun _ _ _ h => by cases h
  rw [loadAndProcess]
  split_ifs
  · exact ⟨hnil s.getterBlocks, rfl, fun _ _ h => by cases h⟩
  · dsimp only
    split
    · rename_i advanced hadvanced
      obtain ⟨loaded, hloaded, hparse⟩ := bind_eq_ok.1 hadvanced
      have hinv : Inv E { s with
          getterBlocks := (loadBlocks E { s with advancedBlocks := [] } calls
            (List.range' s.nextBlockToRead (min countAdvancedBlocks
              (s.lastBlockInBlockchain - s.nextBlockToRead + 1))) s.getterBlocks).2
          advancedBlocks := advanced } := by
        intro number a hmem
        obtain ⟨p, hp, hparsed⟩ := mem_of_mapM_eq_ok hparse hmem
        refine parseAdvanced_fetched hparsed fun header dump heq => ?_
        rcases p with ⟨number', block⟩
        cases heq
        exact loadBlocks_requested hloaded hp
      split
      · rename_i block hblock
        have hprocess := processAdvanced_processed hinv hblock
        exact ⟨hprocess.inv, hprocess.isVerifySign, hprocess.delivered⟩
      · exact ⟨hinv, rfl, fun _ _ h => by cases h⟩
    · rename_i r hne
      refine ⟨hnil _, rfl, fun bi dump h => ?_⟩
      obtain ⟨advanced, hr, -⟩ := bind_eq_ok.1 h
      exact absurd hr (hne advanced)

/-- One block is loaded and delivered. -/
theorem loadAndProcess_one (calls : ℕ → P2PCalls × P2PCalls) {header : MinimumBlockHeader}
    {dump : Bytes} {a : AdvancedBlock} (hservers : s.servers ≠ [])
    (hlast : s.lastBlockInBlockchain = s.nextBlockToRead)
    (hload : (loadBlock E s s.getterBlocks (calls s.nextBlockToRead) s.nextBlockToRead).1 =
      .ok (.ok (header, dump))) (hparse : parseBlock E s header dump = .ok a) :
    ∃ s', loadAndProcess E s calls = (.ok (some (a.bi, a.dump)), s') ∧
      (s.nextBlockToRead, .ok a) ∈ s'.advancedBlocks := by
  obtain ⟨g, hg⟩ : ∃ g, loadBlock E { s with advancedBlocks := [] } s.getterBlocks
      (calls s.nextBlockToRead) s.nextBlockToRead = (.ok (.ok (header, dump)), g) :=
    ⟨_, Prod.ext hload rfl⟩
  have hblocks : loadBlocks E { s with advancedBlocks := [] } calls [s.nextBlockToRead]
      s.getterBlocks = (.ok [(s.nextBlockToRead, .ok (header, dump))], g) := by
    rw [loadBlocks, hg]
    rfl
  have hparsed : [(s.nextBlockToRead, Except.ok (header, dump))].mapM
      (parseAdvanced E { s with advancedBlocks := [], getterBlocks := g }) =
        .ok [(s.nextBlockToRead, .ok a)] := by
    have hattempt : Exec.attempt (parseBlock E { s with advancedBlocks := [], getterBlocks := g }
        header dump) = .ok (.ok a) := attempt_eq_ok.2 hparse
    rw [List.mapM_cons, parseAdvanced, hattempt]
    rfl
  have hrange : List.range' s.nextBlockToRead
      (min countAdvancedBlocks (s.lastBlockInBlockchain - s.nextBlockToRead + 1)) =
        [s.nextBlockToRead] := by
    rw [hlast, Nat.sub_self]
    rfl
  refine ⟨{ s with
    getterBlocks := g
    advancedBlocks := [(s.nextBlockToRead, .ok a)]
    nextBlockToRead := s.nextBlockToRead + 1 }, ?_, List.mem_singleton_self _⟩
  rw [loadAndProcess, if_neg hservers]
  dsimp only
  rw [hrange, hblocks]
  dsimp only
  rw [ok_bind, hparsed]
  dsimp only [findBlock]
  rw [List.find?_cons_of_pos (by simp)]
  rfl

theorem process_processed (hinv : Inv E s) (calls : ℕ → P2PCalls × P2PCalls) :
    Processed E s (process E s calls) := by
  rw [process]
  split_ifs
  · exact ⟨hinv, rfl, fun _ _ h => by cases h⟩
  · split
    · rename_i advanced h
      exact processAdvanced_processed hinv h
    · exact loadAndProcess_processed calls

end

/-! ## Runs -/

/-- The calls of the node, with the answers of the peers. -/
inductive Call where
  | doProcess (countBlocks : ℕ) (lastBlock : LastBlockResponse)
  | process (calls : ℕ → P2PCalls × P2PCalls)

/-- The source after a call; there is none behind undefined behaviour. -/
def step (E : SourceEnv) (s : NetworkBlockSource) : Call → Option NetworkBlockSource
  | .doProcess countBlocks lastBlock => some (s.doProcess countBlocks lastBlock).2
  | .process calls =>
    match process E s calls with
    | (.ok _, s') => some s'
    | (.throw _, s') => some s'
    | _ => none

section
variable {E : SourceEnv}

theorem step_inv {s s' : NetworkBlockSource} {call : Call} (hinv : Inv E s)
    (h : step E s call = some s') : Inv E s' := by
  cases call with
  | doProcess countBlocks lastBlock =>
    cases h
    rw [doProcess]
    dsimp only
    split
    · exact hinv
    · exact fun _ _ h => by cases h
  | process calls =>
    have hprocess := (process_processed hinv calls).inv
    rw [step] at h
    split at h
    · rename_i hs
      cases h
      rwa [hs] at hprocess
    · rename_i hs
      cases h
      rwa [hs] at hprocess
    · cases h

end

/-! ## One dump under two hashes -/

/-- A block without transactions. -/
def emptyBlock : Format.Block where
  blockType := 0
  timestamp := 0
  prevHash := ⟨List.replicate 32 0, Format.length_zeros⟩
  txsHash := ⟨List.replicate 32 0, Format.length_zeros⟩
  txs := []

theorem emptyBlock_length : emptyBlock.encode.length = 81 := by decide +kernel

/-- The writer of rapidjson. -/
def plainJson : JsonUtils := JsonUtils.compact fun _ => true

/-- The client; new objects begin at the address 0. -/
def plainEnv (libs : Libs) : SourceEnv where
  client := {
    json := plainJson
    decompress := id
    fuel := 0 }
  libs := libs
  memory := {
    addr := fun _ => 0
    room := room_zero }

/-- A source that loads one block. -/
def plainSource : NetworkBlockSource where
  folderPath := lit "blocks"
  saveAllTx := false
  isValidate := false
  isVerifySign := false
  getterBlocks := { maxAdvancedLoadBlocks := 1, countBlocksInBatch := 1, isCompress := false }

/-- A header of the first block. -/
def firstHeader (hash : Bytes) : MinimumBlockHeader where
  number := 1
  blockSize := 81
  hash := hash
  parentHash := []
  fileName := lit "a"

/-- The text of the header. -/
def firstAnswer (hash : Bytes) : Bytes :=
  (Json.obj [(lit "result", .obj [(lit "hash", .str hash), (lit "prev_hash", .str []),
    (lit "number", .int 1), (lit "size", .int 81), (lit "fileName", .str (lit "a"))])]).write

/-- A server that sends the header and the block without transactions. -/
def firstCalls (hash : Bytes) : P2PCalls × P2PCalls :=
  let answer (bs : Bytes) : P2PCalls := {
    requests := fun _ _ _ _ => .ok [cutString bs]
    request := fun _ _ _ _ _ => .ok (cutString bs) }
  (answer (firstAnswer hash), answer emptyBlock.encode)

/-- The source with one block to load. -/
def readySource : NetworkBlockSource :=
  (plainSource.doProcess 0 { lastBlock := 1, servers := [lit "peer"], error := none }).2

section
variable (libs : Libs) (hash : Bytes)

theorem firstHeader_loaded
    (hparse : parseBlockHeader plainJson (cutString (firstAnswer hash)).1 =
      .ok (firstHeader hash)) :
    readySource.getterBlocks.getBlockHeader (plainEnv libs).client.json (firstCalls hash).1 1 1
      (lit "peer") = (.ok (firstHeader hash), { readySource.getterBlocks with
        advancedLoadsBlocksHeaders := [(1, firstHeader hash)] }) := by
  have hfill : ∀ i a, [cutString (firstAnswer hash)][i]? = some a →
      Fills (plainEnv libs).client.json 1 1 1 (fun _ => firstHeader hash) i a.1 := by
    intro i a ha
    rcases i with _ | i
    · obtain rfl : cutString (firstAnswer hash) = a := by simpa using ha
      exact fills_of_parse_one rfl hparse
    · simp at ha
  have hbatch : 0 < readySource.getterBlocks.countBlocksInBatch := by decide
  have hcount : 0 < readySource.getterBlocks.countBlocks 1 1 := by decide
  have hrequests : readySource.getterBlocks.requestHeaders (firstCalls hash).1 1 1 (lit "peer") =
      .ok [cutString (firstAnswer hash)] := requestHeaders_eq hbatch hcount rfl rfl
  rw [getBlockHeader_miss (by intro p hp; cases hp)]
  exact loadBlockHeaders_fill hbatch hcount hrequests rfl hfill

/-- The getter with the header of the first block. -/
def headerGetter (hash : Bytes) : Getter :=
  { readySource.getterBlocks with advancedLoadsBlocksHeaders := [(1, firstHeader hash)] }

theorem emptyBlock_loaded (servers : List Bytes) :
    ((headerGetter hash).getBlockDump (plainEnv libs).client (firstCalls hash).2 hash 81 servers
      false).1 = .ok emptyBlock.encode := by
  have hlength : emptyBlock.encode.length ≤ maxSize := by
    rw [emptyBlock_length, maxSize]
    omega
  have hashes : (headerGetter hash).blocksHashs hash = [hash] := by
    simp [Getter.blocksHashs, headerGetter, firstHeader, maxBlockSizeWithoutAdvance]
  have hempty : (headerGetter hash).advancedLoadsBlocksDumps.lookup hash = none := rfl
  have hgetter : { headerGetter hash with advancedLoadsBlocksDumps := ∅ } = headerGetter hash := rfl
  have hrequests : (headerGetter hash).requestDumps (plainEnv libs).client (firstCalls hash).2 [hash]
      servers false = .ok [cutString emptyBlock.encode] := by
    have hanswer : ∀ parts request parse servers,
        (firstCalls hash).2.requests parts request parse servers = .ok [cutString emptyBlock.encode] :=
      fun _ _ _ _ => rfl
    have hparts : [cutString emptyBlock.encode].length =
        countParts (headerGetter hash).countBlocksInBatch [hash].length := by
      show 1 = countParts 1 1
      decide
    rw [Getter.requestDumps, hanswer, ok_bind, check_of hparts, ok_bind]
    rfl
  have hresponses : addResponses (plainEnv libs).client (headerGetter hash) [hash] 0
      [cutString emptyBlock.encode] ∅ = (.ok (), (∅ : Finmap fun _ : Bytes => Bytes).insert hash
        (cutString emptyBlock.encode).1) := rfl
  rw [Getter.getBlockDump, hempty]
  dsimp only
  rw [if_neg (by decide), Getter.loadBlockDumps, hgetter]
  dsimp only
  rw [hashes, if_neg (by simp), if_neg (show (headerGetter hash).countBlocksInBatch ≠ 0 from one_ne_zero),
    hrequests]
  dsimp only
  rw [hresponses]
  dsimp only
  rw [Finmap.lookup_insert, Option.getD_some, cutString_val hlength]

theorem loadBlock_first
    (hparse : parseBlockHeader plainJson (cutString (firstAnswer hash)).1 =
      .ok (firstHeader hash)) :
    (loadBlock (plainEnv libs) readySource readySource.getterBlocks (firstCalls hash) 1).1 =
      .ok (.ok (firstHeader hash, emptyBlock.encode)) := by
  have hheader := firstHeader_loaded libs hash hparse
  have hdump := emptyBlock_loaded libs hash readySource.servers
  rw [loadBlock, show readySource.lastBlockInBlockchain = 1 from rfl,
    show readySource.servers.headD [] = lit "peer" from rfl, hheader]
  exact attempt_eq_ok.2 (bind_eq_ok.2 ⟨_, hdump, rfl⟩)

/-- The block is parsed, whatever hash its header has. -/
theorem parseBlock_first :
    ∃ a, parseBlock (plainEnv libs) readySource (firstHeader hash) emptyBlock.encode = .ok a ∧
      a.header = firstHeader hash ∧ a.dump = emptyBlock.encode := by
  let m : Format.LoadedBlock := {
    toBlock := emptyBlock
    beginPos := 0
    inUserSpace := by rw [emptyBlock_length]; omega }
  obtain ⟨bi, hbi, -⟩ := (Format.readNextBlockInfo_encode_iff libs m 0 false).2 (by intro tx htx; cases htx)
  have hbuf : (plainEnv libs).memory.vector emptyBlock.encode = .ok m.buf := by
    rw [Allocator.vector, dif_pos (by rw [emptyBlock_length]; omega)]
    rfl
  refine ⟨⟨firstHeader hash, { bi with header := { bi.header with
    filePos := { bi.header.filePos with
      fileName := getFullPath (getBasename (lit "a")) (lit "blocks") }
    senderSign := []
    senderPubkey := []
    senderAddress := [] } }, emptyBlock.encode⟩, ?_, rfl, rfl⟩
  rw [parseBlock, show openDump (plainEnv libs) readySource.isVerifySign emptyBlock.encode =
    .ok { block := emptyBlock.encode, sign := [], pubkey := [], address := [] } from rfl, ok_bind]
  dsimp only
  rw [check_of (show emptyBlock.encode.length = (firstHeader hash).blockSize from emptyBlock_length),
    ok_bind, hbuf, ok_bind]
  exact bind_eq_ok.2 ⟨bi, hbi, rfl⟩

/-- **A dump is delivered under any hash.** -/
theorem process_first
    (hparse : parseBlockHeader plainJson (cutString (firstAnswer hash)).1 =
      .ok (firstHeader hash)) :
    ∃ bi s', process (plainEnv libs) readySource (fun _ => firstCalls hash) =
      (.ok (some (bi, emptyBlock.encode)), s') ∧
      (1, .ok ⟨firstHeader hash, bi, emptyBlock.encode⟩) ∈ s'.advancedBlocks := by
  obtain ⟨a, ha, hheader, hdump⟩ := parseBlock_first libs hash
  have hprocess : process (plainEnv libs) readySource (fun _ => firstCalls hash) =
      loadAndProcess (plainEnv libs) readySource fun _ => firstCalls hash := by
    rw [process, if_neg (by decide)]
    rfl
  obtain ⟨s', hs', hmem⟩ := loadAndProcess_one (fun _ => firstCalls hash) (by decide) (by decide)
    (loadBlock_first libs hash hparse) ha
  rw [hdump] at hs'
  refine ⟨a.bi, s', hprocess.trans hs', ?_⟩
  rw [← hdump, ← hheader]
  exact hmem

end

/-- The peers announce one block. -/
def announceOne : Call := .doProcess 0 { lastBlock := 1, servers := [lit "peer"], error := none }

/-- SHA-256 on the block without transactions. -/
def emptyBlockLibs : Libs where
  crypto := { Sample.crypto with
    sha256 := fun bs => ⟨beBytes 32 (
      if bs = emptyBlock.encode then
        0x6778c7c7b6b6c1c273e668169a7652a681da86ad62d03f7c5aa120405069feb2
      else 0x23db0e431faac6275c1c8460be25923281367e6a134f65376a447e1c3b188888), beBytes_length _ _⟩ }
  support := Sample.support
  json := { parse := fun _ => none }

/-- In every run, a block that is delivered has the hash of its header. -/
def Authenticated (E : SourceEnv) (s₀ : NetworkBlockSource) : Prop :=
  ∀ run s calls bi dump s', Machine.runs (step E) s₀ run = some s →
    process E s calls = (.ok (some (bi, dump)), s') →
    ∀ header, (s.nextBlockToRead, .ok ⟨header, bi, dump⟩) ∈ s'.advancedBlocks →
      bi.header.hash = header.hash

end NetworkBlockSource

end TorrentNode
