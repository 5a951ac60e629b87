/-
  Loading headers and dumps from servers (`GetNewBlocksFromServers.cpp`).

  Headers and dumps are requested in batches, for several blocks in advance, and
  kept in two caches.  A call that throws leaves in the caches what it has put
  there.  The answers come from `P2PCalls`, one for each call: a request of the
  peers, which may give anything or throw.  Block numbers and counts do not wrap.
-/
import TorrentNode.GenerateJson
import TorrentNode.GenerateJson.Headers
import TorrentNode.P2P.Process

open Wire Exec

namespace TorrentNode

open P2P (ResponseParse)

/-! ## Requests -/

/-- `p2p.requests` and `p2p.request` in one call of a function of `GetNewBlocksFromServer`. -/
structure P2PCalls where
  requests : ℕ → (ℕ → Exec Exn (Bytes × Bytes)) → (Bytes → Exec Exn ResponseParse) → List Bytes →
    Exec Exn (List StdString)
  request : ℕ → Bool → (ℕ → ℕ → Bytes × Bytes) → (Bytes → Exec Exn ResponseParse) → List Bytes →
    Exec Exn StdString

namespace GetNewBlocksFromServer

/-- `ESTIMATE_SIZE_SIGNATURE`. -/
def estimateSizeSignature : ℕ := 250

/-- `MAX_BLOCK_SIZE_WITHOUT_ADVANCE`. -/
def maxBlockSizeWithoutAdvance : ℕ := 100 * 1000

/-- `(flag ? "true" : "false")`. -/
def boolText (b : Bool) : Bytes := if b then lit "true" else lit "false"

/-- The request for a header. -/
def makeRequestForBlock (number : ℕ) : Bytes × Bytes :=
  (lit "get-block-by-number",
    lit "\x7b\"id\":1,\"params\":\x7b\"number\": " ++ (Json.decimal number ++
      lit ", \"type\": \"forP2P\"\x7d\x7d"))

/-- The request for several headers. -/
def makeRequestForBlocks (beginBlock countBlocks : ℕ) : Bytes × Bytes :=
  (lit "get-blocks",
    lit "\x7b\"id\":1,\"params\":\x7b\"beginBlock\": " ++ (Json.decimal beginBlock ++
      (lit ", \"countBlocks\": " ++ (Json.decimal countBlocks ++
        lit ", \"type\": \"forP2P\", \"direction\": \"forward\"\x7d\x7d"))))

/-- `makeRequestForDumpBlock(blockHash, fromByte, toByte)`. -/
def makeRequestForDumpBlock (blockHash : Bytes) (fromByte toByte : ℕ) : Bytes × Bytes :=
  (lit "get-dump-block-by-hash",
    lit "\x7b\"id\":1,\"params\":\x7b\"hash\": \"" ++ (blockHash ++
      (lit "\" , \"fromByte\": " ++ (Json.decimal fromByte ++
        (lit ", \"toByte\": " ++ (Json.decimal toByte ++ lit ", \"isHex\": false\x7d\x7d"))))))

/-- `makeRequestForDumpBlockSign(blockHash, fromByte, toByte)`. -/
def makeRequestForDumpBlockSign (blockHash : Bytes) (fromByte toByte : ℕ) : Bytes × Bytes :=
  (lit "get-dump-block-by-hash",
    lit "\x7b\"id\":1,\"params\":\x7b\"hash\": \"" ++ (blockHash ++
      (lit "\" , \"fromByte\": " ++ (Json.decimal fromByte ++
        (lit ", \"toByte\": " ++ (Json.decimal toByte ++
          (lit "\", \"isHex\": false, \"isSign\": true, " ++
            (lit "\"compress\": " ++ (lit "false" ++ lit "\x7d\x7d")))))))))

/-- The request for the dump of one block of a batch. -/
def makeRequestForDump (blockHash : Bytes) (isSign isCompress : Bool) : Bytes × Bytes :=
  (lit "get-dump-block-by-hash",
    lit "\x7b\"id\":1,\"params\":\x7b\"hash\": \"" ++ (blockHash ++
      (lit "\" , \"isHex\": false, " ++ (lit "\"isSign\": " ++ (boolText isSign ++
        (lit ", \"compress\": " ++ (boolText isCompress ++ lit "\x7d\x7d")))))))

/-- The loop over the hashes of a batch. -/
def hashesText : List Bytes → Bytes
  | [] => []
  | [hash] => lit "\"" ++ (hash ++ lit "\"")
  | hash :: hashes => lit "\"" ++ (hash ++ (lit "\"" ++ (lit ", " ++ hashesText hashes)))

/-- The request for the dumps of a batch. -/
def makeRequestForDumps (hashes : List Bytes) (isSign isCompress : Bool) : Bytes × Bytes :=
  (lit "get-dumps-blocks-by-hash",
    lit "\x7b\"id\":1,\"params\":\x7b\"hashes\": [" ++ (hashesText hashes ++
      (lit "], \"isSign\": " ++ (boolText isSign ++
        (lit ", \"compress\": " ++ (boolText isCompress ++ lit "\x7d\x7d"))))))

/-! ## Headers -/

/-- The fields of `GetNewBlocksFromServer`. -/
structure Getter where
  maxAdvancedLoadBlocks : ℕ
  countBlocksInBatch : ℕ
  isCompress : Bool
  advancedLoadsBlocksHeaders : List (ℕ × MinimumBlockHeader) := []
  advancedLoadsBlocksDumps : Finmap fun _ : Bytes => Bytes := ∅

/-- The number of blocks in part `i` of `countBlocks` blocks. -/
def blocksInPart (countBlocksInBatch countBlocks i : ℕ) : ℕ :=
  min countBlocksInBatch (countBlocks - i * countBlocksInBatch)

/-- `(countBlocks + countBlocksInBatch - 1) / countBlocksInBatch`. -/
def countParts (countBlocksInBatch countBlocks : ℕ) : ℕ :=
  (countBlocks + countBlocksInBatch - 1) / countBlocksInBatch

/-- `makeQsAndPost` of `getBlockHeader`. -/
def makeHeadersRequest (blockNum countBlocksInBatch maxCountBlocks number : ℕ) : Bytes × Bytes :=
  let beginBlock := blockNum + number * countBlocksInBatch
  let countBlocks := blocksInPart countBlocksInBatch maxCountBlocks number
  if countBlocks ≠ 1 then makeRequestForBlocks beginBlock countBlocks
  else makeRequestForBlock (blockNum + number)

/-- `clearAdvanced()`. -/
def Getter.clearAdvanced (g : Getter) : Getter :=
  { g with advancedLoadsBlocksHeaders := [], advancedLoadsBlocksDumps := ∅ }

/-- The cache of headers with the headers of an answer; the next one has the number `blockNum`. -/
def addHeaders : ℕ → List MinimumBlockHeader → List (ℕ × MinimumBlockHeader) →
    Exec Exn Unit × List (ℕ × MinimumBlockHeader)
  | _, [], headers => (.ok (), headers)
  | blockNum, block :: blocks, headers =>
    if block.number ≠ blockNum then
      (.throw (.common ("Incorrect block number in answer: " ++ toString block.number ++ " " ++
        toString blockNum)), headers)
    else addHeaders (blockNum + 1) blocks (headers ++ [(blockNum, block)])

section
variable (J : JsonUtils)

/-- The cache of headers with answer `i`. -/
def addAnswer (blockNum countBlocksInBatch countBlocks i : ℕ) (answer : Bytes)
    (headers : List (ℕ × MinimumBlockHeader)) : Exec Exn Unit × List (ℕ × MinimumBlockHeader) :=
  let currBlockNum := blockNum + i * countBlocksInBatch
  let blocksInPart := blocksInPart countBlocksInBatch countBlocks i
  if blocksInPart ≠ 1 then
    match parseBlocksHeader J answer with
    | .ok blocks =>
      if blocks.length ≠ blocksInPart then (.throw (.common "Incorrect answers"), headers)
      else addHeaders currBlockNum blocks headers
    | r => (r >>= fun _ => .ok (), headers)
  else
    match parseBlockHeader J answer with
    | .ok block => (.ok (), headers ++ [(currBlockNum, block)])
    | r => (r >>= fun _ => .ok (), headers)

/-- The loop of `getBlockHeader` over the answers. -/
def addAnswers (blockNum countBlocksInBatch countBlocks : ℕ) : ℕ → List StdString →
    List (ℕ × MinimumBlockHeader) → Exec Exn Unit × List (ℕ × MinimumBlockHeader)
  | _, [], headers => (.ok (), headers)
  | i, answer :: answers, headers =>
    match addAnswer J blockNum countBlocksInBatch countBlocks i answer.1 headers with
    | (.ok (), headers) => addAnswers blockNum countBlocksInBatch countBlocks (i + 1) answers headers
    | r => r

/-- The parser of the answers with headers: it leaves them as they are. -/
def parseNothing (result : Bytes) : Exec Exn ResponseParse :=
  .ok { response := result, error := none }

/-- The number of blocks `getBlockHeader` loads. -/
def Getter.countBlocks (g : Getter) (blockNum maxBlockNum : ℕ) : ℕ :=
  min (maxBlockNum - blockNum + 1) g.maxAdvancedLoadBlocks

/-- `countParts` of `getBlockHeader`. -/
def Getter.headerParts (g : Getter) (blockNum maxBlockNum : ℕ) : ℕ :=
  countParts g.countBlocksInBatch (g.countBlocks blockNum maxBlockNum)

/-- The answers to the requests of `getBlockHeader`. -/
def Getter.requestHeaders (g : Getter) (p2p : P2PCalls) (blockNum maxBlockNum : ℕ) (server : Bytes) :
    Exec Exn (List StdString) := do
  let countBlocks := g.countBlocks blockNum maxBlockNum
  let countParts := g.headerParts blockNum maxBlockNum
  check (countBlocks ≠ 0 ∧ countParts ≠ 0) "Incorrect count blocks"
  let answer ← p2p.requests countParts
    (fun number => .ok (makeHeadersRequest blockNum g.countBlocksInBatch countBlocks number))
    parseNothing [server]
  check (answer.length = countParts) "Incorrect answer"
  return answer

/-- `getBlockHeader` if the header is not in the cache. -/
def Getter.loadBlockHeaders (g : Getter) (p2p : P2PCalls) (blockNum maxBlockNum : ℕ) (server : Bytes) :
    Exec Exn MinimumBlockHeader × Getter :=
  let g := { g with advancedLoadsBlocksHeaders := [] }
  if g.countBlocksInBatch = 0 then (.undef .divideByZero, g)
  else
    match g.requestHeaders p2p blockNum maxBlockNum server with
    | .ok answer =>
      let (r, headers) := addAnswers J blockNum g.countBlocksInBatch
        (g.countBlocks blockNum maxBlockNum) 0 answer []
      (r >>= fun _ =>
        match headers.head? with
        | some (_, header) => .ok header
        | none => .undef .assertion,
        { g with advancedLoadsBlocksHeaders := headers })
    | r => (r >>= fun _ => .undef .assertion, g)

/-- `getBlockHeader(blockNum, maxBlockNum, server)`. -/
def Getter.getBlockHeader (g : Getter) (p2p : P2PCalls) (blockNum maxBlockNum : ℕ) (server : Bytes) :
    Exec Exn MinimumBlockHeader × Getter :=
  match g.advancedLoadsBlocksHeaders.find? (·.1 = blockNum) with
  | some (_, header) => (.ok header, g)
  | none => g.loadBlockHeaders J p2p blockNum maxBlockNum server

/-- `getBlockHeaderWithoutAdvanceLoad(blockNum, server)`, with `p2p.runOneRequest`. -/
def getBlockHeaderWithoutAdvanceLoad (runOneRequest : Bytes → Bytes × Bytes → Exec Exn StdString)
    (blockNum : ℕ) (server : Bytes) : Exec Exn MinimumBlockHeader := do
  let response ← runOneRequest server (makeRequestForBlock blockNum)
  parseBlockHeader J response.1

end

/-! ## Dumps -/

section
variable (J : JsonUtils)

/-- `parseDumpBlockResponse(result)`; only `common::exception` is caught. -/
def parseDumpBlockResponse (result : Bytes) : Exec Exn ResponseParse :=
  if result = [] then .ok { response := [], error := none }
  else if result.length ≤ 512 ∧ result.head? = some '{'.toUInt8 ∧
      result.getLast? = some '}'.toUInt8 then
    let parsed : Exec Exn Bytes := do
      let doc ← parseResponse J result
      let resultJson ← fieldAs asObject doc "result"
      fieldAs asString resultJson "dump"
    match parsed with
    | .ok response => .ok { response := response, error := none }
    | .throw (.common message) => .ok { response := [], error := some message }
    | r => r >>= fun response => .ok { response := response, error := none }
  else .ok { response := result, error := none }

end

/-- The libraries of the client; `parseDumpBlocksBinary` tests its loop condition at most `fuel`
    times. -/
structure ClientEnv where
  json : JsonUtils
  decompress : StdString → StdString
  fuel : ℕ

/-- `parseDumpBlockBinary(response, isCompress)`. -/
def parseDumpBlockBinary (decompress : StdString → StdString) (response : StdString)
    (isCompress : Bool) : Bytes :=
  (responseBytes decompress response isCompress).1

section
variable (E : ClientEnv)

/-- `getBlockDumpWithoutAdvancedLoad(blockHash, blockSize, hintsServers, isSign)`. -/
def getBlockDumpWithoutAdvancedLoad (p2p : P2PCalls) (blockHash : Bytes) (blockSize : ℕ)
    (hintsServers : List Bytes) (isSign : Bool) : Exec Exn StdString :=
  if !isSign then
    p2p.request blockSize true (makeRequestForDumpBlock blockHash) (parseDumpBlockResponse E.json)
      hintsServers
  else
    p2p.request (blockSize + estimateSizeSignature) false (makeRequestForDumpBlockSign blockHash)
      (parseDumpBlockResponse E.json) hintsServers

/-- The hashes of the blocks that are loaded with a block: from its header on, up to the first large
    block. -/
def Getter.blocksHashs (g : Getter) (blockHash : Bytes) : List Bytes :=
  ((g.advancedLoadsBlocksHeaders.dropWhile (·.2.hash ≠ blockHash)).takeWhile
    (·.2.blockSize ≤ maxBlockSizeWithoutAdvance)).map (·.2.hash)

/-- `makeQsAndPost` of `getBlockDump`. -/
def makeDumpsRequest (blocksHashs : List Bytes) (countBlocksInBatch : ℕ) (isSign isCompress : Bool)
    (number : ℕ) : Exec Exn (Bytes × Bytes) := do
  check (number * countBlocksInBatch < blocksHashs.length) "Incorrect number"
  let beginBlock := number * countBlocksInBatch
  let countBlocks := blocksInPart countBlocksInBatch blocksHashs.length number
  if countBlocks = 1 then return makeRequestForDump (blocksHashs.getD number []) isSign isCompress
  else
    return makeRequestForDumps ((blocksHashs.drop beginBlock).take countBlocks) isSign isCompress

/-- The cache of dumps with the dumps of a batch. -/
def addDumps : List Bytes → List Bytes → (Finmap fun _ : Bytes => Bytes) →
    Finmap fun _ : Bytes => Bytes
  | hash :: hashes, block :: blocks, dumps => addDumps hashes blocks (dumps.insert hash block)
  | _, _, dumps => dumps

/-- The cache of dumps with response `i`. -/
def addResponse (g : Getter) (blocksHashs : List Bytes) (i : ℕ) (response : StdString)
    (dumps : Finmap fun _ : Bytes => Bytes) : Exec Exn Unit × Finmap fun _ : Bytes => Bytes :=
  let beginBlock := i * g.countBlocksInBatch
  let blocksInPart := blocksInPart g.countBlocksInBatch blocksHashs.length i
  if blocksInPart = 1 then
    (.ok (), dumps.insert (blocksHashs.getD i [])
      (parseDumpBlockBinary E.decompress response g.isCompress))
  else
    match parseDumpBlocksBinary E.decompress E.fuel response g.isCompress with
    | .ok blocks =>
      if blocks.length ≠ blocksInPart ∨ blocksHashs.length < beginBlock + blocks.length then
        (.throw (.common "Incorrect answer"), dumps)
      else (.ok (), addDumps (blocksHashs.drop beginBlock) blocks dumps)
    | r => (r >>= fun _ => .ok (), dumps)

/-- The loop of `getBlockDump` over the responses. -/
def addResponses (g : Getter) (blocksHashs : List Bytes) : ℕ → List StdString →
    (Finmap fun _ : Bytes => Bytes) → Exec Exn Unit × Finmap fun _ : Bytes => Bytes
  | _, [], dumps => (.ok (), dumps)
  | i, response :: responses, dumps =>
    match addResponse E g blocksHashs i response dumps with
    | (.ok (), dumps) => addResponses g blocksHashs (i + 1) responses dumps
    | r => r

/-- The responses to the requests of `getBlockDump`. -/
def Getter.requestDumps (g : Getter) (p2p : P2PCalls) (blocksHashs hintsServers : List Bytes)
    (isSign : Bool) : Exec Exn (List StdString) := do
  let parts := countParts g.countBlocksInBatch blocksHashs.length
  let responses ← p2p.requests parts
    (makeDumpsRequest blocksHashs g.countBlocksInBatch isSign g.isCompress)
    (parseDumpBlockResponse E.json) hintsServers
  check (responses.length = parts) "Incorrect responses"
  return responses

/-- `getBlockDump` if the dump is to be loaded with others. -/
def Getter.loadBlockDumps (g : Getter) (p2p : P2PCalls) (blockHash : Bytes)
    (hintsServers : List Bytes) (isSign : Bool) : Exec Exn Bytes × Getter :=
  let g := { g with advancedLoadsBlocksDumps := ∅ }
  let blocksHashs := g.blocksHashs blockHash
  if blocksHashs = [] then (.throw (.common "advanced blocks not loaded"), g)
  else if g.countBlocksInBatch = 0 then (.undef .divideByZero, g)
  else
    match g.requestDumps E p2p blocksHashs hintsServers isSign with
    | .ok responses =>
      match addResponses E g blocksHashs 0 responses ∅ with
      | (.ok (), dumps) =>
        -- `advancedLoadsBlocksDumps[blockHash]` adds an empty dump if there is none
        let dump := (dumps.lookup blockHash).getD []
        (.ok dump, { g with advancedLoadsBlocksDumps := dumps.insert blockHash dump })
      | (r, dumps) => (r >>= fun _ => .ok [], { g with advancedLoadsBlocksDumps := dumps })
    | r => (r >>= fun _ => .ok [], g)

/-- `getBlockDump(blockHash, blockSize, hintsServers, isSign)`. -/
def Getter.getBlockDump (g : Getter) (p2p : P2PCalls) (blockHash : Bytes) (blockSize : ℕ)
    (hintsServers : List Bytes) (isSign : Bool) : Exec Exn Bytes × Getter :=
  match g.advancedLoadsBlocksDumps.lookup blockHash with
  | some dump => (.ok dump, g)
  | none =>
    if maxBlockSizeWithoutAdvance < blockSize then
      ((getBlockDumpWithoutAdvancedLoad E p2p blockHash blockSize hintsServers isSign) >>= fun dump =>
        .ok dump.1, g)
    else g.loadBlockDumps E p2p blockHash hintsServers isSign

end

end GetNewBlocksFromServer

end TorrentNode
