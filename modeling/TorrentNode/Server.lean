/-
  The request handlers of the server (`Server.cpp`): headers and dumps of blocks.

  A handler reads its parameters from the document of the request; a parameter
  that is missing or has another type gets a default.  `CHECK_USER` throws a
  `UserException`, which is answered with another code than the others.  What the
  handlers ask the node is `Sync`.

  `getBlockDumps_eq`: the handler of several dumps first decodes its parameters,
  and then serves them.
-/
import TorrentNode.GenerateJson.Headers

open Wire Exec

namespace TorrentNode

/-! ## The node -/

/-- What the handlers ask the node (`Sync`, `BlockChainReadInterface`). -/
structure Sync where
  countBlocks : ℕ
  getBlockNumber : ℕ → BlockHeader
  getBlockHash : Bytes → Exec Exn BlockHeader
  getBlockDump : BlockHeader → UInt64 → UInt64 → Bool → Bool → Exec Exn Bytes

namespace Server

/-- What a handler throws. -/
inductive ServerExn where
  | exn (e : Exn)
  | user (message : Bytes)
deriving DecidableEq

/-- A computation of the node inside a handler. -/
def lift {α : Type} : Exec Exn α → Exec ServerExn α
  | .ok a => .ok a
  | .throw e => .throw (.exn e)
  | .undef u => .undef u
  | .outOfFuel => .outOfFuel

/-- `CHECK(c, message)`. -/
def checkExn (c : Prop) [Decidable c] (message : String) : Exec ServerExn Unit :=
  Exec.check c (.exn (.common message))

/-- `CHECK_USER(c, message)`. -/
def checkUser (c : Prop) [Decidable c] (message : Bytes) : Exec ServerExn Unit :=
  Exec.check c (.user message)

/-- `CHECK_USER(json.HasMember(name) && ..., name + " field not found")`. -/
def userField {α : Type} (as : Json → Option α) (json : Json) (name : String) :
    Exec ServerExn α := do
  match ← memberAs as json name with
  | some a => return a
  | none => .throw (.user (lit name ++ lit " field not found"))

/-! ## Headers -/

/-- The texts of `BlockTypeInfo`. -/
def blockTypeOfString (typeString : Bytes) : Option BlockTypeInfo :=
  if typeString = lit "simple" then some .simple
  else if typeString = lit "forP2P" then some .forP2P
  else if typeString = lit "hashes" then some .hashes
  else if typeString = lit "full" then some .full
  else if typeString = lit "small" then some .small
  else none

/-- The numbers of `BlockTypeInfo`. -/
def blockTypeOfInt (typeInt : ℤ) : Option BlockTypeInfo :=
  if typeInt = 0 then some .simple
  else if typeInt = 4 then some .forP2P
  else if typeInt = 1 then some .hashes
  else if typeInt = 2 then some .full
  else if typeInt = 3 then some .small
  else none

/-- The parameter `type` of `getBlock`. -/
def blockType (jsonParams : Json) : Exec ServerExn BlockTypeInfo := do
  match ← memberAs asInt jsonParams "type" with
  | some typeInt => return (blockTypeOfInt typeInt).getD .simple
  | none =>
    match ← memberAs asString jsonParams "type" with
    | some typeString => return (blockTypeOfString typeString).getD .simple
    | none => return .simple

section
variable (S : Support) (sync : Sync)

/-- `getBlock` behind the header: the document, or nothing. -/
def blockResponse (requestId : RequestId) (bh : BlockHeader) (hashOrNumber : Bytes)
    (type : BlockTypeInfo) (version : JsonVersion) : Exec ServerExn (Option Json) :=
  if bh.blockNumber = none then
    return some (genErrorResponse requestId (-32603) (lit "block " ++ hashOrNumber ++ lit " not found"))
  else if type = .simple ∨ type = .forP2P ∨ type = .small then do
    let doc ← lift (blockHeaderToJson S requestId bh type version)
    return some doc
  else return none

/-- `getBlock<size_t>(requestId, doc, nameParam, sync, isFormat, version)`. -/
def getBlockByNumber (requestId : RequestId) (doc : Json) (nameParam : String)
    (version : JsonVersion) : Exec ServerExn (Option Json) := do
  let jsonParams ← userField asObject doc "params"
  let number ← userField asInt64 jsonParams nameParam
  let type ← blockType jsonParams
  blockResponse S requestId (sync.getBlockNumber (toSize number)) (Json.decimal (toSize number)) type
    version

/-- `getBlock<std::string>(requestId, doc, nameParam, sync, isFormat, version)`. -/
def getBlockByHash (requestId : RequestId) (doc : Json) (nameParam : String)
    (version : JsonVersion) : Exec ServerExn (Option Json) := do
  let jsonParams ← userField asObject doc "params"
  let hash ← userField asString jsonParams nameParam
  let type ← blockType jsonParams
  let bh ← lift (sync.getBlockHash hash)
  blockResponse S requestId bh hash type version

/-- The parameter `type` of `getBlocks`. -/
def blocksType (jsonParams : Json) : Exec ServerExn BlockTypeInfo := do
  match ← memberAs asString jsonParams "type" with
  | none => return .simple
  | some typeString =>
    if typeString = lit "simple" then return .simple
    else if typeString = lit "forP2P" then return .forP2P
    else if typeString = lit "small" then return .small
    else .throw (.user (lit "Incorrect block type: " ++ typeString))

/-- The numbers `first, first + 1, …` below `last`. -/
def numbersUp (first last : ℤ) : List ℤ :=
  (List.range (last - first).toNat).map fun k : ℕ => first + k

/-- The numbers `first, first - 1, …` above `last`. -/
def numbersDown (first last : ℤ) : List ℤ :=
  (List.range (first - last).toNat).map fun k : ℕ => first - k

/-- `getBlocks(requestId, doc, sync, isFormat, version)`. -/
def getBlocks (requestId : RequestId) (doc : Json) (version : JsonVersion) : Exec ServerExn Json := do
  let jsonParams ← userField asObject doc "params"
  let countBlocks := (← memberAs asInt jsonParams "countBlocks").getD 0
  let beginBlock := (← memberAs asInt jsonParams "beginBlock").getD 0
  checkUser (countBlocks ≤ 1000) (lit "Too many blocks")
  let type ← blocksType jsonParams
  let direction ← memberAs asString jsonParams "direction"
  -- `bhs.reserve(countBlocks)`
  Exec.check (0 ≤ countBlocks) (.exn (.std "vector::reserve"))
  let numbers :=
    if direction = some (lit "forward") then
      numbersUp beginBlock (min (sync.countBlocks + 1) (beginBlock + countBlocks))
    else
      numbersDown (sync.countBlocks - beginBlock) (max 0 (sync.countBlocks - beginBlock - countBlocks))
  lift (blockHeadersToJson S requestId (numbers.map fun i => sync.getBlockNumber (toSize i)) type version)

end

/-! ## Dumps -/

/-- The parameters of `getBlockDump`. -/
structure DumpQuery where
  hash : Bytes
  fromByte : UInt64 := 0
  toByte : UInt64 := UInt64.ofNat (2 ^ 64 - 1)
  isHex : Bool := false
  isSign : Bool := false
  isCompress : Bool := false
deriving DecidableEq

/-- The parameters of `getBlockDump<std::string>`. -/
def decodeBlockDump (doc : Json) (nameParam : String) : Exec ServerExn DumpQuery := do
  let jsonParams ← userField asObject doc "params"
  let hash ← userField asString jsonParams nameParam
  let fromByte ← memberAs asInt64 jsonParams "fromByte"
  let toByte ← memberAs asInt64 jsonParams "toByte"
  let isHex ← memberAs asBool jsonParams "isHex"
  let isSign ← memberAs asBool jsonParams "isSign"
  let isCompress ← memberAs asBool jsonParams "compress"
  return {
    hash := hash
    fromByte := (fromByte.map fun n => UInt64.ofNat (toSize n)).getD 0
    toByte := (toByte.map fun n => UInt64.ofNat (toSize n)).getD (UInt64.ofNat (2 ^ 64 - 1))
    isHex := isHex.getD false
    isSign := isSign.getD false
    isCompress := isCompress.getD false }

/-- The parameters of `getBlockDumps`. -/
structure DumpsQuery where
  hashes : List Bytes
  isSign : Bool := false
  isCompress : Bool := false
deriving DecidableEq

/-- `getJsonField<std::string>(json)`. -/
def getJsonField (json : Json) : Exec ServerExn Bytes :=
  match asString json with
  | some s => .ok s
  | none => .throw (.user (lit "field not found"))

/-- The parameters of `getBlockDumps` up to the elements of the array. -/
def readBlockDumps (doc : Json) (nameParam : String) : Exec ServerExn (List Json × Bool × Bool) := do
  let jsonParams ← userField asObject doc "params"
  let isSign ← memberAs asBool jsonParams "isSign"
  let isCompress ← memberAs asBool jsonParams "compress"
  match ← memberAs asArray jsonParams nameParam with
  | none => .throw (.user (lit "hashes field not found"))
  | some jsonVals => do
    checkUser (jsonVals.length ≤ 1000) (lit "Too many blocks")
    return (jsonVals, isSign.getD false, isCompress.getD false)

/-- The parameters of `getBlockDumps<std::string>`. -/
def decodeBlockDumps (doc : Json) (nameParam : String) : Exec ServerExn DumpsQuery := do
  let (jsonVals, isSign, isCompress) ← readBlockDumps doc nameParam
  let hashes ← jsonVals.mapM getJsonField
  return { hashes := hashes, isSign := isSign, isCompress := isCompress }

section
variable (J : JsonUtils) (compress : Bytes → Bytes) (sync : Sync)

/-- `genDumpBlockBinary(block, isCompress)`. -/
def genDumpBlockBinary (block : Bytes) (isCompress : Bool) : Bytes :=
  if isCompress then compress block else block

/-- `genDumpBlocksBinary(blocks, isCompress)`. -/
def genDumpBlocksBinary (blocks : List Bytes) (isCompress : Bool) : Bytes :=
  genDumpBlockBinary compress (blocks.flatMap serializeStringBigEndian) isCompress

/-- `getBlockDump` behind its parameters; `isFormat` and the id of the request are used for a dump in
    hexadecimal. -/
def serveBlockDump (requestId : RequestId) (q : DumpQuery) (isFormat : Bool) : Exec ServerExn Bytes := do
  let bh ← lift (sync.getBlockHash q.hash)
  checkExn (bh.blockNumber ≠ none) ("block " ++ text q.hash ++ " not found")
  let dump ← lift (sync.getBlockDump bh q.fromByte q.toByte q.isHex q.isSign)
  let res := genDumpBlockBinary compress dump q.isCompress
  checkExn (res ≠ []) ("block " ++ text q.hash ++ " not found")
  if q.isHex then
    return J.jsonToString
      (.obj (addIdToResponse requestId ++ [(lit "result", .obj [(lit "dump", .str res)])])) isFormat
  else return res

/-- `getBlockDump<std::string>(doc, requestId, nameParam, sync, isFormat)`. -/
def getBlockDump (requestId : RequestId) (doc : Json) (nameParam : String) (isFormat : Bool) :
    Exec ServerExn Bytes := do
  let q ← decodeBlockDump doc nameParam
  serveBlockDump J compress sync requestId q isFormat

/-- A dump of the list of `getBlockDumps`. -/
def serveDump (isSign : Bool) (hash : Bytes) : Exec ServerExn Bytes := do
  let bh ← lift (sync.getBlockHash hash)
  checkExn (bh.blockNumber ≠ none) ("block " ++ text hash ++ " not found")
  let res ← lift (sync.getBlockDump bh 0 (UInt64.ofNat (2 ^ 64 - 1)) false isSign)
  checkExn (res ≠ []) ("block " ++ text hash ++ " not found")
  return res

/-- `getBlockDumps<std::string>(doc, requestId, nameParam, sync)`. -/
def getBlockDumps (doc : Json) (nameParam : String) : Exec ServerExn Bytes := do
  let (jsonVals, isSign, isCompress) ← readBlockDumps doc nameParam
  let result ← jsonVals.mapM fun jsonVal => do
    let hash ← getJsonField jsonVal
    serveDump sync isSign hash
  return genDumpBlocksBinary compress result isCompress

/-- `getBlockDumps` behind its parameters. -/
def serveBlockDumps (q : DumpsQuery) : Exec ServerExn Bytes := do
  let result ← q.hashes.mapM (serveDump sync q.isSign)
  return genDumpBlocksBinary compress result q.isCompress

end

/-! ## Requests -/

/-- The id of a request. -/
def requestIdOf (doc : Json) : Exec ServerExn RequestId := do
  match ← memberAs asInt64 doc "id" with
  | some id => return .num (toSize id)
  | none =>
    match ← memberAs asString doc "id" with
    | some id => return .str id
    | none => return .notSet

/-- The version of the answer. -/
def versionOf (doc : Json) : Exec ServerExn JsonVersion := do
  match ← memberAs asString doc "version" with
  | some version =>
    return if version = lit "v2" ∨ version = lit "version2" then .v2 else .v1
  | none => return .v1

/-- The libraries of the server, and what it answers to the functions that are not modelled. -/
structure ServerEnv where
  json : JsonUtils
  support : Support
  compress : Bytes → Bytes
  others : Bytes → Json → RequestId → Exec ServerExn Bytes

section
variable (E : ServerEnv) (sync : Sync)

/-- The function `func` of `Server::run`. -/
def dispatch (func : Bytes) (doc : Json) (requestId : RequestId) (isFormat : Bool)
    (version : JsonVersion) : Exec ServerExn Bytes := do
  let response (answer : Option Json) : Bytes :=
    match answer with
    | some answer => E.json.jsonToString answer isFormat
    | none => []
  if func = lit "get-block-by-hash" then
    response <$> getBlockByHash E.support sync requestId doc "hash" version
  else if func = lit "get-block-by-number" then
    response <$> getBlockByNumber E.support sync requestId doc "number" version
  else if func = lit "get-blocks" then
    (response ∘ some) <$> getBlocks E.support sync requestId doc version
  else if func = lit "get-dump-block-by-hash" then
    getBlockDump E.json E.compress sync requestId doc "hash" isFormat
  else if func = lit "get-dumps-blocks-by-hash" then
    getBlockDumps E.compress sync doc "hashes"
  else E.others func doc requestId

/-- `Server::run` on a request with a body: the data of the response. -/
def run (func post : Bytes) : Exec Exn Bytes :=
  match Json.parse E.json.isDouble post with
  | none =>
    .ok (E.json.jsonToString (genErrorResponse .notSet (-32603)
      (lit "rapidjson parse error. Data: " ++ post)) false)
  | some doc =>
    match requestIdOf doc with
    | .ok requestId =>
      let answer : Exec ServerExn Bytes := do
        let version ← versionOf doc
        let isFormat ← memberAs asBool doc "pretty"
        dispatch E sync func doc requestId (isFormat.getD false) version
      match answer with
      | .ok response => .ok response
      | .throw (.exn (.common message)) =>
        .ok (E.json.jsonToString (genErrorResponse requestId (-32603) (lit message)) false)
      | .throw (.exn (.std what)) =>
        .ok (E.json.jsonToString (genErrorResponse requestId (-32603) (lit what)) false)
      | .throw (.user message) =>
        .ok (E.json.jsonToString (genErrorResponse requestId (-32602)
          (message ++ lit ". Url: /" ++ func)) false)
      | .undef u => .undef u
      | .outOfFuel => .outOfFuel
    | .undef u => .undef u
    | _ => .outOfFuel

end

/-- A server with the writer of rapidjson, without compression. -/
def ServerEnv.plain : ServerEnv where
  json := JsonUtils.compact fun _ => true
  support := {
    toHex bs := bs.flatMap hexByte
    fromHex bs := .ok (hex2binLoop bs)
    toLower bs := bs.map fun b => if 'A'.toUInt8 ≤ b ∧ b ≤ 'Z'.toUInt8 then b + 32 else b }
  compress := id
  others func _ _ := .throw (.user (lit "Incorrect func " ++ func))

section
variable (E : ServerEnv) (sync : Sync) (doc : Json) (requestId : RequestId) (isFormat : Bool)
  (version : JsonVersion)

theorem dispatch_blockByNumber :
    dispatch E sync (lit "get-block-by-number") doc requestId isFormat version =
      (fun answer : Option Json => match answer with
        | some answer => E.json.jsonToString answer isFormat
        | none => []) <$> getBlockByNumber E.support sync requestId doc "number" version := by
  rw [dispatch, if_neg (by decide +kernel), if_pos rfl]

theorem dispatch_blocks : dispatch E sync (lit "get-blocks") doc requestId isFormat version =
    (fun answer => E.json.jsonToString answer isFormat) <$>
      getBlocks E.support sync requestId doc version := by
  rw [dispatch, if_neg (by decide +kernel), if_neg (by decide +kernel), if_pos rfl]
  rfl

theorem dispatch_dump :
    dispatch E sync (lit "get-dump-block-by-hash") doc requestId isFormat version =
      getBlockDump E.json E.compress sync requestId doc "hash" isFormat := by
  rw [dispatch, if_neg (by decide +kernel), if_neg (by decide +kernel), if_neg (by decide +kernel),
    if_pos rfl]

theorem dispatch_dumps :
    dispatch E sync (lit "get-dumps-blocks-by-hash") doc requestId isFormat version =
      getBlockDumps E.compress sync doc "hashes" := by
  rw [dispatch, if_neg (by decide +kernel), if_neg (by decide +kernel), if_neg (by decide +kernel),
    if_neg (by decide +kernel), if_pos rfl]

end

/-! ## Decoding and serving -/

/-- The handler of several dumps serves the parameters it decodes. -/
theorem getBlockDumps_eq (compress : Bytes → Bytes) (sync : Sync) {doc : Json} {nameParam : String}
    {q : DumpsQuery} (h : decodeBlockDumps doc nameParam = .ok q) :
    getBlockDumps compress sync doc nameParam = serveBlockDumps compress sync q := by
  obtain ⟨⟨jsonVals, isSign, isCompress⟩, hread, h⟩ := bind_eq_ok.1 h
  obtain ⟨hashes, hhashes, h⟩ := bind_eq_ok.1 h
  cases h
  rw [getBlockDumps, hread, ok_bind]
  dsimp only
  rw [mapM_bind_eq (serveDump sync isSign) hhashes, serveBlockDumps]

end Server

end TorrentNode
