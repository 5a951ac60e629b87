/-
  All functions of the server (`Server.cpp`, `generate_json.cpp`): the state of the node,
  the statistics, and headers and dumps by number.

  `handle_answers_iff`: a request is answered exactly if its body is no document or an object;
  no handler fails in any other way.
  `numbers_agree_with_hashes`: after any calls of `addBlock`, what is asked by number is
  answered as if it had been asked by hash.
-/
import TorrentNode.BlockChain.Runs
import TorrentNode.BlockSource.Requests

open Wire Exec

namespace TorrentNode

namespace Server

/-! ## The answers -/

section
variable (J : JsonUtils)

/-- `genStatusResponse(requestId, version, gitHash)`. -/
def genStatusResponse (requestId : RequestId) (version gitHash : Bytes) : Bytes :=
  J.jsonToString (.obj (addIdToResponse requestId ++
    [(lit "result", .str (lit "ok")), (lit "version", .str version), (lit "git_hash", .str gitHash)])) false

/-- `genInfoResponse(requestId, version, privkey)`. -/
def genInfoResponse (requestId : RequestId) (version privkey : Bytes) : Bytes :=
  J.jsonToString (.obj (addIdToResponse requestId ++
    [(lit "result", .obj [(lit "version", .str version), (lit "mh_addr", .str privkey)])])) false

/-- `genStatisticResponse(statistic)`: the id of the request is not among its arguments. -/
def genStatisticResponse (statistic : ℕ) : Bytes :=
  J.jsonToString (.obj [(lit "result", .int statistic)]) false

/-- `genStatisticResponse(requestId, statistic, proc, memory, connections)`. -/
def genSystemResponse (requestId : RequestId) (statistic : ℕ) (proc : Bytes) (memory : ℕ)
    (connections : ℤ) : Bytes :=
  J.jsonToString (.obj (addIdToResponse requestId ++ [(lit "result", .obj [
    (lit "request_stat", .int statistic), (lit "proc", .double proc),
    (lit "memory", .str (Json.decimal memory)), (lit "connections", .int connections)])])) false

/-- `genCountBlockJson(requestId, countBlocks, isFormat, version)`. -/
def genCountBlockJson (requestId : RequestId) (countBlocks : ℕ) (isFormat : Bool)
    (version : JsonVersion) : Bytes :=
  J.jsonToString (.obj (addIdToResponse requestId ++ [(lit "result", .obj
    [(lit "count_blocks", intOrString countBlocks (decide (version = .v2)))])])) isFormat

end

/-! ## The technical statistics -/

/-- What the server reads of itself, of the system and of the clock. -/
structure ServerInfo where
  version : Bytes
  gitSha1 : Bytes
  serverPrivKey : Bytes
  /-- `smallRequestStatistics.getStatistic().stat` -/
  statistic : ℕ
  procLoad : Bytes
  totalSystemMemory : ℕ
  openedConnections : ℤ
  /-- `getTimestampMs(nowSystem())` -/
  nowTimestamp : ℤ
  verifyTechnicalAddressSign : Bytes → Bytes → Bytes → Exec Exn Bool

/-- The sign that a number of the standard library starts with, and what follows it. -/
def readSign : Bytes → Bool × Bytes
  | 45 :: rest => (true, rest)
  | 43 :: rest => (false, rest)
  | rest => (false, rest)

/-- The `long long` of a number; one out of range is an exception. -/
def toLongLong (value : ℤ) : Exec Exn ℤ :=
  if -2 ^ 63 ≤ value ∧ value < 2 ^ 63 then .ok value else .throw (.std "stoll")

/-- `std::stoll(str)`. -/
def stoll (str : Bytes) : Exec Exn ℤ :=
  let (isNegative, rest) := readSign (str.dropWhile fun c => c == 32 || (9 ≤ c && c ≤ 13))
  let digits := rest.takeWhile Json.isDigit
  if digits = [] then .throw (.std "stoll")
  else toLongLong (if isNegative then -Json.decimalValue digits else Json.decimalValue digits)

/-- `long long` has the difference of the timestamps, and its absolute value. -/
def InRange (nowTimestamp timestampLong : ℤ) : Prop :=
  -2 ^ 63 < nowTimestamp - timestampLong ∧ nowTimestamp - timestampLong < 2 ^ 63

instance (nowTimestamp timestampLong : ℤ) : Decidable (InRange nowTimestamp timestampLong) :=
  inferInstanceAs (Decidable (_ ∧ _))

/-- `std::abs(nowTimestamp - timestampLong)`; an overflow of signed numbers is undefined. -/
def timestampDistance (nowTimestamp timestampLong : ℤ) : Exec ServerExn ℤ :=
  if InRange nowTimestamp timestampLong then .ok |nowTimestamp - timestampLong| else .undef .assertion

section
variable (J : JsonUtils) (S : Support) (I : ServerInfo)

/-- The parameters of `get-statistic2`. -/
structure StatisticQuery where
  pubkey : Bytes
  sign : Bytes
  timestamp : Bytes
  timestampLong : ℤ

/-- The function `get-statistic2` up to the clock. -/
def readStatistic2 (doc : Json) : Exec ServerExn StatisticQuery := do
  let jsonParams ← userField asObject doc "params"
  let pubkey ← userField asString jsonParams "pubkey"
  let sign ← userField asString jsonParams "sign"
  let timestamp ← userField asString jsonParams "timestamp"
  let timestampLong ← lift (stoll timestamp)
  return ⟨pubkey, sign, timestamp, timestampLong⟩

/-- The function `get-statistic2`. -/
def getStatistic2 (requestId : RequestId) (doc : Json) : Exec ServerExn Bytes := do
  let q ← readStatistic2 doc
  let distance ← timestampDistance I.nowTimestamp q.timestampLong
  checkUser (distance ≤ 5000) (lit "Timestamp is out")
  let signature ← lift (ofExcept (S.fromHex q.sign))
  let publicKey ← lift (ofExcept (S.fromHex q.pubkey))
  let isVerified ← lift (I.verifyTechnicalAddressSign q.timestamp signature publicKey)
  checkUser (isVerified = true) (lit "Incorrect signature")
  return genSystemResponse J requestId I.statistic I.procLoad I.totalSystemMemory I.openedConnections

end

/-! ## Dumps by number -/

section
variable (J : JsonUtils) (compress : Bytes → Bytes) (sync : Sync)

/-- `getBlockDump<size_t>(doc, requestId, nameParam, sync, isFormat)`. -/
def getBlockDumpByNumber (requestId : RequestId) (doc : Json) (nameParam : String) (isFormat : Bool) :
    Exec ServerExn Bytes := do
  let jsonParams ← userField asObject doc "params"
  let number ← userField asInt64 jsonParams nameParam
  let fromByte ← memberAs asInt64 jsonParams "fromByte"
  let toByte ← memberAs asInt64 jsonParams "toByte"
  let isHex ← memberAs asBool jsonParams "isHex"
  let isSign ← memberAs asBool jsonParams "isSign"
  let isCompress ← memberAs asBool jsonParams "compress"
  let bh := sync.getBlockNumber (toSize number)
  checkExn (bh.blockNumber ≠ none) ("block " ++ toString (toSize number) ++ " not found")
  let dump ← lift (sync.getBlockDump bh ((fromByte.map fun n => UInt64.ofNat (toSize n)).getD 0)
    ((toByte.map fun n => UInt64.ofNat (toSize n)).getD (UInt64.ofNat (2 ^ 64 - 1))) (isHex.getD false)
    (isSign.getD false))
  let res := genDumpBlockBinary compress dump (isCompress.getD false)
  checkExn (res ≠ []) ("block " ++ toString (toSize number) ++ " not found")
  if isHex.getD false then
    return J.jsonToString
      (.obj (addIdToResponse requestId ++ [(lit "result", .obj [(lit "dump", .str res)])])) isFormat
  else return res

/-- `getJsonField<size_t>(json)`. -/
def getJsonNumber (json : Json) : Exec ServerExn ℕ :=
  match asInt64 json with
  | some n => .ok (toSize n)
  | none => .throw (.user (lit "field not found"))

/-- A dump of the list of `getBlockDumps<size_t>`. -/
def serveDumpNumber (isSign : Bool) (number : ℕ) : Exec ServerExn Bytes := do
  let bh := sync.getBlockNumber number
  checkExn (bh.blockNumber ≠ none) ("block " ++ toString number ++ " not found")
  let res ← lift (sync.getBlockDump bh 0 (UInt64.ofNat (2 ^ 64 - 1)) false isSign)
  checkExn (res ≠ []) ("block " ++ toString number ++ " not found")
  return res

/-- `getBlockDumps<size_t>(doc, requestId, nameParam, sync)`. -/
def getBlockDumpsByNumber (doc : Json) (nameParam : String) : Exec ServerExn Bytes := do
  let (jsonVals, isSign, isCompress) ← readBlockDumps doc nameParam
  let result ← jsonVals.mapM fun jsonVal => do
    let number ← getJsonNumber jsonVal
    serveDumpNumber sync isSign number
  return genDumpBlocksBinary compress result isCompress

end

/-! ## The server -/

section
variable (J : JsonUtils) (S : Support) (compress : Bytes → Bytes) (I : ServerInfo) (sync : Sync)

/-- The other functions of `Server::run`. -/
def otherFunctions (func : Bytes) (doc : Json) (requestId : RequestId) : Exec ServerExn Bytes := do
  let version ← versionOf doc
  let isFormat ← memberAs asBool doc "pretty"
  if func = lit "status" then return genStatusResponse J requestId I.version I.gitSha1
  else if func = lit "getinfo" then return genInfoResponse J requestId I.version I.serverPrivKey
  else if func = lit "get-statistic" then return genStatisticResponse J I.statistic
  else if func = lit "get-statistic2" then getStatistic2 J S I requestId doc
  else if func = lit "get-dump-block-by-number" then
    getBlockDumpByNumber J compress sync requestId doc "number" (isFormat.getD false)
  else if func = lit "get-dumps-blocks-by-number" then
    getBlockDumpsByNumber compress sync doc "numbers"
  else if func = lit "get-count-blocks" then
    return genCountBlockJson J requestId sync.countBlocks (isFormat.getD false) version
  else .throw (.user (lit "Incorrect func " ++ func))

/-- The server with all of its functions. -/
def env : ServerEnv where
  json := J
  support := S
  compress := compress
  others := otherFunctions J S compress I sync

end

/-! ## Requests -/

/-- What the library of the server reads of a request. -/
structure Request where
  url : Bytes
  method : Bytes
  post : Bytes

/-- The body that is parsed. -/
def Request.json (r : Request) : Bytes := if r.method = lit "POST" then r.post else []

/-- `doc` of `Server::run`; without a body it stays `Null`. -/
def documentOf (isDouble : Bytes → Bool) (r : Request) : Option Json :=
  if r.json = [] then some .null else Json.parse isDouble r.json

/-- `func` of `Server::run`. -/
def funcOf (url : Bytes) (doc : Json) : Exec ServerExn Bytes :=
  if 1 < url.length then pure (url.drop 1) else userField asString doc "method"

section
variable (E : ServerEnv) (sync : Sync)

/-- The `catch` clauses of `Server::run`. -/
def answered (url : Bytes) (requestId : RequestId) : Exec ServerExn Bytes → Exec Exn Bytes
  | .ok response => .ok response
  | .throw (.exn (.common message)) =>
    .ok (E.json.jsonToString (genErrorResponse requestId (-32603) (lit message)) false)
  | .throw (.exn (.std what)) =>
    .ok (E.json.jsonToString (genErrorResponse requestId (-32603) (lit what)) false)
  | .throw (.user message) =>
    .ok (E.json.jsonToString (genErrorResponse requestId (-32602) (message ++ lit ". Url: " ++ url)) false)
  | .undef u => .undef u
  | .outOfFuel => .outOfFuel

/-- The `try` block of `Server::run` from the version on. -/
def respond (doc : Json) (func : Bytes) (requestId : RequestId) : Exec ServerExn Bytes := do
  let version ← versionOf doc
  let isFormat ← memberAs asBool doc "pretty"
  dispatch E sync func doc requestId (isFormat.getD false) version

/-- `Server::run` on any request: the data of the response.  The id is set after the function is
    known. -/
def handle (r : Request) : Exec Exn Bytes :=
  match documentOf E.json.isDouble r with
  | none =>
    .ok (E.json.jsonToString (genErrorResponse .notSet (-32603)
      (lit "rapidjson parse error. Data: " ++ r.json)) false)
  | some doc =>
    let start : Exec ServerExn (Bytes × RequestId) := do
      let func ← funcOf r.url doc
      let requestId ← requestIdOf doc
      return (func, requestId)
    match start with
    | .ok (func, requestId) => answered E r.url requestId (respond E sync doc func requestId)
    | e => answered E r.url .notSet (e >>= fun _ => .ok [])

theorem versionOf_obj (members : List (Bytes × Json)) :
    ∃ version, versionOf (.obj members) = .ok version := by
  rw [versionOf, memberAs, ok_bind]
  cases (Json.find (lit "version") members).bind asString with
  | none => exact ⟨_, rfl⟩
  | some version => exact ⟨_, rfl⟩

theorem requestIdOf_obj (members : List (Bytes × Json)) :
    ∃ requestId, requestIdOf (.obj members) = .ok requestId := by
  rw [requestIdOf, memberAs, ok_bind]
  cases (Json.find (lit "id") members).bind asInt64 with
  | some id => exact ⟨_, rfl⟩
  | none =>
    dsimp only
    rw [memberAs, ok_bind]
    cases (Json.find (lit "id") members).bind asString with
    | some id => exact ⟨_, rfl⟩
    | none => exact ⟨_, rfl⟩

/-- A request by `POST` with a body, for a function in the url. -/
theorem handle_post {func post : Bytes} (hfunc : func ≠ []) (hpost : post ≠ []) :
    handle E sync ⟨lit "/" ++ func, lit "POST", post⟩ = run E sync func post := by
  have hjson : Request.json ⟨lit "/" ++ func, lit "POST", post⟩ = post := if_pos rfl
  have hlen : 1 < (lit "/" ++ func).length := by
    have := List.length_pos_of_ne_nil hfunc
    rw [List.length_append]
    have : (lit "/").length = 1 := rfl
    omega
  rw [handle, documentOf, hjson, if_neg hpost, run]
  cases Json.parse E.json.isDouble post with
  | none => rfl
  | some doc =>
    have hdrop : (lit "/" ++ func).drop 1 = func := rfl
    dsimp only
    rw [funcOf, if_pos hlen, pure_eq_ok, ok_bind, hdrop]
    cases doc with
    | obj members =>
      obtain ⟨requestId, hid⟩ := requestIdOf_obj members
      have hurl : ∀ message : Bytes,
          message ++ lit ". Url: " ++ (lit "/" ++ func) = message ++ lit ". Url: /" ++ func := by
        intro message
        have hlit : lit ". Url: /" = lit ". Url: " ++ lit "/" := by decide +kernel
        rw [hlit, List.append_assoc, List.append_assoc, List.append_assoc]
      rw [hid]
      dsimp only [ok_bind, pure_eq_ok]
      rw [respond]
      rcases versionOf (.obj members) >>= fun version => memberAs asBool (.obj members) "pretty" >>=
        fun isFormat => dispatch E sync func (.obj members) requestId (isFormat.getD false) version with
        response | (⟨message | what⟩ | message) | u | _
      · rfl
      · rfl
      · rfl
      · rw [answered, hurl]
      · rfl
      · rfl
    | null | bool | int | double | str | arr => rfl

end

/-! ## Every request is answered -/

/-- The calls of the node return or throw. -/
structure Stops (sync : Sync) (I : ServerInfo) : Prop where
  getBlockHash : ∀ hash, Safe (sync.getBlockHash hash) fun _ => True
  getBlockDump : ∀ bh fromByte toByte isHex isSign,
    Safe (sync.getBlockDump bh fromByte toByte isHex isSign) fun _ => True
  verifyTechnicalAddressSign : ∀ binary sign pubkey,
    Safe (I.verifyTechnicalAddressSign binary sign pubkey) fun _ => True

section
variable {ε α β : Type}

theorem safe_memberAs (as : Json → Option α) (members : List (Bytes × Json)) (name : String)
    (Q : Option α → Prop) : Safe (memberAs as (.obj members) name : Exec ε (Option α)) Q ↔
      Q ((Json.find (lit name) members).bind as) := Iff.rfl

theorem safe_userField (as : Json → Option α) (members : List (Bytes × Json)) (name : String)
    (Q : α → Prop) : Safe (userField as (.obj members) name) Q ↔
      ∀ a, (Json.find (lit name) members).bind as = some a → Q a := by
  rw [userField, memberAs, ok_bind]
  cases (Json.find (lit name) members).bind as with
  | none => simp
  | some a => simp

/-- The parameters of a request are an object. -/
theorem safe_params (members : List (Bytes × Json)) (Q : Json → Prop)
    (h : ∀ params, Q (.obj params)) : Safe (userField asObject (.obj members) "params") Q := by
  rw [safe_userField]
  intro a ha
  obtain ⟨j, -, hj⟩ := Option.bind_eq_some_iff.1 ha
  cases j <;> cases hj
  exact h _

theorem safe_lift {x : Exec Exn α} {Q : α → Prop} (h : Safe x Q) : Safe (lift x) Q := by
  cases x <;> exact h

theorem safe_checkUser (c : Prop) [Decidable c] (message : Bytes) (Q : Unit → Prop) :
    Safe (checkUser c message) Q ↔ (c → Q ()) := safe_check c _ Q

theorem safe_checkExn (c : Prop) [Decidable c] (message : String) (Q : Unit → Prop) :
    Safe (checkExn c message) Q ↔ (c → Q ()) := safe_check c _ Q

theorem safe_mapM {f : α → Exec ε β} (hf : ∀ a, Safe (f a) fun _ => True) (as : List α) :
    Safe (as.mapM f) fun _ => True := by
  induction as with
  | nil => trivial
  | cons a as ih =>
    rw [List.mapM_cons, safe_bind]
    refine (hf a).mono fun b _ => ?_
    rw [safe_bind]
    exact ih.mono fun _ _ => trivial

end

section
variable {sync : Sync} {I : ServerInfo} (S : Support) (J : JsonUtils) (compress : Bytes → Bytes)

theorem safe_headerToJson (bh : BlockHeader) (type : BlockTypeInfo) (version : JsonVersion) :
    Safe (headerToJson S bh type version) fun _ => True := by
  have hblockType : Safe bh.getBlockType fun _ => True := by
    rw [BlockHeader.getBlockType]
    split_ifs <;> trivial
  rw [headerToJson]
  rcases bh.blockNumber with _ | number
  · trivial
  · by_cases htype : type = .simple
    · dsimp only
      rw [if_pos htype, safe_bind]
      refine hblockType.mono fun blockType _ => ?_
      rw [pure_eq_ok, ok_bind, if_pos htype]
      rcases bh.countTxs with _ | countTxs <;> trivial
    · dsimp only
      rw [if_neg htype, pure_eq_ok, ok_bind, if_neg htype]
      trivial

theorem safe_blockHeaderToJson (requestId : RequestId) (bh : BlockHeader) (type : BlockTypeInfo)
    (version : JsonVersion) : Safe (blockHeaderToJson S requestId bh type version) fun _ => True := by
  rw [blockHeaderToJson]
  split_ifs
  · trivial
  · rw [safe_bind]
    exact (safe_headerToJson S bh type version).mono fun _ _ => trivial

theorem safe_headersToJson (type : BlockTypeInfo) (version : JsonVersion) (bhs : List BlockHeader) :
    Safe (headersToJson S type version bhs) fun _ => True := by
  induction bhs with
  | nil => trivial
  | cons b bhs ih =>
    rw [headersToJson]
    split_ifs
    · trivial
    · rw [safe_bind]
      refine (safe_headerToJson S b type version).mono fun _ _ => ?_
      rw [safe_bind]
      exact ih.mono fun _ _ => trivial

theorem safe_blockResponse (requestId : RequestId) (bh : BlockHeader) (shown : Bytes)
    (type : BlockTypeInfo) (version : JsonVersion) :
    Safe (blockResponse S requestId bh shown type version) fun _ => True := by
  rw [blockResponse]
  split_ifs
  · trivial
  · rw [safe_bind]
    exact (safe_lift (safe_blockHeaderToJson S requestId bh type version)).mono fun _ _ => trivial
  · trivial

theorem safe_blockType (params : List (Bytes × Json)) (Q : BlockTypeInfo → Prop) (h : ∀ type, Q type) :
    Safe (blockType (.obj params)) Q := by
  rw [blockType, safe_bind, safe_memberAs]
  cases (Json.find (lit "type") params).bind asInt with
  | some n => exact h _
  | none =>
    dsimp only
    rw [safe_bind, safe_memberAs]
    cases (Json.find (lit "type") params).bind asString with
    | some s => exact h _
    | none => exact h _

theorem safe_blocksType (params : List (Bytes × Json)) (Q : BlockTypeInfo → Prop) (h : ∀ type, Q type) :
    Safe (blocksType (.obj params)) Q := by
  rw [blocksType, safe_bind, safe_memberAs]
  cases (Json.find (lit "type") params).bind asString with
  | none => exact h _
  | some s =>
    dsimp only
    split_ifs
    · exact h _
    · exact h _
    · exact h _
    · trivial

theorem safe_getBlockByNumber (requestId : RequestId) (members : List (Bytes × Json))
    (version : JsonVersion) :
    Safe (getBlockByNumber S sync requestId (.obj members) "number" version) fun _ => True := by
  rw [getBlockByNumber, safe_bind]
  refine safe_params members _ fun params => ?_
  rw [safe_bind, safe_userField]
  intro number _
  rw [safe_bind]
  exact safe_blockType params _ fun type => safe_blockResponse S requestId _ _ type version

theorem safe_getBlockByHash (hsync : Stops sync I) (requestId : RequestId)
    (members : List (Bytes × Json)) (version : JsonVersion) :
    Safe (getBlockByHash S sync requestId (.obj members) "hash" version) fun _ => True := by
  rw [getBlockByHash, safe_bind]
  refine safe_params members _ fun params => ?_
  rw [safe_bind, safe_userField]
  intro hash _
  rw [safe_bind]
  refine safe_blockType params _ fun type => ?_
  rw [safe_bind]
  exact (safe_lift (hsync.getBlockHash hash)).mono fun bh _ =>
    safe_blockResponse S requestId bh hash type version

theorem safe_getBlocks (requestId : RequestId) (members : List (Bytes × Json)) (version : JsonVersion) :
    Safe (getBlocks S sync requestId (.obj members) version) fun _ => True := by
  rw [getBlocks, safe_bind]
  refine safe_params members _ fun params => ?_
  rw [safe_bind, safe_memberAs, safe_bind, safe_memberAs, safe_bind, safe_checkUser]
  intro _
  rw [safe_bind]
  refine safe_blocksType params _ fun type => ?_
  rw [safe_bind, safe_memberAs, safe_bind, safe_check]
  intro _
  refine safe_lift ?_
  rw [blockHeadersToJson, safe_bind]
  refine (safe_headersToJson S type version _).mono fun vals _ => ?_
  cases vals <;> trivial

theorem safe_getBlockDump (hsync : Stops sync I) (requestId : RequestId)
    (members : List (Bytes × Json)) (isFormat : Bool) :
    Safe (getBlockDump J compress sync requestId (.obj members) "hash" isFormat) fun _ => True := by
  rw [getBlockDump, safe_bind, decodeBlockDump, safe_bind]
  refine safe_params members _ fun params => ?_
  rw [safe_bind, safe_userField]
  intro hash _
  simp only [safe_bind, safe_memberAs]
  rw [pure_eq_ok, safe_ok, serveBlockDump, safe_bind]
  refine (safe_lift (hsync.getBlockHash _)).mono fun bh _ => ?_
  rw [safe_bind, safe_checkExn]
  intro _
  rw [safe_bind]
  refine (safe_lift (hsync.getBlockDump _ _ _ _ _)).mono fun dump _ => ?_
  rw [safe_bind, safe_checkExn]
  intro _
  split_ifs <;> trivial

theorem safe_getBlockDumpByNumber (hsync : Stops sync I) (requestId : RequestId)
    (members : List (Bytes × Json)) (isFormat : Bool) :
    Safe (getBlockDumpByNumber J compress sync requestId (.obj members) "number" isFormat)
      fun _ => True := by
  rw [getBlockDumpByNumber, safe_bind]
  refine safe_params members _ fun params => ?_
  rw [safe_bind, safe_userField]
  intro number _
  simp only [safe_bind, safe_memberAs, safe_checkExn]
  intro _
  refine (safe_lift (hsync.getBlockDump _ _ _ _ _)).mono fun dump _ => ?_
  intro _
  split_ifs <;> trivial

theorem safe_readBlockDumps (members : List (Bytes × Json)) (nameParam : String) :
    Safe (readBlockDumps (.obj members) nameParam) fun _ => True := by
  rw [readBlockDumps, safe_bind]
  refine safe_params members _ fun params => ?_
  simp only [safe_bind, safe_memberAs]
  cases (Json.find (lit nameParam) params).bind asArray with
  | none => trivial
  | some jsonVals =>
    dsimp only
    rw [safe_bind, safe_checkUser]
    exact fun _ => trivial

theorem safe_getBlockDumps (hsync : Stops sync I) (members : List (Bytes × Json)) :
    Safe (getBlockDumps compress sync (.obj members) "hashes") fun _ => True := by
  rw [getBlockDumps, safe_bind]
  refine (safe_readBlockDumps members "hashes").mono fun r _ => ?_
  rw [safe_bind]
  refine (safe_mapM (fun jsonVal => ?_) r.1).mono fun _ _ => trivial
  rw [safe_bind, getJsonField]
  cases asString jsonVal with
  | none => trivial
  | some hash =>
    rw [safe_ok, serveDump, safe_bind]
    refine (safe_lift (hsync.getBlockHash hash)).mono fun bh _ => ?_
    rw [safe_bind, safe_checkExn]
    intro _
    rw [safe_bind]
    refine (safe_lift (hsync.getBlockDump _ _ _ _ _)).mono fun dump _ => ?_
    rw [safe_bind, safe_checkExn]
    exact fun _ => trivial

theorem safe_getBlockDumpsByNumber (hsync : Stops sync I) (members : List (Bytes × Json)) :
    Safe (getBlockDumpsByNumber compress sync (.obj members) "numbers") fun _ => True := by
  rw [getBlockDumpsByNumber, safe_bind]
  refine (safe_readBlockDumps members "numbers").mono fun r _ => ?_
  rw [safe_bind]
  refine (safe_mapM (fun jsonVal => ?_) r.1).mono fun _ _ => trivial
  rw [safe_bind, getJsonNumber]
  cases asInt64 jsonVal with
  | none => trivial
  | some number =>
    rw [safe_ok, serveDumpNumber]
    simp only [safe_bind, safe_checkExn]
    intro _
    exact (safe_lift (hsync.getBlockDump _ _ _ _ _)).mono fun dump _ _ => trivial

theorem safe_toLongLong (value : ℤ) : Safe (toLongLong value) fun _ => True := by
  unfold toLongLong
  split_ifs <;> trivial

theorem safe_stoll (str : Bytes) : Safe (stoll str) fun _ => True := by
  unfold stoll
  rcases readSign (str.dropWhile fun c => c == 32 || (9 ≤ c && c ≤ 13)) with ⟨isNegative, rest⟩
  dsimp only
  by_cases hdigits : rest.takeWhile Json.isDigit = []
  · rw [if_pos hdigits]
    trivial
  · rw [if_neg hdigits]
    exact safe_toLongLong _

theorem safe_readStatistic2 (members : List (Bytes × Json)) :
    Safe (readStatistic2 (.obj members)) fun _ => True := by
  rw [readStatistic2, safe_bind]
  refine safe_params members _ fun params => ?_
  simp only [safe_bind, safe_userField]
  intro pubkey _ sign _ timestamp _
  exact (safe_lift (safe_stoll timestamp)).mono fun _ _ => trivial

theorem safe_getStatistic2 (hsync : Stops sync I) (requestId : RequestId)
    (members : List (Bytes × Json)) :
    Safe (getStatistic2 J S I requestId (.obj members)) (fun _ => True) ↔
      ∀ q, readStatistic2 (.obj members) = .ok q → InRange I.nowTimestamp q.timestampLong := by
  rw [getStatistic2, safe_bind, (safe_readStatistic2 members).iff_forall]
  refine forall₂_congr fun q _ => ?_
  rw [safe_bind, timestampDistance]
  split_ifs with hrange
  · refine iff_of_true ?_ hrange
    rw [safe_ok, safe_bind, safe_checkUser]
    intro _
    have hhex : ∀ s, Safe (lift (ofExcept (S.fromHex s))) fun _ => True := by
      intro s
      cases S.fromHex s <;> trivial
    rw [safe_bind]
    refine (hhex _).mono fun signature _ => ?_
    rw [safe_bind]
    refine (hhex _).mono fun publicKey _ => ?_
    rw [safe_bind]
    refine (safe_lift (hsync.verifyTechnicalAddressSign _ _ _)).mono fun isVerified _ => ?_
    rw [safe_bind, safe_checkUser]
    exact fun _ => trivial
  · exact iff_of_false id hrange

theorem safe_map {ε α β : Type} (f : α → β) (x : Exec ε α) (Q : β → Prop) :
    Safe (f <$> x) Q ↔ Safe x fun a => Q (f a) := by
  cases x <;> exact Iff.rfl

theorem safe_otherFunctions (hsync : Stops sync I) (func : Bytes) (requestId : RequestId)
    (members : List (Bytes × Json)) :
    Safe (otherFunctions J S compress I sync func (.obj members) requestId) (fun _ => True) ↔
      (func = lit "get-statistic2" → ∀ q, readStatistic2 (.obj members) = .ok q →
        InRange I.nowTimestamp q.timestampLong) := by
  obtain ⟨version, hversion⟩ := versionOf_obj members
  unfold otherFunctions
  rw [hversion, ok_bind, safe_bind, safe_memberAs]
  by_cases hfunc : func = lit "get-statistic2"
  · rw [hfunc, if_neg (by decide), if_neg (by decide), if_neg (by decide), if_pos rfl,
      safe_getStatistic2 S J hsync]
    exact ⟨fun h _ => h, fun h => h rfl⟩
  · refine iff_of_true ?_ fun h => absurd h hfunc
    rw [if_neg hfunc]
    split_ifs
    · trivial
    · trivial
    · trivial
    · exact safe_getBlockDumpByNumber J compress hsync requestId members _
    · exact safe_getBlockDumpsByNumber compress hsync members
    · trivial
    · trivial

theorem safe_dispatch (hsync : Stops sync I) (func : Bytes) (requestId : RequestId)
    (members : List (Bytes × Json)) (isFormat : Bool) (version : JsonVersion) :
    Safe (dispatch (env J S compress I sync) sync func (.obj members) requestId isFormat version)
        (fun _ => True) ↔
      (func = lit "get-statistic2" → ∀ q, readStatistic2 (.obj members) = .ok q →
        InRange I.nowTimestamp q.timestampLong) := by
  by_cases hfunc : func = lit "get-statistic2"
  · rw [dispatch, hfunc, if_neg (by decide), if_neg (by decide), if_neg (by decide),
      if_neg (by decide), if_neg (by decide)]
    exact safe_otherFunctions S J compress hsync _ requestId members
  · refine iff_of_true ?_ fun h => absurd h hfunc
    rw [dispatch]
    split_ifs
    · rw [safe_map]
      exact safe_getBlockByHash S hsync requestId members version
    · rw [safe_map]
      exact safe_getBlockByNumber S requestId members version
    · rw [safe_map]
      exact safe_getBlocks S requestId members version
    · exact safe_getBlockDump J compress hsync requestId members isFormat
    · exact safe_getBlockDumps compress hsync members
    · exact (safe_otherFunctions S J compress hsync func requestId members).2 fun h => absurd h hfunc

theorem answered_iff (E : ServerEnv) (url : Bytes) (requestId : RequestId)
    (answer : Exec ServerExn Bytes) :
    (∃ response, answered E url requestId answer = .ok response) ↔ Safe answer fun _ => True := by
  rcases answer with response | (⟨message | what⟩ | message) | u | _
  · exact iff_of_true ⟨_, rfl⟩ trivial
  · exact iff_of_true ⟨_, rfl⟩ trivial
  · exact iff_of_true ⟨_, rfl⟩ trivial
  · exact iff_of_true ⟨_, rfl⟩ trivial
  · refine iff_of_false ?_ id
    rintro ⟨response, h⟩
    cases h
  · refine iff_of_false ?_ id
    rintro ⟨response, h⟩
    cases h

theorem safe_respond (hsync : Stops sync I) (func : Bytes) (requestId : RequestId)
    (members : List (Bytes × Json)) :
    Safe (respond (env J S compress I sync) sync (.obj members) func requestId) (fun _ => True) ↔
      (func = lit "get-statistic2" → ∀ q, readStatistic2 (.obj members) = .ok q →
        InRange I.nowTimestamp q.timestampLong) := by
  obtain ⟨version, hversion⟩ := versionOf_obj members
  rw [respond, hversion, ok_bind, safe_bind, safe_memberAs]
  exact safe_dispatch S J compress hsync func requestId members _ version

theorem funcOf_obj (url : Bytes) (members : List (Bytes × Json)) :
    (∃ func, funcOf url (.obj members) = .ok func) ∨
      ∃ message, funcOf url (.obj members) = .throw (.user message) := by
  rw [funcOf]
  split_ifs
  · exact Or.inl ⟨_, rfl⟩
  · rw [userField, memberAs, ok_bind]
    cases (Json.find (lit "method") members).bind asString with
    | none => exact Or.inr ⟨_, rfl⟩
    | some func => exact Or.inl ⟨func, rfl⟩

/-- The node behind the handlers: its chain, and how it reads dumps. -/
def ofChain (c : BlockChain) (getBlockDump : BlockHeader → UInt64 → UInt64 → Bool → Bool → Exec Exn Bytes) :
    Sync where
  countBlocks := c.countBlocks
  getBlockNumber := c.getBlockNumber
  getBlockHash := c.getBlockHash
  getBlockDump := getBlockDump

/-- A node with the genesis block only. -/
def genesisNode : Sync := ofChain BlockChain.new fun _ _ _ _ _ => .ok []

/-- A server that accepts no signature. -/
def plainInfo : ServerInfo where
  version := lit "1"
  gitSha1 := []
  serverPrivKey := []
  statistic := 0
  procLoad := []
  totalSystemMemory := 0
  openedConnections := 0
  nowTimestamp := 0
  verifyTechnicalAddressSign _ _ _ := .ok false

theorem safe_getBlockHash (c : BlockChain) (hash : Bytes) :
    Safe (c.getBlockHash hash) fun _ => True := by
  rw [BlockChain.getBlockHash, safe_bind, check, safe_check]
  exact fun _ => trivial

theorem stops_genesisNode : Stops genesisNode plainInfo where
  getBlockHash := safe_getBlockHash BlockChain.new
  getBlockDump _ _ _ _ _ := trivial
  verifyTechnicalAddressSign _ _ _ := trivial

end

/-! ## Numbers and hashes -/

open GetNewBlocksFromServer

section
variable {ε α : Type}

/-- A member of another name is not asked. -/
theorem memberAs_cons (as : Json → Option α) {key : Bytes} {name : String} (h : key ≠ lit name)
    (j : Json) (members : List (Bytes × Json)) :
    (memberAs as (.obj ((key, j) :: members)) name : Exec ε (Option α)) =
      .ok ((Json.find (lit name) members).bind as) := by
  rw [memberAs, Json.find_cons, if_neg h]

theorem userField_cons (as : Json → Option α) {name : String} {j : Json} {a : α} (h : as j = some a)
    (members : List (Bytes × Json)) :
    userField as (.obj ((lit name, j) :: members)) name = .ok a :=
  userField_of_find as (by rw [Json.find_cons, if_pos rfl]) h

theorem blockType_cons {key : Bytes} (h : key ≠ lit "type") (j : Json)
    (params : List (Bytes × Json)) : blockType (.obj ((key, j) :: params)) = blockType (.obj params) := by
  rw [blockType, memberAs_cons asInt h, memberAs_cons asString h, blockType]
  rfl

theorem readBlockDumps_cons (nameParam : String) (hsign : lit nameParam ≠ lit "isSign")
    (hcompress : lit nameParam ≠ lit "compress") (vals : List Json) (params : List (Bytes × Json)) :
    readBlockDumps (requestDoc ((lit nameParam, .arr vals) :: params)) nameParam =
      (checkUser (vals.length ≤ 1000) (lit "Too many blocks") >>= fun _ =>
        .ok (vals, ((Json.find (lit "isSign") params).bind asBool).getD false,
          ((Json.find (lit "compress") params).bind asBool).getD false)) := by
  rw [readBlockDumps, userField_params, ok_bind, memberAs_cons asBool hsign, ok_bind,
    memberAs_cons asBool hcompress, ok_bind,
    memberAs_of_find asArray (by rw [Json.find_cons, if_pos rfl]), ok_bind]
  rfl

/-- Lists of computations that return the same. -/
theorem mapM_congr_ok {β : Type} {f g : α → Exec ε β} {as : List α}
    (h : ∀ a ∈ as, ∀ b, f a = .ok b ↔ g a = .ok b) (bs : List β) :
    as.mapM f = .ok bs ↔ as.mapM g = .ok bs := by
  rw [mapM_eq_ok, mapM_eq_ok]
  constructor
  · intro hall
    exact ((List.forall₂_and_left (p := (· ∈ as)) as bs).2 ⟨fun _ ha => ha, hall⟩).imp
      fun a b hab => (h a hab.1 b).1 hab.2
  · intro hall
    exact ((List.forall₂_and_left (p := (· ∈ as)) as bs).2 ⟨fun _ ha => ha, hall⟩).imp
      fun a b hab => (h a hab.1 b).2 hab.2

/-- The text of a check does not matter to what is returned. -/
theorem checkExn_bind_iff (c : Prop) [Decidable c] (message message' : String)
    (f : Unit → Exec ServerExn α) (a : α) :
    (checkExn c message >>= f) = .ok a ↔ (checkExn c message' >>= f) = .ok a := by
  by_cases h : c
  · rw [checkExn, checkExn, check_pos h, check_pos h]
  · rw [checkExn, checkExn, check_neg h, check_neg h]
    exact iff_of_false (fun h => by cases h) fun h => by cases h

end

section
variable {c : BlockChain} (hc : c.Consistent) (hchars : ∀ n ≤ c.countBlocks, 0 ∉ (c.getBlockNumber n).hash)
  (dump : BlockHeader → UInt64 → UInt64 → Bool → Bool → Exec Exn Bytes)
  {n : ℕ} (hn : n ≤ c.countBlocks) (hlt : n < 2 ^ 63) (requestId : RequestId)
  (params : List (Bytes × Json))
include hc hchars hn hlt

omit hchars hlt in
theorem ofChain_byNumber :
    (ofChain c dump).getBlockHash (c.getBlockNumber n).hash = .ok ((ofChain c dump).getBlockNumber n) ∧
      ∀ message, checkExn (((ofChain c dump).getBlockNumber n).blockNumber ≠ none) message = .ok () := by
  obtain ⟨hnumber, hhash⟩ := hc.byNumber n hn
  refine ⟨hhash, fun message => check_pos ?_ _⟩
  intro hnone
  rw [show ((ofChain c dump).getBlockNumber n).blockNumber = some n from hnumber] at hnone
  cases hnone

theorem getBlockByNumber_eq (S : Support) (version : JsonVersion) :
    getBlockByNumber S (ofChain c dump) requestId (requestDoc ((lit "number", .int n) :: params))
        "number" version =
      getBlockByHash S (ofChain c dump) requestId
        (requestDoc ((lit "hash", .str (c.getBlockNumber n).hash) :: params)) "hash" version := by
  obtain ⟨hnumber, hhash⟩ := hc.byNumber n hn
  rw [getBlockByNumber, userField_params, ok_bind, userField_cons asInt64 (asInt64_natCast hlt), ok_bind,
    blockType_cons (by decide +kernel), toSize_natCast (by omega)]
  rw [getBlockByHash, userField_params, ok_bind, userField_cons asString (asString_str (hchars n hn)),
    ok_bind, blockType_cons (by decide +kernel)]
  refine congrArg _ (funext fun type => ?_)
  show blockResponse S requestId (c.getBlockNumber n) _ type version =
    lift (c.getBlockHash (c.getBlockNumber n).hash) >>= _
  have hne : ¬ (c.getBlockNumber n).blockNumber = none := by simp [hnumber]
  rw [hhash, lift, ok_bind, blockResponse, blockResponse, if_neg hne, if_neg hne]

theorem getBlockDumpByNumber_iff (J : JsonUtils) (compress : Bytes → Bytes) (isFormat : Bool)
    (response : Bytes) :
    getBlockDumpByNumber J compress (ofChain c dump) requestId
        (requestDoc ((lit "number", .int n) :: params)) "number" isFormat = .ok response ↔
      getBlockDump J compress (ofChain c dump) requestId
        (requestDoc ((lit "hash", .str (c.getBlockNumber n).hash) :: params)) "hash" isFormat =
          .ok response := by
  obtain ⟨hhash, hcheck⟩ := ofChain_byNumber hc dump hn
  rw [getBlockDumpByNumber, userField_params, ok_bind, userField_cons asInt64 (asInt64_natCast hlt),
    ok_bind, memberAs_cons asInt64 (by decide +kernel), ok_bind,
    memberAs_cons asInt64 (by decide +kernel), ok_bind, memberAs_cons asBool (by decide +kernel), ok_bind,
    memberAs_cons asBool (by decide +kernel), ok_bind, memberAs_cons asBool (by decide +kernel), ok_bind,
    toSize_natCast (by omega)]
  rw [getBlockDump, decodeBlockDump, userField_params, ok_bind,
    userField_cons asString (asString_str (hchars n hn)), ok_bind,
    memberAs_cons asInt64 (by decide +kernel), ok_bind,
    memberAs_cons asInt64 (by decide +kernel), ok_bind, memberAs_cons asBool (by decide +kernel), ok_bind,
    memberAs_cons asBool (by decide +kernel), ok_bind, memberAs_cons asBool (by decide +kernel), ok_bind,
    pure_eq_ok, ok_bind, serveBlockDump]
  dsimp only
  rw [hhash, lift, ok_bind, hcheck, ok_bind, hcheck, ok_bind, bind_eq_ok, bind_eq_ok]
  exact exists_congr fun block => and_congr_right fun _ => checkExn_bind_iff _ _ _ _ _

omit hchars hlt in
theorem serveDumpNumber_iff (isSign : Bool) (res : Bytes) :
    serveDumpNumber (ofChain c dump) isSign n = .ok res ↔
      serveDump (ofChain c dump) isSign (c.getBlockNumber n).hash = .ok res := by
  obtain ⟨hhash, hcheck⟩ := ofChain_byNumber hc dump hn
  rw [serveDumpNumber, serveDump]
  rw [hhash, lift, ok_bind, hcheck, ok_bind, hcheck, ok_bind, bind_eq_ok, bind_eq_ok]
  exact exists_congr fun block => and_congr_right fun _ => checkExn_bind_iff _ _ _ _ _

omit hn hlt in
theorem getBlockDumpsByNumber_iff (compress : Bytes → Bytes) {numbers : List ℕ}
    (hnumbers : ∀ n ∈ numbers, n ≤ c.countBlocks ∧ n < 2 ^ 63) (response : Bytes) :
    getBlockDumpsByNumber compress (ofChain c dump)
        (requestDoc ((lit "numbers", .arr (numbers.map fun n : ℕ => .int n)) :: params)) "numbers" =
          .ok response ↔
      getBlockDumps compress (ofChain c dump)
        (requestDoc ((lit "hashes", .arr (numbers.map fun n => .str (c.getBlockNumber n).hash)) :: params))
          "hashes" = .ok response := by
  have hlength : (numbers.map fun n : ℕ => Json.int n).length =
      (numbers.map fun n => Json.str (c.getBlockNumber n).hash).length := by
    rw [List.length_map, List.length_map]
  rw [getBlockDumpsByNumber, getBlockDumps,
    readBlockDumps_cons "numbers" (by decide +kernel) (by decide +kernel),
    readBlockDumps_cons "hashes" (by decide +kernel) (by decide +kernel), hlength]
  by_cases hmany : (numbers.map fun n => Json.str (c.getBlockNumber n).hash).length ≤ 1000
  · rw [checkUser, check_pos hmany, ok_bind, ok_bind, ok_bind, ok_bind]
    dsimp only
    rw [List.mapM_map, List.mapM_map, bind_eq_ok, bind_eq_ok]
    refine exists_congr fun result => and_congr_left fun _ => mapM_congr_ok (fun n hmem block => ?_) result
    obtain ⟨hn, hlt⟩ := hnumbers n hmem
    rw [Function.comp_apply, Function.comp_apply, getJsonNumber, asInt64_natCast hlt, getJsonField, asString_str (hchars n hn)]
    dsimp only
    rw [ok_bind, ok_bind, toSize_natCast (by omega)]
    exact serveDumpNumber_iff hc dump hn _ _
  · rw [checkUser, check_neg hmany]
    exact iff_of_false (fun h => by cases h) fun h => by cases h

end

/-- **Numbers and hashes agree**: after any calls of `addBlock`, a header, a dump and a list of dumps
    asked by number are answered as those asked by the hashes of the blocks, whatever the other
    parameters are. -/
theorem numbers_agree_with_hashes (J : JsonUtils) (S : Support) (compress : Bytes → Bytes)
    (start : BlockChain.Start) (bs : List BlockChain.NewHeader)
    (dump : BlockHeader → UInt64 → UInt64 → Bool → Bool → Exec Exn Bytes)
    (hchars : ∀ n ≤ (BlockChain.run start.chain bs).countBlocks,
      0 ∉ ((BlockChain.run start.chain bs).getBlockNumber n).hash)
    (numbers : List ℕ)
    (hnumbers : ∀ n ∈ numbers, n ≤ (BlockChain.run start.chain bs).countBlocks ∧ n < 2 ^ 63)
    (requestId : RequestId) (params : List (Bytes × Json)) (isFormat : Bool) (version : JsonVersion) :
    let c := BlockChain.run start.chain bs
    let sync := ofChain c dump
    let hash (n : ℕ) : Json := .str (c.getBlockNumber n).hash
    (∀ n ∈ numbers,
      getBlockByNumber S sync requestId (requestDoc ((lit "number", .int n) :: params)) "number" version =
        getBlockByHash S sync requestId (requestDoc ((lit "hash", hash n) :: params)) "hash" version ∧
      ∀ response, getBlockDumpByNumber J compress sync requestId
          (requestDoc ((lit "number", .int n) :: params)) "number" isFormat = .ok response ↔
        getBlockDump J compress sync requestId (requestDoc ((lit "hash", hash n) :: params)) "hash"
          isFormat = .ok response) ∧
    ∀ response, getBlockDumpsByNumber compress sync
        (requestDoc ((lit "numbers", .arr (numbers.map fun n : ℕ => .int n)) :: params)) "numbers" =
          .ok response ↔
      getBlockDumps compress sync (requestDoc ((lit "hashes", .arr (numbers.map hash)) :: params))
        "hashes" = .ok response := by
  have hc := (BlockChain.inv_run start.inv_chain bs).consistent
  refine ⟨fun n hn => ⟨?_, fun response => ?_⟩, fun response => ?_⟩
  · exact getBlockByNumber_eq hc hchars dump (hnumbers n hn).1 (hnumbers n hn).2 requestId params S version
  · exact getBlockDumpByNumber_iff hc hchars dump (hnumbers n hn).1 (hnumbers n hn).2 requestId params J
      compress isFormat response
  · exact getBlockDumpsByNumber_iff hc hchars dump params compress hnumbers response

/-- A block on the genesis block. -/
def oneBlock : BlockChain.NewHeader := ⟨{ hash := lit "0a", prevHash := BlockChain.genesisHash }, rfl⟩

/-- The dumps of the block and of the genesis block. -/
theorem numbers_agree_with_hashes_one : ∃ response,
    getBlockDumpsByNumber id
        (ofChain (BlockChain.run BlockChain.new [oneBlock]) fun bh _ _ _ _ => .ok bh.hash)
        (requestDoc [(lit "numbers", .arr [.int 1, .int 0])]) "numbers" = .ok response ∧
      getBlockDumps id
        (ofChain (BlockChain.run BlockChain.new [oneBlock]) fun bh _ _ _ _ => .ok bh.hash)
        (requestDoc [(lit "hashes", .arr [.str (lit "0a"), .str BlockChain.genesisHash])]) "hashes" =
          .ok response := by
  have hagree := (numbers_agree_with_hashes ServerEnv.plain.json ServerEnv.plain.support id .constructed
    [oneBlock] (fun bh _ _ _ _ => .ok bh.hash) (by decide +kernel) [1, 0] (by decide +kernel) .notSet []
    false .v1).2
  have hdumps : getBlockDumpsByNumber id
      (ofChain (BlockChain.run BlockChain.new [oneBlock]) fun bh _ _ _ _ => .ok bh.hash)
      (requestDoc [(lit "numbers", .arr [.int 1, .int 0])]) "numbers" =
        .ok ([lit "0a", BlockChain.genesisHash].flatMap serializeStringBigEndian) := by decide +kernel
  exact ⟨_, hdumps, (hagree _).1 hdumps⟩

end Server

end TorrentNode
