/-
  Block headers in JSON (`generate_json.cpp`).

  The server writes headers (`blockHeaderToJson`, `blockHeadersToJson`), the client
  reads them (`parseBlockHeader`, `parseBlocksHeader`).  The wrappers around
  rapidjson (`jsonUtils.h`) are not part of the repository: `JsonUtils` has the
  text of a document, which reads back as the document.

  `parseBlockHeader_response`, `parseBlocksHeader_response`: of a header that the
  server sends to its peers the client reads what it needs.
-/
import TorrentNode.Lib.Json
import TorrentNode.BlockInfo
import TorrentNode.BlockchainUtils

open Wire Exec

namespace TorrentNode

/-! ## Documents -/

/-- rapidjson with the wrappers of `jsonUtils.h`: which numbers with a fraction or an exponent are
    read, and the text of a document (with or without blanks). -/
structure JsonUtils where
  isDouble : Bytes → Bool
  jsonToString : Json → Bool → Bytes
  parse_jsonToString : ∀ j isFormat, j.Integral → Json.parse isDouble (jsonToString j isFormat) = some j

/-- The writer of rapidjson. -/
def JsonUtils.compact (isDouble : Bytes → Bool) : JsonUtils where
  isDouble := isDouble
  jsonToString j _ := j.write
  parse_jsonToString j _ h := by
    have hread := (Json.reads_write j h : Json.Reads isDouble j j.write).parse_eq Json.blank_nil
      Json.blank_nil
    rwa [List.nil_append, List.append_nil] at hread

section
variable {ε α : Type}

/-- `json.HasMember(name)`, a test of the value and the value; only an object may be asked. -/
def memberAs (as : Json → Option α) (json : Json) (name : String) : Exec ε (Option α) :=
  match json with
  | .obj members => .ok ((Json.find (lit name) members).bind as)
  | _ => .undef .assertion

end

/-- `IsInt64()` and `GetInt64()`. -/
def asInt64 : Json → Option ℤ
  | .int n => if -2 ^ 63 ≤ n ∧ n < 2 ^ 63 then some n else none
  | _ => none

/-- `IsInt()` and `GetInt()`. -/
def asInt : Json → Option ℤ
  | .int n => if -2 ^ 31 ≤ n ∧ n < 2 ^ 31 then some n else none
  | _ => none

/-- A `std::string` from a C string. -/
def cString (s : Bytes) : Bytes := s.takeWhile (· ≠ 0)

/-- `IsString()` and `GetString()`. -/
def asString : Json → Option Bytes
  | .str s => some (cString s)
  | _ => none

/-- `IsBool()` and `GetBool()`. -/
def asBool : Json → Option Bool
  | .bool b => some b
  | _ => none

/-- `IsObject()`. -/
def asObject : Json → Option Json
  | .obj members => some (.obj members)
  | _ => none

/-- `IsArray()` and `GetArray()`. -/
def asArray : Json → Option (List Json)
  | .arr elems => some elems
  | _ => none

/-- An `int64_t` as `size_t`. -/
def toSize (n : ℤ) : ℕ := (n % 2 ^ 64).toNat

/-! ## Writing headers -/

/-- `struct RequestId`. -/
inductive RequestId where
  | notSet
  | str (id : Bytes)
  | num (id : ℕ)

inductive JsonVersion where
  | v1
  | v2
deriving DecidableEq

inductive BlockTypeInfo where
  | forP2P
  | small
  | simple
  | hashes
  | full
deriving DecidableEq

/-- `addIdToResponse(requestId, json)`: the members in front. -/
def addIdToResponse : RequestId → List (Bytes × Json)
  | .notSet => []
  | .str id => [(lit "id", .str id)]
  | .num id => [(lit "id", .int id)]

/-- `intOrString(intValue, isString)`. -/
def intOrString (intValue : ℕ) (isString : Bool) : Json :=
  if isString then .str (Json.decimal intValue) else .int intValue

/-- `genErrorResponse(requestId, code, error)`, the document. -/
def genErrorResponse (requestId : RequestId) (code : ℤ) (error : Bytes) : Json :=
  .obj (addIdToResponse requestId ++
    [(lit "error", .obj [(lit "code", .int code), (lit "message", .str error)])])

/-- `getBlockType()`. -/
def BlockHeader.getBlockType (bh : BlockHeader) : Exec Exn Bytes :=
  if bh.blockType = 0x1100000067452301 ∨ bh.blockType = 0x1101000067452301 then .ok (lit "state")
  else if bh.blockType = 0xEFCDAB8967452301 ∨ bh.blockType = 0x0000000067452301 ∨
      bh.blockType = 0x0001000067452301 then .ok (lit "block")
  else if bh.blockType = 0x2200000067452301 ∨ bh.blockType = 0x2201000067452301 then
    .ok (lit "forging")
  else .throw (.common ("Unknown block type " ++ toString bh.blockType.toNat))

/-- `blockHeaderToJson(bh, allocator, type, version)`. -/
def headerToJson (S : Support) (bh : BlockHeader) (type : BlockTypeInfo) (version : JsonVersion) :
    Exec Exn Json := do
  let isStringValue := decide (version = .v2)
  match bh.blockNumber with
  | none => .throw (.common "Block header not set")
  | some number =>
    let typeMember : List (Bytes × Json) ←
      if type = .simple then do
        let blockType ← bh.getBlockType
        pure [(lit "type", .str blockType)]
      else pure []
    let simpleMembers : List (Bytes × Json) ←
      if type = .simple then
        match bh.countTxs with
        | none => .throw (.common "Count txs not set")
        | some countTxs => pure [
            (lit "timestamp", intOrString bh.timestamp.toNat isStringValue),
            (lit "count_txs", intOrString countTxs.toNat isStringValue),
            (lit "sign", .str (S.toHex bh.signature))]
      else pure []
    return .obj (typeMember ++
      [(lit "hash", .str bh.hash), (lit "prev_hash", .str bh.prevHash)] ++
      (if type = .simple then [(lit "tx_hash", .str bh.txsHash)] else []) ++
      [(lit "number", intOrString number isStringValue)] ++ simpleMembers ++
      (if type ≠ .small then
        [(lit "size", .int bh.blockSize.toNat), (lit "fileName", .str bh.filePos.fileName)]
      else []))

/-- The message about the genesis block. -/
def genesisError (requestId : RequestId) : Json :=
  genErrorResponse requestId (-32603)
    (lit "Incorrect block number: 0. Genesis block begin with number 1")

/-- `blockHeaderToJson(requestId, bh, nextBlock, isFormat, type, version)`, the document. -/
def blockHeaderToJson (S : Support) (requestId : RequestId) (bh : BlockHeader) (type : BlockTypeInfo)
    (version : JsonVersion) : Exec Exn Json := do
  if bh.blockNumber = some 0 then return genesisError requestId
  else
    let result ← headerToJson S bh type version
    return .obj (addIdToResponse requestId ++ [(lit "result", result)])

/-- The loop of `blockHeadersToJson`: the headers, or nothing if the genesis block is among them. -/
def headersToJson (S : Support) (type : BlockTypeInfo) (version : JsonVersion) :
    List BlockHeader → Exec Exn (Option (List Json))
  | [] => return some []
  | b :: bhs => do
    if b.blockNumber = some 0 then return none
    else
      let val ← headerToJson S b type version
      let vals ← headersToJson S type version bhs
      return vals.map (val :: ·)

/-- `blockHeadersToJson(requestId, bh, type, isFormat, version)`, the document. -/
def blockHeadersToJson (S : Support) (requestId : RequestId) (bh : List BlockHeader)
    (type : BlockTypeInfo) (version : JsonVersion) : Exec Exn Json := do
  match ← headersToJson S type version bh with
  | none => return genesisError requestId
  | some vals => return .obj (addIdToResponse requestId ++ [(lit "result", .arr vals)])

/-! ## Reading headers -/

structure MinimumBlockHeader where
  number : ℕ
  blockSize : ℕ
  hash : Bytes
  parentHash : Bytes
  fileName : Bytes
deriving DecidableEq

/-- `CHECK(json.HasMember(name) && ..., name + " field not found")`. -/
def fieldAs {α : Type} (as : Json → Option α) (json : Json) (name : String) : Exec Exn α := do
  match ← memberAs as json name with
  | some a => return a
  | none => .throw (.common (name ++ " field not found"))

/-- `parseBlockHeader(resultJson)`. -/
def parseBlockHeaderJson (resultJson : Json) : Exec Exn MinimumBlockHeader := do
  let number ← fieldAs asInt64 resultJson "number"
  let hash ← fieldAs asString resultJson "hash"
  let parentHash ← fieldAs asString resultJson "prev_hash"
  let blockSize ← fieldAs asInt64 resultJson "size"
  let fileName ← fieldAs asString resultJson "fileName"
  return {
    number := toSize number
    blockSize := toSize blockSize
    hash := hash
    parentHash := parentHash
    fileName := fileName }

section
variable (J : JsonUtils)

/-- The document of a response that is not an error. -/
def parseResponse (response : Bytes) : Exec Exn Json :=
  match Json.parse J.isDouble response with
  | none => .throw (.common ("rapidjson parse error. Data: " ++ text response))
  | some doc => do
    match ← memberAs some doc "error" with
    | none => return doc
    | some .null => return doc
    | some error => .throw (.common (text (J.jsonToString error false)))

/-- `parseBlockHeader(response)`. -/
def parseBlockHeader (response : Bytes) : Exec Exn MinimumBlockHeader := do
  let doc ← parseResponse J response
  let resultJson ← fieldAs asObject doc "result"
  parseBlockHeaderJson resultJson

/-- The loop of `parseBlocksHeader`. -/
def parseHeadersLoop : List Json → Exec Exn (List MinimumBlockHeader)
  | [] => return []
  | rJson :: resultJson => do
    check ((asObject rJson).isSome) "result field not found"
    let header ← parseBlockHeaderJson rJson
    let headers ← parseHeadersLoop resultJson
    return header :: headers

/-- `parseBlocksHeader(response)`. -/
def parseBlocksHeader (response : Bytes) : Exec Exn (List MinimumBlockHeader) := do
  let doc ← parseResponse J response
  let resultJson ← fieldAs asArray doc "result"
  parseHeadersLoop resultJson

end

/-! ## What the client reads -/

/-- What a client needs of a header. -/
def BlockHeader.minimum (bh : BlockHeader) : MinimumBlockHeader where
  number := bh.blockNumber.getD 0
  blockSize := bh.blockSize.toNat
  hash := bh.hash
  parentHash := bh.prevHash
  fileName := bh.filePos.fileName

/-- A header that has a number, whose numbers fit in `int64_t`, and whose texts are C strings. -/
structure BlockHeader.Sendable (bh : BlockHeader) (n : ℕ) : Prop where
  number : bh.blockNumber = some n
  number_ne : n ≠ 0
  number_lt : n < 2 ^ 63
  blockSize_lt : bh.blockSize.toNat < 2 ^ 63
  hash : 0 ∉ bh.hash
  prevHash : 0 ∉ bh.prevHash
  fileName : 0 ∉ bh.filePos.fileName

/-- The document of a header for peers. -/
def BlockHeader.peerJson (bh : BlockHeader) (n : ℕ) : Json :=
  .obj [(lit "hash", .str bh.hash), (lit "prev_hash", .str bh.prevHash), (lit "number", .int n),
    (lit "size", .int bh.blockSize.toNat), (lit "fileName", .str bh.filePos.fileName)]

theorem cString_eq {s : Bytes} (h : 0 ∉ s) : cString s = s := by
  rw [cString, List.takeWhile_eq_self_iff]
  intro c hc
  rw [decide_eq_true_iff]
  rintro rfl
  exact h hc

theorem toSize_natCast {n : ℕ} (h : n < 2 ^ 64) : toSize n = n := by
  rw [toSize]
  omega

theorem asInt64_natCast {n : ℕ} (h : n < 2 ^ 63) : asInt64 (.int n) = some (n : ℤ) := by
  rw [asInt64, if_pos]
  omega

theorem asString_str {s : Bytes} (h : 0 ∉ s) : asString (.str s) = some s := by
  rw [asString, cString_eq h]

theorem fieldAs_of_find {α : Type} {as : Json → Option α} {members : List (Bytes × Json)}
    {name : String} {j : Json} {a : α} (hj : Json.find (lit name) members = some j)
    (ha : as j = some a) : fieldAs as (.obj members) name = .ok a := by
  rw [fieldAs, memberAs, hj, Option.bind_some, ha]
  rfl

section
variable {bh : BlockHeader} {n : ℕ} (h : bh.Sendable n)
include h

theorem BlockHeader.Sendable.headerToJson_eq (S : Support) :
    headerToJson S bh .forP2P .v1 = .ok (bh.peerJson n) := by
  simp [headerToJson, h.number, peerJson, intOrString]

theorem BlockHeader.Sendable.parse_peerJson :
    parseBlockHeaderJson (bh.peerJson n) = .ok bh.minimum := by
  have hn := h.number_lt
  have hs := h.blockSize_lt
  have hnumber : fieldAs asInt64 (bh.peerJson n) "number" = .ok n :=
    fieldAs_of_find rfl (asInt64_natCast hn)
  have hhash : fieldAs asString (bh.peerJson n) "hash" = .ok bh.hash :=
    fieldAs_of_find rfl (asString_str h.hash)
  have hprev : fieldAs asString (bh.peerJson n) "prev_hash" = .ok bh.prevHash :=
    fieldAs_of_find rfl (asString_str h.prevHash)
  have hsize : fieldAs asInt64 (bh.peerJson n) "size" = .ok bh.blockSize.toNat :=
    fieldAs_of_find rfl (asInt64_natCast hs)
  have hfile : fieldAs asString (bh.peerJson n) "fileName" = .ok bh.filePos.fileName :=
    fieldAs_of_find rfl (asString_str h.fileName)
  rw [parseBlockHeaderJson, hnumber, ok_bind, hhash, ok_bind, hprev, ok_bind, hsize, ok_bind, hfile,
    ok_bind, toSize_natCast (by omega), toSize_natCast (by omega), BlockHeader.minimum, h.number]
  rfl

theorem BlockHeader.Sendable.integral_peerJson : (bh.peerJson n).Integral := by
  have hn := h.number_lt
  have hs := h.blockSize_lt
  simp only [BlockHeader.peerJson, Json.Integral, Json.IntegralMembers, true_and, and_true]
  omega

end

/-- A number of a request that fits in 64 bits. -/
def RequestId.Fits : RequestId → Prop
  | .num id => id < 2 ^ 64
  | _ => True

section
variable {J : JsonUtils} {requestId : RequestId} (hid : requestId.Fits)
include hid

/-- The client finds the result in a response. -/
theorem parseResponse_result {result : Json} (h : result.Integral) (isFormat : Bool) :
    parseResponse J (J.jsonToString
      (.obj (addIdToResponse requestId ++ [(lit "result", result)])) isFormat) =
        .ok (.obj (addIdToResponse requestId ++ [(lit "result", result)])) := by
  have hint : (Json.obj (addIdToResponse requestId ++ [(lit "result", result)])).Integral := by
    cases requestId with
    | notSet => exact ⟨h, trivial⟩
    | str id => exact ⟨trivial, h, trivial⟩
    | num id => exact ⟨by have : id < 2 ^ 64 := hid; constructor <;> omega, h, trivial⟩
  rw [parseResponse, J.parse_jsonToString _ _ hint]
  cases requestId <;> rfl

omit hid in
theorem find_result (result : Json) :
    Json.find (lit "result") (addIdToResponse requestId ++ [(lit "result", result)]) = some result := by
  cases requestId <;> rfl

/-- **A header that is sent is read.** -/
theorem parseBlockHeader_response (S : Support) {bh : BlockHeader} {n : ℕ} (h : bh.Sendable n)
    (isFormat : Bool) : ∃ doc, blockHeaderToJson S requestId bh .forP2P .v1 = .ok doc ∧
      parseBlockHeader J (J.jsonToString doc isFormat) = .ok bh.minimum := by
  have hne : bh.blockNumber ≠ some 0 := by
    rw [h.number]
    simpa using h.number_ne
  refine ⟨.obj (addIdToResponse requestId ++ [(lit "result", bh.peerJson n)]), ?_, ?_⟩
  · rw [blockHeaderToJson, if_neg hne, h.headerToJson_eq]
    rfl
  · have hresult : fieldAs asObject
        (.obj (addIdToResponse requestId ++ [(lit "result", bh.peerJson n)])) "result" =
          .ok (bh.peerJson n) := fieldAs_of_find (find_result _) rfl
    rw [parseBlockHeader, parseResponse_result hid h.integral_peerJson, ok_bind, hresult, ok_bind,
      h.parse_peerJson]

omit hid in
/-- The headers of a list, one by one. -/
theorem headersToJson_eq (S : Support) {bhs : List BlockHeader}
    (h : ∀ bh ∈ bhs, ∃ n, bh.Sendable n) : ∃ vals, headersToJson S .forP2P .v1 bhs = .ok (some vals) ∧
      parseHeadersLoop vals = .ok (bhs.map BlockHeader.minimum) ∧ Json.IntegralElements vals := by
  induction bhs with
  | nil => exact ⟨[], rfl, rfl, trivial⟩
  | cons bh bhs ih =>
    obtain ⟨n, hn⟩ := h bh List.mem_cons_self
    obtain ⟨vals, hvals, hparse, hint⟩ := ih fun bh hbh => h bh (List.mem_cons_of_mem _ hbh)
    have hne : bh.blockNumber ≠ some 0 := by
      rw [hn.number]
      simpa using hn.number_ne
    refine ⟨bh.peerJson n :: vals, ?_, ?_, hn.integral_peerJson, hint⟩
    · rw [headersToJson, if_neg hne, hn.headerToJson_eq, ok_bind, hvals]
      rfl
    · rw [parseHeadersLoop, check_of (by rfl), ok_bind, hn.parse_peerJson, ok_bind, hparse]
      rfl

/-- **Headers that are sent are read**, in their order. -/
theorem parseBlocksHeader_response (S : Support) {bhs : List BlockHeader}
    (h : ∀ bh ∈ bhs, ∃ n, bh.Sendable n) (isFormat : Bool) :
    ∃ doc, blockHeadersToJson S requestId bhs .forP2P .v1 = .ok doc ∧
      parseBlocksHeader J (J.jsonToString doc isFormat) = .ok (bhs.map BlockHeader.minimum) := by
  obtain ⟨vals, hvals, hparse, hint⟩ := headersToJson_eq S h
  refine ⟨.obj (addIdToResponse requestId ++ [(lit "result", .arr vals)]), ?_, ?_⟩
  · rw [blockHeadersToJson, hvals]
    rfl
  · have hresult : fieldAs asArray (.obj (addIdToResponse requestId ++ [(lit "result", .arr vals)]))
        "result" = .ok vals := fieldAs_of_find (find_result _) rfl
    rw [parseBlocksHeader, parseResponse_result hid (show (Json.arr vals).Integral from hint), ok_bind,
      hresult, ok_bind, hparse]

end

end TorrentNode
