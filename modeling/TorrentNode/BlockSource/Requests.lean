/-
  The requests of the client, read by the server.

  The client joins the bodies of its requests from pieces of text; the server
  parses a body and picks the parameters from the document.  `requestDoc` is the
  document of a body with these parameters.

  `dump_requests_decoded`: the handlers of dumps serve the hashes, the bytes and
  the flags the client has asked for.
-/
import TorrentNode.BlockSource.GetNewBlocksFromServers
import TorrentNode.Server

open Wire Exec

namespace TorrentNode

open Server

namespace GetNewBlocksFromServer

/-! ## Documents -/

/-- The document of a request. -/
def requestDoc (params : List (Bytes × Json)) : Json :=
  .obj [(lit "id", .int 1), (lit "params", .obj params)]

section
variable {isDouble : Bytes → Bool}

open Json

theorem parse_request {params : List (Bytes × Json)} {t : Bytes}
    (h : ReadsMembers isDouble params t) :
    parse isDouble (lit "\x7b\"id\":1,\"params\":\x7b" ++ (t ++ lit "\x7d")) =
      some (requestDoc params) := by
  have hid : Reads isDouble (.int 1) (decimal 1) := reads_decimal (by decide)
  have hparams := (ReadsMembers.last (lit "params") (h.obj blank_nil) blank_nil blank_nil blank_nil)
  have hdoc := ((ReadsMembers.cons (lit "id") hid blank_nil blank_nil blank_nil blank_nil hparams).obj
    blank_nil).parse_eq blank_nil blank_nil
  simp only [memberText, List.nil_append, List.append_nil, List.append_assoc, List.cons_append] at hdoc
  exact hdoc

section
variable (name : Bytes) {v : Bytes} {j : Json} (h : Reads isDouble j v)
include h

/-- The last parameter of a request. -/
theorem readsMembers_last :
    ReadsMembers isDouble [(name, j)] (quoted name ++ (lit ": " ++ (v ++ lit "\x7d"))) := by
  have hlast := ReadsMembers.last name h blank_nil blank_space blank_nil
  simp only [memberText, List.nil_append, List.append_nil, List.append_assoc, List.cons_append] at hlast
  exact hlast

/-- A parameter in front of others. -/
theorem readsMembers_cons {params : List (Bytes × Json)} {t : Bytes}
    (ht : ReadsMembers isDouble params t) : ReadsMembers isDouble ((name, j) :: params)
      (quoted name ++ (lit ": " ++ (v ++ (lit ", " ++ t)))) := by
  have hcons := ReadsMembers.cons name h blank_nil blank_space blank_nil blank_space ht
  simp only [memberText, List.nil_append, List.append_nil, List.append_assoc, List.cons_append] at hcons
  exact hcons

/-- A parameter with a blank behind it. -/
theorem readsMembers_cons_blank {params : List (Bytes × Json)} {t : Bytes}
    (ht : ReadsMembers isDouble params t) : ReadsMembers isDouble ((name, j) :: params)
      (quoted name ++ (lit ": " ++ (v ++ (lit " , " ++ t)))) := by
  have hcons := ReadsMembers.cons name h blank_nil blank_space blank_space blank_space ht
  simp only [memberText, List.nil_append, List.append_assoc, List.cons_append] at hcons
  exact hcons

end

theorem reads_boolText (b : Bool) : Reads isDouble (.bool b) (boolText b) := reads_bool b

/-- The document of a request for a header. -/
theorem parse_makeRequestForBlock {number : ℕ} (h : number < 2 ^ 64) :
    parse isDouble (makeRequestForBlock number).2 =
      some (requestDoc [(lit "number", .int number), (lit "type", .str (lit "forP2P"))]) := by
  have hbegin : lit "\x7b\"id\":1,\"params\":\x7b\"number\": " =
      lit "\x7b\"id\":1,\"params\":\x7b" ++ (quoted (lit "number") ++ lit ": ") := by decide +kernel
  have hend : lit ", \"type\": \"forP2P\"\x7d\x7d" =
      lit ", " ++ (quoted (lit "type") ++ (lit ": " ++ (quoted (lit "forP2P") ++
        (lit "\x7d" ++ lit "\x7d")))) := by decide +kernel
  have hdoc : parse isDouble _ = _ := parse_request
    (readsMembers_cons (lit "number") (reads_decimal h)
      (readsMembers_last (lit "type") (reads_quoted (lit "forP2P"))))
  rw [makeRequestForBlock, hbegin, hend]
  simpa only [List.append_assoc] using hdoc

/-- The document of a request for several headers. -/
theorem parse_makeRequestForBlocks {beginBlock countBlocks : ℕ} (hb : beginBlock < 2 ^ 64)
    (hc : countBlocks < 2 ^ 64) : parse isDouble (makeRequestForBlocks beginBlock countBlocks).2 =
      some (requestDoc [(lit "beginBlock", .int beginBlock), (lit "countBlocks", .int countBlocks),
        (lit "type", .str (lit "forP2P")), (lit "direction", .str (lit "forward"))]) := by
  have hbegin : lit "\x7b\"id\":1,\"params\":\x7b\"beginBlock\": " =
      lit "\x7b\"id\":1,\"params\":\x7b" ++ (quoted (lit "beginBlock") ++ lit ": ") := by
    decide +kernel
  have hcount : lit ", \"countBlocks\": " = lit ", " ++ (quoted (lit "countBlocks") ++ lit ": ") := by
    decide +kernel
  have hend : lit ", \"type\": \"forP2P\", \"direction\": \"forward\"\x7d\x7d" =
      lit ", " ++ (quoted (lit "type") ++ (lit ": " ++ (quoted (lit "forP2P") ++ (lit ", " ++
        (quoted (lit "direction") ++ (lit ": " ++ (quoted (lit "forward") ++
          (lit "\x7d" ++ lit "\x7d")))))))) := by decide +kernel
  have hdoc : parse isDouble _ = _ := parse_request
    (readsMembers_cons (lit "beginBlock") (reads_decimal hb)
      (readsMembers_cons (lit "countBlocks") (reads_decimal hc)
        (readsMembers_cons (lit "type") (reads_quoted (lit "forP2P"))
          (readsMembers_last (lit "direction") (reads_quoted (lit "forward"))))))
  rw [makeRequestForBlocks, hbegin, hcount, hend]
  simpa only [List.append_assoc] using hdoc

/-! ### Dumps -/

/-- A text of hexadecimal digits. -/
def HexText (s : Bytes) : Prop := ∀ c ∈ s, c ∈ lit "0123456789abcdefABCDEF"

instance (s : Bytes) : Decidable (HexText s) := inferInstanceAs (Decidable (∀ c ∈ s, _))

theorem HexText.plain {s : Bytes} (h : HexText s) : Plain s := by
  have hplain : Plain (lit "0123456789abcdefABCDEF") := by decide +kernel
  exact fun c hc => hplain c (h c hc)

theorem HexText.ne_zero {s : Bytes} (h : HexText s) : 0 ∉ s := by
  have hzero : 0 ∉ lit "0123456789abcdefABCDEF" := by decide +kernel
  exact fun hc => hzero (h 0 hc)

theorem reads_hexText {s : Bytes} (h : HexText s) :
    Reads isDouble (.str s) (lit "\"" ++ (s ++ lit "\"")) := reads_plain h.plain

/-- The document of a request for a part of a dump. -/
theorem parse_makeRequestForDumpBlock {hash : Bytes} (hhash : HexText hash) {fromByte toByte : ℕ}
    (hfrom : fromByte < 2 ^ 64) (hto : toByte < 2 ^ 64) :
    parse isDouble (makeRequestForDumpBlock hash fromByte toByte).2 =
      some (requestDoc [(lit "hash", .str hash), (lit "fromByte", .int fromByte),
        (lit "toByte", .int toByte), (lit "isHex", .bool false)]) := by
  have hbegin : lit "\x7b\"id\":1,\"params\":\x7b\"hash\": \"" =
      lit "\x7b\"id\":1,\"params\":\x7b" ++ (quoted (lit "hash") ++ (lit ": " ++ lit "\"")) := by
    decide +kernel
  have hfromByte : lit "\" , \"fromByte\": " =
      lit "\"" ++ (lit " , " ++ (quoted (lit "fromByte") ++ lit ": ")) := by decide +kernel
  have htoByte : lit ", \"toByte\": " = lit ", " ++ (quoted (lit "toByte") ++ lit ": ") := by
    decide +kernel
  have hend : lit ", \"isHex\": false\x7d\x7d" =
      lit ", " ++ (quoted (lit "isHex") ++ (lit ": " ++ (boolText false ++
        (lit "\x7d" ++ lit "\x7d")))) := by decide +kernel
  have hdoc : parse isDouble _ = _ := parse_request
    (readsMembers_cons_blank (lit "hash") (reads_hexText hhash)
      (readsMembers_cons (lit "fromByte") (reads_decimal hfrom)
        (readsMembers_cons (lit "toByte") (reads_decimal hto)
          (readsMembers_last (lit "isHex") (reads_boolText false)))))
  rw [makeRequestForDumpBlock, hbegin, hfromByte, htoByte, hend]
  simpa only [List.append_assoc] using hdoc

/-- The document of a request for the dump of one block. -/
theorem parse_makeRequestForDump {hash : Bytes} (hhash : HexText hash) (isSign isCompress : Bool) :
    parse isDouble (makeRequestForDump hash isSign isCompress).2 =
      some (requestDoc [(lit "hash", .str hash), (lit "isHex", .bool false),
        (lit "isSign", .bool isSign), (lit "compress", .bool isCompress)]) := by
  have hbegin : lit "\x7b\"id\":1,\"params\":\x7b\"hash\": \"" =
      lit "\x7b\"id\":1,\"params\":\x7b" ++ (quoted (lit "hash") ++ (lit ": " ++ lit "\"")) := by
    decide +kernel
  have hisHex : lit "\" , \"isHex\": false, " =
      lit "\"" ++ (lit " , " ++ (quoted (lit "isHex") ++ (lit ": " ++ (boolText false ++ lit ", ")))) := by
    decide +kernel
  have hisSign : lit "\"isSign\": " = quoted (lit "isSign") ++ lit ": " := by decide +kernel
  have hcompress : lit ", \"compress\": " = lit ", " ++ (quoted (lit "compress") ++ lit ": ") := by
    decide +kernel
  have hend : lit "\x7d\x7d" = lit "\x7d" ++ lit "\x7d" := by decide +kernel
  have hdoc : parse isDouble _ = _ := parse_request
    (readsMembers_cons_blank (lit "hash") (reads_hexText hhash)
      (readsMembers_cons (lit "isHex") (reads_boolText false)
        (readsMembers_cons (lit "isSign") (reads_boolText isSign)
          (readsMembers_last (lit "compress") (reads_boolText isCompress)))))
  rw [makeRequestForDump, hbegin, hisHex, hisSign, hcompress, hend]
  simpa only [List.append_assoc] using hdoc

/-- The array of the hashes of a batch. -/
theorem readsElements_hashesText {hash : Bytes} {hashes : List Bytes}
    (h : ∀ s ∈ hash :: hashes, HexText s) :
    ReadsElements isDouble ((hash :: hashes).map Json.str)
      (hashesText (hash :: hashes) ++ lit "]") := by
  have hhash : Reads isDouble _ _ := reads_hexText (h hash List.mem_cons_self)
  induction hashes generalizing hash with
  | nil =>
    have hlast := ReadsElements.last hhash blank_nil
    simp only [List.nil_append, List.append_assoc] at hlast
    simp only [hashesText, List.append_assoc]
    exact hlast
  | cons hash' hashes ih =>
    have hmem : ∀ s ∈ hash' :: hashes, HexText s := fun s hs => h s (List.mem_cons_of_mem _ hs)
    have hcons := ReadsElements.cons hhash blank_nil blank_space
      (ih hmem (reads_hexText (hmem hash' List.mem_cons_self)))
    simp only [List.nil_append, List.append_assoc] at hcons
    simp only [hashesText, List.append_assoc]
    exact hcons

theorem reads_hashesText {hashes : List Bytes} (h : ∀ s ∈ hashes, HexText s) :
    Reads isDouble (.arr (hashes.map Json.str)) (lit "[" ++ (hashesText hashes ++ lit "]")) := by
  cases hashes with
  | nil => exact reads_arr_nil
  | cons hash hashes => exact (readsElements_hashesText h).arr blank_nil

/-- The document of a request for the dumps of several blocks. -/
theorem parse_makeRequestForDumps {hashes : List Bytes} (h : ∀ s ∈ hashes, HexText s)
    (isSign isCompress : Bool) : parse isDouble (makeRequestForDumps hashes isSign isCompress).2 =
      some (requestDoc [(lit "hashes", .arr (hashes.map Json.str)), (lit "isSign", .bool isSign),
        (lit "compress", .bool isCompress)]) := by
  have hbegin : lit "\x7b\"id\":1,\"params\":\x7b\"hashes\": [" =
      lit "\x7b\"id\":1,\"params\":\x7b" ++ (quoted (lit "hashes") ++ (lit ": " ++ lit "[")) := by
    decide +kernel
  have hisSign : lit "], \"isSign\": " =
      lit "]" ++ (lit ", " ++ (quoted (lit "isSign") ++ lit ": ")) := by decide +kernel
  have hcompress : lit ", \"compress\": " = lit ", " ++ (quoted (lit "compress") ++ lit ": ") := by
    decide +kernel
  have hend : lit "\x7d\x7d" = lit "\x7d" ++ lit "\x7d" := by decide +kernel
  have hdoc : parse isDouble _ = _ := parse_request
    (readsMembers_cons (lit "hashes") (reads_hashesText h)
      (readsMembers_cons (lit "isSign") (reads_boolText isSign)
        (readsMembers_last (lit "compress") (reads_boolText isCompress))))
  rw [makeRequestForDumps, hbegin, hisSign, hcompress, hend]
  simpa only [List.append_assoc] using hdoc

end

/-! ## Parameters -/

/-- The server reads the request and serves the parameters `q`. -/
def ServedAs (E : ServerEnv) (request : Bytes × Bytes) (q : DumpQuery) : Prop :=
  ∃ doc, Json.parse E.json.isDouble request.2 = some doc ∧ decodeBlockDump doc "hash" = .ok q ∧
    ∀ sync requestId isFormat version, dispatch E sync request.1 doc requestId isFormat version =
      serveBlockDump E.json E.compress sync requestId q isFormat

/-- The server reads the request and serves the parameters `q` of several dumps. -/
def ServedAllAs (E : ServerEnv) (request : Bytes × Bytes) (q : DumpsQuery) : Prop :=
  ∃ doc, Json.parse E.json.isDouble request.2 = some doc ∧ decodeBlockDumps doc "hashes" = .ok q ∧
    ∀ sync requestId isFormat version, dispatch E sync request.1 doc requestId isFormat version =
      serveBlockDumps E.compress sync q

section
variable {E : ServerEnv}

theorem servedAs_of_decode {post : Bytes} {doc : Json} {q : DumpQuery}
    (hparse : Json.parse E.json.isDouble post = some doc)
    (hdecode : decodeBlockDump doc "hash" = .ok q) :
    ServedAs E (lit "get-dump-block-by-hash", post) q := by
  refine ⟨doc, hparse, hdecode, fun sync requestId isFormat version => ?_⟩
  rw [dispatch_dump, Server.getBlockDump, hdecode, ok_bind]

theorem servedAllAs_of_decode {post : Bytes} {doc : Json} {q : DumpsQuery}
    (hparse : Json.parse E.json.isDouble post = some doc)
    (hdecode : decodeBlockDumps doc "hashes" = .ok q) :
    ServedAllAs E (lit "get-dumps-blocks-by-hash", post) q := by
  refine ⟨doc, hparse, hdecode, fun sync requestId isFormat version => ?_⟩
  rw [dispatch_dumps, getBlockDumps_eq E.compress sync hdecode]

section
variable {α ε : Type} (as : Json → Option α) {members : List (Bytes × Json)} {name : String}

theorem memberAs_of_find {j : Json} (h : Json.find (lit name) members = some j) :
    (memberAs as (.obj members) name : Exec ε (Option α)) = .ok (as j) := by
  rw [memberAs, h, Option.bind_some]

theorem memberAs_of_none (h : Json.find (lit name) members = none) :
    (memberAs as (.obj members) name : Exec ε (Option α)) = .ok none := by
  rw [memberAs, h, Option.bind_none]

theorem userField_of_find {j : Json} {a : α} (hj : Json.find (lit name) members = some j)
    (ha : as j = some a) : userField as (.obj members) name = .ok a := by
  rw [userField, memberAs_of_find as hj, ha]
  rfl

end

theorem userField_params (params : List (Bytes × Json)) :
    userField asObject (requestDoc params) "params" = .ok (.obj params) :=
  userField_of_find asObject rfl rfl

/-- What the server reads of a request for a part of a dump. -/
theorem decode_dumpBlock {hash : Bytes} (hhash : 0 ∉ hash) {fromByte toByte : ℕ}
    (hfrom : fromByte < 2 ^ 63) (hto : toByte < 2 ^ 63) :
    decodeBlockDump (requestDoc [(lit "hash", .str hash), (lit "fromByte", .int fromByte),
      (lit "toByte", .int toByte), (lit "isHex", .bool false)]) "hash" =
      .ok { hash, fromByte := UInt64.ofNat fromByte, toByte := UInt64.ofNat toByte } := by
  rw [decodeBlockDump, userField_params, ok_bind, userField_of_find asString rfl (asString_str hhash),
    ok_bind, memberAs_of_find asInt64 rfl, ok_bind, memberAs_of_find asInt64 rfl, ok_bind,
    memberAs_of_find asBool rfl, ok_bind, memberAs_of_none asBool rfl, ok_bind,
    memberAs_of_none asBool rfl, ok_bind, asInt64_natCast hfrom, asInt64_natCast hto, Option.map_some,
    Option.map_some, toSize_natCast (by omega), toSize_natCast (by omega)]
  rfl

/-- What the server reads of a request for the dump of one block. -/
theorem decode_dump {hash : Bytes} (hhash : 0 ∉ hash) (isSign isCompress : Bool) :
    decodeBlockDump (requestDoc [(lit "hash", .str hash), (lit "isHex", .bool false),
      (lit "isSign", .bool isSign), (lit "compress", .bool isCompress)]) "hash" =
      .ok { hash, isSign, isCompress } := by
  rw [decodeBlockDump, userField_params, ok_bind, userField_of_find asString rfl (asString_str hhash),
    ok_bind, memberAs_of_none asInt64 rfl, ok_bind, memberAs_of_none asInt64 rfl, ok_bind,
    memberAs_of_find asBool rfl, ok_bind, memberAs_of_find asBool rfl, ok_bind,
    memberAs_of_find asBool rfl, ok_bind]
  rfl

/-- The parameters of a request for several dumps, up to the hashes. -/
theorem readBlockDumps_dumps (jsonVals : List Json) (isSign isCompress : Bool) :
    readBlockDumps (requestDoc [(lit "hashes", .arr jsonVals), (lit "isSign", .bool isSign),
      (lit "compress", .bool isCompress)]) "hashes" =
      (checkUser (jsonVals.length ≤ 1000) (lit "Too many blocks") >>= fun _ =>
        .ok (jsonVals, isSign, isCompress)) := by
  rw [readBlockDumps, userField_params, ok_bind, memberAs_of_find asBool rfl, ok_bind,
    memberAs_of_find asBool rfl, ok_bind, memberAs_of_find asArray rfl, ok_bind]
  rfl

theorem getJsonField_mapM {hashes : List Bytes} (h : ∀ s ∈ hashes, 0 ∉ s) :
    (hashes.map Json.str).mapM getJsonField = .ok hashes := by
  induction hashes with
  | nil => rfl
  | cons hash hashes ih =>
    rw [List.map_cons, List.mapM_cons, getJsonField, asString_str (h hash List.mem_cons_self),
      ok_bind, ih fun s hs => h s (List.mem_cons_of_mem _ hs)]
    rfl

/-- What the server reads of a request for several dumps. -/
theorem decode_dumps {hashes : List Bytes} (h : ∀ s ∈ hashes, 0 ∉ s) (hlength : hashes.length ≤ 1000)
    (isSign isCompress : Bool) :
    decodeBlockDumps (requestDoc [(lit "hashes", .arr (hashes.map Json.str)),
      (lit "isSign", .bool isSign), (lit "compress", .bool isCompress)]) "hashes" =
      .ok { hashes, isSign, isCompress } := by
  rw [decodeBlockDumps, readBlockDumps_dumps, checkUser,
    check_pos (by rwa [List.length_map]), ok_bind, ok_bind]
  dsimp only
  rw [getJsonField_mapM h, ok_bind]
  rfl

theorem decode_dumps_tooMany {hashes : List Bytes} (hlength : 1000 < hashes.length)
    (isSign isCompress : Bool) :
    decodeBlockDumps (requestDoc [(lit "hashes", .arr (hashes.map Json.str)),
      (lit "isSign", .bool isSign), (lit "compress", .bool isCompress)]) "hashes" =
      .throw (.user (lit "Too many blocks")) := by
  rw [decodeBlockDumps, readBlockDumps_dumps, checkUser,
    check_neg (by rw [List.length_map]; omega), throw_bind, throw_bind]

/-- **The server serves what the client asks for**: a part of a dump, the dump of a block, and the
    dumps of up to 1000 blocks. -/
theorem dump_requests_decoded (E : ServerEnv) {hash : Bytes} (hhash : HexText hash)
    {hashes : List Bytes} (hhashes : ∀ s ∈ hashes, HexText s) (hlength : hashes.length ≤ 1000)
    {fromByte toByte : ℕ} (hle : fromByte ≤ toByte) (hto : toByte < 2 ^ 63)
    (isSign isCompress : Bool) :
    ServedAs E (makeRequestForDumpBlock hash fromByte toByte)
      { hash, fromByte := UInt64.ofNat fromByte, toByte := UInt64.ofNat toByte } ∧
    ServedAs E (makeRequestForDump hash isSign isCompress) { hash, isSign, isCompress } ∧
    ServedAllAs E (makeRequestForDumps hashes isSign isCompress) { hashes, isSign, isCompress } := by
  refine ⟨?_, ?_, ?_⟩
  · exact servedAs_of_decode (parse_makeRequestForDumpBlock hhash (by omega) (by omega))
      (decode_dumpBlock hhash.ne_zero (by omega) hto)
  · exact servedAs_of_decode (parse_makeRequestForDump hhash isSign isCompress)
      (decode_dump hhash.ne_zero isSign isCompress)
  · exact servedAllAs_of_decode (parse_makeRequestForDumps hhashes isSign isCompress)
      (decode_dumps (fun s hs => (hhashes s hs).ne_zero) hlength isSign isCompress)

end

/-- A part of a dump, a dump with a signature, and two dumps. -/
theorem dump_requests_decoded_hex :
    ServedAs ServerEnv.plain (makeRequestForDumpBlock (lit "0aF9") 3 1000)
      { hash := lit "0aF9", fromByte := 3, toByte := 1000 } ∧
    ServedAs ServerEnv.plain (makeRequestForDump (lit "0aF9") true false)
      { hash := lit "0aF9", isSign := true } ∧
    ServedAllAs ServerEnv.plain (makeRequestForDumps [lit "0a", lit "F9"] true false)
      { hashes := [lit "0a", lit "F9"], isSign := true } :=
  dump_requests_decoded ServerEnv.plain (show HexText (lit "0aF9") by decide +kernel)
    (show ∀ s ∈ [lit "0a", lit "F9"], HexText s by decide +kernel) (by decide) (by decide)
    (by decide) true false

/-- The request for a part of a signed dump is not a document, and 1001 dumps are too many. -/
theorem dump_requests_refused :
    ¬ ServedAs ServerEnv.plain (makeRequestForDumpBlockSign (lit "0a") 0 8)
      { hash := lit "0a", fromByte := 0, toByte := 8, isSign := true } ∧
    ¬ ServedAllAs ServerEnv.plain (makeRequestForDumps (List.replicate 1001 (lit "0a")) false false)
      { hashes := List.replicate 1001 (lit "0a") } := by
  constructor
  · rintro ⟨doc, hparse, -⟩
    have hnone : (Json.parse ServerEnv.plain.json.isDouble
        (makeRequestForDumpBlockSign (lit "0a") 0 8).2).isNone = true := by decide +kernel
    rw [hparse] at hnone
    cases hnone
  · have hhex : HexText (lit "0a") := by decide +kernel
    have hmany : 1000 < (List.replicate 1001 (lit "0a")).length := by
      rw [List.length_replicate]
      decide
    rintro ⟨doc, hparse, hdecode, -⟩
    rw [parse_makeRequestForDumps fun s hs => List.eq_of_mem_replicate hs ▸ hhex] at hparse
    rw [← Option.some.inj hparse, decode_dumps_tooMany hmany] at hdecode
    cases hdecode

end GetNewBlocksFromServer

end TorrentNode
