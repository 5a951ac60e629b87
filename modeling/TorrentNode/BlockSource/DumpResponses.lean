/-
  Answers to requests for dumps (`GetNewBlocksFromServer::parseDumpBlockResponse`).

  The server sends a dump as bytes and an error as a document, through the same
  channel.  The client takes an answer of at most 512 bytes between braces for a
  document, and every other answer for a dump.

  `parseDumpBlockResponse_iff`: an answer is taken for what it is exactly if a dump
  does not look like a document, and the document of an error is short enough.
-/
import TorrentNode.BlockChain.Append
import TorrentNode.BlockSource.Requests
import TorrentNode.BlockchainRead.Framing
import TorrentNode.SyncImpl.BlockDump

open Wire Exec

namespace TorrentNode

open P2P (ResponseParse)

namespace GetNewBlocksFromServer

open Server

/-! ## The two kinds of answers -/

/-- The node behind the handlers of the server. -/
def syncOf (C : Crypto) (S : Support) (e : SyncImpl.DumpEnv) (c : BlockChain) : Sync where
  countBlocks := c.countBlocks
  getBlockNumber := c.getBlockNumber
  getBlockHash := c.getBlockHash
  getBlockDump bh fromByte toByte isHex isSign :=
    SyncImpl.getBlockDump C S e bh ⟨fromByte, toByte, isSign⟩ isHex

/-- What the handlers of dumps return in binary. -/
inductive Payload (E : ServerEnv) (sync : Sync) : Bytes → Prop
  | dump {doc : Json} {requestId : RequestId} {isFormat : Bool} {q : DumpQuery} {p : Bytes}
      (hq : decodeBlockDump doc "hash" = .ok q) (hhex : q.isHex = false)
      (hp : Server.getBlockDump E.json E.compress sync requestId doc "hash" isFormat = .ok p) :
      Payload E sync p
  | dumps {doc : Json} {p : Bytes} (hp : getBlockDumps E.compress sync doc "hashes" = .ok p) :
      Payload E sync p

/-- `genErrorResponse(requestId, code, error)`. -/
def errorText (J : JsonUtils) (requestId : RequestId) (code : ℤ) (error : Bytes) : Bytes :=
  J.jsonToString (genErrorResponse requestId code error) false

/-- What the client takes for a document. -/
def LooksLikeJson (p : Bytes) : Prop :=
  p.length ≤ 512 ∧ p.head? = some '{'.toUInt8 ∧ p.getLast? = some '}'.toUInt8

instance (p : Bytes) : Decidable (LooksLikeJson p) := inferInstanceAs (Decidable (_ ∧ _))

/-- The text of an object stands between braces. -/
structure Braced (J : JsonUtils) : Prop where
  head : ∀ members, (J.jsonToString (.obj members) false).head? = some '{'.toUInt8
  last : ∀ members, (J.jsonToString (.obj members) false).getLast? = some '}'.toUInt8

theorem getLast?_writeMembers (members : List (Bytes × Json)) :
    (Json.writeMembers members).getLast? = some '}'.toUInt8 := by
  induction members with
  | nil => rfl
  | cons m members ih => simp [Json.writeMembers, List.getLast?_append, List.getLast?_cons, ih]

theorem braced_compact (isDouble : Bytes → Bool) : Braced (JsonUtils.compact isDouble) where
  head members := by
    cases members with
    | nil => rfl
    | cons m members => simp [JsonUtils.compact, Json.write, Json.ch]
  last members := by
    cases members with
    | nil => rfl
    | cons m members =>
      simp [JsonUtils.compact, Json.write, List.getLast?_append, List.getLast?_cons,
        getLast?_writeMembers]

/-! ## Dumps -/

/-- A field that is read comes from a member. -/
theorem fieldAs_eq_ok {α : Type} {as : Json → Option α} {json : Json} {name : String} {a : α}
    (h : fieldAs as json name = .ok a) :
    ∃ members j, json = .obj members ∧ Json.find (lit name) members = some j ∧ as j = some a := by
  obtain ⟨r, hr, h⟩ := bind_eq_ok.1 h
  cases json with
  | obj members =>
    have hr' : (Json.find (lit name) members).bind as = r := Exec.ok.inj hr
    cases r with
    | none => cases h
    | some a' =>
      cases h
      obtain ⟨j, hj, ha⟩ := Option.bind_eq_some_iff.1 hr'
      exact ⟨members, j, rfl, hj, ha⟩
  | _ => cases hr

section
variable (J : JsonUtils)

/-- The dump in a document. -/
def documentDump (result : Bytes) : Exec Exn Bytes := do
  let doc ← parseResponse J result
  let resultJson ← fieldAs asObject doc "result"
  fieldAs asString resultJson "dump"

variable {J}

/-- The document that is read from a response. -/
theorem parse_of_parseResponse {p : Bytes} {doc : Json} (h : parseResponse J p = .ok doc) :
    Json.parse J.isDouble p = some doc := by
  rw [parseResponse] at h
  split at h
  · cases h
  · next doc' hdoc =>
    obtain ⟨error, -, h'⟩ := bind_eq_ok.1 h
    rw [hdoc]
    rcases error with _ | error
    · cases h'; rfl
    · cases error <;> cases h'
      rfl

/-- A dump in a document is shorter than the document. -/
theorem documentDump_length {p response : Bytes} (hhead : p.head? = some '{'.toUInt8)
    (h : documentDump J p = .ok response) : response.length < p.length := by
  obtain ⟨doc, hdoc, h₁⟩ := bind_eq_ok.1 h
  obtain ⟨resultJson, hresult, h₂⟩ := bind_eq_ok.1 h₁
  obtain ⟨members, j, rfl, hj, hobj⟩ := fieldAs_eq_ok hresult
  obtain ⟨members', dump, rfl, hdump, hstr⟩ := fieldAs_eq_ok h₂
  obtain ⟨ms, hms, hlt⟩ := Json.parse_obj_length hhead (parse_of_parseResponse hdoc)
  cases hms
  have h₁ := Json.stringSize_find hj
  have h₂ := Json.stringSize_find hdump
  have h₃ : Json.stringSize j = Json.stringSizeMembers members' := by
    cases j <;> cases hobj
    rfl
  have h₄ : response.length ≤ Json.stringSize dump := by
    cases dump <;> cases hstr
    exact (List.takeWhile_sublist _).length_le
  omega

theorem parseDumpBlockResponse_eq {p : Bytes} (hp : p ≠ []) :
    parseDumpBlockResponse J p = if LooksLikeJson p then
      match documentDump J p with
      | .ok response => .ok { response := response, error := none }
      | .throw (.common message) => .ok { response := [], error := some message }
      | r => r >>= fun response => .ok { response := response, error := none }
    else .ok { response := p, error := none } := by
  rw [parseDumpBlockResponse, if_neg hp]
  rfl

/-- An answer is taken for a dump exactly if it does not look like a document. -/
theorem parseDumpBlockResponse_payload_iff (p : Bytes) :
    parseDumpBlockResponse J p = .ok { response := p, error := none } ↔ ¬ LooksLikeJson p := by
  by_cases hp : p = []
  · subst hp
    exact iff_of_true rfl (by decide)
  rw [parseDumpBlockResponse_eq hp]
  by_cases hjson : LooksLikeJson p
  swap
  · rw [if_neg hjson]
    exact iff_of_true rfl hjson
  refine iff_of_false ?_ (not_not.2 hjson)
  rw [if_pos hjson]
  intro h
  split at h
  · next response hresponse =>
    cases h
    exact absurd (documentDump_length hjson.2.1 hresponse) (lt_irrefl _)
  · cases h
  · next hno _ =>
    obtain ⟨response, hresponse, -⟩ := bind_eq_ok.1 h
    exact hno _ hresponse

/-! ## Errors -/

section
variable {requestId : RequestId} (hid : requestId.Fits) {code : ℤ}
  (hcode : -2 ^ 31 ≤ code ∧ code < 2 ^ 31) (error : Bytes)
include hid hcode

/-- The document of an error is read, and its error is found. -/
theorem documentDump_errorText :
    ∃ message, documentDump J (errorText J requestId code error) = .throw (.common message) := by
  have hint : (genErrorResponse requestId code error).Integral := by
    have herror : (Json.obj [(lit "code", .int code), (lit "message", .str error)]).Integral :=
      ⟨⟨by omega, by omega⟩, trivial, trivial⟩
    cases requestId with
    | notSet => exact ⟨herror, trivial⟩
    | str id => exact ⟨trivial, herror, trivial⟩
    | num id => exact ⟨by have : id < 2 ^ 64 := hid; constructor <;> omega, herror, trivial⟩
  have hresponse : ∃ message, parseResponse J (errorText J requestId code error) =
      .throw (.common message) := by
    rw [parseResponse, errorText, J.parse_jsonToString _ _ hint]
    cases requestId <;> exact ⟨_, rfl⟩
  obtain ⟨message, hmessage⟩ := hresponse
  exact ⟨message, by rw [documentDump, hmessage]; rfl⟩

/-- The document of an error is taken for an error exactly if it is short. -/
theorem parseDumpBlockResponse_errorText_iff (hJ : Braced J) :
    (∃ message, parseDumpBlockResponse J (errorText J requestId code error) =
        .ok { response := [], error := some message }) ↔
      (errorText J requestId code error).length ≤ 512 := by
  have hhead : (errorText J requestId code error).head? = some '{'.toUInt8 := hJ.head _
  have hlast : (errorText J requestId code error).getLast? = some '}'.toUInt8 := hJ.last _
  constructor
  · rintro ⟨message, h⟩
    by_contra hlen
    have hjson : ¬ LooksLikeJson (errorText J requestId code error) := fun hjson => hlen hjson.1
    rw [(parseDumpBlockResponse_payload_iff _).2 hjson] at h
    exact absurd (congrArg ResponseParse.error (Exec.ok.inj h)) (by simp)
  · intro hlen
    obtain ⟨message, hmessage⟩ := documentDump_errorText hid hcode error
    refine ⟨message, ?_⟩
    rw [parseDumpBlockResponse_eq (fun h0 => by rw [h0] at hhead; cases hhead),
      if_pos ⟨hlen, hhead, hlast⟩, hmessage]

end

end

/-- **How the two kinds of answers are told apart**: an answer is taken for a dump exactly if it is
    not a text of at most 512 bytes between braces, and the document of an error for an error exactly
    if it has at most 512 bytes. -/
theorem parseDumpBlockResponse_iff {J : JsonUtils} (hJ : Braced J) :
    (∀ p, parseDumpBlockResponse J p = .ok { response := p, error := none } ↔ ¬ LooksLikeJson p) ∧
    ∀ (requestId : RequestId) (code : ℤ) (error : Bytes), requestId.Fits →
      -2 ^ 31 ≤ code ∧ code < 2 ^ 31 →
      ((∃ message, parseDumpBlockResponse J (errorText J requestId code error) =
          .ok { response := [], error := some message }) ↔
        (errorText J requestId code error).length ≤ 512) :=
  ⟨parseDumpBlockResponse_payload_iff,
    fun _ _ error hid hcode => parseDumpBlockResponse_errorText_iff hid hcode error hJ⟩

/-- A dump of one byte, and the error of an unknown block. -/
theorem parseDumpBlockResponse_short :
    parseDumpBlockResponse (JsonUtils.compact fun _ => true) [1] =
        .ok { response := [1], error := none } ∧
      ∃ message, parseDumpBlockResponse (JsonUtils.compact fun _ => true)
        (errorText (JsonUtils.compact fun _ => true) (.num 1) (-32603) (lit "block 00 not found")) =
          .ok { response := [], error := some message } := by
  have h := parseDumpBlockResponse_iff (braced_compact fun _ => true)
  refine ⟨(h.1 [1]).2 (by decide), (h.2 (.num 1) (-32603) (lit "block 00 not found") ?_ ?_).2 ?_⟩
  · show 1 < 2 ^ 64
    decide
  · decide
  · decide +kernel

/-! ## Answers that are confused -/

/-- A block with a transaction whose data are a pair of braces. -/
def bracesBlock : Buf where
  beginPos := 4096
  bytes := List.replicate 80 0 ++ [34] ++ List.replicate 28 0 ++ [2, 0x7b, 0x7d] ++ [0, 0, 1] ++ [0]
  inUserSpace := by decide

/-- The header of the block, and where its dump stands. -/
def bracesHeader : BlockHeader where
  hash := lit "0a"
  prevHash := BlockChain.genesisHash
  filePos := { pos := 0, fileName := lit "f" }

/-- A node that has the block in the file `f`. -/
def bracesNode : Sync :=
  syncOf Sample.crypto Sample.support
    { modules := ⟨true, true, false, false⟩
      blockDumpCache := fun _ => none
      files := fun name => if name = lit "f" then some (blockRecord bracesBlock.bytes) else none
      privateKey := none }
    (BlockChain.new.append bracesHeader)

/-- The parameters of the request for the data of the transaction. -/
def bracesRequest : Json :=
  requestDoc [(lit "hash", .str (lit "0a")), (lit "fromByte", .int 110), (lit "toByte", .int 112)]

/-- The data of a transaction are taken for a document, and a long error for a dump. -/
theorem dump_answers_confused :
    (∃ bi, readBlockTxs bracesBlock sampleLibs ⟨0, false, false, 0, 0⟩ {} = .ok bi) ∧
    (¬ ∀ p, Payload ServerEnv.plain bracesNode p →
      parseDumpBlockResponse ServerEnv.plain.json p = .ok { response := p, error := none }) ∧
    ¬ ∀ error, ∃ message, parseDumpBlockResponse ServerEnv.plain.json
      (errorText ServerEnv.plain.json .notSet (-32603) error) =
        .ok { response := [], error := some message } := by
  refine ⟨⟨_, rfl⟩, ?_, ?_⟩
  · intro h
    have hq : decodeBlockDump bracesRequest "hash" =
        .ok { hash := lit "0a", fromByte := 110, toByte := 112 } := rfl
    have hp : Server.getBlockDump ServerEnv.plain.json ServerEnv.plain.compress bracesNode .notSet
        bracesRequest "hash" false = .ok (lit "\x7b\x7d") := by decide +kernel
    have hread := h _ (.dump hq rfl hp)
    exact absurd hread (by decide +kernel)
  · intro h
    obtain ⟨message, hread⟩ := h (List.replicate 512 'a'.toUInt8)
    have hjson : ¬ LooksLikeJson (errorText ServerEnv.plain.json .notSet (-32603)
        (List.replicate 512 'a'.toUInt8)) := by decide +kernel
    rw [(parseDumpBlockResponse_payload_iff _).2 hjson] at hread
    cases hread

end GetNewBlocksFromServer

end TorrentNode
