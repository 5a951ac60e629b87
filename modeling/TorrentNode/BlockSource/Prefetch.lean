/-
  Headers that are loaded in advance.

  `getBlockHeader` cuts the blocks it loads into parts, asks for each part with a
  request of its own and puts the headers of the answers into the cache.  A part
  with one block is asked for, and read, in another way: the request names the
  block `blockNum + number` although the part begins at
  `blockNum + number * countBlocksInBatch`, and the number in the answer is not
  looked at.  The server reads the first block of a part as an `int`.

  `prefetches_iff`: a call that misses the cache loads the headers of an honest
  server, and no headers with other numbers from any server, if and only if no
  part has one block and the last part begins below `2 ^ 31`.
-/
import TorrentNode.BlockSource.Requests

open Wire Exec

namespace TorrentNode

open Server

namespace GetNewBlocksFromServer

/-! ## Parts -/

section
variable {countBlocksInBatch countBlocks : ℕ}

theorem lt_countParts (hb : 0 < countBlocksInBatch) {i : ℕ} :
    i < countParts countBlocksInBatch countBlocks ↔ i * countBlocksInBatch < countBlocks := by
  rw [countParts, Nat.lt_iff_add_one_le, Nat.le_div_iff_mul_le hb, Nat.add_mul]
  omega

theorem blocksInPart_pos (hb : 0 < countBlocksInBatch) {i : ℕ}
    (h : i * countBlocksInBatch < countBlocks) : 0 < blocksInPart countBlocksInBatch countBlocks i := by
  rw [blocksInPart]
  omega

/-- There is no part with one block. -/
theorem blocksInPart_ne_one (hb : 2 ≤ countBlocksInBatch) (h : countBlocks % countBlocksInBatch ≠ 1)
    (i : ℕ) : blocksInPart countBlocksInBatch countBlocks i ≠ 1 := by
  intro hone
  have hcount : countBlocks = 1 + countBlocksInBatch * i := by
    rw [Nat.mul_comm]
    rw [blocksInPart] at hone
    omega
  rw [hcount, Nat.add_mul_mod_self_left, Nat.mod_eq_of_lt (by omega)] at h
  exact h rfl

/-- The parts up to `k` are the blocks in front of part `k`. -/
theorem range_parts_upTo (blockNum k : ℕ) :
    (List.range k).flatMap (fun i => List.range' (blockNum + i * countBlocksInBatch)
      (blocksInPart countBlocksInBatch countBlocks i)) =
      List.range' blockNum (min countBlocks (k * countBlocksInBatch)) := by
  induction k with
  | zero => simp
  | succ k ih =>
    rw [List.range_succ, List.flatMap_append, ih, List.flatMap_singleton, blocksInPart, Nat.add_mul,
      Nat.one_mul]
    by_cases hk : k * countBlocksInBatch < countBlocks
    · rw [Nat.min_eq_right (Nat.le_of_lt hk), List.range'_append_1]
      congr 1
      omega
    · rw [Nat.sub_eq_zero_of_le (by omega), Nat.min_zero, List.range'_zero, List.append_nil]
      congr 1
      omega

/-- The parts are the blocks. -/
theorem range_parts (hb : 0 < countBlocksInBatch) (blockNum : ℕ) :
    (List.range (countParts countBlocksInBatch countBlocks)).flatMap
      (fun i => List.range' (blockNum + i * countBlocksInBatch)
        (blocksInPart countBlocksInBatch countBlocks i)) = List.range' blockNum countBlocks := by
  rw [range_parts_upTo, Nat.min_eq_left]
  have hend : ¬ countParts countBlocksInBatch countBlocks * countBlocksInBatch < countBlocks :=
    (lt_countParts hb).not.1 (lt_irrefl _)
  omega

end

/-! ## Answers -/

/-- The headers of some blocks, each with its number. -/
def numbered (hdr : ℕ → MinimumBlockHeader) (numbers : List ℕ) : List (ℕ × MinimumBlockHeader) :=
  numbers.map fun n => (n, hdr n)

theorem addHeaders_range' (hdr : ℕ → MinimumBlockHeader) {k blockNum : ℕ}
    (h : ∀ n ∈ List.range' blockNum k, (hdr n).number = n) (headers : List (ℕ × MinimumBlockHeader)) :
    addHeaders blockNum ((List.range' blockNum k).map hdr) headers =
      (.ok (), headers ++ numbered hdr (List.range' blockNum k)) := by
  induction k generalizing blockNum headers with
  | zero => simp [addHeaders, numbered]
  | succ k ih =>
    rw [List.range'_succ] at h ⊢
    have hfirst := h blockNum List.mem_cons_self
    rw [List.map_cons, addHeaders, if_neg (not_not.2 hfirst),
      ih fun n hn => h n (List.mem_cons_of_mem _ hn)]
    simp [numbered]

/-- What `addHeaders` puts into the cache has the right number. -/
theorem addHeaders_numbers {blocks : List MinimumBlockHeader} {blockNum : ℕ}
    {headers : List (ℕ × MinimumBlockHeader)} (h : ∀ p ∈ headers, p.2.number = p.1) :
    ∀ p ∈ (addHeaders blockNum blocks headers).2, p.2.number = p.1 := by
  induction blocks generalizing blockNum headers with
  | nil => exact h
  | cons block blocks ih =>
    rw [addHeaders]
    split_ifs with hne
    · exact h
    · refine ih ?_
      intro p hp
      rcases List.mem_append.1 hp with hp | hp
      · exact h p hp
      · rw [List.mem_singleton.1 hp]
        exact not_not.1 hne

section
variable {J : JsonUtils} {blockNum countBlocksInBatch countBlocks : ℕ}

theorem addAnswer_numbers {i : ℕ} (hne : blocksInPart countBlocksInBatch countBlocks i ≠ 1)
    (answer : Bytes) {headers : List (ℕ × MinimumBlockHeader)}
    (h : ∀ p ∈ headers, p.2.number = p.1) :
    ∀ p ∈ (addAnswer J blockNum countBlocksInBatch countBlocks i answer headers).2,
      p.2.number = p.1 := by
  rw [addAnswer, if_pos hne]
  split
  · split_ifs
    · exact h
    · exact addHeaders_numbers h
  · exact h

/-- **Without parts of one block**, what any answers put into the cache has the right number. -/
theorem addAnswers_numbers (hne : ∀ i, blocksInPart countBlocksInBatch countBlocks i ≠ 1)
    {answers : List StdString} {i : ℕ} {headers : List (ℕ × MinimumBlockHeader)}
    (h : ∀ p ∈ headers, p.2.number = p.1) :
    ∀ p ∈ (addAnswers J blockNum countBlocksInBatch countBlocks i answers headers).2,
      p.2.number = p.1 := by
  induction answers generalizing i headers with
  | nil => exact h
  | cons answer answers ih =>
    have hstep : ∀ p ∈ (addAnswer J blockNum countBlocksInBatch countBlocks i answer.1 headers).2, _ :=
      addAnswer_numbers (hne i) answer.1 h
    rw [addAnswers]
    split
    · rename_i headers' heq
      rw [heq] at hstep
      exact ih hstep
    · exact hstep

/-- An answer that puts the headers `hdr` of part `i` into the cache. -/
def Fills (J : JsonUtils) (blockNum countBlocksInBatch countBlocks : ℕ)
    (hdr : ℕ → MinimumBlockHeader) (i : ℕ) (answer : Bytes) : Prop :=
  ∀ headers, addAnswer J blockNum countBlocksInBatch countBlocks i answer headers =
    (.ok (), headers ++ numbered hdr (List.range' (blockNum + i * countBlocksInBatch)
      (blocksInPart countBlocksInBatch countBlocks i)))

theorem addAnswers_fill {hdr : ℕ → MinimumBlockHeader} {answers : List StdString} {i : ℕ}
    (h : ∀ k a, answers[k]? = some a →
      Fills J blockNum countBlocksInBatch countBlocks hdr (i + k) a.1)
    (headers : List (ℕ × MinimumBlockHeader)) :
    addAnswers J blockNum countBlocksInBatch countBlocks i answers headers =
      (.ok (), headers ++ numbered hdr ((List.range' i answers.length).flatMap fun i =>
        List.range' (blockNum + i * countBlocksInBatch)
          (blocksInPart countBlocksInBatch countBlocks i))) := by
  induction answers generalizing i headers with
  | nil => simp [addAnswers, numbered]
  | cons answer answers ih =>
    have hfirst : Fills J blockNum countBlocksInBatch countBlocks hdr i answer.1 := h 0 answer rfl
    have hrest : ∀ k a, answers[k]? = some a →
        Fills J blockNum countBlocksInBatch countBlocks hdr (i + 1 + k) a.1 := by
      intro k a ha
      rw [Nat.add_assoc, Nat.add_comm 1 k]
      exact h (k + 1) a (by rwa [List.getElem?_cons_succ])
    rw [addAnswers, hfirst]
    dsimp only
    rw [ih hrest]
    simp [numbered, List.range'_succ]

end

section
variable {J : JsonUtils} {blockNum countBlocksInBatch countBlocks i : ℕ}
  {hdr : ℕ → MinimumBlockHeader} {answer : Bytes}

/-- An answer with the headers of a part. -/
theorem fills_of_parse (hne : blocksInPart countBlocksInBatch countBlocks i ≠ 1)
    (hparse : parseBlocksHeader J answer =
      .ok ((List.range' (blockNum + i * countBlocksInBatch)
        (blocksInPart countBlocksInBatch countBlocks i)).map hdr))
    (hnumber : ∀ n ∈ List.range' (blockNum + i * countBlocksInBatch)
      (blocksInPart countBlocksInBatch countBlocks i), (hdr n).number = n) :
    Fills J blockNum countBlocksInBatch countBlocks hdr i answer := by
  intro headers
  rw [addAnswer, if_pos hne, hparse]
  dsimp only
  rw [if_neg (by simp), addHeaders_range' hdr hnumber]

/-- An answer with the header of a part of one block, whatever number it has. -/
theorem fills_of_parse_one (hone : blocksInPart countBlocksInBatch countBlocks i = 1)
    (hparse : parseBlockHeader J answer = .ok (hdr (blockNum + i * countBlocksInBatch))) :
    Fills J blockNum countBlocksInBatch countBlocks hdr i answer := by
  intro headers
  rw [addAnswer, if_neg (not_not.2 hone), hparse, hone]
  rfl

end

section
variable {J : JsonUtils} {g : Getter} {p2p : P2PCalls} {blockNum maxBlockNum : ℕ} {server : Bytes}

theorem getBlockHeader_miss (hmiss : ∀ p ∈ g.advancedLoadsBlocksHeaders, p.1 ≠ blockNum) :
    g.getBlockHeader J p2p blockNum maxBlockNum server =
      g.loadBlockHeaders J p2p blockNum maxBlockNum server := by
  have hnone : g.advancedLoadsBlocksHeaders.find? (·.1 = blockNum) = none := by
    rw [List.find?_eq_none]
    intro p hp
    simpa using hmiss p hp
  rw [Getter.getBlockHeader, hnone]

/-- The requests of a call. -/
def Getter.headersRequest (g : Getter) (blockNum maxBlockNum number : ℕ) : Bytes × Bytes :=
  makeHeadersRequest blockNum g.countBlocksInBatch (g.countBlocks blockNum maxBlockNum) number

theorem requestHeaders_eq (hbatch : 0 < g.countBlocksInBatch)
    (hcount : 0 < g.countBlocks blockNum maxBlockNum) {answers : List StdString}
    (h : p2p.requests (g.headerParts blockNum maxBlockNum)
      (fun number => .ok (g.headersRequest blockNum maxBlockNum number)) parseNothing [server] =
        .ok answers) (hlength : answers.length = g.headerParts blockNum maxBlockNum) :
    g.requestHeaders p2p blockNum maxBlockNum server = .ok answers := by
  have hparts : 0 < g.headerParts blockNum maxBlockNum := by
    rw [Getter.headerParts, lt_countParts hbatch]
    omega
  have h' : p2p.requests (g.headerParts blockNum maxBlockNum)
      (fun number => .ok (makeHeadersRequest blockNum g.countBlocksInBatch
        (g.countBlocks blockNum maxBlockNum) number)) parseNothing [server] = .ok answers := h
  rw [Getter.requestHeaders, check_of ⟨Nat.ne_of_gt hcount, Nat.ne_of_gt hparts⟩, ok_bind, h', ok_bind,
    check_of hlength, ok_bind]
  rfl

/-- A call whose requests are answered. -/
theorem loadBlockHeaders_eq (hbatch : 0 < g.countBlocksInBatch) {answers : List StdString}
    (h : g.requestHeaders p2p blockNum maxBlockNum server = .ok answers) :
    g.loadBlockHeaders J p2p blockNum maxBlockNum server =
      (let r := addAnswers J blockNum g.countBlocksInBatch (g.countBlocks blockNum maxBlockNum) 0
        answers []
      (r.1 >>= fun _ =>
        match r.2.head? with
        | some (_, header) => .ok header
        | none => .undef .assertion,
        { g with advancedLoadsBlocksHeaders := r.2 })) := by
  have h' : ({ g with advancedLoadsBlocksHeaders := [] } : Getter).requestHeaders p2p blockNum
      maxBlockNum server = .ok answers := h
  rw [Getter.loadBlockHeaders, if_neg (Nat.ne_of_gt hbatch), h']
  rfl

/-- A call whose requests are answered with headers for the cache. -/
theorem loadBlockHeaders_fill (hbatch : 0 < g.countBlocksInBatch)
    (hcount : 0 < g.countBlocks blockNum maxBlockNum) {hdr : ℕ → MinimumBlockHeader}
    {answers : List StdString}
    (h : g.requestHeaders p2p blockNum maxBlockNum server = .ok answers)
    (hlength : answers.length = g.headerParts blockNum maxBlockNum)
    (hfill : ∀ i a, answers[i]? = some a → Fills J blockNum g.countBlocksInBatch
      (g.countBlocks blockNum maxBlockNum) hdr i a.1) :
    g.loadBlockHeaders J p2p blockNum maxBlockNum server =
      (.ok (hdr blockNum), { g with
        advancedLoadsBlocksHeaders :=
          numbered hdr (List.range' blockNum (g.countBlocks blockNum maxBlockNum)) }) := by
  have hadd := addAnswers_fill (i := 0) (fun k a ha => by simpa only [Nat.zero_add] using hfill k a ha) []
  rw [hlength, ← List.range_eq_range', Getter.headerParts, range_parts hbatch, List.nil_append] at hadd
  obtain ⟨count, hcount⟩ := Nat.exists_eq_succ_of_ne_zero (Nat.ne_of_gt hcount)
  have hhead : (numbered hdr (List.range' blockNum (g.countBlocks blockNum maxBlockNum))).head? =
      some (blockNum, hdr blockNum) := by
    rw [hcount]
    rfl
  rw [loadBlockHeaders_eq hbatch h, hadd]
  dsimp only
  rw [ok_bind, hhead]

end

/-- The peers answer to `n` requests what the server answers. -/
def Serves (E : ServerEnv) (sync : Sync) (p2p : P2PCalls) (server : Bytes) (n : ℕ)
    (request : ℕ → Bytes × Bytes) : Prop :=
  ∃ answers : List StdString,
    p2p.requests n (fun number => .ok (request number)) parseNothing [server] = .ok answers ∧
      answers.length = n ∧ ∀ i a, answers[i]? = some a →
        Server.run E sync (request i).1 (request i).2 = .ok a.1

/-! ## Requests to a server -/

section
variable {E : ServerEnv} {sync : Sync}

theorem run_request {func post response : Bytes} {params : List (Bytes × Json)}
    (hparse : Json.parse E.json.isDouble post = some (requestDoc params))
    (hdispatch : dispatch E sync func (requestDoc params) (.num 1) false .v1 = .ok response) :
    run E sync func post = .ok response := by
  have hid : requestIdOf (requestDoc params) = .ok (.num 1) := rfl
  have hversion : versionOf (requestDoc params) = .ok .v1 := rfl
  have hpretty : (memberAs asBool (requestDoc params) "pretty" : Exec ServerExn _) = .ok none := rfl
  rw [run, hparse]
  dsimp only
  rw [hid]
  dsimp only
  rw [hversion, ok_bind, hpretty, ok_bind, Option.getD_none, hdispatch]

/-- The first block of a part, as the server reads it. -/
def readBegin (beginBlock : ℕ) : ℤ := if beginBlock < 2 ^ 31 then beginBlock else 0

theorem asInt_natCast (n : ℕ) : (asInt (.int n)).getD 0 = readBegin n := by
  rw [asInt, readBegin]
  by_cases h : n < 2 ^ 31
  · rw [if_pos h, if_pos (by omega), Option.getD_some]
  · rw [if_neg h, if_neg (by omega), Option.getD_none]

/-- What the server answers to a request for several headers. -/
theorem run_makeRequestForBlocks {beginBlock countBlocks : ℕ} (hb : beginBlock < 2 ^ 64)
    (hc : countBlocks ≤ 1000) {doc : Json}
    (hdoc : blockHeadersToJson E.support (.num 1)
      ((numbersUp (readBegin beginBlock)
        (min (sync.countBlocks + 1) (readBegin beginBlock + countBlocks))).map fun i =>
          sync.getBlockNumber (toSize i)) .forP2P .v1 = .ok doc) :
    run E sync (makeRequestForBlocks beginBlock countBlocks).1
      (makeRequestForBlocks beginBlock countBlocks).2 = .ok (E.json.jsonToString doc false) := by
  refine run_request (parse_makeRequestForBlocks hb (by omega)) ?_
  have hcount : (asInt (.int countBlocks)).getD 0 = (countBlocks : ℤ) := by
    rw [asInt_natCast, readBegin, if_pos (by omega)]
  have htype : blocksType (.obj [(lit "beginBlock", .int beginBlock),
      (lit "countBlocks", .int countBlocks), (lit "type", .str (lit "forP2P")),
      (lit "direction", .str (lit "forward"))]) = .ok .forP2P := by
    rw [blocksType, memberAs_of_find asString rfl, ok_bind]
    rfl
  have hdirection : asString (.str (lit "forward")) = some (lit "forward") :=
    asString_str (by decide +kernel)
  rw [makeRequestForBlocks, dispatch_blocks, getBlocks, userField_params, ok_bind,
    memberAs_of_find asInt rfl, ok_bind, memberAs_of_find asInt rfl, ok_bind, hcount, asInt_natCast,
    checkUser, check_pos (by omega), ok_bind, htype, ok_bind, memberAs_of_find asString rfl, ok_bind,
    hdirection, check_pos (by omega), ok_bind, if_pos rfl]
  dsimp only
  rw [hdoc]
  rfl

/-- What the server answers to a request for one header. -/
theorem run_makeRequestForBlock {n : ℕ} (hn : n < 2 ^ 63)
    (hnumber : (sync.getBlockNumber n).blockNumber ≠ none) {doc : Json}
    (hdoc : blockHeaderToJson E.support (.num 1) (sync.getBlockNumber n) .forP2P .v1 = .ok doc) :
    run E sync (makeRequestForBlock n).1 (makeRequestForBlock n).2 =
      .ok (E.json.jsonToString doc false) := by
  refine run_request (parse_makeRequestForBlock (by omega)) ?_
  have htype : blockType (.obj [(lit "number", .int n), (lit "type", .str (lit "forP2P"))]) =
      .ok .forP2P := by
    have hstring : asString (.str (lit "forP2P")) = some (lit "forP2P") := asString_str (by decide +kernel)
    rw [blockType, memberAs_of_find asInt rfl, ok_bind]
    show (memberAs asString _ "type" >>= _) = _
    rw [memberAs_of_find asString rfl, ok_bind, hstring]
    rfl
  rw [makeRequestForBlock, dispatch_blockByNumber, getBlockByNumber, userField_params, ok_bind,
    userField_of_find asInt64 rfl (asInt64_natCast hn), ok_bind, htype, ok_bind,
    toSize_natCast (by omega), blockResponse, if_neg hnumber, if_pos (Or.inr (Or.inl rfl)), hdoc]
  rfl

/-- The blocks that are named by `int64_t` numbers. -/
theorem map_numbersUp {α : Type} (f : ℕ → α) {b c : ℕ} (h : b + c ≤ 2 ^ 64) :
    (numbersUp b (b + c)).map (fun i => f (toSize i)) = (List.range' b c).map f := by
  have hlen : ((b : ℤ) + c - b).toNat = c := by omega
  rw [numbersUp, hlen, List.map_map, List.range'_eq_map_range, List.map_map]
  refine List.map_congr_left fun k hk => ?_
  have hk := List.mem_range.1 hk
  rw [Function.comp_apply, Function.comp_apply, ← Nat.cast_add, toSize_natCast (by omega)]

end

/-! ## Honest servers -/

/-- The node has the headers of at least `maxBlockNum` blocks, and each of them can be sent. -/
structure HasChain (sync : Sync) (maxBlockNum : ℕ) : Prop where
  count : maxBlockNum ≤ sync.countBlocks
  header : ∀ n, n ≠ 0 → n < 2 ^ 63 → n ≤ sync.countBlocks → (sync.getBlockNumber n).Sendable n

/-- A call of `getBlockHeader` with an honest server loads the headers of the server; a call with any
    server throws, or the headers in the cache have the numbers under which they stand there. -/
def Prefetches (g : Getter) (blockNum maxBlockNum : ℕ) (server : Bytes) : Prop :=
  ∀ E : ServerEnv,
    (∀ sync p2p, HasChain sync maxBlockNum →
      Serves E sync p2p server (g.headerParts blockNum maxBlockNum)
        (g.headersRequest blockNum maxBlockNum) →
      (g.getBlockHeader E.json p2p blockNum maxBlockNum server).1 =
        .ok (sync.getBlockNumber blockNum).minimum ∧
      (g.getBlockHeader E.json p2p blockNum maxBlockNum server).2.advancedLoadsBlocksHeaders =
        (List.range' blockNum (min (maxBlockNum - blockNum + 1) g.maxAdvancedLoadBlocks)).map
          fun n => (n, (sync.getBlockNumber n).minimum)) ∧
    (∀ p2p, (∃ e, (g.getBlockHeader E.json p2p blockNum maxBlockNum server).1 = .throw e) ∨
      ∀ p ∈ (g.getBlockHeader E.json p2p blockNum maxBlockNum server).2.advancedLoadsBlocksHeaders,
        p.2.number = p.1)

section
variable {g : Getter} {blockNum maxBlockNum : ℕ} {server : Bytes}

theorem headersRequest_of_ne_one {number : ℕ}
    (h : blocksInPart g.countBlocksInBatch (g.countBlocks blockNum maxBlockNum) number ≠ 1) :
    g.headersRequest blockNum maxBlockNum number =
      makeRequestForBlocks (blockNum + number * g.countBlocksInBatch)
        (blocksInPart g.countBlocksInBatch (g.countBlocks blockNum maxBlockNum) number) := by
  rw [Getter.headersRequest, makeHeadersRequest, if_pos h]

/-- The answer of an honest server to the request for a part. -/
theorem parse_run {E : ServerEnv} {sync : Sync} (hchain : HasChain sync maxBlockNum) {b c : ℕ}
    {answer : Bytes} (h0 : b ≠ 0) (h31 : b < 2 ^ 31) (hc : c ≤ 1000) (hle : b + c ≤ maxBlockNum + 1)
    (hrun : run E sync (makeRequestForBlocks b c).1 (makeRequestForBlocks b c).2 = .ok answer) :
    parseBlocksHeader E.json answer =
      .ok ((List.range' b c).map fun n => (sync.getBlockNumber n).minimum) := by
  have hcount := hchain.count
  have hnumbers : (numbersUp (readBegin b) (min (sync.countBlocks + 1) (readBegin b + c))).map
      (fun i => sync.getBlockNumber (toSize i)) = (List.range' b c).map sync.getBlockNumber := by
    rw [readBegin, if_pos h31, min_eq_right (by omega), map_numbersUp _ (by omega)]
  have hsend : ∀ bh ∈ (List.range' b c).map sync.getBlockNumber, ∃ n, bh.Sendable n := by
    intro bh hbh
    obtain ⟨n, hn, rfl⟩ := List.mem_map.1 hbh
    rw [List.mem_range'_1] at hn
    exact ⟨n, hchain.header n (by omega) (by omega) (by omega)⟩
  have hid : (RequestId.num 1).Fits := by
    show 1 < 2 ^ 64
    omega
  obtain ⟨doc, hdoc, hparse⟩ := parseBlocksHeader_response (J := E.json) hid E.support hsend false
  rw [← hnumbers] at hdoc
  rw [run_makeRequestForBlocks (by omega) hc hdoc] at hrun
  cases hrun
  rw [hparse, List.map_map]
  rfl

/-- The answer of an honest server to the request for one header: only the number in the request is
    wrong in a part with one block. -/
theorem parse_run_one {E : ServerEnv} {sync : Sync} (hchain : HasChain sync maxBlockNum) {n : ℕ}
    {answer : Bytes} (h0 : n ≠ 0) (h63 : n < 2 ^ 63) (hle : n ≤ maxBlockNum)
    (hrun : run E sync (makeRequestForBlock n).1 (makeRequestForBlock n).2 = .ok answer) :
    parseBlockHeader E.json answer = .ok (sync.getBlockNumber n).minimum := by
  have hsend := hchain.header n h0 h63 (hle.trans hchain.count)
  have hid : (RequestId.num 1).Fits := by
    show 1 < 2 ^ 64
    omega
  obtain ⟨doc, hdoc, hparse⟩ := parseBlockHeader_response (J := E.json) hid E.support hsend false
  rw [run_makeRequestForBlock h63 (by rw [hsend.number]; simp) hdoc] at hrun
  cases hrun
  exact hparse

/-- **One header from an honest server.** -/
theorem getBlockHeaderWithoutAdvanceLoad_honest {E : ServerEnv} {sync : Sync}
    (hchain : HasChain sync maxBlockNum) {n : ℕ} (h0 : n ≠ 0) (h63 : n < 2 ^ 63) (hle : n ≤ maxBlockNum)
    {runOneRequest : Bytes → Bytes × Bytes → Exec Exn StdString} {response : StdString}
    (hanswer : runOneRequest server (makeRequestForBlock n) = .ok response)
    (hrun : run E sync (makeRequestForBlock n).1 (makeRequestForBlock n).2 = .ok response.1) :
    getBlockHeaderWithoutAdvanceLoad E.json runOneRequest n server =
      .ok (sync.getBlockNumber n).minimum := by
  rw [getBlockHeaderWithoutAdvanceLoad, hanswer, ok_bind]
  exact parse_run_one hchain h0 h63 hle hrun

/-- Without parts of one block, what any call puts into the cache has the right number. -/
theorem loadBlockHeaders_numbers {J : JsonUtils} {p2p : P2PCalls}
    (hne : ∀ i, blocksInPart g.countBlocksInBatch (g.countBlocks blockNum maxBlockNum) i ≠ 1) :
    ∀ p ∈ (g.loadBlockHeaders J p2p blockNum maxBlockNum server).2.advancedLoadsBlocksHeaders,
      p.2.number = p.1 := by
  have hnil : ∀ p ∈ ([] : List (ℕ × MinimumBlockHeader)), p.2.number = p.1 := by simp
  rw [Getter.loadBlockHeaders]
  split_ifs
  · exact hnil
  · split
    · exact addAnswers_numbers hne hnil
    · exact hnil

section
variable (hmiss : ∀ p ∈ g.advancedLoadsBlocksHeaders, p.1 ≠ blockNum) (hblock : 1 ≤ blockNum)
  (hle : blockNum ≤ maxBlockNum) (hbatch : 1 ≤ g.countBlocksInBatch)
  (hadvanced : 1 ≤ g.maxAdvancedLoadBlocks)

include hadvanced in
theorem countBlocks_pos : 0 < g.countBlocks blockNum maxBlockNum := by
  rw [Getter.countBlocks]
  omega

include hmiss hblock hle hbatch hadvanced in
/-- No part has one block, and the server reads where each part begins. -/
theorem prefetches_of (hbatch' : g.countBlocksInBatch ≤ 1000) (h2 : 2 ≤ g.countBlocksInBatch)
    (hmod : g.countBlocks blockNum maxBlockNum % g.countBlocksInBatch ≠ 1)
    (hlast : blockNum + (g.headerParts blockNum maxBlockNum - 1) * g.countBlocksInBatch < 2 ^ 31) :
    Prefetches g blockNum maxBlockNum server := by
  have hne := blocksInPart_ne_one h2 hmod
  have hcount : 0 < g.countBlocks blockNum maxBlockNum := countBlocks_pos hadvanced
  intro E
  constructor
  · rintro sync p2p hchain ⟨answers, hanswers, hlength, hrun⟩
    have hfill : ∀ i a, answers[i]? = some a → Fills E.json blockNum g.countBlocksInBatch
        (g.countBlocks blockNum maxBlockNum) (fun n => (sync.getBlockNumber n).minimum) i a.1 := by
      intro i a ha
      have hi : i < g.headerParts blockNum maxBlockNum := by
        rw [← hlength]
        exact (List.getElem?_eq_some_iff.1 ha).1
      have hmul : i * g.countBlocksInBatch ≤
          (g.headerParts blockNum maxBlockNum - 1) * g.countBlocksInBatch :=
        Nat.mul_le_mul_right _ (by omega)
      have hstart : i * g.countBlocksInBatch < g.countBlocks blockNum maxBlockNum :=
        (lt_countParts hbatch).1 hi
      have hend : blocksInPart g.countBlocksInBatch (g.countBlocks blockNum maxBlockNum) i ≤
          g.countBlocks blockNum maxBlockNum - i * g.countBlocksInBatch := min_le_right _ _
      have hsize : blocksInPart g.countBlocksInBatch (g.countBlocks blockNum maxBlockNum) i ≤
          g.countBlocksInBatch := min_le_left _ _
      have hmax : g.countBlocks blockNum maxBlockNum ≤ maxBlockNum - blockNum + 1 := min_le_left _ _
      have hanswer := hrun i a ha
      rw [headersRequest_of_ne_one (hne i)] at hanswer
      refine fills_of_parse (hne i) (parse_run hchain (by omega) (by omega) (by omega) (by omega)
        hanswer) ?_
      intro n hn
      rw [List.mem_range'_1] at hn
      rw [BlockHeader.minimum,
        (hchain.header n (by omega) (by omega) (by have := hchain.count; omega)).number]
      rfl
    rw [getBlockHeader_miss hmiss, loadBlockHeaders_fill hbatch hcount
      (requestHeaders_eq hbatch hcount hanswers hlength) hlength hfill]
    exact ⟨rfl, rfl⟩
  · intro p2p
    rw [getBlockHeader_miss hmiss]
    exact Or.inr (loadBlockHeaders_numbers hne)

end

end

/-! ## Short answers -/

/-- A header that has only a number. -/
def blankHeader (number : ℕ) : MinimumBlockHeader where
  number := number
  blockSize := 0
  hash := []
  parentHash := []
  fileName := []

/-- The document of a header that has only a number. -/
def blankDoc (number : ℤ) : Json :=
  .obj [(lit "hash", .str []), (lit "prev_hash", .str []), (lit "number", .int number),
    (lit "size", .int 0), (lit "fileName", .str [])]

/-- The number that a client reads as `n`. -/
def wireNumber (n : ℕ) : ℤ := if n < 2 ^ 63 then n else n - 2 ^ 64

/-- The document of a response. -/
def responseDoc (result : Json) : Json :=
  .obj (addIdToResponse (.num 1) ++ [(lit "result", result)])

theorem fits_one : (RequestId.num 1).Fits := by
  show 1 < 2 ^ 64
  omega

theorem parse_blankDoc {n : ℕ} (h : n < 2 ^ 64) :
    parseBlockHeaderJson (blankDoc (wireNumber n)) = .ok (blankHeader n) := by
  have hwire : -2 ^ 63 ≤ wireNumber n ∧ wireNumber n < 2 ^ 63 := by
    rw [wireNumber]
    split_ifs <;> omega
  have hint : asInt64 (.int (wireNumber n)) = some (wireNumber n) := by rw [asInt64, if_pos hwire]
  have hsize : toSize (wireNumber n) = n := by
    rw [toSize, wireNumber]
    split_ifs <;> omega
  have hnumber : fieldAs asInt64 (blankDoc (wireNumber n)) "number" = .ok (wireNumber n) :=
    fieldAs_of_find rfl hint
  have hhash : fieldAs asString (blankDoc (wireNumber n)) "hash" = .ok [] := rfl
  have hprev : fieldAs asString (blankDoc (wireNumber n)) "prev_hash" = .ok [] := rfl
  have hblock : fieldAs asInt64 (blankDoc (wireNumber n)) "size" = .ok 0 := rfl
  have hfile : fieldAs asString (blankDoc (wireNumber n)) "fileName" = .ok [] := rfl
  rw [parseBlockHeaderJson, hnumber, ok_bind, hhash, ok_bind, hprev, ok_bind, hblock, ok_bind, hfile,
    ok_bind, hsize]
  rfl

theorem integral_blankDoc {z : ℤ} (h : -2 ^ 63 ≤ z ∧ z < 2 ^ 64) : (blankDoc z).Integral := by
  simp only [blankDoc, Json.Integral, Json.IntegralMembers, true_and, and_true]
  omega

theorem parseHeadersLoop_blank {ns : List ℕ} (h : ∀ n ∈ ns, n < 2 ^ 64) :
    parseHeadersLoop (ns.map fun n => blankDoc (wireNumber n)) = .ok (ns.map blankHeader) := by
  induction ns with
  | nil => rfl
  | cons n ns ih =>
    rw [List.map_cons, parseHeadersLoop, check_of (by rfl), ok_bind, parse_blankDoc (h n List.mem_cons_self),
      ok_bind, ih fun n hn => h n (List.mem_cons_of_mem _ hn)]
    rfl

theorem wireNumber_bounds {n : ℕ} (h : n < 2 ^ 64) : -2 ^ 63 ≤ wireNumber n ∧ wireNumber n < 2 ^ 64 := by
  rw [wireNumber]
  split_ifs <;> omega

theorem integralElements_blank {zs : List ℤ} (h : ∀ z ∈ zs, -2 ^ 63 ≤ z ∧ z < 2 ^ 64) :
    Json.IntegralElements (zs.map blankDoc) := by
  induction zs with
  | nil => trivial
  | cons z zs ih =>
    exact ⟨integral_blankDoc (h z List.mem_cons_self), ih fun z hz => h z (List.mem_cons_of_mem _ hz)⟩

section
variable {J : JsonUtils}

/-- The client reads the header of a short answer. -/
theorem parseBlockHeader_blank {n : ℕ} (h : n < 2 ^ 64) :
    parseBlockHeader J (J.jsonToString (responseDoc (blankDoc (wireNumber n))) false) =
      .ok (blankHeader n) := by
  have hresult : fieldAs asObject (responseDoc (blankDoc (wireNumber n))) "result" =
      .ok (blankDoc (wireNumber n)) := rfl
  rw [parseBlockHeader, responseDoc,
    parseResponse_result fits_one (integral_blankDoc (wireNumber_bounds h)), ok_bind]
  exact (bind_eq_ok.2 ⟨_, hresult, parse_blankDoc h⟩)

/-- The client reads the headers of a short answer. -/
theorem parseBlocksHeader_blank {ns : List ℕ} (h : ∀ n ∈ ns, n < 2 ^ 64) :
    parseBlocksHeader J (J.jsonToString
      (responseDoc (.arr (ns.map fun n => blankDoc (wireNumber n)))) false) =
        .ok (ns.map blankHeader) := by
  have hresult : fieldAs asArray (responseDoc (.arr (ns.map fun n => blankDoc (wireNumber n)))) "result" =
      .ok (ns.map fun n => blankDoc (wireNumber n)) := rfl
  have hint : (Json.arr (ns.map fun n => blankDoc (wireNumber n))).Integral := by
    have hwire : ∀ z ∈ ns.map wireNumber, -2 ^ 63 ≤ z ∧ z < 2 ^ 64 := by
      intro z hz
      obtain ⟨n, hn, rfl⟩ := List.mem_map.1 hz
      exact wireNumber_bounds (h n hn)
    have hns := integralElements_blank hwire
    rwa [List.map_map] at hns
  rw [parseBlocksHeader, responseDoc, parseResponse_result fits_one hint, ok_bind]
  exact bind_eq_ok.2 ⟨_, hresult, parseHeadersLoop_blank h⟩

end

theorem length_decimalAux {fuel n k : ℕ} (h : n < 10 ^ (k + 1)) :
    (Json.decimalAux fuel n).length ≤ k + 1 := by
  induction fuel generalizing n k with
  | zero => simp [Json.decimalAux]
  | succ fuel ih =>
    rw [Json.decimalAux]
    split_ifs with hn
    · simp
    · cases k with
      | zero => omega
      | succ k =>
        have hdiv : n / 10 < 10 ^ (k + 1) := by
          rw [Nat.div_lt_iff_lt_mul (by omega)]
          calc n < 10 ^ (k + 1 + 1) := h
            _ = 10 ^ (k + 1) * 10 := Nat.pow_succ ..
        have hlen := ih hdiv
        simp only [List.length_append, List.length_singleton]
        omega

theorem length_write_int {z : ℤ} (h : -2 ^ 63 ≤ z ∧ z < 2 ^ 64) : (Json.write (.int z)).length ≤ 21 := by
  have hdecimal : (Json.decimal z.natAbs).length ≤ 20 :=
    length_decimalAux (show z.natAbs < 10 ^ (19 + 1) by omega)
  rw [Json.write]
  split_ifs
  · rw [List.length_cons]
    omega
  · omega

theorem length_write_obj (name : Bytes) (e : Json) (ms : List (Bytes × Json)) :
    (Json.write (.obj ((name, e) :: ms))).length =
      (Json.quoted name).length + (e.write.length + (Json.writeMembers ms).length) + 2 := by
  rw [Json.write, List.length_cons, List.length_append, List.length_cons, List.length_append]
  omega

theorem length_writeMembers (name : Bytes) (e : Json) (ms : List (Bytes × Json)) :
    (Json.writeMembers ((name, e) :: ms)).length =
      (Json.quoted name).length + (e.write.length + (Json.writeMembers ms).length) + 2 := by
  rw [Json.writeMembers, List.length_cons, List.length_append, List.length_cons, List.length_append]
  omega

theorem length_write_blankDoc {z : ℤ} (h : -2 ^ 63 ≤ z ∧ z < 2 ^ 64) :
    (blankDoc z).write.length ≤ 100 := by
  have hint := length_write_int h
  have hnames : (Json.quoted (lit "hash")).length = 6 ∧ (Json.quoted (lit "prev_hash")).length = 11 ∧
      (Json.quoted (lit "number")).length = 8 ∧ (Json.quoted (lit "size")).length = 6 ∧
      (Json.quoted (lit "fileName")).length = 10 := by decide +kernel
  have hvalues : (Json.write (.str [])).length = 2 ∧ (Json.write (.int 0)).length = 1 ∧
      (Json.writeMembers []).length = 1 := by decide +kernel
  obtain ⟨h₁, h₂, h₃, h₄, h₅⟩ := hnames
  obtain ⟨hstr, hzero, hnil⟩ := hvalues
  rw [blankDoc, length_write_obj, length_writeMembers, length_writeMembers, length_writeMembers,
    length_writeMembers, h₁, h₂, h₃, h₄, h₅, hstr, hzero, hnil]
  omega

theorem length_writeElements_blank {zs : List ℤ} (h : ∀ z ∈ zs, -2 ^ 63 ≤ z ∧ z < 2 ^ 64) :
    (Json.writeElements (zs.map blankDoc)).length ≤ 101 * zs.length + 1 := by
  induction zs with
  | nil => simp [Json.writeElements]
  | cons z zs ih =>
    have hfirst := length_write_blankDoc (h z List.mem_cons_self)
    have hrest := ih fun z hz => h z (List.mem_cons_of_mem _ hz)
    rw [List.map_cons, Json.writeElements, List.length_cons, List.length_append, List.length_cons]
    omega

theorem length_write_arr_blank {zs : List ℤ} (h : ∀ z ∈ zs, -2 ^ 63 ≤ z ∧ z < 2 ^ 64) :
    (Json.write (.arr (zs.map blankDoc))).length ≤ 101 * zs.length + 2 := by
  cases zs with
  | nil => simp [Json.write]
  | cons z zs =>
    have hfirst := length_write_blankDoc (h z List.mem_cons_self)
    have hrest := length_writeElements_blank fun z hz => h z (List.mem_cons_of_mem _ hz)
    rw [List.map_cons, Json.write, List.length_cons, List.length_append, List.length_cons]
    omega

theorem length_write_responseDoc (result : Json) :
    (responseDoc result).write.length = result.write.length + 18 := by
  have hparts : (Json.quoted (lit "id")).length = 4 ∧ (Json.quoted (lit "result")).length = 8 ∧
      (Json.write (.int 1)).length = 1 ∧ (Json.writeMembers []).length = 1 := by decide +kernel
  obtain ⟨h₁, h₂, h₃, h₄⟩ := hparts
  have hdoc : responseDoc result = .obj [(lit "id", .int 1), (lit "result", result)] := rfl
  rw [hdoc, length_write_obj, length_writeMembers, h₁, h₂, h₃, h₄]
  omega

theorem length_blocksAnswer {zs : List ℤ} (h : ∀ z ∈ zs, -2 ^ 63 ≤ z ∧ z < 2 ^ 64)
    (hlength : zs.length ≤ 1000) : (responseDoc (.arr (zs.map blankDoc))).write.length ≤ maxSize := by
  have harr := length_write_arr_blank h
  rw [length_write_responseDoc, maxSize]
  omega

theorem length_blockAnswer {z : ℤ} (h : -2 ^ 63 ≤ z ∧ z < 2 ^ 64) :
    (responseDoc (blankDoc z)).write.length ≤ maxSize := by
  have hdoc := length_write_blankDoc h
  rw [length_write_responseDoc, maxSize]
  omega

/-- The beginning of a text that fits in a `std::string`. -/
def cutString (bs : Bytes) : StdString := ⟨bs.take maxSize, List.length_take_le _ _⟩

theorem cutString_val {bs : Bytes} (h : bs.length ≤ maxSize) : (cutString bs).1 = bs :=
  List.take_of_length_le h

/-! ## Parts of one block -/

/-- If there are parts of one block, the last block is in one of them. -/
theorem blocksInPart_eq_one {countBlocksInBatch countBlocks i j : ℕ} (hbatch : 1 ≤ countBlocksInBatch)
    (hone : ¬ (2 ≤ countBlocksInBatch ∧ countBlocks % countBlocksInBatch ≠ 1))
    (hj : j < blocksInPart countBlocksInBatch countBlocks i)
    (hlast : i * countBlocksInBatch + j + 1 = countBlocks) :
    blocksInPart countBlocksInBatch countBlocks i = 1 := by
  by_cases h2 : 2 ≤ countBlocksInBatch
  · have hmod : countBlocks % countBlocksInBatch = 1 := by
      by_contra hne
      exact hone ⟨h2, hne⟩
    have hj' : j < countBlocksInBatch := lt_of_lt_of_le hj (min_le_left _ _)
    have hzero : j = 0 := by
      rcases Nat.lt_or_ge (j + 1) countBlocksInBatch with hlt | hge
      · rw [← hlast, Nat.add_assoc, Nat.mul_comm, Nat.mul_add_mod, Nat.mod_eq_of_lt hlt] at hmod
        omega
      · have heq : j + 1 = countBlocksInBatch := by omega
        rw [← hlast, Nat.add_assoc, heq, Nat.mul_comm, Nat.mul_add_mod, Nat.mod_self] at hmod
        omega
    rw [blocksInPart]
    omega
  · rw [blocksInPart] at hj ⊢
    omega

section
variable (g : Getter) (blockNum maxBlockNum : ℕ)

/-- The last block a call loads. -/
def Getter.lastBlock : ℕ := blockNum + g.countBlocks blockNum maxBlockNum - 1

/-- The last block gets the number 0. -/
def Getter.forgedNumber (n : ℕ) : ℕ := if n = g.lastBlock blockNum maxBlockNum then 0 else n

/-- The result of a server with a forged last header. -/
def Getter.forgedResult (i : ℕ) : Json :=
  let beginBlock := blockNum + i * g.countBlocksInBatch
  let blocksInPart := blocksInPart g.countBlocksInBatch (g.countBlocks blockNum maxBlockNum) i
  if blocksInPart ≠ 1 then
    .arr ((List.range' beginBlock blocksInPart).map fun n =>
      blankDoc (wireNumber (g.forgedNumber blockNum maxBlockNum n)))
  else blankDoc (wireNumber (g.forgedNumber blockNum maxBlockNum beginBlock))

/-- A server with a forged last header. -/
def Getter.forger : P2PCalls where
  requests n _ _ _ := .ok ((List.range n).map fun i =>
    cutString (responseDoc (g.forgedResult blockNum maxBlockNum i)).write)
  request _ _ _ _ _ := .throw (.common "All servers broken")

variable {g blockNum maxBlockNum}

theorem forgedNumber_lt {n : ℕ} (h : n < 2 ^ 64) : g.forgedNumber blockNum maxBlockNum n < 2 ^ 64 := by
  rw [Getter.forgedNumber]
  split_ifs <;> omega

variable (hblock : 1 ≤ blockNum) (hle : blockNum ≤ maxBlockNum) (hmax : maxBlockNum < 2 ^ 64)
  (hbatch : 1 ≤ g.countBlocksInBatch) (hbatch' : g.countBlocksInBatch ≤ 1000)
  (hone : ¬ (2 ≤ g.countBlocksInBatch ∧
    g.countBlocks blockNum maxBlockNum % g.countBlocksInBatch ≠ 1))
include hle hmax hbatch hbatch' hone

/-- The client takes the forged header into the cache. -/
theorem fills_forged {i : ℕ} (hi : i * g.countBlocksInBatch < g.countBlocks blockNum maxBlockNum) :
    Fills ServerEnv.plain.json blockNum g.countBlocksInBatch (g.countBlocks blockNum maxBlockNum)
      (fun n => blankHeader (g.forgedNumber blockNum maxBlockNum n)) i
      (cutString (responseDoc (g.forgedResult blockNum maxBlockNum i)).write).1 := by
  have hcount : g.countBlocks blockNum maxBlockNum ≤ maxBlockNum - blockNum + 1 := min_le_left _ _
  have hpart : blocksInPart g.countBlocksInBatch (g.countBlocks blockNum maxBlockNum) i ≤
      g.countBlocks blockNum maxBlockNum - i * g.countBlocksInBatch := min_le_right _ _
  have hpart' : blocksInPart g.countBlocksInBatch (g.countBlocks blockNum maxBlockNum) i ≤ 1000 :=
    le_trans (min_le_left _ _) hbatch'
  have hlt : ∀ n ∈ (List.range' (blockNum + i * g.countBlocksInBatch)
      (blocksInPart g.countBlocksInBatch (g.countBlocks blockNum maxBlockNum) i)).map
        (g.forgedNumber blockNum maxBlockNum), n < 2 ^ 64 := by
    intro m hm
    obtain ⟨n, hn, rfl⟩ := List.mem_map.1 hm
    rw [List.mem_range'_1] at hn
    exact forgedNumber_lt (by omega)
  by_cases h1 : blocksInPart g.countBlocksInBatch (g.countBlocks blockNum maxBlockNum) i = 1
  · have hbegin : g.forgedNumber blockNum maxBlockNum (blockNum + i * g.countBlocksInBatch) < 2 ^ 64 :=
      forgedNumber_lt (by omega)
    rw [Getter.forgedResult, if_neg (not_not.2 h1),
      cutString_val (length_blockAnswer (wireNumber_bounds hbegin))]
    exact fills_of_parse_one h1 (parseBlockHeader_blank hbegin)
  · have htext : (responseDoc (.arr ((List.range' (blockNum + i * g.countBlocksInBatch)
        (blocksInPart g.countBlocksInBatch (g.countBlocks blockNum maxBlockNum) i)).map fun n =>
          blankDoc (wireNumber (g.forgedNumber blockNum maxBlockNum n))))).write.length ≤ maxSize := by
      have hwire : ∀ z ∈ ((List.range' (blockNum + i * g.countBlocksInBatch)
          (blocksInPart g.countBlocksInBatch (g.countBlocks blockNum maxBlockNum) i)).map
            (g.forgedNumber blockNum maxBlockNum)).map wireNumber, -2 ^ 63 ≤ z ∧ z < 2 ^ 64 := by
        intro z hz
        obtain ⟨n, hn, rfl⟩ := List.mem_map.1 hz
        exact wireNumber_bounds (hlt n hn)
      have hbound := length_blocksAnswer hwire
        (by rwa [List.length_map, List.length_map, List.length_range'])
      rwa [List.map_map, List.map_map] at hbound
    rw [Getter.forgedResult, if_pos h1, cutString_val htext]
    refine fills_of_parse h1 ?_ ?_
    · have hparse := parseBlocksHeader_blank (J := ServerEnv.plain.json) hlt
      rwa [List.map_map, List.map_map] at hparse
    · intro n hn
      rw [List.mem_range'_1] at hn
      refine if_neg fun hlast => h1 ?_
      rw [Getter.lastBlock] at hlast
      exact blocksInPart_eq_one hbatch hone
        (show n - (blockNum + i * g.countBlocksInBatch) < _ by omega) (by omega)

include hblock in
/-- **A part of one block**: a server can give it a header with another number. -/
theorem not_prefetches_of_one (hmiss : ∀ p ∈ g.advancedLoadsBlocksHeaders, p.1 ≠ blockNum)
    (hadvanced : 1 ≤ g.maxAdvancedLoadBlocks) (server : Bytes) :
    ¬ Prefetches g blockNum maxBlockNum server := by
  have hcount : 0 < g.countBlocks blockNum maxBlockNum := countBlocks_pos hadvanced
  intro h
  obtain ⟨-, h⟩ := h ServerEnv.plain
  let answers := (List.range (g.headerParts blockNum maxBlockNum)).map fun i =>
    cutString (responseDoc (g.forgedResult blockNum maxBlockNum i)).write
  have hlength : answers.length = g.headerParts blockNum maxBlockNum := by
    rw [List.length_map, List.length_range]
  have hrequests : g.requestHeaders (g.forger blockNum maxBlockNum) blockNum maxBlockNum server =
      .ok answers := requestHeaders_eq hbatch hcount rfl hlength
  have hfill : ∀ i a, answers[i]? = some a → Fills ServerEnv.plain.json blockNum g.countBlocksInBatch
      (g.countBlocks blockNum maxBlockNum)
      (fun n => blankHeader (g.forgedNumber blockNum maxBlockNum n)) i a.1 := by
    intro i a ha
    rw [List.getElem?_map, Option.map_eq_some_iff] at ha
    obtain ⟨k, hk, rfl⟩ := ha
    obtain ⟨hlt, rfl⟩ := List.getElem?_eq_some_iff.1 hk
    rw [List.getElem_range]
    rw [List.length_range] at hlt
    exact fills_forged hle hmax hbatch hbatch' hone ((lt_countParts hbatch).1 hlt)
  have hload := loadBlockHeaders_fill hbatch hcount hrequests hlength hfill
  have hcache := h (g.forger blockNum maxBlockNum)
  rw [getBlockHeader_miss hmiss, hload] at hcache
  rcases hcache with ⟨e, he⟩ | hnumbers
  · cases he
  · have hmem : g.lastBlock blockNum maxBlockNum ∈
        List.range' blockNum (g.countBlocks blockNum maxBlockNum) := by
      rw [List.mem_range'_1, Getter.lastBlock]
      omega
    have hlast : g.forgedNumber blockNum maxBlockNum (g.lastBlock blockNum maxBlockNum) =
        g.lastBlock blockNum maxBlockNum := hnumbers _ (List.mem_map_of_mem hmem)
    rw [Getter.forgedNumber, if_pos rfl, Getter.lastBlock] at hlast
    omega

end

/-! ## Large numbers -/

/-- A node with `countBlocks` blocks whose headers have only numbers. -/
def blankSync (countBlocks : ℕ) : Sync where
  countBlocks := countBlocks
  getBlockNumber n := { blockNumber := some n }
  getBlockHash _ := .throw (.common "Block not found")
  getBlockDump _ _ _ _ _ := .throw (.common "Block not found")

theorem hasChain_blankSync (countBlocks : ℕ) : HasChain (blankSync countBlocks) countBlocks where
  count := le_refl _
  header n hne hlt _ := {
    number := rfl
    number_ne := hne
    number_lt := hlt
    blockSize_lt := by
      show 0 < 2 ^ 63
      omega
    hash := List.not_mem_nil
    prevHash := List.not_mem_nil
    fileName := List.not_mem_nil }

section
variable {S : Support} {countBlocks : ℕ}

theorem headersToJson_blank {ns : List ℕ} (h : 0 ∉ ns) :
    headersToJson S .forP2P .v1 (ns.map (blankSync countBlocks).getBlockNumber) =
      .ok (some (ns.map fun n : ℕ => blankDoc n)) := by
  induction ns with
  | nil => rfl
  | cons n ns ih =>
    have hn : ((blankSync countBlocks).getBlockNumber n).blockNumber ≠ some 0 := by
      intro h0
      exact h (by rw [← Option.some.inj h0]; exact List.mem_cons_self)
    rw [List.map_cons, headersToJson, if_neg hn, ih fun hmem => h (List.mem_cons_of_mem _ hmem)]
    rfl

/-- The answer of the node if the first block of the part is read. -/
theorem run_blankSync {E : ServerEnv} {b c : ℕ} (h0 : b ≠ 0) (h31 : b < 2 ^ 31) (hc : c ≤ 1000)
    (hle : b + c ≤ countBlocks + 1) :
    run E (blankSync countBlocks) (makeRequestForBlocks b c).1 (makeRequestForBlocks b c).2 =
      .ok (E.json.jsonToString
        (responseDoc (.arr ((List.range' b c).map fun n : ℕ => blankDoc n))) false) := by
  refine run_makeRequestForBlocks (by omega) hc ?_
  have hnumbers : (numbersUp (readBegin b)
      (min ((blankSync countBlocks).countBlocks + 1) (readBegin b + c))).map
        (fun i => (blankSync countBlocks).getBlockNumber (toSize i)) =
      (List.range' b c).map (blankSync countBlocks).getBlockNumber := by
    rw [readBegin, if_pos h31, min_eq_right (by show (b : ℤ) + c ≤ countBlocks + 1; omega),
      map_numbersUp _ (by omega)]
  have h0mem : 0 ∉ List.range' b c := by
    rw [List.mem_range'_1]
    omega
  rw [hnumbers, blockHeadersToJson, headersToJson_blank h0mem]
  rfl

/-- The answer of the node if the first block of the part is not read. -/
theorem run_blankSync_large {E : ServerEnv} {b c : ℕ} (h31 : 2 ^ 31 ≤ b) (hb : b < 2 ^ 64)
    (hc : c ≤ 1000) (hpos : 0 < c) :
    run E (blankSync countBlocks) (makeRequestForBlocks b c).1 (makeRequestForBlocks b c).2 =
      .ok (E.json.jsonToString (genesisError (.num 1)) false) := by
  refine run_makeRequestForBlocks hb hc ?_
  obtain ⟨k, hk⟩ : ∃ k, (min ((blankSync countBlocks).countBlocks + 1 : ℤ) (0 + c) - 0).toNat = k + 1 := by
    refine Nat.exists_eq_succ_of_ne_zero ?_
    show (min ((countBlocks : ℤ) + 1) (0 + c) - 0).toNat ≠ 0
    omega
  rw [readBegin, if_neg (by omega), numbersUp, hk, List.range_succ_eq_map]
  rfl

end

theorem parseBlocksHeader_genesisError (J : JsonUtils) :
    ∃ e, parseBlocksHeader J (J.jsonToString (genesisError (.num 1)) false) = .throw e := by
  have hint : (genesisError (.num 1)).Integral := by
    simp [genesisError, genErrorResponse, addIdToResponse, Json.Integral, Json.IntegralMembers]
  rw [parseBlocksHeader, parseResponse, J.parse_jsonToString _ _ hint]
  exact ⟨_, rfl⟩

theorem length_genesisError : (genesisError (.num 1)).write.length ≤ maxSize := by
  have hlength : (genesisError (.num 1)).write.length ≤ 200 := by decide +kernel
  rw [maxSize]
  omega

/-- An answer that cannot be added stops the loop. -/
theorem addAnswers_ne_ok {J : JsonUtils} {blockNum countBlocksInBatch countBlocks i k : ℕ}
    {answers : List StdString} {a : StdString} (ha : answers[k]? = some a)
    (hstop : ∀ headers, (addAnswer J blockNum countBlocksInBatch countBlocks (i + k) a.1 headers).1 ≠
      .ok ()) (headers : List (ℕ × MinimumBlockHeader)) :
    (addAnswers J blockNum countBlocksInBatch countBlocks i answers headers).1 ≠ .ok () := by
  induction answers generalizing i k headers with
  | nil => simp at ha
  | cons answer answers ih =>
    rw [addAnswers]
    split
    · rename_i headers' heq
      cases k with
      | zero =>
        obtain rfl : answer = a := by simpa using ha
        exact absurd (congrArg Prod.fst heq) (hstop headers)
      | succ k =>
        rw [List.getElem?_cons_succ] at ha
        exact ih ha (by rwa [Nat.add_assoc, Nat.add_comm 1 k]) headers'
    · rename_i hne
      intro hok
      refine hne (addAnswer J blockNum countBlocksInBatch countBlocks i answer.1 headers).2 ?_
      rw [← hok]

/-- Peers that answer what the node answers. -/
def nodePeers (E : ServerEnv) (sync : Sync) : P2PCalls where
  requests n makeQsAndPost _ _ := .ok ((List.range n).map fun i =>
    match makeQsAndPost i >>= fun request => Server.run E sync request.1 request.2 with
    | .ok answer => cutString answer
    | _ => cutString [])
  request _ _ _ _ _ := .throw (.common "All servers broken")

theorem serves_nodePeers {E : ServerEnv} {sync : Sync} {n : ℕ} {request : ℕ → Bytes × Bytes}
    (h : ∀ i, i < n → ∃ answer : Bytes, answer.length ≤ maxSize ∧
      Server.run E sync (request i).1 (request i).2 = .ok answer) (server : Bytes) :
    Serves E sync (nodePeers E sync) server n request := by
  refine ⟨_, rfl, by rw [List.length_map, List.length_range], ?_⟩
  intro i a ha
  rw [List.getElem?_map, Option.map_eq_some_iff] at ha
  obtain ⟨k, hk, rfl⟩ := ha
  obtain ⟨hlt, rfl⟩ := List.getElem?_eq_some_iff.1 hk
  rw [List.getElem_range]
  rw [List.length_range] at hlt
  obtain ⟨answer, hlength, hrun⟩ := h i hlt
  rw [ok_bind, hrun]
  dsimp only
  rw [cutString_val hlength]

section
variable {g : Getter} {blockNum maxBlockNum : ℕ}
  (hblock : 1 ≤ blockNum) (hle : blockNum ≤ maxBlockNum) (hmax : maxBlockNum < 2 ^ 64)
  (hbatch' : g.countBlocksInBatch ≤ 1000) (h2 : 2 ≤ g.countBlocksInBatch)
  (hmod : g.countBlocks blockNum maxBlockNum % g.countBlocksInBatch ≠ 1)
include hblock hle hmax hbatch' h2 hmod

theorem run_headersRequest {i : ℕ} (hi : i < g.headerParts blockNum maxBlockNum) :
    ∃ answer : Bytes, answer.length ≤ maxSize ∧ Server.run ServerEnv.plain (blankSync maxBlockNum)
      (g.headersRequest blockNum maxBlockNum i).1 (g.headersRequest blockNum maxBlockNum i).2 =
        .ok answer ∧
      (2 ^ 31 ≤ blockNum + i * g.countBlocksInBatch →
        answer = ServerEnv.plain.json.jsonToString (genesisError (.num 1)) false) := by
  have hstart : i * g.countBlocksInBatch < g.countBlocks blockNum maxBlockNum :=
    (lt_countParts (by omega)).1 hi
  have hcount : g.countBlocks blockNum maxBlockNum ≤ maxBlockNum - blockNum + 1 := min_le_left _ _
  have hpart : blocksInPart g.countBlocksInBatch (g.countBlocks blockNum maxBlockNum) i ≤
      g.countBlocks blockNum maxBlockNum - i * g.countBlocksInBatch := min_le_right _ _
  have hpart' : blocksInPart g.countBlocksInBatch (g.countBlocks blockNum maxBlockNum) i ≤ 1000 :=
    le_trans (min_le_left _ _) hbatch'
  rw [headersRequest_of_ne_one (blocksInPart_ne_one h2 hmod i)]
  rcases Nat.lt_or_ge (blockNum + i * g.countBlocksInBatch) (2 ^ 31) with h31 | h31
  · refine ⟨_, ?_, run_blankSync (by omega) h31 hpart' (by omega), fun h => absurd h31 (by omega)⟩
    have hbounds : ∀ z ∈ (List.range' (blockNum + i * g.countBlocksInBatch)
        (blocksInPart g.countBlocksInBatch (g.countBlocks blockNum maxBlockNum) i)).map
          (fun n : ℕ => (n : ℤ)), -2 ^ 63 ≤ z ∧ z < 2 ^ 64 := by
      intro z hz
      obtain ⟨n, hn, rfl⟩ := List.mem_map.1 hz
      rw [List.mem_range'_1] at hn
      omega
    have hlength := length_blocksAnswer hbounds (by rwa [List.length_map, List.length_range'])
    rw [List.map_map] at hlength
    exact hlength
  · exact ⟨_, length_genesisError, run_blankSync_large h31 (by omega) hpart'
      (blocksInPart_pos (by omega) hstart), fun _ => rfl⟩

/-- **A part that begins at a large number**: the server reads 0 instead, and the call throws. -/
theorem not_prefetches_of_large (hmiss : ∀ p ∈ g.advancedLoadsBlocksHeaders, p.1 ≠ blockNum)
    (hadvanced : 1 ≤ g.maxAdvancedLoadBlocks)
    (hlast : 2 ^ 31 ≤ blockNum + (g.headerParts blockNum maxBlockNum - 1) * g.countBlocksInBatch)
    (server : Bytes) : ¬ Prefetches g blockNum maxBlockNum server := by
  have hbatch : 0 < g.countBlocksInBatch := by omega
  have hcount : 0 < g.countBlocks blockNum maxBlockNum := countBlocks_pos hadvanced
  have hparts : 0 < g.headerParts blockNum maxBlockNum := by
    rw [Getter.headerParts, lt_countParts hbatch]
    omega
  have hserves : Serves ServerEnv.plain (blankSync maxBlockNum)
      (nodePeers ServerEnv.plain (blankSync maxBlockNum)) server (g.headerParts blockNum maxBlockNum)
      (g.headersRequest blockNum maxBlockNum) := by
    refine serves_nodePeers (fun i hi => ?_) server
    obtain ⟨answer, hlength, hrun, -⟩ := run_headersRequest hblock hle hmax hbatch' h2 hmod hi
    exact ⟨answer, hlength, hrun⟩
  intro h
  obtain ⟨hok, -⟩ := (h ServerEnv.plain).1 _ _ (hasChain_blankSync maxBlockNum) hserves
  obtain ⟨answers, hanswers, hlength, hrun⟩ := hserves
  -- the answer to the request for the last part is an error
  obtain ⟨a, ha⟩ : ∃ a, answers[g.headerParts blockNum maxBlockNum - 1]? = some a :=
    ⟨_, List.getElem?_eq_getElem (by omega)⟩
  obtain ⟨answer, -, hanswer, hgenesis⟩ := run_headersRequest hblock hle hmax hbatch' h2 hmod
    (show g.headerParts blockNum maxBlockNum - 1 < _ by omega)
  have hlast' := hrun _ a ha
  rw [hanswer] at hlast'
  obtain ⟨e, he⟩ := parseBlocksHeader_genesisError ServerEnv.plain.json
  have hstop : ∀ headers, (addAnswer ServerEnv.plain.json blockNum g.countBlocksInBatch
      (g.countBlocks blockNum maxBlockNum) (0 + (g.headerParts blockNum maxBlockNum - 1)) a.1
      headers).1 ≠ .ok () := by
    intro headers
    rw [← Exec.ok.inj hlast', hgenesis hlast, addAnswer, if_pos (blocksInPart_ne_one h2 hmod _), he]
    exact fun h => by cases h
  rw [getBlockHeader_miss hmiss,
    loadBlockHeaders_eq hbatch (requestHeaders_eq hbatch hcount hanswers hlength)] at hok
  obtain ⟨_, hadd, -⟩ := bind_eq_ok.1 hok
  exact addAnswers_ne_ok ha hstop [] hadd

end

/-- **When headers are loaded in advance**: the blocks are cut into parts of two blocks or more, and
    each part begins at a number the server can read. -/
theorem prefetches_iff (g : Getter) {blockNum maxBlockNum : ℕ} (server : Bytes)
    (hmiss : ∀ p ∈ g.advancedLoadsBlocksHeaders, p.1 ≠ blockNum) (hblock : 1 ≤ blockNum)
    (hle : blockNum ≤ maxBlockNum) (hmax : maxBlockNum < 2 ^ 64)
    (hbatch : 1 ≤ g.countBlocksInBatch) (hbatch' : g.countBlocksInBatch ≤ 1000)
    (hadvanced : 1 ≤ g.maxAdvancedLoadBlocks) :
    Prefetches g blockNum maxBlockNum server ↔
      2 ≤ g.countBlocksInBatch ∧
        min (maxBlockNum - blockNum + 1) g.maxAdvancedLoadBlocks % g.countBlocksInBatch ≠ 1 ∧
        blockNum + (g.headerParts blockNum maxBlockNum - 1) * g.countBlocksInBatch < 2 ^ 31 := by
  constructor
  · intro h
    by_cases hone : 2 ≤ g.countBlocksInBatch ∧
        g.countBlocks blockNum maxBlockNum % g.countBlocksInBatch ≠ 1
    · refine ⟨hone.1, hone.2, ?_⟩
      by_contra hlast
      exact not_prefetches_of_large hblock hle hmax hbatch' hone.1 hone.2 hmiss hadvanced
        (not_lt.1 hlast) server h
    · exact absurd h (not_prefetches_of_one hblock hle hmax hbatch hbatch' hone hmiss hadvanced server)
  · rintro ⟨h2, hmod, hlast⟩
    exact prefetches_of hmiss hblock hle hbatch hadvanced hbatch' h2 hmod hlast

/-- Four blocks in parts of two. -/
theorem prefetches_four :
    Prefetches { maxAdvancedLoadBlocks := 4, countBlocksInBatch := 2, isCompress := false } 1 4 [] :=
  (prefetches_iff { maxAdvancedLoadBlocks := 4, countBlocksInBatch := 2, isCompress := false } []
    (by simp) (by decide) (by decide) (by decide) (by decide) (by decide) (by decide)).2 (by decide)

/-- Three blocks in parts of two: an honest server is asked for block 2 instead of block 3, and its
    header stands in the cache as the one of block 3. -/
theorem not_prefetches_three :
    ¬ Prefetches { maxAdvancedLoadBlocks := 3, countBlocksInBatch := 2, isCompress := false } 1 3 [] := by
  intro h
  have hserves : Serves ServerEnv.plain (blankSync 3) (nodePeers ServerEnv.plain (blankSync 3)) [] 2
      (Getter.headersRequest
        { maxAdvancedLoadBlocks := 3, countBlocksInBatch := 2, isCompress := false } 1 3) := by
    refine serves_nodePeers (fun i hi => ?_) []
    rcases i with _ | _ | i
    · exact ⟨(responseDoc (.arr [blankDoc 1, blankDoc 2])).write, by decide +kernel, by decide +kernel⟩
    · exact ⟨(responseDoc (blankDoc 2)).write, by decide +kernel, by decide +kernel⟩
    · omega
  have hcache := ((h ServerEnv.plain).1 _ _ (hasChain_blankSync 3) hserves).2
  revert hcache
  decide +kernel

end GetNewBlocksFromServer

end TorrentNode
