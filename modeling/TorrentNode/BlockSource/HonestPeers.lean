/-
  Blocks from nodes that have them.

  The client and the server in one model: the texts of the requests are read by `Server::run`,
  and what it writes is read by `GetNewBlocksFromServer`.  The peers of a call (`HonestPeers`)
  may fail; if they return, each answer is the one of a node with these blocks, which may be
  another node each time.  A client that loads no part of one block behind others
  (`Getter.NoneAlone`) never caches a wrong header or a wrong dump.

  `getBlockHeader_honest`, `getBlockDump_honest`: a call returns the header and the dump that
  the nodes have, or nothing, and the caches stay right.
-/
import TorrentNode.BlockSource.DumpPrefetch
import TorrentNode.P2P.Ips

open Wire Exec

namespace TorrentNode

open P2P (ResponseParse Tiles)
open Server

namespace GetNewBlocksFromServer

/-! ## The nodes -/

/-- The blocks that nodes have: the headers by number, and the dumps by hash, as they are sent. -/
structure Offer where
  header : ℕ → BlockHeader
  dump : Bytes → Bytes

/-- The hash of block `n`. -/
def Offer.hash (O : Offer) (n : ℕ) : Bytes := (O.header n).hash

/-- The node has the first `last` blocks. -/
structure Offer.HeldBy (O : Offer) (isSign : Bool) (last : ℕ) (sync : Sync) : Prop where
  chain : HasChain sync last
  header : ∀ n, n ≠ 0 → n ≤ last → sync.getBlockNumber n = O.header n
  byHash : ∀ n, n ≠ 0 → n ≤ last → sync.getBlockHash (O.hash n) = .ok (O.header n)
  dump : ∀ n, n ≠ 0 → n ≤ last →
    sync.getBlockDump (O.header n) 0 (UInt64.ofNat (2 ^ 64 - 1)) false isSign = .ok (O.dump (O.hash n))
  part : isSign = false → ∀ n, n ≠ 0 → n ≤ last → ∀ fromByte toByte, fromByte < toByte →
    toByte ≤ (O.dump (O.hash n)).length →
    sync.getBlockDump (O.header n) (UInt64.ofNat fromByte) (UInt64.ofNat toByte) false false =
      .ok (slice (O.dump (O.hash n)) fromByte (toByte - fromByte))

/-- The blocks can be asked for: the hashes are hexadecimal, no dump is empty, or looks like a document
    if it is sent as it is, and the dumps of small blocks are not large.  A large block cannot be asked
    for with its signature. -/
structure Offer.Sendable (O : Offer) (isSign isCompress : Bool) (last : ℕ) : Prop where
  last_lt : last < 2 ^ 31
  hex : ∀ n, n ≠ 0 → n ≤ last → HexText (O.hash n)
  dump_ne : ∀ n, n ≠ 0 → n ≤ last → O.dump (O.hash n) ≠ []
  plain : isCompress = false → ∀ n, n ≠ 0 → n ≤ last → ¬ LooksLikeJson (O.dump (O.hash n))
  length_le : ∀ n, n ≠ 0 → n ≤ last → (O.header n).blockSize.toNat ≤ maxBlockSizeWithoutAdvance →
    (O.dump (O.hash n)).length ≤ 10 ^ 6
  large : ∀ n, n ≠ 0 → n ≤ last → maxBlockSizeWithoutAdvance < (O.header n).blockSize.toNat →
    isSign = false ∧ (O.dump (O.hash n)).length = (O.header n).blockSize.toNat

/-! ## What a node answers -/

section
variable {E : ServerEnv} {lz4 : Lz4} {O : Offer} {isSign isCompress : Bool} {last : ℕ} {sync : Sync}
  (hlz4 : lz4.Lawful) (hE : E.compress = lz4.compress) (hO : O.Sendable isSign isCompress last)
  (hsync : O.HeldBy isSign last sync)

/-- The blocks of a request: at most a batch of small blocks. -/
structure Offer.Batch (O : Offer) (last : ℕ) (hashes : List Bytes) : Prop where
  offered : ∀ hash ∈ hashes, ∃ n, n ≠ 0 ∧ n ≤ last ∧ O.hash n = hash ∧
    (O.header n).blockSize.toNat ≤ maxBlockSizeWithoutAdvance
  length_le : hashes.length ≤ 1000

theorem compress_ne_nil (hlz4 : lz4.Lawful) {src : Bytes} (hne : src ≠ [])
    (hlen : src.length ≤ lz4MaxInputSize) : lz4.compress src ≠ [] := by
  intro h
  have hlength := congrArg List.length ((Lz4.compress_eq hlz4 hne hlen).symm.trans h)
  rw [List.length_append, leBytes_length] at hlength
  simp at hlength

include hO in
theorem length_flatMap_dumps {hashes : List Bytes} (h : ∀ hash ∈ hashes, ∃ n, n ≠ 0 ∧ n ≤ last ∧
      O.hash n = hash ∧ (O.header n).blockSize.toNat ≤ maxBlockSizeWithoutAdvance) :
    ((hashes.map O.dump).flatMap serializeStringBigEndian).length ≤ hashes.length * (10 ^ 6 + 8) := by
  induction hashes with
  | nil => simp
  | cons hash hashes ih =>
    obtain ⟨n, h0, hle, rfl, hsmall⟩ := h hash List.mem_cons_self
    have hfirst := hO.length_le n h0 hle hsmall
    have hrest := ih fun hash hmem => h hash (List.mem_cons_of_mem _ hmem)
    rw [List.map_cons, List.flatMap_cons, List.length_append, serializeStringBigEndian_length,
      List.length_cons, Nat.add_mul]
    omega

include hO in
/-- A batch is not too large for LZ4. -/
theorem Offer.Batch.fits {hashes : List Bytes} (h : O.Batch last hashes) :
    (dumpsText O.dump hashes).length ≤ lz4MaxInputSize := by
  have hmax : 1000 * (10 ^ 6 + 8) ≤ lz4MaxInputSize := by decide
  rcases hashes with _ | ⟨hash, _ | ⟨hash', hashes⟩⟩
  · exact Nat.zero_le _
  · obtain ⟨n, h0, hle, rfl, hsmall⟩ := h.offered hash List.mem_cons_self
    have := hO.length_le n h0 hle hsmall
    show (O.dump (O.hash n)).length ≤ _
    omega
  · rw [dumpsText_of_ne_one (by simp)]
    have hlength := length_flatMap_dumps hO h.offered
    have hcount := Nat.mul_le_mul_right (10 ^ 6 + 8) h.length_le
    omega

include hO hsync

theorem blockNumber_ne {n : ℕ} (h0 : n ≠ 0) (hle : n ≤ last) : (O.header n).blockNumber ≠ none := by
  rw [← hsync.header n h0 hle,
    (hsync.chain.header n h0 (by have := hO.last_lt; omega) (hle.trans hsync.chain.count)).number]
  simp

theorem serveDump_honest {n : ℕ} (h0 : n ≠ 0) (hle : n ≤ last) :
    serveDump sync isSign (O.hash n) = .ok (O.dump (O.hash n)) := by
  have hnumber := blockNumber_ne hO hsync h0 hle
  rw [serveDump, hsync.byHash n h0 hle, lift, ok_bind, checkExn, check_pos hnumber, ok_bind,
    hsync.dump n h0 hle, lift, ok_bind, checkExn, check_pos (hO.dump_ne n h0 hle), ok_bind]
  rfl

include hlz4 hE

/-- The request for one dump. -/
theorem run_makeRequestForDump {n : ℕ} (h0 : n ≠ 0) (hle : n ≤ last)
    (hsmall : (O.header n).blockSize.toNat ≤ maxBlockSizeWithoutAdvance) :
    run E sync (makeRequestForDump (O.hash n) isSign isCompress).1
      (makeRequestForDump (O.hash n) isSign isCompress).2 =
        .ok (genDumpBlockBinary lz4.compress (O.dump (O.hash n)) isCompress) := by
  have hhex := hO.hex n h0 hle
  have hne := hO.dump_ne n h0 hle
  have hfits : (O.dump (O.hash n)).length ≤ lz4MaxInputSize := by
    have := hO.length_le n h0 hle hsmall
    have hmax : 10 ^ 6 ≤ lz4MaxInputSize := by decide
    omega
  have hbytes : genDumpBlockBinary lz4.compress (O.dump (O.hash n)) isCompress ≠ [] := by
    cases isCompress with
    | true => exact compress_ne_nil hlz4 hne hfits
    | false => exact hne
  have hnumber := blockNumber_ne hO hsync h0 hle
  refine run_request (parse_makeRequestForDump hhex isSign isCompress) ?_
  rw [makeRequestForDump, dispatch_dump, Server.getBlockDump, decode_dump hhex.ne_zero, ok_bind, serveBlockDump]
  dsimp only
  rw [hsync.byHash n h0 hle, lift, ok_bind, checkExn, check_pos hnumber, ok_bind,
    hsync.dump n h0 hle, lift, ok_bind, hE, checkExn, check_pos hbytes, ok_bind]
  rfl

/-- The request for a batch of dumps. -/
theorem run_requestFor {hashes : List Bytes} (h : O.Batch last hashes) :
    run E sync (requestFor isSign isCompress hashes).1 (requestFor isSign isCompress hashes).2 =
      .ok (genDumpBlockBinary lz4.compress (dumpsText O.dump hashes) isCompress) := by
  by_cases hone : hashes.length = 1
  · obtain ⟨hash, rfl⟩ := List.length_eq_one_iff.1 hone
    obtain ⟨n, h0, hle, rfl, hsmall⟩ := h.offered hash List.mem_cons_self
    exact run_makeRequestForDump hlz4 hE hO hsync h0 hle hsmall
  have hhex : ∀ hash ∈ hashes, HexText hash := by
    intro hash hmem
    obtain ⟨n, h0, hle, rfl, -⟩ := h.offered hash hmem
    exact hO.hex n h0 hle
  have hserve : hashes.mapM (serveDump sync isSign) = .ok (hashes.map O.dump) := by
    refine mapM_eq_ok.2 (List.forall₂_map_right_iff.2 (List.forall₂_same.2 fun hash hmem => ?_))
    obtain ⟨n, h0, hle, rfl, -⟩ := h.offered hash hmem
    exact serveDump_honest hO hsync h0 hle
  rw [requestFor_of_ne_one hone, dumpsText_of_ne_one hone]
  refine run_request (parse_makeRequestForDumps hhex isSign isCompress) ?_
  rw [makeRequestForDumps, dispatch_dumps,
    getBlockDumps_eq E.compress sync (decode_dumps (fun s hs => (hhex s hs).ne_zero) h.length_le _ _),
    serveBlockDumps, hserve, ok_bind, hE]
  rfl

omit hlz4 hE in
/-- The request for a part of a large dump. -/
theorem run_makeRequestForDumpBlock {n : ℕ} (h0 : n ≠ 0) (hle : n ≤ last) (hsign : isSign = false)
    {fromByte toByte : ℕ} (hlt : fromByte < toByte) (hto : toByte ≤ (O.dump (O.hash n)).length)
    (h63 : toByte < 2 ^ 63) :
    run E sync (makeRequestForDumpBlock (O.hash n) fromByte toByte).1
      (makeRequestForDumpBlock (O.hash n) fromByte toByte).2 =
        .ok (slice (O.dump (O.hash n)) fromByte (toByte - fromByte)) := by
  have hhex := hO.hex n h0 hle
  have hnumber := blockNumber_ne hO hsync h0 hle
  have hbytes : slice (O.dump (O.hash n)) fromByte (toByte - fromByte) ≠ [] := by
    refine List.ne_nil_of_length_pos ?_
    rw [slice_length (by omega)]
    omega
  refine run_request (parse_makeRequestForDumpBlock hhex (by omega) (by omega)) ?_
  rw [makeRequestForDumpBlock, dispatch_dump, Server.getBlockDump,
    decode_dumpBlock hhex.ne_zero (by omega) h63, ok_bind, serveBlockDump]
  dsimp only
  rw [hsync.byHash n h0 hle, lift, ok_bind, checkExn, check_pos hnumber, ok_bind,
    hsync.part hsign n h0 hle fromByte toByte hlt hto, lift, ok_bind]
  show (checkExn (slice (O.dump (O.hash n)) fromByte (toByte - fromByte) ≠ []) _ >>= fun _ => _) = _
  rw [checkExn, check_pos hbytes, ok_bind]
  rfl

end

/-! ## The peers -/

/-- The answer is what the client makes of the answer of a node that has the blocks. -/
def Answered (E : ServerEnv) (O : Offer) (isSign : Bool) (last : ℕ) (request : Exec Exn (Bytes × Bytes))
    (parse : Bytes → Exec Exn ResponseParse) (answer : Bytes) : Prop :=
  ∃ sync qs post raw, O.HeldBy isSign last sync ∧ request = .ok (qs, post) ∧
    run E sync qs post = .ok raw ∧ parse raw = .ok { response := answer, error := none }

/-- Peers that have the blocks, and fail or return what they are asked for. -/
structure HonestPeers (E : ServerEnv) (O : Offer) (isSign : Bool) (last : ℕ) (p2p : P2PCalls) : Prop where
  requests : ∀ {n makeQsAndPost parse servers answers},
    p2p.requests n makeQsAndPost parse servers = .ok answers → answers.length = n ∧
      ∀ i answer, answers[i]? = some answer → Answered E O isSign last (makeQsAndPost i) parse answer.1
  request : ∀ {size makeQsAndPost parse servers answer},
    p2p.request size true makeQsAndPost parse servers = .ok answer →
      ∃ (segments : List P2P.Segment) (parts : List Bytes),
        Tiles segments size ∧ answer.1 = parts.flatten ∧ parts.length = segments.length ∧
        ∀ (i : ℕ) (segment : P2P.Segment) (part : Bytes),
          segments[i]? = some segment → parts[i]? = some part →
            part.length = segment.toByte - segment.fromByte ∧
            Answered E O isSign last (.ok (makeQsAndPost segment.fromByte segment.toByte)) parse part

/-- No part of one block is loaded behind others: there is one part, or all have one block. -/
structure Getter.NoneAlone (g : Getter) : Prop where
  batch_pos : 1 ≤ g.countBlocksInBatch
  batch_le : g.countBlocksInBatch ≤ 1000
  parts : g.countBlocksInBatch = 1 ∨ g.maxAdvancedLoadBlocks ≤ g.countBlocksInBatch

/-- The caches have what the nodes have. -/
structure Getter.Caches (g : Getter) (O : Offer) (last : ℕ) : Prop where
  header : ∀ p ∈ g.advancedLoadsBlocksHeaders, p.1 ≠ 0 ∧ p.1 ≤ last ∧ p.2 = (O.header p.1).minimum
  length_le : g.advancedLoadsBlocksHeaders.length ≤ g.maxAdvancedLoadBlocks
  dump : ∀ hash dump, g.advancedLoadsBlocksDumps.lookup hash = some dump → dump = O.dump hash

section
variable {g g' : Getter}

theorem Getter.NoneAlone.not_lastAlone (h : g.NoneAlone) {n : ℕ} (hn : n ≤ g.maxAdvancedLoadBlocks) :
    ¬ LastAlone g.countBlocksInBatch n := by
  rintro ⟨h2, hlt, hmod⟩
  rcases h.parts with hone | hle
  · omega
  · rcases Nat.lt_or_ge n g.countBlocksInBatch with hsmall | hge
    · rw [Nat.mod_eq_of_lt hsmall] at hmod
      omega
    · obtain rfl : n = g.countBlocksInBatch := by omega
      rw [Nat.mod_self] at hmod
      cases hmod

theorem Getter.NoneAlone.of_clear (h : g.NoneAlone) (hsame : g'.clearAdvanced = g.clearAdvanced) :
    g'.NoneAlone := by
  have hmax : g'.clearAdvanced.maxAdvancedLoadBlocks = g.maxAdvancedLoadBlocks := by
    rw [hsame, Getter.clearAdvanced]
  have hbatch : g'.clearAdvanced.countBlocksInBatch = g.countBlocksInBatch := by
    rw [hsame, Getter.clearAdvanced]
  rw [Getter.clearAdvanced] at hmax hbatch
  exact ⟨hbatch ▸ h.batch_pos, hbatch ▸ h.batch_le, by rw [hbatch, hmax]; exact h.parts⟩

theorem Getter.Caches.clear (g : Getter) (O : Offer) (last : ℕ) : g.clearAdvanced.Caches O last where
  header p hp := by cases hp
  length_le := Nat.zero_le _
  dump hash dump h := by
    rw [Getter.clearAdvanced, Finmap.lookup_empty] at h
    cases h

end

/-! ## Headers -/

section
variable {E : ServerEnv} {O : Offer} {isSign isCompress : Bool} {last : ℕ}
  (hO : O.Sendable isSign isCompress last) {p2p : P2PCalls} (hpeers : HonestPeers E O isSign last p2p)
  {g : Getter} (hg : g.NoneAlone) {n : ℕ} (h0 : n ≠ 0) (hle : n ≤ last)
include hO hpeers hg h0 hle

omit hpeers in
/-- Each answer fills its part of the cache. -/
theorem fills_honest {i : ℕ} (hi : i < g.headerParts n last) {answer : Bytes}
    (hanswer : Answered E O isSign last (.ok (g.headersRequest n last i)) parseNothing answer) :
    Fills E.json n g.countBlocksInBatch (g.countBlocks n last) (fun n => (O.header n).minimum) i answer := by
  obtain ⟨sync, qs, post, raw, hsync, hrequest, hrun, hparse⟩ := hanswer
  obtain rfl : raw = answer := congrArg ResponseParse.response (Exec.ok.inj hparse)
  have hlast := hO.last_lt
  have hcount : g.countBlocks n last ≤ last - n + 1 := min_le_left _ _
  have hmax : g.countBlocks n last ≤ g.maxAdvancedLoadBlocks := min_le_right _ _
  have hstart : i * g.countBlocksInBatch < g.countBlocks n last := (lt_countParts hg.batch_pos).1 hi
  have hend : blocksInPart g.countBlocksInBatch (g.countBlocks n last) i ≤
      g.countBlocks n last - i * g.countBlocksInBatch := min_le_right _ _
  have hsize : blocksInPart g.countBlocksInBatch (g.countBlocks n last) i ≤ g.countBlocksInBatch :=
    min_le_left _ _
  have hbatch := hg.batch_le
  by_cases hone : blocksInPart g.countBlocksInBatch (g.countBlocks n last) i = 1
  · -- the number in the request is the one of the block
    have hbegin := begin_of_one hg.batch_pos (hg.not_lastAlone hmax) hone
    have hnumber : (sync.getBlockNumber (n + i)).minimum = (O.header (n + i)).minimum := by
      rw [hsync.header _ (by omega) (by omega)]
    rw [Getter.headersRequest, makeHeadersRequest, if_neg (not_not.2 hone)] at hrequest
    obtain ⟨rfl, rfl⟩ := Prod.mk.inj (Exec.ok.inj hrequest)
    refine fills_of_parse_one hone ?_
    rw [hbegin, ← hnumber]
    exact parse_run_one hsync.chain (by omega) (by omega) (by omega) hrun
  · have hheaders : ∀ m ∈ List.range' (n + i * g.countBlocksInBatch)
        (blocksInPart g.countBlocksInBatch (g.countBlocks n last) i), m ≠ 0 ∧ m ≤ last := by
      intro m hm
      rw [List.mem_range'_1] at hm
      omega
    rw [headersRequest_of_ne_one hone] at hrequest
    obtain ⟨rfl, rfl⟩ := Prod.mk.inj (Exec.ok.inj hrequest)
    refine fills_of_parse hone ?_ ?_
    · rw [parse_run hsync.chain (by omega) (by omega) (by omega) (by omega) hrun]
      refine congrArg Exec.ok (List.map_congr_left fun m hm => ?_)
      rw [hsync.header m (hheaders m hm).1 (hheaders m hm).2]
    · intro m hm
      rw [← hsync.header m (hheaders m hm).1 (hheaders m hm).2, BlockHeader.minimum,
        (hsync.chain.header m (hheaders m hm).1 (by have := (hheaders m hm).2; omega)
          ((hheaders m hm).2.trans hsync.chain.count)).number]
      rfl

/-- **Headers from honest peers**: the header is the one of the nodes, and the caches stay right. -/
theorem getBlockHeader_honest (hcaches : g.Caches O last) (server : Bytes) :
    (g.getBlockHeader E.json p2p n last server).2.Caches O last ∧
      (g.getBlockHeader E.json p2p n last server).2.clearAdvanced = g.clearAdvanced ∧
      ∀ header, (g.getBlockHeader E.json p2p n last server).1 = .ok header →
        header = (O.header n).minimum := by
  rw [Getter.getBlockHeader]
  split
  · next m header hfind =>
    obtain ⟨-, -, hheader⟩ := hcaches.header _ (List.mem_of_find?_eq_some hfind)
    obtain rfl : m = n := by simpa using List.find?_some hfind
    exact ⟨hcaches, rfl, fun header' h => (Exec.ok.inj h).symm.trans hheader⟩
  · have hempty : ({ g with advancedLoadsBlocksHeaders := [] } : Getter).Caches O last :=
      ⟨(fun p hp => by cases hp), Nat.zero_le _, hcaches.dump⟩
    rcases hrequest : g.requestHeaders p2p n last server with answers | e | u | _
    · obtain ⟨_, hcheck, hrest⟩ := bind_eq_ok.1 hrequest
      obtain ⟨hcount, -⟩ := check_eq_ok hcheck
      obtain ⟨answers', hanswers, hrest⟩ := bind_eq_ok.1 hrest
      obtain ⟨_, hlength, hrest⟩ := bind_eq_ok.1 hrest
      obtain rfl := Exec.ok.inj hrest
      obtain ⟨-, hanswered⟩ := hpeers.requests hanswers
      have hlength := check_eq_ok hlength
      rw [loadBlockHeaders_fill hg.batch_pos (Nat.pos_of_ne_zero hcount) hrequest hlength
        fun i a ha => fills_honest hO hg h0 hle
          (by rw [← hlength]; exact (List.getElem?_eq_some_iff.1 ha).1) (hanswered i a ha)]
      refine ⟨⟨?_, ?_, hcaches.dump⟩, rfl, fun header h => (Exec.ok.inj h).symm⟩
      · intro p hp
        obtain ⟨m, hm, rfl⟩ := List.mem_map.1 hp
        have hmin : g.countBlocks n last ≤ last - n + 1 := min_le_left _ _
        rw [List.mem_range'_1] at hm
        exact ⟨by omega, by omega, rfl⟩
      · rw [numbered, List.length_map, List.length_range']
        exact min_le_right _ _
    all_goals
      rw [Getter.loadBlockHeaders, if_neg (Nat.ne_of_gt hg.batch_pos),
        show ({ g with advancedLoadsBlocksHeaders := [] } : Getter).requestHeaders p2p n last server = _
          from hrequest]
      exact ⟨hempty, rfl, fun header h => by cases h⟩

end

/-! ## Dumps -/

/-- Slices that follow one another make one slice. -/
theorem flatten_slices {bs : Bytes} {segments : List P2P.Segment} {start stop : ℕ}
    (h : P2P.Contiguous start segments stop) (hstop : stop ≤ bs.length) {parts : List Bytes}
    (hparts : List.Forall₂ (fun segment part => part =
      slice bs segment.fromByte (segment.toByte - segment.fromByte)) segments parts) :
    parts.flatten = slice bs start (stop - start) := by
  induction segments generalizing start parts with
  | nil =>
    cases hparts
    obtain rfl : start = stop := h
    rw [Nat.sub_self, slice, List.take_zero]
    rfl
  | cons segment segments ih =>
    obtain ⟨rfl, hlt, hrest⟩ := h
    cases hparts with
    | cons hpart hparts =>
      have hle := hrest.le
      rw [List.flatten_cons, hpart, ih hrest hparts, slice, slice, slice,
        show stop - segment.fromByte = (segment.toByte - segment.fromByte) + (stop - segment.toByte) by omega,
        List.take_add, List.drop_drop,
        show segment.fromByte + (segment.toByte - segment.fromByte) = segment.toByte by omega]

section
variable {E : ServerEnv} {client : ClientEnv} {lz4 : Lz4} {O : Offer} {isSign : Bool} {last : ℕ}
  {p2p : P2PCalls} {g : Getter} (hlz4 : lz4.Lawful) (hbounded : lz4.Bounded)
  (hE : E.compress = lz4.compress) (hclient : client.decompress = lz4.decompress)
  (hfuel : g.countBlocksInBatch < client.fuel)
  (hO : O.Sendable isSign g.isCompress last) (hpeers : HonestPeers E O isSign last p2p)
  (hg : g.NoneAlone)

include hlz4 hbounded hO in
/-- The dumps of a batch are taken as they were sent. -/
theorem answer_eq {hashes : List Bytes} (h : O.Batch last hashes) {raw answer : Bytes}
    (hraw : raw = genDumpBlockBinary lz4.compress (dumpsText O.dump hashes) g.isCompress)
    (hparse : parseDumpBlockResponse client.json raw = .ok { response := answer, error := none }) :
    answer = raw := by
  by_cases hjson : LooksLikeJson raw
  · obtain ⟨hash, rfl, hplain, -⟩ := documentDump_answer hlz4 hbounded (fun _ => h.fits hO) hraw hjson
      (documentDump_of_parse hjson hparse)
    obtain ⟨n, h0, hle, rfl, -⟩ := h.offered hash List.mem_cons_self
    rw [hplain] at hraw
    obtain rfl : raw = O.dump (O.hash n) := hraw
    exact absurd hjson (hO.plain hplain n h0 hle)
  · rw [(parseDumpBlockResponse_payload_iff raw).2 hjson] at hparse
    exact (congrArg ResponseParse.response (Exec.ok.inj hparse)).symm

/-- The run of a block is a batch, or several of them. -/
theorem blocksHashs_offered (hcaches : g.Caches O last) (blockHash : Bytes) :
    (∀ hash ∈ g.blocksHashs blockHash, ∃ n, n ≠ 0 ∧ n ≤ last ∧ O.hash n = hash ∧
      (O.header n).blockSize.toNat ≤ maxBlockSizeWithoutAdvance) ∧
    (g.blocksHashs blockHash).length ≤ g.maxAdvancedLoadBlocks := by
  constructor
  · intro hash hmem
    obtain ⟨p, hp, rfl⟩ := List.mem_map.1 hmem
    have hsmall := List.mem_takeWhile_imp hp
    have hheader := (List.dropWhile_sublist _).subset ((List.takeWhile_sublist _).subset hp)
    obtain ⟨h0, hle, heq⟩ := hcaches.header p hheader
    rw [heq] at hsmall ⊢
    exact ⟨p.1, h0, hle, rfl, of_decide_eq_true hsmall⟩
  · rw [Getter.blocksHashs, List.length_map]
    exact ((List.takeWhile_sublist _).trans (List.dropWhile_sublist _)).length_le.trans hcaches.length_le

include hlz4 hbounded hE hclient hfuel hO hpeers hg in
/-- The responses to the requests for a run are read as its dumps. -/
theorem addResponses_honest {run : List Bytes} (hrun : ∀ hash ∈ run, ∃ n, n ≠ 0 ∧ n ≤ last ∧
      O.hash n = hash ∧ (O.header n).blockSize.toNat ≤ maxBlockSizeWithoutAdvance)
    (hlength : run.length ≤ g.maxAdvancedLoadBlocks) {servers : List Bytes} {responses : List StdString}
    (hresponses : g.requestDumps client p2p run servers isSign = .ok responses) :
    addResponses client g run 0 responses ∅ = (.ok (), addDumps run (run.map O.dump) ∅) := by
  obtain ⟨responses', hcall, hrest⟩ := bind_eq_ok.1 hresponses
  obtain ⟨_, hcheck, hrest⟩ := bind_eq_ok.1 hrest
  obtain rfl := Exec.ok.inj hrest
  have hparts := check_eq_ok hcheck
  obtain ⟨-, hanswered⟩ := hpeers.requests hcall
  have hone := fun i => @begin_of_one g.countBlocksInBatch i run.length hg.batch_pos
    (hg.not_lastAlone hlength)
  have hread : readParts client g.isCompress (blocksInPart g.countBlocksInBatch run.length) 0 responses' =
      .ok ((run.drop (0 * g.countBlocksInBatch)).map O.dump) := by
    refine (readParts_eq_map_iff hg.batch_pos O.dump (by omega)).2 fun i response hi => ?_
    obtain ⟨hlt, -⟩ := List.getElem?_eq_some_iff.1 hi
    have hbatch : O.Batch last (partHashs g.countBlocksInBatch run i) :=
      ⟨fun hash hmem => hrun hash (List.IsInfix.subset partHashs_infix hmem), partHashs_length_le.trans hg.batch_le⟩
    obtain ⟨sync, qs, post, raw, hsync, hrequest, hraw, hparse⟩ := hanswered i response hi
    rw [makeDumpsRequest_eq ((lt_countParts hg.batch_pos).1 (by omega)) (hone i)] at hrequest
    have hrequest := Exec.ok.inj hrequest
    have hhonest := run_requestFor hlz4 hE hO hsync hbatch
    rw [hrequest, hraw] at hhonest
    have hanswer := answer_eq hlz4 hbounded hO hbatch (Exec.ok.inj hhonest) hparse
    rw [Nat.zero_add, ← partHashs_length]
    have hshort : (partHashs g.countBlocksInBatch run i).length ≤ g.countBlocksInBatch := partHashs_length_le
    exact readPart_answer hlz4 hclient (by omega) (fun _ => hbatch.fits hO)
      (hanswer.trans (Exec.ok.inj hhonest))
  rw [Nat.zero_mul, List.drop_zero] at hread
  refine (addResponses_eq_ok hg.batch_pos hone (by omega)).2 ⟨_, hread, ?_⟩
  rw [Nat.zero_mul, List.drop_zero]

include hlz4 hbounded hE hclient hfuel hO hpeers hg in
/-- A dump that is loaded with others. -/
theorem loadBlockDumps_honest (hcaches : g.Caches O last) (blockHash : Bytes) (servers : List Bytes) :
    (g.loadBlockDumps client p2p blockHash servers isSign).2.Caches O last ∧
      (g.loadBlockDumps client p2p blockHash servers isSign).2.clearAdvanced = g.clearAdvanced ∧
      ∀ dump, (g.loadBlockDumps client p2p blockHash servers isSign).1 = .ok dump →
        dump = O.dump blockHash := by
  have hempty : g.clearDumps.Caches O last := ⟨hcaches.header, hcaches.length_le, fun hash dump h => by
    rw [Getter.clearDumps, Finmap.lookup_empty] at h
    cases h⟩
  obtain ⟨hoffered, hlength⟩ := blocksHashs_offered hcaches blockHash
  have hcleared : ({ g with advancedLoadsBlocksDumps := ∅ } : Getter) = g.clearDumps := rfl
  rw [Getter.loadBlockDumps, hcleared]
  dsimp only
  by_cases hnil : g.clearDumps.blocksHashs blockHash = []
  · rw [if_pos hnil]
    exact ⟨hempty, rfl, fun dump h => by cases h⟩
  rw [if_neg hnil, if_neg (show g.clearDumps.countBlocksInBatch ≠ 0 from Nat.ne_of_gt hg.batch_pos)]
  rcases hresponses : g.clearDumps.requestDumps client p2p (g.clearDumps.blocksHashs blockHash) servers
    isSign with responses | e | u | _
  · dsimp only
    obtain ⟨hashes, hcons⟩ := blocksHashs_eq_cons hnil
    have hlookup := fun hash => addDumps_lookup_map O.dump hash (g.clearDumps.blocksHashs blockHash) ∅
    have hadd : addResponses client g.clearDumps (g.clearDumps.blocksHashs blockHash) 0 responses ∅ =
        (.ok (), addDumps (g.clearDumps.blocksHashs blockHash)
          ((g.clearDumps.blocksHashs blockHash).map O.dump) ∅) :=
      addResponses_honest (g := g.clearDumps) hlz4 hbounded hE hclient hfuel hO hpeers
        ⟨hg.batch_pos, hg.batch_le, hg.parts⟩ hoffered hlength hresponses
    rw [hadd]
    dsimp only
    rw [hlookup blockHash, if_pos (by rw [hcons]; exact List.mem_cons_self), Option.getD_some]
    refine ⟨⟨hcaches.header, hcaches.length_le, fun hash dump h => ?_⟩, rfl, fun dump h => (Exec.ok.inj h).symm⟩
    rcases eq_or_ne hash blockHash with rfl | hne
    · rw [Finmap.lookup_insert] at h
      exact (Option.some.inj h).symm
    · rw [Finmap.lookup_insert_of_ne _ hne, hlookup, Finmap.lookup_empty] at h
      split_ifs at h
      exact (Option.some.inj h).symm
  all_goals exact ⟨hempty, rfl, fun dump h => by cases h⟩

include hO hpeers in
/-- A large dump, in parts. -/
theorem getBlockDumpWithoutAdvancedLoad_honest {n : ℕ} (h0 : n ≠ 0) (hle : n ≤ last)
    (hlarge : maxBlockSizeWithoutAdvance < (O.header n).blockSize.toNat) (servers : List Bytes)
    {dump : StdString} (hdump : getBlockDumpWithoutAdvancedLoad client p2p (O.hash n)
      (O.header n).blockSize.toNat servers isSign = .ok dump) : dump.1 = O.dump (O.hash n) := by
  obtain ⟨rfl, hsize⟩ := hO.large n h0 hle hlarge
  obtain ⟨segments, parts, htiles, hflatten, hlength, hparts⟩ := hpeers.request hdump
  have hslices : List.Forall₂ (fun segment part => part = slice (O.dump (O.hash n)) segment.fromByte
      (segment.toByte - segment.fromByte)) segments parts := by
    refine List.forall₂_iff_get.2 ⟨hlength.symm, fun i hi hi' => ?_⟩
    have hsegment := List.getElem?_eq_getElem hi
    obtain ⟨hpart, sync, qs, post, raw, hsync, hrequest, hraw, hparse⟩ :=
      hparts i _ _ hsegment (List.getElem?_eq_getElem hi')
    have hto := htiles.toByte_le hsegment
    have hlt := (htiles.segment i _ hsegment).2
    have h63 := (hsync.chain.header n h0 (by have := hO.last_lt; omega)
      (hle.trans hsync.chain.count)).blockSize_lt
    rw [hsync.header n h0 hle] at h63
    have hhonest := run_makeRequestForDumpBlock (E := E) hO hsync h0 hle rfl hlt (by omega) (by omega)
    rw [Exec.ok.inj hrequest, hraw] at hhonest
    have hraw := Exec.ok.inj hhonest
    rw [List.get_eq_getElem, List.get_eq_getElem, ← hraw]
    by_cases hjson : LooksLikeJson raw
    · -- a dump out of a document would be too short
      have hshort := documentDump_length hjson.2.1 (documentDump_of_parse hjson hparse)
      rw [hpart, hraw, slice_length (by omega)] at hshort
      exact absurd hshort (lt_irrefl _)
    · rw [(parseDumpBlockResponse_payload_iff raw).2 hjson] at hparse
      exact (congrArg ResponseParse.response (Exec.ok.inj hparse)).symm
  rw [hflatten, flatten_slices htiles.contiguous (by omega) hslices, ← hsize]
  exact List.take_length

include hlz4 hbounded hE hclient hfuel hO hpeers hg in
/-- **Dumps from honest peers**: the dump is the one of the nodes, and the caches stay right. -/
theorem getBlockDump_honest (hcaches : g.Caches O last) {n : ℕ} (h0 : n ≠ 0) (hle : n ≤ last)
    (servers : List Bytes) :
    let r := g.getBlockDump client p2p (O.hash n) (O.header n).blockSize.toNat servers isSign
    r.2.Caches O last ∧ r.2.clearAdvanced = g.clearAdvanced ∧
      ∀ dump, r.1 = .ok dump → dump = O.dump (O.hash n) := by
  intro r
  have hr : r = g.getBlockDump client p2p (O.hash n) (O.header n).blockSize.toNat servers isSign := rfl
  rw [Getter.getBlockDump] at hr
  split at hr
  · next dump hlookup =>
    rw [hr]
    exact ⟨hcaches, rfl, fun dump' h => (Exec.ok.inj h).symm.trans (hcaches.dump _ _ hlookup)⟩
  · split_ifs at hr with hlarge
    · rw [hr]
      refine ⟨hcaches, rfl, fun dump h => ?_⟩
      obtain ⟨dump', hdump', h⟩ := bind_eq_ok.1 h
      rw [← Exec.ok.inj h]
      exact getBlockDumpWithoutAdvancedLoad_honest hO hpeers h0 hle hlarge servers hdump'
    · rw [hr]
      exact loadBlockDumps_honest hlz4 hbounded hE hclient hfuel hO hpeers hg hcaches (O.hash n) servers

end

end GetNewBlocksFromServer

end TorrentNode
