/-
  Dumps that are loaded in advance.

  `getBlockDump` asks for the dumps of a run of small blocks in parts.  A part with
  one block is asked for, and stored, in another way: under the hash with the
  number of the part instead of the first hash of the part.  Behind other parts of
  more than one block this is a block that has been loaded already.

  `prefetchesDumps_iff`: with servers that have the dumps, a call that misses the
  cache returns the dump and leaves the dumps of the run in the cache if and only
  if there is a run, its last part is not such a part, and no answer looks like a
  document.
-/
import TorrentNode.BlockSource.DumpResponses
import TorrentNode.BlockSource.Prefetch
import TorrentNode.GenerateJson.Dumps

open Wire Exec

namespace TorrentNode

open P2P (ResponseParse)
open Server

namespace GetNewBlocksFromServer

/-! ## Parts of a run -/

/-- The hashes of part `i` of a run. -/
def partHashs (countBlocksInBatch : ℕ) (run : List Bytes) (i : ℕ) : List Bytes :=
  (run.drop (i * countBlocksInBatch)).take (blocksInPart countBlocksInBatch run.length i)

section
variable {b : ℕ} {run : List Bytes} {i : ℕ}

theorem partHashs_length : (partHashs b run i).length = blocksInPart b run.length i := by
  rw [partHashs, List.length_take, List.length_drop, blocksInPart]
  omega

theorem partHashs_length_le : (partHashs b run i).length ≤ b := by
  rw [partHashs_length]
  exact min_le_left _ _

theorem drop_succ_part :
    run.drop ((i + 1) * b) = (run.drop (i * b)).drop (blocksInPart b run.length i) := by
  rw [List.drop_drop, blocksInPart, Nat.add_mul, Nat.one_mul]
  rcases Nat.le_total b (run.length - i * b) with hle | hle
  · rw [Nat.min_eq_left hle]
  · rw [Nat.min_eq_right hle, List.drop_eq_nil_of_le (by omega), List.drop_eq_nil_of_le (by omega)]

theorem partHashs_append : partHashs b run i ++ run.drop ((i + 1) * b) = run.drop (i * b) := by
  rw [drop_succ_part, partHashs, List.take_append_drop]

theorem length_le_of_end {n : ℕ} (hb : 0 < b) (h : i = countParts b n) : n ≤ i * b :=
  not_lt.1 fun hlt => absurd ((lt_countParts hb).2 hlt) (by omega)

/-- The last part has one block, and there are others in front of it. -/
def LastAlone (b n : ℕ) : Prop := 2 ≤ b ∧ 1 < n ∧ n % b = 1

instance (b n : ℕ) : Decidable (LastAlone b n) := inferInstanceAs (Decidable (_ ∧ _))

/-- A part with one block begins at its own number unless it is the last of several. -/
theorem begin_of_one {n : ℕ} (hb : 0 < b) (h : ¬ LastAlone b n) (hone : blocksInPart b n i = 1) :
    i * b = i := by
  rcases Nat.lt_or_ge b 2 with hlt | hge
  · obtain rfl : b = 1 := by omega
    exact Nat.mul_one i
  · have hn : n = b * i + 1 := by
      rw [Nat.mul_comm]
      rw [blocksInPart] at hone
      omega
    have hmod : n % b = 1 := by
      rw [hn, Nat.mul_add_mod, Nat.mod_eq_of_lt hge]
    have hle : n ≤ 1 := by
      by_contra hgt
      exact h ⟨hge, not_le.1 hgt, hmod⟩
    have hzero : b * i = 0 := by omega
    rcases Nat.mul_eq_zero.1 hzero with h0 | h0
    · omega
    · rw [h0, Nat.zero_mul]

end

/-! ## The cache of dumps -/

@[simp] theorem addDumps_nil (hashes : List Bytes) (dumps : Finmap fun _ : Bytes => Bytes) :
    addDumps hashes [] dumps = dumps := by
  cases hashes <;> rfl

theorem addDumps_append {hashes blocks : List Bytes} (hle : blocks.length ≤ hashes.length)
    (rest : List Bytes) (dumps : Finmap fun _ : Bytes => Bytes) :
    addDumps hashes (blocks ++ rest) dumps =
      addDumps (hashes.drop blocks.length) rest (addDumps hashes blocks dumps) := by
  induction blocks generalizing hashes dumps with
  | nil => simp
  | cons block blocks ih =>
    cases hashes with
    | nil => simp at hle
    | cons hash hashes => exact ih (by simpa using hle) (dumps.insert hash block)

theorem addDumps_lookup_of_notMem {hash : Bytes} {hashes : List Bytes} (blocks : List Bytes)
    (h : hash ∉ hashes.take blocks.length) (dumps : Finmap fun _ : Bytes => Bytes) :
    (addDumps hashes blocks dumps).lookup hash = dumps.lookup hash := by
  induction blocks generalizing hashes dumps with
  | nil => rw [addDumps_nil]
  | cons block blocks ih =>
    cases hashes with
    | nil => rfl
    | cons hash' hashes =>
      rw [List.length_cons, List.take_succ_cons, List.mem_cons, not_or] at h
      rw [addDumps, ih h.2, Finmap.lookup_insert_of_ne _ h.1]

theorem addDumps_lookup_map (dump : Bytes → Bytes) (hash : Bytes) (hashes : List Bytes)
    (dumps : Finmap fun _ : Bytes => Bytes) :
    (addDumps hashes (hashes.map dump) dumps).lookup hash =
      if hash ∈ hashes then some (dump hash) else dumps.lookup hash := by
  induction hashes generalizing dumps with
  | nil => rfl
  | cons hash' hashes ih =>
    rw [List.map_cons, addDumps, ih]
    by_cases hmem : hash ∈ hashes
    · rw [if_pos hmem, if_pos (List.mem_cons_of_mem _ hmem)]
    · rw [if_neg hmem]
      by_cases heq : hash = hash'
      · subst heq
        rw [Finmap.lookup_insert, if_pos List.mem_cons_self]
      · rw [Finmap.lookup_insert_of_ne _ heq, if_neg (by simp [heq, hmem])]

/-- The cache has the dumps of the run exactly if they were read in the order of the run. -/
theorem addDumps_lookup_iff (dump : Bytes → Bytes) {hashes blocks : List Bytes} (hnodup : hashes.Nodup)
    (hlength : blocks.length = hashes.length) (dumps : Finmap fun _ : Bytes => Bytes) :
    (∀ hash ∈ hashes, (addDumps hashes blocks dumps).lookup hash = some (dump hash)) ↔
      blocks = hashes.map dump := by
  constructor
  · intro h
    induction hashes generalizing blocks dumps with
    | nil => exact List.length_eq_zero_iff.1 hlength
    | cons hash hashes ih =>
      cases blocks with
      | nil => simp at hlength
      | cons block blocks =>
        obtain ⟨hnotMem, hnodup⟩ := List.nodup_cons.1 hnodup
        have hblock := h hash List.mem_cons_self
        rw [addDumps, addDumps_lookup_of_notMem _ fun hmem => hnotMem (List.mem_of_mem_take hmem),
          Finmap.lookup_insert] at hblock
        rw [List.map_cons, Option.some.inj hblock, ih hnodup (by simpa using hlength) _
          fun hash' hmem => h hash' (List.mem_cons_of_mem _ hmem)]
  · rintro rfl hash hmem
    rw [addDumps_lookup_map, if_pos hmem]

theorem addDumps_lookup_head {hash : Bytes} {hashes blocks : List Bytes} (hnodup : (hash :: hashes).Nodup)
    (hne : blocks ≠ []) (dumps : Finmap fun _ : Bytes => Bytes) :
    ∃ block, (addDumps (hash :: hashes) blocks dumps).lookup hash = some block := by
  obtain ⟨block, blocks, rfl⟩ := List.exists_cons_of_ne_nil hne
  have hnotMem := (List.nodup_cons.1 hnodup).1
  refine ⟨block, ?_⟩
  rw [addDumps, addDumps_lookup_of_notMem _ fun hmem => hnotMem (List.mem_of_mem_take hmem),
    Finmap.lookup_insert]

/-! ## Responses -/

section
variable (E : ClientEnv) (isCompress : Bool)

/-- The dumps in the response to a request for `n` of them. -/
def readPart (n : ℕ) (response : StdString) : Exec Exn (List Bytes) :=
  if n = 1 then .ok [parseDumpBlockBinary E.decompress response isCompress]
  else do
    let blocks ← parseDumpBlocksBinary E.decompress E.fuel response isCompress
    check (blocks.length = n) "Incorrect answer"
    return blocks

/-- The dumps in the responses from part `i` on. -/
def readParts (countParts : ℕ → ℕ) : ℕ → List StdString → Exec Exn (List Bytes)
  | _, [] => .ok []
  | i, response :: responses => do
    let blocks ← readPart E isCompress (countParts i) response
    let rest ← readParts countParts (i + 1) responses
    return blocks ++ rest

variable {E isCompress}

theorem readPart_length {n : ℕ} {response : StdString} {blocks : List Bytes}
    (h : readPart E isCompress n response = .ok blocks) : blocks.length = n := by
  rw [readPart] at h
  split_ifs at h with hone
  · cases h
    exact hone.symm
  · obtain ⟨blocks', -, h⟩ := bind_eq_ok.1 h
    obtain ⟨_, hcheck, h⟩ := bind_eq_ok.1 h
    cases h
    by_contra hne
    rw [check, check_neg hne] at hcheck
    cases hcheck

variable {g : Getter} {run : List Bytes} {i : ℕ}

/-- A part that begins at its own number, or has not one block, is stored from its beginning on. -/
theorem addResponse_eq_ok (hi : i * g.countBlocksInBatch < run.length)
    (hone : blocksInPart g.countBlocksInBatch run.length i = 1 → i * g.countBlocksInBatch = i)
    {response : StdString} {dumps dumps' : Finmap fun _ : Bytes => Bytes} :
    addResponse E g run i response dumps = (.ok (), dumps') ↔
      ∃ blocks, readPart E g.isCompress (blocksInPart g.countBlocksInBatch run.length i) response =
          .ok blocks ∧ dumps' = addDumps (run.drop (i * g.countBlocksInBatch)) blocks dumps := by
  rw [addResponse, readPart]
  by_cases h1 : blocksInPart g.countBlocksInBatch run.length i = 1
  · have hfirst : run.drop (i * g.countBlocksInBatch) = run.getD i [] :: run.drop (i + 1) := by
      rw [hone h1] at hi ⊢
      rw [List.getD_eq_getElem _ _ hi, List.drop_eq_getElem_cons hi]
    rw [if_pos h1, if_pos h1, hfirst]
    simp [addDumps, eq_comm]
  · rw [if_neg h1, if_neg h1]
    have hle : blocksInPart g.countBlocksInBatch run.length i ≤
        run.length - i * g.countBlocksInBatch := min_le_right _ _
    generalize blocksInPart g.countBlocksInBatch run.length i = n at h1 hle ⊢
    rcases parseDumpBlocksBinary E.decompress E.fuel response g.isCompress with blocks | e | u | _
    · dsimp only
      rw [ok_bind]
      by_cases hlength : blocks.length = n
      · rw [if_neg (by rw [not_or]; exact ⟨not_not.2 hlength, by omega⟩), check, check_pos hlength]
        simp [eq_comm]
      · rw [if_pos (Or.inl hlength), check, check_neg hlength]
        simp
    all_goals simp

/-- The loop over the responses stores what it reads, from the first block on. -/
theorem addResponses_eq_ok (hb : 0 < g.countBlocksInBatch)
    (hone : ∀ i, blocksInPart g.countBlocksInBatch run.length i = 1 → i * g.countBlocksInBatch = i)
    {responses : List StdString} {dumps dumps' : Finmap fun _ : Bytes => Bytes}
    (hparts : i + responses.length ≤ countParts g.countBlocksInBatch run.length) :
    addResponses E g run i responses dumps = (.ok (), dumps') ↔
      ∃ blocks, readParts E g.isCompress (blocksInPart g.countBlocksInBatch run.length) i responses =
          .ok blocks ∧ dumps' = addDumps (run.drop (i * g.countBlocksInBatch)) blocks dumps := by
  induction responses generalizing i dumps with
  | nil => simp [addResponses, readParts, eq_comm]
  | cons response responses ih =>
    rw [List.length_cons] at hparts
    have hi := (lt_countParts hb).1 (show i < countParts g.countBlocksInBatch run.length by omega)
    have hstep : ∀ {dumps₁}, _ := fun {dumps₁} =>
      @addResponse_eq_ok E g run i hi (hone i) response dumps dumps₁
    rw [addResponses]
    rcases hcall : addResponse E g run i response dumps with ⟨r, dumps₁⟩
    rcases r with _ | e | u | _
    · obtain ⟨blocks, hread, rfl⟩ := hstep.1 hcall
      have hlength := readPart_length hread
      have hle : blocks.length ≤ (run.drop (i * g.countBlocksInBatch)).length := by
        rw [hlength, List.length_drop]
        exact min_le_right _ _
      dsimp only
      rw [ih (by omega), readParts, hread, ok_bind, drop_succ_part, ← hlength]
      constructor
      · rintro ⟨rest, hrest, rfl⟩
        exact ⟨blocks ++ rest, by rw [hrest]; rfl, (addDumps_append hle rest dumps).symm⟩
      · rintro ⟨all, hall, rfl⟩
        obtain ⟨rest, hrest, hall⟩ := bind_eq_ok.1 hall
        cases hall
        exact ⟨rest, hrest, addDumps_append hle rest dumps⟩
    all_goals
      refine iff_of_false (fun h => by cases h) ?_
      rintro ⟨all, hall, -⟩
      obtain ⟨blocks, hread, -⟩ := bind_eq_ok.1 hall
      have hok := hstep.2 ⟨blocks, hread, rfl⟩
      rw [hcall] at hok
      cases hok

/-- As many dumps are read as there are blocks. -/
theorem readParts_length {b : ℕ} (hb : 0 < b) {responses : List StdString} {blocks : List Bytes}
    (hparts : i + responses.length = countParts b run.length)
    (h : readParts E isCompress (blocksInPart b run.length) i responses = .ok blocks) :
    blocks.length = (run.drop (i * b)).length := by
  induction responses generalizing i blocks with
  | nil =>
    cases h
    have hend : run.length ≤ i * b := length_le_of_end hb hparts
    rw [List.drop_eq_nil_of_le hend]
  | cons response responses ih =>
    obtain ⟨blocks₁, hread, h⟩ := bind_eq_ok.1 h
    obtain ⟨rest, hrest, h⟩ := bind_eq_ok.1 h
    cases h
    rw [List.length_append, readPart_length hread, ih (by rw [← hparts, List.length_cons]; omega) hrest,
      ← partHashs_length, ← List.length_append, partHashs_append]

/-- The dumps of a run are read exactly if every part is read. -/
theorem readParts_eq_map_iff {b : ℕ} (hb : 0 < b) (dump : Bytes → Bytes) {responses : List StdString}
    (hparts : i + responses.length = countParts b run.length) :
    readParts E isCompress (blocksInPart b run.length) i responses =
        .ok ((run.drop (i * b)).map dump) ↔
      ∀ j response, responses[j]? = some response →
        readPart E isCompress (blocksInPart b run.length (i + j)) response =
          .ok ((partHashs b run (i + j)).map dump) := by
  induction responses generalizing i with
  | nil =>
    have hend : run.length ≤ i * b := length_le_of_end hb hparts
    simp [readParts, List.drop_eq_nil_of_le hend]
  | cons response responses ih =>
    specialize ih (i := i + 1) (by rw [← hparts, List.length_cons]; omega)
    rw [readParts, ← partHashs_append, List.map_append]
    constructor
    · intro h
      obtain ⟨blocks, hread, h⟩ := bind_eq_ok.1 h
      obtain ⟨rest, hrest, h⟩ := bind_eq_ok.1 h
      obtain ⟨rfl, rfl⟩ := List.append_inj (Exec.ok.inj h)
        (by rw [readPart_length hread, List.length_map, partHashs_length])
      intro j r hj
      cases j with
      | zero =>
        cases hj
        exact hread
      | succ j =>
        rw [← Nat.add_assoc, Nat.add_right_comm]
        exact ih.1 hrest j r hj
    · intro h
      have hfirst := h 0 response rfl
      have hrest := ih.2 fun j r hj => by
        have hnext := h (j + 1) r hj
        rwa [← Nat.add_assoc, Nat.add_right_comm] at hnext
      rw [Nat.add_zero] at hfirst
      rw [hfirst, ok_bind, hrest]
      rfl

end

/-! ## Servers -/

/-- The request for the dumps of some blocks. -/
def requestFor (isSign isCompress : Bool) : List Bytes → Bytes × Bytes
  | [hash] => makeRequestForDump hash isSign isCompress
  | hashes => makeRequestForDumps hashes isSign isCompress

/-- What the server writes for these blocks, before it is compressed. -/
def dumpsText (dump : Bytes → Bytes) : List Bytes → Bytes
  | [hash] => dump hash
  | hashes => (hashes.map dump).flatMap serializeStringBigEndian

/-- Servers that answer to a request for at most `b` consecutive blocks of the run with the dumps of
    these blocks.  What is too large for LZ4 cannot be sent compressed. -/
structure AnswersDumps (lz4 : Lz4) (dump : Bytes → Bytes) (isSign isCompress : Bool) (b : ℕ)
    (run : List Bytes) (answer : Bytes × Bytes → StdString) : Prop where
  answers : ∀ hashes, hashes <:+: run → hashes.length ≤ b →
    (answer (requestFor isSign isCompress hashes)).1 =
      genDumpBlockBinary lz4.compress (dumpsText dump hashes) isCompress
  fits : isCompress → ∀ hashes, hashes <:+: run → hashes.length ≤ b →
    (dumpsText dump hashes).length ≤ lz4MaxInputSize

/-- The peers return what the parser makes of the answers, and nothing if it refuses one of them. -/
def PeersAnswer (p2p : P2PCalls) (answer : Bytes × Bytes → StdString) (servers : List Bytes) : Prop :=
  ∀ n makeQsAndPost parse responses, p2p.requests n makeQsAndPost parse servers = .ok responses ↔
    responses.length = n ∧ ∀ i response, responses[i]? = some response →
      ∃ request, makeQsAndPost i = .ok request ∧
        parse (answer request).1 = .ok { response := response.1, error := none }

section
variable {b : ℕ} {run : List Bytes} {i : ℕ} {isSign isCompress : Bool}

theorem requestFor_of_ne_one {hashes : List Bytes} (h : hashes.length ≠ 1) :
    requestFor isSign isCompress hashes = makeRequestForDumps hashes isSign isCompress := by
  rcases hashes with _ | ⟨hash, _ | ⟨hash', hashes⟩⟩
  · rfl
  · exact absurd rfl h
  · rfl

theorem dumpsText_of_ne_one {dump : Bytes → Bytes} {hashes : List Bytes} (h : hashes.length ≠ 1) :
    dumpsText dump hashes = (hashes.map dump).flatMap serializeStringBigEndian := by
  rcases hashes with _ | ⟨hash, _ | ⟨hash', hashes⟩⟩
  · rfl
  · exact absurd rfl h
  · rfl

theorem partHashs_infix : partHashs b run i <:+: run :=
  (List.take_prefix _ _).isInfix.trans (List.drop_suffix _ _).isInfix

/-- The request of a part asks for its hashes. -/
theorem makeDumpsRequest_eq (hi : i * b < run.length)
    (hone : blocksInPart b run.length i = 1 → i * b = i) :
    makeDumpsRequest run b isSign isCompress i =
      .ok (requestFor isSign isCompress (partHashs b run i)) := by
  rw [makeDumpsRequest, check, check_pos hi, ok_bind]
  dsimp only
  split_ifs with h1
  · have hpart : partHashs b run i = [run.getD i []] := by
      rw [partHashs, h1, hone h1]
      rw [hone h1] at hi
      rw [List.drop_eq_getElem_cons hi, List.getD_eq_getElem _ _ hi]
      rfl
    rw [hpart]
    rfl
  · rw [requestFor_of_ne_one (by rwa [partHashs_length])]
    rfl

variable {lz4 : Lz4} {dump : Bytes → Bytes} {hashes : List Bytes} {response : StdString}

/-- The client reads the dumps that the server has written. -/
theorem readPart_answer {E : ClientEnv} (hlz4 : lz4.Lawful) (hE : E.decompress = lz4.decompress)
    (hfuel : hashes.length < E.fuel)
    (hfits : isCompress → (dumpsText dump hashes).length ≤ lz4MaxInputSize)
    (h : response.1 = genDumpBlockBinary lz4.compress (dumpsText dump hashes) isCompress) :
    readPart E isCompress hashes.length response = .ok (hashes.map dump) := by
  have hread := parseDumpBlocksBinary_genDumpBlocksBinary hlz4 isCompress
  rw [readPart, hE]
  split_ifs with h1
  · obtain ⟨hash, rfl⟩ := List.length_eq_one_iff.1 h1
    rw [hread.2 (dump hash) response h hfits]
    rfl
  · rw [dumpsText_of_ne_one h1] at h hfits
    rw [hread.1 (hashes.map dump) response h hfits E.fuel (by rwa [List.length_map]), ok_bind, check,
      check_pos (List.length_map _)]
    rfl

theorem takeWhile_length_le {bs : Bytes} {p : UInt8 → Bool} {k : ℕ} {c : UInt8}
    (hk : bs[k]? = some c) (hc : p c = false) : (bs.takeWhile p).length ≤ k := by
  by_contra hlt
  have hpre : (bs.takeWhile p)[k]? = some c := by
    obtain ⟨rest, hrest⟩ := List.takeWhile_prefix (l := bs) p
    rw [← List.getElem?_append_left (not_le.1 hlt), hrest, hk]
  have hp := List.mem_takeWhile_imp (List.mem_of_getElem? hpre)
  rw [hc] at hp
  cases hp

/-- A short document has no dump. -/
theorem documentDump_ne_ok {J : JsonUtils} {answer text : Bytes} (hhead : answer.head? = some '{'.toUInt8)
    (hzero : answer[3]? = some 0) : documentDump J answer ≠ .ok text := by
  intro h
  obtain ⟨doc, hdoc, h⟩ := bind_eq_ok.1 h
  obtain ⟨result, hresult, -⟩ := bind_eq_ok.1 h
  obtain ⟨members, j, rfl, hj, -⟩ := fieldAs_eq_ok hresult
  have hshort : (answer.takeWhile (· ≠ 0)).length ≤ 3 := takeWhile_length_le hzero (by simp)
  cases Json.parse_obj_of_short hhead (by omega) (parse_of_parseResponse hdoc)
  cases hj

/-- The length of a short dump begins with a zero. -/
theorem head?_serializeStringBigEndian {str : Bytes} (h : str.length < 2 ^ 56) :
    (serializeStringBigEndian str).head? = some 0 := by
  have hzero : str.length / 256 / 256 / 256 / 256 / 256 / 256 / 256 = 0 := by omega
  rw [serializeStringBigEndian, serializeIntBigEndian_eq]
  simp [beBytes, leBytes, hzero]

theorem documentDump_of_parse {J : JsonUtils} {answer text : Bytes} (hjson : LooksLikeJson answer)
    (h : parseDumpBlockResponse J answer = .ok { response := text, error := none }) :
    documentDump J answer = .ok text := by
  have hne : answer ≠ [] := by
    rintro rfl
    cases hjson.2.1
  rw [parseDumpBlockResponse_eq hne, if_pos hjson] at h
  split at h
  · next response hresponse =>
    cases h
    exact hresponse
  · cases h
  · next hno _ =>
    obtain ⟨response, hresponse, -⟩ := bind_eq_ok.1 h
    exact absurd hresponse (hno response)

/-- No dump comes out of a compressed answer, or out of several dumps, that looks like a document;
    out of a dump comes a shorter one. -/
theorem documentDump_answer {J : JsonUtils} (hlz4 : lz4.Lawful) (hbounded : lz4.Bounded)
    (hfits : isCompress → (dumpsText dump hashes).length ≤ lz4MaxInputSize)
    {answer text : Bytes}
    (h : answer = genDumpBlockBinary lz4.compress (dumpsText dump hashes) isCompress)
    (hjson : LooksLikeJson answer) (hdump : documentDump J answer = .ok text) :
    ∃ hash, hashes = [hash] ∧ isCompress = false ∧ text.length < (dump hash).length := by
  obtain ⟨hlen, hhead, -⟩ := hjson
  cases isCompress with
  | true =>
    replace h : answer = lz4.compress (dumpsText dump hashes) := h
    have hne : dumpsText dump hashes ≠ [] := by
      intro hnil
      rw [h, hnil] at hhead
      cases hhead
    have hzero := Lz4.compress_short hlz4 hbounded hne (hfits rfl) (h ▸ hlen)
    exact absurd hdump (documentDump_ne_ok hhead (h ▸ hzero))
  | false =>
    replace h : answer = dumpsText dump hashes := h
    have hshorter := documentDump_length hhead hdump
    rcases hashes with _ | ⟨hash, _ | ⟨hash', hashes⟩⟩
    · rw [h] at hhead
      cases hhead
    · exact ⟨hash, rfl, rfl, by rwa [h] at hshorter⟩
    · rw [h, dumpsText_of_ne_one (by simp), List.map_cons, List.flatMap_cons] at hlen hhead
      rw [List.length_append, serializeStringBigEndian_length] at hlen
      rw [List.head?_append, head?_serializeStringBigEndian (by omega)] at hhead
      cases hhead

end

/-! ## A call -/

/-- The call returns the dump of the block and leaves in the cache the dumps of the run that begins
    with it, and nothing else. -/
def PrefetchesDumps (E : ClientEnv) (g : Getter) (p2p : P2PCalls) (blockHash : Bytes) (blockSize : ℕ)
    (servers : List Bytes) (isSign : Bool) (dump : Bytes → Bytes) : Prop :=
  ∃ g' : Getter, g.getBlockDump E p2p blockHash blockSize servers isSign = (.ok (dump blockHash), g') ∧
    ∀ hash, g'.advancedLoadsBlocksDumps.lookup hash =
      if hash ∈ g.blocksHashs blockHash then some (dump hash) else none

section
variable {E : ClientEnv} {g : Getter} {p2p : P2PCalls} {blockHash : Bytes} {blockSize : ℕ}
  {servers : List Bytes} {isSign : Bool} {dump : Bytes → Bytes} {run : List Bytes}

/-- The run begins with the block. -/
theorem blocksHashs_eq_cons (h : g.blocksHashs blockHash ≠ []) :
    ∃ hashes, g.blocksHashs blockHash = blockHash :: hashes := by
  rw [Getter.blocksHashs] at h ⊢
  rcases hdrop : g.advancedLoadsBlocksHeaders.dropWhile (·.2.hash ≠ blockHash) with _ | ⟨p, ps⟩
  · rw [hdrop] at h
    exact absurd rfl h
  · have hp : p.2.hash = blockHash := by
      have hhead := List.head?_dropWhile_not (fun p => decide (p.2.hash ≠ blockHash))
        g.advancedLoadsBlocksHeaders
      rw [hdrop] at hhead
      simpa using hhead
    rw [hdrop, List.takeWhile_cons] at h
    rw [hdrop, List.takeWhile_cons]
    split_ifs at h ⊢ with hsize
    · exact ⟨_, by rw [List.map_cons, hp]⟩
    · exact absurd rfl h

theorem blocksHashs_nodup (h : (g.advancedLoadsBlocksHeaders.map (·.2.hash)).Nodup) :
    (g.blocksHashs blockHash).Nodup := by
  refine h.sublist (List.Sublist.map _ ?_)
  exact (List.takeWhile_sublist _).trans (List.dropWhile_sublist _)

/-- A call that misses the cache clears it first. -/
theorem getBlockDump_miss (hmiss : g.advancedLoadsBlocksDumps.lookup blockHash = none)
    (hsize : blockSize ≤ maxBlockSizeWithoutAdvance) :
    g.getBlockDump E p2p blockHash blockSize servers isSign =
      g.loadBlockDumps E p2p blockHash servers isSign := by
  rw [Getter.getBlockDump, hmiss]
  exact if_neg (not_lt.2 hsize)

/-- The cache is left empty. -/
def Getter.clearDumps (g : Getter) : Getter := { g with advancedLoadsBlocksDumps := ∅ }

/-- What a call that misses the cache does with its run. -/
theorem prefetchesDumps_iff_responses (hmiss : g.advancedLoadsBlocksDumps.lookup blockHash = none)
    (hsize : blockSize ≤ maxBlockSizeWithoutAdvance) (hb : 0 < g.countBlocksInBatch)
    (hrun : g.blocksHashs blockHash = run) (hne : run ≠ []) :
    PrefetchesDumps E g p2p blockHash blockSize servers isSign dump ↔
      ∃ responses dumps, g.clearDumps.requestDumps E p2p run servers isSign = .ok responses ∧
        addResponses E g.clearDumps run 0 responses ∅ = (.ok (), dumps) ∧
        (dumps.lookup blockHash).getD [] = dump blockHash ∧
        ∀ hash, (dumps.insert blockHash (dump blockHash)).lookup hash =
          if hash ∈ run then some (dump hash) else none := by
  have hblocks : { g with advancedLoadsBlocksDumps := ∅ }.blocksHashs blockHash = run := hrun
  rw [PrefetchesDumps, getBlockDump_miss hmiss hsize, hrun, Getter.loadBlockDumps, Getter.clearDumps]
  dsimp only
  rw [hblocks, if_neg hne, if_neg hb.ne']
  constructor
  · rintro ⟨g', hg', hlookup⟩
    split at hg'
    · rename_i responses hresponses
      split at hg'
      · rename_i dumps hdumps
        obtain ⟨hdump, rfl⟩ := Prod.mk.inj hg'
        have hdump := Exec.ok.inj hdump
        refine ⟨responses, dumps, hresponses, hdumps, hdump, ?_⟩
        rwa [hdump] at hlookup
      · rename_i r dumps hnot hdumps
        obtain ⟨hr, -⟩ := Prod.mk.inj hg'
        obtain ⟨u, hu, -⟩ := bind_eq_ok.1 hr
        exact absurd hu hnot
    · rename_i hnot
      obtain ⟨hr, -⟩ := Prod.mk.inj hg'
      obtain ⟨responses, hu, -⟩ := bind_eq_ok.1 hr
      exact absurd hu (hnot responses)
  · rintro ⟨responses, dumps, hresponses, hdumps, hdump, hlookup⟩
    rw [hresponses]
    dsimp only
    rw [hdumps]
    dsimp only
    rw [hdump]
    exact ⟨_, rfl, hlookup⟩

/-- The peers' responses are what the parser makes of the answers to the requests. -/
theorem requestDumps_eq_ok {answer : Bytes × Bytes → StdString} (hpeers : PeersAnswer p2p answer servers)
    {responses : List StdString} :
    g.requestDumps E p2p run servers isSign = .ok responses ↔
      responses.length = countParts g.countBlocksInBatch run.length ∧
      ∀ i response, responses[i]? = some response →
        ∃ request, makeDumpsRequest run g.countBlocksInBatch isSign g.isCompress i = .ok request ∧
          parseDumpBlockResponse E.json (answer request).1 =
            .ok { response := response.1, error := none } := by
  rw [← hpeers, Getter.requestDumps]
  constructor
  · intro h
    obtain ⟨responses', hresponses, h⟩ := bind_eq_ok.1 h
    obtain ⟨_, -, h⟩ := bind_eq_ok.1 h
    cases h
    exact hresponses
  · intro h
    have hlength := ((hpeers _ _ _ _).1 h).1
    rw [h, ok_bind, check, check_pos hlength]
    rfl

section
variable {last : Bytes} (hnodup : (run ++ [last]).Nodup) (hrun : run ≠ [])
  (hb : 2 ≤ g.countBlocksInBatch) (hlast : run.length % g.countBlocksInBatch = 0)
include hnodup hrun hb hlast

/-- The last hash of a run is not stored if its part is asked for under another number. -/
theorem addResponse_lookup_last {i : ℕ} (hi : i * g.countBlocksInBatch < (run ++ [last]).length)
    {response : StdString} {dumps dumps' : Finmap fun _ : Bytes => Bytes}
    (h : addResponse E g (run ++ [last]) i response dumps = (.ok (), dumps')) :
    dumps'.lookup last = dumps.lookup last := by
  have hnotMem : last ∉ run := fun hmem =>
    (List.nodup_append.1 hnodup).2.2 last hmem last (List.mem_singleton_self _) rfl
  obtain ⟨q, hq⟩ := Nat.dvd_of_mod_eq_zero hlast
  have hpos := List.length_pos_of_ne_nil hrun
  have hlength : (run ++ [last]).length = g.countBlocksInBatch * q + 1 := by
    rw [List.length_append, List.length_singleton, hq]
  have hq0 : 0 < q := Nat.pos_of_ne_zero fun h0 => by rw [h0, Nat.mul_zero] at hq; omega
  have hiq : i ≤ q := by
    rw [hlength, Nat.mul_comm] at hi
    exact Nat.le_of_mul_le_mul_left (Nat.lt_succ_iff.1 hi) (by omega)
  rw [addResponse] at h
  split_ifs at h with hone
  · obtain ⟨-, rfl⟩ := Prod.mk.inj h
    have hlt : i < run.length := by
      rw [hq]
      calc i ≤ q := hiq
        _ < 2 * q := by omega
        _ ≤ g.countBlocksInBatch * q := Nat.mul_le_mul_right q hb
    have hne : last ≠ (run ++ [last]).getD i [] := by
      rw [List.getD_append _ _ _ _ hlt, List.getD_eq_getElem _ _ hlt]
      rintro heq
      exact hnotMem (heq ▸ List.getElem_mem hlt)
    exact Finmap.lookup_insert_of_ne _ hne
  · have hlt : i < q := by
      refine lt_of_le_of_ne hiq fun heq => hone ?_
      rw [blocksInPart, hlength, heq, Nat.mul_comm]
      omega
    have hle : i * g.countBlocksInBatch + g.countBlocksInBatch ≤ run.length := by
      rw [hq, ← Nat.succ_mul, Nat.mul_comm]
      exact Nat.mul_le_mul_left _ hlt
    have hfull : blocksInPart g.countBlocksInBatch (run ++ [last]).length i = g.countBlocksInBatch := by
      rw [blocksInPart, List.length_append]
      omega
    rw [hfull] at h
    split at h
    · rename_i blocks hblocks
      split_ifs at h with hwrong
      · cases h
      · obtain ⟨-, rfl⟩ := Prod.mk.inj h
        refine addDumps_lookup_of_notMem _ ?_ _
        have hcount : blocks.length = g.countBlocksInBatch := by
          by_contra hne
          exact hwrong (Or.inl hne)
        rw [hcount, List.drop_append_of_le_length (by omega),
          List.take_append_of_le_length (by rw [List.length_drop]; omega)]
        exact fun hmem => hnotMem (List.mem_of_mem_drop (List.mem_of_mem_take hmem))
    · rename_i hnot
      obtain ⟨hr, -⟩ := Prod.mk.inj h
      obtain ⟨blocks, hu, -⟩ := bind_eq_ok.1 hr
      exact absurd hu (hnot blocks)

theorem addResponses_lookup_last {i : ℕ} {responses : List StdString}
    (hi : i + responses.length ≤ countParts g.countBlocksInBatch (run ++ [last]).length)
    {dumps dumps' : Finmap fun _ : Bytes => Bytes}
    (h : addResponses E g (run ++ [last]) i responses dumps = (.ok (), dumps')) :
    dumps'.lookup last = dumps.lookup last := by
  induction responses generalizing i dumps with
  | nil =>
    cases h
    rfl
  | cons response responses ih =>
    rw [List.length_cons] at hi
    rw [addResponses] at h
    split at h
    · rename_i dumps₁ hstep
      have hbegin := (lt_countParts (show 0 < g.countBlocksInBatch by omega)).1
        (show i < countParts g.countBlocksInBatch (run ++ [last]).length by omega)
      rw [ih (by omega) h, addResponse_lookup_last hnodup hrun hb hlast hbegin hstep]
    · rename_i hnot
      exact absurd h (hnot dumps')

end

/-- A last part of one block behind others is missing in the cache. -/
theorem not_lastAlone {responses : List StdString} {dumps : Finmap fun _ : Bytes => Bytes}
    (hnodup : run.Nodup) (hhead : run.head? = some blockHash)
    (hlength : responses.length = countParts g.countBlocksInBatch run.length)
    (hdumps : addResponses E g run 0 responses ∅ = (.ok (), dumps)) {block : Bytes}
    (hlookup : ∀ hash ∈ run, (dumps.insert blockHash block).lookup hash = some (dump hash)) :
    ¬ LastAlone g.countBlocksInBatch run.length := by
  rintro ⟨h2, hlt, hmod⟩
  rcases List.eq_nil_or_concat run with rfl | ⟨init, last, rfl⟩
  · cases hhead
  · rw [List.concat_eq_append] at *
    rw [List.length_append, List.length_singleton] at hlt hmod
    have hinit : init ≠ [] := List.ne_nil_of_length_pos (by omega)
    have hzero : init.length % g.countBlocksInBatch = 0 := by
      have hcancel : init.length + 1 ≡ 0 + 1 [MOD g.countBlocksInBatch] := by
        rw [Nat.ModEq, hmod, Nat.zero_add, Nat.mod_eq_of_lt h2]
      have hmodEq := Nat.ModEq.add_right_cancel' 1 hcancel
      rwa [Nat.ModEq, Nat.zero_mod] at hmodEq
    have hlast := addResponses_lookup_last hnodup hinit h2 hzero (by omega) hdumps
    have hne : last ≠ blockHash := by
      rintro rfl
      obtain ⟨hash, hashes, rfl⟩ := List.exists_cons_of_ne_nil hinit
      cases hhead
      simp at hnodup
    have hstored := hlookup last (by simp)
    rw [Finmap.lookup_insert_of_ne _ hne, hlast] at hstored
    cases hstored

end

/-- The dumps of the run have been read if they are in the cache. -/
theorem readParts_of_lookup {E : ClientEnv} {g : Getter} {dump : Bytes → Bytes} {run : List Bytes}
    {responses : List StdString} {dumps : Finmap fun _ : Bytes => Bytes} {blockHash : Bytes}
    (hb : 1 ≤ g.countBlocksInBatch) (hnodup : run.Nodup) (hhead : run.head? = some blockHash)
    (halone : ¬ LastAlone g.countBlocksInBatch run.length)
    (hlength : responses.length = countParts g.countBlocksInBatch run.length)
    (hdumps : addResponses E g run 0 responses ∅ = (.ok (), dumps))
    (hdump : (dumps.lookup blockHash).getD [] = dump blockHash)
    (hlookup : ∀ hash ∈ run, hash ≠ blockHash → dumps.lookup hash = some (dump hash)) :
    readParts E g.isCompress (blocksInPart g.countBlocksInBatch run.length) 0 responses =
      .ok (run.map dump) := by
  obtain ⟨blocks, hread, rfl⟩ := (addResponses_eq_ok hb (fun i => begin_of_one hb halone)
    (by omega)).1 hdumps
  have hblocks := readParts_length hb (by omega) hread
  rw [Nat.zero_mul, List.drop_zero] at hblocks hdump hlookup
  rw [hread, (addDumps_lookup_iff dump hnodup hblocks ∅).1]
  intro hash hmem
  rcases eq_or_ne hash blockHash with rfl | hdiff
  · obtain ⟨hashes, rfl⟩ : ∃ hashes, run = hash :: hashes := ⟨_, List.eq_cons_of_mem_head? hhead⟩
    have hne : blocks ≠ [] := List.ne_nil_of_length_pos (by rw [hblocks]; exact Nat.succ_pos _)
    obtain ⟨block, hblock⟩ := addDumps_lookup_head hnodup hne ∅
    rw [hblock] at hdump ⊢
    exact congrArg some hdump
  · exact hlookup hash hmem hdiff

section
variable {lz4 : Lz4} {E : ClientEnv} {g : Getter} {blockHash : Bytes} {blockSize : ℕ}
  {servers : List Bytes} {isSign : Bool} {dump : Bytes → Bytes}
  {answer : Bytes × Bytes → StdString} {p2p : P2PCalls} {run : List Bytes}
  (hlz4 : lz4.Lawful) (hE : E.decompress = lz4.decompress) (hb : 1 ≤ g.countBlocksInBatch)
  (hanswers : AnswersDumps lz4 dump isSign g.isCompress g.countBlocksInBatch run answer)
  (hpeers : PeersAnswer p2p answer servers)
  (halone : ¬ LastAlone g.countBlocksInBatch run.length)

include hlz4 hE hb hanswers hpeers halone

/-- What is read of answers that do not look like documents. -/
theorem addResponses_of_answers (hfuel : run.length < E.fuel)
    (hjson : ∀ i < countParts g.countBlocksInBatch run.length,
      ¬ LooksLikeJson (answer (requestFor isSign g.isCompress
        (partHashs g.countBlocksInBatch run i))).1) :
    ∃ responses, g.requestDumps E p2p run servers isSign = .ok responses ∧
      addResponses E g run 0 responses ∅ = (.ok (), addDumps run (run.map dump) ∅) := by
  have hone := fun i => @begin_of_one g.countBlocksInBatch i run.length hb halone
  have hlt := fun i => @lt_countParts g.countBlocksInBatch run.length hb i
  let responses := (List.range (countParts g.countBlocksInBatch run.length)).map fun i =>
    answer (requestFor isSign g.isCompress (partHashs g.countBlocksInBatch run i))
  have hlength : responses.length = countParts g.countBlocksInBatch run.length := by
    rw [List.length_map, List.length_range]
  have hresponse : ∀ i response, responses[i]? = some response →
      i < countParts g.countBlocksInBatch run.length ∧
        response = answer (requestFor isSign g.isCompress (partHashs g.countBlocksInBatch run i)) := by
    intro i response hi
    obtain ⟨j, hj, rfl⟩ := Option.map_eq_some_iff.1 ((List.getElem?_map).symm.trans hi)
    obtain ⟨hlt, rfl⟩ := List.getElem?_eq_some_iff.1 hj
    rw [List.getElem_range]
    exact ⟨by simpa using hlt, rfl⟩
  refine ⟨responses, (requestDumps_eq_ok hpeers).2 ⟨hlength, ?_⟩,
    (addResponses_eq_ok hb hone (by omega)).2 ⟨run.map dump, ?_, by rw [Nat.zero_mul, List.drop_zero]⟩⟩
  · intro i response hi
    obtain ⟨hpart, rfl⟩ := hresponse i response hi
    exact ⟨_, makeDumpsRequest_eq ((hlt i).1 hpart) (hone i),
      (parseDumpBlockResponse_payload_iff _).2 (hjson i hpart)⟩
  · have hread : readParts E g.isCompress (blocksInPart g.countBlocksInBatch run.length) 0 responses =
        .ok ((run.drop (0 * g.countBlocksInBatch)).map dump) := by
      refine (readParts_eq_map_iff hb dump (by omega)).2 fun i response hi => ?_
      obtain ⟨-, rfl⟩ := hresponse i response hi
      have hshort : (partHashs g.countBlocksInBatch run i).length ≤ run.length :=
        partHashs_infix.length_le
      rw [Nat.zero_add, ← partHashs_length]
      exact readPart_answer hlz4 hE (by omega)
        (fun hc => hanswers.fits hc _ partHashs_infix partHashs_length_le)
        (hanswers.answers _ partHashs_infix partHashs_length_le)
    rwa [Nat.zero_mul, List.drop_zero] at hread

omit hE in
/-- What is read of an answer that looks like a document is not what the server has sent. -/
theorem not_looksLikeJson (hbounded : lz4.Bounded) {responses : List StdString}
    (hreq : g.requestDumps E p2p run servers isSign = .ok responses)
    (hread : readParts E g.isCompress (blocksInPart g.countBlocksInBatch run.length) 0 responses =
      .ok (run.map dump)) {i : ℕ} (hi : i < countParts g.countBlocksInBatch run.length) :
    ¬ LooksLikeJson (answer (requestFor isSign g.isCompress
      (partHashs g.countBlocksInBatch run i))).1 := by
  intro hjson
  obtain ⟨hlength, hresponses⟩ := (requestDumps_eq_ok hpeers).1 hreq
  have hlt : i < responses.length := by omega
  have hget := List.getElem?_eq_getElem hlt
  obtain ⟨request, hrequest, hparse⟩ := hresponses i _ hget
  rw [makeDumpsRequest_eq ((lt_countParts hb).1 hi) (begin_of_one hb halone)] at hrequest
  cases hrequest
  obtain ⟨hash, hpart, hcompress, hshorter⟩ := documentDump_answer hlz4 hbounded
    (fun hc => hanswers.fits hc _ partHashs_infix partHashs_length_le)
    (hanswers.answers _ partHashs_infix partHashs_length_le) hjson
    (documentDump_of_parse hjson hparse)
  have hread₀ : readParts E g.isCompress (blocksInPart g.countBlocksInBatch run.length) 0 responses =
      .ok ((run.drop (0 * g.countBlocksInBatch)).map dump) := by
    rwa [Nat.zero_mul, List.drop_zero]
  have hpartRead := (readParts_eq_map_iff hb dump (by omega)).1 hread₀ i _ hget
  rw [Nat.zero_add, ← partHashs_length, hpart, readPart, if_pos List.length_singleton, hcompress]
    at hpartRead
  have hdump : responses[i].1 = dump hash := List.head_eq_of_cons_eq (Exec.ok.inj hpartRead)
  rw [hdump] at hshorter
  exact absurd hshorter (lt_irrefl _)

end

/-- **Dumps loaded in advance**: with servers that have the dumps of the run, a call that misses the
    cache returns the dump of the block and caches the dumps of the run if and only if the block
    has a header with a small size, the run does not end in a part of one block behind others, and
    no answer looks like a document. -/
theorem prefetchesDumps_iff {lz4 : Lz4} (hlz4 : lz4.Lawful) (hbounded : lz4.Bounded) {E : ClientEnv}
    (hE : E.decompress = lz4.decompress) {g : Getter} (hb : 1 ≤ g.countBlocksInBatch)
    (hnodup : (g.advancedLoadsBlocksHeaders.map (·.2.hash)).Nodup) {blockHash : Bytes} {blockSize : ℕ}
    (hmiss : g.advancedLoadsBlocksDumps.lookup blockHash = none)
    (hsize : blockSize ≤ maxBlockSizeWithoutAdvance)
    (hfuel : (g.blocksHashs blockHash).length < E.fuel) {servers : List Bytes} {isSign : Bool}
    {dump : Bytes → Bytes} {answer : Bytes × Bytes → StdString} {p2p : P2PCalls}
    (hanswers : AnswersDumps lz4 dump isSign g.isCompress g.countBlocksInBatch
      (g.blocksHashs blockHash) answer)
    (hpeers : PeersAnswer p2p answer servers) :
    PrefetchesDumps E g p2p blockHash blockSize servers isSign dump ↔
      g.blocksHashs blockHash ≠ [] ∧
      ¬ LastAlone g.countBlocksInBatch (g.blocksHashs blockHash).length ∧
      ∀ i < countParts g.countBlocksInBatch (g.blocksHashs blockHash).length,
        ¬ LooksLikeJson (answer (requestFor isSign g.isCompress
          (partHashs g.countBlocksInBatch (g.blocksHashs blockHash) i))).1 := by
  have hrunNodup : (g.blocksHashs blockHash).Nodup := blocksHashs_nodup hnodup
  by_cases hne : g.blocksHashs blockHash = []
  · refine iff_of_false ?_ fun h => h.1 hne
    rintro ⟨g', hg', -⟩
    rw [getBlockDump_miss hmiss hsize] at hg'
    have hthrow : (g.loadBlockDumps E p2p blockHash servers isSign).1 =
        .throw (.common "advanced blocks not loaded") := congrArg Prod.fst (if_pos hne)
    rw [hg'] at hthrow
    cases hthrow
  obtain ⟨hashes, hcons⟩ := blocksHashs_eq_cons hne
  rw [prefetchesDumps_iff_responses hmiss hsize hb rfl hne]
  generalize g.blocksHashs blockHash = run at *
  constructor
  · rintro ⟨responses, dumps, hreq, hdumps, hdump, hlookup⟩
    have hlength := ((requestDumps_eq_ok hpeers).1 hreq).1
    have hhead : run.head? = some blockHash := by rw [hcons]; rfl
    have halone : ¬ LastAlone g.clearDumps.countBlocksInBatch run.length :=
      not_lastAlone hrunNodup hhead hlength hdumps fun hash hmem => by rw [hlookup, if_pos hmem]
    have hread := readParts_of_lookup (g := g.clearDumps) hb hrunNodup hhead halone hlength hdumps hdump
      fun hash hmem hdiff => by
        rw [← Finmap.lookup_insert_of_ne dumps hdiff, hlookup, if_pos hmem]
    exact ⟨hne, halone, fun i hi =>
      not_looksLikeJson (g := g.clearDumps) hlz4 hb hanswers hpeers halone hbounded hreq hread hi⟩
  · rintro ⟨-, halone, hjson⟩
    obtain ⟨responses, hreq, hdumps⟩ :=
      addResponses_of_answers (g := g.clearDumps) hlz4 hE hb hanswers hpeers halone hfuel hjson
    have hlookup := fun hash => addDumps_lookup_map dump hash run ∅
    refine ⟨responses, _, hreq, hdumps, ?_, fun hash => ?_⟩
    · rw [hlookup, if_pos (by rw [hcons]; exact List.mem_cons_self)]
      rfl
    · rcases eq_or_ne hash blockHash with rfl | hdiff
      · rw [Finmap.lookup_insert, if_pos (by rw [hcons]; exact List.mem_cons_self)]
      · rw [Finmap.lookup_insert_of_ne _ hdiff, hlookup, Finmap.lookup_empty]

/-! ## Three blocks -/

/-- Peers that give what the parser makes of the answers. -/
def answerPeers (answer : Bytes × Bytes → StdString) : P2PCalls where
  requests n makeQsAndPost parse _ := (List.range n).mapM fun i => do
    let request ← makeQsAndPost i
    let parsed ← parse (answer request).1
    match parsed.error with
    | none =>
      if h : parsed.response.length ≤ maxSize then .ok ⟨parsed.response, h⟩
      else .throw (.std "basic_string::append")
    | some error => .throw (.common error)
  request _ _ _ _ _ := .throw (.common "All servers broken")

theorem peersAnswer_answerPeers (answer : Bytes × Bytes → StdString) (servers : List Bytes) :
    PeersAnswer (answerPeers answer) answer servers := by
  intro n makeQsAndPost parse responses
  refine mapM_eq_ok.trans (List.forall₂_iff_get.trans ?_)
  have hlength : (List.range n).length = responses.length ↔ responses.length = n := by
    rw [List.length_range, eq_comm]
  rw [hlength]
  refine and_congr_right fun hn => ?_
  constructor
  · intro h i response hi
    obtain ⟨hlt, rfl⟩ := List.getElem?_eq_some_iff.1 hi
    have hget := h i (by rw [List.length_range]; omega) hlt
    obtain ⟨request, hrequest, hget⟩ := bind_eq_ok.1 hget
    obtain ⟨⟨text, error⟩, hparsed, hget⟩ := bind_eq_ok.1 hget
    rw [List.get_eq_getElem, List.getElem_range] at hrequest
    refine ⟨request, hrequest, ?_⟩
    rcases error with _ | error
    · dsimp only at hget
      split_ifs at hget with hfits
      rw [hparsed, List.get_eq_getElem] at *
      rw [← Exec.ok.inj hget]
    · cases hget
  · intro h i hi hlt
    obtain ⟨request, hrequest, hparsed⟩ := h i _ (List.getElem?_eq_getElem hlt)
    rw [List.get_eq_getElem, List.getElem_range, hrequest, ok_bind, hparsed, ok_bind]
    exact dif_pos (responses[i]).2

/-- Servers that have the blocks of a run. -/
def answerRun (lz4 : Lz4) (dump : Bytes → Bytes) (isSign isCompress : Bool) (run : List Bytes)
    (request : Bytes × Bytes) : StdString :=
  match (run.tails.flatMap List.inits).find? (requestFor isSign isCompress · = request) with
  | some hashes => cutString (genDumpBlockBinary lz4.compress (dumpsText dump hashes) isCompress)
  | none => cutString []

theorem mem_tails_inits {run hashes : List Bytes} (h : hashes <:+: run) :
    hashes ∈ run.tails.flatMap List.inits := by
  obtain ⟨tail, hprefix, hsuffix⟩ := List.infix_iff_prefix_suffix.1 h
  exact List.mem_flatMap.2 ⟨tail, (List.mem_tails _ _).2 hsuffix, (List.mem_inits _ _).2 hprefix⟩

/-- A client with the headers of some blocks, which asks for two at a time. -/
def pairsGetter (hashes : List Bytes) : Getter where
  maxAdvancedLoadBlocks := 100
  countBlocksInBatch := 2
  isCompress := true
  advancedLoadsBlocksHeaders := hashes.mapIdx fun i hash =>
    (i + 1, { blankHeader (i + 1) with hash := hash, blockSize := 4 })

/-- The libraries of this client. -/
def pairsClient : ClientEnv where
  json := JsonUtils.compact fun _ => true
  decompress := Lz4.literals.decompress
  fuel := 4

/-- The hashes of two blocks. -/
def twoHashs : List Bytes := [lit "0a", lit "0b"]

/-- The hashes of three blocks. -/
def threeHashs : List Bytes := [lit "0a", lit "0b", lit "0c"]

/-- The dump of a block in the examples. -/
def twice (hash : Bytes) : Bytes := hash ++ hash

/-- The answers of servers with these dumps. -/
def twiceAnswer (run : List Bytes) : Bytes × Bytes → StdString :=
  answerRun Lz4.literals twice false true run

theorem answersDumps_two : AnswersDumps Lz4.literals twice false true 2 twoHashs (twiceAnswer twoHashs) where
  answers hashes h _ := (show ∀ hashes ∈ twoHashs.tails.flatMap List.inits,
    (twiceAnswer twoHashs (requestFor false true hashes)).1 =
      genDumpBlockBinary Lz4.literals.compress (dumpsText twice hashes) true by decide +kernel)
        hashes (mem_tails_inits h)
  fits _ hashes h _ := (show ∀ hashes ∈ twoHashs.tails.flatMap List.inits,
    (dumpsText twice hashes).length ≤ lz4MaxInputSize by decide +kernel) hashes (mem_tails_inits h)

theorem answersDumps_three :
    AnswersDumps Lz4.literals twice false true 2 threeHashs (twiceAnswer threeHashs) where
  answers hashes h _ := (show ∀ hashes ∈ threeHashs.tails.flatMap List.inits,
    (twiceAnswer threeHashs (requestFor false true hashes)).1 =
      genDumpBlockBinary Lz4.literals.compress (dumpsText twice hashes) true by decide +kernel)
        hashes (mem_tails_inits h)
  fits _ hashes h _ := (show ∀ hashes ∈ threeHashs.tails.flatMap List.inits,
    (dumpsText twice hashes).length ≤ lz4MaxInputSize by decide +kernel) hashes (mem_tails_inits h)

/-- Two blocks are loaded with one request. -/
theorem prefetchesDumps_two :
    Lz4.literals.Lawful ∧ Lz4.literals.Bounded ∧
    AnswersDumps Lz4.literals twice false true 2 twoHashs (twiceAnswer twoHashs) ∧
    PeersAnswer (answerPeers (twiceAnswer twoHashs)) (twiceAnswer twoHashs) [] ∧
    PrefetchesDumps pairsClient (pairsGetter twoHashs) (answerPeers (twiceAnswer twoHashs))
      (lit "0a") 4 [] false twice := by
  have hrun : (pairsGetter twoHashs).blocksHashs (lit "0a") = twoHashs := by decide +kernel
  refine ⟨Lz4.literals_lawful, Lz4.literals_bounded, answersDumps_two,
    peersAnswer_answerPeers _ _, ?_⟩
  refine (prefetchesDumps_iff Lz4.literals_lawful Lz4.literals_bounded rfl (by decide) (by decide +kernel)
    rfl (by decide) (by rw [hrun]; decide) (by rw [hrun]; exact answersDumps_two)
    (peersAnswer_answerPeers _ _)).2 ?_
  rw [hrun]
  exact ⟨by decide, by decide, by decide +kernel⟩

/-- Of three blocks the last one is not loaded: the second is asked for again. -/
theorem not_prefetchesDumps_three :
    ((pairsGetter threeHashs).advancedLoadsBlocksHeaders.map (·.2.hash)).Nodup ∧
    (pairsGetter threeHashs).blocksHashs (lit "0a") = threeHashs ∧
    AnswersDumps Lz4.literals twice false true 2 threeHashs (twiceAnswer threeHashs) ∧
    PeersAnswer (answerPeers (twiceAnswer threeHashs)) (twiceAnswer threeHashs) [] ∧
    ¬ PrefetchesDumps pairsClient (pairsGetter threeHashs) (answerPeers (twiceAnswer threeHashs))
      (lit "0a") 4 [] false twice := by
  have hrun : (pairsGetter threeHashs).blocksHashs (lit "0a") = threeHashs := by decide +kernel
  refine ⟨by decide +kernel, hrun, answersDumps_three, peersAnswer_answerPeers _ _, ?_⟩
  rintro ⟨g', hg', hlookup⟩
  have hmissing : ((pairsGetter threeHashs).getBlockDump pairsClient
      (answerPeers (twiceAnswer threeHashs)) (lit "0a") 4 []
        false).2.advancedLoadsBlocksDumps.lookup (lit "0c") = none := by decide +kernel
  rw [hg', hlookup, hrun, if_pos (by decide)] at hmissing
  cases hmissing

end GetNewBlocksFromServer

end TorrentNode
