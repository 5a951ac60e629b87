/-
  The worker of the node tests (`WorkerNodeTest.cpp`) in a node that is started,
  replays blocks, gets new ones and crashes (`SyncImpl::synchronize`).

  The worker takes blocks from a queue and keeps the registered nodes and the last
  block in a database of its own, both written in one batch.  A start-up reads the
  number of the last block; the blocks from the smallest number of all workers on
  are replayed, each to the workers that have not seen it, and new blocks follow.  A
  crash loses the queue, and may bring the chain back to any height.  Failures of
  the database itself are not modelled.

  `exactly_once`: what the database holds is always the result of the first `k`
  blocks, for a `k` that never decreases.
-/
import TorrentNode.Lib.Machine
import TorrentNode.GenerateJson.Headers
import TorrentNode.LevelDb
import TorrentNode.Workers.NodeTestsBlockInfo

open Wire Exec

namespace TorrentNode

namespace WorkerNodeTest

/-! ## One block -/

section
variable (isDouble : Bytes → Bool)

/-- The registration of a node in the data of a transaction: its host and its name.  A text that
    begins with a brace is an object. -/
def registration (data : Bytes) : Option (Bytes × Bytes) :=
  if data.head? = some '{'.toUInt8 ∧ data.getLast? = some '}'.toUInt8 then
    match Json.parse isDouble data with
    | some (.obj doc) =>
      if (Json.find (lit "method") doc).bind asString = some (lit "mh-noderegistration") then
        match Json.find (lit "params") doc with
        | some (.obj params) => do
          let host ← (Json.find (lit "host") params).bind asString
          let name ← (Json.find (lit "name") params).bind asString
          return (host, name)
        | _ => none
      else none
    | _ => none
  else none

/-- The nodes after one more transaction. -/
def registerNode (allNodes : AllNodes) (tx : TransactionInfo) : AllNodes :=
  match registration isDouble tx.data with
  | some (host, name) => { nodes := allNodes.nodes.insert host name }
  | none => allNodes

/-- The loop over the transactions of a block. -/
def registerNodes (txs : List TransactionInfo) (allNodes : AllNodes) : AllNodes :=
  txs.foldl (registerNode isDouble) allNodes

/-- `std::optional::value()`. -/
def optionalValue (n : Option ℕ) : Exec Exn ℕ :=
  match n with
  | some n => .ok n
  | none => .throw (.std "bad optional access")

/-- The writes for a block with the number `number`, on the nodes registered before. -/
def blockBatch (bi : BlockInfo) (number : ℕ) (allNodes : AllNodes) : Exec Exn Batch := do
  let info : NodeStatBlockInfo := { blockNumber := UInt64.ofNat number, blockHash := bi.header.hash }
  let infoRaw ← info.serialize
  let nodesRaw ← (registerNodes isDouble bi.txs allNodes).serialize
  return (Batch.addNodeStatBlock [] infoRaw).addAllNodes nodesRaw

/-- The body of the loop of `work()`, behind the queue: the database it leaves. -/
def workBlock (leveldb : LevelDb) (bi : BlockInfo) : Exec Exn LevelDb := do
  let lastScriptBlock ← NodeStatBlockInfo.deserialize leveldb.findNodeStatBlock
  let number ← optionalValue bi.header.blockNumber
  if number ≤ lastScriptBlock.blockNumber.toNat then return leveldb
  check (lastScriptBlock.blockHash = [] ∨ lastScriptBlock.blockHash = bi.header.prevHash)
    ("Incorrect prev hash. Expected " ++ text lastScriptBlock.blockHash ++ ", received " ++
      text bi.header.prevHash)
  let allNodes ← AllNodes.deserialize leveldb.findAllNodes
  let batch ← blockBatch isDouble bi number allNodes
  return addBatch batch leveldb

end

/-! ## The node -/

/-- The order of `std::min_element` on the workers. -/
def initLess : Option ℕ → Option ℕ → Bool
  | none, _ => false
  | some _, none => true
  | some first, some second => first < second

/-- `std::min_element`, with the smallest element so far. -/
def minElement (smallest : Option ℕ) : List (Option ℕ) → Option ℕ
  | [] => smallest
  | x :: xs => minElement (if initLess x smallest then x else smallest) xs

/-- A node that runs: the number of the worker at the start, the height of its chain, the next
    block to replay (until the replay is over) and the queue of the worker. -/
structure Node where
  initBlockNumber : ℕ
  countBlocks : ℕ
  retry : Option ℕ
  queue : List BlockInfo := []

structure State where
  leveldb : LevelDb := ∅
  node : Option Node := none

/-- What can happen: a start-up with a chain of some height and other workers, an iteration of the
    replay, a new block, an iteration of the worker, a crash. -/
inductive Action where
  | start (countBlocks : ℕ) (others : List (Option ℕ))
  | retry
  | deliver
  | work
  | crash

/-- The first block to replay; the worker is the last of the workers. -/
def fromBlockNumber (others : List (Option ℕ)) (initBlockNumber : ℕ) : Option ℕ :=
  (minElement ((others ++ [some initBlockNumber]).headD none)
    (others ++ [some initBlockNumber]).tail).map (· + 1)

/-- `worker->process(bi, dump)`. -/
def Node.process (node : Node) (bi : BlockInfo) : Node := { node with queue := node.queue ++ [bi] }

section
variable (isDouble : Bytes → Bool) (blocks : List BlockInfo)

/-- An iteration of the replay, or its end. -/
def Node.retryStep (node : Node) (blockNumber : ℕ) : Option Node :=
  if blockNumber ≤ node.countBlocks then
    (blocks[blockNumber - 1]?).map fun bi =>
      { (if node.initBlockNumber < blockNumber then node.process bi else node) with
        retry := some (blockNumber + 1) }
  else some { node with retry := none }

/-- A step, on the chain `blocks`. -/
def step (s : State) : Action → Option State
  | .start countBlocks others =>
    if s.node.isSome ∨ blocks.length < countBlocks then none
    else
      match NodeStatBlockInfo.deserialize s.leveldb.findNodeStatBlock with
      | .ok lastScriptBlock =>
        some { s with
          node := some {
            initBlockNumber := lastScriptBlock.blockNumber.toNat
            countBlocks := countBlocks
            retry := fromBlockNumber others lastScriptBlock.blockNumber.toNat } }
      | _ => none
  | .retry => do
    let node ← s.node
    let blockNumber ← node.retry
    let node ← node.retryStep blocks blockNumber
    return { s with node := some node }
  | .deliver => do
    let node ← s.node
    if node.retry.isSome then none
    else do
      let bi ← blocks[node.countBlocks]?
      return { s with node := some { node.process bi with countBlocks := node.countBlocks + 1 } }
  | .work => do
    let node ← s.node
    match node.queue with
    | [] => none
    | bi :: queue =>
      match workBlock isDouble s.leveldb bi with
      | .ok leveldb => some { leveldb := leveldb, node := some { node with queue := queue } }
      -- the exception is logged, and the block is gone
      | .throw _ => some { s with node := some { node with queue := queue } }
      | _ => none
  | .crash => some { s with node := none }

end

/-! ## What the database holds -/

/-- The blocks `b₁, b₂, …` with their numbers and links, and different hashes.  The records of the
    first block fit into strings. -/
structure Chain (isDouble : Bytes → Bool) (blocks : List BlockInfo) : Prop where
  length_lt : blocks.length < 2 ^ 64
  number : ∀ i b, blocks[i]? = some b → b.header.blockNumber = some (i + 1)
  hash_ne : ∀ b ∈ blocks, b.header.hash ≠ []
  link : ∀ i b b', blocks[i]? = some b → blocks[i + 1]? = some b' →
    b'.header.prevHash = b.header.hash
  distinct : (blocks.map fun b => b.header.hash).Nodup
  first : ∀ b, blocks[0]? = some b → ∃ batch, blockBatch isDouble b 1 {} = .ok batch

/-- The number and the hash of the last of `k` blocks. -/
def lastInfo (blocks : List BlockInfo) : ℕ → NodeStatBlockInfo
  | 0 => {}
  | k + 1 => {
      blockNumber := UInt64.ofNat (k + 1)
      blockHash := ((blocks[k]?).map fun b => b.header.hash).getD [] }

/-- The nodes registered in the first `k` blocks. -/
def nodesAfter (isDouble : Bytes → Bool) (blocks : List BlockInfo) (k : ℕ) : AllNodes :=
  (blocks.take k).foldl (fun allNodes b => registerNodes isDouble b.txs allNodes) {}

/-- The database holds the result of the first `k` blocks. -/
structure Persisted (isDouble : Bytes → Bool) (blocks : List BlockInfo) (leveldb : LevelDb) (k : ℕ) :
    Prop where
  le_length : k ≤ blocks.length
  info : NodeStatBlockInfo.deserialize leveldb.findNodeStatBlock = .ok (lastInfo blocks k)
  nodes : AllNodes.deserialize leveldb.findAllNodes = .ok (nodesAfter isDouble blocks k)

section
variable {isDouble : Bytes → Bool} {blocks : List BlockInfo} {leveldb : LevelDb} {k : ℕ}

theorem persisted_empty : Persisted isDouble blocks ∅ 0 where
  le_length := Nat.zero_le _
  info := rfl
  nodes := rfl

theorem lastInfo_succ {b : BlockInfo} (h : blocks[k]? = some b) :
    lastInfo blocks (k + 1) = { blockNumber := UInt64.ofNat (k + 1), blockHash := b.header.hash } := by
  simp [lastInfo, h]

theorem nodesAfter_succ {b : BlockInfo} (h : blocks[k]? = some b) :
    nodesAfter isDouble blocks (k + 1) = registerNodes isDouble b.txs (nodesAfter isDouble blocks k) := by
  rw [nodesAfter, List.take_add_one, h, Option.toList_some, List.foldl_append]
  rfl

theorem lastInfo_blockNumber (hc : Chain isDouble blocks) (hk : k ≤ blocks.length) :
    (lastInfo blocks k).blockNumber.toNat = k := by
  have hlt := hc.length_lt
  cases k with
  | zero => rfl
  | succ k => exact UInt64.toNat_ofNat_of_lt' (by change k + 1 < 2 ^ 64; omega)

theorem stdString_cases (bs : Bytes) : stdString bs = .ok bs ∨ ∃ e, stdString bs = .throw e := by
  rw [stdString]
  by_cases h : bs.length ≤ maxSize
  · left; rw [Exec.check_pos h]; rfl
  · right; rw [Exec.check_neg h]; exact ⟨_, rfl⟩

/-- The records of a block are written, or an exception is thrown. -/
theorem blockBatch_cases (isDouble : Bytes → Bool) (bi : BlockInfo) (number : ℕ) (allNodes : AllNodes) :
    (∃ infoRaw nodesRaw, NodeStatBlockInfo.serialize
        { blockNumber := UInt64.ofNat number, blockHash := bi.header.hash } = .ok infoRaw ∧
      (registerNodes isDouble bi.txs allNodes).serialize = .ok nodesRaw ∧
      blockBatch isDouble bi number allNodes =
        .ok [(nodeStatBlockNumberPrefix, infoRaw), (nodesStatsAll, nodesRaw)]) ∨
    ∃ e, blockBatch isDouble bi number allNodes = .throw e := by
  have hinfo : ∀ info : NodeStatBlockInfo,
      (∃ raw, info.serialize = .ok raw) ∨ ∃ e, info.serialize = .throw e := by
    intro info
    rw [NodeStatBlockInfo.serialize, serializeLastBlock]
    by_cases hne : info.blockHash ≠ []
    · rw [check_of hne, ok_bind]
      exact (stdString_cases _).imp (fun h => ⟨_, h⟩) id
    · right
      rw [check, Exec.check_neg hne]
      exact ⟨_, rfl⟩
  rw [blockBatch]
  rcases hinfo { blockNumber := UInt64.ofNat number, blockHash := bi.header.hash } with
    ⟨infoRaw, hi⟩ | ⟨e, hi⟩
  · rw [hi, ok_bind]
    rcases stdString_cases (serializeIntBigEndian 8 (registerNodes isDouble bi.txs allNodes).hosts.length ++
      (registerNodes isDouble bi.txs allNodes).hosts.flatMap
        (registerNodes isDouble bi.txs allNodes).entry) with hn | ⟨e, hn⟩
    · left
      exact ⟨infoRaw, _, rfl, hn, by rw [AllNodes.serialize, hn]; rfl⟩
    · right
      rw [AllNodes.serialize, hn]
      exact ⟨e, rfl⟩
  · right
    rw [hi]
    exact ⟨e, rfl⟩

/-- The records of the next block make the next state. -/
theorem persisted_addBatch {b : BlockInfo} (hb : blocks[k]? = some b) {batch : Batch}
    (hbatch : blockBatch isDouble b (k + 1) (nodesAfter isDouble blocks k) = .ok batch) :
    Persisted isDouble blocks (addBatch batch leveldb) (k + 1) := by
  rcases blockBatch_cases isDouble b (k + 1) (nodesAfter isDouble blocks k) with
    ⟨infoRaw, nodesRaw, hi, hn, heq⟩ | ⟨e, he⟩
  · rw [heq] at hbatch
    obtain rfl := Exec.ok.inj hbatch
    have hkeys : nodeStatBlockNumberPrefix ≠ nodesStatsAll := by decide
    refine ⟨(List.getElem?_eq_some_iff.1 hb).1, ?_, ?_⟩
    · have hf : (addBatch [(nodeStatBlockNumberPrefix, infoRaw), (nodesStatsAll, nodesRaw)]
          leveldb).findNodeStatBlock = infoRaw := by
        simp [addBatch, LevelDb.findNodeStatBlock, LevelDb.findOneValueWithoutCheck,
          Finmap.lookup_insert_of_ne _ hkeys]
      rw [hf, NodeStatBlockInfo.deserialize_serialize hi, lastInfo_succ hb]
    · have hf : (addBatch [(nodeStatBlockNumberPrefix, infoRaw), (nodesStatsAll, nodesRaw)]
          leveldb).findAllNodes = nodesRaw := by
        simp [addBatch, LevelDb.findAllNodes, LevelDb.findOneValueWithoutCheck]
      rw [hf, AllNodes.deserialize_serialize hn, nodesAfter_succ hb]
  · rw [he] at hbatch; cases hbatch

/-! ## What the worker does with a block -/

/-- A block that is already processed is skipped. -/
theorem workBlock_old (hc : Chain isDouble blocks) (hp : Persisted isDouble blocks leveldb k) {i : ℕ}
    {b : BlockInfo} (hb : blocks[i]? = some b) (hi : i < k) :
    workBlock isDouble leveldb b = .ok leveldb := by
  rw [workBlock, hp.info, ok_bind, hc.number i b hb, optionalValue, ok_bind,
    lastInfo_blockNumber hc hp.le_length, if_pos (by omega)]
  rfl

/-- The next block is processed, if its records can be written. -/
theorem workBlock_next (hc : Chain isDouble blocks) (hp : Persisted isDouble blocks leveldb k)
    {b : BlockInfo} (hb : blocks[k]? = some b) :
    workBlock isDouble leveldb b =
      blockBatch isDouble b (k + 1) (nodesAfter isDouble blocks k) >>= fun batch =>
        .ok (addBatch batch leveldb) := by
  have hlink : (lastInfo blocks k).blockHash = [] ∨ (lastInfo blocks k).blockHash = b.header.prevHash := by
    cases k with
    | zero => exact Or.inl rfl
    | succ k =>
      right
      obtain ⟨b', hb'⟩ : ∃ b', blocks[k]? = some b' :=
        ⟨_, List.getElem?_eq_getElem (by have := (List.getElem?_eq_some_iff.1 hb).1; omega)⟩
      rw [lastInfo_succ hb', hc.link k b' b hb' hb]
  rw [workBlock, hp.info, ok_bind, hc.number k b hb, optionalValue, ok_bind,
    lastInfo_blockNumber hc hp.le_length, if_neg (by omega), check_of hlink, ok_bind, hp.nodes, ok_bind]
  rfl

/-- A later block is refused, once there is a last block. -/
theorem workBlock_later (hc : Chain isDouble blocks) (hp : Persisted isDouble blocks leveldb k)
    (hk : k ≠ 0) {i : ℕ} {b : BlockInfo} (hb : blocks[i]? = some b) (hi : k < i) :
    ∃ e, workBlock isDouble leveldb b = .throw e := by
  obtain ⟨k, rfl⟩ := Nat.exists_eq_succ_of_ne_zero hk
  obtain ⟨i, rfl⟩ := Nat.exists_eq_succ_of_ne_zero (Nat.ne_of_gt (Nat.zero_lt_of_lt hi))
  have hlen := (List.getElem?_eq_some_iff.1 hb).1
  obtain ⟨b₁, hb₁⟩ : ∃ b₁, blocks[k]? = some b₁ := ⟨_, List.getElem?_eq_getElem (by omega)⟩
  obtain ⟨b₂, hb₂⟩ : ∃ b₂, blocks[i]? = some b₂ := ⟨_, List.getElem?_eq_getElem (by omega)⟩
  have hno : ¬ ((lastInfo blocks (k + 1)).blockHash = [] ∨
      (lastInfo blocks (k + 1)).blockHash = b.header.prevHash) := by
    rw [lastInfo_succ hb₁, hc.link i b₂ b hb₂ hb]
    rintro (h | h)
    · exact hc.hash_ne b₁ (List.mem_of_getElem? hb₁) h
    · -- two blocks of the chain have different hashes
      have hmap : ∀ {j : ℕ} {c : BlockInfo}, blocks[j]? = some c →
          (blocks.map fun b => b.header.hash)[j]? = some c.header.hash := by
        intro j c hj
        rw [List.getElem?_map, hj, Option.map_some]
      have h₁ := hmap hb₁
      have h₂ := hmap hb₂
      have heq : k = i := (List.getElem?_inj (List.getElem?_eq_some_iff.1 h₁).1 hc.distinct).1
        (by rw [h₁, h₂, show b₁.header.hash = _ from h])
      omega
  rw [workBlock, hp.info, ok_bind, hc.number _ b hb, optionalValue, ok_bind,
    lastInfo_blockNumber hc hp.le_length, if_neg (by omega), check, Exec.check_neg hno]
  exact ⟨_, rfl⟩

/-- What an iteration of the worker does with a block of the chain. -/
theorem workBlock_cases (hc : Chain isDouble blocks) (hp : Persisted isDouble blocks leveldb k)
    {i : ℕ} {b : BlockInfo} (hb : blocks[i]? = some b) (hk : k = 0 → i = 0) :
    workBlock isDouble leveldb b = .ok leveldb ∧ k ≠ 0 ∨
    (∃ leveldb', workBlock isDouble leveldb b = .ok leveldb' ∧
      Persisted isDouble blocks leveldb' (k + 1)) ∨
    (∃ e, workBlock isDouble leveldb b = .throw e) ∧ k ≠ 0 := by
  rcases Nat.lt_trichotomy i k with hi | rfl | hi
  · exact Or.inl ⟨workBlock_old hc hp hb hi, by omega⟩
  · right
    rw [workBlock_next hc hp hb]
    rcases blockBatch_cases isDouble b (i + 1) (nodesAfter isDouble blocks i) with
      ⟨infoRaw, nodesRaw, -, -, heq⟩ | ⟨e, he⟩
    · left
      exact ⟨_, by rw [heq, ok_bind], persisted_addBatch hb heq⟩
    · right
      refine ⟨⟨e, by rw [he]; rfl⟩, ?_⟩
      rintro rfl
      obtain ⟨batch, hbatch⟩ := hc.first b hb
      have hfirst : blockBatch isDouble b 1 {} = .throw e := he
      rw [hbatch] at hfirst; cases hfirst
  · have hk0 : k ≠ 0 := by
      intro h
      have := hk h
      omega
    exact Or.inr (Or.inr ⟨workBlock_later hc hp hk0 hb hi, hk0⟩)

/-! ## Runs -/

/-- A queue holds blocks of the chain.  As long as the worker has no block, the first block is the
    first one it will get. -/
structure QueueOk (blocks : List BlockInfo) (k : ℕ) (node : Node) : Prop where
  mem : ∀ b ∈ node.queue, ∃ i : ℕ, blocks[i]? = some b
  first : k = 0 → (∃ b, node.queue.head? = some b ∧ blocks[0]? = some b) ∨
    node.queue = [] ∧ node.initBlockNumber = 0 ∧
      (node.retry = some 1 ∨ node.retry = none ∧ node.countBlocks = 0)

/-- The invariant: the result of `k` blocks, and a queue that fits to it. -/
def Inv (isDouble : Bytes → Bool) (blocks : List BlockInfo) (k : ℕ) (s : State) : Prop :=
  Persisted isDouble blocks s.leveldb k ∧ ∀ node, s.node = some node → QueueOk blocks k node

theorem minElement_le (xs : List (Option ℕ)) {init : ℕ} {smallest : Option ℕ}
    (h : (∃ m ≤ init, smallest = some m) ∨ some init ∈ xs) :
    ∃ m ≤ init, minElement smallest xs = some m := by
  induction xs generalizing smallest with
  | nil =>
    rcases h with ⟨m, hm, rfl⟩ | h
    · exact ⟨m, hm, rfl⟩
    · cases h
  | cons x xs ih =>
    rw [minElement]
    apply ih
    rcases h with ⟨m, hm, rfl⟩ | h
    · left
      rcases x with _ | n
      · exact ⟨m, hm, rfl⟩
      · by_cases hn : n < m
        · exact ⟨n, by omega, by simp [initLess, hn]⟩
        · exact ⟨m, hm, by simp [initLess, hn]⟩
    · rcases List.mem_cons.1 h with rfl | h
      · left
        rcases smallest with _ | m
        · exact ⟨init, le_rfl, by simp [initLess]⟩
        · by_cases hm : init < m
          · exact ⟨init, le_rfl, by simp [initLess, hm]⟩
          · exact ⟨m, by omega, by simp [initLess, hm]⟩
      · exact Or.inr h

/-- The replay begins at the latest behind the last block of the worker. -/
theorem fromBlockNumber_le (others : List (Option ℕ)) (init : ℕ) :
    ∃ m ≤ init, fromBlockNumber others init = some (m + 1) := by
  rw [fromBlockNumber]
  rcases others with _ | ⟨x, others⟩
  · exact ⟨init, le_rfl, rfl⟩
  · obtain ⟨m, hm, he⟩ : ∃ m ≤ init, minElement x (others ++ [some init]) = some m :=
      minElement_le _ (Or.inr (by simp))
    refine ⟨m, hm, ?_⟩
    change (minElement x (others ++ [some init])).map (· + 1) = _
    rw [he, Option.map_some]

theorem QueueOk.process {node : Node} (h : QueueOk blocks k node) {i : ℕ} {b : BlockInfo}
    (hb : blocks[i]? = some b) (hfirst : k = 0 → node.queue = [] → i = 0) (countBlocks : ℕ)
    (retry : Option ℕ) :
    QueueOk blocks k { node.process b with countBlocks := countBlocks, retry := retry } where
  mem c hm := by
    rcases List.mem_append.1 hm with hm | hm
    · exact h.mem c hm
    · rw [List.mem_singleton.1 hm]
      exact ⟨i, hb⟩
  first hk := by
    left
    rcases hq : node.queue with _ | ⟨c, queue⟩
    · obtain rfl := hfirst hk hq
      exact ⟨b, by simp [Node.process, hq], hb⟩
    · rcases h.first hk with ⟨c', hc', hb'⟩ | ⟨hnil, -⟩
      · rw [hq] at hc'
        exact ⟨c', by simpa [Node.process, hq] using hc', hb'⟩
      · rw [hq] at hnil; cases hnil

/-- A step of the replay keeps the queue in order. -/
theorem QueueOk.retryStep {node node' : Node} (h : QueueOk blocks k node) {blockNumber : ℕ}
    (hr : node.retry = some blockNumber) (hstep : node.retryStep blocks blockNumber = some node') :
    QueueOk blocks k node' := by
  rw [Node.retryStep] at hstep
  by_cases hle : blockNumber ≤ node.countBlocks
  · rw [if_pos hle] at hstep
    obtain ⟨b, hb, rfl⟩ := Option.map_eq_some_iff.1 hstep
    by_cases hinit : node.initBlockNumber < blockNumber
    · rw [if_pos hinit]
      refine h.process hb ?_ _ _
      intro hk hq
      rcases h.first hk with ⟨c, hc, -⟩ | ⟨-, -, hret | ⟨hret, -⟩⟩
      · rw [hq] at hc; cases hc
      · rw [hr] at hret
        obtain rfl := Option.some.inj hret
        rfl
      · rw [hr] at hret; cases hret
    · rw [if_neg hinit]
      refine ⟨h.mem, ?_⟩
      intro hk
      rcases h.first hk with hfirst | ⟨-, hzero, hret | ⟨hret, -⟩⟩
      · exact Or.inl hfirst
      · rw [hr] at hret
        obtain rfl := Option.some.inj hret
        omega
      · rw [hr] at hret; cases hret
  · rw [if_neg hle] at hstep
    obtain rfl := Option.some.inj hstep
    refine ⟨h.mem, ?_⟩
    intro hk
    rcases h.first hk with hfirst | ⟨hq, hzero, hret | ⟨hret, -⟩⟩
    · exact Or.inl hfirst
    · rw [hr] at hret
      obtain rfl := Option.some.inj hret
      exact Or.inr ⟨hq, hzero, Or.inr ⟨rfl, by dsimp only; omega⟩⟩
    · rw [hr] at hret; cases hret

/-- The first element of a queue is a block of the chain, the first one if nothing was processed. -/
theorem QueueOk.head {node : Node} (h : QueueOk blocks k node) {b : BlockInfo} {queue : List BlockInfo}
    (hqueue : node.queue = b :: queue) : ∃ i : ℕ, blocks[i]? = some b ∧ (k = 0 → i = 0) := by
  by_cases hk : k = 0
  · rcases h.first hk with ⟨c, hc, hb⟩ | ⟨hnil, -⟩
    · rw [hqueue] at hc
      obtain rfl := Option.some.inj hc
      exact ⟨0, hb, fun _ => rfl⟩
    · rw [hqueue] at hnil; cases hnil
  · obtain ⟨i, hb⟩ := h.mem b (by rw [hqueue]; exact List.mem_cons_self)
    exact ⟨i, hb, fun h => absurd h hk⟩

/-- Behind the first block, any block of the chain may come. -/
theorem QueueOk.tail {node : Node} (h : QueueOk blocks k node) {b : BlockInfo} {queue : List BlockInfo}
    (hqueue : node.queue = b :: queue) {k' : ℕ} (hk' : k' ≠ 0) :
    QueueOk blocks k' { node with queue := queue } := by
  refine ⟨?_, fun h => absurd h hk'⟩
  intro c hm
  exact h.mem c (by rw [hqueue]; exact List.mem_cons_of_mem _ hm)

/-- **A step** keeps what the database holds, or adds the next block to it. -/
theorem inv_step (hc : Chain isDouble blocks) {s s' : State} {a : Action} (hs : Inv isDouble blocks k s)
    (hstep : step isDouble blocks s a = some s') :
    Inv isDouble blocks k s' ∧ s'.leveldb = s.leveldb ∨ Inv isDouble blocks (k + 1) s' := by
  obtain ⟨hp, hq⟩ := hs
  cases a with
  | start countBlocks others =>
    left
    rw [step, hp.info] at hstep
    split_ifs at hstep
    obtain rfl := Option.some.inj hstep
    refine ⟨⟨hp, ?_⟩, rfl⟩
    rintro _ ⟨⟩
    refine ⟨by simp, ?_⟩
    rintro rfl
    right
    obtain ⟨m, hm, he⟩ := fromBlockNumber_le others 0
    obtain rfl : m = 0 := by omega
    exact ⟨rfl, rfl, Or.inl he⟩
  | retry =>
    left
    obtain ⟨node, hnode, hstep⟩ := Option.bind_eq_some_iff.1 hstep
    obtain ⟨blockNumber, hr, hstep⟩ := Option.bind_eq_some_iff.1 hstep
    obtain ⟨node', hnode', hstep⟩ := Option.bind_eq_some_iff.1 hstep
    obtain rfl := Option.some.inj hstep
    refine ⟨⟨hp, ?_⟩, rfl⟩
    rintro _ ⟨⟩
    exact (hq node hnode).retryStep hr hnode'
  | deliver =>
    left
    obtain ⟨node, hnode, hstep⟩ := Option.bind_eq_some_iff.1 hstep
    split_ifs at hstep with hr
    obtain ⟨b, hb, hstep⟩ := Option.bind_eq_some_iff.1 hstep
    obtain rfl := Option.some.inj hstep
    refine ⟨⟨hp, ?_⟩, rfl⟩
    rintro _ ⟨⟩
    refine (hq node hnode).process hb ?_ _ _
    intro hk hqueue
    rcases (hq node hnode).first hk with ⟨c, hc', -⟩ | ⟨-, -, hret | ⟨-, hzero⟩⟩
    · rw [hqueue] at hc'; cases hc'
    · rw [hret] at hr; exact absurd rfl hr
    · exact hzero
  | work =>
    obtain ⟨node, hnode, hstep⟩ := Option.bind_eq_some_iff.1 hstep
    rcases hqueue : node.queue with _ | ⟨b, queue⟩
    · rw [hqueue] at hstep; cases hstep
    · have hok := hq node hnode
      obtain ⟨i, hb, hi⟩ := hok.head hqueue
      rw [hqueue] at hstep
      dsimp only at hstep
      rcases workBlock_cases hc hp hb hi with ⟨hw, hk⟩ | ⟨leveldb', hw, hp'⟩ | ⟨⟨e, hw⟩, hk⟩
      · rw [hw] at hstep
        obtain rfl := Option.some.inj hstep
        left
        refine ⟨⟨hp, ?_⟩, rfl⟩
        rintro _ ⟨⟩
        exact hok.tail hqueue hk
      · rw [hw] at hstep
        obtain rfl := Option.some.inj hstep
        right
        refine ⟨hp', ?_⟩
        rintro _ ⟨⟩
        exact hok.tail hqueue (Nat.succ_ne_zero k)
      · rw [hw] at hstep
        obtain rfl := Option.some.inj hstep
        left
        refine ⟨⟨hp, ?_⟩, rfl⟩
        rintro _ ⟨⟩
        exact hok.tail hqueue hk
  | crash =>
    left
    obtain rfl := Option.some.inj hstep
    refine ⟨⟨hp, ?_⟩, rfl⟩
    rintro node ⟨⟩

/-- A run only adds blocks to what the database holds. -/
theorem inv_runs (hc : Chain isDouble blocks) {s s' : State} {as : List Action}
    (hs : Inv isDouble blocks k s) (hrun : Machine.runs (step isDouble blocks) s as = some s') :
    ∃ k', k ≤ k' ∧ Inv isDouble blocks k' s' := by
  have hstep : ∀ s a s', (∃ k', k ≤ k' ∧ Inv isDouble blocks k' s) →
      step isDouble blocks s a = some s' → ∃ k', k ≤ k' ∧ Inv isDouble blocks k' s' := by
    rintro s a s' ⟨k', hk', hs⟩ ha
    rcases inv_step hc hs ha with ⟨h, -⟩ | h
    · exact ⟨k', hk', h⟩
    · exact ⟨k' + 1, by omega, h⟩
  exact Machine.runs_invariant hstep ⟨k, le_rfl, hs⟩ hrun

/-- **Every block is processed exactly once.**  After any run of start-ups, replays, deliveries and
    crashes the database holds the number and the hash of a block `bₖ` with the nodes registered in
    `b₁, …, bₖ`; it will never hold fewer, and a step adds at most the next block. -/
theorem exactly_once (hc : Chain isDouble blocks) {s : State} {as : List Action}
    (hrun : Machine.runs (step isDouble blocks) {} as = some s) :
    ∃ k, Persisted isDouble blocks s.leveldb k ∧
      (∀ bs s', Machine.runs (step isDouble blocks) s bs = some s' →
        ∃ k', k ≤ k' ∧ Persisted isDouble blocks s'.leveldb k') ∧
      ∀ a s', step isDouble blocks s a = some s' →
        s'.leveldb = s.leveldb ∨ Persisted isDouble blocks s'.leveldb (k + 1) := by
  have hstart : Inv isDouble blocks 0 {} := by
    refine ⟨persisted_empty, ?_⟩
    rintro node ⟨⟩
  obtain ⟨k, -, hs⟩ := inv_runs hc hstart hrun
  refine ⟨k, hs.1, ?_, ?_⟩
  · intro bs s' hbs
    obtain ⟨k', hk', hs'⟩ := inv_runs hc hs hbs
    exact ⟨k', hk', hs'.1⟩
  · intro a s' ha
    rcases inv_step hc hs ha with ⟨-, h⟩ | h
    · exact Or.inl h
    · exact Or.inr h.1

end

/-- Two blocks; the first one registers a node. -/
def sampleBlocks : List BlockInfo :=
  [{ header := { hash := [1], prevHash := [9], blockNumber := some 1 }
     txs := [{ data := lit "\x7b\"method\":\"mh-noderegistration\",\"params\":\x7b\"host\":\"h\",\"name\":\"n\"\x7d\x7d" }] },
   { header := { hash := [2], prevHash := [1], blockNumber := some 2 } }]

/-- A run in which a crash loses the second block, and a replay restores it. -/
def sampleRun : List Action :=
  [.start 0 [none, some 0], .retry, .deliver, .deliver, .work, .crash,
   .start 2 [none, some 2], .retry, .retry, .work]

theorem sampleBlocks_chain : Chain (fun _ => true) sampleBlocks where
  length_lt := by decide
  number i b h := by
    rcases i with _ | _ | i
    · obtain rfl := Option.some.inj h; rfl
    · obtain rfl := Option.some.inj h; rfl
    · cases h
  hash_ne b h := by
    rcases List.mem_cons.1 h with rfl | h
    · decide
    · rw [List.mem_singleton.1 h]; decide
  link i b b' h h' := by
    rcases i with _ | i
    · obtain rfl := Option.some.inj h
      obtain rfl := Option.some.inj h'
      rfl
    · cases h'
  distinct := by decide
  first b h := by
    obtain rfl := Option.some.inj h
    refine ⟨[(nodeStatBlockNumberPrefix, serializeStringBigEndian [1] ++
      (serializeIntBigEndian 8 1 ++ serializeIntBigEndian 8 0)), (nodesStatsAll,
      serializeIntBigEndian 8 1 ++ (serializeStringBigEndian (lit "h") ++
        serializeStringBigEndian (lit "n")))], ?_⟩
    decide +kernel

/-- After this run the database holds the result of a block. -/
theorem exactly_once_sampleRun :
    ∃ s, Machine.runs (step (fun _ => true) sampleBlocks) {} sampleRun = some s ∧
      ∃ k, Persisted (fun _ => true) sampleBlocks s.leveldb k := by
  have hrun : (Machine.runs (step (fun _ => true) sampleBlocks) {} sampleRun).isSome = true := by
    decide +kernel
  obtain ⟨s, hs⟩ := Option.isSome_iff_exists.1 hrun
  obtain ⟨k, hk, -⟩ := exactly_once sampleBlocks_chain hs
  exact ⟨s, hs, k, hk⟩

end WorkerNodeTest

end TorrentNode
