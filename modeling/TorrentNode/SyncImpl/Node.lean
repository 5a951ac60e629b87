/-
  The node as a whole (`SyncImpl::synchronize` with `WorkerMain`): the thread that
  appends and saves the blocks, the thread of the worker, start-ups and crashes.

  The thread of `synchronize` appends a block to the chain, passes it to the workers and
  then saves it; the worker takes it from its queue and writes its own record to the same
  database, before the save or after it.  A crash loses the chain in memory and the queue.
  A start-up loads the chain from the database, reads the record, and replays the blocks
  behind the smallest number of all workers.  The steps of both threads interleave freely;
  that a queue holds one block only makes fewer orders possible.

  The source may answer with another chain after a crash.  `Network` gives the hashes there
  are, and how far they are from the genesis block.

  `held_step`: a step keeps what is stored, or adds one block to the stored chain, or records
  the next block.
-/
import TorrentNode.SyncImpl.Gaps
import TorrentNode.Workers.MainRecord

open Wire Exec

namespace TorrentNode

namespace SyncImpl

open BlockChain LevelDb
open WorkerMain (Recorded)

/-! ## The machine -/

/-- A node that runs: the worker, the caches, the next block to replay (until the replay is over) and
    the block that was passed to the workers and is not saved yet. -/
structure Running where
  main : WorkerMain.Members
  caches : WorkerMain.Caches
  retry : Option ℕ
  pending : Option BlockInfo := none

/-- The chain in memory, the database and the files, and whether the node runs. -/
structure NodeState where
  sync : SyncState
  running : Option Running := none

inductive NodeAction where
  /-- `synchronize` begins; `nodeTest` is the number of the worker of the node tests, if there is one -/
  | start (nodeTest : Option ℕ)
  /-- an iteration of the replay, with the block that was read, or its end -/
  | retry (users : List Bytes) (bi : BlockInfo)
  /-- the loop body for a block, up to the workers -/
  | deliver (users : List Bytes) (got : GotBlock)
  /-- `saveBlockToLeveldb` -/
  | save
  /-- an iteration of the thread of `WorkerMain` -/
  | work
  | crash

/-- `fromBlockNumber`, by the numbers of the workers. -/
def retryFrom (workers : List (Option ℕ)) : Option ℕ :=
  (WorkerNodeTest.minElement (workers.headD none) workers.tail).map (· + 1)

/-- The block that is passed on in the replay of the block `bh`. -/
def replayed (bh : BlockHeader) (bi : BlockInfo) : BlockInfo :=
  { bi with header := { bi.header with blockNumber := bh.blockNumber } }

section
variable (cfg : SyncConfig) (cachesOpt : WorkerMain.CachesOptions)

/-- The beginning of `synchronize`: the node that runs then. -/
def startNode (s : NodeState) (nodeTest : Option ℕ) : Option NodeState :=
  match loadBlockchain s.sync.leveldb s.sync.blockchain with
  | (.ok (), blockchain) =>
    match WorkerMain.create s.sync.leveldb with
    | .ok main => some {
        sync := { s.sync with blockchain := blockchain }
        running := some {
          main := main
          caches := .create cachesOpt
          retry := retryFrom ([none, main.getInitBlockNumber] ++ nodeTest.toList.map some) } }
    | _ => none
  | _ => none

/-- An iteration of the replay of a node that runs.  An exception ends the thread. -/
def retryNode (s : NodeState) (r : Running) (users : List Bytes) (bi : BlockInfo) : Option NodeState := do
  let blockNumber ← r.retry
  if blockNumber ≤ s.sync.blockchain.countBlocks then
    let bh := s.sync.blockchain.getBlockNumber blockNumber
    match filterTransactionsToSave cfg.modules users (replayed bh bi) with
    | .ok bi =>
      if r.main.getInitBlockNumber.any (· < blockNumber) then
        match r.main.process bi with
        | .ok main => some { s with running := some { r with main := main, retry := some (blockNumber + 1) } }
        | _ => none
      else some { s with running := some { r with retry := some (blockNumber + 1) } }
    | _ => none
  else some { s with running := some { r with retry := none } }

/-- The loop body of a node that runs, up to the workers.  An exception is logged. -/
def deliverNode (s : NodeState) (r : Running) (users : List Bytes) (got : GotBlock) : Option NodeState :=
  if r.retry.isSome ∨ r.pending.isSome then none
  else
    match appendBlock cfg users got s.sync with
    | (.ok bi, sync) =>
      match r.main.process bi with
      | .ok main => some { sync := sync, running := some { r with main := main, pending := some bi } }
      | _ => some { s with sync := sync }
    | (_, sync) => some { s with sync := sync }

/-- The save of a node that runs.  An exception is logged. -/
def saveNode (s : NodeState) (r : Running) : Option NodeState := do
  let bi ← r.pending
  match saveBlockToLeveldb cfg.modules s.sync.leveldb bi with
  | .ok leveldb => some {
      sync := { s.sync with leveldb := leveldb }
      running := some { r with pending := none } }
  | _ => some { s with running := some { r with pending := none } }

/-- An iteration of the worker of a node that runs. -/
def workNode (s : NodeState) (r : Running) : Option NodeState :=
  match r.main.queue with
  | [] => none
  | bi :: queue =>
    match WorkerMain.workBlock r.main.countVal s.sync.leveldb r.caches bi with
    | .ok (leveldb, caches) => some {
        sync := { s.sync with leveldb := leveldb }
        running := some { r with main := { r.main with queue := queue }, caches := caches } }
    -- the exception is logged, and the block is gone
    | .throw _ => some { s with running := some { r with main := { r.main with queue := queue } } }
    | _ => none

/-- A step of the node. -/
def nodeStep (s : NodeState) : NodeAction → Option NodeState
  | .start nodeTest => if s.running.isSome then none else startNode cachesOpt s nodeTest
  | .retry users bi => s.running.bind fun r => retryNode cfg s r users bi
  | .deliver users got => s.running.bind fun r => deliverNode cfg s r users got
  | .save => s.running.bind fun r => saveNode cfg s r
  | .work => s.running.bind fun r => workNode s r
  | .crash => some { s with running := none }

end

/-! ## The blocks there are -/

/-- The hashes of the blocks, and their distance from the genesis block.  They are short enough for
    the records. -/
structure Network where
  known : Bytes → Prop
  depth : Bytes → ℕ
  depth_genesis : depth genesisHash = 0
  depth_lt : ∀ h, known h → depth h < 2 ^ 64
  length_le : ∀ h, known h → h.length + 32 ≤ maxSize

/-- No two blocks have the same number. -/
def Network.NoForks (N : Network) : Prop :=
  ∀ h h', N.known h → N.known h' → N.depth h = N.depth h' → h = h'

/-- What the surroundings of the node may do: the source delivers blocks of the network, a first
    block that names the genesis block; a replay reads the block of the chain; a save returns. -/
def Allowed (cfg : SyncConfig) (N : Network) (s : NodeState) : NodeAction → Prop
  | .deliver _ got => got.1.header.blockNumber = none ∧ N.known got.1.header.hash ∧
      N.depth got.1.header.hash = N.depth got.1.header.prevHash + 1 ∧
      s.sync.blockchain.RootedCall got.1.header
  | .retry _ bi => ∀ r n, s.running = some r → r.retry = some n →
      bi.header.hash = (s.sync.blockchain.getBlockNumber n).hash ∧
      bi.header.prevHash = (s.sync.blockchain.getBlockNumber n).prevHash
  | .save => ∀ r bi, s.running = some r → r.pending = some bi →
      ∃ leveldb, saveBlockToLeveldb cfg.modules s.sync.leveldb bi = .ok leveldb
  | _ => True

/-! ## The invariant -/

/-- The chain has the block `bi` at the place `n`. -/
structure IsBlock (c : BlockChain) (n : ℕ) (bi : BlockInfo) : Prop where
  number : bi.header.blockNumber = some n
  pos : n ≠ 0
  hash : c.hashes[n]? = some bi.header.hash
  parent : c.hashes[n - 1]? = some bi.header.prevHash

/-- The recorded block is on the chain, or the chain is too short for it. -/
def OnChain (c : BlockChain) (info : MainBlockInfo) : Prop :=
  info.blockNumber.toNat ≠ 0 → info.blockNumber.toNat ≤ c.countBlocks →
    c.hashes[info.blockNumber.toNat]? = some info.blockHash

/-- A record of no block, or of a block of the network. -/
structure RecordOk (N : Network) (info : MainBlockInfo) : Prop where
  zero : info.blockNumber.toNat = 0 → info.blockHash = []
  known : info.blockNumber.toNat ≠ 0 → N.known info.blockHash
  depth : info.blockNumber.toNat ≠ 0 → N.depth info.blockHash = info.blockNumber.toNat
  hash_ne : info.blockNumber.toNat ≠ 0 → info.blockHash ≠ []

/-- A chain of blocks of the network. -/
structure ChainOk (N : Network) (c : BlockChain) : Prop where
  inv : c.Inv
  linked : c.Linked
  depth : ∀ {i h}, c.hashes[i]? = some h → N.depth h = i
  known : ∀ {i h}, c.hashes[i]? = some h → i ≠ 0 → N.known h

/-- The number of the next block that is passed to the worker. -/
def Running.next (r : Running) (c : BlockChain) : ℕ :=
  max (r.retry.getD (c.countBlocks + 1)) (r.main.lastSavedBlock + 1)

/-- The chain `c` in memory is the stored chain `m` with the block that is not saved yet. -/
def Memory (c m : BlockChain) : Option BlockInfo → Prop
  | none => c.hashes = m.hashes
  | some bi => c.hashes = m.hashes ++ [bi.header.hash] ∧ bi.header.prevHash = m.getLastBlock.hash

/-- The queue holds the blocks behind the record up to the last one that was passed on. -/
structure Fed (c : BlockChain) (info : MainBlockInfo) (r : Running) : Prop where
  length : info.blockNumber.toNat + 1 + r.main.queue.length = r.next c
  block : ∀ {j bi}, r.main.queue[j]? = some bi → IsBlock c (info.blockNumber.toNat + 1 + j) bi

/-- A node that runs on the chain `c`, with `m` stored. -/
structure RunningOk (N : Network) (c m : BlockChain) (info : MainBlockInfo) (r : Running) : Prop where
  chain : ChainOk N c
  memory : Memory c m r.pending
  lastSaved_le : r.main.lastSavedBlock ≤ info.blockNumber.toNat
  retry : ∀ {n}, r.retry = some n → n ≠ 0 ∧ r.pending = none ∧
    n ≤ max (c.countBlocks + 1) (r.main.lastSavedBlock + 1)
  blocks : ∀ {bi}, bi ∈ r.main.queue → ∃ n, IsBlock c n bi
  fed : OnChain c info → Fed c info r
  fresh : r.main.lastSavedBlock = info.blockNumber.toNat →
    r.caches.localCacheTxs.lastBlockNum = 0 ∧ r.main.countVal = info.countVal - 1
  newer : r.main.lastSavedBlock < info.blockNumber.toNat →
    r.caches.localCacheTxs.lastBlockNum = info.blockNumber.toNat ∧ info.countVal = r.main.countVal

/-- The database holds the chain `m` and the record `info`. -/
structure Held (N : Network) (s : NodeState) (info : MainBlockInfo) (m : BlockChain) : Prop where
  recorded : Recorded s.sync.leveldb info
  record : RecordOk N info
  stores : Stores s.sync.leveldb m
  stored : ChainOk N m
  le : info.blockNumber.toNat ≤ m.countBlocks + 1
  running : ∀ {r}, s.running = some r → RunningOk N s.sync.blockchain m info r

section
variable {N : Network} {c m : BlockChain} {info : MainBlockInfo}

theorem countBlocks_add_one (hc : c.Inv) : c.countBlocks + 1 = c.hashes.length := by
  have := hc.length_pos
  rw [countBlocks]
  omega

theorem IsBlock.mono {c' : BlockChain} {n : ℕ} {bi : BlockInfo} (h : IsBlock c n bi)
    (hpre : c.hashes <+: c'.hashes) : IsBlock c' n bi where
  number := h.number
  pos := h.pos
  hash := getElem?_of_beginning hpre h.hash
  parent := getElem?_of_beginning hpre h.parent

theorem IsBlock.le (hc : c.Inv) {n : ℕ} {bi : BlockInfo} (h : IsBlock c n bi) : n ≤ c.countBlocks := by
  have hlt := (List.getElem?_eq_some_iff.1 h.hash).1
  have := countBlocks_add_one hc
  omega

/-- On a longer chain a record is on the chain only if it was before. -/
theorem OnChain.of_longer {c' : BlockChain} (hc : c.Inv) (hpre : c.hashes <+: c'.hashes)
    (hcount : c.countBlocks ≤ c'.countBlocks) (h : OnChain c' info) : OnChain c info := by
  intro h0 hle
  have hlt : info.blockNumber.toNat < c.hashes.length := by
    have := countBlocks_add_one hc
    omega
  have hi := List.getElem?_eq_getElem hlt
  have hi' := getElem?_of_beginning hpre hi
  rw [h h0 (hle.trans hcount)] at hi'
  rw [hi, hi']

/-- A chain with the same hashes is restored. -/
theorem chainOk_restores {c' : BlockChain} (h : ChainOk N c) (hr : c'.Restores c) : ChainOk N c' := by
  have hc' := inv_of_restores h.inv hr
  refine ⟨hc', ?_, ?_, ?_⟩
  · intro i h1 hi
    have hget : ∀ {j}, j < c.hashes.length → (c'.getBlockNumber j).hash = (c.getBlockNumber j).hash ∧
        (c'.getBlockNumber j).prevHash = (c.getBlockNumber j).prevHash := by
      intro j hj
      have hj' := List.getElem?_eq_getElem hj
      have hl := (h.inv.getBlockNumber_spec hj').1
      have hl' := (hc'.getBlockNumber_spec (by rw [hr.hashes]; exact hj')).1
      rw [hr.headers, hl, Option.map_some] at hl'
      rw [← Option.some.inj hl']
      exact ⟨rfl, rfl⟩
    have hlen : i < c.hashes.length := by
      have := countBlocks_add_one hc'
      rw [hr.hashes] at this
      omega
    have hle : i ≤ c.countBlocks := by
      have := countBlocks_add_one h.inv
      omega
    rw [(hget hlen).2, (hget (by omega)).1]
    exact h.linked i h1 hle
  · intro i k hk
    exact h.depth (hr.hashes ▸ hk)
  · intro i k hk
    exact h.known (hr.hashes ▸ hk)

/-- A block that is appended to a chain of the network. -/
theorem ChainOk.addBlock (h : ChainOk N c) {b : BlockHeader} (hb : b.blockNumber = none)
    (hknown : N.known b.hash) (hdepth : N.depth b.hash = N.depth b.prevHash + 1)
    (hroot : c.RootedCall b) {n : ℕ} {c' : BlockChain} (hadd : c.addBlock b = (.ok n, c')) :
    ChainOk N c' ∧ n = c.countBlocks + 1 ∧ c'.hashes = c.hashes ++ [b.hash] ∧
      b.prevHash = c.getLastBlock.hash := by
  obtain ⟨ha, he⟩ := addBlock_of_ok h.inv.numbered hb (congrArg Prod.fst hadd)
  have hlinked := h.inv.linked_addBlock hb h.linked hroot
  rw [hadd] at he hlinked
  obtain ⟨hn, rfl⟩ := Prod.mk.inj he
  have hparent : b.prevHash = c.getLastBlock.hash := by
    rcases (h.inv.accepts_iff.1 ha).2.2 with hp | ⟨h0, hp, -⟩
    · exact hp
    · exact (hroot h0 ha.1 ha.2.1 hp).trans (h.inv.genesis_of_empty h0).1.symm
  have hnew : ∀ {i k}, (c.append b).hashes[i]? = some k → c.hashes[i]? = some k ∨
      i = c.hashes.length ∧ k = b.hash := by
    intro i k hi
    rw [append, List.getElem?_append] at hi
    split_ifs at hi with hlt
    · exact Or.inl hi
    · rw [List.getElem?_singleton] at hi
      split_ifs at hi with h0
      exact Or.inr ⟨by omega, (Option.some.inj hi).symm⟩
  refine ⟨⟨inv_append h.inv ha, hlinked, ?_, ?_⟩, ?_, rfl, hparent⟩
  · intro i k hi
    rcases hnew hi with hi | ⟨rfl, rfl⟩
    · exact h.depth hi
    · have hpos := h.inv.length_pos
      rw [hdepth, hparent, h.depth h.inv.getElem?_last]
      omega
  · intro i k hi h0
    rcases hnew hi with hi | ⟨rfl, rfl⟩
    · exact h.known hi h0
    · exact hknown
  · rw [Exec.ok.inj hn, countBlocks_add_one h.inv]

/-- The block of a replay is that of the chain. -/
theorem isBlock_replayed (h : ChainOk N c) {n : ℕ} (h0 : n ≠ 0) (hn : n ≤ c.countBlocks)
    {bi : BlockInfo} (hhash : bi.header.hash = (c.getBlockNumber n).hash)
    (hprev : bi.header.prevHash = (c.getBlockNumber n).prevHash) :
    IsBlock c n (replayed (c.getBlockNumber n) bi) := by
  have hlen := countBlocks_add_one h.inv
  have hget := List.getElem?_eq_getElem (show n < c.hashes.length by omega)
  have hget' := List.getElem?_eq_getElem (show n - 1 < c.hashes.length by omega)
  obtain ⟨-, hh, hnum⟩ := h.inv.getBlockNumber_spec hget
  obtain ⟨-, hh', -⟩ := h.inv.getBlockNumber_spec hget'
  refine ⟨hnum, h0, ?_, ?_⟩
  · show c.hashes[n]? = some bi.header.hash
    rw [hhash, hh, hget]
  · show c.hashes[n - 1]? = some bi.header.prevHash
    rw [hprev, h.linked n (by omega) hn, hh', hget']

/-! ## Passing a block to the worker -/

theorem process_eq {w : WorkerMain.Members} {bi : BlockInfo} {n : ℕ}
    (hn : bi.header.blockNumber = some n) : w.process bi =
      .ok (if w.lastSavedBlock < n then { w with queue := w.queue ++ [bi] } else w) := by
  rw [WorkerMain.Members.process, hn]
  rfl

/-- The node after the block `bi` with the next number `n` was passed to the worker. -/
structure Passed (c c' : BlockChain) (n : ℕ) (bi : BlockInfo) (r r' : Running) : Prop where
  block : IsBlock c' n bi
  next : r.retry.getD (c.countBlocks + 1) = n
  next' : r'.retry.getD (c'.countBlocks + 1) = n + 1
  main : r'.main = if r.main.lastSavedBlock < n then { r.main with queue := r.main.queue ++ [bi] }
    else r.main

theorem Passed.lastSavedBlock {c' : BlockChain} {n : ℕ} {bi : BlockInfo} {r r' : Running}
    (h : Passed c c' n bi r r') : r'.main.lastSavedBlock = r.main.lastSavedBlock := by
  rw [h.main]
  split_ifs <;> rfl

theorem Passed.countVal {c' : BlockChain} {n : ℕ} {bi : BlockInfo} {r r' : Running}
    (h : Passed c c' n bi r r') : r'.main.countVal = r.main.countVal := by
  rw [h.main]
  split_ifs <;> rfl

theorem Passed.mem_queue {c' : BlockChain} {n : ℕ} {bi b : BlockInfo} {r r' : Running}
    (h : Passed c c' n bi r r') (hb : b ∈ r'.main.queue) : b ∈ r.main.queue ∨ b = bi := by
  rw [h.main] at hb
  split_ifs at hb
  · simpa using hb
  · exact Or.inl hb

/-- A queue that is fed stays so. -/
theorem Fed.pass {c' : BlockChain} {n : ℕ} {bi : BlockInfo} {r r' : Running} (h : Fed c info r)
    (hpre : c.hashes <+: c'.hashes) (hp : Passed c c' n bi r r') : Fed c' info r' := by
  have hlen := h.length
  have hlast := hp.lastSavedBlock
  have hqueue : r'.main.queue = if r.main.lastSavedBlock < n then r.main.queue ++ [bi]
      else r.main.queue := by
    rw [hp.main]
    split_ifs <;> rfl
  rw [Running.next, hp.next] at hlen
  by_cases hn : r.main.lastSavedBlock < n
  · rw [if_pos hn] at hqueue
    refine ⟨?_, ?_⟩
    · rw [Running.next, hp.next', hlast, hqueue, List.length_append, List.length_singleton]
      omega
    · intro j b hb
      rw [hqueue, List.getElem?_append] at hb
      split_ifs at hb with hj
      · exact (h.block hb).mono hpre
      · rw [List.getElem?_singleton] at hb
        split_ifs at hb with h0
        obtain rfl := Option.some.inj hb
        rw [show info.blockNumber.toNat + 1 + j = n by omega]
        exact hp.block
  · rw [if_neg hn] at hqueue
    refine ⟨?_, ?_⟩
    · rw [Running.next, hp.next', hlast, hqueue]
      omega
    · intro j b hb
      rw [hqueue] at hb
      exact (h.block hb).mono hpre

/-! ## A step -/

variable {cfg : SyncConfig} {cachesOpt : WorkerMain.CachesOptions} {s s' : NodeState}

theorem minElement_main (nodeTest : Option ℕ) (k : ℕ) :
    ∃ j ≤ k, retryFrom ([none, some k] ++ nodeTest.toList.map some) = some (j + 1) := by
  obtain ⟨j, hj, he⟩ := @WorkerNodeTest.minElement_le ([some k] ++ nodeTest.toList.map some) k none
    (Or.inr (by simp))
  refine ⟨j, hj, ?_⟩
  show (WorkerNodeTest.minElement none ([some k] ++ nodeTest.toList.map some)).map (· + 1) = _
  rw [he, Option.map_some]

/-- **A start-up is always possible**, and what it loads is what was stored. -/
theorem held_start (h : Held N s info m) (hoff : s.running = none) (nodeTest : Option ℕ) :
    ∃ s', nodeStep cfg cachesOpt s (.start nodeTest) = some s' ∧ Held N s' info m := by
  obtain ⟨c, hload, hrest⟩ := h.stores.loadBlockchain s.sync.blockchain
  obtain ⟨j, hj, hretry⟩ := minElement_main nodeTest info.blockNumber.toNat
  refine ⟨{
      sync := { s.sync with blockchain := c }
      running := some {
        main := {
          lastSavedBlock := info.blockNumber.toNat
          countVal := Counter.store false info.countVal }
        caches := .create cachesOpt
        retry := some (j + 1) } }, ?_, ?_⟩
  · simp only [nodeStep, hoff, Option.isSome_none, Bool.false_eq_true, if_false, startNode, hload,
      WorkerMain.create_eq_ok h.recorded, WorkerMain.Members.getInitBlockNumber, hretry]
  · refine { h with running := ?_ }
    rintro _ ⟨⟩
    have hchain := chainOk_restores h.stored hrest
    refine ⟨hchain, hrest.hashes, le_rfl, ?_, ?_, ?_, ?_, ?_⟩
    · rintro _ ⟨⟩
      exact ⟨by omega, rfl, by dsimp only; omega⟩
    · intro bi hbi
      cases hbi
    · intro _
      refine ⟨?_, ?_⟩
      · simp only [Running.next, Option.getD_some, List.length_nil]
        omega
      · intro j bi hbi
        simp at hbi
    · intro _
      exact ⟨rfl, rfl⟩
    · intro hlt
      exact absurd hlt (lt_irrefl _)

/-- A running node that only passed a block to the worker, or moved on to the next block. -/
theorem RunningOk.pass {c' : BlockChain} {n : ℕ} {bi : BlockInfo} {r r' : Running}
    (h : RunningOk N c m info r) (hchain : ChainOk N c') (hpre : c.hashes <+: c'.hashes)
    (hcount : c.countBlocks ≤ c'.countBlocks) (hmemory : Memory c' m r'.pending)
    (hp : Passed c c' n bi r r') (hcaches : r'.caches = r.caches)
    (hretry : ∀ {k}, r'.retry = some k → k ≠ 0 ∧ r'.pending = none ∧
      k ≤ max (c'.countBlocks + 1) (r'.main.lastSavedBlock + 1)) :
    RunningOk N c' m info r' where
  chain := hchain
  memory := hmemory
  lastSaved_le := hp.lastSavedBlock ▸ h.lastSaved_le
  retry := hretry
  blocks := by
    intro b hb
    rcases hp.mem_queue hb with hb | rfl
    · obtain ⟨j, hj⟩ := h.blocks hb
      exact ⟨j, hj.mono hpre⟩
    · exact ⟨n, hp.block⟩
  fed hon := (h.fed (hon.of_longer h.chain.inv hpre hcount)).pass hpre hp
  fresh heq := by
    rw [hcaches, hp.countVal]
    exact h.fresh (hp.lastSavedBlock ▸ heq)
  newer hlt := by
    rw [hcaches, hp.countVal]
    exact h.newer (hp.lastSavedBlock ▸ hlt)

/-- An iteration of the replay. -/
theorem held_retry (h : Held N s info m) {users : List Bytes} {bi : BlockInfo}
    (hallowed : Allowed cfg N s (.retry users bi))
    (hstep : nodeStep cfg cachesOpt s (.retry users bi) = some s') : Held N s' info m := by
  obtain ⟨r, hr, hstep⟩ := Option.bind_eq_some_iff.1 hstep
  obtain ⟨n, hn, hstep⟩ := Option.bind_eq_some_iff.1 hstep
  have hok := h.running hr
  obtain ⟨h0, hpending, hle⟩ := hok.retry hn
  by_cases hcount : n ≤ s.sync.blockchain.countBlocks
  · -- the block `n` of the chain
    rw [if_pos hcount] at hstep
    obtain ⟨hhash, hprev⟩ := hallowed r n hr hn
    have hblock := isBlock_replayed hok.chain h0 hcount hhash hprev
    dsimp only at hstep
    generalize hf : filterTransactionsToSave cfg.modules users _ = filtered at hstep
    cases filtered with
    | ok bi' =>
      have hblock' : IsBlock s.sync.blockchain n bi' := by
        have hheader := filterTransactionsToSave_header hf
        exact ⟨hheader ▸ hblock.number, hblock.pos, hheader ▸ hblock.hash, hheader ▸ hblock.parent⟩
      have hpass : ∀ main : WorkerMain.Members,
          main = (if r.main.lastSavedBlock < n then { r.main with queue := r.main.queue ++ [bi'] }
            else r.main) →
          Held N { s with running := some { r with main := main, retry := some (n + 1) } } info m := by
        intro main hmain
        refine { h with running := ?_ }
        rintro _ ⟨⟩
        have hp : Passed s.sync.blockchain s.sync.blockchain n bi' r
            { r with main := main, retry := some (n + 1) } :=
          ⟨hblock', by rw [hn]; rfl, rfl, hmain⟩
        refine hok.pass hok.chain List.prefix_rfl le_rfl hok.memory hp rfl ?_
        rintro _ ⟨⟩
        refine ⟨by omega, hpending, ?_⟩
        rw [hp.lastSavedBlock]
        show n + 1 ≤ max (s.sync.blockchain.countBlocks + 1) _
        omega
      dsimp only at hstep
      rw [process_eq hblock'.number] at hstep
      dsimp only at hstep
      simp only [WorkerMain.Members.getInitBlockNumber, Option.any_some, decide_eq_true_eq] at hstep
      by_cases hlast : r.main.lastSavedBlock < n
      · rw [if_pos hlast, if_pos hlast] at hstep
        obtain rfl := Option.some.inj hstep
        exact hpass _ (if_pos hlast).symm
      · rw [if_neg hlast] at hstep
        obtain rfl := Option.some.inj hstep
        exact hpass _ (if_neg hlast).symm
    | throw | undef | outOfFuel => cases hstep
  · -- the replay is over
    rw [if_neg hcount] at hstep
    obtain rfl := Option.some.inj hstep
    refine { h with running := ?_ }
    rintro _ ⟨⟩
    refine { hok with retry := by rintro _ ⟨⟩, fed := ?_ }
    intro hon
    obtain ⟨hlen, hblocks⟩ := hok.fed hon
    refine ⟨?_, hblocks⟩
    rw [hlen]
    simp only [Running.next, hn, Option.getD_some, Option.getD_none]
    omega

theorem Held.files (h : Held N s info m) (files : Files) :
    Held N { s with sync := { s.sync with files := files } } info m :=
  ⟨h.recorded, h.record, h.stores, h.stored, h.le, h.running⟩

/-- The loop body, up to the workers. -/
theorem held_deliver (h : Held N s info m) {users : List Bytes} {got : GotBlock}
    (hallowed : Allowed cfg N s (.deliver users got))
    (hstep : nodeStep cfg cachesOpt s (.deliver users got) = some s') : Held N s' info m := by
  obtain ⟨r, hr, hstep⟩ := Option.bind_eq_some_iff.1 hstep
  rw [deliverNode] at hstep
  split_ifs at hstep with hbusy
  rw [not_or, Option.not_isSome_iff_eq_none, Option.not_isSome_iff_eq_none] at hbusy
  obtain ⟨hretry, hpending⟩ := hbusy
  have hok := h.running hr
  have hmem : s.sync.blockchain.hashes = m.hashes := by
    have := hok.memory
    rwa [hpending] at this
  obtain ⟨hnew, hknown, hdepth, hroot⟩ := hallowed
  have hcase := appendBlock_case cfg users got s.sync
  generalize appendBlock cfg users got s.sync = result at hcase hstep
  cases hcase with
  | @notFiltered res _ hres =>
    cases res with
    | ok bi => exact absurd rfl (hres bi)
    | throw | undef | outOfFuel => obtain rfl := Option.some.inj hstep; exact h
  | @notSaved _ res files _ _ hres =>
    cases res with
    | ok bi => exact absurd rfl (hres bi)
    | throw | undef | outOfFuel => obtain rfl := Option.some.inj hstep; exact h.files files
  | @rejected _ bi files r₁ r₂ c' hf hs hadd hr₁ hr₂ =>
    have hb : bi.header.blockNumber = none := by rw [header_appended hf hs]; exact hnew
    have hc' : c' = s.sync.blockchain := by
      rcases addBlock_spec hok.chain.inv.numbered hb with ⟨-, he⟩ | ⟨-, message, he⟩
      · rw [he] at hadd
        have hpos := hok.chain.inv.length_pos
        exact absurd (congrArg Prod.fst hadd).symm (hr₁ _ (by omega))
      · rw [he] at hadd
        exact (congrArg Prod.snd hadd).symm
    subst hc'
    cases r₂ with
    | ok bi => exact absurd rfl (hr₂ bi)
    | throw | undef | outOfFuel => obtain rfl := Option.some.inj hstep; exact h.files files
  | @accepted _ bi files n c' hf hs hadd _ =>
    have hheader := header_appended hf hs
    have hb : bi.header.blockNumber = none := by rw [hheader]; exact hnew
    have hhash : bi.header.hash = got.1.header.hash := by rw [hheader]
    have hprev : bi.header.prevHash = got.1.header.prevHash := by rw [hheader]
    have hroot' : s.sync.blockchain.RootedCall bi.header := by
      intro h0 h1 h2 h3
      rw [hprev]
      exact hroot h0 (hhash ▸ h1) (hhash ▸ h2) (hprev ▸ h3)
    obtain ⟨hchain, hn, hhashes, hparent⟩ := hok.chain.addBlock hb (hhash ▸ hknown)
      (by rw [hhash, hprev]; exact hdepth) hroot' hadd
    have hlen := countBlocks_add_one hok.chain.inv
    have hlen' := countBlocks_add_one hchain.inv
    rw [hhashes, List.length_append, List.length_singleton] at hlen'
    have hpre : s.sync.blockchain.hashes <+: c'.hashes := hhashes ▸ List.prefix_append _ _
    have hcount : s.sync.blockchain.countBlocks ≤ c'.countBlocks := by omega
    have hnumber : (setBlockNumber bi n).header.blockNumber = some n := rfl
    dsimp only at hstep
    rw [process_eq hnumber] at hstep
    obtain rfl := Option.some.inj hstep
    refine ⟨h.recorded, h.record, h.stores, h.stored, h.le, ?_⟩
    rintro _ ⟨⟩
    refine @RunningOk.pass _ _ _ _ c' n (setBlockNumber bi n) _ _ hok hchain hpre hcount ?_ ?_ rfl ?_
    · exact ⟨hmem ▸ hhashes, hparent.trans (last_hash_congr hok.chain.inv h.stored.inv hmem)⟩
    · refine ⟨⟨rfl, by omega, ?_, ?_⟩, ?_, ?_, rfl⟩
      · show c'.hashes[n]? = some bi.header.hash
        rw [hhashes, hn, hlen, List.getElem?_concat_length]
      · show c'.hashes[n - 1]? = some bi.header.prevHash
        refine getElem?_of_beginning hpre ?_
        rw [hparent, ← hok.chain.inv.getElem?_last, hn, ← hlen]
      · rw [hretry, hn]; rfl
      · show r.retry.getD (c'.countBlocks + 1) = n + 1
        rw [hretry, Option.getD_none]
        omega
    · intro k hk
      exact absurd (hretry.symm.trans hk) (by simp)

/-- The keys of headers, of files and of the metadata are the ones a save writes. -/
theorem lookup_saveBlockToLeveldb {modules : Modules} {db db' : LevelDb} {bi : BlockInfo}
    (hmod : modules.block = true) (hsave : saveBlockToLeveldb modules db bi = .ok db') {key : Bytes}
    (hblock : ¬ blockPrefix <+: key) (hfile : ¬ filePrefix <+: key) (hmeta : key ≠ keyBlockMetadata) :
    db'.lookup key = db.lookup key := by
  simp only [saveBlockToLeveldb, hmod, if_true, Exec.bind_eq_ok] at hsave
  obtain ⟨raw, -, batch, hbatch, metadata, -, rawMetadata, -, batch', hfileMeta, hdb⟩ := hsave
  rw [Batch.addBlockHeader, makeBlockKey] at hbatch
  simp only [Exec.bind_eq_ok] at hbatch
  obtain ⟨bkey, ⟨_, -, hbkey⟩, hbatch⟩ := hbatch
  rw [Batch.addFileMetadata, makeFileKey] at hfileMeta
  simp only [Exec.bind_eq_ok] at hfileMeta
  obtain ⟨fkey, ⟨_, -, hfkey⟩, hfileMeta⟩ := hfileMeta
  cases hbkey; cases hbatch; cases hfkey; cases hfileMeta; cases hdb
  have hb : key ≠ blockPrefix ++ bi.header.hash := fun h => hblock (h ▸ List.prefix_append _ _)
  have hf : key ≠ filePrefix ++ (CroppedFileName.ofName bi.header.filePos.fileName).name :=
    fun h => hfile (h ▸ List.prefix_append _ _)
  show (Finmap.insert _ _ (Finmap.insert _ _ (Finmap.insert _ _ db))).lookup key = _
  rw [Finmap.lookup_insert_of_ne _ hf, Finmap.lookup_insert_of_ne _ hmeta,
    Finmap.lookup_insert_of_ne _ hb]

/-- A save keeps the record of the worker. -/
theorem recorded_save {modules : Modules} {db db' : LevelDb} {bi : BlockInfo}
    (hmod : modules.block = true) (hsave : saveBlockToLeveldb modules db bi = .ok db')
    (h : Recorded db info) : Recorded db' info := by
  rw [Recorded, LevelDb.findMainBlock, LevelDb.findOneValueWithoutCheck,
    lookup_saveBlockToLeveldb hmod hsave (by decide) (by decide) (by decide)]
  exact h

/-- The save of the block that was passed to the workers. -/
theorem held_save (hmod : cfg.modules.block = true) (h : Held N s info m)
    (hallowed : Allowed cfg N s .save) (hstep : nodeStep cfg cachesOpt s .save = some s') :
    ∃ m', Held N s' info m' ∧ m.hashes <+: m'.hashes := by
  obtain ⟨r, hr, hstep⟩ := Option.bind_eq_some_iff.1 hstep
  obtain ⟨bi, hpending, hstep⟩ := Option.bind_eq_some_iff.1 hstep
  obtain ⟨db, hsave⟩ := hallowed r bi hr hpending
  rw [hsave] at hstep
  obtain rfl := Option.some.inj hstep
  have hok := h.running hr
  have hmemory := hok.memory
  rw [hpending] at hmemory
  obtain ⟨hhashes, hparent⟩ := hmemory
  have hlen := countBlocks_add_one h.stored.inv
  have hget : s.sync.blockchain.hashes[m.hashes.length]? = some bi.header.hash := by
    rw [hhashes, List.getElem?_concat_length]
  -- the block is new to the stored chain, and continues it
  let b : NewHeader := ⟨{ bi.header with blockNumber := none }, rfl⟩
  have hfresh : bi.header.hash ∉ m.hashes := by
    have hnodup := hok.chain.inv.nodup
    rw [hhashes, List.nodup_append] at hnodup
    intro hmem
    exact hnodup.2.2 _ hmem _ (List.mem_singleton_self _) rfl
  have hne : bi.header.hash ≠ [] := fun h0 =>
    hok.chain.inv.hash_ne (h0 ▸ List.mem_of_getElem? hget)
  have haccepts : m.Accepts b.1 :=
    h.stored.inv.accepts_iff.2 ⟨hne, fun hmem => hfresh ((h.stored.inv.mem_iff _).1 hmem), Or.inl hparent⟩
  have hadd : m.addBlock b.1 = (.ok m.hashes.length, m.append b.1) := by
    rcases addBlock_spec h.stored.inv.numbered b.2 with ⟨-, he⟩ | ⟨hno, -⟩
    · exact he
    · exact absurd haccepts hno
  have hroot : m.RootedCall b.1 := fun h0 _ _ _ => hparent.trans (h.stored.inv.genesis_of_empty h0).1
  have hdepth : N.depth bi.header.hash = N.depth bi.header.prevHash + 1 := by
    rw [hok.chain.depth hget, hparent, h.stored.depth h.stored.inv.getElem?_last]
    omega
  obtain ⟨hchain, -, hhashes', -⟩ := h.stored.addBlock b.2 (hok.chain.known hget (by omega)) hdepth
    hroot hadd
  have hstores : Stores db (m.append b.1) := by
    have := stores_save (b := b) hmod h.stores rfl hparent (congrArg Prod.fst hadd) hsave
    rwa [hadd] at this
  have hlen' := countBlocks_add_one hchain.inv
  rw [hhashes', List.length_append, List.length_singleton] at hlen'
  have hle := h.le
  refine ⟨m.append b.1, ⟨recorded_save hmod hsave h.recorded, h.record, hstores, hchain, by omega, ?_⟩,
    hhashes' ▸ List.prefix_append _ _⟩
  rintro _ ⟨⟩
  refine { hok with memory := ?_, retry := ?_, fed := ?_ }
  · exact hhashes.trans hhashes'.symm
  · intro n hn
    have := (hok.retry hn).2.1
    rw [hpending] at this
    cases this
  · intro hon
    exact ⟨(hok.fed hon).length, (hok.fed hon).block⟩

/-- The record of the block behind the recorded one. -/
def NextRecord (s : NodeState) (info info' : MainBlockInfo) : Prop :=
  OnChain s.sync.blockchain info ∧ info'.blockNumber.toNat = info.blockNumber.toNat + 1 ∧
    ∃ r bi, s.running = some r ∧ IsBlock s.sync.blockchain (info.blockNumber.toNat + 1) bi ∧
      info'.blockHash = bi.header.hash ∧ info'.countVal = r.main.countVal

theorem Memory.le (hc : c.Inv) (hm : m.Inv) {pending : Option BlockInfo} (h : Memory c m pending) :
    c.countBlocks ≤ m.countBlocks + 1 := by
  have hlen := countBlocks_add_one hc
  have hlen' := countBlocks_add_one hm
  rcases pending with _ | bi
  · have heq : c.hashes = m.hashes := h
    rw [heq] at hlen
    omega
  · rw [h.1, List.length_append, List.length_singleton] at hlen
    omega

/-- A block of the chain that continues the record is the one behind it, and the record is on the
    chain. -/
theorem onChain_of_link (hchain : ChainOk N c) (hrecord : RecordOk N info) {n : ℕ} {bi : BlockInfo}
    (hb : IsBlock c n bi) (h0 : info.blockNumber.toNat ≠ 0) (hlink : info.blockHash = bi.header.prevHash) :
    n = info.blockNumber.toNat + 1 ∧ OnChain c info := by
  have hparent := hb.parent
  have hpos := hb.pos
  rw [← hlink] at hparent
  have hdepth := hchain.depth hparent
  rw [hrecord.depth h0] at hdepth
  refine ⟨by omega, ?_⟩
  intro _ _
  rw [hdepth]
  exact hparent

/-- A block that is first in the queue is the one behind a record that is on the chain. -/
theorem Fed.head {r : Running} (h : Fed c info r) {bi : BlockInfo} {queue : List BlockInfo}
    (hqueue : r.main.queue = bi :: queue) {n : ℕ} (hn : bi.header.blockNumber = some n) :
    n = info.blockNumber.toNat + 1 := by
  have hb := @Fed.block _ _ _ h 0 bi (by rw [hqueue]; rfl)
  exact Option.some.inj (hn.symm.trans hb.number)

/-- **An iteration of the worker** leaves the record, or records the block behind it. -/
theorem held_work (h : Held N s info m) (hstep : nodeStep cfg cachesOpt s .work = some s') :
    ∃ info', Held N s' info' m ∧ (info' = info ∨ NextRecord s info info') := by
  obtain ⟨r, hr, hstep⟩ := Option.bind_eq_some_iff.1 hstep
  have hok := h.running hr
  rcases hqueue : r.main.queue with _ | ⟨bi, queue⟩
  · rw [workNode, hqueue] at hstep
    cases hstep
  obtain ⟨n, hb⟩ := hok.blocks (show bi ∈ r.main.queue by rw [hqueue]; exact List.mem_cons_self)
  have hne : bi.header.hash ≠ [] := fun h0 =>
    hok.chain.inv.hash_ne (h0 ▸ List.mem_of_getElem? hb.hash)
  have hknown := hok.chain.known hb.hash hb.pos
  have hrest : ∀ {b}, b ∈ queue → ∃ j, IsBlock s.sync.blockchain j b := fun hmem =>
    hok.blocks (by rw [hqueue]; exact List.mem_cons_of_mem _ hmem)
  rw [workNode, hqueue] at hstep
  dsimp only at hstep
  -- a record that stays is not on the chain, as the queue would be in order then
  have hkeep : ¬ OnChain s.sync.blockchain info →
      Held N { s with running := some { r with main := { r.main with queue := queue } } } info m := by
    intro hoff
    refine { h with running := ?_ }
    rintro _ ⟨⟩
    exact { hok with blocks := hrest, fed := fun hon => absurd hon hoff }
  rcases WorkerMain.workBlock_cases h.recorded hb.number hne (N.length_le _ hknown) r.main.countVal
    r.caches with ⟨hold, hw⟩ | ⟨hnew, hlink, value, hw, hrecorded⟩ | ⟨hnew, hlink₁, hlink₂, e, hw⟩
  · rw [hw] at hstep
    obtain rfl := Option.some.inj hstep
    refine ⟨info, hkeep ?_, Or.inl rfl⟩
    intro hon
    have := (hok.fed hon).head hqueue hb.number
    omega
  · rw [hw] at hstep
    obtain rfl := Option.some.inj hstep
    obtain ⟨hn, hon⟩ : n = info.blockNumber.toNat + 1 ∧ OnChain s.sync.blockchain info := by
      by_cases h0 : info.blockNumber.toNat = 0
      · have hon : OnChain s.sync.blockchain info := fun hno => absurd h0 hno
        exact ⟨(hok.fed hon).head hqueue hb.number, hon⟩
      · exact onChain_of_link hok.chain h.record hb h0 (hlink.resolve_left (h.record.hash_ne h0))
    have hdepth := hok.chain.depth hb.hash
    have hlt := N.depth_lt _ hknown
    have hnum : (UInt64.ofNat n).toNat = n := UInt64.toNat_ofNat_of_lt' (by
      change n < 2 ^ 64
      omega)
    have hle := hb.le hok.chain.inv
    have hle' := hok.memory.le hok.chain.inv h.stored.inv
    have hlast := hok.lastSaved_le
    refine ⟨_, ⟨hrecorded, ?_, stores_put h.stores ⟨mainBlockNumberPrefix, by decide⟩ value, h.stored,
      ?_, ?_⟩, Or.inr ⟨hon, hnum.trans hn, r, bi, hr, hn ▸ hb, rfl, rfl⟩⟩
    · refine ⟨?_, fun _ => hknown, ?_, fun _ => hne⟩
      · intro h0
        dsimp only at h0
        omega
      · intro _
        dsimp only
        rw [hnum, hdepth]
    · dsimp only
      omega
    · rintro _ ⟨⟩
      refine { hok with lastSaved_le := ?_, blocks := hrest, fed := ?_, fresh := ?_, newer := ?_ }
      · dsimp only
        omega
      · intro _
        obtain ⟨hlen, hblocks⟩ := hok.fed hon
        rw [hqueue, List.length_cons] at hlen
        refine ⟨?_, ?_⟩
        · show (UInt64.ofNat n).toNat + 1 + queue.length = r.next s.sync.blockchain
          omega
        · intro j b hj
          show IsBlock s.sync.blockchain ((UInt64.ofNat n).toNat + 1 + j) b
          have := @hblocks (j + 1) b (by rw [hqueue]; exact hj)
          rwa [hnum, hn, show info.blockNumber.toNat + 1 + 1 + j = info.blockNumber.toNat + 1 + (j + 1)
            by omega]
      · intro heq
        dsimp only at heq
        omega
      · intro _
        exact ⟨hnum.symm, rfl⟩
  · rw [hw] at hstep
    obtain rfl := Option.some.inj hstep
    refine ⟨info, hkeep ?_, Or.inl rfl⟩
    intro hon
    have hn := (hok.fed hon).head hqueue hb.number
    have h0 : info.blockNumber.toNat ≠ 0 := fun h0 => hlink₁ (h.record.zero h0)
    have hle := hb.le hok.chain.inv
    have hparent := hb.parent
    rw [hn, Nat.add_sub_cancel, hon h0 (by omega)] at hparent
    exact hlink₂ (Option.some.inj hparent)

/-- **A step** keeps what is stored, or adds one block to the stored chain, or records one more block. -/
theorem held_step (hmod : cfg.modules.block = true) (h : Held N s info m) {a : NodeAction} (hallowed : Allowed cfg N s a)
    (hstep : nodeStep cfg cachesOpt s a = some s') :
    ∃ info' m', Held N s' info' m' ∧ m.hashes <+: m'.hashes ∧
      (info' = info ∨ a = .work ∧ NextRecord s info info') := by
  cases a with
  | start nodeTest =>
    have hoff : s.running = none := by
      rcases hr : s.running with _ | r
      · rfl
      · rw [nodeStep, hr, Option.isSome_some, if_pos rfl] at hstep
        cases hstep
    obtain ⟨s'', hs, hheld⟩ := @held_start N m info cfg cachesOpt s h hoff nodeTest
    obtain rfl := Option.some.inj (hs.symm.trans hstep)
    exact ⟨info, m, hheld, List.prefix_rfl, Or.inl rfl⟩
  | retry users bi => exact ⟨info, m, held_retry h hallowed hstep, List.prefix_rfl, Or.inl rfl⟩
  | deliver users got => exact ⟨info, m, held_deliver h hallowed hstep, List.prefix_rfl, Or.inl rfl⟩
  | save =>
    obtain ⟨m', hheld, hpre⟩ := held_save hmod h hallowed hstep
    exact ⟨info, m', hheld, hpre, Or.inl rfl⟩
  | work =>
    obtain ⟨info', hheld, hinfo⟩ := held_work h hstep
    exact ⟨info', m, hheld, List.prefix_rfl, hinfo.imp id fun hnext => ⟨rfl, hnext⟩⟩
  | crash =>
    obtain rfl := Option.some.inj hstep
    refine ⟨info, m, { h with running := ?_ }, List.prefix_rfl, Or.inl rfl⟩
    rintro r ⟨⟩

end

end SyncImpl

end TorrentNode
