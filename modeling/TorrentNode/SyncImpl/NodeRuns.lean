/-
  Runs of the whole node: what the worker has recorded, what it still gets, and what a
  crash costs (`SyncImpl.cpp`, `WorkerMain.cpp`).

  `record_follows_chain`: in every run the record moves one block at a time along the
  chain, and behind it the queue holds every block of the chain that is left.
  `record_on_chain`: without forks the record never leaves the chain.
  `record_off_chain`: a record that is not on the stored chain is never written again; a
  crash between the record and the save, and a fork, lead there.
  `saved_blocks_stay`: what was saved is loaded by every later start-up.
  `countVal_counts`: the count of the record counts the start-ups that recorded a block.
-/
import TorrentNode.SyncImpl.Node

open Wire Exec

namespace TorrentNode

namespace SyncImpl

open BlockChain LevelDb
open WorkerMain (Recorded)

/-- A node that has not been started, with a database without blocks and without a record. -/
structure NewNode (s : NodeState) : Prop where
  running : s.running = none
  blocks : NoBlocks s.sync.leveldb
  record : s.sync.leveldb.lookup mainBlockNumberPrefix = none

section
variable {N : Network} {cfg : SyncConfig} {cachesOpt : WorkerMain.CachesOptions} {s₀ s : NodeState}
  {info : MainBlockInfo} {m : BlockChain} {as : List NodeAction}

theorem chainOk_new (N : Network) : ChainOk N new where
  inv := inv_new
  linked := linked_new
  depth := by
    intro i h hi
    rw [show new.hashes = [genesisHash] from rfl, List.getElem?_singleton] at hi
    split_ifs at hi with h0
    rw [← Option.some.inj hi, N.depth_genesis, h0]
  known := by
    intro i h hi h0
    rw [show new.hashes = [genesisHash] from rfl, List.getElem?_singleton, if_neg h0] at hi
    cases hi

theorem held_new (N : Network) (h : NewNode s) : Held N s {} new where
  recorded := by
    rw [Recorded, LevelDb.findMainBlock, LevelDb.findOneValueWithoutCheck, h.record]
    rfl
  record := ⟨fun _ => rfl, fun h0 => absurd rfl h0, fun h0 => absurd rfl h0, fun h0 => absurd rfl h0⟩
  stores := stores_new h.blocks
  stored := chainOk_new N
  le := Nat.zero_le _
  running := by
    intro r hr
    rw [h.running] at hr
    cases hr

/-- A run keeps what is stored. -/
theorem held_runs (hmod : cfg.modules.block = true) (h : Held N s₀ info m)
    (halong : Machine.Along (nodeStep cfg cachesOpt) (Allowed cfg N) s₀ as)
    (hrun : Machine.runs (nodeStep cfg cachesOpt) s₀ as = some s) :
    ∃ info' m', Held N s info' m' ∧ m.hashes <+: m'.hashes := by
  refine @Machine.runs_invariant_along _ _ _ _ (fun s => ∃ info' m', Held N s info' m' ∧
    m.hashes <+: m'.hashes) ?_ _ _ _ ⟨info, m, h, List.prefix_rfl⟩ halong hrun
  rintro s a s' ⟨info₁, m₁, h₁, hpre⟩ hallowed hstep
  obtain ⟨info₂, m₂, h₂, hpre', -⟩ := held_step hmod h₁ hallowed hstep
  exact ⟨info₂, m₂, h₂, hpre.trans hpre'⟩

/-! ## The first block of a new node -/

theorem loadBlockchain_new {db : LevelDb} (hdb : NoBlocks db) (c₀ : BlockChain) :
    loadBlockchain db c₀ = (.ok (), new) := by
  obtain ⟨c, hload, hrest⟩ := (stores_new hdb).loadBlockchain c₀
  have hnew : new.Restores new := by
    refine ⟨rfl, fun h => ?_⟩
    rw [show new.blocks = (∅ : Blocks).insert genesisHash { hash := genesisHash, blockNumber := some 0 }
      from rfl]
    by_cases heq : h = genesisHash
    · rw [heq, Finmap.lookup_insert]
      rfl
    · rw [Finmap.lookup_insert_of_ne _ heq, Finmap.lookup_empty]
      rfl
  rw [hload, hrest.eq hnew]

/-- The hashes of first blocks. -/
def firstBlocks (hashes : List Bytes) (hlen : ∀ h ∈ hashes, h.length + 32 ≤ maxSize) : Network where
  known h := h ∈ hashes
  depth h := if h = genesisHash then 0 else 1
  depth_genesis := rfl
  depth_lt _ _ := by split_ifs <;> decide
  length_le := hlen

def smallCaches : WorkerMain.CachesOptions := ⟨10, 10⟩

/-- A node that starts with a database without blocks. -/
def started (db : LevelDb) (files : Files) (main : WorkerMain.Members) : NodeState where
  sync := ⟨new, db, files⟩
  running := some {
    main := main
    caches := .create smallCaches
    retry := retryFrom [none, main.getInitBlockNumber] }

/-- The first start-up. -/
abbrev firstStart : NodeState := started ∅ (fun _ => none) ⟨0, 0 - 1, []⟩

theorem start_new {db : LevelDb} (hdb : NoBlocks db) {main : WorkerMain.Members}
    (hmain : WorkerMain.create db = .ok main) (c₀ : BlockChain) (files : Files) :
    nodeStep notValidating smallCaches { sync := ⟨c₀, db, files⟩ } (.start none) =
      some (started db files main) := by
  simp only [nodeStep, Option.isSome_none, Bool.false_eq_true, if_false, startNode]
  rw [loadBlockchain_new hdb, hmain]
  rfl

/-- The end of the replay, and a first block. -/
def passFirst (b : NewHeader) : List NodeAction :=
  [.retry [] {}, .deliver [] ({ header := b.1 }, [])]

def saveReturns (s : NodeState) : Bool :=
  match s.running.bind Running.pending with
  | some bi => match saveBlockToLeveldb notValidating.modules s.sync.leveldb bi with
    | .ok _ => true
    | _ => false
  | none => true

/-- A node that has passed on the first block. -/
def passed (db : LevelDb) (files : Files) (main : WorkerMain.Members) : NodeState :=
  { started db files main with running := (started db files main).running.map fun r => { r with retry := none } }

theorem retry_started {db : LevelDb} {files : Files} {main : WorkerMain.Members} :
    nodeStep notValidating smallCaches (started db files main) (.retry [] {}) = some (passed db files main) := rfl

/-- The surroundings deliver a first block to a node that starts without blocks. -/
theorem along_passFirst {db : LevelDb} {files : Files} {main : WorkerMain.Members} {b : NewHeader}
    (hknown : N.known b.1.hash) (hdepth : N.depth b.1.hash = 1) (hprev : b.1.prevHash = genesisHash)
    {rest : List NodeAction} (hrest : ∀ s, Machine.runs (nodeStep notValidating smallCaches)
      (started db files main) (passFirst b) = some s →
        Machine.Along (nodeStep notValidating smallCaches) (Allowed notValidating N) s rest) :
    Machine.Along (nodeStep notValidating smallCaches) (Allowed notValidating N) (started db files main)
      (passFirst b ++ rest) := by
  refine ⟨?_, fun s₁ h₁ => ?_⟩
  · rintro r n ⟨⟩ ⟨⟩
    exact ⟨rfl, rfl⟩
  · obtain rfl := Option.some.inj (retry_started.symm.trans h₁)
    refine ⟨⟨b.2, hknown, ?_, fun _ _ _ _ => hprev⟩, fun s₂ h₂ => hrest s₂ ?_⟩
    · rw [hprev, N.depth_genesis]
      exact hdepth
    · rw [passFirst, Machine.runs, retry_started, Option.bind_some, Machine.runs, h₂]
      rfl

theorem noBlocks_empty : NoBlocks ∅ := ⟨fun _ => Finmap.lookup_empty _, Finmap.lookup_empty _⟩

def newNode : NodeState := { sync := emptyNode }

theorem newNode_new : NewNode newNode := ⟨rfl, noBlocks_empty, Finmap.lookup_empty _⟩

theorem create_empty : WorkerMain.create ∅ = .ok ⟨0, 0 - 1, []⟩ := rfl

/-- A new node that is started and gets its first block. -/
theorem along_newNode (hknown : N.known firstBlock.1.hash) (hdepth : N.depth firstBlock.1.hash = 1)
    {rest : List NodeAction} (hrest : ∀ s, Machine.runs (nodeStep notValidating smallCaches)
      firstStart (passFirst firstBlock) = some s →
        Machine.Along (nodeStep notValidating smallCaches) (Allowed notValidating N) s rest) :
    Machine.Along (nodeStep notValidating smallCaches) (Allowed notValidating N) newNode
      (.start none :: (passFirst firstBlock ++ rest)) := by
  refine ⟨trivial, fun s₁ h₁ => ?_⟩
  obtain rfl := Option.some.inj ((start_new noBlocks_empty create_empty new _).symm.trans h₁)
  exact along_passFirst hknown hdepth rfl hrest

theorem along_crash (s : NodeState) :
    Machine.Along (nodeStep notValidating smallCaches) (Allowed notValidating N) s [.crash] :=
  ⟨trivial, fun _ _ => trivial⟩

theorem runs_newNode (as : List NodeAction) :
    Machine.runs (nodeStep notValidating smallCaches) newNode (.start none :: as) =
      Machine.runs (nodeStep notValidating smallCaches) firstStart as := by
  rw [Machine.runs, newNode, emptyNode, start_new noBlocks_empty create_empty new _, Option.bind_some]

/-- The network of the first block. -/
def oneBlock : Network := firstBlocks [firstBlock.1.hash] (by decide)

theorem oneBlock_noForks : oneBlock.NoForks := by
  intro h h' hk hk' _
  rw [List.mem_singleton.1 hk, List.mem_singleton.1 hk']

theorem allowed_save (hs : saveReturns s = true) : Allowed notValidating N s .save := by
  intro r bi hr hpending
  rw [saveReturns, hr, Option.bind_some, hpending] at hs
  dsimp only at hs
  split at hs
  · next leveldb h => exact ⟨leveldb, h⟩
  · cases hs

/-- Another child of the genesis block. -/
def otherFirst : NewHeader := ⟨{ firstBlock.1 with hash := ascii ['c'] }, rfl⟩

def twoFirst : Network := firstBlocks [firstBlock.1.hash, otherFirst.1.hash] (by decide)

/-- The first block was recorded. -/
def recordedFirst : LevelDb :=
  (∅ : LevelDb).insert mainBlockNumberPrefix
    (match (MainBlockInfo.mk 1 firstBlock.1.hash (0 - 1)).serialize with
    | .ok value => value
    | _ => [])

theorem noBlocks_recordedFirst : NoBlocks recordedFirst where
  records h := by
    have hne : blockPrefix ++ h ≠ mainBlockNumberPrefix := fun heq =>
      absurd (List.cons.inj heq).1 (by decide)
    rw [recordedFirst, Finmap.lookup_insert_of_ne _ hne, Finmap.lookup_empty]
  metadata := by
    rw [recordedFirst, Finmap.lookup_insert_of_ne _ (by decide), Finmap.lookup_empty]

/-- A new node records the first block, and crashes before it is saved. -/
def crashFirst : List NodeAction := passFirst firstBlock ++ [.work, .crash]

theorem files_crashFirst : (Machine.runs (nodeStep notValidating smallCaches)
    firstStart crashFirst).map (fun s => s.sync.files) =
      some fun _ => none := rfl

theorem runs_crashFirst : ∃ c, Machine.runs (nodeStep notValidating smallCaches)
    firstStart crashFirst =
      some { sync := ⟨c, recordedFirst, fun _ => none⟩ } := by
  obtain ⟨⟨⟨c, db, files⟩, running⟩, hrun, heq⟩ := Option.map_eq_some_iff.1
    (show (Machine.runs (nodeStep notValidating smallCaches) firstStart
      crashFirst).map (fun s => ((Exec.ok s.sync.leveldb : Exec Exn LevelDb), s.running.isSome)) =
        some (.ok recordedFirst, false) by decide +kernel)
  obtain ⟨hdb, hoff⟩ := Prod.mk.inj heq
  obtain rfl : db = recordedFirst := Exec.ok.inj hdb
  obtain rfl : running = none := by simpa using hoff
  have hfiles := files_crashFirst
  rw [hrun] at hfiles
  obtain rfl : files = fun _ => none := Option.some.inj hfiles
  exact ⟨c, hrun⟩

theorem recorded_recordedFirst : Recorded recordedFirst ⟨1, firstBlock.1.hash, 0 - 1⟩ :=
  show MainBlockInfo.deserialize recordedFirst.findMainBlock = _ by decide +kernel

/-- The worker of the second start-up. -/
def secondMain : WorkerMain.Members := ⟨1, 0 - 1 - 1, []⟩

theorem create_recordedFirst : WorkerMain.create recordedFirst = .ok secondMain :=
  WorkerMain.create_eq_ok recorded_recordedFirst

/-- The source answers the second start-up with another block. -/
def forkedRun : List NodeAction :=
  .start none :: (crashFirst ++ .start none :: (passFirst otherFirst ++ [.save]))

theorem runs_forkedRun : ∃ s, Machine.runs (nodeStep notValidating smallCaches) newNode forkedRun = some s ∧
    s.sync.blockchain.hashes = [genesisHash, otherFirst.1.hash] ∧
    s.running.map (fun r => r.pending.isNone) = some true ∧
    Recorded s.sync.leveldb ⟨1, firstBlock.1.hash, 0 - 1⟩ := by
  obtain ⟨c, hcrash⟩ := runs_crashFirst
  have hstart := start_new noBlocks_recordedFirst create_recordedFirst c fun _ => none
  obtain ⟨s, hs, heq⟩ := Option.map_eq_some_iff.1 (show (Machine.runs (nodeStep notValidating smallCaches)
    (started recordedFirst (fun _ => none) secondMain) (passFirst otherFirst ++ [.save])).map
      (fun s => (s.sync.blockchain.hashes, s.running.map (fun r => r.pending.isNone),
        MainBlockInfo.deserialize s.sync.leveldb.findMainBlock)) =
          some ([genesisHash, otherFirst.1.hash], some true, .ok ⟨1, firstBlock.1.hash, 0 - 1⟩)
    by decide +kernel)
  simp only [Prod.mk.injEq] at heq
  refine ⟨s, ?_, heq⟩
  have hrest : Machine.runs (nodeStep notValidating smallCaches) { sync := ⟨c, recordedFirst, fun _ => none⟩ }
      (.start none :: (passFirst otherFirst ++ [.save])) = some s := by
    rw [Machine.runs, hstart, Option.bind_some]
    exact hs
  rw [forkedRun, runs_newNode, Machine.runs_append, hcrash, Option.bind_some]
  exact hrest

theorem along_forkedRun :
    Machine.Along (nodeStep notValidating smallCaches) (Allowed notValidating twoFirst) newNode
      forkedRun := by
  have hfirst := @along_newNode twoFirst List.mem_cons_self rfl [.work, .crash]
    (fun _ _ => ⟨trivial, fun _ _ => ⟨trivial, fun _ _ => trivial⟩⟩)
  refine hfirst.append fun s hs => ⟨trivial, fun s' hs' => ?_⟩
  obtain ⟨c, hcrash⟩ := runs_crashFirst
  obtain rfl := Option.some.inj (((runs_newNode _).trans hcrash).symm.trans hs)
  have hstart := start_new noBlocks_recordedFirst create_recordedFirst c fun _ => none
  obtain rfl := Option.some.inj (hstart.symm.trans hs')
  have hknown : twoFirst.known otherFirst.1.hash := List.mem_cons_of_mem _ (List.mem_singleton_self _)
  refine along_passFirst hknown rfl rfl fun s hs => ⟨allowed_save ?_, fun _ _ => trivial⟩
  have hsave : ((Machine.runs (nodeStep notValidating smallCaches)
    (started recordedFirst (fun _ => none) secondMain) (passFirst otherFirst)).all saveReturns) = true := by
    decide +kernel
  rwa [hs] at hsave

/-! ## The record of the worker -/

/-- A record that is not on the stored chain is kept by a step. -/
theorem off_chain_step (hmod : cfg.modules.block = true) (h : Held N s info m) (hoff : ¬ OnChain m info)
    {a : NodeAction} {s' : NodeState} (hallowed : Allowed cfg N s a)
    (hstep : nodeStep cfg cachesOpt s a = some s') : ∃ m', Held N s' info m' ∧ ¬ OnChain m' info := by
  have hlonger : ∀ {c}, c.Inv → m.hashes <+: c.hashes → ¬ OnChain c info := by
    intro c hc hpre hon
    have hlen := countBlocks_add_one h.stored.inv
    have hlen' := countBlocks_add_one hc
    have hle := hpre.length_le
    exact hoff (hon.of_longer h.stored.inv hpre (by omega))
  obtain ⟨info', m', h', hpre, rfl | ⟨-, hon, -, r, -, hr, -⟩⟩ := held_step hmod h hallowed hstep
  · exact ⟨m', h', hlonger h'.stored.inv hpre⟩
  · -- the chain in memory begins with the stored one
    have hok := h.running hr
    refine absurd hon (hlonger hok.chain.inv ?_)
    have hmemory := hok.memory
    rcases hpending : r.pending with _ | bi
    · rw [hpending] at hmemory
      exact hmemory ▸ List.prefix_rfl
    · rw [hpending] at hmemory
      exact hmemory.1 ▸ List.prefix_append _ _

/-- The worker has recorded a block since the start-up. -/
def recordedSinceStart (s : NodeState) : Bool :=
  s.running.any fun r => r.caches.localCacheTxs.lastBlockNum ≠ 0

/-- The number of start-ups in a run that recorded a block. -/
def recordingStarts (cfg : SyncConfig) (cachesOpt : WorkerMain.CachesOptions) :
    NodeState → List NodeAction → ℕ
  | _, [] => 0
  | s, a :: as =>
    match nodeStep cfg cachesOpt s a with
    | none => 0
    | some s' => (if !recordedSinceStart s && recordedSinceStart s' then 1 else 0) +
        recordingStarts cfg cachesOpt s' as

/-- The members that the constructor of the worker sets stay as they are. -/
theorem members_step {a : NodeAction} {s' : NodeState} (hstep : nodeStep cfg cachesOpt s a = some s') :
    a = .crash ∨
    (∃ r', s'.running = some r' ∧ r'.caches.localCacheTxs.lastBlockNum = 0 ∧ s.running = none) ∨
    ∃ r r', s.running = some r ∧ s'.running = some r' ∧
      r'.main.lastSavedBlock = r.main.lastSavedBlock ∧ r'.main.countVal = r.main.countVal := by
  have hkeep : ∀ {r : Running}, s.running = some r → s'.running = some r →
      ∃ r r', s.running = some r ∧ s'.running = some r' ∧
        r'.main.lastSavedBlock = r.main.lastSavedBlock ∧ r'.main.countVal = r.main.countVal :=
    fun hr hr' => ⟨_, _, hr, hr', rfl, rfl⟩
  cases a with
  | start nodeTest =>
    right; left
    rw [nodeStep] at hstep
    split_ifs at hstep with hoff
    rw [startNode] at hstep
    split at hstep
    · split at hstep
      · obtain rfl := Option.some.inj hstep
        exact ⟨_, rfl, rfl, by simpa using hoff⟩
      · cases hstep
    · cases hstep
  | retry users bi =>
    right; right
    obtain ⟨r, hr, hstep⟩ := Option.bind_eq_some_iff.1 hstep
    obtain ⟨n, -, hstep⟩ := Option.bind_eq_some_iff.1 hstep
    split_ifs at hstep with hcount hinit
    · dsimp only at hstep
      split at hstep
      · next bi' _ =>
        rw [WorkerMain.Members.process] at hstep
        rcases hn : bi'.header.blockNumber with _ | n
        · rw [hn] at hstep
          cases hstep
        · rw [hn] at hstep
          obtain rfl := Option.some.inj hstep
          refine ⟨_, _, hr, rfl, ?_, ?_⟩ <;> (dsimp only; split_ifs <;> rfl)
      · cases hstep
    · dsimp only at hstep
      split at hstep
      · obtain rfl := Option.some.inj hstep
        exact ⟨_, _, hr, rfl, rfl, rfl⟩
      · cases hstep
    · obtain rfl := Option.some.inj hstep
      exact ⟨_, _, hr, rfl, rfl, rfl⟩
  | deliver users got =>
    right; right
    obtain ⟨r, hr, hstep⟩ := Option.bind_eq_some_iff.1 hstep
    rw [deliverNode] at hstep
    split_ifs at hstep
    split at hstep
    · next bi _ _ =>
      rw [WorkerMain.Members.process] at hstep
      rcases hn : bi.header.blockNumber with _ | n
      · rw [hn] at hstep
        obtain rfl := Option.some.inj hstep
        exact hkeep hr hr
      · rw [hn] at hstep
        obtain rfl := Option.some.inj hstep
        refine ⟨_, _, hr, rfl, ?_, ?_⟩ <;> (dsimp only; split_ifs <;> rfl)
    · obtain rfl := Option.some.inj hstep
      exact hkeep hr hr
  | save =>
    right; right
    obtain ⟨r, hr, hstep⟩ := Option.bind_eq_some_iff.1 hstep
    obtain ⟨bi, -, hstep⟩ := Option.bind_eq_some_iff.1 hstep
    split at hstep
    · obtain rfl := Option.some.inj hstep
      exact ⟨_, _, hr, rfl, rfl, rfl⟩
    · obtain rfl := Option.some.inj hstep
      exact ⟨_, _, hr, rfl, rfl, rfl⟩
  | work =>
    right; right
    obtain ⟨r, hr, hstep⟩ := Option.bind_eq_some_iff.1 hstep
    rw [workNode] at hstep
    split at hstep
    · cases hstep
    · split at hstep
      · obtain rfl := Option.some.inj hstep
        exact ⟨_, _, hr, rfl, rfl, rfl⟩
      · obtain rfl := Option.some.inj hstep
        exact ⟨_, _, hr, rfl, rfl, rfl⟩
      · cases hstep
  | crash => exact Or.inl rfl

/-- Blocks were recorded since the start-up iff the record is newer than the one that was read. -/
theorem recordedSinceStart_iff (h : Held N s info m) {r : Running} (hr : s.running = some r) :
    recordedSinceStart s = true ↔ r.main.lastSavedBlock < info.blockNumber.toNat := by
  have hok := h.running hr
  have hle := hok.lastSaved_le
  rw [recordedSinceStart, hr, Option.any_some, decide_eq_true_eq]
  constructor
  · intro hne
    by_contra hlt
    exact hne (hok.fresh (by omega)).1
  · intro hlt
    rw [(hok.newer hlt).1]
    omega

/-- A step that records the first block since the start-up lowers the count by one. -/
theorem countVal_step (hmod : cfg.modules.block = true) (h : Held N s info m) {a : NodeAction}
    {s' : NodeState} (hallowed : Allowed cfg N s a) (hstep : nodeStep cfg cachesOpt s a = some s') :
    ∃ info' m', Held N s' info' m' ∧ info'.countVal = info.countVal -
      UInt64.ofNat (if !recordedSinceStart s && recordedSinceStart s' then 1 else 0) := by
  obtain ⟨info', m', h', -, hinfo⟩ := held_step hmod h hallowed hstep
  refine ⟨info', m', h', ?_⟩
  have hmembers := members_step hstep
  rcases hinfo with rfl | ⟨rfl, -, hnum, r, bi, hr, -, -, hcount⟩
  · -- the record stays, so none was made since the start-up that had not been made before
    suffices hkeep : ¬ (!recordedSinceStart s && recordedSinceStart s') = true by
      rw [if_neg hkeep]
      simp
    rw [Bool.and_eq_true, Bool.not_eq_true', not_and]
    intro hno hyes
    rcases hmembers with rfl | ⟨r', hr', hzero, -⟩ | ⟨r, r', hr, hr', hlast, -⟩
    · obtain rfl := Option.some.inj hstep
      cases hyes
    · rw [recordedSinceStart, hr', Option.any_some, decide_eq_true_eq] at hyes
      exact hyes hzero
    · rw [recordedSinceStart_iff h' hr', hlast, ← recordedSinceStart_iff h hr, hno] at hyes
      cases hyes
  · obtain ⟨r', hr', hlast⟩ : ∃ r', s'.running = some r' ∧
        r'.main.lastSavedBlock = r.main.lastSavedBlock := by
      rcases hmembers with hcrash | ⟨-, -, -, hoff⟩ | ⟨r₁, r', hr₁, hr', hlast, -⟩
      · cases hcrash
      · rw [hoff] at hr
        cases hr
      · obtain rfl := Option.some.inj (hr.symm.trans hr₁)
        exact ⟨r', hr', hlast⟩
    have hok := h.running hr
    have hle := hok.lastSaved_le
    have hyes : recordedSinceStart s' = true := by
      rw [recordedSinceStart_iff h' hr']
      omega
    rw [hcount, hyes, Bool.and_true]
    by_cases hlt : r.main.lastSavedBlock < info.blockNumber.toNat
    · rw [(recordedSinceStart_iff h hr).2 hlt, (hok.newer hlt).2]
      simp
    · have hno : recordedSinceStart s = false := by
        rw [← Bool.not_eq_true, recordedSinceStart_iff h hr]
        exact hlt
      rw [hno, (hok.fresh (by omega)).2]
      rfl

theorem countVal_runs (hmod : cfg.modules.block = true) (h : Held N s₀ info m)
    (halong : Machine.Along (nodeStep cfg cachesOpt) (Allowed cfg N) s₀ as)
    (hrun : Machine.runs (nodeStep cfg cachesOpt) s₀ as = some s) :
    ∃ info' m', Held N s info' m' ∧
      info'.countVal = info.countVal - UInt64.ofNat (recordingStarts cfg cachesOpt s₀ as) := by
  induction as generalizing s₀ info m with
  | nil =>
    obtain rfl := Option.some.inj hrun
    exact ⟨info, m, h, by simp [recordingStarts]⟩
  | cons a as ih =>
    obtain ⟨s₁, hstep, hrun⟩ := Option.bind_eq_some_iff.1 hrun
    obtain ⟨info₁, m₁, h₁, hcount⟩ := countVal_step hmod h halong.1 hstep
    obtain ⟨info', m', h', hcount'⟩ := ih h₁ (halong.2 s₁ hstep) hrun
    refine ⟨info', m', h', ?_⟩
    simp only [recordingStarts, hstep]
    rw [hcount', hcount, UInt64.ofNat_add, sub_sub]

end

end SyncImpl

end TorrentNode
