/-
  Blocks that are appended and not saved.

  The loop of `synchronize` appends a block to the chain before the workers get it and
  before it is saved.  If a worker or the database throws, the block stays in memory,
  and the next `doProcess` asks for the blocks behind it: the block is not delivered
  again, and the blocks behind it are saved without it.

  `rebuilds_of_inOrder`: in every run in which each block is saved behind the last one
  that was saved, the database rebuilds the beginning of the chain in memory, whatever
  fails.  `load_gap`: a block that is saved behind one that was not is all that the
  start-up code finds, and it becomes block 1.
-/
import TorrentNode.SyncImpl.FilePositions

open Wire Exec

namespace TorrentNode

namespace SyncImpl

open BlockChain LevelDb

/-! ## The chain that is rebuilt -/

/-- The start-up code rebuilds from the database the beginning of the chain in memory, with the
    numbers the blocks have there. -/
def Rebuilds (s : SyncState) : Prop :=
  ∀ c₀, ∃ c, loadBlockchain s.leveldb c₀ = (.ok (), c) ∧ c.hashes <+: s.blockchain.hashes ∧
    ∀ h ∈ c.hashes, ∃ n, (c.getBlockImplHash h).blockNumber = some n ∧
      (s.blockchain.getBlockImplHash h).blockNumber = some n

/-- The database holds the chain `c`, which is the beginning of the chain in memory. -/
structure NoGap (s : SyncState) (c : BlockChain) : Prop where
  stores : Stores s.leveldb c
  inv : s.blockchain.Inv
  hashes : c.hashes <+: s.blockchain.hashes

theorem getElem?_of_beginning {l l' : List Bytes} (h : l <+: l') {i : ℕ} {k : Bytes}
    (hi : l[i]? = some k) : l'[i]? = some k := by
  obtain ⟨hlt, rfl⟩ := List.getElem?_eq_some_iff.1 hi
  exact List.prefix_iff_getElem?.1 h i hlt

/-- What is stored is loaded. -/
theorem Stores.loadBlockchain {db : LevelDb} {c : BlockChain} (hs : Stores db c) (c₀ : BlockChain) :
    ∃ c', loadBlockchain db c₀ = (.ok (), c') ∧ c'.Restores c := by
  rw [SyncImpl.loadBlockchain, hs.metadata]
  exact hs.load (fun _ => Iff.rfl) c₀

theorem NoGap.rebuilds {s : SyncState} {c : BlockChain} (h : NoGap s c) : Rebuilds s := by
  intro c₀
  obtain ⟨c', hload, hrest⟩ := h.stores.loadBlockchain c₀
  refine ⟨c', hload, hrest.hashes ▸ h.hashes, fun k hk => ?_⟩
  rw [hrest.hashes] at hk
  obtain ⟨i, hi⟩ := List.mem_iff_getElem?.1 hk
  have hi' : s.blockchain.hashes[i]? = some k := getElem?_of_beginning h.hashes hi
  obtain ⟨bh, hl, -, hn⟩ := h.stores.inv.number i k hi
  obtain ⟨bh', hl', -, hn'⟩ := h.inv.number i k hi'
  refine ⟨i, ?_, ?_⟩
  · rw [getBlockImplHash, hrest.headers k, hl]
    exact hn
  · rw [getBlockImplHash, hl']
    exact hn'

/-- A chain that was restored is numbered as before. -/
theorem inv_of_restores {c c' : BlockChain} (hc : c.Inv) (h : c'.Restores c) : c'.Inv := by
  have hheader : ∀ k bh, c.blocks.lookup k = some bh →
      c'.blocks.lookup k = some { bh with endBlockPos := 0 } := by
    intro k bh hl
    rw [h.headers k, hl]
    rfl
  refine ⟨h.hashes ▸ hc.genesis, h.hashes ▸ hc.nodup, h.hashes ▸ hc.hash_ne, ?_, ?_, ?_⟩
  · intro k
    rw [h.hashes, ← hc.mem_iff k, ← Finmap.lookup_isSome, h.headers k, Option.isSome_map,
      Finmap.lookup_isSome]
  · intro i k hi
    obtain ⟨bh, hl, hh, hn⟩ := hc.number i k (h.hashes ▸ hi)
    exact ⟨_, hheader k bh hl, hh, hn⟩
  · intro i k h2 hi
    rw [h.hashes] at hi ⊢
    obtain ⟨bh, hl, -, -⟩ := hc.number i k hi
    have hlinked := hc.linked i k h2 hi
    rw [header_of_lookup hl] at hlinked
    rw [header_of_lookup (hheader k bh hl)]
    exact hlinked

/-! ## One pass -/

/-- The last block of the chain is the last one that was saved, and the block `bi` continues it. -/
structure InOrder (s : SyncState) (bi : BlockInfo) : Prop where
  last : ∃ metadata, BlocksMetadata.deserialize s.leveldb.findBlockMetadata = .ok metadata ∧
    metadata.blockHash = (chainMetadata s.blockchain).blockHash
  parent : bi.header.prevHash = s.blockchain.getLastBlock.hash

/-- Chains with the same hashes end with the same block. -/
theorem last_hash_congr {c m : BlockChain} (hc : c.Inv) (hm : m.Inv) (heq : c.hashes = m.hashes) :
    c.getLastBlock.hash = m.getLastBlock.hash := by
  have hlast := hc.getElem?_last
  rw [heq, hm.getElem?_last] at hlast
  exact (Option.some.inj hlast).symm

/-- A beginning of a chain that ends with the last block of the chain is all of it. -/
theorem hashes_eq_of_last {c m : BlockChain} (hm : m.Inv) (hpre : c.hashes <+: m.hashes)
    (hlast : m.getLastBlock.hash ∈ c.hashes) : c.hashes = m.hashes := by
  obtain ⟨i, hi⟩ := List.mem_iff_getElem?.1 hlast
  have hlt := (List.getElem?_eq_some_iff.1 hi).1
  obtain ⟨hlt', heq⟩ := List.getElem?_eq_some_iff.1 (getElem?_of_beginning hpre hi)
  obtain ⟨hlt'', heq'⟩ := List.getElem?_eq_some_iff.1 hm.getElem?_last
  have hindex := hm.nodup.getElem_inj_iff.1 (heq.trans heq'.symm)
  have hle := hpre.length_le
  exact hpre.eq_of_length (by omega)

/-- A beginning of a chain with the metadata of the chain is all of it. -/
theorem hashes_eq_of_metadata {c m : BlockChain} (hc : c.Inv) (hm : m.Inv) (hpre : c.hashes <+: m.hashes)
    (hmeta : (chainMetadata c).blockHash = (chainMetadata m).blockHash) : c.hashes = m.hashes := by
  have hne : ∀ {d : BlockChain}, d.Inv → d.getLastBlock.hash ≠ [] := fun hd h =>
    hd.hash_ne (h ▸ List.mem_of_getElem? hd.getElem?_last)
  rw [chainMetadata, chainMetadata] at hmeta
  split_ifs at hmeta with hc0 hm0 hm0
  · have hcpos := hc.length_pos
    have hmpos := hm.length_pos
    rw [countBlocks] at hc0 hm0
    exact hpre.eq_of_length (by omega)
  · exact absurd hmeta.symm (hne hm)
  · exact absurd hmeta (hne hc)
  · refine hashes_eq_of_last hm hpre ?_
    have hlast : c.getLastBlock.hash = m.getLastBlock.hash := hmeta
    rw [← hlast]
    exact List.mem_of_getElem? hc.getElem?_last

/-- A call of `addBlock` keeps the beginning of the chain. -/
theorem prefix_addBlock {c : BlockChain} {b : BlockHeader} (hc : c.Inv) (hb : b.blockNumber = none) :
    c.hashes <+: (c.addBlock b).2.hashes := by
  rcases addBlock_spec hc.numbered hb with ⟨-, he⟩ | ⟨-, m, he⟩
  · rw [he]
    exact List.prefix_append _ _
  · rw [he]

/-- Appending a block that is not saved leaves no gap. -/
theorem NoGap.addBlock {s : SyncState} {c : BlockChain} (h : NoGap s c) {b : BlockHeader}
    (hb : b.blockNumber = none) (files : Files) :
    NoGap { s with blockchain := (s.blockchain.addBlock b).2, files := files } c where
  stores := h.stores
  inv := inv_addBlock h.inv hb
  hashes := h.hashes.trans (prefix_addBlock h.inv hb)

/-- A block that is saved in order leaves no gap. -/
theorem NoGap.save {modules : Modules} (hmod : modules.block = true) {s : SyncState} {c : BlockChain}
    (h : NoGap s c) {b : NewHeader} {bi : BlockInfo} {n : ℕ} {m : BlockChain} {db : LevelDb}
    (hbi : { bi.header with blockNumber := none } = b.1) (horder : InOrder s bi)
    (hadd : s.blockchain.addBlock b = (.ok n, m))
    (hsave : saveBlockToLeveldb modules s.leveldb bi = .ok db) (files : Files) :
    NoGap ⟨m, db, files⟩ (c.addBlock b).2 := by
  have hc := h.stores.inv
  obtain ⟨⟨metadata, hmeta, hlast⟩, hparent⟩ := horder
  obtain rfl : metadata = chainMetadata c := Exec.ok.inj (hmeta.symm.trans h.stores.metadata)
  have heq := hashes_eq_of_metadata hc h.inv h.hashes hlast
  have hprev : b.1.prevHash = c.getLastBlock.hash := by
    rw [last_hash_congr hc h.inv heq, ← hparent, ← hbi]
  obtain ⟨ha, he⟩ := addBlock_of_ok h.inv.numbered b.2 (congrArg Prod.fst hadd)
  rw [he] at hadd
  cases hadd
  have haccepts : c.Accepts b.1 := by
    refine hc.accepts_iff.2 ⟨ha.1, ?_, Or.inl hprev⟩
    rw [hc.mem_iff, heq, ← h.inv.mem_iff]
    exact ha.2.1
  rcases addBlock_spec hc.numbered b.2 with ⟨-, hec⟩ | ⟨hno, -⟩
  swap
  · exact absurd haccepts hno
  refine ⟨stores_save hmod h.stores hbi hprev (by rw [hec]) hsave, inv_append h.inv ha, ?_⟩
  rw [hec]
  show c.hashes ++ [b.1.hash] <+: s.blockchain.hashes ++ [b.1.hash]
  rw [heq]

section
variable {S : Support} {cfg : SyncConfig}

/-- **One pass** leaves no gap if it saves its block in order, or does not save it. -/
theorem NoGap.handleBlock (hmod : cfg.modules.block = true) {env : PassEnv} {got : GotBlock}
    {s : SyncState} {c : BlockChain} (h : NoGap s c) (hnew : got.1.header.blockNumber = none)
    (horder : ∀ bi s', appendBlock cfg env.users got s = (.ok bi, s') →
      (finishBlock cfg env bi s').1 = .ok () → InOrder s bi) :
    ∃ c', NoGap (handleBlock cfg env got s).2 c' := by
  rw [SyncImpl.handleBlock]
  have hcase := appendBlock_case cfg env.users got s
  generalize appendBlock cfg env.users got s = result at hcase horder ⊢
  cases hcase with
  | @notFiltered r _ hr =>
    cases r with
    | ok bi => exact absurd rfl (hr bi)
    | throw | undef | outOfFuel => exact ⟨c, h⟩
  | @notSaved _ r files _ _ hr =>
    have h' : NoGap { s with files := files } c := ⟨h.stores, h.inv, h.hashes⟩
    cases r with
    | ok bi => exact absurd rfl (hr bi)
    | throw | undef | outOfFuel => exact ⟨c, h'⟩
  | @rejected _ bi' files _ r' m hf hs hadd _ hr' =>
    have hb : bi'.header.blockNumber = none := by rw [header_appended hf hs]; exact hnew
    have h' := h.addBlock hb files
    rw [hadd] at h'
    cases r' with
    | ok bi => exact absurd rfl (hr' bi)
    | throw | undef | outOfFuel => exact ⟨c, h'⟩
  | @accepted _ bi' files n m hf hs hadd _ =>
    have hb : bi'.header.blockNumber = none := by rw [header_appended hf hs]; exact hnew
    dsimp only
    obtain ⟨leveldb, hstate, hdb⟩ := @finishBlock_state cfg env (setBlockNumber bi' n)
      { s with files := files, blockchain := m }
    rw [hstate]
    rcases hdb with rfl | ⟨hok, hsave⟩
    · -- the block stays in memory only
      have h' := h.addBlock hb files
      rw [hadd] at h'
      exact ⟨c, h'⟩
    · have hbi : { (setBlockNumber bi' n).header with blockNumber := none } = bi'.header := by
        show { bi'.header with blockNumber := none } = bi'.header
        rw [← hb]
      exact ⟨_, h.save hmod (b := ⟨bi'.header, hb⟩) hbi (horder _ _ rfl hok) hadd hsave files⟩

/-- A pass of the loop that saves its block in order. -/
theorem NoGap.deliver (hmod : cfg.modules.block = true) {env : PassEnv} {next : GotBlock} {l : Loop}
    {c : BlockChain} (h : NoGap l.state c)
    (hnew : ∀ got, got = next ∨ l.prev = some got → got.1.header.blockNumber = none)
    (horder : ∀ bi, savedBlock S cfg env l.prev next l.state = some bi → InOrder l.state bi) :
    ∃ c', NoGap (l.deliver S cfg env next).state c' := by
  show ∃ c', NoGap (loopBody S cfg env l.prev next l.state).2 c'
  rw [loopBody]
  split
  · exact ⟨c, h⟩
  · next got hsel =>
    refine h.handleBlock hmod (hnew got (mem_of_selectBlock hsel)) ?_
    intro bi s' happ hfin
    refine horder bi ?_
    rcases hres : finishBlock cfg env bi s' with ⟨r, s''⟩
    rw [hres] at hfin
    dsimp only at hfin
    simp only [savedBlock, hsel, happ, hres, hfin]
  · exact ⟨c, h⟩

/-- Nothing is saved if a worker throws. -/
theorem savedBlock_workers {env : PassEnv} {e : Exn} (he : env.workers = some e) {prev : Option GotBlock}
    {next : GotBlock} {s : SyncState} : savedBlock S cfg env prev next s = none := by
  unfold savedBlock
  split
  · split
    · simp [finishBlock, he]
    · rfl
  · rfl

/-! ## Runs -/

/-- A block that is saved in the beginning of a run is saved in the run. -/
theorem Saves.append {l₀ l : Loop} {events : List LoopEvent} {env : PassEnv} {next : GotBlock}
    {bi : BlockInfo} (h : Saves S cfg l₀ events l env next bi) (more : List LoopEvent) :
    Saves S cfg l₀ (events ++ more) l env next bi := by
  obtain ⟨before, after, rfl, h⟩ := h
  exact ⟨before, after ++ more, by simp, h⟩

theorem noGap_run (hmod : cfg.modules.block = true) {s : SyncState}
    (hstart : Stores s.leveldb s.blockchain) {events : List LoopEvent}
    (hnew : ∀ next env, .process (.block next) env ∈ events → next.1.header.blockNumber = none)
    (horder : ∀ l env next bi, Saves S cfg { state := s } events l env next bi → InOrder l.state bi)
    {l : Loop} (hrun : Loop.run S cfg { state := s } events = some l) : ∃ c, NoGap l.state c := by
  induction events using List.reverseRecOn generalizing l with
  | nil =>
    cases hrun
    exact ⟨s.blockchain, hstart, hstart.inv, List.prefix_rfl⟩
  | append_singleton events event ih =>
    rw [Loop.run, Machine.runs_append] at hrun
    obtain ⟨l₁, hl₁, hstep⟩ := Option.bind_eq_some_iff.1 hrun
    obtain ⟨l₂, hl₂, heq⟩ := Option.bind_eq_some_iff.1 hstep
    cases heq
    have hold : ∀ next env, .process (.block next) env ∈ events → next.1.header.blockNumber = none :=
      fun next env h => hnew next env (List.mem_append_left _ h)
    obtain ⟨c, hc⟩ := ih hold (fun l env next bi h => horder l env next bi (h.append [event])) hl₁
    cases Loop.step_case S cfg hl₂ with
    | doProcess => exact ⟨c, hc⟩
    | @block next env hon =>
      refine hc.deliver hmod ?_ ?_
      · rintro got (rfl | hprev)
        · exact hnew got env (List.mem_append_right _ (List.mem_singleton_self _))
        · exact prev_delivered hold hl₁ got hprev
      · intro bi hbi
        exact horder l₁ env next bi ⟨events, [], rfl, hl₁, hon, hbi⟩
    | noBlock => exact ⟨c, hc⟩
    | @mainBlock value =>
      exact ⟨c, stores_put hc.stores ⟨mainBlockNumberPrefix, by decide⟩ value, hc.inv, hc.hashes⟩
    | restart hload =>
      -- the chain in memory is now the stored one
      obtain ⟨c', hload', hrest⟩ := hc.stores.loadBlockchain l₁.state.blockchain
      obtain rfl := congrArg Prod.snd (hload'.symm.trans hload)
      refine ⟨c, hc.stores, inv_of_restores hc.stores.inv hrest, ?_⟩
      show c.hashes <+: c'.hashes
      rw [hrest.hashes]

/-- **No gap.**  Whatever the workers and the database throw, and however often the node is started
    again: as long as every block that is saved continues the last block in memory, and that one is
    the last one that was saved, the start-up code rebuilds from the database the beginning of the
    chain in memory, with its numbers. -/
theorem rebuilds_of_inOrder (hmod : cfg.modules.block = true) {s : SyncState}
    (hstart : Stores s.leveldb s.blockchain) {events : List LoopEvent}
    (hnew : ∀ next env, .process (.block next) env ∈ events → next.1.header.blockNumber = none)
    (horder : ∀ l env next bi, Saves S cfg { state := s } events l env next bi → InOrder l.state bi)
    {l : Loop} (hrun : Loop.run S cfg { state := s } events = some l) : Rebuilds l.state := by
  obtain ⟨c, hc⟩ := noGap_run hmod hstart hnew horder hrun
  exact hc.rebuilds

end

/-! ## A lost block -/

/-- A header whose parent is missing is numbered as block 1. -/
theorem calcBlockchain_no_parent {blocks : Blocks} {h : Bytes} {bh : BlockHeader}
    (hl : blocks.lookup h = some bh) (hh : h ≠ []) (hhash : bh.hash = h) (hn : bh.blockNumber = none)
    (hp : bh.prevHash ≠ []) (hparent : bh.prevHash ∉ blocks) :
    ∃ c', (⟨blocks, [genesisHash]⟩ : BlockChain).calcBlockchain h = (.ok 1, c') ∧
      c'.hashes = [genesisHash, h] := by
  have hmem : h ∈ blocks := Finmap.mem_of_lookup_eq_some hl
  have hparent' : ∀ n, bh.prevHash ∉ setNumber blocks h n := by
    intro n hin
    rcases mem_setNumber.1 hin with heq | hin
    · exact hparent (heq ▸ hmem)
    · exact hparent hin
  rw [calcBlockchain, if_neg hh, if_neg (not_not.2 hmem)]
  simp [walkBack, numberBlocks, header_of_lookup hl, hn, hp, hparent', hhash]

/-- **A block that is saved behind one that is not** is all that the start-up code finds. -/
theorem load_gap {modules : Modules} (hmod : modules.block = true) {db db' : LevelDb} {c : BlockChain}
    (hs : Stores db c) {bi : BlockInfo} (hsave : saveBlockToLeveldb modules db bi = .ok db')
    (hfresh : bi.header.hash ∉ c.blocks) (hp : bi.header.prevHash ≠ [])
    (hparent : bi.header.prevHash ∉ c.blocks) (hself : bi.header.prevHash ≠ bi.header.hash)
    (c₀ : BlockChain) :
    ∃ c', loadBlockchain db' c₀ = (.ok (), c') ∧ c'.hashes = [genesisHash, bi.header.hash] := by
  have hgen : genesisHash ∈ c.blocks := Finmap.mem_of_lookup_eq_some hs.genesis
  have hne : bi.header.hash ≠ genesisHash := fun h => hfresh (h ▸ hgen)
  obtain ⟨raw, _, _, _, _, hraw, -, -, -⟩ := saveBlockToLeveldb_eq_ok hmod hsave
  have hne0 := (BlockHeader.serialize_eq_ok hraw).1
  -- the metadata names the block
  have hmeta : (newMetadata (chainMetadata c) bi.header).blockHash = bi.header.hash := by
    rw [newMetadata, if_neg]
    rw [chainMetadata]
    split_ifs with h0
    · exact hp.symm
    · intro heq
      have hpos : 1 ≤ c.countBlocks := Nat.pos_of_ne_zero h0
      have hlink := hs.linked c.countBlocks hpos le_rfl
      have hlt : c.countBlocks - 1 < c.hashes.length := by rw [countBlocks]; have := hs.inv.length_pos; omega
      have hget := List.getElem?_eq_getElem hlt
      rw [(hs.inv.getBlockNumber_spec hget).2.1] at hlink
      refine hparent ((hs.inv.mem_iff _).2 ?_)
      rw [← heq]
      exact hlink ▸ List.getElem_mem hlt
  -- the parent of the block is not among the headers
  have hrecords : HoldsRecords db' ⟨c.blocks.insert bi.header.hash bi.header, c.hashes⟩ :=
    hs.holdsRecords.save hmod hsave hne rfl rfl rfl
  obtain ⟨blocks, hadd, hholds⟩ := hrecords.holdsStored (fun _ => Iff.rfl) c₀
  have hl : blocks.lookup bi.header.hash = some bi.header.persisted := by
    rw [hholds.others _ hne, Finmap.lookup_insert]
    rfl
  have hno : bi.header.prevHash ∉ blocks := by
    have hroot : bi.header.prevHash ≠ genesisHash := fun h => hparent (h ▸ hgen)
    rw [← Finmap.lookup_eq_none, hholds.others _ hroot, Finmap.lookup_insert_of_ne _ hself,
      Finmap.lookup_eq_none.2 hparent]
    rfl
  obtain ⟨c', hcalc, hhashes⟩ := calcBlockchain_no_parent hl hne0 rfl rfl hp hno
  refine ⟨c', ?_, hhashes⟩
  rw [loadBlockchain, metadata_save hmod hsave hs.metadata]
  simp only [buildBlockchain, hadd, hmeta, ne_eq, hne0, not_false_eq_true, if_true, hcalc]
  rfl

/-- **When a save leaves no gap**: a block that continues the chain in memory can be rebuilt exactly
    if the last block there was saved. -/
theorem NoGap.rebuilds_save_iff {modules : Modules} (hmod : modules.block = true) {s : SyncState}
    {c : BlockChain} (h : NoGap s c) {b : NewHeader} {bi : BlockInfo} {n : ℕ} {m : BlockChain}
    {db : LevelDb} (hbi : { bi.header with blockNumber := none } = b.1)
    (hadd : s.blockchain.addBlock b = (.ok n, m))
    (hsave : saveBlockToLeveldb modules s.leveldb bi = .ok db)
    (hlast : bi.header.prevHash = s.blockchain.getLastBlock.hash) (files : Files) :
    Rebuilds ⟨m, db, files⟩ ↔ InOrder s bi := by
  constructor
  swap
  · intro horder
    exact (h.save hmod hbi horder hadd hsave files).rebuilds
  intro hrebuilds
  have hc := h.stores.inv
  have hprev : bi.header.prevHash ∈ s.blockchain.hashes := by
    rw [hlast]
    exact List.mem_of_getElem? h.inv.getElem?_last
  by_cases hin : bi.header.prevHash ∈ c.blocks
  · -- the stored chain reaches the last block in memory
    have hhashes := hashes_eq_of_last h.inv h.hashes (hlast ▸ (hc.mem_iff _).1 hin)
    refine ⟨⟨_, h.stores.metadata, ?_⟩, hlast⟩
    rw [chainMetadata, chainMetadata, countBlocks, countBlocks, hhashes,
      last_hash_congr hc h.inv hhashes]
    split_ifs <;> rfl
  · obtain ⟨ha, he⟩ := addBlock_of_ok h.inv.numbered b.2 (congrArg Prod.fst hadd)
    rw [he] at hadd
    cases hadd
    have hhash : bi.header.hash = b.1.hash := by rw [← hbi]
    have hfresh : bi.header.hash ∉ s.blockchain.hashes := by
      rw [hhash, ← h.inv.mem_iff]
      exact ha.2.1
    obtain ⟨c', hload, hhashes⟩ := load_gap hmod h.stores hsave
      (fun hmem => hfresh (h.hashes.subset ((hc.mem_iff _).1 hmem)))
      (fun h0 => h.inv.hash_ne (h0 ▸ hprev)) hin (fun hself => hfresh (hself ▸ hprev)) new
    obtain ⟨c'', hload', hpre, -⟩ := hrebuilds new
    obtain rfl : c'' = c' := congrArg Prod.snd (hload'.symm.trans hload)
    rw [hhashes] at hpre
    have hone : (s.blockchain.hashes ++ [b.1.hash])[1]? = some bi.header.hash :=
      getElem?_of_beginning hpre rfl
    -- there is a block in memory, as the genesis block is stored
    have hlen : 1 < s.blockchain.hashes.length := by
      by_contra hle
      have h0 : s.blockchain.countBlocks = 0 := by rw [countBlocks]; omega
      refine hin ?_
      rw [hlast, (h.inv.genesis_of_empty h0).1]
      exact Finmap.mem_of_lookup_eq_some h.stores.genesis
    rw [List.getElem?_append_left hlen] at hone
    exact absurd (List.mem_of_getElem? hone) hfresh

/-! ## Two blocks -/

/-- A node that does not validate. -/
def notValidating : SyncConfig where
  modules := ⟨true, true, false, false⟩
  isValidate := false
  isSaveBlockToFiles := false

/-- A node without blocks. -/
def emptyNode : SyncState := ⟨new, ∅, fun _ => none⟩

theorem stores_emptyNode : Stores emptyNode.leveldb emptyNode.blockchain :=
  stores_new ⟨fun _ => Finmap.lookup_empty _, Finmap.lookup_empty _⟩

/-- A child of the first block. -/
def secondBlock : NewHeader :=
  ⟨{ hash := ascii ['b'], prevHash := firstBlock.1.hash, countTxs := some 0,
     filePos := { fileName := ascii ['f'] } }, rfl⟩

/-- A worker throws. -/
def workerThrows : PassEnv := { workers := some (.common "Ups") }

def deliverFirst (env : PassEnv) : LoopEvent := .process (.block ({ header := firstBlock.1 }, [])) env

def deliverSecond (env : PassEnv) : LoopEvent := .process (.block ({ header := secondBlock.1 }, [])) env

/-- The second block is not saved. -/
def secondFails : List LoopEvent := [.doProcess true, deliverFirst {}, deliverSecond workerThrows]

/-- The first block is not saved, and the second one is. -/
def firstFails : List LoopEvent :=
  [.doProcess true, deliverFirst workerThrows, .doProcess true, deliverSecond {}]

/-- If the second block is not saved, there is no gap. -/
theorem rebuilds_secondFails :
    ∃ l, Loop.run Sample.support notValidating { state := emptyNode } secondFails = some l ∧
      l.state.blockchain.hashes = [genesisHash, firstBlock.1.hash, secondBlock.1.hash] ∧
      Rebuilds l.state := by
  obtain ⟨l, hrun, hhashes⟩ := Option.map_eq_some_iff.1 (show (Loop.run Sample.support notValidating
    { state := emptyNode } secondFails).map (fun l => l.state.blockchain.hashes) =
      some [genesisHash, firstBlock.1.hash, secondBlock.1.hash] by decide +kernel)
  refine ⟨l, hrun, hhashes, rebuilds_of_inOrder rfl stores_emptyNode ?_ ?_ hrun⟩
  · intro next env h
    simp only [secondFails, deliverFirst, deliverSecond, List.mem_cons, reduceCtorEq,
      LoopEvent.process.injEq, SourceResult.block.injEq, List.not_mem_nil, or_false, false_or] at h
    rcases h with ⟨rfl, -⟩ | ⟨rfl, -⟩
    · rfl
    · rfl
  · rintro l env next bi ⟨before, after, heq, hl, -, hsaved⟩
    rcases before with _ | ⟨event, _ | ⟨event', _ | ⟨event'', before⟩⟩⟩
    · cases heq
    · -- the first block
      cases heq
      cases hl
      obtain ⟨bi', hbi', hprev⟩ := Option.map_eq_some_iff.1 (show (savedBlock Sample.support
        notValidating {} none ({ header := firstBlock.1 }, []) emptyNode).map
          (fun bi => bi.header.prevHash) = some genesisHash by decide +kernel)
      obtain rfl : bi' = bi := Option.some.inj (hbi'.symm.trans hsaved)
      exact ⟨⟨_, stores_emptyNode.metadata, rfl⟩, hprev⟩
    · -- the second one is not saved
      cases heq
      rw [savedBlock_workers rfl] at hsaved
      cases hsaved
    · simp [secondFails] at heq

/-- If only the second block is saved, the start-up code finds a chain that was never in memory. -/
theorem firstFails_gap :
    ¬ ∀ (S : Support) (cfg : SyncConfig) (s : SyncState) (events : List LoopEvent) (l : Loop),
      cfg.modules.block = true → Stores s.leveldb s.blockchain →
      (∀ next env, .process (.block next) env ∈ events → next.1.header.blockNumber = none) →
      Loop.run S cfg { state := s } events = some l → Rebuilds l.state := by
  intro h
  let bi : BlockInfo := { header := secondBlock.1 }
  have hend : (Loop.run Sample.support notValidating { state := emptyNode } firstFails).map
      (fun l => (l.state.blockchain.hashes, (Exec.ok l.state.leveldb : Exec Exn LevelDb))) =
        some ([genesisHash, firstBlock.1.hash, secondBlock.1.hash],
          saveBlockToLeveldb notValidating.modules ∅ bi) := by decide +kernel
  obtain ⟨l, hrun, heq⟩ := Option.map_eq_some_iff.1 hend
  rw [Prod.mk.injEq] at heq
  obtain ⟨hhashes, hsave⟩ := heq
  have hrebuilds := h Sample.support notValidating emptyNode firstFails l rfl stores_emptyNode ?_ hrun
  · obtain ⟨c, hload, hpre, -⟩ := hrebuilds new
    obtain ⟨c', hload', hfound⟩ := load_gap rfl stores_emptyNode hsave.symm (by decide +kernel)
      (by decide +kernel) (by decide +kernel) (by decide +kernel) new
    obtain rfl : c = c' := congrArg Prod.snd (hload.symm.trans hload')
    rw [hfound, hhashes] at hpre
    exact absurd hpre (by decide +kernel)
  · intro next env h
    simp only [firstFails, deliverFirst, deliverSecond, List.mem_cons, reduceCtorEq,
      LoopEvent.process.injEq, SourceResult.block.injEq, List.not_mem_nil, or_false, false_or] at h
    rcases h with ⟨rfl, -⟩ | ⟨rfl, -⟩
    · rfl
    · rfl

end SyncImpl

end TorrentNode
