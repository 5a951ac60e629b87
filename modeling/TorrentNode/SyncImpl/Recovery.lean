/-
  Crash recovery.

  `Stores db c`: the database holds the records of the chain `c`, whatever else
  it holds.  Saving the next block and writing any other key preserve the
  relation (`stores_save`, `stores_put`), and loading a database restores the
  chain it stores (`Stores.load`).  Hence `reload_restores`: a crash after any
  prefix of the writes loses nothing that was saved.
-/
import TorrentNode.SyncImpl
import TorrentNode.BlockChain.Rebuild

open Wire

namespace TorrentNode

namespace SyncImpl

open BlockChain LevelDb

/-! ## One save -/

/-- A key of the database that neither a header nor the metadata are stored under. -/
abbrev OtherKey := { key : Bytes // ¬ blockPrefix <+: key ∧ key ≠ keyBlockMetadata }

/-- The keys of block files are among them. -/
theorem filePrefix_other (name : Bytes) :
    ¬ blockPrefix <+: filePrefix ++ name ∧ filePrefix ++ name ≠ keyBlockMetadata := by
  constructor
  · rintro ⟨t, ht⟩
    exact absurd (List.cons.inj ht).1 (by decide)
  · intro h
    exact absurd (List.cons.inj h).1 (by decide)

/-- What a save that returns has written: the header, the metadata and one other key. -/
theorem saveBlockToLeveldb_eq_ok {modules : Modules} {db db' : LevelDb} {bi : BlockInfo}
    (hmod : modules.block = true) (hs : saveBlockToLeveldb modules db bi = .ok db') :
    ∃ raw metadata rawMetadata value, ∃ key : OtherKey,
      bi.header.serialize = .ok raw ∧
      BlocksMetadata.deserialize db.findBlockMetadata = .ok metadata ∧
      (newMetadata metadata bi.header).serialize = .ok rawMetadata ∧
      db' = ((db.insert (blockPrefix ++ bi.header.hash) raw).insert keyBlockMetadata
        rawMetadata).insert key.1 value := by
  simp only [saveBlockToLeveldb, hmod, if_true, Exec.bind_eq_ok] at hs
  obtain ⟨raw, hraw, batch, hbatch, metadata, hmeta, rawMetadata, hrawMeta, batch', hfile, hdb⟩ := hs
  rw [Batch.addBlockHeader, makeBlockKey] at hbatch
  simp only [Exec.bind_eq_ok] at hbatch
  obtain ⟨key, ⟨_, -, hkey⟩, hbatch⟩ := hbatch
  rw [Batch.addFileMetadata, makeFileKey] at hfile
  simp only [Exec.bind_eq_ok] at hfile
  obtain ⟨fkey, ⟨_, -, hfkey⟩, hfile⟩ := hfile
  cases hkey; cases hbatch; cases hfkey; cases hfile; cases hdb
  exact ⟨raw, metadata, rawMetadata, _, ⟨_, filePrefix_other _⟩, hraw, hmeta, hrawMeta, rfl⟩

/-- When a save returns: the records can be written and the block has a file. -/
theorem saveBlockToLeveldb_returns (modules : Modules) {db : LevelDb} (bi : BlockInfo)
    {raw rawMetadata : Bytes} {metadata : BlocksMetadata} (hraw : bi.header.serialize = .ok raw)
    (hmeta : BlocksMetadata.deserialize db.findBlockMetadata = .ok metadata)
    (hrawMeta : (newMetadata metadata bi.header).serialize = .ok rawMetadata)
    (hfile : getBasename bi.header.filePos.fileName ≠ []) :
    ∃ db', saveBlockToLeveldb modules db bi = .ok db' := by
  have hkey : makeBlockKey bi.header.hash = .ok (blockPrefix ++ bi.header.hash) := by
    rw [makeBlockKey, check_of (BlockHeader.serialize_eq_ok hraw).1]; rfl
  have hfkey : makeFileKey (CroppedFileName.ofName bi.header.filePos.fileName).name =
      .ok (filePrefix ++ getBasename bi.header.filePos.fileName) := by
    rw [makeFileKey, CroppedFileName.ofName, check_of hfile]; rfl
  rw [saveBlockToLeveldb]
  cases modules.block <;>
    simp [hraw, hmeta, hrawMeta, Batch.addBlockHeader, Batch.addFileMetadata, hkey, hfkey]

/-! ## The stored chain -/

/-- The metadata of a chain. -/
def chainMetadata (c : BlockChain) : BlocksMetadata :=
  if c.countBlocks = 0 then {}
  else { blockHash := c.getLastBlock.hash, prevBlockHash := c.getLastBlock.prevHash }

/-- The database holds the records of the linked chain `c`. -/
structure Stores (db : LevelDb) (c : BlockChain) : Prop where
  inv : c.Inv
  linked : c.Linked
  genesis : c.blocks.lookup genesisHash = some genesisHeader
  records : ∀ h raw, db.lookup (blockPrefix ++ h) = some raw ↔
    h ≠ genesisHash ∧ ∃ bh, c.blocks.lookup h = some bh ∧ bh.serialize = .ok raw
  metadata : BlocksMetadata.deserialize db.findBlockMetadata = .ok (chainMetadata c)
  saved : ∀ h bh, h ≠ genesisHash → c.blocks.lookup h = some bh → ∃ raw, bh.serialize = .ok raw

/-- The database holds the headers of `c`, the genesis block aside, and no others. -/
structure HoldsRecords (db : LevelDb) (c : BlockChain) : Prop where
  keys : ∀ {h bh}, c.blocks.lookup h = some bh → bh.hash = h
  records : ∀ h raw, db.lookup (blockPrefix ++ h) = some raw ↔
    h ≠ genesisHash ∧ ∃ bh, c.blocks.lookup h = some bh ∧ bh.serialize = .ok raw
  saved : ∀ h bh, h ≠ genesisHash → c.blocks.lookup h = some bh → ∃ raw, bh.serialize = .ok raw

theorem Stores.holdsRecords {db : LevelDb} {c : BlockChain} (hs : Stores db c) : HoldsRecords db c :=
  ⟨hs.inv.hash_of_lookup, hs.records, hs.saved⟩

/-- The database holds no block. -/
structure NoBlocks (db : LevelDb) : Prop where
  records : ∀ h, db.lookup (blockPrefix ++ h) = none
  metadata : db.lookup keyBlockMetadata = none

theorem stores_new {db : LevelDb} (hdb : NoBlocks db) : Stores db new where
  inv := inv_new
  linked := linked_new
  genesis := Finmap.lookup_insert _
  records h raw := by
    rw [hdb.records h]
    constructor
    · intro h0; cases h0
    · rintro ⟨hne, bh, hl, -⟩
      have := Finmap.mem_of_lookup_eq_some hl
      rw [(inv_new.genesis_of_empty rfl).2] at this
      exact absurd this hne
  metadata := by
    rw [findBlockMetadata, findOneValueWithoutCheck, hdb.metadata]; rfl
  saved h bh hne hl := by
    have := Finmap.mem_of_lookup_eq_some hl
    rw [(inv_new.genesis_of_empty rfl).2] at this
    exact absurd this hne

theorem keyBlockMetadata_ne (h : Bytes) : blockPrefix ++ h ≠ keyBlockMetadata := fun heq =>
  absurd (List.cons.inj heq).1 (by decide)

/-- Writing any other key keeps the stored chain. -/
theorem stores_put {db : LevelDb} {c : BlockChain} (hs : Stores db c) (key : OtherKey)
    (value : Bytes) : Stores (db.insert key.1 value) c := by
  obtain ⟨key, hrec, hmeta⟩ := key
  refine { hs with records := ?_, metadata := ?_ }
  · intro h raw
    have hne : blockPrefix ++ h ≠ key := fun heq => hrec ⟨h, heq⟩
    rw [Finmap.lookup_insert_of_ne _ hne]; exact hs.records h raw
  · rw [findBlockMetadata, findOneValueWithoutCheck, Finmap.lookup_insert_of_ne _ hmeta.symm]
    exact hs.metadata

/-- A block that extends the last block does not meet the tie-break of the metadata. -/
theorem newMetadata_extends {c : BlockChain} (hc : c.Inv) (hl : c.Linked) {b : BlockHeader}
    (hp : b.prevHash = c.getLastBlock.hash) :
    newMetadata (chainMetadata c) b = { blockHash := b.hash, prevBlockHash := b.prevHash } := by
  have hne : (chainMetadata c).prevBlockHash ≠ b.prevHash := by
    rw [hp, chainMetadata]
    by_cases h0 : c.countBlocks = 0
    · rw [if_pos h0]
      show ([] : Bytes) ≠ c.getLastBlock.hash
      intro h
      exact hc.hash_ne (h ▸ List.mem_of_getElem? hc.getElem?_last)
    · rw [if_neg h0]
      -- the parent of the last block is another block
      have hlen : c.countBlocks < c.hashes.length := by have := hc.length_pos; rw [countBlocks]; omega
      have hprev := List.getElem?_eq_getElem (show c.countBlocks - 1 < c.hashes.length by omega)
      have hlast := hc.getElem?_last
      have hlinked := hl c.countBlocks (by omega) le_rfl
      rw [(hc.getBlockNumber_spec hprev).2.1] at hlinked
      show c.getLastBlock.prevHash ≠ c.getLastBlock.hash
      intro heq
      have h1 : c.hashes[c.countBlocks - 1] = c.getLastBlock.hash := by rw [← heq]; exact hlinked.symm
      obtain ⟨hlt, h2⟩ := List.getElem?_eq_some_iff.1 hlast
      have := hc.nodup.getElem_inj_iff.1 (h1.trans h2.symm)
      rw [countBlocks] at this h0; omega
  rw [newMetadata, if_neg hne]

/-- A save adds the record of a new header. -/
theorem HoldsRecords.save {modules : Modules} {db db' : LevelDb} {c c' : BlockChain} {bi : BlockInfo}
    {bh : BlockHeader} (hmod : modules.block = true) (hs : HoldsRecords db c)
    (hsave : saveBlockToLeveldb modules db bi = .ok db') (hgen : bi.header.hash ≠ genesisHash)
    (hc' : c'.blocks = c.blocks.insert bi.header.hash bh) (hhash : bh.hash = bi.header.hash)
    (hser : bh.serialize = bi.header.serialize) : HoldsRecords db' c' := by
  obtain ⟨raw, metadata, rawMetadata, value, key, hraw, -, -, rfl⟩ := saveBlockToLeveldb_eq_ok hmod hsave
  rw [hraw] at hser
  have hnew : c'.blocks.lookup bi.header.hash = some bh := by rw [hc', Finmap.lookup_insert]
  have hold : ∀ h, h ≠ bi.header.hash → c'.blocks.lookup h = c.blocks.lookup h := by
    intro h hne
    rw [hc', Finmap.lookup_insert_of_ne _ hne]
  refine ⟨?_, ?_, ?_⟩
  · intro h bh' hl
    by_cases hh : h = bi.header.hash
    · rw [hh, hnew, Option.some.injEq] at hl
      rw [← hl, hh, hhash]
    · exact hs.keys (hold h hh ▸ hl)
  · intro h raw'
    have hother : blockPrefix ++ h ≠ key.1 := fun heq => key.2.1 ⟨h, heq⟩
    rw [Finmap.lookup_insert_of_ne _ hother, Finmap.lookup_insert_of_ne _ (keyBlockMetadata_ne h)]
    by_cases hh : h = bi.header.hash
    · rw [hh, Finmap.lookup_insert, Option.some.injEq, hnew]
      constructor
      · rintro rfl
        exact ⟨hgen, bh, rfl, hser⟩
      · rintro ⟨-, bh', hl, hbh'⟩
        rw [← Option.some.inj hl, hser] at hbh'
        exact Exec.ok.inj hbh'
    · have hne : blockPrefix ++ h ≠ blockPrefix ++ bi.header.hash := fun heq =>
        hh (List.append_cancel_left heq)
      rw [Finmap.lookup_insert_of_ne _ hne, hold h hh]
      exact hs.records h raw'
  · intro h bh' hne hl
    by_cases hh : h = bi.header.hash
    · rw [hh, hnew, Option.some.injEq] at hl
      exact ⟨raw, hl ▸ hser⟩
    · exact hs.saved h bh' hne (hold h hh ▸ hl)

/-- The metadata that a save leaves. -/
theorem metadata_save {modules : Modules} {db db' : LevelDb} {bi : BlockInfo}
    (hmod : modules.block = true) (hsave : saveBlockToLeveldb modules db bi = .ok db')
    {metadata : BlocksMetadata} (hmeta : BlocksMetadata.deserialize db.findBlockMetadata = .ok metadata) :
    BlocksMetadata.deserialize db'.findBlockMetadata = .ok (newMetadata metadata bi.header) := by
  obtain ⟨raw, metadata', rawMetadata, value, key, -, hmeta', hrawMeta, rfl⟩ :=
    saveBlockToLeveldb_eq_ok hmod hsave
  obtain rfl : metadata' = metadata := Exec.ok.inj (hmeta'.symm.trans hmeta)
  rw [findBlockMetadata, findOneValueWithoutCheck, Finmap.lookup_insert_of_ne _ key.2.2.symm,
    Finmap.lookup_insert, Option.getD_some, BlocksMetadata.deserialize_serialize hrawMeta]

/-- **Saving the next block** stores the longer chain. -/
theorem stores_save {modules : Modules} {db db' : LevelDb} {c : BlockChain} {b : NewHeader} {n : ℕ}
    {bi : BlockInfo} (hmod : modules.block = true) (hs : Stores db c)
    (hbi : { bi.header with blockNumber := none } = b.1) (hp : b.1.prevHash = c.getLastBlock.hash)
    (hadd : (c.addBlock b).1 = .ok n) (hsave : saveBlockToLeveldb modules db bi = .ok db') :
    Stores db' (c.addBlock b).2 := by
  have hc := hs.inv
  have hrooted : c.RootedCall b := fun h0 _ _ _ => hp.trans (hc.genesis_of_empty h0).1
  have hlinked := hc.linked_addBlock b.2 hs.linked hrooted
  obtain ⟨ha, he⟩ := addBlock_of_ok hc.numbered b.2 hadd
  rw [he] at hlinked ⊢
  have hhash : bi.header.hash = b.1.hash := by rw [← hbi]
  have hgen : b.1.hash ≠ genesisHash := fun h =>
    ha.2.1 (h ▸ Finmap.mem_of_lookup_eq_some hs.genesis)
  have hrecords : HoldsRecords db' (c.append b) := by
    have hblocks : (c.append b).blocks = c.blocks.insert bi.header.hash
        { b.1 with blockNumber := some c.hashes.length } := by rw [hhash]; rfl
    refine hs.holdsRecords.save hmod hsave (hhash ▸ hgen) hblocks hhash.symm ?_
    rw [← hbi]
    rfl
  refine ⟨inv_append hc ha, hlinked, ?_, hrecords.records, ?_, hrecords.saved⟩
  · rw [append, Finmap.lookup_insert_of_ne _ hgen.symm]
    exact hs.genesis
  · have hnewMeta : newMetadata (chainMetadata c) bi.header = newMetadata (chainMetadata c) b.1 := by
      rw [← hbi]; rfl
    rw [metadata_save hmod hsave hs.metadata, hnewMeta, newMetadata_extends hc hs.linked hp,
      chainMetadata, if_neg, hc.getLastBlock_append ha]
    have := hc.length_pos
    simp only [countBlocks, append, List.length_append, List.length_singleton]; omega

/-! ## Loading -/

/-- `blocks` holds nothing but the genesis block and stored headers of `c`. -/
def PartOf (blocks : Blocks) (c : BlockChain) : Prop :=
  blocks.lookup genesisHash = some genesisHeader ∧ ∀ h bh, h ≠ genesisHash →
    blocks.lookup h = some bh → ∃ bh', c.blocks.lookup h = some bh' ∧ bh = bh'.persisted

/-- The raw headers `raws` are records of `c`. -/
def RecordsOf (raws : List Bytes) (c : BlockChain) : Prop :=
  ∀ raw ∈ raws, ∃ h bh, h ≠ genesisHash ∧ c.blocks.lookup h = some bh ∧ bh.serialize = .ok raw

/-- A stored header of `c` is added, or it is there already. -/
theorem addWithoutCalc_persisted {c d : BlockChain} (hd : PartOf d.blocks c) {h : Bytes}
    {bh : BlockHeader} (hne : h ≠ genesisHash) (hl : c.blocks.lookup h = some bh)
    (hhash : bh.hash = h) (hne0 : h ≠ []) :
    ∃ known d', d.addWithoutCalc bh.persisted = (.ok known, d') ∧ PartOf d'.blocks c ∧
      (∀ k ∈ d.blocks, k ∈ d'.blocks) ∧ h ∈ d'.blocks ∧ d'.hashes = d.hashes := by
  have hbh : bh.persisted.hash = h := hhash
  by_cases hmem : h ∈ d.blocks
  · exact ⟨true, d, by rw [addWithoutCalc, hbh, if_neg hne0, if_pos hmem], hd, fun k hk => hk, hmem,
      rfl⟩
  · refine ⟨false, { d with blocks := d.blocks.insert h bh.persisted },
      by rw [addWithoutCalc, hbh, if_neg hne0, if_neg hmem], ?_, ?_, ?_, rfl⟩
    · refine ⟨by rw [Finmap.lookup_insert_of_ne _ hne.symm]; exact hd.1, ?_⟩
      intro k bh' hk hlk
      by_cases hkh : k = h
      · rw [hkh, Finmap.lookup_insert, Option.some.injEq] at hlk
        exact ⟨bh, hkh ▸ hl, hlk.symm⟩
      · rw [Finmap.lookup_insert_of_ne _ hkh] at hlk
        exact hd.2 k bh' hk hlk
    · intro k hk; exact Finmap.mem_insert.2 (Or.inr hk)
    · exact Finmap.mem_insert.2 (Or.inl rfl)

/-- Adding records of `c`, in any order. -/
theorem addBlocksRaw_spec {c : BlockChain}
    (hkeys : ∀ {h bh}, c.blocks.lookup h = some bh → bh.hash = h) {raws : List Bytes}
    (hraws : RecordsOf raws c) : ∀ {d : BlockChain}, PartOf d.blocks c →
      ∃ blocks, addBlocksRaw raws d = (.ok (), ⟨blocks, d.hashes⟩) ∧ PartOf blocks c ∧
        (∀ h ∈ d.blocks, h ∈ blocks) ∧ ∀ raw ∈ raws, ∀ h bh, c.blocks.lookup h = some bh →
          bh.serialize = .ok raw → h ∈ blocks := by
  induction raws with
  | nil =>
    intro d hd
    exact ⟨d.blocks, rfl, hd, fun h hh => hh, fun raw hr => absurd hr List.not_mem_nil⟩
  | cons raw raws ih =>
    intro d hd
    obtain ⟨h, bh, hne, hl, hser⟩ := hraws raw List.mem_cons_self
    have hdec := BlockHeader.deserialize_serialize hser
    have hhash := hkeys hl
    have hne0 : h ≠ [] := hhash ▸ (BlockHeader.serialize_eq_ok hser).1
    obtain ⟨known, d', hadd, hd', hsub, hin, hhashes⟩ :=
      addWithoutCalc_persisted hd hne hl hhash hne0
    obtain ⟨blocks, hrun, hpart, hmono, hall⟩ :=
      ih (fun r hr => hraws r (List.mem_cons_of_mem _ hr)) hd'
    refine ⟨blocks, ?_, hpart, fun k hk => hmono k (hsub k hk), ?_⟩
    · rw [addBlocksRaw, hdec]
      simp only [hadd, hrun, hhashes]
    · intro r hr k bhk hlk hserk
      rcases List.mem_cons.1 hr with rfl | hr
      · have hrec := BlockHeader.deserialize_serialize hserk
        have heq : bhk.persisted = bh.persisted := Exec.ok.inj (hrec.symm.trans hdec)
        have hk : bhk.persisted.hash = h := by rw [heq]; exact hhash
        rw [← hkeys hlk, show bhk.hash = h from hk]; exact hmono h hin
      · exact hall r hr k bhk hlk hserk

/-- The scan of a database yields the records of the headers, and all of them. -/
theorem HoldsRecords.holdsStored {db : LevelDb} {c : BlockChain} (hs : HoldsRecords db c)
    {raws : List Bytes} (hraws : ∀ raw, raw ∈ raws ↔ raw ∈ db.getAllBlocks) (c₀ : BlockChain) :
    ∃ blocks, addBlocksRaw raws c₀.clear = (.ok (), ⟨blocks, [genesisHash]⟩) ∧
      HoldsStored blocks c := by
  have hrecords : RecordsOf raws c := by
    intro raw hr
    obtain ⟨h, hl⟩ := mem_getAllBlocks.1 ((hraws raw).1 hr)
    obtain ⟨hne, bh, hbh, hser⟩ := (hs.records h raw).1 hl
    exact ⟨h, bh, hne, hbh, hser⟩
  have hstart : PartOf c₀.clear.blocks c := by
    refine ⟨Finmap.lookup_insert _, ?_⟩
    intro h bh hne hl
    have := Finmap.mem_of_lookup_eq_some hl
    exact absurd ((inv_new.genesis_of_empty rfl).2 h |>.1 this) hne
  obtain ⟨blocks, hrun, hpart, -, hall⟩ := addBlocksRaw_spec hs.keys hrecords hstart
  refine ⟨blocks, hrun, hpart.1, ?_⟩
  intro h hne
  rcases hl : c.blocks.lookup h with _ | bh
  · rcases hb : blocks.lookup h with _ | bh'
    · rfl
    · obtain ⟨bh'', hl'', -⟩ := hpart.2 h bh' hne hb
      rw [hl] at hl''; cases hl''
  · obtain ⟨raw, hser⟩ := hs.saved h bh hne hl
    have hraw : raw ∈ raws :=
      (hraws raw).2 (mem_getAllBlocks.2 ⟨h, (hs.records h raw).2 ⟨hne, bh, hl, hser⟩⟩)
    obtain ⟨bh', hb⟩ := Finmap.mem_iff.1 (hall raw hraw h bh hl hser)
    obtain ⟨bh'', hl'', rfl⟩ := hpart.2 h bh' hne hb
    rw [hb, Option.map_some, Option.some.inj (hl.symm.trans hl'')]

/-- **Loading a database** restores the chain it stores, in whatever order the headers come. -/
theorem Stores.load {db : LevelDb} {c : BlockChain} (hs : Stores db c) {raws : List Bytes}
    (hraws : ∀ raw, raw ∈ raws ↔ raw ∈ db.getAllBlocks) (c₀ : BlockChain) :
    ∃ c', buildBlockchain (chainMetadata c) raws c₀ = (.ok (), c') ∧ c'.Restores c := by
  have hc := hs.inv
  obtain ⟨blocks, hrun, hholds⟩ := hs.holdsRecords.holdsStored hraws c₀
  rw [buildBlockchain, hrun, chainMetadata]
  by_cases h0 : c.countBlocks = 0
  · -- nothing is stored, and nothing is to be numbered
    rw [if_pos h0]
    refine ⟨⟨blocks, [genesisHash]⟩, rfl, ?_, ?_⟩
    · have hlen : c.hashes.tail.length = 0 := by rw [List.length_tail]; exact h0
      rw [hc.hashes_eq, List.eq_nil_of_length_eq_zero hlen]
    · intro h
      exact hholds.lookup_unlisted hs.genesis fun hne hm => hne (((hc.genesis_of_empty h0).2 h).1 hm)
  · rw [if_neg h0]
    obtain ⟨c', hcalc, hrest⟩ :=
      hc.calcBlockchain_unnumbered hs.linked hs.genesis hholds (Nat.pos_of_ne_zero h0)
    have hne : c.getLastBlock.hash ≠ [] := fun h =>
      hc.hash_ne (h ▸ List.mem_of_getElem? hc.getElem?_last)
    refine ⟨c', ?_, hrest⟩
    simp only [ne_eq, hne, not_false_eq_true, if_true, hcalc]
    rfl

/-! ## Histories -/

/-- A write to the database: a block that is saved, or any other key. -/
inductive DbWrite where
  | save (bi : BlockInfo)
  | put (key : OtherKey) (value : Bytes)

/-- The database after writes that all return. -/
def runWrites (modules : Modules) : LevelDb → List DbWrite → Exec Exn LevelDb
  | db, [] => .ok db
  | db, .save bi :: ws => do
    let db ← saveBlockToLeveldb modules db bi
    runWrites modules db ws
  | db, .put key value :: ws => runWrites modules (db.saveValue key.1 value) ws

/-- The headers that are saved, numbers aside. -/
def savedHeaders : List DbWrite → List BlockHeader
  | [] => []
  | .save bi :: ws => { bi.header with blockNumber := none } :: savedHeaders ws
  | .put _ _ :: ws => savedHeaders ws

/-- Each block names the one before it as its parent, the first one `parent`. -/
def LinkedFrom : Bytes → List NewHeader → Prop
  | _, [] => True
  | parent, b :: bs => b.1.prevHash = parent ∧ LinkedFrom b.1.hash bs

/-- The call returns a block number. -/
def Accepted (c : BlockChain) (b : BlockHeader) : Prop := ∃ n, n ≠ 0 ∧ (c.addBlock b).1 = .ok n

theorem linkedFrom_take {parent : Bytes} {bs : List NewHeader} (h : LinkedFrom parent bs) (k : ℕ) :
    LinkedFrom parent (bs.take k) := by
  induction bs generalizing parent k with
  | nil => rw [List.take_nil]; trivial
  | cons b bs ih =>
    cases k with
    | zero => trivial
    | succ k => exact ⟨h.1, ih h.2 k⟩

theorem along_take {P : BlockChain → BlockHeader → Prop} {c : BlockChain} {bs : List NewHeader}
    (h : Along P c bs) (k : ℕ) : Along P c (bs.take k) := by
  induction bs generalizing c k with
  | nil => rw [List.take_nil]; trivial
  | cons b bs ih =>
    cases k with
    | zero => trivial
    | succ k => exact ⟨h.1, ih h.2 k⟩

/-- A history of writes stores the chain of the blocks that were saved. -/
theorem stores_run {modules : Modules} (hmod : modules.block = true) {ws : List DbWrite} :
    ∀ {db db' : LevelDb} {c : BlockChain} {bs : List NewHeader}, Stores db c →
      LinkedFrom c.getLastBlock.hash bs → Along Accepted c bs →
      savedHeaders ws = bs.map Subtype.val → runWrites modules db ws = .ok db' →
      Stores db' (run c bs) := by
  induction ws with
  | nil =>
    intro db db' c bs hs _ _ hsaved hrun
    obtain rfl : bs = [] := List.map_eq_nil_iff.1 hsaved.symm
    obtain rfl : db = db' := Exec.ok.inj hrun
    exact hs
  | cons w ws ih =>
    intro db db' c bs hs hlink hacc hsaved hrun
    cases w with
    | put key value => exact ih (stores_put hs key value) hlink hacc hsaved hrun
    | save bi =>
      cases bs with
      | nil => cases hsaved
      | cons b bs =>
        obtain ⟨hbi, hsaved⟩ := List.cons.inj hsaved
        obtain ⟨db₁, hsave, hrun⟩ := Exec.bind_eq_ok.1 hrun
        obtain ⟨n, -, hn⟩ := hacc.1
        have hs' := stores_save hmod hs hbi hlink.1 hn hsave
        show Stores db' (run (c.addBlock b).2 bs)
        refine ih hs' ?_ hacc.2 hsaved hrun
        obtain ⟨ha, he⟩ := addBlock_of_ok hs.inv.numbered b.2 hn
        rw [he, hs.inv.getLastBlock_append ha]
        exact hlink.2

/-- **Crash recovery.**  Let linked blocks be accepted one after another, and let the first `k` of
    them be saved, with any other writes in between.  Loading the database gives the chain that
    the first `k` calls built in memory, in whatever order the headers are added. -/
theorem reload_restores {modules : Modules} (hmod : modules.block = true) {bs : List NewHeader}
    (hlinked : LinkedFrom genesisHash bs) (haccepted : Along Accepted new bs) (k : ℕ)
    {db₀ db : LevelDb} (hdb₀ : NoBlocks db₀) {ws : List DbWrite}
    (hsaved : savedHeaders ws = (bs.take k).map Subtype.val)
    (hrun : runWrites modules db₀ ws = .ok db) (c₀ : BlockChain) :
    ∃ c', c'.Restores (run new (bs.take k)) ∧ loadBlockchain db c₀ = (.ok (), c') ∧
      ∀ metadata, BlocksMetadata.deserialize db.findBlockMetadata = .ok metadata →
        ∀ raws, raws.Perm db.getAllBlocks →
          buildBlockchain metadata raws c₀ = (.ok (), c') := by
  have hlast : new.getLastBlock.hash = genesisHash := (inv_new.genesis_of_empty rfl).1
  have hs : Stores db (run new (bs.take k)) :=
    stores_run hmod (stores_new hdb₀) (hlast ▸ linkedFrom_take hlinked k)
      (along_take haccepted k) hsaved hrun
  obtain ⟨c', hbuild, hc'⟩ := hs.load (fun _ => Iff.rfl) c₀
  refine ⟨c', hc', ?_, ?_⟩
  · rw [loadBlockchain, hs.metadata]; exact hbuild
  · intro metadata hmeta raws hperm
    obtain rfl : metadata = chainMetadata (run new (bs.take k)) :=
      Exec.ok.inj (hmeta.symm.trans hs.metadata)
    obtain ⟨c'', hbuild', hc''⟩ := hs.load (fun raw => hperm.mem_iff) c₀
    rw [hbuild', hc''.eq hc']

/-- A child of the genesis block. -/
def firstBlock : NewHeader :=
  ⟨{ hash := ascii ['a'], prevHash := genesisHash, countTxs := some 0,
     filePos := { fileName := ascii ['f'] } }, rfl⟩

/-- The first block, saved between two other writes. -/
def firstWrites : List DbWrite :=
  [.put ⟨versionDb, by decide⟩ (ascii ['v']), .save { header := firstBlock.1 },
   .put ⟨mainBlockNumberPrefix, by decide⟩ (ascii ['1'])]

theorem reload_firstBlock : ∃ db c',
    runWrites ⟨true, true, false, false⟩ ∅ firstWrites = .ok db ∧
    loadBlockchain db new = (.ok (), c') ∧ c'.Restores (run new [firstBlock]) := by
  have hempty : NoBlocks ∅ := ⟨fun _ => Finmap.lookup_empty _, Finmap.lookup_empty _⟩
  have hdb := stores_put (stores_new hempty) ⟨versionDb, by decide⟩ (ascii ['v'])
  have hmeta : (newMetadata (chainMetadata new) firstBlock.1).serialize =
      .ok (serializeStringBigEndian (ascii ['a']) ++
        (serializeStringBigEndian genesisHash ++ serializeIntBigEndian 8 0)) := by
    decide +kernel
  obtain ⟨db, hsave⟩ := saveBlockToLeveldb_returns ⟨true, true, false, false⟩ { header := firstBlock.1 }
    (show firstBlock.1.serialize = .ok (firstBlock.1.record 0) by decide +kernel) hdb.metadata hmeta
    (by decide +kernel)
  have hrun : runWrites ⟨true, true, false, false⟩ ∅ firstWrites =
      .ok (db.saveValue mainBlockNumberPrefix (ascii ['1'])) := by
    simp only [firstWrites, runWrites, saveValue, hsave, Exec.ok_bind]
  have hlinked : LinkedFrom genesisHash [firstBlock] := ⟨rfl, trivial⟩
  obtain ⟨c', hc', hload, -⟩ := reload_restores rfl hlinked
    ⟨⟨1, one_ne_zero, by decide +kernel⟩, trivial⟩ 1 hempty rfl hrun new
  exact ⟨_, c', hrun, hload, hc'⟩

end SyncImpl

end TorrentNode
