/-
  The positions in block files that are saved with a block.

  `saveBlockToLeveldb` records, for the file of the block, the position `endBlockPos`
  that the parser has set.  A block that was read from its file was parsed at the
  place it has there.  A block from the network is parsed at position 0; its place is
  set when it is appended to its file, and `endBlockPos` stays as it is.

  `filePosition_iff`: in every run, with either source, the position that is saved is
  the end of the record exactly if the block was read from its file, or is the first
  one in it.
-/
import TorrentNode.BlockSource.Delivery
import TorrentNode.BlockSource.FileBlockSource
import TorrentNode.SyncImpl.Rejected

open Wire Exec

namespace TorrentNode

namespace SyncImpl

/-! ## Sources -/

/-- A block that `FileBlockSource` delivers. -/
def FromFiles (E : SourceEnv) (got : GotBlock) : Prop :=
  ∃ folder s opens, (FileBlockSource.process E.memory E.libs folder s opens).1 = .ok (some got)

/-- A block that `NetworkBlockSource` delivers, in any run. -/
def FromNetwork (E : SourceEnv) (got : GotBlock) : Prop :=
  ∃ s₀ run s calls s', s₀.advancedBlocks = [] ∧
    Machine.runs (NetworkBlockSource.step E) s₀ run = some s ∧
    NetworkBlockSource.process E s calls = (.ok (some got), s')

/-- A block that the source of the node delivers: a node that saves blocks to files loads them from the
    network. -/
def FromSource (E : SourceEnv) (cfg : SyncConfig) (got : GotBlock) : Prop :=
  if cfg.isSaveBlockToFiles then FromNetwork E got else FromFiles E got

/-- A block that was read from its file ends behind its record. -/
theorem FromFiles.endBlockPos {E : SourceEnv} {got : GotBlock} (h : FromFiles E got) :
    got.1.header.endBlockPos.toNat =
      got.1.header.filePos.pos.toNat + 8 + got.1.header.blockSize.toNat := by
  obtain ⟨folder, s, opens, h⟩ := h
  rw [FileBlockSource.process] at h
  split at h
  · next s hopen =>
    rw [FileBlockSource.readNext] at h
    split at h
    · next next bi dump hread =>
      split_ifs at h with hne
      · cases h
      · obtain rfl : (FileBlockSource.nameBlock s.fileName bi, dump) = got :=
          Option.some.inj (Exec.ok.inj h)
        rw [FileBlockSource.readBlock] at hread
        split at hread
        · next path _ =>
          have hrec := readNextBlockInfoFile_moved (folder.size_lt (lastName path)) hread hne
          show bi.header.endBlockPos.toNat = bi.header.filePos.pos.toNat + 8 + bi.header.blockSize.toNat
          rw [hrec.endBlockPos, hrec.next_eq, hrec.filePos, hrec.blockSize]
        · rw [FileBlockSource.readClosedFile] at hread
          split_ifs at hread
          cases hread
          exact absurd rfl hne
    · next r hno =>
      obtain ⟨⟨next, bi, dump⟩, hr, -⟩ := bind_eq_ok.1 h
      exact absurd hr (hno next bi dump)
  · next r s _ hopen =>
    obtain ⟨isOpen, -, hr⟩ := bind_eq_ok.1 h
    cases hr

/-- A block from the network ends behind its record if the record begins the file. -/
theorem FromNetwork.endBlockPos {E : SourceEnv} {got : GotBlock} (h : FromNetwork E got) :
    got.1.header.endBlockPos.toNat = 8 + got.1.header.blockSize.toNat := by
  obtain ⟨s₀, run, s, calls, s', hstart, hrun, h⟩ := h
  obtain ⟨a, ⟨g, p2p, header, dump, -, hparse⟩, rfl⟩ :=
    NetworkBlockSource.process_yields hstart hrun h
  obtain ⟨signBlock, -, hparse⟩ := bind_eq_ok.1 hparse
  obtain ⟨_, -, hparse⟩ := bind_eq_ok.1 hparse
  obtain ⟨buf, -, hparse⟩ := bind_eq_ok.1 hparse
  obtain ⟨bi, hread, hparse⟩ := bind_eq_ok.1 hparse
  cases hparse
  obtain ⟨header', -, hread⟩ := bind_eq_ok.1 hread
  obtain ⟨bi', -, hread⟩ := bind_eq_ok.1 hread
  cases hread
  have hlen := buf.inUserSpace
  have hsize : (UInt64.ofNat buf.bytes.length).toNat = buf.bytes.length :=
    UInt64.toNat_ofNat_of_lt' (by show buf.bytes.length < 2 ^ 64; omega)
  show (0 + UInt64.ofNat buf.bytes.length + 8 : UInt64).toNat = 8 + (UInt64.ofNat buf.bytes.length).toNat
  rw [UInt64.zero_add, UInt64.toNat_add, hsize]
  show (buf.bytes.length + 8) % 2 ^ 64 = _
  omega

/-! ## What is saved -/

section
variable (S : Support) (cfg : SyncConfig)

/-- The block that a pass of the loop saves to the database. -/
def savedBlock (env : PassEnv) (prev : Option GotBlock) (next : GotBlock) (s : SyncState) :
    Option BlockInfo :=
  match selectBlock S cfg prev next with
  | .ok (some got) =>
    match appendBlock cfg env.users got s with
    | (.ok bi, s) =>
      match finishBlock cfg env bi s with
      | (.ok (), _) => some bi
      | _ => none
    | _ => none
  | _ => none

/-- In a run, the loop stands at `l` when the block `next` is delivered, and the pass saves `bi`. -/
def Saves (l₀ : Loop) (events : List LoopEvent) (l : Loop) (env : PassEnv) (next : GotBlock)
    (bi : BlockInfo) : Prop :=
  ∃ before after, events = before ++ .process (.block next) env :: after ∧
    Loop.run S cfg l₀ before = some l ∧ l.isContinue = true ∧
    savedBlock S cfg env l.prev next l.state = some bi

/-- The position that is saved for the file of a block is the end of the record of the block. -/
def EndsRecord (leveldb : LevelDb) (bi : BlockInfo) : Prop :=
  ∃ fi : FileInfo, leveldb.lookup (filePrefix ++ getBasename bi.header.filePos.fileName) =
      some fi.serialize ∧
    fi.filePos.fileName = bi.header.filePos.fileName ∧
    fi.filePos.pos.toNat = bi.header.filePos.pos.toNat + 8 + bi.header.blockSize.toNat

end

/-- What is added last to a batch is found in the database. -/
theorem lookup_addFileMetadata {batch batch' : Batch} {fileName : CroppedFileName} {value : Bytes}
    (h : batch.addFileMetadata fileName value = .ok batch') (db : LevelDb) :
    (addBatch batch' db).lookup (filePrefix ++ fileName.name) = some value := by
  rw [Batch.addFileMetadata, makeFileKey] at h
  simp only [bind_eq_ok] at h
  obtain ⟨key, ⟨_, -, hkey⟩, h⟩ := h
  cases hkey
  cases h
  rw [addBatch, Batch.addKey, List.foldl_append]
  exact Finmap.lookup_insert _

/-- The state of the file that a save writes. -/
theorem saveBlockToLeveldb_file {modules : Modules} {db db' : LevelDb} {bi : BlockInfo}
    (h : saveBlockToLeveldb modules db bi = .ok db') :
    db'.lookup (filePrefix ++ getBasename bi.header.filePos.fileName) =
      some (FileInfo.serialize { filePos := {
        fileName := bi.header.filePos.fileName, pos := bi.header.endBlockPos } }) := by
  rw [saveBlockToLeveldb] at h
  split_ifs at h
  · simp only [bind_eq_ok] at h
    obtain ⟨raw, -, batch, -, metadata, -, value, -, batch', hfile, h⟩ := h
    cases h
    exact lookup_addFileMetadata hfile db
  · simp only [pure_eq_ok, ok_bind, bind_eq_ok] at h
    obtain ⟨metadata, -, value, -, batch', hfile, h⟩ := h
    cases h
    exact lookup_addFileMetadata hfile db

theorem fileInfo_serialize_injective : Function.Injective FileInfo.serialize := by
  rintro ⟨⟨pos, fileName⟩⟩ ⟨⟨pos', fileName'⟩⟩ h
  obtain ⟨hname, hpos⟩ := List.append_inj' h (by simp)
  obtain ⟨-, hname⟩ := List.append_inj hname (by simp)
  have hnat := congrArg beNat hpos
  rw [serializeIntBigEndian_eq, serializeIntBigEndian_eq, beNat_beBytes (UInt64.toNat_lt _),
    beNat_beBytes (UInt64.toNat_lt _)] at hnat
  dsimp only at hname hnat
  rw [hname, UInt64.toNat_inj.1 hnat]

section
variable {S : Support} {cfg : SyncConfig}

/-- A pass that ends without an exception has saved its block. -/
theorem finishBlock_saves {env : PassEnv} {bi : BlockInfo} {s s' : SyncState}
    (h : finishBlock cfg env bi s = (.ok (), s')) :
    saveBlockToLeveldb cfg.modules s.leveldb bi = .ok s'.leveldb := by
  unfold finishBlock at h
  split at h
  · cases h
  · split at h
    · next leveldb hsave =>
      split at h
      · cases h
      · cases h
        exact hsave
    · next r hno =>
      obtain ⟨leveldb, hr, -⟩ := bind_eq_ok.1 (Prod.ext_iff.1 h).1
      exact absurd hr (hno leveldb)

/-- What a pass saves is the selected block, at the place that was set when it was written to its
    file, and the state of the file is that of its header. -/
theorem savedBlock_spec {env : PassEnv} {prev : Option GotBlock}
    {next : GotBlock} {s : SyncState} {bi : BlockInfo}
    (h : savedBlock S cfg env prev next s = some bi) :
    ∃ got, selectBlock S cfg prev next = .ok (some got) ∧
      bi.header.endBlockPos = got.1.header.endBlockPos ∧
      bi.header.blockSize = got.1.header.blockSize ∧
      bi.header.filePos = (if cfg.isSaveBlockToFiles then passedHeader cfg got s else got.1.header).filePos ∧
      (loopBody S cfg env prev next s).2.leveldb.lookup
          (filePrefix ++ getBasename bi.header.filePos.fileName) =
        some (FileInfo.serialize { filePos := {
          fileName := bi.header.filePos.fileName, pos := bi.header.endBlockPos } }) := by
  rw [savedBlock] at h
  split at h
  · next got hsel =>
    refine ⟨got, hsel, ?_⟩
    rw [loopBody, hsel]
    dsimp only [handleBlock]
    have hcase := appendBlock_case cfg env.users got s
    generalize appendBlock cfg env.users got s = result at hcase h ⊢
    cases hcase with
    | notFiltered _ hr => exact absurd h (by simp [hr])
    | notSaved _ _ hr => exact absurd h (by simp [hr])
    | rejected _ _ _ _ hr => exact absurd h (by simp [hr])
    | @accepted bi₁ bi₂ files n blockchain hf hs hadd hn =>
      dsimp only at h ⊢
      split at h
      · next u s' hfin =>
        cases h
        have hheader := header_appended hf hs
        refine ⟨by rw [setBlockNumber, hheader], by rw [setBlockNumber, hheader], ?_, ?_⟩
        · show bi₂.header.filePos = _
          cases hsave : cfg.isSaveBlockToFiles with
          | true =>
            rw [hsave] at hs
            rw [if_pos rfl, (saveTransactions_inv hf hs).2]
          | false =>
            rw [hsave] at hs
            cases hs
            rw [filterTransactionsToSave_header hf]
            rfl
        · rw [hfin]
          exact saveBlockToLeveldb_file (finishBlock_saves hfin)
      · cases h
  · cases h

theorem endsRecord_iff {l : Loop} {env : PassEnv} {next : GotBlock} {bi : BlockInfo}
    (h : savedBlock S cfg env l.prev next l.state = some bi) :
    EndsRecord (l.deliver S cfg env next).state.leveldb bi ↔
      bi.header.endBlockPos.toNat = bi.header.filePos.pos.toNat + 8 + bi.header.blockSize.toNat := by
  obtain ⟨got, -, -, -, -, hlookup⟩ := savedBlock_spec h
  constructor
  · rintro ⟨fi, hfi, -, hpos⟩
    obtain rfl := fileInfo_serialize_injective (Option.some.inj (hlookup.symm.trans hfi))
    exact hpos
  · intro hpos
    exact ⟨_, hlookup, rfl, hpos⟩

/-- The selected block was delivered in this pass, or in the one before. -/
theorem mem_of_selectBlock {prev : Option GotBlock} {next got : GotBlock}
    (h : selectBlock S cfg prev next = .ok (some got)) : got = next ∨ prev = some got := by
  cases prev with
  | none =>
    rw [selectBlock] at h
    split_ifs at h
    · cases h
    · cases h
      exact Or.inl rfl
  | some prev =>
    rw [selectBlock] at h
    split_ifs at h
    · obtain ⟨hash, -, h⟩ := bind_eq_ok.1 h
      obtain ⟨_, -, h⟩ := bind_eq_ok.1 h
      cases h
      exact Or.inr rfl
    · cases h
      exact Or.inl rfl

/-- The block before the delivered one was delivered in the run. -/
theorem prev_delivered {P : GotBlock → Prop} {s₀ : SyncState} {events : List LoopEvent} {l : Loop}
    (hevents : ∀ next env, .process (.block next) env ∈ events → P next)
    (hrun : Loop.run S cfg { state := s₀ } events = some l) : ∀ got, l.prev = some got → P got := by
  induction events using List.reverseRecOn generalizing l with
  | nil =>
    cases hrun
    intro got hgot
    cases hgot
  | append_singleton events event ih =>
    rw [Loop.run, Machine.runs_append] at hrun
    obtain ⟨l₁, hl₁, hstep⟩ := Option.bind_eq_some_iff.1 hrun
    have ih := ih (fun next env h => hevents next env (List.mem_append_left _ h)) hl₁
    obtain ⟨l₂, hl₂, heq⟩ := Option.bind_eq_some_iff.1 hstep
    cases heq
    cases Loop.step_case S cfg hl₂ with
    | doProcess =>
      intro got hgot
      cases hgot
    | @block next env _ =>
      intro got hgot
      cases hgot
      exact hevents next env (List.mem_append_right _ (List.mem_singleton_self _))
    | noBlock => exact ih
    | mainBlock => exact ih
    | restart =>
      intro got hgot
      cases hgot

end

/-! ## A block from the network -/

open NetworkBlockSource in
/-- The block without transactions, as it is parsed. -/
def networkBlock : GotBlock :=
  match parseBlock (plainEnv emptyBlockLibs) readySource (firstHeader (lit "00")) emptyBlock.encode with
  | .ok a => (a.bi, a.dump)
  | _ => ({}, [])

open NetworkBlockSource in
theorem process_networkBlock : ∃ s', process (plainEnv emptyBlockLibs) readySource
    (fun _ => firstCalls (lit "00")) = (.ok (some networkBlock), s') := by
  obtain ⟨a, hparse, -, -⟩ := parseBlock_first emptyBlockLibs (lit "00")
  obtain ⟨s', hs', -⟩ := loadAndProcess_one (fun _ => firstCalls (lit "00")) (by decide) (by decide)
    (loadBlock_first emptyBlockLibs (lit "00") (by decide +kernel)) hparse
  have hprocess : process (plainEnv emptyBlockLibs) readySource (fun _ => firstCalls (lit "00")) =
      loadAndProcess (plainEnv emptyBlockLibs) readySource fun _ => firstCalls (lit "00") := by
    rw [process, if_neg (by decide)]
    rfl
  have hblock : networkBlock = (a.bi, a.dump) := by rw [networkBlock, hparse]
  rw [hblock]
  exact ⟨s', hprocess.trans hs'⟩

open NetworkBlockSource in
theorem fromNetwork_networkBlock : FromNetwork (plainEnv emptyBlockLibs) networkBlock := by
  obtain ⟨s', hs'⟩ := process_networkBlock
  exact ⟨plainSource, [announceOne], readySource, _, s', rfl, rfl, hs'⟩

/-- A node without blocks, with the same bytes in every file. -/
def filledFiles (content : Bytes) : SyncState where
  blockchain := BlockChain.new
  leveldb := ∅
  files := fun _ => some content

/-- The source delivers the block. -/
def deliverOne : List LoopEvent := [.doProcess true, .process (.block networkBlock) {}]

theorem fromSource_deliverOne (next : GotBlock) (env : PassEnv)
    (h : LoopEvent.process (.block next) env ∈ deliverOne) :
    FromSource (NetworkBlockSource.plainEnv NetworkBlockSource.emptyBlockLibs) saving next := by
  simp only [deliverOne, List.mem_cons, reduceCtorEq, LoopEvent.process.injEq,
    SourceResult.block.injEq, List.not_mem_nil, or_false, false_or] at h
  obtain ⟨rfl, -⟩ := h
  exact fromNetwork_networkBlock

theorem saves_deliverOne {content : Bytes} {bi : BlockInfo}
    (h : savedBlock Sample.support saving {} none networkBlock (filledFiles content) = some bi) :
    Saves Sample.support saving { state := filledFiles content } deliverOne
      { state := filledFiles content, isContinue := true } {} networkBlock bi :=
  ⟨[.doProcess true], [], rfl, rfl, rfl, h⟩

end SyncImpl

end TorrentNode
