/-
  The replay of the blocks when a node is started again (`SyncImpl::synchronize`,
  `FileBlockSource::getExistingBlockS`).

  The blocks that a worker has not processed yet are read from the block files, at the places
  that are stored with their headers; the source is asked only if this fails.  The files are
  written by the node itself, or by another program, which appends to them.

  `replay_reads_passed`: in every run, with either source, every block of the replay is read
  from its file, and the workers get the block that was passed to them when it was delivered;
  only the signature of the sender is lost, and the position behind the record is another one.
-/
import TorrentNode.SyncImpl.NodeRuns

open Wire Exec

namespace TorrentNode

/-! ## Reading a stored block -/

namespace FileBlockSource

/-- `openFile(file, fileName)` of a file to read. -/
def openFile (files : Files) (fileName : Bytes) : Exec Exn Bytes := do
  check (fileName ≠ []) "Empty file name"
  match files fileName with
  | some file => return file
  | none => .throw (.common ("File " ++ text fileName ++ " not opened"))

/-- `getExistingBlockS(bh, bi, blockDump, isValidate)`: the block and its dump. -/
def getExistingBlockS (M : Allocator) (L : Libs) (files : Files) (bh : BlockHeader) (isValidate : Bool) :
    Exec Exn (BlockInfo × Bytes) := do
  check (bh.filePos.fileName ≠ []) "Incorrect file name"
  let file ← openFile files bh.filePos.fileName
  let (nextCurrPos, bi, blockDump) ← readNextBlockInfoFile M L file bh.filePos.pos {
    posInFile := 0
    isValidate := isValidate
    isSaveAllTx := false
    beginTx := 0
    countTx := 0 }
  check (nextCurrPos ≠ bh.filePos.pos) "File incorrect"
  let bi := nameBlock bh.filePos.fileName bi
  let txs ← bi.txs.mapM fun tx => do
    let blockNumber ← WorkerNodeTest.optionalValue bh.blockNumber
    return { tx with blockNumber := blockNumber }
  return ({ header := { bi.header with blockNumber := bh.blockNumber }, txs := txs }, blockDump)

end FileBlockSource

namespace SyncImpl

open BlockChain LevelDb

/-! ## The machine -/

inductive DiskAction where
  /-- a step of the node other than the replay -/
  | node (a : NodeAction)
  /-- an iteration of the replay; `other` is the answer of `getBlockAlgorithm->getExistingBlock` -/
  | retry (users : List Bytes) (other : Exec Exn GotBlock)
  /-- another program appends to a block file -/
  | append (fileName data : Bytes)

section
variable (E : SourceEnv) (cfg : SyncConfig) (cachesOpt : WorkerMain.CachesOptions)

/-- The block of an iteration of the replay: from its file, or else from the source. -/
def readExisting (files : Files) (bh : BlockHeader) (other : Exec Exn GotBlock) : Exec Exn GotBlock :=
  match FileBlockSource.getExistingBlockS E.memory E.libs files bh cfg.isValidate with
  | .throw _ => other
  | r => r

/-- An iteration of the replay.  An exception of the source ends the thread. -/
def retryDisk (s : NodeState) (r : Running) (users : List Bytes) (other : Exec Exn GotBlock) :
    Option NodeState := do
  let blockNumber ← r.retry
  if blockNumber ≤ s.sync.blockchain.countBlocks then
    match readExisting E cfg s.sync.files (s.sync.blockchain.getBlockNumber blockNumber) other with
    | .ok (bi, _) => retryNode cfg s r users bi
    | _ => none
  else retryNode cfg s r users {}

/-- A step of the node with its files. -/
def diskStep (s : NodeState) : DiskAction → Option NodeState
  | .node (.retry _ _) => none
  | .node a => nodeStep cfg cachesOpt s a
  | .retry users other => s.running.bind fun r => retryDisk E cfg s r users other
  | .append fileName data => some { s with sync := { s.sync with
      files := s.sync.files.write fileName (s.sync.files.content fileName ++ data) } }

/-- The block that a step passes to the workers when it is delivered. -/
def passedBy (s : NodeState) : DiskAction → List BlockInfo
  | .node (.deliver users got) =>
    match (appendBlock cfg users got s.sync).1 with
    | .ok bi => [bi]
    | _ => []
  | _ => []

/-- The blocks that were passed to the workers when they were delivered. -/
def passedIn (s : NodeState) (as : List DiskAction) : List BlockInfo :=
  Machine.yields (diskStep E cfg cachesOpt) (passedBy cfg) s as

/-- What the source of the node delivers while the block files are `files`. -/
def Delivers (files : Files) (got : GotBlock) : Prop :=
  if cfg.isSaveBlockToFiles then
    ∃ s₀ run s calls s', s₀.advancedBlocks = [] ∧
      Machine.runs (NetworkBlockSource.step E) s₀ run = some s ∧
      s.isValidate = cfg.isValidate ∧ s.saveAllTx = cfg.modules.users ∧
      NetworkBlockSource.process E s calls = (.ok (some got), s')
  else
    ∃ folder s opens, s.isValidate = cfg.isValidate ∧ (∀ path, s.file = some path → s.fileName = path) ∧
      (FileBlockSource.process E.memory E.libs folder s opens).1 = .ok (some got) ∧
      files got.1.header.filePos.fileName = some (folder.contentAt got.1.header.filePos.fileName)

/-- The block files are shorter than 2^63 bytes. -/
def Files.Short (files : Files) : Prop := ∀ name, (files.content name).length < 2 ^ 63

/-- What the surroundings of the node may do; nothing is assumed of the replay. -/
def DiskAllowed (N : Network) (s : NodeState) : DiskAction → Prop
  | .node (.deliver users got) => Allowed cfg N s (.deliver users got) ∧ Delivers E cfg s.sync.files got
  | .node a => Allowed cfg N s a
  | .retry _ _ => Files.Short s.sync.files
  | .append _ _ => True

end

/-! ## Reading a record again -/

/-- A block that was read without the signature of its sender. -/
def Unsigned (header : BlockHeader) : Prop :=
  header.senderSign = [] ∧ header.senderPubkey = [] ∧ header.senderAddress = []

section
variable {M : Allocator} {L : Libs} {o : ReadOptions}

theorem readBlockTxs_sender {b : Buf} {header : BlockHeader} {bi : BlockInfo}
    (h : readBlockTxs b L o header = .ok bi) (hheader : Unsigned header) : Unsigned bi.header := by
  obtain ⟨dump, -, h⟩ := bind_eq_ok.1 h
  obtain ⟨loop, -, h⟩ := bind_eq_ok.1 h
  obtain ⟨signature, -, h⟩ := bind_eq_ok.1 h
  cases h
  dsimp only
  split_ifs
  · exact hheader
  · exact hheader

theorem readNextBlockInfo_sender {b : Buf} {bi : BlockInfo} (h : readNextBlockInfo b L o = .ok bi) :
    80 ≤ b.bytes.length ∧ Unsigned bi.header := by
  obtain ⟨header, hheader, h⟩ := bind_eq_ok.1 h
  obtain ⟨bi', htxs, h⟩ := bind_eq_ok.1 h
  cases h
  have hlen : 80 ≤ b.bytes.length := by
    have hsafe := safe_readBlockHeaderWithoutSize (b := b) (L := L) {}
    rw [hheader] at hsafe
    exact hsafe
  rw [readBlockHeaderWithoutSize_eq hlen] at hheader
  cases hheader
  have hsender : Unsigned bi'.header := readBlockTxs_sender htxs ⟨rfl, rfl, rfl⟩
  exact ⟨hlen, hsender⟩

/-- There is a header where a block was read. -/
theorem header_le_of_read {file : Bytes} {pos next : UInt64} {bi : BlockInfo} {dump : Bytes}
    (h : readNextBlockInfoFile M L file pos o = .ok (next, bi, dump)) (hne : next ≠ pos) :
    pos.toNat + 88 ≤ file.length := by
  by_contra hle
  have hfalse : readBlockHeaderFile M L file pos {} = .ok (false, {}) := by
    rw [readBlockHeaderFile]
    split_ifs with h1 h2
    · rfl
    · rw [blockHeaderSize] at h2
      omega
    · rfl
  rw [readNextBlockInfoFile, hfalse, ok_bind] at h
  cases h
  exact hne rfl

/-- **A block that was read from a file is read again** from the file with more bytes. -/
theorem readNextBlockInfoFile_longer {file file' : Bytes} (hpre : file <+: file')
    (hlt : file'.length < 2 ^ 63) {pos next : UInt64} {bi : BlockInfo} {dump : Bytes}
    (h : readNextBlockInfoFile M L file pos o = .ok (next, bi, dump)) (hne : next ≠ pos) :
    readNextBlockInfoFile M L file' pos o = .ok (next, bi, dump) ∧ Unsigned bi.header := by
  have hle := header_le_of_read h hne
  have hlen := hpre.length_le
  obtain ⟨rest, rfl⟩ := hpre
  have hslice : ∀ {i k}, i + k ≤ file.length → slice (file ++ rest) i k = slice file i k := by
    intro i k hik
    have := (standsAt_zero_append file rest).slice_part hik
    rwa [Nat.zero_add] at this
  rw [readNextBlockInfoFile, readBlockHeaderFile_at M L hle (by omega), ok_bind] at h
  rw [readNextBlockInfoFile, readBlockHeaderFile_at M L (by omega) hlt, ok_bind, hslice (by omega),
    hslice (by omega), hslice (by omega), hslice (by omega), hslice (by omega)]
  have hn64 := leNat_lt (slice file pos.toNat 8)
  rw [slice_length (by omega)] at hn64
  generalize leNat (slice file pos.toNat 8) = n at h hn64 ⊢
  dsimp only at h ⊢
  rw [if_neg (by simp)] at h ⊢
  split_ifs at h with hshort
  · cases h
    exact absurd rfl hne
  · rw [if_neg (by omega)]
    rw [UInt64.toNat_ofNat_of_lt' hn64] at h ⊢
    obtain ⟨_, hmax, h⟩ := bind_eq_ok.1 h
    rw [hmax, ok_bind]
    have hn63 : n ≤ maxSize := by
      by_contra hmax'
      rw [Exec.check_neg hmax'] at hmax
      cases hmax
    rw [maxSize] at hn63
    have hplus : (UInt64.ofNat n + 8).toNat = n + 8 := by
      rw [UInt64.toNat_add, UInt64.toNat_ofNat_of_lt' hn64]
      show (n + 8) % 2 ^ 64 = _
      omega
    have hdumpPos : (pos + 8).toNat = pos.toNat + 8 := by
      rw [UInt64.toNat_add]
      show (pos.toNat + 8) % 2 ^ 64 = _
      omega
    rw [hplus] at hshort
    have hread : readFile (file ++ rest) (pos.toNat + 8) n = readFile file (pos.toNat + 8) n := by
      rw [readFile_eq (by omega), readFile_eq (by omega), hslice (by omega)]
    rw [hdumpPos] at h ⊢
    rw [hread]
    refine ⟨h, ?_⟩
    obtain ⟨_, -, h⟩ := bind_eq_ok.1 h
    obtain ⟨buf, -, h⟩ := bind_eq_ok.1 h
    obtain ⟨bi', htxs, h⟩ := bind_eq_ok.1 h
    cases h
    have hsender : Unsigned bi'.header := readBlockTxs_sender htxs ⟨rfl, rfl, rfl⟩
    exact hsender

end

/-! ## Blocks on disk -/

/-- A block whose transactions are all saved. -/
def saveAll (bi : BlockInfo) : BlockInfo :=
  { bi with txs := bi.txs.map fun tx => { tx with isSaveToBd := true } }

theorem filterTransactionsToSave_eq {modules : Modules} (husers : modules.users = false)
    (users : List Bytes) (bi : BlockInfo) :
    filterTransactionsToSave modules users bi = .ok (saveAll bi) := by
  have htxs : ∀ txs : List TransactionInfo, filterTransactions modules users txs =
      .ok (txs.map fun tx => { tx with isSaveToBd := true }) := by
    intro txs
    induction txs with
    | nil => rfl
    | cons tx txs ih =>
      rw [filterTransactions, isSaveTransaction, husers, ih]
      rfl
  rw [filterTransactionsToSave, htxs]
  rfl

/-- The block as it is passed on in the replay. -/
def resent (bi : BlockInfo) (endBlockPos : UInt64) : BlockInfo where
  header := { bi.header with
    endBlockPos := endBlockPos, senderSign := [], senderPubkey := [], senderAddress := [] }
  txs := bi.txs

section
variable (E : SourceEnv) (cfg : SyncConfig)

/-- The block is read from its file, whatever is appended to the file. -/
def OnDisk (files : Files) (bi : BlockInfo) : Prop :=
  bi.header.filePos.fileName ≠ [] ∧ ∃ file, files bi.header.filePos.fileName = some file ∧
    ∀ file', file <+: file' → file'.length < 2 ^ 63 → ∃ next got dump,
      readNextBlockInfoFile E.memory E.libs file' bi.header.filePos.pos
          ⟨0, cfg.isValidate, false, 0, 0⟩ = .ok (next, got, dump) ∧ next ≠ bi.header.filePos.pos ∧
        ∀ n, bi.header.blockNumber = some n →
          setBlockNumber (saveAll (FileBlockSource.nameBlock bi.header.filePos.fileName got)) n =
            resent bi next

end

section
variable {E : SourceEnv} {cfg : SyncConfig}

/-- Files to which was only appended. -/
def Files.Grow (files files' : Files) : Prop :=
  ∀ name file, files name = some file → ∃ file', files' name = some file' ∧ file <+: file'

theorem Files.Grow.refl (files : Files) : Files.Grow files files :=
  fun _ file h => ⟨file, h, List.prefix_rfl⟩

theorem Files.grow_write (files : Files) (fileName data : Bytes) :
    Files.Grow files (files.write fileName (files.content fileName ++ data)) := by
  intro name file h
  by_cases hname : name = fileName
  · subst hname
    refine ⟨files.content name ++ data, Function.update_self .., ?_⟩
    rw [Files.content, h]
    exact List.prefix_append _ _
  · exact ⟨file, (Function.update_of_ne hname ..).trans h, List.prefix_rfl⟩

theorem OnDisk.grow {files files' : Files} {bi : BlockInfo} (h : OnDisk E cfg files bi)
    (hgrow : Files.Grow files files') : OnDisk E cfg files' bi := by
  obtain ⟨hname, file, hfile, hread⟩ := h
  obtain ⟨file', hfile', hpre⟩ := hgrow _ _ hfile
  exact ⟨hname, file', hfile', fun file'' hpre' => hread file'' (hpre.trans hpre')⟩

/-- **The replay of a block on disk** reads it from its file, and gives it as it was. -/
theorem OnDisk.readExisting (husers : cfg.modules.users = false) {files : Files} {bi : BlockInfo}
    (h : OnDisk E cfg files bi) (hshort : Files.Short files) {bh : BlockHeader}
    (hplace : bi.header.filePos = bh.filePos) {n : ℕ} (hn : bi.header.blockNumber = some n)
    (hn' : bh.blockNumber = some n) (users : List Bytes) (other : Exec Exn GotBlock) :
    ∃ existing next, readExisting E cfg files bh other = .ok existing ∧
      filterTransactionsToSave cfg.modules users (replayed bh existing.1) = .ok (resent bi next) := by
  obtain ⟨hname, file, hfile, hread⟩ := h
  have hlt := hshort bi.header.filePos.fileName
  rw [Files.content, hfile, Option.getD_some] at hlt
  obtain ⟨next, got, dump, hgot, hne, hsame⟩ := hread file List.prefix_rfl hlt
  rw [hplace] at hname hfile hgot hne hsame
  have hexisting : FileBlockSource.getExistingBlockS E.memory E.libs files bh cfg.isValidate =
      .ok (setBlockNumber (FileBlockSource.nameBlock bh.filePos.fileName got) n, dump) := by
    rw [FileBlockSource.getExistingBlockS, check_of hname, ok_bind, FileBlockSource.openFile,
      check_of hname, ok_bind, hfile]
    show readNextBlockInfoFile E.memory E.libs file bh.filePos.pos ⟨0, cfg.isValidate, false, 0, 0⟩ >>= _ = _
    rw [hgot, ok_bind]
    dsimp only
    rw [check_of hne, ok_bind, hn']
    refine bind_eq_ok.2 ⟨_, mapM_eq_ok.2 (List.forall₂_map_right_iff.2
      (List.forall₂_same.2 fun tx _ => ?_)), rfl⟩
    rfl
  refine ⟨_, next, by rw [SyncImpl.readExisting, hexisting], ?_⟩
  rw [filterTransactionsToSave_eq husers, ← hsame n hn]
  simp only [replayed, setBlockNumber, saveAll, hn', List.map_map]
  rfl

/-! ## Delivered blocks -/

/-- A block from the network was parsed from its dump in memory. -/
theorem network_parsed {s₀ s s' : NetworkBlockSource} {run : List NetworkBlockSource.Call}
    {calls : ℕ → P2PCalls × P2PCalls} {got : GotBlock} (hstart : s₀.advancedBlocks = [])
    (hrun : Machine.runs (NetworkBlockSource.step E) s₀ run = some s)
    (h : NetworkBlockSource.process E s calls = (.ok (some got), s')) :
    ∃ b bi, readNextBlockInfo b E.libs ⟨0, s.isValidate, s.saveAllTx, 0, 0⟩ = .ok bi ∧ b.bytes = got.2 ∧
      got.1.txs = bi.txs ∧ got.1.header = { bi.header with
        filePos := { bi.header.filePos with fileName := got.1.header.filePos.fileName }
        senderSign := got.1.header.senderSign
        senderPubkey := got.1.header.senderPubkey
        senderAddress := got.1.header.senderAddress } := by
  obtain ⟨a, ⟨g, p2p, header, dump, -, hparse⟩, rfl⟩ :=
    NetworkBlockSource.process_yields hstart hrun h
  obtain ⟨signBlock, -, hparse⟩ := bind_eq_ok.1 hparse
  obtain ⟨_, -, hparse⟩ := bind_eq_ok.1 hparse
  obtain ⟨buf, hbuf, hparse⟩ := bind_eq_ok.1 hparse
  obtain ⟨bi, hread, hparse⟩ := bind_eq_ok.1 hparse
  cases hparse
  exact ⟨buf, bi, hread, NetworkBlockSource.vector_bytes hbuf, rfl, rfl⟩

/-- A block from the files was read at its place. -/
theorem file_parsed {folder : Folder} {s : FileBlockSource} {opens : Bool} {got : GotBlock}
    (hopen : ∀ path, s.file = some path → s.fileName = path)
    (h : (FileBlockSource.process E.memory E.libs folder s opens).1 = .ok (some got)) :
    ∃ path pos next bi, path ≠ [] ∧ readNextBlockInfoFile E.memory E.libs (folder.contentAt path) pos
        ⟨0, s.isValidate, false, 0, 0⟩ = .ok (next, bi, got.2) ∧ next ≠ pos ∧
      got.1 = FileBlockSource.nameBlock path bi := by
  rw [FileBlockSource.process] at h
  split at h
  · next t ht =>
    have hopened : t.isValidate = s.isValidate ∧ t.fileName ≠ [] ∧
        ∀ path, t.file = some path → t.fileName = path := by
      rw [FileBlockSource.openNext] at ht
      by_cases hname : s.fileName = []
      · rw [if_pos hname] at ht
        dsimp only at ht
        split_ifs at ht with hnext
        · cases ht
        · cases ht
          exact ⟨rfl, hnext, fun path hpath => Option.some.inj hpath⟩
        · cases ht
      · rw [if_neg hname] at ht
        cases ht
        exact ⟨rfl, hname, hopen⟩
    rw [FileBlockSource.readNext] at h
    split at h
    · next next bi dump hread =>
      split_ifs at h with hne
      · cases h
      · obtain rfl : (FileBlockSource.nameBlock t.fileName bi, dump) = got :=
          Option.some.inj (Exec.ok.inj h)
        rw [FileBlockSource.readBlock] at hread
        split at hread
        · next path hpath =>
          obtain rfl := hopened.2.2 path hpath
          rw [hopened.1] at hread
          exact ⟨_, _, next, bi, hopened.2.1, hread, hne, rfl⟩
        · rw [FileBlockSource.readClosedFile] at hread
          split_ifs at hread
          cases hread
          exact absurd rfl hne
    · next r hno =>
      obtain ⟨⟨next, bi, dump⟩, hr, -⟩ := bind_eq_ok.1 h
      exact absurd hr (hno next bi dump)
  · next r t _ _ =>
    obtain ⟨isOpen, -, hr⟩ := bind_eq_ok.1 h
    cases hr

/-- The record that a save has appended to a file. -/
theorem recordAt_saved {content dump file : Bytes} (hpre : content ++ blockRecord dump <+: file)
    (hlt : file.length < 2 ^ 63) (hhead : 80 ≤ dump.length) :
    RecordAt file (UInt64.ofNat content.length) dump := by
  have hlen := hpre.length_le
  rw [List.length_append] at hlen
  have hpos : (UInt64.ofNat content.length).toNat = content.length :=
    UInt64.toNat_ofNat_of_lt' (by show content.length < 2 ^ 64; omega)
  obtain ⟨rest, rfl⟩ := hpre
  refine ⟨?_, hhead, hlt⟩
  rw [hpos, StandsAt, List.append_assoc, List.drop_left]
  exact List.prefix_append _ _

/-- **A block that is appended to the chain is on disk.** -/
theorem onDisk_appended (husers : cfg.modules.users = false) {s : SyncState} {users : List Bytes}
    {got : GotBlock} (hdelivers : Delivers E cfg s.files got) {bi bi' : BlockInfo} {files : Files}
    (hf : filterTransactionsToSave cfg.modules users got.1 = .ok bi)
    (hs : saveTransactions cfg.modules s.files bi got.2 cfg.isSaveBlockToFiles = (.ok bi', files))
    (n : ℕ) : OnDisk E cfg files (setBlockNumber bi' n) := by
  rw [filterTransactionsToSave_eq husers] at hf
  obtain rfl := Exec.ok.inj hf
  cases hsave : cfg.isSaveBlockToFiles with
  | true =>
    rw [Delivers, if_pos hsave] at hdelivers
    obtain ⟨s₀, run, src, calls, src', hstart, hrun, hval, hall, hprocess⟩ := hdelivers
    obtain ⟨b, parsed, hparsed, hbytes, htxs, hheader⟩ := network_parsed hstart hrun hprocess
    rw [hval, hall, husers] at hparsed
    obtain ⟨hhead, hsign, hkey, haddress⟩ := readNextBlockInfo_sender hparsed
    rw [hbytes] at hhead
    by_cases hname : got.1.header.filePos.fileName = []
    · simp [saveTransactions, hsave, saveAll, hname] at hs
    · simp only [saveTransactions, hsave, saveAll, hname, husers, saveBlockToFileBinary, Bool.not_true,
        Bool.false_eq_true, if_false, Bool.not_false, if_true, Prod.mk.injEq, Exec.ok.injEq] at hs
      obtain ⟨rfl, rfl⟩ := hs
      refine ⟨hname, _, Function.update_self .., fun file hpre hlt => ?_⟩
      have hread := (recordAt_saved hpre hlt hhead).readNextBlockInfoFile_eq E.memory hbytes rfl rfl id
        hparsed
      refine ⟨_, _, _, hread, ?_, ?_⟩
      · intro heq
        have hnext := (recordAt_saved hpre hlt hhead).toNat_next
        have hend := congrArg UInt64.toNat heq
        dsimp only [setBlockNumber] at hend
        omega
      · rintro k ⟨⟩
        dsimp only [setBlockNumber]
        rw [htxs, hheader]
        simp only [saveAll, FileBlockSource.nameBlock, resent, List.map_map, hsign, hkey, haddress,
          BlockInfo.mk.injEq, true_and]
        refine List.map_congr_left fun tx _ => ?_
        simp [moveTx, placeTx]
  | false =>
    rw [Delivers, hsave, if_neg (by simp)] at hdelivers
    obtain ⟨folder, src, opens, hval, hopen, hprocess, hfile⟩ := hdelivers
    obtain ⟨path, pos, next, parsed, hpath, hread, hne, hgot⟩ := file_parsed hopen hprocess
    have hnone : saveTransactions cfg.modules s.files (saveAll got.1) got.2 false =
        (.ok (saveAll got.1), s.files) := by
      rw [saveTransactions]
      rfl
    rw [hsave, hnone] at hs
    obtain ⟨heq, rfl⟩ := Prod.mk.inj hs
    obtain rfl := Exec.ok.inj heq
    rw [hval] at hread
    have hrecord := readNextBlockInfoFile_moved (folder.size_lt (lastName path)) hread hne
    have hplace : (setBlockNumber (saveAll got.1) n).header.filePos = { pos := pos, fileName := path } := by
      show got.1.header.filePos = _
      rw [hgot]
      simp only [FileBlockSource.nameBlock, hrecord.filePos]
    have hfile : s.files path = some (folder.contentAt path) := by
      rwa [show got.1.header.filePos = { pos := pos, fileName := path } from hplace] at hfile
    rw [OnDisk, hplace]
    refine ⟨hpath, _, hfile, fun file hpre hlt => ?_⟩
    obtain ⟨hlonger, hsign, hkey, haddress⟩ := readNextBlockInfoFile_longer hpre hlt hread hne
    refine ⟨next, parsed, got.2, hlonger, hne, ?_⟩
    rintro k ⟨⟩
    rw [hgot]
    simp only [saveAll, FileBlockSource.nameBlock, setBlockNumber, resent, hsign, hkey, haddress,
      hrecord.endBlockPos]

/-! ## The invariant -/

variable (E cfg) in
/-- A header at whose place there is a block of `passed`. -/
def Kept (N : Network) (passed : List BlockInfo) (files : Files) (bh : BlockHeader) : Prop :=
  ∃ bi ∈ passed, bi.header.hash = bh.hash ∧ bi.header.prevHash = bh.prevHash ∧
    bi.header.filePos = bh.filePos ∧ bi.header.blockNumber = some (N.depth bh.hash) ∧
    OnDisk E cfg files bi

variable (E cfg) in
/-- The headers of the chain in memory, of the database and of the block that is not saved yet have
    their blocks on disk. -/
structure DiskInv (N : Network) (passed : List BlockInfo) (s : NodeState) : Prop where
  held : ∃ info m, Held N s info m
  chain : s.running.isSome → ∀ h bh, s.sync.blockchain.blocks.lookup h = some bh → h ≠ genesisHash →
    Kept E cfg N passed s.sync.files bh
  records : ∀ h raw, s.sync.leveldb.lookup (blockPrefix ++ h) = some raw →
    ∃ bh, BlockHeader.deserialize raw = .ok bh ∧ Kept E cfg N passed s.sync.files bh
  pending : ∀ r bi, s.running = some r → r.pending = some bi → Kept E cfg N passed s.sync.files bi.header

variable {N : Network} {passed : List BlockInfo} {cachesOpt : WorkerMain.CachesOptions} {s s' : NodeState}

theorem Kept.mono {passed' : List BlockInfo} {files files' : Files} {bh : BlockHeader}
    (h : Kept E cfg N passed files bh) (hsub : passed ⊆ passed') (hgrow : Files.Grow files files') :
    Kept E cfg N passed' files' bh := by
  obtain ⟨bi, hbi, hhash, hprev, hplace, hnumber, hdisk⟩ := h
  exact ⟨bi, hsub hbi, hhash, hprev, hplace, hnumber, hdisk.grow hgrow⟩

/-- The fields that are stored decide. -/
theorem Kept.congr {files : Files} {bh bh' : BlockHeader} (h : Kept E cfg N passed files bh)
    (heq : bh'.persisted = bh.persisted) : Kept E cfg N passed files bh' := by
  obtain ⟨bi, hbi, hhash, hprev, hplace, hnumber, hdisk⟩ := h
  have hh := congrArg BlockHeader.hash heq
  have hp := congrArg BlockHeader.prevHash heq
  have hf := congrArg BlockHeader.filePos heq
  dsimp only [BlockHeader.persisted] at hh hp hf
  exact ⟨bi, hbi, hhash.trans hh.symm, hprev.trans hp.symm, hplace.trans hf.symm, hh ▸ hnumber, hdisk⟩

/-- Steps that write to the files only. -/
theorem DiskInv.files (h : DiskInv E cfg N passed s) {files : Files}
    (hgrow : Files.Grow s.sync.files files) :
    DiskInv E cfg N passed { s with sync := { s.sync with files := files } } where
  held := by
    obtain ⟨info, m, hheld⟩ := h.held
    exact ⟨info, m, hheld.files files⟩
  chain hr k bh hl hne := (h.chain hr k bh hl hne).mono (List.Subset.refl _) hgrow
  records k raw hl := by
    obtain ⟨bh, hbh, hkept⟩ := h.records k raw hl
    exact ⟨bh, hbh, hkept.mono (List.Subset.refl _) hgrow⟩
  pending r bi hr hbi := (h.pending r bi hr hbi).mono (List.Subset.refl _) hgrow

/-- A block of the chain that is replayed. -/
theorem DiskInv.replay (h : DiskInv E cfg N passed s) (husers : cfg.modules.users = false)
    {r : Running} {n : ℕ} (hr : s.running = some r) (hretry : r.retry = some n)
    (hn : n ≤ s.sync.blockchain.countBlocks) (hshort : Files.Short s.sync.files) :
    ∃ bi ∈ passed, bi.header.blockNumber = some n ∧ bi.header.hash = (s.sync.blockchain.getBlockNumber n).hash ∧
      bi.header.prevHash = (s.sync.blockchain.getBlockNumber n).prevHash ∧
      ∀ users other, ∃ existing next,
        readExisting E cfg s.sync.files (s.sync.blockchain.getBlockNumber n) other = .ok existing ∧
        filterTransactionsToSave cfg.modules users
          (replayed (s.sync.blockchain.getBlockNumber n) existing.1) = .ok (resent bi next) := by
  obtain ⟨info, m, hheld⟩ := h.held
  have hok := hheld.running hr
  have hinv := hok.chain.inv
  have h0 := (hok.retry hretry).1
  have hlen := countBlocks_add_one hinv
  have hget := List.getElem?_eq_getElem (show n < s.sync.blockchain.hashes.length by omega)
  obtain ⟨hlookup, hhash, hnumber⟩ := hinv.getBlockNumber_spec hget
  have hne : s.sync.blockchain.hashes[n] ≠ genesisHash := by
    intro heq
    obtain ⟨hlt, hgen⟩ := List.getElem?_eq_some_iff.1 hinv.genesis
    have := hinv.nodup.getElem_inj_iff.1 (heq.trans hgen.symm)
    omega
  obtain ⟨bi, hbi, hhash', hprev', hplace, hdepth, hdisk⟩ :=
    h.chain (by rw [hr]; rfl) _ _ hlookup hne
  rw [hhash, hok.chain.depth hget] at hdepth
  exact ⟨bi, hbi, hdepth, hhash', hprev',
    fun users other => hdisk.readExisting husers hshort hplace hdepth hnumber users other⟩

/-! ## Steps -/

/-- A start-up loads the chain from the database. -/
theorem diskInv_start (h : DiskInv E cfg N passed s) {nodeTest : Option ℕ}
    (hstep : nodeStep cfg cachesOpt s (.start nodeTest) = some s') : DiskInv E cfg N passed s' := by
  obtain ⟨info, m, hheld⟩ := h.held
  have hoff : s.running = none := by
    rcases hr : s.running with _ | r
    · rfl
    · rw [nodeStep, hr, Option.isSome_some, if_pos rfl] at hstep
      cases hstep
  obtain ⟨s₁, hs₁, hheld'⟩ := @held_start N m info cfg cachesOpt s hheld hoff nodeTest
  obtain rfl := Option.some.inj (hs₁.symm.trans hstep)
  obtain ⟨c, hload, hrest⟩ := hheld.stores.loadBlockchain s.sync.blockchain
  simp only [nodeStep, hoff, Option.isSome_none, Bool.false_eq_true, if_false, startNode, hload,
    WorkerMain.create_eq_ok hheld.recorded, Option.some.injEq] at hstep
  subst hstep
  refine ⟨⟨info, m, hheld'⟩, ?_, h.records, ?_⟩
  · intro _ k bh hl hne
    dsimp only at hl
    rw [hrest.headers k] at hl
    obtain ⟨bh', hl', rfl⟩ := Option.map_eq_some_iff.1 hl
    obtain ⟨raw, hraw⟩ := hheld.stores.saved k bh' hne hl'
    obtain ⟨bh'', hdec, hkept⟩ := h.records k raw ((hheld.stores.records k raw).2 ⟨hne, bh', hl', hraw⟩)
    obtain rfl := Exec.ok.inj ((BlockHeader.deserialize_serialize hraw).symm.trans hdec)
    exact hkept.congr rfl
  · rintro _ bi ⟨⟩ hpending
    cases hpending

/-- A save writes the header of a block that is on disk. -/
theorem diskInv_save (hmod : cfg.modules.block = true) (h : DiskInv E cfg N passed s)
    (hallowed : Allowed cfg N s .save) (hstep : nodeStep cfg cachesOpt s .save = some s') :
    DiskInv E cfg N passed s' := by
  obtain ⟨info, m, hheld⟩ := h.held
  obtain ⟨m', hheld', -⟩ := held_save hmod hheld hallowed hstep
  obtain ⟨r, hr, hstep⟩ := Option.bind_eq_some_iff.1 hstep
  obtain ⟨bi, hpending, hstep⟩ := Option.bind_eq_some_iff.1 hstep
  obtain ⟨db, hsave⟩ := hallowed r bi hr hpending
  rw [hsave] at hstep
  obtain rfl := Option.some.inj hstep
  obtain ⟨raw, metadata, rawMetadata, value, key, hraw, -, -, rfl⟩ := saveBlockToLeveldb_eq_ok hmod hsave
  refine ⟨⟨info, m', hheld'⟩, fun _ => h.chain (by rw [hr]; rfl), ?_, ?_⟩
  · intro k raw' hl
    have hother : blockPrefix ++ k ≠ key.1 := fun heq => key.2.1 ⟨k, heq⟩
    dsimp only at hl
    rw [Finmap.lookup_insert_of_ne _ hother, Finmap.lookup_insert_of_ne _ (keyBlockMetadata_ne k)] at hl
    by_cases hk : k = bi.header.hash
    · rw [hk, Finmap.lookup_insert, Option.some.injEq] at hl
      subst hl
      exact ⟨_, BlockHeader.deserialize_serialize hraw, (h.pending r bi hr hpending).congr rfl⟩
    · have hne : blockPrefix ++ k ≠ blockPrefix ++ bi.header.hash := fun heq =>
        hk (List.append_cancel_left heq)
      rw [Finmap.lookup_insert_of_ne _ hne] at hl
      exact h.records k raw' hl
  · rintro _ bi' ⟨⟩ hno
    cases hno

/-- The worker writes its own record. -/
theorem diskInv_work (h : DiskInv E cfg N passed s) (hstep : nodeStep cfg cachesOpt s .work = some s') :
    DiskInv E cfg N passed s' := by
  obtain ⟨info, m, hheld⟩ := h.held
  obtain ⟨info', hheld', -⟩ := held_work hheld hstep
  obtain ⟨r, hr, hstep⟩ := Option.bind_eq_some_iff.1 hstep
  have hchain := h.chain (by rw [hr]; rfl)
  rw [workNode] at hstep
  split at hstep
  · cases hstep
  · split at hstep
    · next leveldb caches hw =>
      obtain rfl := Option.some.inj hstep
      refine ⟨⟨info', m, hheld'⟩, fun _ => hchain, ?_, ?_⟩
      · intro k raw hl
        rcases WorkerMain.workBlock_leveldb hw with rfl | ⟨value, rfl⟩
        · exact h.records k raw hl
        · refine h.records k raw ?_
          rw [← hl]
          exact (Finmap.lookup_insert_of_ne _ fun heq =>
            absurd (List.cons.inj heq).1 (by decide)).symm
      · rintro _ bi ⟨⟩ hpending
        exact h.pending r bi hr hpending
    · obtain rfl := Option.some.inj hstep
      refine ⟨⟨info', m, hheld'⟩, fun _ => hchain, h.records, ?_⟩
      rintro _ bi ⟨⟩ hpending
      exact h.pending r bi hr hpending
    · cases hstep

theorem saveTransactions_grow {modules : Modules} {files files' : Files} {bi : BlockInfo} {dump : Bytes}
    {saveBlockToFile : Bool} {r : Exec Exn BlockInfo}
    (h : saveTransactions modules files bi dump saveBlockToFile = (r, files')) :
    Files.Grow files files' := by
  have hfiles := saveTransactions_files modules files bi dump saveBlockToFile
  rw [h] at hfiles
  dsimp only at hfiles
  split_ifs at hfiles
  · rw [hfiles]
    exact Files.grow_write _ _ _
  · rw [hfiles]
    exact Files.grow_write _ _ _
  · rw [hfiles]
    exact .refl files

/-- **A delivered block** that is appended to the chain is passed to the workers, and is on disk. -/
theorem diskInv_deliver (husers : cfg.modules.users = false) (h : DiskInv E cfg N passed s)
    {users : List Bytes} {got : GotBlock} (hallowed : Allowed cfg N s (.deliver users got))
    (hdelivers : Delivers E cfg s.sync.files got)
    (hstep : nodeStep cfg cachesOpt s (.deliver users got) = some s') :
    DiskInv E cfg N (passed ++ passedBy cfg s (.node (.deliver users got))) s' := by
  obtain ⟨info, m, hheld⟩ := h.held
  have hheld' := held_deliver hheld hallowed hstep
  obtain ⟨r, hr, hstep⟩ := Option.bind_eq_some_iff.1 hstep
  rw [deliverNode] at hstep
  split_ifs at hstep with hbusy
  have hok := hheld.running hr
  obtain ⟨hnew, hknown, hdepth, hroot⟩ := hallowed
  have hcase := appendBlock_case cfg users got s.sync
  rw [passedBy]
  generalize appendBlock cfg users got s.sync = result at hcase hstep ⊢
  cases hcase with
  | @notFiltered res _ hres =>
    cases res with
    | ok bi => exact absurd rfl (hres bi)
    | throw | undef | outOfFuel =>
      obtain rfl := Option.some.inj hstep
      rw [List.append_nil]
      exact h
  | @notSaved _ res files _ hs hres =>
    cases res with
    | ok bi => exact absurd rfl (hres bi)
    | throw | undef | outOfFuel =>
      obtain rfl := Option.some.inj hstep
      rw [List.append_nil]
      exact h.files (saveTransactions_grow hs)
  | @rejected _ bi files r₁ r₂ c' hf hs hadd hr₁ hr₂ =>
    have hb : bi.header.blockNumber = none := by rw [header_appended hf hs]; exact hnew
    have hc' : c' = s.sync.blockchain := by
      rcases addBlock_spec hok.chain.inv.numbered hb with ⟨-, he⟩ | ⟨-, message, he⟩
      · rw [he] at hadd
        have hpos := hok.chain.inv.length_pos
        exact absurd (congrArg Prod.fst hadd).symm (hr₁ _ (by omega))
      · rw [he] at hadd
        exact (congrArg Prod.snd hadd).symm
    subst hc'
    cases r₂ with
    | ok bi => exact absurd rfl (hr₂ bi)
    | throw | undef | outOfFuel =>
      obtain rfl := Option.some.inj hstep
      rw [List.append_nil]
      exact h.files (saveTransactions_grow hs)
  | @accepted _ bi files n c' hf hs hadd _ =>
    have hheader := header_appended hf hs
    have hb : bi.header.blockNumber = none := by rw [hheader]; exact hnew
    have hhash : bi.header.hash = got.1.header.hash := by rw [hheader]
    have hprev : bi.header.prevHash = got.1.header.prevHash := by rw [hheader]
    have hroot' : s.sync.blockchain.RootedCall bi.header := by
      intro h0 h1 h2 h3
      rw [hprev]
      exact hroot h0 (hhash ▸ h1) (hhash ▸ h2) (hprev ▸ h3)
    obtain ⟨hchain, hn, hhashes, -⟩ := hok.chain.addBlock hb (hhash ▸ hknown)
      (by rw [hhash, hprev]; exact hdepth) hroot' hadd
    have hlen := countBlocks_add_one hok.chain.inv
    have hnumber : N.depth bi.header.hash = n := by
      refine hchain.depth ?_
      rw [hhashes, hn, hlen, List.getElem?_concat_length]
    have hgrow := saveTransactions_grow hs
    have hkept : Kept E cfg N (passed ++ [setBlockNumber bi n]) files (setBlockNumber bi n).header := by
      refine ⟨_, List.mem_append_right _ (List.mem_singleton_self _), rfl, rfl, rfl, ?_,
        onDisk_appended husers hdelivers hf hs n⟩
      exact congrArg some hnumber.symm
    have hold : ∀ {bh}, Kept E cfg N passed s.sync.files bh →
        Kept E cfg N (passed ++ [setBlockNumber bi n]) files bh := fun hbh =>
      hbh.mono (List.subset_append_left _ _) hgrow
    obtain ⟨-, he⟩ := addBlock_of_ok hok.chain.inv.numbered hb (congrArg Prod.fst hadd)
    obtain ⟨-, rfl⟩ := Prod.mk.inj (he.symm.trans hadd)
    dsimp only at hstep
    rw [process_eq rfl] at hstep
    obtain rfl := Option.some.inj hstep
    refine ⟨⟨info, m, hheld'⟩, ?_, ?_, ?_⟩
    · intro _ k bh hl hne
      by_cases hk : k = bi.header.hash
      · rw [hk, append, Finmap.lookup_insert, Option.some.injEq] at hl
        subst hl
        exact hkept.congr rfl
      · rw [append, Finmap.lookup_insert_of_ne _ hk] at hl
        exact hold (h.chain (by rw [hr]; rfl) k bh hl hne)
    · intro k raw hl
      obtain ⟨bh, hdec, hbh⟩ := h.records k raw hl
      exact ⟨bh, hdec, hold hbh⟩
    · rintro _ bi' ⟨⟩ ⟨⟩
      exact hkept

/-- What an iteration of the replay leaves as it is. -/
theorem retryNode_keeps {r : Running} {users : List Bytes} {bi : BlockInfo}
    (h : retryNode cfg s r users bi = some s') :
    ∃ r', s' = { s with running := some r' } ∧ r'.pending = r.pending := by
  obtain ⟨n, -, h⟩ := Option.bind_eq_some_iff.1 h
  by_cases hcount : n ≤ s.sync.blockchain.countBlocks
  · rw [if_pos hcount] at h
    dsimp only at h
    split at h
    · split_ifs at h
      · split at h
        · exact ⟨_, (Option.some.inj h).symm, rfl⟩
        · cases h
      · exact ⟨_, (Option.some.inj h).symm, rfl⟩
    · cases h
  · rw [if_neg hcount] at h
    exact ⟨_, (Option.some.inj h).symm, rfl⟩

/-- **An iteration of the replay** passes a block of the chain on. -/
theorem diskInv_retry (husers : cfg.modules.users = false) (h : DiskInv E cfg N passed s)
    (hshort : Files.Short s.sync.files) {users : List Bytes} {other : Exec Exn GotBlock}
    (hstep : diskStep E cfg cachesOpt s (.retry users other) = some s') : DiskInv E cfg N passed s' := by
  obtain ⟨info, m, hheld⟩ := h.held
  obtain ⟨r, hr, hstep⟩ := Option.bind_eq_some_iff.1 hstep
  obtain ⟨n, hn, hstep⟩ := Option.bind_eq_some_iff.1 hstep
  obtain ⟨bi, hretry, hallowed⟩ : ∃ bi, retryNode cfg s r users bi = some s' ∧
      Allowed cfg N s (.retry users bi) := by
    by_cases hcount : n ≤ s.sync.blockchain.countBlocks
    · rw [if_pos hcount] at hstep
      obtain ⟨kept, -, -, hhash, hprev, hread⟩ := h.replay husers hr hn hcount hshort
      obtain ⟨existing, next, hexisting, hfilter⟩ := hread users other
      rw [hexisting] at hstep
      have hheader := filterTransactionsToSave_header hfilter
      refine ⟨existing.1, hstep, ?_⟩
      intro r' n' hr' hn'
      obtain rfl := Option.some.inj (hr.symm.trans hr')
      obtain rfl := Option.some.inj (hn.symm.trans hn')
      exact ⟨(congrArg BlockHeader.hash hheader).symm.trans hhash,
        (congrArg BlockHeader.prevHash hheader).symm.trans hprev⟩
    · -- the replay is over, whatever block there is
      rw [if_neg hcount] at hstep
      refine ⟨{ header := s.sync.blockchain.getBlockNumber n }, ?_, ?_⟩
      · rw [← hstep, retryNode, retryNode, hn]
        simp only [Option.bind_eq_bind, Option.bind_some, if_neg hcount]
      · intro r' n' hr' hn'
        obtain rfl := Option.some.inj (hr.symm.trans hr')
        obtain rfl := Option.some.inj (hn.symm.trans hn')
        exact ⟨rfl, rfl⟩
  have hnode : nodeStep cfg cachesOpt s (.retry users bi) = some s' := by
    rw [nodeStep, hr]
    exact hretry
  have hheld' := held_retry hheld hallowed hnode
  obtain ⟨r', rfl, hpending⟩ := retryNode_keeps hretry
  refine ⟨⟨info, m, hheld'⟩, fun _ => h.chain (by rw [hr]; rfl), h.records, ?_⟩
  rintro _ bi' ⟨⟩ hbi'
  exact h.pending r bi' hr (hpending.symm.trans hbi')

/-- **A step** keeps the invariant, with the blocks that it passes to the workers. -/
theorem diskInv_step (hmod : cfg.modules.block = true) (husers : cfg.modules.users = false)
    (h : DiskInv E cfg N passed s) {a : DiskAction} (hallowed : DiskAllowed E cfg N s a)
    (hstep : diskStep E cfg cachesOpt s a = some s') :
    DiskInv E cfg N (passed ++ passedBy cfg s a) s' := by
  have hsame : ∀ {t}, DiskInv E cfg N passed t → DiskInv E cfg N (passed ++ []) t := by
    intro t ht
    rwa [List.append_nil]
  cases a with
  | append fileName data =>
    obtain rfl := Option.some.inj hstep
    exact hsame (h.files (Files.grow_write _ _ _))
  | retry users other => exact hsame (diskInv_retry husers h hallowed hstep)
  | node a =>
    cases a with
    | start nodeTest => exact hsame (diskInv_start h hstep)
    | retry users bi => cases hstep
    | deliver users got =>
      have hnode : nodeStep cfg cachesOpt s (.deliver users got) = some s' := hstep
      exact diskInv_deliver husers h hallowed.1 hallowed.2 hnode
    | save =>
      have hnode : nodeStep cfg cachesOpt s .save = some s' := hstep
      exact hsame (diskInv_save hmod h hallowed hnode)
    | work =>
      have hnode : nodeStep cfg cachesOpt s .work = some s' := hstep
      exact hsame (diskInv_work h hnode)
    | crash =>
      obtain ⟨info, m, hheld⟩ := h.held
      obtain rfl := Option.some.inj hstep
      refine hsame ⟨⟨info, m, { hheld with running := ?_ }⟩, ?_, h.records, ?_⟩
      · rintro r ⟨⟩
      · intro hr
        cases hr
      · rintro r bi ⟨⟩

/-! ## Runs -/

variable {s₀ : NodeState} {as : List DiskAction}

theorem diskInv_runs (hmod : cfg.modules.block = true) (husers : cfg.modules.users = false)
    (hnew : NewNode s₀) (halong : Machine.Along (diskStep E cfg cachesOpt) (DiskAllowed E cfg N) s₀ as)
    (hrun : Machine.runs (diskStep E cfg cachesOpt) s₀ as = some s) :
    DiskInv E cfg N (passedIn E cfg cachesOpt s₀ as) s := by
  have hstart : DiskInv E cfg N [] s₀ := by
    refine ⟨⟨_, _, held_new N hnew⟩, ?_, ?_, ?_⟩
    · rw [hnew.running]
      intro hr
      cases hr
    · intro k raw hl
      rw [hnew.blocks.records k] at hl
      cases hl
    · rw [hnew.running]
      rintro r bi ⟨⟩
  have hstep : ∀ passed t a t', DiskInv E cfg N passed t → DiskAllowed E cfg N t a →
      diskStep E cfg cachesOpt t a = some t' → DiskInv E cfg N (passed ++ passedBy cfg t a) t' :=
    fun _ _ _ _ ht ha hstep => diskInv_step hmod husers ht ha hstep
  exact Machine.runs_invariant_yields hstep hstart halong hrun

/-- A delivered block is written to the files, or nothing is. -/
theorem deliver_files (husers : cfg.modules.users = false) {users : List Bytes} {got : GotBlock}
    (hstep : nodeStep cfg cachesOpt s (.deliver users got) = some s') :
    s'.sync.files = (saveTransactions cfg.modules s.sync.files (saveAll got.1) got.2
      cfg.isSaveBlockToFiles).2 := by
  have hsync : s'.sync = (appendBlock cfg users got s.sync).2 := by
    obtain ⟨r, hr, hstep⟩ := Option.bind_eq_some_iff.1 hstep
    rw [deliverNode] at hstep
    split_ifs at hstep
    split at hstep
    · next happend =>
      rw [happend]
      split at hstep
      · rw [← Option.some.inj hstep]
      · rw [← Option.some.inj hstep]
    · next happend =>
      rw [happend, ← Option.some.inj hstep]
  have hall := filterTransactionsToSave_eq husers users got.1
  have hcase := appendBlock_case cfg users got s.sync
  rw [hsync]
  generalize appendBlock cfg users got s.sync = result at hcase ⊢
  cases hcase with
  | notFiltered hf hr => exact absurd (hf.symm.trans hall) (hr _)
  | notSaved hf hs =>
    obtain rfl := Exec.ok.inj (hall.symm.trans hf)
    rw [hs]
  | rejected hf hs =>
    obtain rfl := Exec.ok.inj (hall.symm.trans hf)
    rw [hs]
  | accepted hf hs =>
    obtain rfl := Exec.ok.inj (hall.symm.trans hf)
    rw [hs]

end

open NetworkBlockSource (plainEnv emptyBlockLibs readySource plainSource announceOne)

/-- The network of the block without transactions. -/
def emptyBlockNetwork : Network := firstBlocks [networkBlock.1.header.hash] (by decide +kernel)

theorem firstBlocks_depth {hashes : List Bytes} {hlen : ∀ h ∈ hashes, h.length + 32 ≤ maxSize}
    {h : Bytes} (hne : h ≠ genesisHash) : (firstBlocks hashes hlen).depth h = 1 :=
  if_neg hne

def noAnswer : Exec Exn GotBlock := .throw (.common "Block number not set")

/-- A new node gets the block. -/
def getFirst : List DiskAction :=
  [.node (.start none), .retry [] noAnswer, .node (.deliver [] networkBlock)]

/-- The block is saved, and the node crashes and is started again. -/
def saveAndRestart : List DiskAction := [.node .save, .node .crash, .node (.start none)]

abbrev savingStep := diskStep (plainEnv emptyBlockLibs) saving smallCaches

theorem delivers_networkBlock (files : Files) : Delivers (plainEnv emptyBlockLibs) saving files networkBlock := by
  obtain ⟨s', hs'⟩ := process_networkBlock
  exact ⟨plainSource, [announceOne], readySource, _, s', rfl, rfl, rfl, rfl, hs'⟩

theorem step_first : savingStep newNode (.node (.start none)) = some firstStart :=
  start_new noBlocks_empty create_empty new _

theorem step_retry : savingStep firstStart (.retry [] noAnswer) =
    some (passed ∅ (fun _ => none) ⟨0, 0 - 1, []⟩) := rfl

theorem runs_getFirst : Machine.runs savingStep newNode getFirst =
    savingStep (passed ∅ (fun _ => none) ⟨0, 0 - 1, []⟩) (.node (.deliver [] networkBlock)) := by
  rw [getFirst, Machine.runs, step_first, Option.bind_some, Machine.runs, step_retry, Option.bind_some,
    Machine.runs]
  cases savingStep (passed ∅ (fun _ => none) ⟨0, 0 - 1, []⟩) (.node (.deliver [] networkBlock)) <;> rfl

theorem allowed_saveFirst {s : NodeState} (h : Machine.runs savingStep newNode getFirst = some s) :
    DiskAllowed (plainEnv emptyBlockLibs) saving emptyBlockNetwork s (.node .save) := by
  have hsave : ((Machine.runs savingStep newNode getFirst).all saveReturns) = true := by decide +kernel
  rw [h] at hsave
  exact @allowed_save emptyBlockNetwork s hsave

theorem along_getFirst {rest : List DiskAction}
    (hrest : ∀ s, Machine.runs savingStep newNode getFirst = some s → Machine.Along savingStep
      (DiskAllowed (plainEnv emptyBlockLibs) saving emptyBlockNetwork) s rest) :
    Machine.Along savingStep (DiskAllowed (plainEnv emptyBlockLibs) saving emptyBlockNetwork) newNode
      (getFirst ++ rest) := by
  refine ⟨trivial, fun s₁ h₁ => ?_⟩
  obtain rfl := Option.some.inj (step_first.symm.trans h₁)
  refine ⟨fun name => by show 0 < 2 ^ 63; omega, fun s₂ h₂ => ?_⟩
  obtain rfl := Option.some.inj (step_retry.symm.trans h₂)
  have hprev : networkBlock.1.header.prevHash = genesisHash := by decide +kernel
  have hne : networkBlock.1.header.hash ≠ genesisHash := by decide +kernel
  have hdepth : emptyBlockNetwork.depth networkBlock.1.header.hash = 1 := firstBlocks_depth hne
  refine ⟨⟨⟨by decide +kernel, List.mem_singleton_self _, ?_, fun _ _ _ _ => hprev⟩,
    delivers_networkBlock _⟩, fun s₃ h₃ => hrest s₃ (runs_getFirst.trans h₃)⟩
  rw [hprev, hdepth, emptyBlockNetwork.depth_genesis]

theorem short_getFirst {s : NodeState} (h : Machine.runs savingStep newNode getFirst = some s) :
    Files.Short s.sync.files := by
  rw [runs_getFirst] at h
  have hstep : nodeStep saving smallCaches (passed ∅ (fun _ => none) ⟨0, 0 - 1, []⟩)
    (.deliver [] networkBlock) = some s := h
  have hfiles := deliver_files rfl hstep
  rw [saveTransactions_files, if_pos ⟨rfl, by decide +kernel⟩] at hfiles
  intro name
  rw [hfiles]
  by_cases hname : name = (saveAll networkBlock.1).header.filePos.fileName
  · rw [hname, Files.content_write]
    show (blockRecord networkBlock.2).length < 2 ^ 63
    rw [blockRecord_length]
    decide +kernel
  · rw [Files.content_write_of_ne _ hname]
    show 0 < 2 ^ 63
    omega

end SyncImpl

end TorrentNode
