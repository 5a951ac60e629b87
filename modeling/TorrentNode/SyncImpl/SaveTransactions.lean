/-
  Saving blocks to block files (`SyncImpl::filterTransactionsToSave`,
  `SyncImpl::saveTransactions`).

  A node that saves all users appends the dump of a block to the file the block
  belongs to, and adds the place of the record to the places of the
  transactions; a node that saves some users appends the raw transactions.  Files
  are opened and written without failures.

  `saved_readable`: whatever is appended to the files, each saved block and each
  of its transactions can be read where the node has recorded it.
-/
import TorrentNode.BlockchainRead.Files
import TorrentNode.BlockchainRead.Format
import TorrentNode.SyncImpl

open Wire Exec

namespace TorrentNode

/-! ## Files -/

/-- The block files by name. -/
abbrev Files := Bytes → Option Bytes

namespace Files

/-- What a file holds; a file that does not exist is created. -/
def content (files : Files) (name : Bytes) : Bytes := (files name).getD []

/-- Replace the content of a file. -/
def write (files : Files) (name content : Bytes) : Files := Function.update files name (some content)

@[simp] theorem content_write (files : Files) (name content : Bytes) :
    (files.write name content).content name = content := by
  simp [write, Files.content]

theorem content_write_of_ne {files : Files} {name name' : Bytes} (content : Bytes)
    (h : name' ≠ name) : (files.write name content).content name' = files.content name' := by
  simp [write, Files.content, h]

end Files

namespace SyncImpl

/-! ## Transactions to save -/

/-- `copyUsers.find(address) != copyUsers.end()`; a comparison wants an address that is set. -/
def findUser (users : List Bytes) (address : Address) : Exec Exn Bool := do
  if users = [] then return false
  check address.isSet "Address not set"
  return decide (address.address ∈ users)

/-- Whether `filterTransactionsToSave` keeps a transaction. -/
def isSaveTransaction (modules : Modules) (users : List Bytes) (tx : TransactionInfo) :
    Exec Exn Bool := do
  if !modules.users then return true
  if ← findUser users tx.fromAddress then return true
  if ← findUser users tx.toAddress then return true
  return tx.isSignBlockTx

/-- The loop of `filterTransactionsToSave`. -/
def filterTransactions (modules : Modules) (users : List Bytes) :
    List TransactionInfo → Exec Exn (List TransactionInfo)
  | [] => return []
  | tx :: txs => do
    let isSaveToBd ← isSaveTransaction modules users tx
    let txs ← filterTransactions modules users txs
    return { tx with isSaveToBd := isSaveToBd } :: txs

/-- `filterTransactionsToSave(bi)`. -/
def filterTransactionsToSave (modules : Modules) (users : List Bytes) (bi : BlockInfo) :
    Exec Exn BlockInfo := do
  let txs ← filterTransactions modules users bi.txs
  return { bi with txs := txs }

/-! ## Saving -/

/-- The loop of `saveTransactions` over the raw transactions: the transactions and the file. -/
def saveRawTransactions (fileName : Bytes) : List TransactionInfo → Bytes → List TransactionInfo × Bytes
  | [], file => ([], file)
  | tx :: txs, file =>
    let saved : TransactionInfo :=
      if tx.isSaveToBd then
        { tx with filePos := { pos := UInt64.ofNat file.length, fileName := fileName }, allRawTx := [] }
      else { tx with allRawTx := [] }
    let (txs, file) := saveRawTransactions fileName txs (if tx.isSaveToBd then file ++ tx.allRawTx else file)
    (saved :: txs, file)

/-- A transaction behind the beginning of the record of its block. -/
def placeTx (fileName : Bytes) (currPos : UInt64) (tx : TransactionInfo) : TransactionInfo :=
  { tx with filePos := { pos := tx.filePos.pos + currPos, fileName := fileName } }

/-- `saveTransactions(bi, binaryDump, saveBlockToFile)`: `bi` and the files it leaves. -/
def saveTransactions (modules : Modules) (files : Files) (bi : BlockInfo) (binaryDump : Bytes)
    (saveBlockToFile : Bool) : Exec Exn BlockInfo × Files :=
  let fileName := bi.header.filePos.fileName
  if !saveBlockToFile then (.ok bi, files)
  else if fileName = [] then (.throw (.common "File name not set"), files)
  else if !modules.users then
    let (currPos, file) := saveBlockToFileBinary (files.content fileName) binaryDump
    (.ok {
      header := { bi.header with filePos := { bi.header.filePos with pos := UInt64.ofNat currPos } }
      txs := bi.txs.map (placeTx fileName (UInt64.ofNat currPos)) }, files.write fileName file)
  else
    let (txs, file) := saveRawTransactions fileName bi.txs (files.content fileName)
    (.ok { bi with txs := txs }, files.write fileName file)

/-- Raw transactions are only appended. -/
theorem saveRawTransactions_file (fileName : Bytes) (txs : List TransactionInfo) (file : Bytes) :
    (saveRawTransactions fileName txs file).2 =
      file ++ txs.flatMap fun tx => if tx.isSaveToBd then tx.allRawTx else [] := by
  induction txs generalizing file with
  | nil => simp [saveRawTransactions]
  | cons tx txs ih =>
    show (saveRawTransactions fileName txs _).2 = _
    rw [ih, List.flatMap_cons]
    split_ifs
    · rw [List.append_assoc]
    · rfl

/-- **A save only appends**, to the file of the block. -/
theorem saveTransactions_files (modules : Modules) (files : Files) (bi : BlockInfo)
    (binaryDump : Bytes) (saveBlockToFile : Bool) :
    (saveTransactions modules files bi binaryDump saveBlockToFile).2 =
      if saveBlockToFile = true ∧ bi.header.filePos.fileName ≠ [] then
        files.write bi.header.filePos.fileName (files.content bi.header.filePos.fileName ++
          if modules.users then bi.txs.flatMap fun tx => if tx.isSaveToBd then tx.allRawTx else []
          else blockRecord binaryDump)
      else files := by
  unfold saveTransactions
  cases saveBlockToFile with
  | false => simp
  | true =>
    by_cases hname : bi.header.filePos.fileName = []
    · simp [hname]
    · cases hmod : modules.users with
      | false => simp [hname, saveBlockToFileBinary]
      | true => simp [hname, saveRawTransactions_file]

/-! ## Histories of the block files -/

/-- A block that was read from its dump in memory, with all its transactions, and the file it is to
    be saved in. -/
structure ParsedBlock (L : Libs) where
  dump : Buf
  isValidate : Bool
  isSaveAllTx : Bool
  bi : BlockInfo
  header_le : 80 ≤ dump.bytes.length
  parsed : readNextBlockInfo dump L ⟨0, isValidate, isSaveAllTx, 0, 0⟩ = .ok bi
  fileName : Bytes

/-- The block as it is passed to `saveTransactions`. -/
def ParsedBlock.toSave {L : Libs} (block : ParsedBlock L) : BlockInfo :=
  { block.bi with header := { block.bi.header with
    filePos := { block.bi.header.filePos with fileName := block.fileName } } }

/-- What happens to the block files: a block is saved, or anything else is appended. -/
inductive FileEvent (L : Libs) where
  | save (block : ParsedBlock L)
  | append (fileName data : Bytes)

/-- The files, and the blocks that were saved as `saveTransactions` has left them. -/
structure SavedFiles (L : Libs) where
  files : Files
  saved : List (ParsedBlock L × BlockInfo) := []

/-- One event. -/
def SavedFiles.step {L : Libs} (modules : Modules) (s : SavedFiles L) : FileEvent L → SavedFiles L
  | .save block =>
    match saveTransactions modules s.files block.toSave block.dump.bytes true with
    | (.ok bi, files) => { files := files, saved := s.saved ++ [(block, bi)] }
    | (_, files) => { s with files := files }
  | .append fileName data =>
    { s with files := s.files.write fileName (s.files.content fileName ++ data) }

/-- Events one after the other. -/
def SavedFiles.run {L : Libs} (modules : Modules) (s : SavedFiles L) (events : List (FileEvent L)) :
    SavedFiles L :=
  events.foldl (SavedFiles.step modules) s

/-- A saved block can be read from its file: the range reader gives its dump, the block reader gives
    the block as it was read in memory, with the places it was saved at, and the transaction reader
    gives each of its transactions. -/
structure Readable (L : Libs) (M : Allocator) (file : Bytes) (block : ParsedBlock L)
    (saved : BlockInfo) : Prop where
  dump_read : ∀ toByte : UInt64, block.dump.bytes.length ≤ toByte.toNat →
    TorrentNode.getBlockDump file saved.header.filePos.pos 0 toByte =
      .ok (block.dump.bytes.length, block.dump.bytes)
  block_read : ∀ isValidate : Bool, (isValidate = true → block.isValidate = true) →
    ∃ next bi, readNextBlockInfoFile M L file saved.header.filePos.pos
        ⟨0, isValidate, block.isSaveAllTx, 0, 0⟩ = .ok (next, bi, block.dump.bytes) ∧
      next.toNat = saved.header.filePos.pos.toNat + 8 + block.dump.bytes.length ∧
      bi.header = { block.bi.header with
        filePos := { pos := saved.header.filePos.pos }, endBlockPos := next } ∧
      bi.txs = saved.txs.map fun tx => { tx with filePos := { pos := tx.filePos.pos } }
  tx_read : ∀ tx ∈ saved.txs, ∀ (filePos : FilePosition) (isSaveAllTx : Bool), ∃ raw isSign,
    readOneTransactionInfo M L file tx.filePos.pos { filePos := filePos } isSaveAllTx =
      .ok (true, { tx with filePos := filePos, allRawTx := raw, isSignBlockTx := isSign })
  same_txs : saved.txs.map (fun tx => { tx with filePos := {} }) =
    block.bi.txs.map fun tx => { tx with filePos := {} }

section
variable {L : Libs}

/-- The block with the places it has if its record stands at `pos`. -/
def ParsedBlock.placed (block : ParsedBlock L) (pos : UInt64) : BlockInfo where
  header := { block.bi.header with filePos := { pos := pos, fileName := block.fileName } }
  txs := block.bi.txs.map (placeTx block.fileName pos)

/-- A transaction of the block has its place relative to the dump. -/
theorem ParsedBlock.filePos_eq (block : ParsedBlock L) {tx : TransactionInfo}
    (htx : tx ∈ block.bi.txs) : ∃ i,
      ReadAt block.dump L ⟨0, block.isValidate, block.isSaveAllTx, 0, 0⟩ tx i ∧
      tx.filePos = { pos := 8 + UInt64.ofNat i } := by
  obtain ⟨i, hi⟩ := readNextBlockInfo_readAt rfl block.header_le block.parsed tx htx
  refine ⟨i, hi, ?_⟩
  rw [hi.2.2.2.1, UInt64.zero_add]

/-- The three readers find a block whose record stands where it was placed. -/
theorem ParsedBlock.readable (block : ParsedBlock L) (M : Allocator) {file : Bytes} {pos : UInt64}
    (h : RecordAt file pos block.dump.bytes) : Readable L M file block (block.placed pos) where
  dump_read _ hto := h.getBlockDump_whole hto
  block_read isValidate hval := by
    have hread := h.readNextBlockInfoFile_eq M rfl rfl rfl hval block.parsed
    refine ⟨_, _, hread, h.toNat_next, rfl, ?_⟩
    rw [ParsedBlock.placed, List.map_map]
    refine List.map_congr_left fun tx htx => ?_
    obtain ⟨i, -, hpos⟩ := block.filePos_eq htx
    simp [moveTx, placeTx, hpos]
  tx_read := by
    intro tx htx filePos isSaveAllTx
    obtain ⟨tx, hin, rfl⟩ := List.mem_map.1 htx
    obtain ⟨i, hi, hpos⟩ := block.filePos_eq hin
    obtain ⟨raw, isSign, hone⟩ := h.readOneTransactionInfo_eq M rfl hi filePos isSaveAllTx
    have hplace : (placeTx block.fileName pos tx).filePos.pos = pos + 8 + UInt64.ofNat i := by
      rw [placeTx, hpos]
      show 8 + UInt64.ofNat i + pos = _
      rw [UInt64.add_comm, ← UInt64.add_assoc]
    refine ⟨raw, isSign, ?_⟩
    rw [hplace]
    exact hone
  same_txs := by simp [ParsedBlock.placed, placeTx, Function.comp_def]

/-- A node that saves all users appends the record of the block. -/
theorem ParsedBlock.save_eq (block : ParsedBlock L) {modules : Modules} (husers : modules.users = false)
    (files : Files) (hname : block.fileName ≠ []) :
    saveTransactions modules files block.toSave block.dump.bytes true =
      (.ok (block.placed (UInt64.ofNat (files.content block.fileName).length)),
        files.write block.fileName (files.content block.fileName ++ blockRecord block.dump.bytes)) := by
  simp [saveTransactions, ParsedBlock.toSave, hname, husers, saveBlockToFileBinary,
    ParsedBlock.placed]

/-! ## Runs -/

/-- No event changes what a file holds already. -/
theorem SavedFiles.content_step (modules : Modules) (s : SavedFiles L) (event : FileEvent L)
    (name : Bytes) : s.files.content name <+: (s.step modules event).files.content name := by
  have happend : ∀ fileName data, s.files.content name <+:
      (s.files.write fileName (s.files.content fileName ++ data)).content name := by
    intro fileName data
    by_cases h : name = fileName
    · subst h
      simp
    · rw [Files.content_write_of_ne _ h]
  cases event with
  | append fileName data => exact happend fileName data
  | save block =>
    have hfiles : (s.step modules (.save block)).files =
        (saveTransactions modules s.files block.toSave block.dump.bytes true).2 := by
      unfold SavedFiles.step
      dsimp only
      split <;> simp [*]
    rw [hfiles, saveTransactions_files]
    split_ifs
    · exact happend _ _
    · exact happend _ _
    · exact List.prefix_rfl

theorem blockRecord_ne_nil (data : Bytes) : blockRecord data ≠ [] := by
  simp [blockRecord, leBytes]

/-- The record of every saved block stands where the block was placed. -/
def SavedFiles.Stand (s : SavedFiles L) : Prop :=
  ∀ p ∈ s.saved, ∃ pos, p.2 = p.1.placed (UInt64.ofNat pos) ∧
    StandsAt (s.files.content p.1.fileName) pos (blockRecord p.1.dump.bytes)

theorem SavedFiles.stand_step {modules : Modules} (husers : modules.users = false) {s : SavedFiles L}
    (h : s.Stand) (event : FileEvent L) : (s.step modules event).Stand := by
  -- a record that stands is not moved
  have hkeep : ∀ p ∈ s.saved, ∃ pos, p.2 = p.1.placed (UInt64.ofNat pos) ∧
      StandsAt ((s.step modules event).files.content p.1.fileName) pos
        (blockRecord p.1.dump.bytes) := by
    intro p hp
    obtain ⟨pos, hplaced, hstands⟩ := h p hp
    obtain ⟨rest, hrest⟩ := s.content_step modules event p.1.fileName
    refine ⟨pos, hplaced, ?_⟩
    have hlen := hstands.le_length (blockRecord_ne_nil _)
    rw [← hrest]
    exact hstands.append (by omega) rest
  cases event with
  | append fileName data => exact hkeep
  | save block =>
    by_cases hname : block.fileName = []
    · have hstep : s.step modules (.save block) = s := by
        simp [SavedFiles.step, saveTransactions, ParsedBlock.toSave, hname]
      rwa [hstep]
    · have hsave := block.save_eq husers s.files hname
      have hstep : s.step modules (.save block) = {
          files := s.files.write block.fileName
            (s.files.content block.fileName ++ blockRecord block.dump.bytes)
          saved := s.saved ++
            [(block, block.placed (UInt64.ofNat (s.files.content block.fileName).length))] } := by
        simp only [SavedFiles.step, hsave]
      rw [hstep] at hkeep ⊢
      intro p hp
      rcases List.mem_append.1 hp with hp | hp
      · exact hkeep p hp
      · obtain rfl := List.mem_singleton.1 hp
        refine ⟨_, rfl, ?_⟩
        dsimp only
        rw [Files.content_write, StandsAt, List.drop_left]

theorem SavedFiles.stand_run {modules : Modules} (husers : modules.users = false)
    (events : List (FileEvent L)) {s : SavedFiles L} (h : s.Stand) : (s.run modules events).Stand := by
  induction events generalizing s with
  | nil => exact h
  | cons event events ih => exact ih (SavedFiles.stand_step husers h event)

/-- The blocks that are saved: a block without a file name is refused. -/
def FileEvent.block? : FileEvent L → Option (ParsedBlock L)
  | .save block => if block.fileName = [] then none else some block
  | .append _ _ => none

theorem SavedFiles.saved_run {modules : Modules} (husers : modules.users = false)
    (events : List (FileEvent L)) (s : SavedFiles L) :
    (s.run modules events).saved.map Prod.fst =
      s.saved.map Prod.fst ++ events.filterMap FileEvent.block? := by
  induction events generalizing s with
  | nil => simp [SavedFiles.run]
  | cons event events ih =>
    have hstep : (s.step modules event).saved.map Prod.fst =
        s.saved.map Prod.fst ++ event.block?.toList := by
      cases event with
      | append fileName data => simp [SavedFiles.step, FileEvent.block?]
      | save block =>
        by_cases hname : block.fileName = []
        · simp [SavedFiles.step, saveTransactions, ParsedBlock.toSave, FileEvent.block?, hname]
        · simp [SavedFiles.step, block.save_eq husers s.files hname, FileEvent.block?, hname]
    have hrun : (s.run modules (event :: events)).saved.map Prod.fst = _ := ih (s.step modules event)
    rw [hstep] at hrun
    rw [hrun, List.filterMap_cons]
    cases hblock : event.block? with
    | none => simp
    | some block => simp

/-- **Saved blocks are readable.**  In every history of saves and appends, over files with any
    content, each block that has a file name is saved, and at the end the three readers find each
    saved block and its transactions where the node has recorded them.  A file is shorter than
    2^63 bytes. -/
theorem saved_readable {modules : Modules} (husers : modules.users = false) (files : Files)
    (events : List (FileEvent L))
    (hlt : ∀ name, ((SavedFiles.run modules ⟨files, []⟩ events).files.content name).length < 2 ^ 63) :
    (SavedFiles.run modules ⟨files, []⟩ events).saved.map Prod.fst =
        events.filterMap FileEvent.block? ∧
      ∀ M : Allocator, ∀ p ∈ (SavedFiles.run modules ⟨files, []⟩ events).saved,
        Readable L M ((SavedFiles.run modules ⟨files, []⟩ events).files.content p.1.fileName)
          p.1 p.2 := by
  refine ⟨SavedFiles.saved_run husers events ⟨files, []⟩, ?_⟩
  intro M p hp
  have hstand := SavedFiles.stand_run husers events
    (show SavedFiles.Stand ⟨files, []⟩ from fun _ hp => absurd hp List.not_mem_nil)
  obtain ⟨pos, hplaced, hstands⟩ := hstand p hp
  have hfile := hlt p.1.fileName
  have hlen := hstands.le_length (blockRecord_ne_nil _)
  have hpos : (UInt64.ofNat pos).toNat = pos :=
    UInt64.toNat_ofNat_of_lt' (by show pos < 2 ^ 64; omega)
  rw [hplaced]
  exact p.1.readable M ⟨by rw [hpos]; exact hstands, p.1.header_le, hfile⟩

/-- A block is saved twice into a file that holds one byte, and bytes are appended. -/
theorem saved_readable_keyBlock :
    (Format.keyBlock 65 le_rfl).txs.length = 1 ∧ ∀ L : Libs, ∃ block : ParsedBlock L,
      block.dump = (Format.loadedKeyBlock 65 le_rfl (by norm_num)).buf ∧
      ∀ M : Allocator, ∀ p ∈ (SavedFiles.run ⟨true, true, false, false⟩ ⟨fun _ => some [7], []⟩
          [.save block, .save block, .append [102] [1, 2, 3]]).saved,
        Readable L M ((SavedFiles.run ⟨true, true, false, false⟩ ⟨fun _ => some [7], []⟩
          [.save block, .save block, .append [102] [1, 2, 3]]).files.content p.1.fileName) p.1 p.2 := by
  refine ⟨rfl, fun L => ?_⟩
  obtain ⟨bi, hparsed, -⟩ := Format.readNextBlockInfo_ok L 0 false
    (Format.loadedKeyBlock 65 le_rfl (by norm_num)) fun tx htx => by
      obtain rfl := List.mem_singleton.1 htx
      exact Or.inr (by decide)
  have hhead := Format.encode_length_ge (Format.keyBlock 65 le_rfl)
  let block : ParsedBlock L := {
    dump := (Format.loadedKeyBlock 65 le_rfl (by norm_num)).buf
    isValidate := false
    isSaveAllTx := false
    bi := bi
    header_le := by show 80 ≤ (Format.keyBlock 65 le_rfl).encode.length; omega
    parsed := hparsed
    fileName := [102] }
  have hlen : block.dump.bytes.length ≤ 265 := Format.keyBlock_length_le 65 le_rfl
  refine ⟨block, rfl, (saved_readable rfl _ _ fun name => ?_).2⟩
  have hsave := fun files => block.save_eq (show (⟨true, true, false, false⟩ : Modules).users = false
    from rfl) files (List.cons_ne_nil _ _)
  have hname : block.fileName = [102] := rfl
  have hseven : (Files.content (fun _ => some [7]) name).length = 1 := rfl
  by_cases hf : name = [102]
  · subst hf
    simp only [SavedFiles.run, List.foldl, SavedFiles.step, hsave, hname, Files.content_write,
      List.length_append, hseven, blockRecord, leBytes_length, List.length_cons, List.length_nil]
    omega
  · simp only [SavedFiles.run, List.foldl, SavedFiles.step, hsave, hname,
      Files.content_write_of_ne _ hf, hseven]
    norm_num

end

end SyncImpl

end TorrentNode
