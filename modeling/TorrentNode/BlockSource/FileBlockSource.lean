/-
  Blocks from the block files of a folder (`FileBlockSource.cpp`).

  `process` reads the record at `currPos` of the open file.  If there is no complete
  record, the file is closed, and the next call asks `getNextFile` for a file, and
  `allFiles` for the position in it.  Another program appends to the files, in pieces
  of any size.

  `delivered_once`: in every run the dumps that were delivered from a file are the
  first complete records of it, and the position recorded for the file is behind
  them, unless the path of the folder is `//`.
-/
import TorrentNode.BlockchainRead.Files
import TorrentNode.BlockchainRead.Framing
import TorrentNode.LevelDb
import TorrentNode.Lib.Machine

open Wire Exec

namespace TorrentNode

/-- The fields of `FileBlockSource`; `file` is the path that is open. -/
structure FileBlockSource where
  isValidate : Bool
  allFiles : Finmap fun _ : CroppedFileName => FileInfo := ∅
  currPos : UInt64 := 0
  file : Option Bytes := none
  fileName : Bytes := []
deriving DecidableEq

namespace FileBlockSource

/-- `initialize()` of a new source. -/
def initializeFiles (leveldb : LevelDb) (isValidate : Bool) : Exec Exn FileBlockSource := do
  let allFiles ← leveldb.getAllFiles
  return { isValidate := isValidate, allFiles := allFiles }

/-- `readNextBlockInfo` on a stream that is not open: its size is -1, and no position is found. -/
def readClosedFile (currPos : UInt64) : Exec Exn (UInt64 × BlockInfo × Bytes) :=
  if blockHeaderSize ≤ 2 ^ 64 - 1 - currPos.toNat then .throw (.common "Incorrect seek operations")
  else .ok (currPos, {}, [])

section
variable (M : Allocator) (L : Libs) (folder : Folder) (s : FileBlockSource)

/-- The first part of `process`: whether a file is open; `opens` is the answer of the system. -/
def openNext (opens : Bool) : Exec Exn Bool × FileBlockSource :=
  if s.fileName = [] then
    let fi := getNextFile s.allFiles folder
    let s := { s with fileName := fi.filePos.fileName }
    if s.fileName = [] then (.ok false, s)
    else if opens then
      (.ok true, { s with file := some fi.filePos.fileName, currPos := fi.filePos.pos })
    else (.throw (.common ("File " ++ text s.fileName ++ " not opened")), s)
  else (.ok true, s)

/-- The block at `currPos`. -/
def readBlock : Exec Exn (UInt64 × BlockInfo × Bytes) :=
  match s.file with
  | some path =>
    readNextBlockInfoFile M L (folder.contentAt path) s.currPos {
      posInFile := 0
      isValidate := s.isValidate
      isSaveAllTx := false
      beginTx := 0
      countTx := 0 }
  | none => readClosedFile s.currPos

/-- The block with the name of its file. -/
def nameBlock (fileName : Bytes) (bi : BlockInfo) : BlockInfo where
  header := { bi.header with filePos := { bi.header.filePos with fileName := fileName } }
  txs := bi.txs.map fun tx => { tx with filePos := { tx.filePos with fileName := fileName } }

/-- The second part of `process`. -/
def readNext : Exec Exn (Option (BlockInfo × Bytes)) × FileBlockSource :=
  match s.readBlock M L folder with
  | .ok (nextCurrPos, bi, binaryDump) =>
    if nextCurrPos = s.currPos then (.ok none, { s with file := none, fileName := [] })
    else (.ok (some (nameBlock s.fileName bi, binaryDump)), { s with
      currPos := nextCurrPos
      allFiles := s.allFiles.insert (CroppedFileName.ofName s.fileName)
        { filePos := { pos := nextCurrPos, fileName := s.fileName } } })
  | r => (r >>= fun _ => .ok none, s)

/-- `process(bi, binaryDump)`: the block and its dump, if there is one. -/
def process (opens : Bool) : Exec Exn (Option (BlockInfo × Bytes)) × FileBlockSource :=
  match s.openNext folder opens with
  | (.ok true, s) => s.readNext M L folder
  | (r, s) => (r >>= fun _ => .ok none, s)

end

end FileBlockSource

/-! ## Records of a file -/

/-- The complete records at the beginning of a file: the number of bytes, and as many bytes. -/
def completeRecords (file : Bytes) : List Bytes :=
  if 8 ≤ file.length ∧ 8 + leNat (file.take 8) ≤ file.length then
    slice file 8 (leNat (file.take 8)) :: completeRecords (file.drop (8 + leNat (file.take 8)))
  else []
termination_by file.length
decreasing_by
  rw [List.length_drop]
  omega

/-- The bytes of a list of records. -/
def recordBytes (dumps : List Bytes) : Bytes := dumps.flatMap blockRecord

theorem recordBytes_append (dumps dumps' : List Bytes) :
    recordBytes (dumps ++ dumps') = recordBytes dumps ++ recordBytes dumps' := List.flatMap_append

theorem blockRecord_length (dump : Bytes) : (blockRecord dump).length = 8 + dump.length := by
  simp [blockRecord]

theorem completeRecords_record {dump : Bytes} (hlen : dump.length < 2 ^ 64) (rest : Bytes) :
    completeRecords (blockRecord dump ++ rest) = dump :: completeRecords rest := by
  have htake : (blockRecord dump ++ rest).take 8 = leBytes 8 dump.length := by
    simp [blockRecord, List.append_assoc]
  have hsize : leNat ((blockRecord dump ++ rest).take 8) = dump.length := by
    rw [htake, leNat_leBytes_of_lt hlen]
  have hslice : slice (blockRecord dump ++ rest) 8 dump.length = dump := by
    simp [slice, blockRecord, List.append_assoc]
  have hdrop : (blockRecord dump ++ rest).drop (8 + dump.length) = rest := by
    rw [← blockRecord_length, List.drop_left]
  rw [completeRecords, hsize, hslice, hdrop, if_pos]
  rw [List.length_append, blockRecord_length]
  omega

/-- A file that begins with records has these records first. -/
theorem completeRecords_of_prefix {dumps : List Bytes} {file : Bytes} (hlen : file.length < 2 ^ 63)
    (h : recordBytes dumps <+: file) : dumps <+: completeRecords file := by
  induction dumps generalizing file with
  | nil => exact List.nil_prefix
  | cons dump dumps ih =>
    obtain ⟨rest, rfl⟩ := h
    rw [show recordBytes (dump :: dumps) = blockRecord dump ++ recordBytes dumps from rfl,
      List.append_assoc] at hlen ⊢
    rw [List.length_append, blockRecord_length] at hlen
    rw [completeRecords_record (by omega)]
    exact (List.prefix_cons_inj dump).2 (ih (by omega) (List.prefix_append _ _))

/-! ## Runs -/

/-- A folder that is written to, a source, and what the source has delivered. -/
structure Reading where
  folder : Folder
  source : FileBlockSource
  delivered : List (BlockInfo × Bytes) := []

inductive ReadingAction where
  /-- some bytes are appended to a file of the folder -/
  | append (name data : Bytes)
  /-- `process` is called -/
  | process (opens : Bool)
  /-- the source is made again, from a database that holds the recorded positions -/
  | recreate (leveldb : LevelDb)

namespace Reading

/-- One action; a call with undefined behaviour has no successor. -/
def step (M : Allocator) (L : Libs) (s : Reading) : ReadingAction → Option Reading
  | .append name data => do
    let folder ← s.folder.append name data
    return { s with folder := folder }
  | .process opens =>
    match s.source.process M L s.folder opens with
    | (.ok none, source) => some { s with source := source }
    | (.ok (some got), source) => some { s with source := source, delivered := s.delivered ++ [got] }
    | (.throw _, source) => some { s with source := source }
    | _ => none
  | .recreate leveldb =>
    match FileBlockSource.initializeFiles leveldb s.source.isValidate with
    | .ok source => if source.allFiles = s.source.allFiles then some { s with source := source } else none
    | _ => none

/-- The dumps that were delivered from a file. -/
def deliveredFrom (s : Reading) (name : Bytes) : List Bytes :=
  (s.delivered.filter fun got => lastName got.1.header.filePos.fileName = name).map (·.2)

/-- What was delivered from a file are its first complete records, and the position that is recorded
    for it is their size. -/
def ReadsOnce (s : Reading) (name : Bytes) : Prop :=
  ∃ k ≤ (completeRecords (s.folder.content name)).length,
    s.deliveredFrom name = (completeRecords (s.folder.content name)).take k ∧
    match s.source.allFiles.lookup ⟨name⟩ with
    | some fi =>
      fi.filePos.pos.toNat = (recordBytes ((completeRecords (s.folder.content name)).take k)).length
    | none => k = 0

/-! ## The invariant -/

/-- The place behind what was delivered from a file. -/
def BehindDelivered (s : Reading) (name : Bytes) (fileName : Bytes) (pos : UInt64) : Prop :=
  fileName = getFullPath name s.folder.path ∧
    pos.toNat = (recordBytes (s.deliveredFrom name)).length

/-- The open file and the recorded positions are behind what was delivered. -/
structure Inv (s : Reading) : Prop where
  opened : ∀ path, s.source.file = some path → s.source.fileName = path ∧
    ∃ name, IsFileName name ∧ s.BehindDelivered name path s.source.currPos
  records : ∀ name, IsFileName name → recordBytes (s.deliveredFrom name) <+: s.folder.content name
  recorded : ∀ name, IsFileName name →
    match s.source.allFiles.lookup ⟨name⟩ with
    | some fi => s.BehindDelivered name fi.filePos.fileName fi.filePos.pos
    | none => s.deliveredFrom name = []

theorem Inv.readsOnce {s : Reading} (h : s.Inv) {name : Bytes} (hname : IsFileName name) :
    s.ReadsOnce name := by
  have hpre := completeRecords_of_prefix (s.folder.size_lt name) (h.records name hname)
  have htake : s.deliveredFrom name =
      (completeRecords (s.folder.content name)).take (s.deliveredFrom name).length :=
    List.prefix_iff_eq_take.1 hpre
  refine ⟨_, hpre.length_le, htake, ?_⟩
  have hrec := h.recorded name hname
  rw [← htake]
  split
  · rename_i fi hfi
    rw [hfi] at hrec
    exact hrec.2
  · rename_i hnone
    rw [hnone] at hrec
    exact List.length_eq_zero_iff.2 hrec

section
variable {s : Reading}

/-- The next file is asked for behind what was delivered from it. -/
theorem Inv.nextFile (h : s.Inv) {files : List Bytes} (hfiles : ∀ file ∈ files, IsFileName file)
    (hne : (nextFile s.source.allFiles s.folder files).filePos.fileName ≠ []) :
    ∃ name, IsFileName name ∧ s.BehindDelivered name
      (nextFile s.source.allFiles s.folder files).filePos.fileName
      (nextFile s.source.allFiles s.folder files).filePos.pos := by
  induction files with
  | nil => exact absurd rfl hne
  | cons file files ih =>
    have hfile := hfiles file List.mem_cons_self
    have hrec := h.recorded file hfile
    rw [TorrentNode.nextFile] at hne ⊢
    cases hlook : s.source.allFiles.lookup ⟨file⟩ with
    | none =>
      rw [hlook] at hrec
      exact ⟨file, hfile, rfl, by rw [hrec]; rfl⟩
    | some fi =>
      rw [hlook] at hrec
      rw [hlook] at hne
      dsimp only at hne ⊢
      split_ifs at hne ⊢
      · exact ⟨file, hfile, hrec⟩
      · exact ih (fun other hother => hfiles other (List.mem_cons_of_mem _ hother)) hne

theorem Inv.getNextFile (h : s.Inv) (hpath : s.folder.path ≠ lit "//")
    (hne : (getNextFile s.source.allFiles s.folder).filePos.fileName ≠ []) :
    ∃ name, IsFileName name ∧ s.BehindDelivered name
      (getNextFile s.source.allFiles s.folder).filePos.fileName
      (getNextFile s.source.allFiles s.folder).filePos.pos := by
  refine h.nextFile (fun file hfile => ?_) hne
  rw [Finset.mem_sort, Folder.mem_blkNames hpath] at hfile
  exact s.folder.name_valid file hfile.1

theorem Inv.openNext (h : s.Inv) (hpath : s.folder.path ≠ lit "//") (opens : Bool) :
    Inv { s with source := (s.source.openNext s.folder opens).2 } := by
  by_cases hclosed : s.source.fileName = []
  · -- no file is open
    have hfile : s.source.file = none := by
      refine Option.eq_none_iff_forall_not_mem.2 fun path hopen => ?_
      obtain ⟨hname, name, hvalid, hplace, -⟩ := h.opened path hopen
      rw [← hname, hclosed, getFullPath_eq hvalid] at hplace
      exact hvalid.1 (List.append_eq_nil_iff.1 hplace.symm).2
    rw [FileBlockSource.openNext, if_pos hclosed]
    dsimp only
    split_ifs with hnone
    · exact ⟨fun path hopen => absurd (hfile.symm.trans hopen) (by simp), h.records, h.recorded⟩
    · refine ⟨?_, h.records, h.recorded⟩
      intro path hopen
      cases hopen
      exact ⟨rfl, h.getNextFile hpath hnone⟩
    · exact ⟨fun path hopen => absurd (hfile.symm.trans hopen) (by simp), h.records, h.recorded⟩
  · rw [FileBlockSource.openNext, if_neg hclosed]
    exact h

/-- What is delivered next comes from the open file. -/
theorem deliveredFrom_append (got : BlockInfo × Bytes) (name : Bytes) (source : FileBlockSource) :
    deliveredFrom { s with source := source, delivered := s.delivered ++ [got] } name =
      if lastName got.1.header.filePos.fileName = name then s.deliveredFrom name ++ [got.2]
      else s.deliveredFrom name := by
  by_cases h : lastName got.1.header.filePos.fileName = name
  · simp [deliveredFrom, h]
  · simp [deliveredFrom, h]

/-- **A block that is read** is the next record of its file. -/
theorem Inv.readRecord (h : s.Inv) (hpath : s.folder.path ≠ lit "//") {path : Bytes}
    (hopen : s.source.file = some path) {next : UInt64} {bi : BlockInfo} {dump : Bytes}
    (hread : ReadRecord (s.folder.contentAt path) s.source.currPos next bi dump) :
    Inv { s with
      source := { s.source with
        currPos := next
        allFiles := s.source.allFiles.insert (CroppedFileName.ofName s.source.fileName)
          { filePos := { pos := next, fileName := s.source.fileName } } }
      delivered := s.delivered ++ [(FileBlockSource.nameBlock s.source.fileName bi, dump)] } := by
  obtain ⟨hname, name, hvalid, hplace, hpos⟩ := h.opened path hopen
  have hlast : lastName s.source.fileName = name := by
    rw [hname, hplace, lastName_getFullPath hvalid]
  have hkey : CroppedFileName.ofName s.source.fileName = ⟨name⟩ := by
    rw [CroppedFileName.ofName, hname, hplace, getBasename_getFullPath hvalid hpath]
  have hcontent : s.folder.contentAt path = s.folder.content name := by
    rw [Folder.contentAt, ← hname, hlast]
  rw [hcontent] at hread
  have hfrom : ∀ (source : FileBlockSource) (other : Bytes), deliveredFrom { s with
      source := source
      delivered := s.delivered ++ [(FileBlockSource.nameBlock s.source.fileName bi, dump)] } other =
        if name = other then s.deliveredFrom other ++ [dump] else s.deliveredFrom other := by
    intro source other
    rw [deliveredFrom_append]
    simp only [FileBlockSource.nameBlock, hlast]
  have hsize : next.toNat = (recordBytes (s.deliveredFrom name ++ [dump])).length := by
    rw [recordBytes_append, List.length_append, ← hpos, hread.next_eq, recordBytes,
      List.flatMap_singleton, blockRecord_length, Nat.add_assoc]
  refine ⟨?_, ?_, ?_⟩
  · intro path' hopen'
    obtain rfl : path = path' := Option.some.inj (hopen.symm.trans hopen')
    exact ⟨hname, name, hvalid, hplace, by rw [hfrom, if_pos rfl, hsize]⟩
  · intro other hother
    rw [hfrom]
    split_ifs with heq
    · obtain rfl := heq
      obtain ⟨rest, hrest⟩ := h.records name hvalid
      have hrecord := hread.record
      rw [StandsAt, hpos, ← hrest, List.drop_left] at hrecord
      show recordBytes (s.deliveredFrom name ++ [dump]) <+: s.folder.content name
      rw [recordBytes_append, ← hrest]
      refine (List.prefix_append_right_inj _).2 ?_
      rwa [recordBytes, List.flatMap_singleton]
    · exact h.records other hother
  · intro other hother
    have hrec := h.recorded other hother
    rw [hfrom]
    by_cases heq : name = other
    · obtain rfl := heq
      dsimp only
      rw [hkey, Finmap.lookup_insert]
      exact ⟨by rw [hname, hplace], by rw [hfrom, if_pos rfl]; exact hsize⟩
    · dsimp only
      have hne : (⟨other⟩ : CroppedFileName) ≠ ⟨name⟩ := by
        rintro ⟨⟩
        exact heq rfl
      rw [hkey, Finmap.lookup_insert_of_ne _ hne, if_neg heq]
      cases hlook : s.source.allFiles.lookup ⟨other⟩ with
      | none =>
        rw [hlook] at hrec
        exact hrec
      | some fi =>
        rw [hlook] at hrec
        exact ⟨hrec.1, by rw [hfrom, if_neg heq]; exact hrec.2⟩

theorem Inv.readNext (h : s.Inv) (hpath : s.folder.path ≠ lit "//") (M : Allocator) (L : Libs) :
    match s.source.readNext M L s.folder with
    | (.ok (some got), source) => Inv { s with source := source, delivered := s.delivered ++ [got] }
    | (_, source) => Inv { s with source := source } := by
  have hclose : Inv { s with source := { s.source with file := none, fileName := [] } } :=
    ⟨nofun, h.records, h.recorded⟩
  rw [FileBlockSource.readNext]
  cases hread : s.source.readBlock M L s.folder with
  | ok r =>
    obtain ⟨next, bi, dump⟩ := r
    dsimp only
    split_ifs with heq
    · exact hclose
    · rw [FileBlockSource.readBlock] at hread
      rcases Option.eq_none_or_eq_some s.source.file with hopen | ⟨path, hopen⟩
      · -- the position does not move if no file is open
        rw [hopen] at hread
        dsimp only [FileBlockSource.readClosedFile] at hread
        split_ifs at hread
        cases hread
        exact absurd rfl heq
      · rw [hopen] at hread
        exact h.readRecord hpath hopen
          (readNextBlockInfoFile_moved (s.folder.size_lt (lastName path)) hread heq)
  | throw e => exact h
  | undef u => exact h
  | outOfFuel => exact h

theorem Inv.process (h : s.Inv) (hpath : s.folder.path ≠ lit "//") (M : Allocator) (L : Libs)
    (opens : Bool) :
    match s.source.process M L s.folder opens with
    | (.ok (some got), source) => Inv { s with source := source, delivered := s.delivered ++ [got] }
    | (_, source) => Inv { s with source := source } := by
  have hopen := h.openNext hpath opens
  rw [FileBlockSource.process]
  generalize s.source.openNext s.folder opens = result at hopen ⊢
  obtain ⟨r, source⟩ := result
  cases r with
  | ok isOpen =>
    cases isOpen with
    | false => exact hopen
    | true => exact hopen.readNext hpath M L
  | throw e => exact hopen
  | undef u => exact hopen
  | outOfFuel => exact hopen

/-- The path of the folder stays, and the invariant with it. -/
theorem Inv.step {M : Allocator} {L : Libs} {s' : Reading} {action : ReadingAction} (h : s.Inv)
    (hpath : s.folder.path ≠ lit "//") (hstep : s.step M L action = some s') :
    s'.Inv ∧ s'.folder.path = s.folder.path := by
  cases action with
  | append name data =>
    obtain ⟨folder, hfolder, heq⟩ := Option.bind_eq_some_iff.1 hstep
    cases heq
    rw [Folder.append] at hfolder
    split_ifs at hfolder
    cases hfolder
    refine ⟨⟨h.opened, fun other hother => ?_, h.recorded⟩, rfl⟩
    refine (h.records other hother).trans ?_
    show s.folder.content other <+: fileContent (s.folder.files.insert name _) other
    by_cases heq : other = name
    · rw [heq, fileContent, Finmap.lookup_insert]
      exact List.prefix_append _ _
    · rw [fileContent, Finmap.lookup_insert_of_ne _ heq]
      exact List.prefix_rfl
  | process opens =>
    have hprocess := h.process hpath M L opens
    rw [Reading.step] at hstep
    generalize s.source.process M L s.folder opens = result at hprocess hstep
    obtain ⟨r, source⟩ := result
    cases r with
    | ok got =>
      cases got with
      | none => cases hstep; exact ⟨hprocess, rfl⟩
      | some got => cases hstep; exact ⟨hprocess, rfl⟩
    | throw e => cases hstep; exact ⟨hprocess, rfl⟩
    | undef u => cases hstep
    | outOfFuel => cases hstep
  | recreate leveldb =>
    rw [Reading.step, FileBlockSource.initializeFiles] at hstep
    cases hall : leveldb.getAllFiles with
    | ok allFiles =>
      rw [hall, ok_bind] at hstep
      dsimp only [pure_eq_ok] at hstep
      split_ifs at hstep with heq
      cases hstep
      refine ⟨⟨nofun, h.records, ?_⟩, rfl⟩
      rw [heq]
      exact h.recorded
    | throw e => rw [hall] at hstep; cases hstep
    | undef u => rw [hall] at hstep; cases hstep
    | outOfFuel => rw [hall] at hstep; cases hstep

end

/-- A source that has not read anything. -/
def start (folder : Folder) (isValidate : Bool) : Reading where
  folder := folder
  source := { isValidate := isValidate }

/-- **Every record is read once**, whole and in order, while the files grow, calls throw and the
    source is made again from the positions that are recorded. -/
theorem delivered_once {M : Allocator} {L : Libs} {folder : Folder} {isValidate : Bool}
    {actions : List ReadingAction} {s : Reading} (hpath : folder.path ≠ lit "//")
    (hrun : Machine.runs (step M L) (start folder isValidate) actions = some s) {name : Bytes}
    (hname : name ∈ s.folder.files) : s.ReadsOnce name := by
  have hstart : (start folder isValidate).Inv := by
    refine ⟨nofun, fun _ _ => List.nil_prefix, fun name _ => ?_⟩
    have hnone : (start folder isValidate).source.allFiles.lookup ⟨name⟩ = none :=
      Finmap.lookup_empty _
    rw [hnone]
    rfl
  have hinv : s.Inv ∧ s.folder.path ≠ lit "//" := by
    refine Machine.runs_invariant (P := fun s => s.Inv ∧ s.folder.path ≠ lit "//") ?_
      ⟨hstart, hpath⟩ hrun
    rintro s action s' ⟨h, hpath⟩ hstep
    obtain ⟨h', hpath'⟩ := h.step hpath hstep
    exact ⟨h', hpath' ▸ hpath⟩
  exact hinv.1.readsOnce (s.folder.name_valid name hname)

/-- Objects that are all placed at the beginning of the memory. -/
def zeroMemory : Allocator where
  addr _ := 0
  room := room_zero

/-- A folder without files. -/
def emptyFolder (path : Bytes) (hne : path ≠ []) : Folder where
  path := path
  files := ∅
  path_ne := hne
  name_valid name h := absurd h Finmap.notMem_empty
  size_lt name := by simp [fileContent]

/-- A record is written in two pieces, and `process` is called behind each of them and twice more. -/
def twoPieces : List ReadingAction :=
  [.append (lit "a.blk") ((blockRecord exactByte.bytes).take 100), .process true,
    .append (lit "a.blk") ((blockRecord exactByte.bytes).drop 100), .process true, .process true,
    .process true]

/-- The database with the position behind the record. -/
def behindRecord : LevelDb := (∅ : LevelDb).insert (filePrefix ++ lit "a.blk")
  (FileInfo.serialize { filePos := { pos := 122, fileName := lit "blocks/a.blk" } })

/-- The source is made again behind the record. -/
theorem delivered_once_twoPieces :
    ∃ s, Machine.runs (step zeroMemory sampleLibs) (start (emptyFolder (lit "blocks") (by decide)) false)
        (twoPieces ++ [.recreate behindRecord, .process true]) = some s ∧
      s.deliveredFrom (lit "a.blk") = [exactByte.bytes] ∧ s.ReadsOnce (lit "a.blk") := by
  have hrun : ((Machine.runs (step zeroMemory sampleLibs)
      (start (emptyFolder (lit "blocks") (by decide)) false)
        (twoPieces ++ [.recreate behindRecord, .process true])).map fun s =>
      (s.deliveredFrom (lit "a.blk"), (s.folder.files.lookup (lit "a.blk")).isSome)) =
        some ([exactByte.bytes], true) := by decide +kernel
  obtain ⟨s, hs, heq⟩ := Option.map_eq_some_iff.1 hrun
  obtain ⟨hfrom, hmem⟩ := Prod.ext_iff.1 heq
  exact ⟨s, hs, hfrom, delivered_once (by decide) hs (Finmap.lookup_isSome.1 hmem)⟩

/-- In the folder `//` the recorded position is not found, and the record is read again. -/
theorem delivered_twice :
    ¬ ∀ (M : Allocator) (L : Libs) (folder : Folder) (isValidate : Bool)
      (actions : List ReadingAction) (s : Reading),
      Machine.runs (step M L) (start folder isValidate) actions = some s →
        ∀ name ∈ s.folder.files, s.ReadsOnce name := by
  intro h
  have hrun : ((Machine.runs (step zeroMemory sampleLibs)
      (start (emptyFolder (lit "//") (by decide)) false) twoPieces).map fun s =>
      ((s.deliveredFrom (lit "a.blk")).length, s.folder.content (lit "a.blk"),
        (s.folder.files.lookup (lit "a.blk")).isSome)) =
        some (2, blockRecord exactByte.bytes ++ [], true) := by decide +kernel
  obtain ⟨s, hs, heq⟩ := Option.map_eq_some_iff.1 hrun
  obtain ⟨hfrom, heq⟩ := Prod.ext_iff.1 heq
  obtain ⟨hcontent, hmem⟩ := Prod.ext_iff.1 heq
  obtain ⟨k, -, htake, -⟩ := h _ _ _ _ _ s hs _ (Finmap.lookup_isSome.1 hmem)
  -- there is one record
  dsimp only at hfrom hcontent
  rw [htake, hcontent, completeRecords_record (by decide +kernel), completeRecords, if_neg (by simp),
    List.length_take, List.length_singleton] at hfrom
  omega

end Reading

end TorrentNode
