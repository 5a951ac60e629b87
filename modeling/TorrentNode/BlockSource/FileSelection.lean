/-
  Which file is read next (`getNextFile`, `FileBlockSource::process`).

  `getNextFile` takes the first file, in the order of the names, that is longer than
  the position recorded for it; `process` needs a complete record at this position.
  If the file ends in a part of a record, it is taken again in every call, and the
  files behind it are not read.

  `process_delivers_iff`: a source that has stopped goes on, with the files as they
  are, exactly if the first file with unread bytes has a record at its position.
-/
import TorrentNode.BlockSource.FileBlockSource

open Wire Exec

namespace TorrentNode

section
variable (allFiles : Finmap fun _ : CroppedFileName => FileInfo) (folder : Folder)

/-- The file and the position in it that are recorded under a base name. -/
def recordedInfo (file : Bytes) : FileInfo :=
  (allFiles.lookup ⟨file⟩).getD { filePos := { fileName := getFullPath file folder.path, pos := 0 } }

/-- There is no position for the file, or the file is longer. -/
def HasUnread (file : Bytes) : Prop :=
  ∀ fi, allFiles.lookup ⟨file⟩ = some fi →
    fi.filePos.pos.toNat < (folder.contentAt (getFullPath file folder.path)).length

instance (file : Bytes) : Decidable (HasUnread allFiles folder file) :=
  decidable_of_iff ((allFiles.lookup ⟨file⟩).all fun fi =>
    fi.filePos.pos.toNat < (folder.contentAt (getFullPath file folder.path)).length) (by
      rw [HasUnread]
      cases allFiles.lookup ⟨file⟩ with
      | none => simp
      | some fi => simp)

/-- The first file with unread bytes, in the order of the names. -/
def firstUnread : Option Bytes :=
  (folder.blkNames.sort (· ≤ ·)).find? fun file => HasUnread allFiles folder file

/-- A complete record that can be parsed is at the recorded position of a file. -/
def RecordThere (M : Allocator) (L : Libs) (isValidate : Bool) (fi : FileInfo) : Prop :=
  fi.filePos.fileName ≠ [] ∧ ∃ next bi dump,
    readNextBlockInfoFile M L (folder.contentAt fi.filePos.fileName) fi.filePos.pos
      ⟨0, isValidate, false, 0, 0⟩ = .ok (next, bi, dump) ∧ next ≠ fi.filePos.pos

variable {allFiles folder}

/-- `getNextFile` takes the first file with unread bytes. -/
theorem getNextFile_eq : getNextFile allFiles folder =
    match firstUnread allFiles folder with
    | some file => recordedInfo allFiles folder file
    | none => {} := by
  rw [getNextFile, firstUnread]
  induction folder.blkNames.sort (· ≤ ·) with
  | nil => rfl
  | cons file files ih =>
    rw [nextFile, List.find?_cons]
    cases hlook : allFiles.lookup ⟨file⟩ with
    | none =>
      have hunread : HasUnread allFiles folder file := by
        intro fi hfi
        rw [hlook] at hfi
        cases hfi
      simp [hunread, recordedInfo, hlook]
    | some fi =>
      have hiff : HasUnread allFiles folder file ↔
          fi.filePos.pos.toNat < (folder.contentAt (getFullPath file folder.path)).length := by
        simp [HasUnread, hlook]
      by_cases hlt : fi.filePos.pos.toNat < (folder.contentAt (getFullPath file folder.path)).length
      · simp [hiff, hlt, recordedInfo, hlook]
      · simpa [hiff, hlt] using ih

end

namespace FileBlockSource

section
variable (M : Allocator) (L : Libs) (folder : Folder)

/-- The source after `k` calls of `process` that find the files as they are. -/
def afterCalls (k : ℕ) (s : FileBlockSource) : FileBlockSource :=
  (fun s => (s.process M L folder true).2)^[k] s

variable {M L folder}

/-- A call that returns false leaves no file open. -/
theorem process_false {s s' : FileBlockSource} {opens : Bool}
    (h : s.process M L folder opens = (.ok none, s')) : s'.fileName = [] := by
  rw [process] at h
  cases hopen : s.openNext folder opens with
  | mk r source =>
    rw [hopen] at h
    cases r with
    | ok isOpen =>
      cases isOpen with
      | false =>
        cases h
        rw [openNext] at hopen
        split_ifs at hopen with hclosed hopens
        · dsimp only at hopen
          split_ifs at hopen with hname
          · cases hopen
            exact hname
          · cases hopen
        · dsimp only at hopen
          split_ifs at hopen with hname
          · cases hopen
            exact hname
          · cases hopen
        · cases hopen
      | true =>
        dsimp only [readNext] at h
        split at h
        · split_ifs at h
          · cases h
            rfl
          · cases h
        · rename_i r hne
          cases hr : source.readBlock M L folder with
          | ok r => exact absurd hr (hne _ _ _)
          | throw e => rw [hr] at h; cases h
          | undef u => rw [hr] at h; cases h
          | outOfFuel => rw [hr] at h; cases h
    | throw e => cases h
    | undef u => cases h
    | outOfFuel => cases h

/-- The source with a file open at its recorded position. -/
def openedAt (s : FileBlockSource) (fi : FileInfo) : FileBlockSource :=
  { s with fileName := fi.filePos.fileName, file := some fi.filePos.fileName, currPos := fi.filePos.pos }

theorem process_closed {s : FileBlockSource} (h : s.fileName = []) :
    s.process M L folder true =
      if (getNextFile s.allFiles folder).filePos.fileName = [] then (.ok none, s)
      else (s.openedAt (getNextFile s.allFiles folder)).readNext M L folder := by
  rw [process, openNext, if_pos h]
  dsimp only
  by_cases hname : (getNextFile s.allFiles folder).filePos.fileName = []
  · simp [hname, ← h]
  · simp only [hname, if_true, if_false]
    rfl

theorem process_opened {s : FileBlockSource} {fi : FileInfo} (h : fi.filePos.fileName ≠ []) :
    (s.openedAt fi).process M L folder true = (s.openedAt fi).readNext M L folder := by
  have hname : (s.openedAt fi).fileName ≠ [] := h
  rw [process, openNext, if_neg hname]

/-- A record at the position is delivered. -/
theorem readNext_record {s : FileBlockSource} {fi : FileInfo}
    (h : RecordThere folder M L s.isValidate fi) :
    ∃ got, ((s.openedAt fi).readNext M L folder).1 = .ok (some got) := by
  obtain ⟨-, next, bi, dump, hread, hne⟩ := h
  have hblock : (s.openedAt fi).readBlock M L folder = .ok (next, bi, dump) := hread
  have hmoved : next ≠ (s.openedAt fi).currPos := hne
  rw [readNext, hblock]
  dsimp only
  rw [if_neg hmoved]
  exact ⟨_, rfl⟩

/-- Without a record nothing is delivered, and the file is closed, or read again. -/
theorem readNext_no_record {s : FileBlockSource} {fi : FileInfo} (hname : fi.filePos.fileName ≠ [])
    (h : ¬ RecordThere folder M L s.isValidate fi) :
    (∀ got, ((s.openedAt fi).readNext M L folder).1 ≠ .ok (some got)) ∧
      (((s.openedAt fi).readNext M L folder).2 = s.openedAt fi ∨
        ((s.openedAt fi).readNext M L folder).2 = { s.openedAt fi with file := none, fileName := [] }) := by
  rw [readNext]
  cases hread : (s.openedAt fi).readBlock M L folder with
  | ok r =>
    obtain ⟨next, bi, dump⟩ := r
    dsimp only
    split_ifs with heq
    · refine ⟨fun got hgot => ?_, Or.inr rfl⟩
      cases hgot
    · exact absurd ⟨hname, next, bi, dump, hread, heq⟩ h
  | throw e =>
    refine ⟨fun got hgot => ?_, Or.inl rfl⟩
    cases hgot
  | undef u =>
    refine ⟨fun got hgot => ?_, Or.inl rfl⟩
    cases hgot
  | outOfFuel =>
    refine ⟨fun got hgot => ?_, Or.inl rfl⟩
    cases hgot

/-- The source `s` before a file is taken, or with the file of `fi` open. -/
def Waits (s : FileBlockSource) (fi : FileInfo) (t : FileBlockSource) : Prop :=
  t.allFiles = s.allFiles ∧ t.isValidate = s.isValidate ∧
    (t.fileName = [] ∨ fi.filePos.fileName ≠ [] ∧ ∃ t' : FileBlockSource, t = t'.openedAt fi)

/-- **A file without a record is taken again** in every call. -/
theorem process_waits {s t : FileBlockSource}
    (h : ¬ RecordThere folder M L s.isValidate (getNextFile s.allFiles folder))
    (ht : s.Waits (getNextFile s.allFiles folder) t) :
    (∀ got, (t.process M L folder true).1 ≠ .ok (some got)) ∧
      s.Waits (getNextFile s.allFiles folder) (t.process M L folder true).2 := by
  obtain ⟨hall, hvalidate, ht⟩ := ht
  have hread : ∀ t' : FileBlockSource, t'.allFiles = s.allFiles → t'.isValidate = s.isValidate →
      (getNextFile s.allFiles folder).filePos.fileName ≠ [] →
      (∀ got, ((t'.openedAt (getNextFile s.allFiles folder)).readNext M L folder).1 ≠ .ok (some got)) ∧
        s.Waits (getNextFile s.allFiles folder)
          ((t'.openedAt (getNextFile s.allFiles folder)).readNext M L folder).2 := by
    intro t' hall hvalidate hname
    rw [← hvalidate] at h
    obtain ⟨hno, hrest | hrest⟩ := readNext_no_record hname h
    · exact ⟨hno, by rw [hrest]; exact ⟨hall, hvalidate, Or.inr ⟨hname, t', rfl⟩⟩⟩
    · exact ⟨hno, by rw [hrest]; exact ⟨hall, hvalidate, Or.inl rfl⟩⟩
  rcases ht with hclosed | ⟨hname, t', rfl⟩
  · rw [process_closed hclosed, hall]
    split_ifs with hname
    · exact ⟨nofun, hall, hvalidate, Or.inl hclosed⟩
    · exact hread t hall hvalidate hname
  · rw [process_opened hname]
    exact hread t' hall hvalidate hname

/-- What is asked of a source that has stopped: if some file has a record at its position, then one of
    the next calls returns true, and there are no more calls needed than there are files. -/
def GoesOn (M : Allocator) (L : Libs) (folder : Folder) (s : FileBlockSource) : Prop :=
  (∃ file ∈ folder.blkNames, RecordThere folder M L s.isValidate (recordedInfo s.allFiles folder file)) →
    ∃ i < folder.blkNames.card, ∃ got, ((s.afterCalls M L folder i).process M L folder true).1 =
      .ok (some got)

/-- **When the source goes on.**  A call has returned false, and some file has a record to read.  One
    of the next calls delivers a record exactly if the first file with unread bytes has one. -/
theorem process_delivers_iff {M : Allocator} {L : Libs} {folder : Folder} {s₀ s : FileBlockSource}
    {opens : Bool} (hfalse : s₀.process M L folder opens = (.ok none, s)) :
    s.GoesOn M L folder ↔
      ((∃ file ∈ folder.blkNames,
        RecordThere folder M L s.isValidate (recordedInfo s.allFiles folder file)) →
      ∃ file, firstUnread s.allFiles folder = some file ∧
        RecordThere folder M L s.isValidate (recordedInfo s.allFiles folder file)) := by
  have hclosed := process_false hfalse
  refine forall_congr' fun hunread => ⟨?_, ?_⟩
  · rintro ⟨i, -, got, hgot⟩
    by_contra hno
    have hnext : ¬ RecordThere folder M L s.isValidate (getNextFile s.allFiles folder) := by
      intro hrec
      rw [getNextFile_eq] at hrec
      cases hfirst : firstUnread s.allFiles folder with
      | none =>
        rw [hfirst] at hrec
        exact hrec.1 rfl
      | some file =>
        rw [hfirst] at hrec
        exact hno ⟨file, hfirst, hrec⟩
    have hwaits : s.Waits (getNextFile s.allFiles folder) (s.afterCalls M L folder i) := by
      clear hgot
      induction i with
      | zero => exact ⟨rfl, rfl, Or.inl hclosed⟩
      | succ i ih =>
        rw [afterCalls, Function.iterate_succ_apply']
        exact (process_waits hnext ih).2
    exact (process_waits hnext hwaits).1 got hgot
  · rintro ⟨file, hfirst, hrec⟩
    obtain ⟨other, hother, -⟩ := hunread
    refine ⟨0, Finset.card_pos.2 ⟨other, hother⟩, ?_⟩
    have hnext : getNextFile s.allFiles folder = recordedInfo s.allFiles folder file := by
      rw [getNextFile_eq, hfirst]
    show ∃ got, (s.process M L folder true).1 = .ok (some got)
    rw [process_closed hclosed, hnext, if_neg hrec.1]
    exact readNext_record hrec

end

/-- A folder with the files `a.blk` and `b.blk`; the second one holds a record. -/
def twoFiles (a : Bytes) : Folder :=
  (((Reading.emptyFolder (lit "blocks") (by decide)).append (lit "a.blk") a).bind fun folder =>
    folder.append (lit "b.blk") (blockRecord exactByte.bytes)).getD
      (Reading.emptyFolder (lit "blocks") (by decide))

theorem sort_twoFiles {a : Bytes} (h : (twoFiles a).blkNames = insert (lit "a.blk") {lit "b.blk"}) :
    (twoFiles a).blkNames.sort (· ≤ ·) = [lit "a.blk", lit "b.blk"] := by
  rw [h, Finset.sort_insert _ (by decide +kernel) (by decide +kernel), Finset.sort_singleton]

theorem recordThere_twoFiles {a : Bytes} {fi : FileInfo} (hname : fi.filePos.fileName ≠ [])
    (h : (readNextBlockInfoFile Reading.zeroMemory sampleLibs
      ((twoFiles a).contentAt fi.filePos.fileName) fi.filePos.pos ⟨0, false, false, 0, 0⟩ >>= fun r =>
        .ok (decide (r.1 ≠ fi.filePos.pos))) = .ok true) :
    RecordThere (twoFiles a) Reading.zeroMemory sampleLibs false fi := by
  obtain ⟨⟨next, bi, dump⟩, hread, hne⟩ := bind_eq_ok.1 h
  exact ⟨hname, next, bi, dump, hread, of_decide_eq_true (Exec.ok.inj hne)⟩

/-- The source behind the record of `a.blk`. -/
def behindFirst : FileBlockSource where
  isValidate := false
  allFiles := (∅ : Finmap fun _ : CroppedFileName => FileInfo).insert ⟨lit "a.blk"⟩
    { filePos := { pos := 122, fileName := lit "blocks/a.blk" } }
  currPos := 122
  file := some (lit "blocks/a.blk")
  fileName := lit "blocks/a.blk"

/-- The first file is read to its end. -/
theorem process_delivers_behindFirst : GoesOn Reading.zeroMemory sampleLibs
    (twoFiles (blockRecord exactByte.bytes)) { behindFirst with file := none, fileName := [] } := by
  have hfalse : behindFirst.process Reading.zeroMemory sampleLibs
      (twoFiles (blockRecord exactByte.bytes)) true =
        (.ok none, { behindFirst with file := none, fileName := [] }) := by decide +kernel
  refine (process_delivers_iff hfalse).2 fun _ => ⟨lit "b.blk", ?_, ?_⟩
  · rw [firstUnread, sort_twoFiles (by decide +kernel)]
    decide +kernel
  · exact recordThere_twoFiles (by decide +kernel) (by decide +kernel)

/-- The file `a.blk` ends in a part of a record, and `b.blk` is not read. -/
theorem process_stops_at_part :
    ¬ ∀ (M : Allocator) (L : Libs) (folder : Folder) (s₀ s : FileBlockSource) (opens : Bool),
      s₀.process M L folder opens = (.ok none, s) → s.GoesOn M L folder := by
  intro h
  have hnext : getNextFile ∅ (twoFiles (List.replicate 10 0)) =
      { filePos := { fileName := lit "blocks/a.blk", pos := 0 } } := by
    rw [getNextFile, sort_twoFiles (by decide +kernel)]
    decide +kernel
  have hfalse : (⟨false, ∅, 0, none, []⟩ : FileBlockSource).process Reading.zeroMemory sampleLibs
      (twoFiles (List.replicate 10 0)) true = (.ok none, ⟨false, ∅, 0, none, []⟩) := by
    rw [process_closed rfl, hnext]
    decide +kernel
  have hrec : RecordThere (twoFiles (List.replicate 10 0)) Reading.zeroMemory sampleLibs false
      (recordedInfo ∅ (twoFiles (List.replicate 10 0)) (lit "b.blk")) :=
    recordThere_twoFiles (by decide +kernel) (by decide +kernel)
  obtain ⟨i, -, got, hgot⟩ := h _ _ _ _ _ true hfalse ⟨lit "b.blk", by decide +kernel, hrec⟩
  have hsame : (⟨false, ∅, 0, none, []⟩ : FileBlockSource).afterCalls Reading.zeroMemory sampleLibs
      (twoFiles (List.replicate 10 0)) i = ⟨false, ∅, 0, none, []⟩ :=
    Function.iterate_fixed (by rw [hfalse]) i
  rw [hsame, hfalse] at hgot
  cases hgot

end FileBlockSource

end TorrentNode
