/-
  Reading block files (`BlockchainRead.cpp`).

  Three readers work on a block file: `getBlockDump` reads a range of a dump,
  `readNextBlockInfo` a whole block, and `readOneTransactionInfo` a transaction
  from a buffer that is longer than it, with zeros behind the end of the file.

  `RecordAt file pos dump`: the record of `dump` stands at `pos`.  There the three
  readers return what the parser returns from the dump in memory
  (`RecordAt.readNextBlockInfoFile_eq`, `RecordAt.readOneTransactionInfo_eq`).
-/
import TorrentNode.BlockchainRead.Shift

open Wire Exec

namespace TorrentNode

/-! ## Memory -/

/-- The addresses of new objects; there is room for every object that is not too long. -/
structure Allocator where
  addr : ℕ → ℕ
  room : ∀ n, n < 2 ^ 63 → addr n + n ≤ 2 ^ 63

/-- There is room at the beginning of the memory. -/
theorem room_zero (n : ℕ) (h : n < 2 ^ 63) : 0 + n ≤ 2 ^ 63 := by omega

/-- A new object with these bytes. -/
def Allocator.vector (M : Allocator) (bytes : Bytes) : Exec Exn Buf :=
  if h : bytes.length < 2 ^ 63 then .ok ⟨M.addr bytes.length, bytes, M.room _ h⟩
  else .throw (.std "cannot create std::vector larger than max_size()")

/-- The part of an object behind its first `k` bytes. -/
def behind (b : Buf) (k : ℕ) : Buf where
  beginPos := b.beginPos + min k b.bytes.length
  bytes := b.bytes.drop k
  inUserSpace := by
    have := b.inUserSpace
    rw [List.length_drop]
    omega

/-! ## Readers -/

section
variable (M : Allocator) (L : Libs)

/-- `readBlockHeader(begin_pos, end_pos, bi)`. -/
def readBlockHeader (b : Buf) (bi : BlockHeader) : Exec Exn BlockHeader := do
  let (blockSize, _) ← readInt b 8 b.beginPos b.endPos
  readBlockHeaderWithoutSize (behind b 8) L { bi with blockSize := UInt64.ofNat blockSize }

/-- `readBlockHeader(ifile, currPos, f_size, bi)`: whether there is a header, and `bi`. -/
def readBlockHeaderFile (file : Bytes) (currPos : UInt64) (bi : BlockHeader) :
    Exec Exn (Bool × BlockHeader) := do
  if file.length ≤ currPos.toNat then return (false, bi)
  else if blockHeaderSize ≤ file.length - currPos.toNat then
    seekFile currPos.toNat
    let fhBuff ← M.vector (readFile file currPos.toNat blockHeaderSize)
    let bi ← readBlockHeader L fhBuff { bi with filePos := { bi.filePos with pos := currPos } }
    return (true, bi)
  else return (false, bi)

/-- `readNextBlockInfo(ifile, currPos, bi, blockDump, isValidate, isSaveAllTx, beginTx, countTx)`: the
    new position, `bi` and `blockDump`; the position in the options is not used. -/
def readNextBlockInfoFile (file : Bytes) (currPos : UInt64) (o : ReadOptions) :
    Exec Exn (UInt64 × BlockInfo × Bytes) := do
  let (res, header) ← readBlockHeaderFile M L file currPos {}
  if !res then return (currPos, { header := header }, [])
  else if file.length - currPos.toNat < (header.blockSize + 8).toNat then
    return (currPos, { header := header }, [])
  else
    let bSize := header.blockSize.toNat
    Exec.check (bSize ≤ maxSize) (.std "basic_string::_M_create")
    seekFile (currPos + 8).toNat
    let blockDump ← M.vector (readFile file (currPos + 8).toNat bSize)
    let bi ← readBlockTxs blockDump L { o with posInFile := currPos } header
    let currPos := currPos + (bi.header.blockSize + 8)
    return (currPos, { bi with header := { bi.header with endBlockPos := currPos } }, blockDump.bytes)

/-- `getSizeTransaction(ifile)`. -/
def getSizeTransaction (file : Bytes) (pos : ℕ) : Exec Exn ℕ := do
  let fhBuff ← M.vector (readFile file pos 9)
  let (sizeTx, _) ← readVarInt fhBuff fhBuff.beginPos fhBuff.endPos
  return sizeTx

/-- `readOneTransactionInfo(ifile, currPos, txInfo, isSaveAllTx)`: whether there is a transaction, and
    `txInfo`. -/
def readOneTransactionInfo (file : Bytes) (currPos : UInt64) (txInfo : TransactionInfo)
    (isSaveAllTx : Bool) : Exec Exn (Bool × TransactionInfo) := do
  if file.length ≤ currPos.toNat then return (false, txInfo)
  else if 8 ≤ file.length - currPos.toNat then
    seekFile currPos.toNat
    let sizeTx ← getSizeTransaction M file currPos.toNat
    let fhBuff ← M.vector (readFile file currPos.toNat ((sizeTx + 16) % 2 ^ 64))
    let (_, _, txInfo) ← readTransactionInfo fhBuff L fhBuff.beginPos fhBuff.endPos txInfo true
      isSaveAllTx {} false
    return (true, txInfo)
  else return (false, txInfo)

end

/-! ## Reading from a file -/

theorem Allocator.vector_eq (M : Allocator) {bytes : Bytes} (hlt : bytes.length < 2 ^ 63) :
    M.vector bytes = .ok ⟨M.addr bytes.length, bytes, M.room _ hlt⟩ := dif_pos hlt

theorem readFile_length (file : Bytes) (pos n : ℕ) : (readFile file pos n).length = n := by
  have hle : (slice file pos n).length ≤ n := by
    rw [slice, List.length_take]
    omega
  rw [readFile, List.length_append, List.length_replicate]
  omega

theorem readFile_eq {file : Bytes} {pos n : ℕ} (h : pos + n ≤ file.length) :
    readFile file pos n = slice file pos n := by
  simp [readFile, slice_length h]

/-- The beginning of what was read lies in the file. -/
theorem slice_readFile {file : Bytes} {pos n k : ℕ} (hk : k ≤ n) (h : pos + k ≤ file.length) :
    slice (readFile file pos n) 0 k = slice file pos k := by
  have hlen : k ≤ (slice file pos n).length := by
    rw [slice, List.length_take, List.length_drop]
    omega
  show (readFile file pos n).take k = _
  rw [readFile, List.take_append_of_le_length hlen, slice, slice, List.take_take, Nat.min_eq_left hk]

/-- The header at a position of a file that is long enough behind it. -/
theorem readBlockHeaderFile_at (M : Allocator) (L : Libs) {file : Bytes} {pos : UInt64}
    (hle : pos.toNat + 88 ≤ file.length) (hlt : file.length < 2 ^ 63) (bi : BlockHeader) :
    readBlockHeaderFile M L file pos bi = .ok (true, { bi with
      blockSize := UInt64.ofNat (leNat (slice file pos.toNat 8))
      filePos := { bi.filePos with pos := pos }
      blockType := UInt64.ofNat (leNat (slice file (pos.toNat + 8) 8))
      timestamp := UInt64.ofNat (leNat (slice file (pos.toNat + 16) 8))
      prevHash := L.support.toHex (slice file (pos.toNat + 24) 32)
      txsHash := L.support.toHex (slice file (pos.toNat + 56) 32) }) := by
  have hbytes : readFile file pos.toNat blockHeaderSize = slice file pos.toNat 88 := readFile_eq hle
  have hlen : (slice file pos.toNat 88).length = 88 := slice_length hle
  obtain ⟨fhBuff, hfh⟩ : ∃ fhBuff : Buf, M.vector (slice file pos.toNat 88) = .ok fhBuff ∧
      fhBuff.bytes = slice file pos.toNat 88 := ⟨_, M.vector_eq (by omega), rfl⟩
  have hend : fhBuff.endPos = fhBuff.beginPos + 88 := by rw [Buf.endPos, hfh.2, hlen]
  have h63 := endPos_le fhBuff
  have hsize : readInt fhBuff 8 fhBuff.beginPos fhBuff.endPos =
      .ok (leNat (slice file pos.toNat 8), fhBuff.beginPos + 8) := by
    rw [readInt, advance_eq (by omega), check_of (by omega), ok_bind,
      fhBuff.load_inside ⟨le_rfl, by omega⟩, ok_bind, Nat.sub_self, hfh.2,
      slice_slice file (show 0 + 8 ≤ 88 by omega)]
    rfl
  have hrest : (behind fhBuff 8).bytes = slice file (pos.toNat + 8) 80 := by
    show fhBuff.bytes.drop 8 = _
    rw [hfh.2, slice, List.drop_take, List.drop_drop]
    rfl
  rw [readBlockHeaderFile, if_neg (by omega), if_pos (by rw [blockHeaderSize]; omega), seekFile,
    check_of (Or.inl (by omega)), ok_bind, hbytes, hfh.1, ok_bind, readBlockHeader, hsize, ok_bind]
  dsimp only
  rw [readBlockHeaderWithoutSize_eq (by rw [hrest, slice_length (by omega)]), hrest]
  simp only [slice_slice file (show 0 + 8 ≤ 80 by omega), slice_slice file (show 8 + 8 ≤ 80 by omega),
    slice_slice file (show 16 + 32 ≤ 80 by omega), slice_slice file (show 48 + 32 ≤ 80 by omega),
    Nat.add_assoc, Nat.reduceAdd, ok_bind, pure_eq_ok]

/-! ## Records -/

/-- The transactions leave the place of the block as it is. -/
theorem readBlockTxs_place {b : Buf} {L : Libs} {o : ReadOptions} {header : BlockHeader}
    {bi : BlockInfo} (h : readBlockTxs b L o header = .ok bi) :
    bi.header.blockSize = header.blockSize ∧ bi.header.filePos = header.filePos := by
  obtain ⟨dump, -, h⟩ := bind_eq_ok.1 h
  obtain ⟨loop, -, h⟩ := bind_eq_ok.1 h
  obtain ⟨signature, -, h⟩ := bind_eq_ok.1 h
  cases h
  dsimp only
  split_ifs
  · exact ⟨rfl, rfl⟩
  · exact ⟨rfl, rfl⟩

/-- What `readNextBlockInfo` has read from a file when it moves the position: the record at the old
    position is complete, and the new one is behind it. -/
structure ReadRecord (file : Bytes) (pos next : UInt64) (bi : BlockInfo) (dump : Bytes) : Prop where
  record : StandsAt file pos.toNat (blockRecord dump)
  next_eq : next.toNat = pos.toNat + 8 + dump.length
  filePos : bi.header.filePos = { pos := pos }
  blockSize : bi.header.blockSize.toNat = dump.length
  endBlockPos : bi.header.endBlockPos = next

/-- **Only complete records are read**, as the size in front of the dump is read whole. -/
theorem readNextBlockInfoFile_moved {M : Allocator} {L : Libs} {file : Bytes} {pos next : UInt64}
    {o : ReadOptions} {bi : BlockInfo} {dump : Bytes} (hlt : file.length < 2 ^ 63)
    (h : readNextBlockInfoFile M L file pos o = .ok (next, bi, dump)) (hne : next ≠ pos) :
    ReadRecord file pos next bi dump := by
  by_cases hle : pos.toNat + 88 ≤ file.length
  · rw [readNextBlockInfoFile, readBlockHeaderFile_at M L hle hlt, ok_bind] at h
    generalize hn : leNat (slice file pos.toNat 8) = n at h
    have hsize : leBytes 8 n = slice file pos.toNat 8 := by
      have hback := leBytes_leNat (slice file pos.toNat 8)
      rwa [slice_length (by omega), hn] at hback
    have hn64 : n < 2 ^ 64 := by
      have hlt := leNat_lt (slice file pos.toNat 8)
      rwa [slice_length (by omega), hn] at hlt
    dsimp only at h
    rw [if_neg (by simp)] at h
    split_ifs at h with hshort
    · cases h
      exact absurd rfl hne
    · rw [UInt64.toNat_ofNat_of_lt' hn64] at h
      obtain ⟨_, hmax, h⟩ := bind_eq_ok.1 h
      have hn63 : n ≤ maxSize := by
        by_contra hmax'
        rw [Exec.check_neg hmax'] at hmax
        cases hmax
      rw [maxSize] at hn63
      have hplus : (UInt64.ofNat n + 8).toNat = n + 8 := by
        rw [UInt64.toNat_add, UInt64.toNat_ofNat_of_lt' hn64]
        show (n + 8) % 2 ^ 64 = _
        omega
      have hdumpPos : (pos + 8).toNat = pos.toNat + 8 := by
        rw [UInt64.toNat_add]
        show (pos.toNat + 8) % 2 ^ 64 = _
        omega
      rw [hplus] at hshort
      have hlen : (slice file (pos.toNat + 8) n).length = n := slice_length (by omega)
      obtain ⟨blockDump, hdump⟩ : ∃ blockDump : Buf, M.vector (slice file (pos.toNat + 8) n) =
          .ok blockDump ∧ blockDump.bytes = slice file (pos.toNat + 8) n :=
        ⟨_, M.vector_eq (by omega), rfl⟩
      rw [hdumpPos, seekFile, check_of (Or.inl (by omega)), ok_bind, readFile_eq (by omega), hdump.1,
        ok_bind] at h
      obtain ⟨bi', htxs, h⟩ := bind_eq_ok.1 h
      obtain ⟨hbs, hfp⟩ := readBlockTxs_place htxs
      rw [hdump.2] at h
      cases h
      refine ⟨?_, ?_, hfp, ?_, rfl⟩
      · rw [blockRecord, hlen, hsize, standsAt_append, slice_length (by omega)]
        exact ⟨List.take_prefix _ _, List.take_prefix _ _⟩
      · rw [hbs, hlen, UInt64.toNat_add, hplus]
        omega
      · rw [hlen]
        show bi'.header.blockSize.toNat = n
        rw [hbs, UInt64.toNat_ofNat_of_lt' hn64]
  · -- there is no header yet
    have hfalse : readBlockHeaderFile M L file pos {} = .ok (false, {}) := by
      rw [readBlockHeaderFile]
      split_ifs with h1 h2
      · rfl
      · rw [blockHeaderSize] at h2
        omega
      · rfl
    rw [readNextBlockInfoFile, hfalse, ok_bind] at h
    cases h
    exact absurd rfl hne

/-- The record of a dump stands at a position of a block file. -/
structure RecordAt (file : Bytes) (pos : UInt64) (dump : Bytes) : Prop where
  record : StandsAt file pos.toNat (blockRecord dump)
  header_le : 80 ≤ dump.length
  file_lt : file.length < 2 ^ 63

namespace RecordAt

variable {file dump : Bytes} {pos : UInt64} (h : RecordAt file pos dump)
include h

theorem end_le : pos.toNat + 8 + dump.length ≤ file.length := by
  have hlen : (blockRecord dump).length = 8 + dump.length := by simp [blockRecord]
  have := h.record.le_length (List.ne_nil_of_length_pos (by omega))
  omega

/-- The dump behind its size. -/
theorem dump_at : StandsAt file (pos.toNat + 8) dump := by
  have hrec := h.record
  rw [blockRecord, standsAt_append, leBytes_length] at hrec
  exact hrec.2

theorem size_at : slice file pos.toNat 8 = leBytes 8 dump.length := by
  have hrec := h.record
  rw [blockRecord, standsAt_append] at hrec
  have hs := hrec.1.slice_eq
  rwa [leBytes_length] at hs

theorem length_lt : dump.length < 2 ^ 63 := by
  have := h.end_le
  have := h.file_lt
  omega

/-- The size in front of the dump. -/
theorem size_eq : leNat ((readFile file pos.toNat blockHeaderSize).take 8) = dump.length := by
  have hend := h.end_le
  have hhead := h.header_le
  have hlt := h.length_lt
  have htake := slice_readFile (show 8 ≤ blockHeaderSize by decide)
    (show pos.toNat + 8 ≤ file.length by omega)
  rw [h.size_at] at htake
  rw [show (readFile file pos.toNat blockHeaderSize).take 8 = leBytes 8 dump.length from htake,
    leNat_leBytes_of_lt (by omega)]

/-- A range that begins behind the block. -/
theorem getBlockDump_behind {fromByte : UInt64} (hfrom : dump.length ≤ fromByte.toNat)
    (toByte : UInt64) : getBlockDump file pos fromByte toByte = .ok (0, []) := by
  have hend := h.end_le
  have hhead := h.header_le
  have hlt := h.file_lt
  rw [getBlockDump, if_neg (by omega), if_pos (by rw [blockHeaderSize]; omega), seekFile,
    check_of (Or.inl (by omega)), ok_bind]
  dsimp only
  rw [h.size_eq, if_pos hfrom]
  rfl

/-- A range that begins in the block is clamped to it, and must not be negative. -/
theorem getBlockDump_inside {fromByte toByte : UInt64} (hfrom : fromByte.toNat < dump.length) :
    getBlockDump file pos fromByte toByte =
      if fromByte.toNat ≤ min toByte.toNat dump.length then
        .ok (dump.length, slice dump fromByte.toNat (min toByte.toNat dump.length - fromByte.toNat))
      else .throw (.std "basic_string::_M_create") := by
  have hend := h.end_le
  have hhead := h.header_le
  have hlt := h.file_lt
  have hto : (if dump.length < toByte.toNat then UInt64.ofNat dump.length else toByte).toNat =
      min toByte.toNat dump.length := by
    split_ifs
    · rw [UInt64.toNat_ofNat_of_lt' (by show dump.length < 2 ^ 64; omega)]; omega
    · omega
  have hpos : (pos + 8 + fromByte).toNat = pos.toNat + 8 + fromByte.toNat := by
    rw [UInt64.toNat_add, UInt64.toNat_add]
    show ((pos.toNat + 8) % 2 ^ 64 + fromByte.toNat) % 2 ^ 64 = _
    omega
  rw [getBlockDump, if_neg (by omega), if_pos (by rw [blockHeaderSize]; omega), seekFile,
    check_of (Or.inl (by omega)), ok_bind]
  dsimp only
  rw [h.size_eq, if_neg (by omega), UInt64.toNat_sub, hto, hpos]
  split_ifs with hle
  · have hsize : (2 ^ 64 - fromByte.toNat + min toByte.toNat dump.length) % 2 ^ 64 =
        min toByte.toNat dump.length - fromByte.toNat := by omega
    rw [hsize, Exec.check_pos (by rw [maxSize]; omega), ok_bind, seekFile,
      check_of (Or.inl (by omega)), ok_bind, readFile_eq (by omega),
      h.dump_at.slice_part (by omega)]
    rfl
  · have hsize : ¬ (2 ^ 64 - fromByte.toNat + min toByte.toNat dump.length) % 2 ^ 64 ≤ maxSize := by
      rw [maxSize]; omega
    rw [Exec.check_neg hsize]
    rfl

/-- The whole dump. -/
theorem getBlockDump_whole {toByte : UInt64} (hto : dump.length ≤ toByte.toNat) :
    getBlockDump file pos 0 toByte = .ok (dump.length, dump) := by
  have hhead := h.header_le
  have hzero : (0 : UInt64).toNat = 0 := rfl
  rw [h.getBlockDump_inside (by rw [hzero]; omega), if_pos (by rw [hzero]; omega), hzero,
    Nat.min_eq_right hto]
  show Exec.ok (dump.length, dump.take dump.length) = _
  rw [List.take_length]

theorem toNat_dumpPos : (pos + 8).toNat = pos.toNat + 8 := by
  have hend := h.end_le
  have hlt := h.file_lt
  rw [UInt64.toNat_add]
  show (pos.toNat + 8) % 2 ^ 64 = _
  omega

/-- The end of the record. -/
theorem toNat_next :
    (pos + (UInt64.ofNat dump.length + 8)).toNat = pos.toNat + 8 + dump.length := by
  have hend := h.end_le
  have hlt := h.file_lt
  have hsize : (UInt64.ofNat dump.length).toNat = dump.length :=
    UInt64.toNat_ofNat_of_lt' (by show dump.length < 2 ^ 64; omega)
  rw [UInt64.toNat_add, UInt64.toNat_add, hsize]
  show (pos.toNat + (dump.length + 8) % 2 ^ 64) % 2 ^ 64 = _
  omega

/-- The header in the file is the header of the dump. -/
theorem readBlockHeaderFile_eq (M : Allocator) (L : Libs) {b : Buf} (hb : b.bytes = dump)
    {bi header : BlockHeader} (hheader : readBlockHeaderWithoutSize b L bi = .ok header) :
    readBlockHeaderFile M L file pos bi = .ok (true, { header with
      blockSize := UInt64.ofNat dump.length, filePos := { bi.filePos with pos := pos } }) := by
  have hend := h.end_le
  have hhead := h.header_le
  have hsize := leNat_leBytes_of_lt (show dump.length < 256 ^ 8 by have := h.length_lt; omega)
  have hpart : ∀ i k, i + k ≤ 80 → slice file (pos.toNat + 8 + i) k = slice dump i k := fun i k hik =>
    h.dump_at.slice_part (hik.trans hhead)
  rw [readBlockHeaderWithoutSize_eq (by rw [hb]; exact hhead), hb] at hheader
  cases hheader
  rw [readBlockHeaderFile_at M L (by omega) h.file_lt, h.size_at, hsize,
    show pos.toNat + 8 = pos.toNat + 8 + 0 from rfl, show pos.toNat + 16 = pos.toNat + 8 + 8 from rfl,
    show pos.toNat + 24 = pos.toNat + 8 + 16 from rfl, show pos.toNat + 56 = pos.toNat + 8 + 48 from rfl,
    hpart 0 8 (by omega), hpart 8 8 (by omega), hpart 16 32 (by omega), hpart 48 32 (by omega)]

/-- **A block is read from its record** as it is read from its dump in memory, with the same or fewer
    checks; its place in the file is added. -/
theorem readNextBlockInfoFile_eq (M : Allocator) {L : Libs} {b : Buf} (hb : b.bytes = dump)
    {o : ReadOptions} (hbegin : o.beginTx = 0) (hcount : o.countTx = 0) {isValidate : Bool}
    (hval : isValidate = true → o.isValidate = true) {bi : BlockInfo}
    (hread : readNextBlockInfo b L o = .ok bi) :
    readNextBlockInfoFile M L file pos { o with isValidate := isValidate } = .ok (pos + (UInt64.ofNat dump.length + 8), {
      header := { bi.header with
        filePos := { pos := pos }, endBlockPos := pos + (UInt64.ofNat dump.length + 8) }
      txs := bi.txs.map (moveTx (pos - o.posInFile)) }, dump) := by
  have hend := h.end_le
  have hhead := h.header_le
  have hlt := h.file_lt
  obtain ⟨header, hheader, hrest⟩ := bind_eq_ok.1 hread
  obtain ⟨bi', htxs, hret⟩ := bind_eq_ok.1 hrest
  cases hret
  have hsize : (UInt64.ofNat dump.length).toNat = dump.length :=
    UInt64.toNat_ofNat_of_lt' (by show dump.length < 2 ^ 64; omega)
  have hsum : (UInt64.ofNat dump.length + 8).toNat = dump.length + 8 := by
    rw [UInt64.toNat_add, hsize]
    show (dump.length + 8) % 2 ^ 64 = _
    omega
  have hfile : readFile file (pos.toNat + 8) dump.length = dump := by
    rw [readFile_eq (by omega), h.dump_at.slice_eq]
  obtain ⟨buf, hbuf⟩ : ∃ buf : Buf, M.vector dump = .ok buf ∧ buf.bytes = dump :=
    ⟨_, M.vector_eq h.length_lt, rfl⟩
  obtain ⟨hfields, hmoved⟩ := readBlockTxs_moved (hbuf.2.trans hb.symm) hbegin hcount pos hval
    (by rw [hb]; exact hhead)
    (show ({ header with
      blockSize := UInt64.ofNat dump.length, filePos := { pos := pos } } : BlockHeader).signature =
        header.signature from rfl) htxs
  rw [readNextBlockInfoFile, h.readBlockHeaderFile_eq M L hb hheader, ok_bind]
  dsimp only
  rw [if_neg (by simp), hsum, if_neg (by omega), hsize, Exec.check_pos (by rw [maxSize]; omega),
    ok_bind, h.toNat_dumpPos, seekFile, check_of (Or.inl (by omega)), ok_bind, hfile, hbuf.1, ok_bind,
    hmoved, ok_bind]
  dsimp only
  rw [hbuf.2, hb]
  rw [hfields]
  rfl

/-- The first `k` bytes at a place of the dump, in the file. -/
theorem dump_part {i k : ℕ} (hik : i + k ≤ dump.length) :
    slice file (pos.toNat + 8 + i) k = slice dump i k := h.dump_at.slice_part hik

/-- A buffer that is filled from the file at a place of the dump. -/
theorem sameWindow_file {b buf : Buf} (hb : b.bytes = dump) {i k n : ℕ} (hk : k ≤ n)
    (hik : i + k ≤ dump.length) (hbuf : buf.bytes = readFile file (pos.toNat + 8 + i) n) :
    SameWindow b buf (b.beginPos + i) buf.beginPos k where
  begin_le := Nat.le_add_right _ _
  end_le := by
    rw [Buf.endPos, hb]
    omega
  begin_le' := le_rfl
  end_le' := by
    have hlen : n ≤ (readFile file (pos.toNat + 8 + i) n).length := by
      rw [readFile, List.length_append, List.length_replicate]
      omega
    rw [Buf.endPos, hbuf]
    omega
  eq := by
    have hend := h.end_le
    rw [Nat.add_sub_cancel_left, Nat.sub_self, hb, hbuf, slice_readFile hk (by omega),
      h.dump_part hik]

/-- **A transaction is read from the file** as it was read with its block; its place, its raw text and
    whether it signs the block are not compared. -/
theorem readOneTransactionInfo_eq (M : Allocator) {L : Libs} {b : Buf} (hb : b.bytes = dump)
    {o : ReadOptions} {tx : TransactionInfo} {i : ℕ} (htx : ReadAt b L o tx i) (fp : FilePosition)
    (isSaveAllTx : Bool) :
    ∃ raw isSign, readOneTransactionInfo M L file (pos + 8 + UInt64.ofNat i) { filePos := fp }
        isSaveAllTx =
      .ok (true, { tx with filePos := fp, allRawTx := raw, isSignBlockTx := isSign }) := by
  obtain ⟨h80, hi, hinit, -, t, helper, size, stop, hread, ht⟩ := htx
  have hend := h.end_le
  have hlt := h.file_lt
  have hbend : b.endPos = b.beginPos + b.bytes.length := rfl
  rw [hb] at hi hbend
  have hin : InDump b (b.beginPos + i) := ⟨by omega, by omega⟩
  obtain ⟨⟨txSize, txStart⟩, hvar, hrest⟩ := bind_eq_ok.1 hread
  have hinside := tx_inside hin hread hvar
  -- a transaction of size zero is not initialized
  have hpos : txSize ≠ 0 := by
    rintro rfl
    cases hrest
    rw [ht] at hinit
    cases hinit
  have hlong := tx_long hin hread hvar hpos
  obtain ⟨j, rfl, hj1, hj2, -⟩ := readVarInt_shift (sameWindow_whole (b := b) rfl)
    (by rw [hb]; exact hi) hvar (by rw [hb]; omega) le_rfl
  have hcur : (pos + 8 + UInt64.ofNat i).toNat = pos.toNat + 8 + i := by
    rw [UInt64.toNat_add, h.toNat_dumpPos, UInt64.toNat_ofNat_of_lt' (by show i < 2 ^ 64; omega)]
    show (pos.toNat + 8 + i) % 2 ^ 64 = _
    omega
  -- the size
  obtain ⟨fh, hfh⟩ : ∃ fh : Buf, M.vector (readFile file (pos.toNat + 8 + i) 9) = .ok fh ∧
      fh.bytes = readFile file (pos.toNat + 8 + i) 9 :=
    ⟨_, M.vector_eq (by rw [readFile_length]; omega), rfl⟩
  have hfhEnd : fh.endPos = fh.beginPos + 9 := by rw [Buf.endPos, hfh.2, readFile_length]
  have hw9 := h.sameWindow_file hb (show j - i ≤ 9 by omega) (show i + (j - i) ≤ dump.length by omega)
    hfh.2
  obtain ⟨j', hj', -, -, hvar'⟩ := readVarInt_shift hw9 (Nat.zero_le _) hvar (by omega) le_rfl
  have hsize : getSizeTransaction M file (pos.toNat + 8 + i) = .ok txSize := by
    have hvar9 := hvar' fh.endPos (by omega)
    rw [Nat.add_zero] at hvar9
    rw [getSizeTransaction, hfh.1, ok_bind, hvar9, ok_bind]
    rfl
  -- the transaction
  have hmod : (txSize + 16) % 2 ^ 64 = txSize + 16 := Nat.mod_eq_of_lt (by omega)
  obtain ⟨buf, hbuf⟩ : ∃ buf : Buf,
      M.vector (readFile file (pos.toNat + 8 + i) (txSize + 16)) = .ok buf ∧
        buf.bytes = readFile file (pos.toNat + 8 + i) (txSize + 16) :=
    ⟨_, M.vector_eq (by rw [readFile_length]; omega), rfl⟩
  have hbufEnd : buf.endPos = buf.beginPos + (txSize + 16) := by
    rw [Buf.endPos, hbuf.2, readFile_length]
  have hw := h.sameWindow_file hb (show j - i + txSize ≤ txSize + 16 by omega)
    (show i + (j - i + txSize) ≤ dump.length by omega) hbuf.2
  obtain ⟨k, raw, isSign, -, -, -, hone, -⟩ := readTransactionInfo_shift hw fp isSaveAllTx
    (show false = true → _ = true from fun hfalse => absurd hfalse Bool.false_ne_true)
    (show ({} : PrevTransactionSignHelper) = _ ∨ _ from Or.inr rfl)
    (Nat.zero_le _) le_rfl (show _ ≤ buf.endPos by omega)
    (fun size start hv => by
      cases hv.symm.trans hvar
      omega) hread
  refine ⟨raw, isSign, ?_⟩
  rw [ht, Nat.add_zero] at hone
  rw [readOneTransactionInfo, hcur, if_neg (by omega), if_pos (by omega), seekFile,
    check_of (Or.inl (by omega)), ok_bind, hsize, ok_bind, hmod, hbuf.1, ok_bind, hone, ok_bind]
  rfl

end RecordAt

end TorrentNode
