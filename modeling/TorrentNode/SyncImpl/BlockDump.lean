/-
  What the node signs when it sends a block dump (`SyncImpl::getBlockDump`).

  A client asks for a range of a block.  If the range ends behind the block, the
  signature of the whole block is appended.  The dump comes from the cache or
  from the block file; the block file reports the size 0 for a range that begins
  behind the block.

  `getBlockDump_signs_whole_iff`: the signature is computed over the whole dump
  for every stored block and every range, except for a range of a block file
  that begins behind the block and ends in front of its end.
-/
import TorrentNode.BlockchainRead.Files
import TorrentNode.PrivateKey.Envelope
import TorrentNode.SyncImpl

open Wire Exec

namespace TorrentNode

namespace SyncImpl

/-! ## The request -/

/-- The members of `SyncImpl` that `getBlockDump` reads. -/
structure DumpEnv where
  modules : Modules
  blockDumpCache : Bytes → Option Bytes
  /-- the block files by name -/
  files : Bytes → Option Bytes
  privateKey : Option PrivateKey

/-- What the modules have to be for a dump. -/
def DumpEnv.serves (e : DumpEnv) : Bool :=
  e.modules.block && e.modules.blockRaw && !e.modules.users

/-- `fromByte`, `toByte` and `isSign` of a request. -/
structure DumpRange where
  fromByte : UInt64
  toByte : UInt64
  isSign : Bool

/-- The variables of `getBlockDump` when the dump is read. -/
structure DumpParts where
  res : Bytes
  realSizeBlock : ℕ
  fullBlockDump : Bytes

/-- The dump from the block file. -/
def readFromFile (file : Bytes) (pos : UInt64) (r : DumpRange) : Exec Exn DumpParts := do
  let (sizeBlock, dumpBlock) ← TorrentNode.getBlockDump file pos r.fromByte r.toByte
  if r.isSign ∧ sizeBlock ≤ r.toByte.toNat then
    if r.fromByte = 0 then return ⟨dumpBlock, sizeBlock, dumpBlock⟩
    else
      let (_, full) ← TorrentNode.getBlockDump file pos 0 r.toByte
      return ⟨dumpBlock, sizeBlock, full⟩
  else return ⟨dumpBlock, sizeBlock, []⟩

/-- The dump from the cache. -/
def readFromCache (element : Bytes) (r : DumpRange) : Exec Exn DumpParts := do
  let res ← substr element r.fromByte.toNat (r.toByte - r.fromByte).toNat
  return ⟨res, element.length,
    if r.isSign ∧ element.length ≤ r.toByte.toNat then element else []⟩

/-- The first part of `getBlockDump`: the dump is read. -/
def readDump (e : DumpEnv) (bh : BlockHeader) (r : DumpRange) : Exec Exn DumpParts := do
  check e.serves "modules block block_raw not set"
  match e.blockDumpCache bh.hash with
  | some element => readFromCache element r
  | none => do
    check (bh.filePos.fileName ≠ []) "Empty file name in block header"
    match e.files bh.filePos.fileName with
    | none => .throw (.common ("File " ++ text bh.filePos.fileName ++ " not opened"))
    | some file => readFromFile file bh.filePos.pos r

/-- What is signed. -/
def signedData (r : DumpRange) (parts : DumpParts) : Option Bytes :=
  if r.isSign ∧ parts.realSizeBlock ≤ r.toByte.toNat then some parts.fullBlockDump else none

section
variable (C : Crypto) (S : Support)

/-- The second part of `getBlockDump`: the signature. -/
def signDump (e : DumpEnv) (r : DumpRange) (parts : DumpParts) : Exec Exn Bytes :=
  if !r.isSign then return parts.res
  else
    match e.privateKey with
    | none => .throw (.common "Private key not set")
    | some privateKey => do
      let res := if r.fromByte = 0 then makeFirstPartBlockSign parts.realSizeBlock ++ parts.res
        else parts.res
      match signedData r parts with
      | none => stdString res
      | some fullBlockDump => do
        let sign ← makeBlockSign C S fullBlockDump privateKey
        stdString (res ++ sign)

/-- `getBlockDump(bh, fromByte, toByte, isHex, isSign)`. -/
def getBlockDump (e : DumpEnv) (bh : BlockHeader) (r : DumpRange) (isHex : Bool) :
    Exec Exn Bytes := do
  let parts ← readDump e bh r
  let res ← signDump C S e r parts
  return if isHex then S.toHex res else res

/-- Every signature that `getBlockDump` returns is computed over `dump`. -/
def SignsOnly (e : DumpEnv) (bh : BlockHeader) (r : DumpRange) (isHex : Bool) (dump : Bytes) : Prop :=
  ∀ value parts, getBlockDump C S e bh r isHex = .ok value → readDump e bh r = .ok parts →
    ∀ data, signedData r parts = some data → data = dump

end

/-! ## Stored blocks -/

/-- A block that the node has stored: its record stands in the block file, and the cache has no
    other dump for it. -/
structure StoredBlock (e : DumpEnv) where
  bh : BlockHeader
  dump : Bytes
  file : Bytes
  file_eq : e.files bh.filePos.fileName = some file
  named : bh.filePos.fileName ≠ []
  record : StandsAt file bh.filePos.pos.toNat (blockRecord dump)
  header_le : 80 ≤ dump.length
  file_lt : file.length < 2 ^ 63
  cached : ∀ element, e.blockDumpCache bh.hash = some element → element = dump

/-- A record stands where it was saved, also when other blocks are saved behind it. -/
theorem standsAt_saveBlock (file data : Bytes) (others : List Bytes) :
    StandsAt (others.foldl (fun f d => (saveBlockToFileBinary f d).2)
        (saveBlockToFileBinary file data).2) (saveBlockToFileBinary file data).1
      (blockRecord data) := by
  have hinv : ∀ f : Bytes, (saveBlockToFileBinary file data).1 ≤ f.length →
      StandsAt f (saveBlockToFileBinary file data).1 (blockRecord data) →
      StandsAt (others.foldl (fun f d => (saveBlockToFileBinary f d).2) f)
        (saveBlockToFileBinary file data).1 (blockRecord data) := by
    induction others with
    | nil => exact fun f _ h => h
    | cons d others ih =>
      intro f hle h
      refine ih _ ?_ (h.append hle _)
      show _ ≤ (f ++ blockRecord d).length
      rw [List.length_append]; omega
  refine hinv _ ?_ ?_
  · show file.length ≤ (file ++ blockRecord data).length
    rw [List.length_append]; omega
  · have h := standsAt_self (file ++ blockRecord data)
    rw [standsAt_append, Nat.zero_add] at h
    exact h.2

section
variable {e : DumpEnv} (b : StoredBlock e)

theorem StoredBlock.recordAt : RecordAt b.file b.bh.filePos.pos b.dump :=
  ⟨b.record, b.header_le, b.file_lt⟩

theorem StoredBlock.end_le : b.bh.filePos.pos.toNat + 8 + b.dump.length ≤ b.file.length :=
  b.recordAt.end_le

theorem StoredBlock.ne_zero_of_behind {fromByte : UInt64} (h : b.dump.length ≤ fromByte.toNat) :
    fromByte ≠ 0 := by
  rintro rfl
  have hhead := b.header_le
  have hzero : b.dump.length ≤ 0 := h
  omega

/-! ## What is signed -/

/-- The whole dump, from its beginning. -/
theorem slice_whole (dump : Bytes) {toByte : ℕ} (h : dump.length ≤ toByte) :
    slice dump 0 (min toByte dump.length - 0) = dump := by
  rw [Nat.min_eq_right h]
  exact List.take_length

/-- A range of the block file that begins behind the block: the beginning of the block is signed. -/
theorem readFromFile_behind {r : DumpRange} (hsign : r.isSign = true)
    (h : b.dump.length ≤ r.fromByte.toNat) :
    readFromFile b.file b.bh.filePos.pos r = .ok ⟨[], 0, b.dump.take r.toByte.toNat⟩ := by
  have hhead := b.header_le
  have hne := b.ne_zero_of_behind h
  have hzero : (0 : UInt64).toNat = 0 := rfl
  rw [readFromFile, b.recordAt.getBlockDump_behind h, ok_bind]
  dsimp only
  rw [if_pos ⟨hsign, Nat.zero_le _⟩, if_neg hne, b.recordAt.getBlockDump_inside (by rw [hzero]; omega),
    if_pos (by rw [hzero]; omega), ok_bind, hzero]
  have htake : slice b.dump 0 (min r.toByte.toNat b.dump.length - 0) =
      b.dump.take r.toByte.toNat := by
    show b.dump.take (min r.toByte.toNat b.dump.length) = _
    rw [List.take_eq_take_iff]; omega
  rw [htake]
  rfl

theorem signedData_eq_some {r : DumpRange} {parts : DumpParts} {data : Bytes}
    (h : signedData r parts = some data) :
    (r.isSign = true ∧ parts.realSizeBlock ≤ r.toByte.toNat) ∧ data = parts.fullBlockDump := by
  unfold signedData at h
  split_ifs at h with hc
  exact ⟨hc, (Option.some.inj h).symm⟩

/-- A range of the block file that begins in the block. -/
theorem readFromFile_within {r : DumpRange} (h : r.fromByte.toNat < b.dump.length) :
    readFromFile b.file b.bh.filePos.pos r =
      if r.fromByte.toNat ≤ min r.toByte.toNat b.dump.length then
        .ok ⟨slice b.dump r.fromByte.toNat (min r.toByte.toNat b.dump.length - r.fromByte.toNat),
          b.dump.length, if r.isSign ∧ b.dump.length ≤ r.toByte.toNat then b.dump else []⟩
      else .throw (.std "basic_string::_M_create") := by
  have hzero : (0 : UInt64).toNat = 0 := rfl
  rw [readFromFile, b.recordAt.getBlockDump_inside h]
  by_cases hle : r.fromByte.toNat ≤ min r.toByte.toNat b.dump.length
  · rw [if_pos hle, if_pos hle, ok_bind]
    dsimp only
    by_cases hend : r.isSign = true ∧ b.dump.length ≤ r.toByte.toNat
    · rw [if_pos hend, if_pos hend]
      have hwhole := slice_whole b.dump hend.2
      by_cases hfrom : r.fromByte = 0
      · rw [if_pos hfrom, hfrom, hzero, hwhole]
        rfl
      · rw [if_neg hfrom, b.recordAt.getBlockDump_inside (by rw [hzero]; omega), if_pos (by rw [hzero]; omega),
          ok_bind, hzero, hwhole]
        rfl
    · rw [if_neg hend, if_neg hend]
      rfl
  · rw [if_neg hle, if_neg hle, throw_bind]

theorem readFromFile_inside {r : DumpRange} (h : r.fromByte.toNat < b.dump.length)
    {parts : DumpParts} (hread : readFromFile b.file b.bh.filePos.pos r = .ok parts) {data : Bytes}
    (hdata : signedData r parts = some data) : data = b.dump := by
  obtain ⟨hc, rfl⟩ := signedData_eq_some hdata
  rw [readFromFile_within b h] at hread
  split_ifs at hread with hle hend
  · cases hread
    rfl
  · cases hread
    exact absurd hc hend

theorem readFromCache_signs {r : DumpRange} {parts : DumpParts}
    (hread : readFromCache b.dump r = .ok parts) {data : Bytes}
    (hdata : signedData r parts = some data) : data = b.dump := by
  obtain ⟨hc, rfl⟩ := signedData_eq_some hdata
  obtain ⟨res, -, hret⟩ := bind_eq_ok.1 hread
  cases hret
  exact if_pos hc

/-- The range begins behind the block and ends in front of its end, and the block is not cached. -/
def StoredBlock.Oracle (r : DumpRange) : Prop :=
  e.blockDumpCache b.bh.hash = none ∧ b.dump.length ≤ r.fromByte.toNat ∧
    r.toByte.toNat < b.dump.length

theorem serves_of_readDump {bh : BlockHeader} {r : DumpRange} {parts : DumpParts}
    (h : readDump e bh r = .ok parts) : e.serves = true := by
  obtain ⟨_, hc, -⟩ := bind_eq_ok.1 h
  exact check_eq_ok hc

theorem readDump_uncached (hs : e.serves = true) (hcache : e.blockDumpCache b.bh.hash = none)
    (r : DumpRange) : readDump e b.bh r = readFromFile b.file b.bh.filePos.pos r := by
  rw [readDump, check_of hs, ok_bind, hcache]
  dsimp only
  rw [check_of b.named, ok_bind, b.file_eq]

theorem readDump_cached (hs : e.serves = true) {element : Bytes}
    (hcache : e.blockDumpCache b.bh.hash = some element) (r : DumpRange) :
    readDump e b.bh r = readFromCache b.dump r := by
  rw [readDump, check_of hs, ok_bind, hcache, b.cached element hcache]

/-- What is signed is the dump, or the beginning of it. -/
theorem signedData_cases {r : DumpRange} {parts : DumpParts}
    (hread : readDump e b.bh r = .ok parts) {data : Bytes} (hdata : signedData r parts = some data) :
    data = b.dump ∨ b.Oracle r ∧ data = b.dump.take r.toByte.toNat := by
  have hs := serves_of_readDump hread
  cases hcache : e.blockDumpCache b.bh.hash with
  | some element =>
    rw [readDump_cached b hs hcache] at hread
    exact Or.inl (readFromCache_signs b hread hdata)
  | none =>
    rw [readDump_uncached b hs hcache] at hread
    by_cases hfrom : r.fromByte.toNat < b.dump.length
    · exact Or.inl (readFromFile_inside b hfrom hread hdata)
    · obtain ⟨⟨hsign, -⟩, rfl⟩ := signedData_eq_some hdata
      rw [readFromFile_behind b hsign (by omega)] at hread
      cases hread
      by_cases hto : b.dump.length ≤ r.toByte.toNat
      · exact Or.inl (List.take_of_length_le hto)
      · exact Or.inr ⟨⟨hcache, by omega, by omega⟩, rfl⟩

end

section
variable (C : Crypto) (S : Support)

/-- The key of the node signs a text. -/
def DumpEnv.CanSign (e : DumpEnv) (data : Bytes) : Prop :=
  ∃ key sign, e.privateKey = some key ∧ makeBlockSign C S data key = .ok sign

variable {C S} {e : DumpEnv}

theorem canSign_of_signDump {r : DumpRange} {parts : DumpParts} {value data : Bytes}
    (h : signDump C S e r parts = .ok value) (hdata : signedData r parts = some data) :
    e.CanSign C S data := by
  have hsign := (signedData_eq_some hdata).1.1
  simp only [signDump, hsign, Bool.not_true, Bool.false_eq_true, if_false, hdata] at h
  cases hkey : e.privateKey with
  | none => rw [hkey] at h; cases h
  | some key =>
    rw [hkey] at h
    obtain ⟨sign, hs, -⟩ := bind_eq_ok.1 h
    exact ⟨key, sign, hkey, hs⟩

theorem stdString_makeBlockSign {data sign : Bytes} {key : PrivateKey}
    (h : makeBlockSign C S data key = .ok sign) : stdString sign = .ok sign := by
  obtain ⟨_, -, hstd⟩ := bind_eq_ok.1 h
  obtain ⟨rfl, hmax⟩ := stdString_eq_ok hstd
  rw [stdString, Exec.check_pos hmax, ok_bind]

/-- In the exceptional case a proper part of the block is signed. -/
theorem getBlockDump_oracle (b : StoredBlock e) {r : DumpRange} (isHex : Bool)
    (hsign : r.isSign = true) (hs : e.serves = true) (ho : b.Oracle r)
    (hkey : e.CanSign C S (b.dump.take r.toByte.toNat)) :
    ∃ value parts, getBlockDump C S e b.bh r isHex = .ok value ∧ readDump e b.bh r = .ok parts ∧
      signedData r parts = some (b.dump.take r.toByte.toNat) := by
  obtain ⟨hcache, hfrom, hto⟩ := ho
  obtain ⟨key, sign, hk, hm⟩ := hkey
  have hread := readDump_uncached b hs hcache r
  rw [readFromFile_behind b hsign hfrom] at hread
  have hdata : signedData r ⟨[], 0, b.dump.take r.toByte.toNat⟩ =
      some (b.dump.take r.toByte.toNat) := if_pos ⟨hsign, Nat.zero_le _⟩
  have hne := b.ne_zero_of_behind hfrom
  have hsize := stdString_makeBlockSign hm
  have hdump : signDump C S e r ⟨[], 0, b.dump.take r.toByte.toNat⟩ = .ok sign := by
    simp only [signDump, hsign, Bool.not_true, Bool.false_eq_true, if_false, hk, hdata, hm, ok_bind,
      if_neg hne, List.nil_append, hsize]
  refine ⟨if isHex then S.toHex sign else sign, _, ?_, hread, hdata⟩
  rw [getBlockDump, hread, ok_bind, hdump]
  rfl

/-- **When the node signs only whole blocks.** -/
theorem getBlockDump_signs_whole_iff (C : Crypto) (S : Support) (e : DumpEnv) (b : StoredBlock e)
    (fromByte toByte : UInt64) (isHex : Bool) :
    SignsOnly C S e b.bh ⟨fromByte, toByte, true⟩ isHex b.dump ↔
      ¬ (e.serves = true ∧ b.Oracle ⟨fromByte, toByte, true⟩ ∧
        e.CanSign C S (b.dump.take toByte.toNat)) := by
  constructor
  · rintro h ⟨hs, ho, hkey⟩
    obtain ⟨value, parts, hget, hread, hdata⟩ := getBlockDump_oracle b isHex rfl hs ho hkey
    have heq := h value parts hget hread _ hdata
    have hlen := congrArg List.length heq
    rw [List.length_take] at hlen
    have hto : toByte.toNat < b.dump.length := ho.2.2
    dsimp only at hlen
    omega
  · intro h value parts hget hread data hdata
    rcases signedData_cases b hread hdata with heq | ⟨ho, rfl⟩
    · exact heq
    · refine absurd ⟨serves_of_readDump hread, ho, ?_⟩ h
      rw [getBlockDump, hread, ok_bind] at hget
      obtain ⟨res, hsigned, -⟩ := bind_eq_ok.1 hget
      exact canSign_of_signDump hsigned hdata

end

/-! ## A signing oracle -/

/-- A block of 80 bytes. -/
def shortDump : Bytes := 1 :: List.replicate 79 0

/-- A node with the key `Sample.node1` that has this block in the file `f`, and an empty cache. -/
def oracleEnv : DumpEnv where
  modules := ⟨true, true, false, false⟩
  blockDumpCache _ := none
  files name := if name = ascii ['f'] then some (blockRecord shortDump) else none
  privateKey := some Sample.node1

/-- The block. -/
def oracleBlock : StoredBlock oracleEnv where
  bh := { filePos := { pos := 0, fileName := ascii ['f'] } }
  dump := shortDump
  file := blockRecord shortDump
  file_eq := by decide
  named := by decide
  record := standsAt_self _
  header_le := by decide
  file_lt := by decide
  cached _ h := by cases h

/-- Asked for the bytes from 80 to 1, the node signs the first byte of the block. -/
theorem getBlockDump_signs_prefix :
    getBlockDump Sample.crypto Sample.support oracleEnv oracleBlock.bh ⟨80, 1, true⟩ false =
        makeBlockSign Sample.crypto Sample.support [1] Sample.node1 ∧
      ¬ SignsOnly Sample.crypto Sample.support oracleEnv oracleBlock.bh ⟨80, 1, true⟩ false
        oracleBlock.dump := by
  have hserves : oracleEnv.serves = true := rfl
  have ho : oracleBlock.Oracle ⟨80, 1, true⟩ := ⟨rfl, by decide, by decide⟩
  have hkey : oracleEnv.CanSign Sample.crypto Sample.support [1] := by
    refine ⟨Sample.node1, signPart Sample.sign1 Sample.generator Sample.node1.address, rfl, ?_⟩
    decide +kernel
  refine ⟨by decide +kernel, fun h => ?_⟩
  obtain ⟨value, parts, hget, hread, hdata⟩ := getBlockDump_oracle oracleBlock false rfl hserves ho
    hkey
  have heq := h value parts hget hread _ hdata
  revert heq
  decide

end SyncImpl

end TorrentNode
