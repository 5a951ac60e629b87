/-
  Full blocks and parts of them (`WorkerMain::getFullBlock`).

  A client asks for the transactions of a block, all of them or `countTx` of them
  from the position `beginTx` on.  The dump is taken from the cache, where the
  transactions are validated again, or read from the block file, where they are
  not.  The transactions in front of the part are skipped by their sizes.

  `getFullBlock_slices_iff`: when a part of a block has the transactions and the
  signature of the whole block, from the cache as from the block file.
-/
import TorrentNode.BlockchainRead.Slices
import TorrentNode.Workers.WorkerNodeTest
import TorrentNode.SyncImpl

open Wire Exec

namespace TorrentNode

namespace WorkerMain

/-- The members of `WorkerMain` that `getFullBlock` reads, the files and the memory. -/
structure Env where
  modules : Modules
  blockDumpCache : Bytes → Option Buf
  /-- the block files by name -/
  files : Bytes → Option Bytes
  memory : Allocator
  libs : Libs

/-- The node with an empty cache. -/
def Env.withoutCache (e : Env) : Env := { e with blockDumpCache := fun _ => none }

/-- A transaction with the number of its block. -/
def setBlockNumber (n : ℕ) (tx : TransactionInfo) : TransactionInfo := { tx with blockNumber := n }

/-- The block before the numbers are set. -/
def readFullBlock (e : Env) (bh : BlockHeader) (beginTx countTx : ℕ) : Exec Exn BlockInfo :=
  match e.blockDumpCache bh.hash with
  | none => do
    check (bh.filePos.fileName ≠ []) "Empty file name in block header"
    match e.files bh.filePos.fileName with
    | none => .throw (.common ("File " ++ text bh.filePos.fileName ++ " not opened"))
    | some file => do
      let (nextPos, bi, _) ← readNextBlockInfoFileInto e.libs e.memory file bh.filePos.pos
        ⟨bh.filePos.pos, false, false, beginTx, countTx⟩ bh
      check (nextPos ≠ bh.filePos.pos) "Ups"
      return bi
  | some element =>
    readNextBlockInfoInto e.libs element ⟨bh.filePos.pos, true, false, beginTx, countTx⟩ bh

/-- `getFullBlock(bh, beginTx, countTx)`. -/
def getFullBlock (e : Env) (bh : BlockHeader) (beginTx countTx : ℕ) : Exec Exn BlockInfo := do
  check (e.modules.blockRaw && !e.modules.users) "module block_raw not set"
  if bh.blockNumber = some 0 then return { header := bh }
  let bi ← readFullBlock e bh beginTx countTx
  let txs ← bi.txs.mapM fun tx => do
    let n ← WorkerNodeTest.optionalValue bi.header.blockNumber
    return setBlockNumber n tx
  return { bi with txs := txs }

/-! ## Stored blocks -/

/-- A block that the node has stored: its record stands in the block file, and its dump is cached. -/
structure StoredBlock (e : Env) where
  bh : BlockHeader
  number : ℕ
  file : Bytes
  element : Buf
  serves : (e.modules.blockRaw && !e.modules.users) = true
  number_eq : bh.blockNumber = some number
  number_ne : number ≠ 0
  file_eq : e.files bh.filePos.fileName = some file
  named : bh.filePos.fileName ≠ []
  record : RecordAt file bh.filePos.pos element.bytes
  cached : e.blockDumpCache bh.hash = some element

/-- The options of the two readers. -/
def StoredBlock.options {e : Env} (b : StoredBlock e) (isValidate : Bool) (beginTx countTx : ℕ) :
    ReadOptions := ⟨b.bh.filePos.pos, isValidate, false, beginTx, countTx⟩

section
variable {e : Env} (b : StoredBlock e)

theorem mapM_setBlockNumber (txs : List TransactionInfo) :
    (txs.mapM fun tx => do
      let n ← WorkerNodeTest.optionalValue b.bh.blockNumber
      return setBlockNumber n tx : Exec Exn (List TransactionInfo)) =
      .ok (txs.map (setBlockNumber b.number)) := by
  rw [mapM_eq_ok, List.forall₂_map_right_iff, b.number_eq]
  exact List.forall₂_same.2 fun tx _ => rfl

/-- The numbers are set in every block that is read. -/
theorem getFullBlock_iff {e' : Env} (hserves : (e'.modules.blockRaw && !e'.modules.users) = true)
    {beginTx countTx : ℕ} (hnumber : ∀ bi, readFullBlock e' b.bh beginTx countTx = .ok bi →
      bi.header.blockNumber = b.bh.blockNumber) {part : BlockInfo} :
    getFullBlock e' b.bh beginTx countTx = .ok part ↔
      ∃ bi, readFullBlock e' b.bh beginTx countTx = .ok bi ∧
        part = { bi with txs := bi.txs.map (setBlockNumber b.number) } := by
  have hne : b.bh.blockNumber ≠ some 0 := by
    rw [b.number_eq]
    exact fun h => b.number_ne (Option.some.inj h)
  rw [getFullBlock, check_of hserves, ok_bind, if_neg hne]
  constructor
  · intro h
    obtain ⟨bi, hread, h⟩ := bind_eq_ok.1 h
    rw [hnumber bi hread, mapM_setBlockNumber, ok_bind] at h
    exact ⟨bi, hread, (Exec.ok.inj h).symm⟩
  · rintro ⟨bi, hread, rfl⟩
    rw [hread, ok_bind, hnumber bi hread, mapM_setBlockNumber]
    rfl

theorem next_ne : b.bh.filePos.pos + (UInt64.ofNat b.element.bytes.length + 8) ≠ b.bh.filePos.pos := by
  intro h
  have hnext := b.record.toNat_next
  rw [h] at hnext
  omega

/-- What is read from the block file. -/
theorem readFullBlock_file (beginTx countTx : ℕ) :
    readFullBlock e.withoutCache b.bh beginTx countTx = (readNextBlockInfoFileInto e.libs e.memory b.file
      b.bh.filePos.pos (b.options false beginTx countTx) b.bh >>= fun r => do
        check (r.1 ≠ b.bh.filePos.pos) "Ups"
        return r.2.1) := by
  rw [readFullBlock]
  dsimp only [Env.withoutCache]
  rw [check_of b.named, ok_bind, b.file_eq]
  rfl

theorem readFullBlock_file_iff {beginTx countTx : ℕ} (hcount : countTx ≠ 0) {part : BlockInfo} :
    readFullBlock e.withoutCache b.bh beginTx countTx = .ok part ↔
      IsPart e.libs b.element (b.options false beginTx countTx) b.bh part := by
  have hiff := fun next part dump => @RecordAt.readNextBlockInfoFileInto_iff e.libs b.element
    (b.options false beginTx countTx) b.bh part _ _ _ b.record e.memory rfl rfl hcount next dump
  rw [readFullBlock_file]
  constructor
  · intro h
    obtain ⟨⟨next, bi, dump⟩, hread, h⟩ := bind_eq_ok.1 h
    obtain ⟨_, -, h⟩ := bind_eq_ok.1 h
    cases h
    exact ((hiff _ _ _).1 hread).1
  · intro h
    rw [(hiff _ _ _).2 ⟨h, rfl, rfl⟩, ok_bind, check_of (next_ne b), ok_bind]
    rfl

theorem readFullBlock_cache_iff {beginTx countTx : ℕ} (hcount : countTx ≠ 0) {part : BlockInfo} :
    readFullBlock e b.bh beginTx countTx = .ok part ↔
      IsPart e.libs b.element (b.options true beginTx countTx) b.bh part := by
  rw [readFullBlock, b.cached]
  exact readNextBlockInfoInto_iff b.record.header_le hcount

/-- The whole block from the block file. -/
theorem getFullBlock_whole {whole : BlockInfo}
    (hparses : readBlockTxs b.element e.libs (b.options false 0 0) b.bh = .ok whole) :
    ∃ full, getFullBlock e.withoutCache b.bh 0 0 = .ok full ∧
      full.txs = whole.txs.map (setBlockNumber b.number) ∧
      full.header.signature = whole.header.signature := by
  obtain ⟨full, hread, htxs, hsign, hnumber⟩ := b.record.readNextBlockInfoFileInto_whole e.memory rfl
    (show (b.options false 0 0).posInFile = b.bh.filePos.pos from rfl) rfl rfl hparses
  have hfile : readFullBlock e.withoutCache b.bh 0 0 = .ok full := by
    rw [readFullBlock_file, hread, ok_bind, check_of (next_ne b), ok_bind]
    rfl
  have hnumbers : ∀ bi, readFullBlock e.withoutCache b.bh 0 0 = .ok bi →
      bi.header.blockNumber = b.bh.blockNumber := by
    intro bi hbi
    rw [hfile] at hbi
    cases hbi
    exact hnumber
  exact ⟨_, (@getFullBlock_iff e b e.withoutCache b.serves 0 0 hnumbers _).2 ⟨full, hfile, rfl⟩,
    by rw [htxs], hsign⟩

/-! ## Parts -/

theorem getFullBlock_file_iff {beginTx countTx : ℕ} (hcount : countTx ≠ 0) {part : BlockInfo} :
    getFullBlock e.withoutCache b.bh beginTx countTx = .ok part ↔
      ∃ bi, IsPart e.libs b.element (b.options false beginTx countTx) b.bh bi ∧
        part = { bi with txs := bi.txs.map (setBlockNumber b.number) } := by
  rw [@getFullBlock_iff e b e.withoutCache b.serves beginTx countTx]
  · simp only [readFullBlock_file_iff b hcount]
  · intro bi hbi
    obtain ⟨-, _, -, hheader⟩ := (readFullBlock_file_iff b hcount).1 hbi
    rw [hheader]
    rfl

theorem getFullBlock_cache_iff {beginTx countTx : ℕ} (hcount : countTx ≠ 0) {part : BlockInfo} :
    getFullBlock e b.bh beginTx countTx = .ok part ↔
      ∃ bi, IsPart e.libs b.element (b.options true beginTx countTx) b.bh bi ∧
        part = { bi with txs := bi.txs.map (setBlockNumber b.number) } := by
  rw [@getFullBlock_iff e b e b.serves beginTx countTx]
  · simp only [readFullBlock_cache_iff b hcount]
  · intro bi hbi
    obtain ⟨-, _, -, hheader⟩ := (readFullBlock_cache_iff b hcount).1 hbi
    rw [hheader]
    rfl

/-- Transactions as they are read differ only if they do with the number of their block. -/
theorem map_setBlockNumber_inj {n : ℕ} {txs txs' : List TransactionInfo} (h : ∀ tx ∈ txs, AsRead tx)
    (h' : ∀ tx ∈ txs', AsRead tx) (heq : txs.map (setBlockNumber n) = txs'.map (setBlockNumber n)) :
    txs = txs' := by
  have hback : ∀ l : List TransactionInfo, (∀ tx ∈ l, AsRead tx) →
      (l.map (setBlockNumber n)).map (setBlockNumber 0) = l := by
    intro l hl
    rw [List.map_map]
    refine (List.map_congr_left fun tx htx => ?_).trans (List.map_id l)
    show ({ tx with blockNumber := 0 } : TransactionInfo) = tx
    rw [← (hl tx htx).blockNumber]
  rw [← hback txs h, ← hback txs' h', heq]

/-- **The parts of a block.**  The request for `countTx` transactions from `beginTx` on returns them as
    the whole block has them, with its signature, from the cache as from the block file. -/
def Slices (beginTx countTx : ℕ) : Prop :=
  ∃ full part, getFullBlock e.withoutCache b.bh 0 0 = .ok full ∧
    getFullBlock e.withoutCache b.bh beginTx countTx = .ok part ∧
    getFullBlock e b.bh beginTx countTx = .ok part ∧
    part.txs = (full.txs.drop beginTx).take countTx ∧
    part.header.signature = full.header.signature

/-- The part of a block with the transactions `txs` can be read by itself. -/
structure Sliceable (txs : List TransactionInfo) (beginTx countTx : ℕ) : Prop where
  /-- the sizes of the transactions in front of it lead to its first transaction -/
  place : skipTo b.element beginTx (b.element.beginPos + 80) =
    .ok ((txs[beginTx]?).map (txPlace b.bh.filePos.pos))
  /-- its first transaction does not sign the block, unless it is the first one of the block -/
  unsigned : beginTx = 0 ∨ ∀ tx, txs[beginTx]? = some tx → tx.isSignBlockTx = false
  /-- its first transaction gives the header the signature that the first one of the block gives -/
  signature : headerSignature b.bh.signature txs[beginTx]? = headerSignature b.bh.signature txs.head?
  /-- its transactions are valid -/
  valid : ∀ tx ∈ (txs.drop beginTx).take countTx,
    Validated e.libs b.element.bytes (txPlace b.bh.filePos.pos tx) tx

theorem head?_part {txs : List TransactionInfo} {beginTx countTx : ℕ} (hcount : countTx ≠ 0) :
    ((txs.drop beginTx).take countTx).head? = txs[beginTx]? := by
  rw [List.head?_take, if_neg hcount, List.head?_drop]

/-- **When a part of a block is a part of what is read of the whole block.** -/
theorem getFullBlock_slices_iff {e : Env} (b : StoredBlock e) {whole : BlockInfo}
    (hparses : readBlockTxs b.element e.libs (b.options false 0 0) b.bh = .ok whole)
    (beginTx countTx : ℕ) (hcount : 1 ≤ countTx) :
    Slices b beginTx countTx ↔ Sliceable b whole.txs beginTx countTx := by
  have hne : countTx ≠ 0 := Nat.one_le_iff_ne_zero.1 hcount
  obtain ⟨full, hfull, htxs, hsignature⟩ := getFullBlock_whole b hparses
  obtain ⟨hparsed, hwhole⟩ := readBlockTxs_parsed rfl rfl hparses
  have hasRead := hparsed.asRead
  have hpartRead : ∀ tx ∈ (whole.txs.drop beginTx).take countTx, AsRead tx := fun tx htx =>
    hasRead tx (List.mem_of_mem_drop (List.mem_of_mem_take htx))
  rw [signatureOf_asRead _ hasRead] at hwhole
  have hwhole := Exec.ok.inj hwhole
  have hpart : (full.txs.drop beginTx).take countTx =
      ((whole.txs.drop beginTx).take countTx).map (setBlockNumber b.number) := by
    rw [htxs, ← List.map_drop, ← List.map_take]
  have hsame : SameRead b.element e.libs (b.options false 0 0) b.element
      (b.options false beginTx countTx) := sameRead rfl rfl rfl fun h => h
  have hslice := sliceFrom_iff (hparsed.same hsame) hne beginTx
  have hvalid := @sliceFrom_validate_iff b.element e.libs (b.options false beginTx countTx) beginTx
    (b.element.beginPos + 80) firstHelper ((whole.txs.drop beginTx).take countTx)
  constructor
  · rintro ⟨full', part, hfull', hfile, hcache, hslices, hsign⟩
    rw [hfull] at hfull'
    cases hfull'
    obtain ⟨bi, ⟨hfrom, signature, hsig, hheader⟩, rfl⟩ := (getFullBlock_file_iff b hne).1 hfile
    obtain ⟨bi', ⟨hfrom', -⟩, heq⟩ := (getFullBlock_cache_iff b hne).1 hcache
    rw [hpart] at hslices
    have hbi := map_setBlockNumber_inj hfrom.asRead hpartRead hslices
    have hbi' := map_setBlockNumber_inj hfrom'.asRead hpartRead
      ((congrArg BlockInfo.txs heq).symm.trans hslices)
    rw [hbi] at hfrom hsig
    rw [hbi'] at hfrom'
    obtain ⟨hplace, hunsigned⟩ := hslice.1 hfrom
    refine ⟨hplace, hunsigned, ?_, (hvalid.1 hfrom').2⟩
    rw [signatureOf_asRead _ hpartRead, head?_part hne] at hsig
    rw [Exec.ok.inj hsig, hwhole, ← hsignature, ← hsign]
    dsimp only
    rw [hheader]
  · rintro ⟨hplace, hunsigned, hsign, hall⟩
    have hfrom := hslice.2 ⟨hplace, hunsigned⟩
    have hsig : signatureOf b.bh.signature ((whole.txs.drop beginTx).take countTx) =
        .ok whole.header.signature := by
      rw [signatureOf_asRead _ hpartRead, head?_part hne, hsign, hwhole]
    refine ⟨full, _, hfull, (getFullBlock_file_iff b hne).2 ⟨⟨_, _⟩, ⟨hfrom, _, hsig, rfl⟩, rfl⟩,
      (getFullBlock_cache_iff b hne).2 ⟨⟨_, _⟩, ⟨hvalid.2 ⟨hfrom, hall⟩, _, hsig, rfl⟩, rfl⟩,
      hpart.symm, hsignature.symm⟩

end

/-! ## Two signatures -/

/-- A signature in DER form. -/
def derSign (r s : ℕ) : Bytes := [0x30, 0x44, 2, 32] ++ beBytes 32 r ++ [2, 32] ++ beBytes 32 s

/-- The transactions of a block by the secret key 2, up to the data, and their signatures: two of them
    sign the block, the third one is a transfer. -/
def signedTxs : List (Bytes × Bytes) :=
  [(beBytes 25 0x00d6c8e828c1eca1bba065e1b83e1dc2a36e387a4274d4b4aa ++ [0, 0, 1, 1, 0xAA],
    derSign 0x72b711109e1e5528147ae08df5a2a5cba7ab70ab6e7bcb9c6db61b4e018eb739
      0x4e10b54164a5c3c4160f8aa12a85729cc6c43ab20fc5eceb812017387fb07fd8),
   (beBytes 25 0x00d6c8e828c1eca1bba065e1b83e1dc2a36e387a4274d4b4aa ++ [0, 0, 2, 1, 0xAA],
    derSign 0x13ab8cfeb20cf607819a1f35f65c0870a3b2c52bdacaacfcc75752b138c466fc
      0x24181c44ee25136df7383d43d6b5b4cc52b2593382138e31912e160cb2603b59),
   (beBytes 25 0x0091b24bf9f5288532960ac687abb035127b1d28a50074ffe0 ++ [5, 0, 3, 0],
    derSign 0x1a5352ceae86e6605c661c4e8f26689cb2b8ca3c3295838e2cc3b4ba760a96af
      0x0d7b6c7e6764dbf91136c5a5472b60d92153a3b48adbd1d641874fb614243eb9)]

/-- The bodies of the transactions. -/
def signedBodies : List Bytes :=
  signedTxs.map fun tx => tx.1 ++ [70] ++ tx.2 ++ [88] ++ Sample.derDouble

/-- The block. -/
def twoSignatures : Buf where
  beginPos := 4096
  bytes := List.replicate 80 0 ++ signedBodies.flatMap (fun tx => UInt8.ofNat tx.length :: tx) ++ [0]
  inUserSpace := by decide +kernel

/-- SHA-256 on what is hashed of this block. -/
def twoSignaturesHashes : List (Bytes × ℕ) :=
  Sample.sha256Table ++
  (signedTxs.map Prod.fst).zip
    [0x4956ead4009c241a0be01c840ae6434403479dfe620a1431b893af74885a6940,
     0xceb0f904a69ca901dc5de29546cc37993213c50233cde0e160be46ec258d089b,
     0x05bea6c19192ec508e463498f0eb96cc601c446348eb5f7644766d3c7ebfb42e] ++
  signedBodies.zip
    [0xa2a88fa4faffefd51ab578d8ac268d8de60590be2e5a0ebe446c99c638af1634,
     0xa965da6fd021cbedd7fa850c87c0e57b58603c2e0977f78ea0772f012855c032,
     0x96626c868addc27379a49eabb4efb8bb350ba82a3a55fabf478ca50fa21f64c9] ++
  [(beBytes 32 0xa2a88fa4faffefd51ab578d8ac268d8de60590be2e5a0ebe446c99c638af1634,
    0xd25d377827f9ff1f678e2340611a3fd8b80d4258d356549f5c1a6ef8b457fca9),
   (beBytes 32 0xa965da6fd021cbedd7fa850c87c0e57b58603c2e0977f78ea0772f012855c032,
    0x6238c24e3b375d0d0f8edd0e7c70149b8efbfe758ea3fb6ece9efc8be48e049c),
   (beBytes 32 0x96626c868addc27379a49eabb4efb8bb350ba82a3a55fabf478ca50fa21f64c9,
    0x8119703ac1c2d69481402001d066dc7b14c8ad593e9609a45e129a29de0cbcac),
   (twoSignatures.bytes, 0xf2d4687282249454c6f05e7203fdbd324117cdc1bef707575a29a5183b223bfb),
   (beBytes 32 0xf2d4687282249454c6f05e7203fdbd324117cdc1bef707575a29a5183b223bfb,
    0x9497239fef342be0d852d8a9cbc4b63f4fff791d182bc85dcef7550af3583596)]

/-- The libraries on this block. -/
def twoSignaturesLibs : Libs where
  crypto := { Sample.crypto with
    sha256 := fun bs => ⟨beBytes 32 ((twoSignaturesHashes.lookup bs).getD 0), beBytes_length _ _⟩
    ecdsaDoVerify := fun hash (s : Bytes) key => key.isSome && signedTxs.any fun tx =>
      tx.2 == s && beBytes 32 ((twoSignaturesHashes.lookup tx.1).getD 0) == hash }
  support := Sample.support
  json := { parse := fun _ => none }

/-- The header of the block in the index. -/
def twoSignaturesHeader : BlockHeader where
  hash := Sample.support.toHex
    (beBytes 32 0x9497239fef342be0d852d8a9cbc4b63f4fff791d182bc85dcef7550af3583596)
  signature := [0xAA]
  filePos := { pos := 0, fileName := ascii ['f'] }
  blockNumber := some 7

/-- A node with this block in the file `f` and in its cache. -/
def twoSignaturesEnv : Env where
  modules := ⟨true, true, false, false⟩
  blockDumpCache hash := if hash = twoSignaturesHeader.hash then some twoSignatures else none
  files name := if name = ascii ['f'] then some (blockRecord twoSignatures.bytes) else none
  memory := { addr := fun n => 2 ^ 63 - n, room := by omega }
  libs := twoSignaturesLibs

def twoSignaturesBlock : StoredBlock twoSignaturesEnv where
  bh := twoSignaturesHeader
  number := 7
  file := blockRecord twoSignatures.bytes
  element := twoSignatures
  serves := rfl
  number_eq := rfl
  number_ne := by decide
  file_eq := if_pos (c := twoSignaturesHeader.filePos.fileName = ascii ['f']) (e := none) rfl
  named := by decide
  record := ⟨standsAt_self _, by decide +kernel, by decide +kernel⟩
  cached := if_pos (c := twoSignaturesHeader.hash = twoSignaturesHeader.hash) (e := none) rfl

/-- The second transaction signs the block, and in a part that begins with it it does not. -/
theorem twoSignatures_not_slices : ¬ Slices twoSignaturesBlock 1 1 := by
  have hwhole : (getFullBlock twoSignaturesEnv.withoutCache twoSignaturesHeader 0 0 >>= fun bi =>
      .ok (bi.txs.map fun tx => tx.isSignBlockTx)) = .ok [true, true, false] := by decide +kernel
  have hpart : (getFullBlock twoSignaturesEnv.withoutCache twoSignaturesHeader 1 1 >>= fun bi =>
      .ok (bi.txs.map fun tx => tx.isSignBlockTx)) = .ok [false] := by decide +kernel
  rintro ⟨full, part, hfull, hfile, -, hslice, -⟩
  have hfull' : getFullBlock twoSignaturesEnv.withoutCache twoSignaturesHeader 0 0 = .ok full := hfull
  have hfile' : getFullBlock twoSignaturesEnv.withoutCache twoSignaturesHeader 1 1 = .ok part := hfile
  rw [hfull', ok_bind] at hwhole
  rw [hfile', ok_bind, hslice, List.map_take, List.map_drop, Exec.ok.inj hwhole] at hpart
  revert hpart
  decide

/-- The third transaction is read by itself as it is read with the block. -/
theorem twoSignatures_slices : Slices twoSignaturesBlock 2 1 := by
  have hfacts : (readBlockTxs twoSignatures twoSignaturesLibs (twoSignaturesBlock.options false 0 0)
      twoSignaturesHeader >>= fun bi => .ok (
        decide (skipTo twoSignatures 2 (twoSignatures.beginPos + 80) =
          .ok ((bi.txs[2]?).map (txPlace 0))) &&
        decide ((bi.txs[2]?).all fun tx => !tx.isSignBlockTx) &&
        decide (headerSignature [0xAA] bi.txs[2]? = headerSignature [0xAA] bi.txs.head?) &&
        ((bi.txs.drop 2).take 1).all fun tx =>
          decide (tx.fromAddress.isInitialWallet = .ok false) &&
          cryptoCheckSignData twoSignaturesLibs.crypto tx.sign tx.pubKey
            (slice twoSignatures.bytes (varIntAt twoSignatures.bytes (txPlace 0 tx)).2
              (stringEnd twoSignatures.bytes
                (fieldsEnd twoSignatures.bytes (varIntAt twoSignatures.bytes (txPlace 0 tx)).2) -
                (varIntAt twoSignatures.bytes (txPlace 0 tx)).2)))) = .ok true := by
    decide +kernel
  obtain ⟨whole, hparses, hfacts⟩ := bind_eq_ok.1 hfacts
  simp only [Exec.ok.injEq, Bool.and_eq_true, decide_eq_true_eq, List.all_eq_true] at hfacts
  obtain ⟨⟨⟨hplace, hunsigned⟩, hsign⟩, hvalid⟩ := hfacts
  refine (getFullBlock_slices_iff twoSignaturesBlock hparses 2 1 le_rfl).2 ⟨hplace, ?_, hsign, ?_⟩
  · right
    intro tx htx
    rw [htx] at hunsigned
    simpa using hunsigned
  · intro tx htx
    obtain ⟨hinitial, hcheck⟩ := hvalid tx htx
    exact ⟨false, hinitial, fun _ => hcheck⟩

end WorkerMain

end TorrentNode
