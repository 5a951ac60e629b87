/-
  The block format, and that the parser inverts it.

  A block is a header of 80 bytes, transactions, and a zero length.  A
  transaction is its length and its fields; lengths and numbers are varints of
  1, 3, 5 or 9 bytes.  The status, if there is one, stands at the end and does
  not belong to the hashed part.

  `readNextBlockInfo_encode_iff`: the parser returns the header and the
  transactions of every block in memory, with their hashes and positions,
  exactly if the length of every public key is at least 65 as an `int`.
-/
import TorrentNode.BlockchainRead.Safety

open Wire Exec

namespace TorrentNode

namespace Format

/-! ## The format -/

/-- The canonical varint of a number below 2^64. -/
def varInt (n : ℕ) : Bytes :=
  if n ≤ 249 then leBytes 1 n
  else if n < 2 ^ 16 then 250 :: leBytes 2 n
  else if n < 2 ^ 32 then 251 :: leBytes 4 n
  else 252 :: leBytes 8 n

/-- A byte string behind its length. -/
def sized (bs : Bytes) : Bytes := varInt bs.length ++ bs

/-- A transaction. -/
structure Tx where
  toAddress : Digest 25
  value : Int64
  fees : Int64
  nonce : UInt64
  data : Bytes
  sign : Bytes
  pubKey : Bytes
  status : Option UInt64
  pubKey_size : pubKey = [] ∨ 65 ≤ pubKey.length

namespace Tx

/-- The fields in front of the data. -/
def fields (tx : Tx) : Bytes :=
  tx.toAddress.1 ++ (varInt tx.value.toUInt64.toNat ++ (varInt tx.fees.toUInt64.toNat ++
    (varInt tx.nonce.toNat ++ varInt tx.data.length)))

/-- The encoding without length and status. -/
def body (tx : Tx) : Bytes := tx.fields ++ (tx.data ++ (sized tx.sign ++ sized tx.pubKey))

/-- The status, or nothing. -/
def statusBytes (tx : Tx) : Bytes := (tx.status.map fun s => varInt s.toNat).getD []

/-- The encoding of a transaction. -/
def encode (tx : Tx) : Bytes := sized (tx.body ++ tx.statusBytes)

/-- The length of the public key is at least 65 as an `int`. -/
def KeyFits (tx : Tx) : Prop := tx.pubKey = [] ∨ 65 ≤ toInt32 tx.pubKey.length

end Tx

/-- A block. -/
structure Block where
  blockType : UInt64
  timestamp : UInt64
  prevHash : Digest 32
  txsHash : Digest 32
  txs : List Tx

/-- The transactions and the zero length behind them. -/
def encodeTxs (txs : List Tx) : Bytes := txs.flatMap Tx.encode ++ [0]

/-- The header of a block. -/
def Block.encodeHeader (block : Block) : Bytes :=
  leBytes 8 block.blockType.toNat ++ (leBytes 8 block.timestamp.toNat ++
    (block.prevHash.1 ++ block.txsHash.1))

/-- The encoding of a block. -/
def Block.encode (block : Block) : Bytes := block.encodeHeader ++ encodeTxs block.txs

/-- A block in memory. -/
structure LoadedBlock extends Block where
  beginPos : ℕ
  inUserSpace : beginPos + toBlock.encode.length ≤ 2 ^ 63

/-- The memory of a block. -/
def LoadedBlock.buf (m : LoadedBlock) : Buf := ⟨m.beginPos, m.toBlock.encode, m.inUserSpace⟩

/-! ## What the parser should return -/

/-- A transaction whose length stands at `off` was read. -/
structure TxRead (L : Libs) (posInFile : UInt64) (off : ℕ) (tx : Tx) (info : TransactionInfo) :
    Prop where
  toAddress : info.toAddress = Address.ofRange tx.toAddress.1
  value : info.value = tx.value
  fees : info.fees = tx.fees
  nonce : info.nonce = tx.nonce
  data : info.data = tx.data
  sign : info.sign = tx.sign
  pubKey : info.pubKey = tx.pubKey
  status : info.intStatus = tx.status
  hash : info.hash = (getDoubleSha256 L.crypto tx.body).1
  filePos : info.filePos.pos = posInFile + 8 + UInt64.ofNat off

/-- The transactions from `off` on were read in order. -/
def TxsRead (L : Libs) (posInFile : UInt64) : ℕ → List Tx → List TransactionInfo → Prop
  | _, [], [] => True
  | off, tx :: txs, info :: infos =>
    TxRead L posInFile off tx info ∧ TxsRead L posInFile (off + tx.encode.length) txs infos
  | _, _, _ => False

/-- The block was read. -/
structure BlockRead (L : Libs) (posInFile : UInt64) (block : Block) (bi : BlockInfo) : Prop where
  blockType : bi.header.blockType = block.blockType
  timestamp : bi.header.timestamp = block.timestamp
  prevHash : bi.header.prevHash = L.support.toHex block.prevHash.1
  txsHash : bi.header.txsHash = L.support.toHex block.txsHash.1
  hash : bi.header.hash = L.support.toHex (getDoubleSha256 L.crypto block.encode).1
  blockSize : bi.header.blockSize = UInt64.ofNat block.encode.length
  endBlockPos : bi.header.endBlockPos = posInFile + 8 + UInt64.ofNat block.encode.length
  countTxs : bi.header.countTxs = some (UInt64.ofNat block.txs.length)
  txs : TxsRead L posInFile 80 block.txs bi.txs

/-! ## Fields -/

theorem varInt_length_pos (n : ℕ) : 0 < (varInt n).length := by
  unfold varInt
  split_ifs <;> simp

@[simp] theorem sized_length (bs : Bytes) :
    (sized bs).length = (varInt bs.length).length + bs.length := List.length_append

section
variable {b : Buf}

/-- An integer that stands at the cursor. -/
theorem readInt_at {w n pos endPos : ℕ} (hn : n < 256 ^ w) (h : StandsAt b.bytes pos (leBytes w n))
    (hw : w ≠ 0) (hle : b.beginPos + pos + w ≤ endPos) :
    readInt b w (b.beginPos + pos) endPos = .ok (n, b.beginPos + pos + w) := by
  have hin := h.le_length (List.ne_nil_of_length_pos (by simp; omega))
  rw [leBytes_length] at hin
  have hspace := b.inUserSpace
  have hload := Buf.load_standsAt (ε := Exn) b h
  rw [leBytes_length] at hload
  rw [readInt, advance_eq (by omega), check_of hle, ok_bind, hload, ok_bind, leNat_leBytes_of_lt hn]
  rfl

/-- A varint that stands at the cursor. -/
theorem readVarInt_at {n pos endPos : ℕ} (hn : n < 2 ^ 64) (h : StandsAt b.bytes pos (varInt n))
    (hle : b.beginPos + pos + (varInt n).length ≤ endPos) :
    readVarInt b (b.beginPos + pos) endPos = .ok (n, b.beginPos + pos + (varInt n).length) := by
  -- a marker and an integer of `w` bytes
  have hmark : ∀ m w, m < 256 → w ≠ 0 → n < 256 ^ w → varInt n = UInt8.ofNat m :: leBytes w n →
      readInt b 1 (b.beginPos + pos) endPos = .ok (m, b.beginPos + pos + 1) ∧
      readInt b w (b.beginPos + pos + 1) endPos =
        .ok (n, b.beginPos + pos + (varInt n).length) := by
    intro m w hm hw hlt hv
    have hsplit : UInt8.ofNat m :: leBytes w n = leBytes 1 m ++ leBytes w n := rfl
    rw [hv, hsplit, standsAt_append, leBytes_length] at h
    rw [hv, List.length_cons, leBytes_length] at hle ⊢
    refine ⟨readInt_at (by omega) h.1 (by omega) (by omega), ?_⟩
    rw [Nat.add_assoc b.beginPos, readInt_at hlt h.2 hw (by omega)]
    congr 2
    omega
  unfold readVarInt
  by_cases h1 : n ≤ 249
  · have hv : varInt n = leBytes 1 n := if_pos h1
    rw [hv, leBytes_length] at hle ⊢
    rw [hv] at h
    rw [readInt_at (by omega) h (by omega) hle, ok_bind]
    dsimp only
    rw [if_pos h1]
    rfl
  by_cases h2 : n < 2 ^ 16
  · have hv : varInt n = 250 :: leBytes 2 n := by rw [varInt, if_neg h1, if_pos h2]
    obtain ⟨hm, hi⟩ := hmark 250 2 (by omega) (by omega) (by omega) hv
    rw [hm, ok_bind]
    exact hi
  by_cases h3 : n < 2 ^ 32
  · have hv : varInt n = 251 :: leBytes 4 n := by rw [varInt, if_neg h1, if_neg h2, if_pos h3]
    obtain ⟨hm, hi⟩ := hmark 251 4 (by omega) (by omega) (by omega) hv
    rw [hm, ok_bind]
    exact hi
  · have hv : varInt n = 252 :: leBytes 8 n := by rw [varInt, if_neg h1, if_neg h2, if_neg h3]
    obtain ⟨hm, hi⟩ := hmark 252 8 (by omega) (by omega) (by omega) hv
    rw [hm, ok_bind]
    exact hi

/-- A signature or a public key that stands at the cursor. -/
theorem readString_at {str : Bytes} {pos endPos : ℕ} (h : StandsAt b.bytes pos (sized str))
    (hle : b.beginPos + pos + (sized str).length ≤ endPos) (hend : endPos ≤ b.endPos) :
    readString b (b.beginPos + pos) endPos = .ok (str, b.beginPos + pos + (sized str).length) := by
  have hend63 := endPos_le b
  have hpos := varInt_length_pos str.length
  rw [sized_length] at hle ⊢
  rw [sized, standsAt_append] at h
  have hload := Buf.load_standsAt (ε := Exn) b h.2
  rw [readString, readVarInt_at (by omega) h.1 (by omega), ok_bind]
  dsimp only
  rw [advance_eq (by omega), check_of (by omega), ok_bind, readVector, Exec.check_pos (by omega),
    ok_bind, Nat.add_assoc b.beginPos, hload, ok_bind, pure_eq_ok]
  congr 2
  omega

/-- The fields in front of the data. -/
theorem readTxFields_at {tx : Tx} {pos endPos : ℕ} (h : StandsAt b.bytes pos tx.fields)
    (hdata : tx.data.length < 2 ^ 64) (hle : b.beginPos + pos + tx.fields.length ≤ endPos)
    (hend : endPos ≤ b.endPos) :
    readTxFields b (b.beginPos + pos) endPos =
      .ok (⟨tx.toAddress.1, tx.value.toUInt64.toNat, tx.fees.toUInt64.toNat, tx.nonce.toNat,
        tx.data.length⟩, b.beginPos + pos + tx.fields.length) := by
  have hend63 := endPos_le b
  rw [Tx.fields, standsAt_append, standsAt_append, standsAt_append, standsAt_append] at h
  simp only [Tx.fields, List.length_append, tx.toAddress.2] at h hle ⊢
  obtain ⟨hto, hvalue, hfees, hnonce, hsize⟩ := h
  have hload := Buf.load_standsAt (ε := Exn) b hto
  rw [tx.toAddress.2] at hload
  rw [readTxFields, advance_eq (by omega), check_of (by omega), ok_bind, hload, ok_bind]
  dsimp only
  rw [Nat.add_assoc b.beginPos, readVarInt_at (UInt64.toNat_lt _) hvalue (by omega), ok_bind]
  dsimp only
  rw [Nat.add_assoc b.beginPos, readVarInt_at (UInt64.toNat_lt _) hfees (by omega), ok_bind]
  dsimp only
  rw [Nat.add_assoc b.beginPos, readVarInt_at (UInt64.toNat_lt _) hnonce (by omega), ok_bind]
  dsimp only
  rw [Nat.add_assoc b.beginPos, readVarInt_at hdata hsize (by omega), ok_bind, pure_eq_ok]
  congr 2
  omega

/-- The status is recognised by the bytes that are left. -/
theorem readStatus_at {tx : Tx} {pos : ℕ} (h : StandsAt b.bytes pos tx.statusBytes) :
    readStatus b (b.beginPos + pos) (b.beginPos + pos + tx.statusBytes.length) =
      .ok (tx.status, b.beginPos + pos + tx.statusBytes.length) := by
  unfold readStatus
  cases hs : tx.status with
  | none =>
    have hb : tx.statusBytes = [] := by rw [Tx.statusBytes, hs]; rfl
    simp [hb]
  | some s =>
    have hb : tx.statusBytes = varInt s.toNat := by rw [Tx.statusBytes, hs]; rfl
    have hpos := varInt_length_pos s.toNat
    rw [hb] at h ⊢
    rw [if_pos (by omega), readVarInt_at (UInt64.toNat_lt _) h le_rfl, ok_bind]
    simp

variable {L : Libs}

theorem setData_eq (txInfo : TransactionInfo) (data : Bytes) (h : txInfo.toAddress.isSet = true) :
    ∃ scriptInfo isModuleNotSet, setData L txInfo data = .ok { txInfo with
      data := data
      delegate := delegateOf L data
      scriptInfo := scriptInfo
      isModuleNotSet := isModuleNotSet } := by
  simp only [setData, Address.isScriptAddress, check_of h, ok_bind, pure_eq_ok]
  split_ifs
  · exact ⟨_, _, rfl⟩
  · exact ⟨txInfo.scriptInfo, txInfo.isModuleNotSet, rfl⟩

theorem ofNat_toUInt64 (v : Int64) : Int64.ofNat v.toUInt64.toNat = v := by
  apply Int64.toBitVec_inj.1
  simp

/-- The transaction as it is read, before anything is computed from it. -/
def Tx.fill (tx : Tx) (L : Libs) (txInfo : TransactionInfo) (scriptInfo : Option ScriptInfo)
    (isModuleNotSet : Bool) : TransactionInfo :=
  { txInfo with
    toAddress := Address.ofRange tx.toAddress.1
    value := tx.value
    fees := tx.fees
    nonce := tx.nonce
    data := tx.data
    delegate := delegateOf L tx.data
    scriptInfo := scriptInfo
    isModuleNotSet := isModuleNotSet
    sign := tx.sign
    pubKey := tx.pubKey
    intStatus := tx.status }

theorem Tx.body_length (tx : Tx) : tx.body.length =
    tx.fields.length + (tx.data.length + ((sized tx.sign).length + (sized tx.pubKey).length)) := by
  simp only [Tx.body, List.length_append]

theorem Tx.fields_length_pos (tx : Tx) : 0 < tx.fields.length := by
  rw [Tx.fields, List.length_append, tx.toAddress.2]; omega

/-- The fields behind the data. -/
theorem readTxTail_at {tx : Tx} {pos txStart : ℕ} (txInfo : TransactionInfo) (isSaveAllTx : Bool)
    (helper : PrevTransactionSignHelper) (isValidate : Bool)
    (hsign : StandsAt b.bytes (txStart + (tx.fields.length + tx.data.length)) (sized tx.sign))
    (hpubKey : StandsAt b.bytes
      (txStart + (tx.fields.length + tx.data.length + (sized tx.sign).length)) (sized tx.pubKey))
    (hstatus : StandsAt b.bytes (txStart + tx.body.length) tx.statusBytes)
    (hend : b.beginPos + txStart + (tx.body ++ tx.statusBytes).length ≤ b.endPos) :
    readTxTail b L txInfo (b.beginPos + pos) (b.beginPos + txStart)
        (b.beginPos + txStart + (tx.fields.length + tx.data.length))
        (b.beginPos + txStart + (tx.body ++ tx.statusBytes).length)
        (tx.body ++ tx.statusBytes).length isSaveAllTx helper isValidate =
      (completeTx b L { txInfo with sign := tx.sign, pubKey := tx.pubKey, intStatus := tx.status }
          (b.beginPos + pos) (b.beginPos + txStart)
          (b.beginPos + txStart + (tx.fields.length + tx.data.length))
          (b.beginPos + txStart + (tx.body ++ tx.statusBytes).length)
          (tx.body ++ tx.statusBytes).length tx.body.length isSaveAllTx helper isValidate >>=
        fun info => .ok ((tx.body ++ tx.statusBytes).length,
          b.beginPos + txStart + (tx.body ++ tx.statusBytes).length, info)) := by
  have hbody := tx.body_length
  have hlen : (tx.body ++ tx.statusBytes).length = tx.body.length + tx.statusBytes.length :=
    List.length_append
  rw [hlen] at hend ⊢
  have h1 := readString_at hsign (by omega) hend
  have h2 := readString_at hpubKey (by omega) hend
  have h3 := readStatus_at hstatus
  have e1 : b.beginPos + (txStart + (tx.fields.length + tx.data.length)) + (sized tx.sign).length =
      b.beginPos + (txStart + (tx.fields.length + tx.data.length + (sized tx.sign).length)) := by
    omega
  have e2 : b.beginPos + (txStart + (tx.fields.length + tx.data.length + (sized tx.sign).length)) +
      (sized tx.pubKey).length = b.beginPos + (txStart + tx.body.length) := by omega
  have e3 : b.beginPos + (txStart + tx.body.length) + tx.statusBytes.length =
      b.beginPos + txStart + (tx.body.length + tx.statusBytes.length) := by omega
  have e4 : tx.body.length + tx.statusBytes.length -
      (b.beginPos + txStart + (tx.body.length + tx.statusBytes.length) -
        (b.beginPos + (txStart + tx.body.length))) = tx.body.length := by omega
  rw [e1] at h1
  rw [e2] at h2
  rw [e3] at h3
  rw [readTxTail, Nat.add_assoc b.beginPos txStart (tx.fields.length + tx.data.length), h1, ok_bind]
  dsimp only
  rw [h2, ok_bind]
  dsimp only
  rw [h3, ok_bind]
  dsimp only
  rw [e4]
  rfl

/-- A transaction is read up to what is computed from all of its fields. -/
theorem readTransactionInfo_at {tx : Tx} {pos : ℕ} (h : StandsAt b.bytes pos tx.encode)
    (txInfo : TransactionInfo) (isSaveAllTx : Bool) (helper : PrevTransactionSignHelper)
    (isValidate : Bool) :
    ∃ scriptInfo isModuleNotSet txStart endClearTx,
      StandsAt b.bytes txStart tx.body ∧ pos ≤ txStart ∧ txStart ≤ endClearTx ∧
      endClearTx ≤ pos + tx.encode.length ∧ pos + tx.encode.length ≤ b.bytes.length ∧
      readTransactionInfo b L (b.beginPos + pos) b.endPos txInfo true isSaveAllTx helper isValidate =
        (completeTx b L (tx.fill L txInfo scriptInfo isModuleNotSet) (b.beginPos + pos)
          (b.beginPos + txStart) (b.beginPos + endClearTx) (b.beginPos + (pos + tx.encode.length))
          (tx.body ++ tx.statusBytes).length tx.body.length isSaveAllTx helper isValidate >>=
        fun info => .ok ((tx.body ++ tx.statusBytes).length,
          b.beginPos + (pos + tx.encode.length), info)) := by
  have hend63 := endPos_le b
  have hend : b.endPos = b.beginPos + b.bytes.length := rfl
  have hbody := tx.body_length
  have hfields := tx.fields_length_pos
  have hpre := varInt_length_pos (tx.body ++ tx.statusBytes).length
  have henc : tx.encode.length = (varInt (tx.body ++ tx.statusBytes).length).length +
      (tx.body ++ tx.statusBytes).length := by rw [Tx.encode, sized_length]
  have hin := h.le_length (List.ne_nil_of_length_pos (by omega))
  have hlen : (tx.body ++ tx.statusBytes).length = tx.body.length + tx.statusBytes.length :=
    List.length_append
  rw [Tx.encode, sized, standsAt_append] at h
  obtain ⟨hvar, hrest⟩ := h
  generalize hstart : pos + (varInt (tx.body ++ tx.statusBytes).length).length = txStart at hrest
  rw [standsAt_append] at hrest
  obtain ⟨hb, hstatus⟩ := hrest
  have hparts := hb
  rw [Tx.body, standsAt_append, standsAt_append, standsAt_append, Nat.add_assoc, Nat.add_assoc,
    Nat.add_assoc] at hparts
  obtain ⟨hf, hd, hs, hp⟩ := hparts
  obtain ⟨scriptInfo, isModuleNotSet, hset⟩ := setData_eq (L := L)
    ((⟨tx.toAddress.1, tx.value.toUInt64.toNat, tx.fees.toUInt64.toNat, tx.nonce.toNat,
      tx.data.length⟩ : TxFields).setIn txInfo) tx.data rfl
  refine ⟨scriptInfo, isModuleNotSet, txStart, txStart + (tx.fields.length + tx.data.length), hb,
    by omega, by omega, by omega, hin, ?_⟩
  have hload := Buf.load_standsAt (ε := Exn) b hd
  rw [readTransactionInfo, readVarInt_at (by omega) hvar (by omega), ok_bind]
  dsimp only
  rw [if_neg (by omega), Nat.add_assoc b.beginPos, hstart, advance_eq (by omega),
    check_of (by omega), ok_bind]
  simp only [Bool.not_true, Bool.false_eq_true, if_false]
  rw [readTxFields_at hf (by omega) (by omega) (by omega), ok_bind]
  dsimp only
  rw [readVector, Exec.check_pos (by omega), ok_bind, Nat.add_assoc b.beginPos, hload, ok_bind, hset,
    ok_bind, advance_eq (by omega)]
  have e1 : b.beginPos + (txStart + tx.fields.length) + tx.data.length =
      b.beginPos + txStart + (tx.fields.length + tx.data.length) := by omega
  have e2 : b.beginPos + (pos + tx.encode.length) =
      b.beginPos + txStart + (tx.body ++ tx.statusBytes).length := by omega
  have e3 : b.beginPos + (txStart + (tx.fields.length + tx.data.length)) =
      b.beginPos + txStart + (tx.fields.length + tx.data.length) := by omega
  rw [e1, e2, e3, readTxTail_at _ isSaveAllTx helper isValidate hs (by convert hp using 2; omega)
    hstatus (by omega)]
  simp only [TxFields.setIn, Tx.fill, ofNat_toUInt64, UInt64.ofNat_toNat]

/-! ## Transactions -/

theorem getAddressBin_ne_nil {pubk : Bytes} (h : 65 ≤ toInt32 pubk.length) :
    getAddressBin L.crypto pubk ≠ [] := by
  intro hnil
  have := getAddressBin_length L.crypto h
  rw [hnil] at this
  cases this

theorem senderOf_of_keyFits {tx : Tx} (h : tx.KeyFits) :
    ∃ a, senderOf L tx.pubKey tx.data = .ok a ∧ a.isSet = true := by
  unfold senderOf
  by_cases hnil : tx.pubKey = []
  · rw [if_pos hnil]
    exact ⟨_, rfl, rfl⟩
  · have hsize := h.resolve_left hnil
    simp only [if_neg hnil, check_of (getAddressBin_ne_nil hsize), ok_bind]
    exact ⟨_, rfl, rfl⟩

theorem senderOf_of_not_keyFits {tx : Tx} (h : ¬ tx.KeyFits) :
    senderOf L tx.pubKey tx.data = .throw (.common "incorrect pubkey script") := by
  have hnil : tx.pubKey ≠ [] := fun hn => h (Or.inl hn)
  have hsize : ¬ 65 ≤ toInt32 tx.pubKey.length := fun hs => h (Or.inr hs)
  simp only [senderOf, if_neg hnil, getAddressBin_invalid L.crypto hsize]
  rfl

theorem isSignBlockTx_ok (txInfo : TransactionInfo) (helper : PrevTransactionSignHelper)
    (hfrom : txInfo.fromAddress.isSet = true) (hto : txInfo.toAddress.isSet = true) :
    ∃ r, isSignBlockTx txInfo helper = .ok r := by
  unfold isSignBlockTx
  split_ifs
  · exact ⟨_, rfl⟩
  · simp only [Address.eq, check_of hfrom, check_of hto, ok_bind]
    exact ⟨_, rfl⟩

theorem readTxRaw_ok (txInfo : TransactionInfo) (txStart endClearTx : ℕ)
    (hpos : b.beginPos ≤ txStart) (hle : txStart ≤ endClearTx) (hend : endClearTx ≤ b.endPos) :
    ∃ r, readTxRaw b txInfo txStart endClearTx = .ok r := by
  unfold readTxRaw
  split
  · exact ⟨_, rfl⟩
  · rw [Buf.load_inside b ⟨hpos, by omega⟩]
    exact ⟨_, rfl⟩

theorem readAllRawTx_ok (isSaveAllTx : Bool) (allTxStart allTxEnd : ℕ)
    (hpos : b.beginPos ≤ allTxStart) (hle : allTxStart ≤ allTxEnd) (hend : allTxEnd ≤ b.endPos) :
    ∃ r, readAllRawTx b isSaveAllTx allTxStart allTxEnd = .ok r := by
  unfold readAllRawTx
  split_ifs
  · rw [Buf.load_inside b ⟨hpos, by omega⟩]
    exact ⟨_, rfl⟩
  · exact ⟨_, rfl⟩

/-- Without validation, only the address of the sender can fail. -/
theorem completeTx_ok (txInfo : TransactionInfo)
    {allTxStart txStart endClearTx allTxEnd txSize : ℕ} {hashed : Bytes} (isSaveAllTx : Bool)
    (helper : PrevTransactionSignHelper) {a : Address}
    (ha : senderOf L txInfo.pubKey txInfo.data = .ok a) (hset : a.isSet = true)
    (hto : txInfo.toAddress.isSet = true) (hsize : 0 < txSize) (h1 : allTxStart ≤ txStart)
    (h2 : txStart ≤ endClearTx) (h3 : endClearTx ≤ allTxEnd)
    (h4 : allTxEnd ≤ b.bytes.length) (hhash : StandsAt b.bytes txStart hashed) :
    ∃ scriptInfo allRawTx isSign realFees,
      completeTx b L txInfo (b.beginPos + allTxStart) (b.beginPos + txStart)
          (b.beginPos + endClearTx) (b.beginPos + allTxEnd) txSize hashed.length isSaveAllTx helper
          false =
        .ok { txInfo with
          fromAddress := a
          hash := (getDoubleSha256 L.crypto hashed).1
          scriptInfo := scriptInfo
          sizeRawTx := txSize
          allRawTx := allRawTx
          isSignBlockTx := isSign
          realFees := realFees
          isInitialized := true } := by
  have hend : b.endPos = b.beginPos + b.bytes.length := rfl
  obtain ⟨scriptInfo, hs⟩ := readTxRaw_ok (b := b) txInfo (b.beginPos + txStart)
    (b.beginPos + endClearTx) (by omega) (by omega) (by omega)
  obtain ⟨raw, hraw⟩ := readAllRawTx_ok (b := b) isSaveAllTx (b.beginPos + allTxStart)
    (b.beginPos + allTxEnd) (by omega) (by omega) (by omega)
  obtain ⟨isSign, hsign⟩ := isSignBlockTx_ok { txInfo with
    fromAddress := a
    hash := (getDoubleSha256 L.crypto hashed).1
    scriptInfo := scriptInfo
    sizeRawTx := txSize
    allRawTx := raw } helper hset hto
  rw [completeTx, ha, ok_bind, Buf.load_standsAt b hhash, ok_bind, hs, ok_bind, hraw, ok_bind]
  dsimp only
  rw [hsign, ok_bind]
  refine ⟨scriptInfo, raw, isSign, some (if 255 < txSize then txSize - 255 else 0), ?_⟩
  simp only [validateTx, Bool.not_false, if_true, pure_eq_ok, ok_bind, TransactionInfo.calcRealFee,
    check_of hsize]

/-- What the loop needs to know about a transaction that was read. -/
structure Ready (info : TransactionInfo) : Prop where
  initialized : info.isInitialized = true
  fromSet : info.fromAddress.isSet = true
  toSet : info.toAddress.isSet = true

theorem Tx.size_pos (tx : Tx) : 0 < (tx.body ++ tx.statusBytes).length := by
  have := tx.fields_length_pos
  have := tx.body_length
  rw [List.length_append]; omega

theorem readTx_ok {tx : Tx} {pos : ℕ} (h : StandsAt b.bytes pos tx.encode) (hkey : tx.KeyFits)
    (txInfo : TransactionInfo) (isSaveAllTx : Bool) (helper : PrevTransactionSignHelper)
    {posInFile : UInt64} (hpos : txInfo.filePos.pos = posInFile + 8 + UInt64.ofNat pos) :
    ∃ info, readTransactionInfo b L (b.beginPos + pos) b.endPos txInfo true isSaveAllTx helper
        false = .ok ((tx.body ++ tx.statusBytes).length, b.beginPos + (pos + tx.encode.length), info) ∧
      TxRead L posInFile pos tx info ∧ Ready info := by
  obtain ⟨scriptInfo, isModuleNotSet, txStart, endClearTx, hbody, h1, h2, h3, h4, hread⟩ :=
    readTransactionInfo_at (L := L) h txInfo isSaveAllTx helper false
  obtain ⟨a, ha, hset⟩ := senderOf_of_keyFits (L := L) hkey
  obtain ⟨script, raw, isSign, fees, hcomplete⟩ := completeTx_ok (L := L)
    (tx.fill L txInfo scriptInfo isModuleNotSet) isSaveAllTx helper ha hset rfl tx.size_pos h1 h2 h3
    h4 hbody
  rw [hread, hcomplete, ok_bind]
  exact ⟨_, rfl, ⟨rfl, rfl, rfl, rfl, rfl, rfl, rfl, rfl, rfl, hpos⟩, ⟨rfl, hset, rfl⟩⟩

theorem readTx_throw {tx : Tx} {pos : ℕ} (h : StandsAt b.bytes pos tx.encode)
    (hkey : ¬ tx.KeyFits) (txInfo : TransactionInfo) (isSaveAllTx : Bool)
    (helper : PrevTransactionSignHelper) (isValidate : Bool) :
    readTransactionInfo b L (b.beginPos + pos) b.endPos txInfo true isSaveAllTx helper isValidate =
      .throw (.common "incorrect pubkey script") := by
  obtain ⟨scriptInfo, isModuleNotSet, txStart, endClearTx, -, -, -, -, -, hread⟩ :=
    readTransactionInfo_at (L := L) h txInfo isSaveAllTx helper isValidate
  have hsender : senderOf L (tx.fill L txInfo scriptInfo isModuleNotSet).pubKey
      (tx.fill L txInfo scriptInfo isModuleNotSet).data =
      .throw (.common "incorrect pubkey script") := senderOf_of_not_keyFits hkey
  rw [hread, completeTx, hsender]
  rfl

/-! ## Blocks -/

/-- The options of a whole block without validation. -/
def wholeBlock (posInFile : UInt64) (isSaveAllTx : Bool) : ReadOptions :=
  ⟨posInFile, false, isSaveAllTx, 0, 0⟩

variable (L) (posInFile : UInt64) (isSaveAllTx : Bool)

/-- The zero length ends the loop. -/
theorem step_end {s : TxsLoop} {pos : ℕ} (hcur : s.curPos = b.beginPos + pos)
    (h : StandsAt b.bytes pos (encodeTxs [])) :
    ∃ s', readBlockTxsStep b L (wholeBlock posInFile isSaveAllTx) s = .ok (s', false) ∧
      s'.txs = s.txs := by
  have hin := h.le_length (by simp [encodeTxs])
  have hend : b.endPos = b.beginPos + b.bytes.length := rfl
  have hzero : varInt 0 = encodeTxs [] := rfl
  have hone : (varInt 0).length = 1 := rfl
  rw [← hzero] at h hin
  have hvar := readVarInt_at (by norm_num) h
    (show b.beginPos + pos + (varInt 0).length ≤ b.endPos by omega)
  rw [readBlockTxsStep, readTransactionInfo, hcur, hvar]
  exact ⟨_, rfl, rfl⟩

/-- No transaction of a whole block is skipped. -/
theorem wholeBlock_saves (txIndex : ℕ) :
    decide ((wholeBlock posInFile isSaveAllTx).beginTx ≤ txIndex) = true :=
  decide_eq_true (Nat.zero_le _)

/-- An iteration reads a transaction. -/
theorem step_tx {s : TxsLoop} {pos : ℕ} {tx : Tx} (hcur : s.curPos = b.beginPos + pos)
    (h : StandsAt b.bytes pos tx.encode) (hkey : tx.KeyFits) :
    ∃ s' info, readBlockTxsStep b L (wholeBlock posInFile isSaveAllTx) s = .ok (s', true) ∧
      s'.txs = s.txs ++ [info] ∧ s'.curPos = b.beginPos + (pos + tx.encode.length) ∧
      TxRead L posInFile pos tx info ∧ Ready info := by
  obtain ⟨info, hread, htx, hready⟩ := readTx_ok (L := L) h hkey
    { filePos := { pos := txFilePos b posInFile s.curPos } } isSaveAllTx s.helper
    (by rw [hcur]; exact txFilePos_eq posInFile pos)
  have hsize := tx.size_pos
  rw [readBlockTxsStep, wholeBlock_saves]
  simp only [wholeBlock] at hread ⊢
  rw [hcur] at hread ⊢
  rw [hread, ok_bind]
  simp only [hready.initialized, Bool.and_true, if_true, ne_eq, not_true_eq_false, false_and,
    if_false, decide_eq_true hsize]
  exact ⟨_, info, rfl, rfl, rfl, htx, hready⟩

theorem step_throw {s : TxsLoop} {pos : ℕ} {tx : Tx} (hcur : s.curPos = b.beginPos + pos)
    (h : StandsAt b.bytes pos tx.encode) (hkey : ¬ tx.KeyFits) :
    readBlockTxsStep b L (wholeBlock posInFile isSaveAllTx) s =
      .throw (.common "incorrect pubkey script") := by
  rw [readBlockTxsStep, wholeBlock_saves, hcur, readTx_throw h hkey]
  rfl

theorem encodeTxs_cons (tx : Tx) (txs : List Tx) :
    encodeTxs (tx :: txs) = tx.encode ++ encodeTxs txs := by
  simp [encodeTxs]

/-- The loop reads the transactions in order. -/
theorem loop_txs {txs : List Tx} {s : TxsLoop} {pos fuel : ℕ} (hcur : s.curPos = b.beginPos + pos)
    (h : StandsAt b.bytes pos (encodeTxs txs)) (hfuel : txs.length < fuel)
    (hkeys : ∀ tx ∈ txs, tx.KeyFits) :
    ∃ s' infos, loop (readBlockTxsStep b L (wholeBlock posInFile isSaveAllTx)) fuel s = .ok s' ∧
      s'.txs = s.txs ++ infos ∧ TxsRead L posInFile pos txs infos ∧ ∀ info ∈ infos, Ready info := by
  induction txs generalizing s pos fuel with
  | nil =>
    obtain ⟨fuel, rfl⟩ := Nat.exists_eq_add_of_lt hfuel
    obtain ⟨s', hstep, htxs⟩ := step_end L posInFile isSaveAllTx hcur h
    rw [loop, hstep]
    exact ⟨s', [], rfl, by rw [htxs, List.append_nil], trivial, by simp⟩
  | cons tx txs ih =>
    obtain ⟨n, rfl⟩ := Nat.exists_eq_add_of_lt hfuel
    rw [encodeTxs_cons, standsAt_append] at h
    obtain ⟨s1, info, hstep, htxs1, hcur1, htx, hready⟩ := step_tx L posInFile isSaveAllTx
      hcur h.1 (hkeys tx List.mem_cons_self)
    obtain ⟨s', infos, hloop, htxs', hread, hrest⟩ := ih hcur1 h.2
      (show txs.length < (tx :: txs).length + n by rw [List.length_cons]; omega)
      fun t ht => hkeys t (List.mem_cons_of_mem _ ht)
    rw [loop, hstep]
    refine ⟨s', info :: infos, hloop, ?_, ⟨htx, hread⟩, ?_⟩
    · rw [htxs', htxs1, List.append_assoc, List.singleton_append]
    · rintro i (_ | ⟨_, hi⟩)
      · exact hready
      · exact hrest i hi

/-- The loop does not get over a public key that does not fit. -/
theorem loop_throw {txs : List Tx} {s : TxsLoop} {pos fuel : ℕ} (hcur : s.curPos = b.beginPos + pos)
    (h : StandsAt b.bytes pos (encodeTxs txs)) (hfuel : txs.length < fuel)
    (hkeys : ¬ ∀ tx ∈ txs, tx.KeyFits) :
    loop (readBlockTxsStep b L (wholeBlock posInFile isSaveAllTx)) fuel s =
      .throw (.common "incorrect pubkey script") := by
  induction txs generalizing s pos fuel with
  | nil => exact absurd (by simp) hkeys
  | cons tx txs ih =>
    obtain ⟨n, rfl⟩ := Nat.exists_eq_add_of_lt hfuel
    rw [encodeTxs_cons, standsAt_append] at h
    rw [loop]
    by_cases hkey : tx.KeyFits
    · obtain ⟨s1, info, hstep, -, hcur1, -, -⟩ := step_tx L posInFile isSaveAllTx hcur h.1
        hkey
      rw [hstep]
      refine ih hcur1 h.2 (by rw [List.length_cons]; omega) fun hrest => hkeys ?_
      rintro t (_ | ⟨_, ht⟩)
      · exact hkey
      · exact hrest t ht
    · rw [step_throw L posInFile isSaveAllTx hcur h.1 hkey]
      rfl

theorem encode_length_ge (block : Block) : 80 + block.txs.length < block.encode.length := by
  have htx : ∀ txs : List Tx, txs.length < (encodeTxs txs).length := by
    intro txs
    induction txs with
    | nil => simp [encodeTxs]
    | cons tx txs ih =>
      have hpos := tx.size_pos
      rw [encodeTxs_cons, List.length_append, List.length_cons, Tx.encode, sized_length]
      omega
  have := htx block.txs
  simp only [Block.encode, Block.encodeHeader, List.length_append, leBytes_length, block.prevHash.2,
    block.txsHash.2]
  omega

/-- The header that is read from the first 80 bytes. -/
theorem readHeader (m : LoadedBlock) :
    ∃ header : BlockHeader, readBlockHeaderWithoutSize m.buf L {} = .ok header ∧
      header.blockType = m.blockType ∧ header.timestamp = m.timestamp ∧
      header.prevHash = L.support.toHex m.prevHash.1 ∧
      header.txsHash = L.support.toHex m.txsHash.1 := by
  have hlen : 80 ≤ m.buf.bytes.length := by
    have := encode_length_ge m.toBlock
    show 80 ≤ m.toBlock.encode.length
    omega
  have hat : StandsAt m.buf.bytes 0 m.toBlock.encodeHeader := standsAt_zero_append _ _
  rw [Block.encodeHeader, standsAt_append, standsAt_append, standsAt_append] at hat
  obtain ⟨h1, h2, h3, h4⟩ := hat
  have s1 := h1.slice_eq
  have s2 := h2.slice_eq
  have s3 := h3.slice_eq
  have s4 := h4.slice_eq
  simp only [leBytes_length, m.prevHash.2, m.txsHash.2, Nat.zero_add, Nat.reduceAdd] at s1 s2 s3 s4
  refine ⟨_, readBlockHeaderWithoutSize_eq hlen {}, ?_, ?_, ?_, ?_⟩
  · simp [s1, leNat_leBytes_of_lt (w := 8) m.blockType.toNat_lt]
  · simp [s2, leNat_leBytes_of_lt (w := 8) m.timestamp.toNat_lt]
  · simp only [s3]
  · simp only [s4]

theorem signatureOf_ok (signature : Bytes) {infos : List TransactionInfo}
    (h : ∀ info ∈ infos, Ready info) : ∃ r, signatureOf signature infos = .ok r := by
  cases infos with
  | nil => exact ⟨_, rfl⟩
  | cons info infos =>
    have hr := h info List.mem_cons_self
    simp only [signatureOf, Address.eq, check_of hr.fromSet, check_of hr.toSet, ok_bind]
    exact ⟨_, rfl⟩

theorem txsRead_length {off : ℕ} {txs : List Tx} {infos : List TransactionInfo}
    (h : TxsRead L posInFile off txs infos) : infos.length = txs.length := by
  induction txs generalizing off infos with
  | nil =>
    cases infos with
    | nil => rfl
    | cons info infos => exact h.elim
  | cons tx txs ih =>
    cases infos with
    | nil => exact h.elim
    | cons info infos => rw [List.length_cons, List.length_cons, ih h.2]

/-- The transactions stand behind the header. -/
theorem standsAt_txs (m : LoadedBlock) : StandsAt m.buf.bytes 80 (encodeTxs m.txs) := by
  have h := standsAt_self m.toBlock.encode
  rw [Block.encode, standsAt_append] at h
  have hlen : m.toBlock.encodeHeader.length = 80 := by
    simp only [Block.encodeHeader, List.length_append, leBytes_length, m.prevHash.2, m.txsHash.2]
  have h2 := h.2
  rw [hlen] at h2
  exact h2

theorem start_curPos (m : LoadedBlock) : (TxsLoop.start m.buf).curPos = m.buf.beginPos + 80 := by
  have := encode_length_ge m.toBlock
  have hspace := m.inUserSpace
  exact advance_eq (show m.beginPos + 80 < 2 ^ 64 by omega)

theorem fuel_lt (m : LoadedBlock) :
    m.txs.length < (wholeBlock posInFile isSaveAllTx).beginTx + m.buf.bytes.length + 2 := by
  have := encode_length_ge m.toBlock
  show m.txs.length < 0 + m.toBlock.encode.length + 2
  omega

/-- A block whose public keys fit is read. -/
theorem readNextBlockInfo_ok (m : LoadedBlock) (hkeys : ∀ tx ∈ m.txs, tx.KeyFits) :
    ∃ bi, readNextBlockInfo m.buf L (wholeBlock posInFile isSaveAllTx) = .ok bi ∧
      BlockRead L posInFile m.toBlock bi := by
  obtain ⟨header, hheader, htype, htime, hprev, htxs⟩ := readHeader L m
  have hlen := encode_length_ge m.toBlock
  obtain ⟨s, infos, hloop, hs, hread, hready⟩ := loop_txs L posInFile isSaveAllTx
    (start_curPos m) (standsAt_txs m) (fuel_lt posInFile isSaveAllTx m) hkeys
  have hs' : s.txs = infos := hs
  obtain ⟨signature, hsig⟩ := signatureOf_ok header.signature hready
  have hload : (m.buf.load m.buf.beginPos m.buf.bytes.length : Exec Exn Bytes) =
      .ok m.toBlock.encode := Buf.load_standsAt m.buf (standsAt_self m.buf.bytes)
  rw [readNextBlockInfo, hheader, ok_bind, readBlockTxs, hload, ok_bind]
  dsimp only
  rw [hloop, ok_bind, hs']
  have hsig' : signatureOf (if (wholeBlock posInFile isSaveAllTx).countTx = 0 then
      { header with
        hash := L.support.toHex (getDoubleSha256 L.crypto m.toBlock.encode).1
        countTxs := some (UInt64.ofNat infos.length) }
      else { header with hash := L.support.toHex (getDoubleSha256 L.crypto m.toBlock.encode).1 }
      ).signature infos = .ok signature := hsig
  rw [hsig', ok_bind, pure_eq_ok, ok_bind]
  refine ⟨_, rfl, ?_⟩
  have hend : posInFile + UInt64.ofNat m.toBlock.encode.length + 8 =
      posInFile + 8 + UInt64.ofNat m.toBlock.encode.length := by grind
  exact ⟨htype, htime, hprev, htxs, rfl, rfl, hend,
    congrArg (fun n => some (UInt64.ofNat n)) (txsRead_length L posInFile hread), hread⟩

/-- A block with a public key that does not fit is rejected. -/
theorem readNextBlockInfo_throw (m : LoadedBlock) (hkeys : ¬ ∀ tx ∈ m.txs, tx.KeyFits) :
    readNextBlockInfo m.buf L (wholeBlock posInFile isSaveAllTx) =
      .throw (.common "incorrect pubkey script") := by
  obtain ⟨header, hheader, -⟩ := readHeader L m
  have hlen := encode_length_ge m.toBlock
  have hloop := loop_throw L posInFile isSaveAllTx (start_curPos m) (standsAt_txs m)
    (fuel_lt posInFile isSaveAllTx m) hkeys
  have hload : (m.buf.load m.buf.beginPos m.buf.bytes.length : Exec Exn Bytes) =
      .ok m.toBlock.encode := Buf.load_standsAt m.buf (standsAt_self m.buf.bytes)
  rw [readNextBlockInfo, hheader, ok_bind, readBlockTxs, hload, ok_bind]
  dsimp only
  rw [hloop]
  rfl

end

/-- **The parser inverts the format**, for every block in memory, exactly if the length of every
    public key, as an `int`, is 65 or more. -/
theorem readNextBlockInfo_encode_iff (L : Libs) (m : LoadedBlock) (posInFile : UInt64)
    (isSaveAllTx : Bool) :
    (∃ bi, readNextBlockInfo m.buf L (wholeBlock posInFile isSaveAllTx) = .ok bi ∧
      BlockRead L posInFile m.toBlock bi) ↔
    ∀ tx ∈ m.txs, tx.pubKey = [] ∨ 65 ≤ toInt32 tx.pubKey.length := by
  constructor
  · rintro ⟨bi, hok, -⟩
    by_contra hkeys
    rw [readNextBlockInfo_throw L posInFile isSaveAllTx m hkeys] at hok
    cases hok
  · exact readNextBlockInfo_ok L posInFile isSaveAllTx m

/-- A transaction with a public key of `n` bytes. -/
def keyTx (n : ℕ) (h : 65 ≤ n) : Tx where
  toAddress := ⟨List.replicate 25 0, List.length_replicate⟩
  value := 0
  fees := 0
  nonce := 0
  data := []
  sign := []
  pubKey := List.replicate n 0
  status := none
  pubKey_size := Or.inr (by rwa [List.length_replicate])

theorem length_zeros : (List.replicate 32 (0 : UInt8)).length = 32 := List.length_replicate

/-- A block with this transaction. -/
def keyBlock (n : ℕ) (h : 65 ≤ n) : Block where
  blockType := 0
  timestamp := 0
  prevHash := ⟨List.replicate 32 0, length_zeros⟩
  txsHash := ⟨List.replicate 32 0, length_zeros⟩
  txs := [keyTx n h]

theorem varInt_length_le (n : ℕ) : (varInt n).length ≤ 9 := by
  unfold varInt
  split_ifs <;> simp

theorem keyBlock_length_le (n : ℕ) (h : 65 ≤ n) : (keyBlock n h).encode.length ≤ n + 200 := by
  have hfields : (keyTx n h).fields.length ≤ 25 + 4 * 9 := by
    have := varInt_length_le (keyTx n h).value.toUInt64.toNat
    have := varInt_length_le (keyTx n h).fees.toUInt64.toNat
    have := varInt_length_le (keyTx n h).nonce.toNat
    have := varInt_length_le (keyTx n h).data.length
    simp only [Tx.fields, List.length_append, (keyTx n h).toAddress.2]
    omega
  have hdata : (keyTx n h).data.length = 0 := rfl
  have hsign : (sized (keyTx n h).sign).length ≤ 9 := by
    rw [sized_length]; exact varInt_length_le _
  have hkey : (sized (keyTx n h).pubKey).length ≤ 9 + n := by
    have hlen : (keyTx n h).pubKey.length = n := List.length_replicate
    have := varInt_length_le (keyTx n h).pubKey.length
    rw [sized_length]; omega
  have hbody := (keyTx n h).body_length
  have hstatus : (keyTx n h).statusBytes = [] := rfl
  have hpre := varInt_length_le (keyTx n h).body.length
  have henc : (keyBlock n h).encode.length =
      80 + ((varInt (keyTx n h).body.length).length + (keyTx n h).body.length) + 1 := by
    have htxs : encodeTxs (keyBlock n h).txs = (keyTx n h).encode ++ [0] := by
      show encodeTxs [keyTx n h] = _
      simp [encodeTxs]
    simp only [Block.encode, Block.encodeHeader, htxs, Tx.encode, hstatus, List.append_nil,
      List.length_append, leBytes_length, (keyBlock n h).prevHash.2, (keyBlock n h).txsHash.2,
      sized_length, List.length_singleton]
    omega
  omega

/-- The block in memory. -/
def loadedKeyBlock (n : ℕ) (h : 65 ≤ n) (hn : n ≤ 2 ^ 62) : LoadedBlock where
  toBlock := keyBlock n h
  beginPos := 0
  inUserSpace := by
    have := keyBlock_length_le n h
    omega

theorem loadedKeyBlock_rejected {n : ℕ} (h : 65 ≤ n) (hn : n ≤ 2 ^ 62) (hint : ¬ 65 ≤ toInt32 n)
    (L : Libs) (posInFile : UInt64) (isSaveAllTx : Bool) :
    readNextBlockInfo (loadedKeyBlock n h hn).buf L (wholeBlock posInFile isSaveAllTx) =
      .throw (.common "incorrect pubkey script") := by
  apply readNextBlockInfo_throw
  intro hkeys
  have hlen : (keyTx n h).pubKey.length = n := List.length_replicate
  rcases hkeys (keyTx n h) (List.mem_singleton.2 rfl) with hnil | hsize
  · rw [hnil, List.length_nil] at hlen; omega
  · rw [hlen] at hsize; exact hint hsize

/-- A public key of 2 GiB is rejected. -/
theorem longKey_rejected :
    (keyTx (2 ^ 31) (by norm_num)).pubKey.length = 2 ^ 31 ∧
    ∀ L posInFile isSaveAllTx, ¬ ∃ bi,
      readNextBlockInfo (loadedKeyBlock (2 ^ 31) (by norm_num) (by norm_num)).buf L
        (wholeBlock posInFile isSaveAllTx) = .ok bi ∧
      BlockRead L posInFile (keyBlock (2 ^ 31) (by norm_num)) bi := by
  refine ⟨List.length_replicate, ?_⟩
  rintro L posInFile isSaveAllTx ⟨bi, hok, -⟩
  rw [loadedKeyBlock_rejected _ _ (by decide)] at hok
  cases hok

end Format

end TorrentNode
