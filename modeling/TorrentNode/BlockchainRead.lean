/-
  The parser of block dumps in memory, and block files (`BlockchainRead.cpp`).

  A dump is a memory object `b`; `cur_pos` and `end_pos` are addresses, and
  pointer sums are taken modulo 2^64.  Every read goes through `Buf.load`, so a
  read outside the dump is visible as undefined behaviour.  Memory allocation
  succeeds; a `std::vector` longer than `max_size()` throws.

  rapidjson is a parameter (`Rapidjson`).  The readers return the new `cur_pos`
  with the value.  The caller passes a fresh `BlockInfo`.

  The last section has the block file: a block is its size and its dump.
-/
import TorrentNode.BlockInfo
import TorrentNode.BlockchainUtils

open Wire

namespace TorrentNode

/-! ## Libraries -/

/-- What the parser asks a JSON object for. -/
structure JsonDoc where
  /-- the member `method`, if it is a string -/
  method : Option Bytes
  /-- the member `value` of the object `params`, if it is a string -/
  paramsValue : Option Bytes

/-- rapidjson: the object in a text that begins with an opening and ends with a closing brace. -/
structure Rapidjson where
  parse : Bytes → Option JsonDoc

/-- The libraries of the parser. -/
structure Libs where
  crypto : Crypto
  support : Support
  json : Rapidjson

/-- `isspace` in the C locale. -/
def isSpace (c : UInt8) : Bool := c == 32 || (9 ≤ c && c ≤ 13)

/-- `isdigit`. -/
def isDigit (c : UInt8) : Bool := '0'.toUInt8 ≤ c && c ≤ '9'.toUInt8

/-- `std::stoull(str)`, if it does not throw: blanks, a sign and decimal digits at the beginning. -/
def stoull (str : Bytes) : Option UInt64 :=
  let str := str.dropWhile isSpace
  let (negative, str) :=
    if str.head? = some '-'.toUInt8 then (true, str.tail)
    else if str.head? = some '+'.toUInt8 then (false, str.tail)
    else (false, str)
  let digits := str.takeWhile isDigit
  let val := digits.foldl (fun val c => val * 10 + (c - '0'.toUInt8).toNat) 0
  if digits = [] ∨ 2 ^ 64 ≤ val then none
  else some (if negative then - UInt64.ofNat val else UInt64.ofNat val)

/-! ## Integers -/

section
variable (b : Buf)

/-- The sum of a pointer and a size. -/
def advance (pos size : ℕ) : ℕ := (pos + size) % 2 ^ 64

/-- `readInt<T>(cur_pos, end_pos)` for an unsigned `T` of `w` bytes. -/
def readInt (w curPos endPos : ℕ) : Exec Exn (ℕ × ℕ) := do
  check (advance curPos w ≤ endPos) "Out of the array"
  let t ← b.load curPos w
  return (leNat t, advance curPos w)

/-- `readVarInt(cur_pos, end_pos)`. -/
def readVarInt (curPos endPos : ℕ) : Exec Exn (ℕ × ℕ) := do
  let (len, curPos) ← readInt b 1 curPos endPos
  if len ≤ 249 then return (len, curPos)
  else if len = 250 then readInt b 2 curPos endPos
  else if len = 251 then readInt b 4 curPos endPos
  else if len = 252 then readInt b 8 curPos endPos
  else .throw (.common "Not supported varint value")

/-- `std::vector(pos, pos + n)`. -/
def readVector (pos n : ℕ) : Exec Exn Bytes := do
  Exec.check (n < 2 ^ 63) (.std "cannot create std::vector larger than max_size()")
  b.load pos n

/-! ## Transactions -/

/-- `struct PrevTransactionSignHelper`. -/
structure PrevTransactionSignHelper where
  isFirst : Bool := false
  isPrevSign : Bool := false
  prevTxData : Bytes := []

/-- `isSignBlockTx(txInfo, helper)`. -/
def isSignBlockTx (txInfo : TransactionInfo) (helper : PrevTransactionSignHelper) :
    Exec Exn Bool := do
  if !helper.isPrevSign then return false
  let same ← txInfo.fromAddress.eq txInfo.toAddress
  return same && txInfo.value == 0 &&
    (helper.isFirst || (txInfo.data == helper.prevTxData && !txInfo.data.isEmpty))

/-- The data is an object in braces. -/
def isJsonData (data : Bytes) : Bool :=
  data.head? == some '{'.toUInt8 && data.getLast? == some '}'.toUInt8

variable (L : Libs)

/-- The member `method` of the data, if the data is a JSON object. -/
def jsonMethod (data : Bytes) : Option Bytes :=
  if isJsonData data then (L.json.parse data).bind JsonDoc.method else none

/-- `isBlockedFrom`. -/
def isBlockedFrom (data : Bytes) : Bool := data.length == 9 && data.head? == some 1

/-- `txInfo.delegate`. -/
def delegateOf (data : Bytes) : Option DelegateInfo :=
  if isBlockedFrom data then none
  else
    match jsonMethod L data with
    | none => none
    | some method =>
      if method = ascii ['d', 'e', 'l', 'e', 'g', 'a', 't', 'e'] then
        (((L.json.parse data).bind JsonDoc.paramsValue).bind stoull).map fun value =>
          { value := some value.toInt64, isDelegate := true }
      else if method = ascii ['u', 'n', 'd', 'e', 'l', 'e', 'g', 'a', 't', 'e'] then
        some { value := none, isDelegate := false }
      else none

/-- `txInfo.scriptInfo` of a script address, before `txRaw` is set. -/
def scriptInfoOf (data : Bytes) : ScriptInfo :=
  { isInitializeScript := jsonMethod L data == some (ascii ['c', 'o', 'm', 'p', 'i', 'l', 'e']) }

/-- The fields in front of the data. -/
structure TxFields where
  toAddress : Bytes
  value : ℕ
  fees : ℕ
  nonce : ℕ
  dataSize : ℕ

/-- The fields in front of the data, and `cur_pos`. -/
def readTxFields (curPos endPos : ℕ) : Exec Exn (TxFields × ℕ) := do
  check (advance curPos 25 ≤ endPos) "Out of the array"
  let toAddress ← b.load curPos 25
  let curPos := advance curPos 25
  let (value, curPos) ← readVarInt b curPos endPos
  let (fees, curPos) ← readVarInt b curPos endPos
  let (nonce, curPos) ← readVarInt b curPos endPos
  let (dataSize, curPos) ← readVarInt b curPos endPos
  return (⟨toAddress, value, fees, nonce, dataSize⟩, curPos)

/-- The transaction with the fields in front of the data. -/
def TxFields.setIn (f : TxFields) (txInfo : TransactionInfo) : TransactionInfo :=
  { txInfo with
    toAddress := Address.ofRange f.toAddress
    value := Int64.ofNat f.value
    fees := Int64.ofNat f.fees
    nonce := UInt64.ofNat f.nonce }

/-- What follows from the data. -/
def setData (txInfo : TransactionInfo) (data : Bytes) : Exec Exn TransactionInfo := do
  let txInfo := { txInfo with data := data, delegate := delegateOf L data }
  if ← txInfo.toAddress.isScriptAddress then
    return { txInfo with scriptInfo := some (scriptInfoOf L data), isModuleNotSet := true }
  else return txInfo

/-- A signature or a public key: its size is checked. -/
def readString (curPos endPos : ℕ) : Exec Exn (Bytes × ℕ) := do
  let (size, curPos) ← readVarInt b curPos endPos
  check (advance curPos size ≤ endPos) "Out of the array"
  let str ← readVector b curPos size
  return (str, advance curPos size)

/-- The status, if bytes are left: it does not count for the hash. -/
def readStatus (curPos endPos : ℕ) : Exec Exn (Option UInt64 × ℕ) :=
  if curPos < endPos then do
    let (intStatus, curPos) ← readVarInt b curPos endPos
    return (some (UInt64.ofNat intStatus), curPos)
  else return (none, curPos)

/-- The address of the sender. -/
def senderOf (pubKey data : Bytes) : Exec Exn Address :=
  if pubKey = [] then return Address.setEmpty {}
  else do
    let binAddress := getAddressBin L.crypto pubKey
    check (binAddress ≠ []) "incorrect pubkey script"
    return Address.ofVector binAddress (isBlockedFrom data)

/-- `std::string(tx_start, endClearTx)` for a script. -/
def readTxRaw (txInfo : TransactionInfo) (txStart endClearTx : ℕ) : Exec Exn (Option ScriptInfo) :=
  match txInfo.scriptInfo with
  | none => return none
  | some info => do
    let txRaw ← b.load txStart (endClearTx - txStart)
    return some { info with txRaw := txRaw }

/-- `std::string(allTxStart, allTxEnd)`, if it is to be saved. -/
def readAllRawTx (isSaveAllTx : Bool) (allTxStart allTxEnd : ℕ) : Exec Exn Bytes :=
  if isSaveAllTx then b.load allTxStart (allTxEnd - allTxStart) else return []

/-- The signature of a transaction that is not from the initial wallet. -/
def validateTx (isValidate : Bool) (txInfo : TransactionInfo) (txStart endClearTx : ℕ) :
    Exec Exn Unit := do
  if !isValidate then return ()
  if ← txInfo.fromAddress.isInitialWallet then return ()
  let clear ← b.load txStart (endClearTx - txStart)
  check (cryptoCheckSignData L.crypto txInfo.sign txInfo.pubKey clear = true) "Not validate"

/-- What is computed when all fields are read: the hash over `txHashSize` bytes, the raw texts and
    the checks. -/
def completeTx (txInfo : TransactionInfo)
    (allTxStart txStart endClearTx allTxEnd txSize txHashSize : ℕ) (isSaveAllTx : Bool)
    (helper : PrevTransactionSignHelper) (isValidate : Bool) : Exec Exn TransactionInfo := do
  let fromAddress ← senderOf L txInfo.pubKey txInfo.data
  let hashed ← b.load txStart txHashSize
  let scriptInfo ← readTxRaw b txInfo txStart endClearTx
  let allRawTx ← readAllRawTx b isSaveAllTx allTxStart allTxEnd
  let txInfo := { txInfo with
    fromAddress := fromAddress
    hash := (getDoubleSha256 L.crypto hashed).1
    scriptInfo := scriptInfo
    sizeRawTx := txSize
    allRawTx := allRawTx }
  let isSign ← isSignBlockTx txInfo helper
  let txInfo := { txInfo with isSignBlockTx := isSign }
  validateTx b L isValidate txInfo txStart endClearTx
  let txInfo ← txInfo.calcRealFee
  return { txInfo with isInitialized := true }

/-- The fields behind the data, and the completed transaction. -/
def readTxTail (txInfo : TransactionInfo) (allTxStart txStart curPos endPos txSize : ℕ)
    (isSaveAllTx : Bool) (helper : PrevTransactionSignHelper) (isValidate : Bool) :
    Exec Exn (ℕ × ℕ × TransactionInfo) := do
  let endClearTx := curPos
  let (sign, curPos) ← readString b curPos endPos
  let (pubKey, savePos) ← readString b curPos endPos
  let (intStatus, curPos) ← readStatus b savePos endPos
  let txHashSize := txSize - (curPos - savePos)
  let txInfo := { txInfo with sign := sign, pubKey := pubKey, intStatus := intStatus }
  let txInfo ← completeTx b L txInfo allTxStart txStart endClearTx curPos txSize txHashSize
    isSaveAllTx helper isValidate
  return (txSize, curPos, txInfo)

/-- `readTransactionInfo(cur_pos, end_pos, txInfo, isParseTx, isSaveAllTx, helper, isValidate)`: the
    size, the new position and `txInfo`. -/
def readTransactionInfo (curPos endPos : ℕ) (txInfo : TransactionInfo)
    (isParseTx isSaveAllTx : Bool) (helper : PrevTransactionSignHelper) (isValidate : Bool) :
    Exec Exn (ℕ × ℕ × TransactionInfo) := do
  let allTxStart := curPos
  let (txSize, curPos) ← readVarInt b curPos endPos
  if txSize = 0 then return (0, curPos, txInfo)
  check (advance curPos txSize ≤ endPos) "Out of the array"
  let endPos := advance curPos txSize
  if !isParseTx then return (txSize, endPos, txInfo)
  let txStart := curPos
  let (fields, curPos) ← readTxFields b curPos endPos
  -- the size of the data is not checked
  let data ← readVector b curPos fields.dataSize
  let txInfo ← setData L (fields.setIn txInfo) data
  readTxTail b L txInfo allTxStart txStart (advance curPos fields.dataSize) endPos txSize
    isSaveAllTx helper isValidate

/-! ## Blocks -/

/-- `readBlockHeaderWithoutSize(begin_pos, end_pos, bi)`. -/
def readBlockHeaderWithoutSize (bi : BlockHeader) : Exec Exn BlockHeader := do
  let curPos := b.beginPos
  let (blockType, curPos) ← readInt b 8 curPos b.endPos
  let (timestamp, curPos) ← readInt b 8 curPos b.endPos
  check (advance curPos 32 ≤ b.endPos) "Out of the array"
  let prevHash ← b.load curPos 32
  let curPos := advance curPos 32
  check (advance curPos 32 ≤ b.endPos) "Out of the array"
  let txsHash ← b.load curPos 32
  return { bi with
    blockType := UInt64.ofNat blockType
    timestamp := UInt64.ofNat timestamp
    prevHash := L.support.toHex prevHash
    txsHash := L.support.toHex txsHash }

/-- The arguments of `readNextBlockInfo` besides the dump. -/
structure ReadOptions where
  posInFile : UInt64
  isValidate : Bool
  isSaveAllTx : Bool
  beginTx : ℕ
  countTx : ℕ

/-- The variables of the loop of `readBlockTxs`. -/
structure TxsLoop where
  curPos : ℕ
  txIndex : ℕ := 0
  helper : PrevTransactionSignHelper := { isFirst := true, isPrevSign := true }
  txs : List TransactionInfo := []

/-- `cur_pos - begin_pos + posInFile + offsetBeginBlock`. -/
def txFilePos (posInFile : UInt64) (curPos : ℕ) : UInt64 :=
  UInt64.ofNat curPos - UInt64.ofNat b.beginPos + posInFile + 8

/-- An iteration of the loop of `readBlockTxs`. -/
def readBlockTxsStep (o : ReadOptions) (s : TxsLoop) : Exec Exn (TxsLoop × Bool) := do
  let txInfo : TransactionInfo := { filePos := { pos := txFilePos b o.posInFile s.curPos } }
  let isReadTransaction := decide (o.beginTx ≤ s.txIndex)
  let (txSize, curPos, txInfo) ← readTransactionInfo b L s.curPos b.endPos txInfo
    isReadTransaction o.isSaveAllTx s.helper o.isValidate
  let txs := if txInfo.isInitialized && isReadTransaction then s.txs ++ [txInfo] else s.txs
  if o.countTx ≠ 0 ∧ o.countTx ≤ txs.length then
    return ({ s with curPos := curPos, txs := txs }, false)
  else
    return ({
      curPos := curPos
      txIndex := s.txIndex + 1
      helper := { isPrevSign := txInfo.isSignBlockTx, prevTxData := txInfo.data }
      txs := txs }, decide (0 < txSize))

/-- The state in front of the loop: the cursor is behind the header. -/
def TxsLoop.start : TxsLoop := { curPos := advance b.beginPos 80 }

/-- `bi.header.signature`, from the first transaction. -/
def signatureOf (signature : Bytes) : List TransactionInfo → Exec Exn Bytes
  | [] => return signature
  | tx :: _ => do
    let same ← tx.fromAddress.eq tx.toAddress
    return if same && tx.value == 0 then tx.data else signature

/-- `readBlockTxs(begin_pos, end_pos, posInFile, bi, isSaveAllTx, beginTx, countTx, isValidate)`. -/
def readBlockTxs (o : ReadOptions) (header : BlockHeader) : Exec Exn BlockInfo := do
  let dump ← b.load b.beginPos b.bytes.length
  let header := { header with hash := L.support.toHex (getDoubleSha256 L.crypto dump).1 }
  let s ← Exec.loop (readBlockTxsStep b L o) (o.beginTx + b.bytes.length + 2) (TxsLoop.start b)
  let header := if o.countTx = 0 then
    { header with countTxs := some (UInt64.ofNat s.txs.length) } else header
  let signature ← signatureOf header.signature s.txs
  return { header := { header with signature := signature }, txs := s.txs }

/-- `readNextBlockInfo(begin_pos, end_pos, posInFile, bi, isValidate, isSaveAllTx, beginTx, countTx)`. -/
def readNextBlockInfo (o : ReadOptions) : Exec Exn BlockInfo := do
  let header ← readBlockHeaderWithoutSize b L {}
  let bi ← readBlockTxs b L o header
  let blockSize := UInt64.ofNat b.bytes.length
  return { bi with header := { bi.header with
    blockSize := blockSize
    filePos := { bi.header.filePos with pos := o.posInFile }
    endBlockPos := o.posInFile + blockSize + 8 } }

end

/-! ## Block files -/

/-- `BLOCK_HEADER_SIZE`. -/
def blockHeaderSize : ℕ := 3 * 8 + 64

/-- The record of a block in a block file. -/
def blockRecord (data : Bytes) : Bytes := leBytes 8 data.length ++ data

/-- `saveBlockToFileBinary(fileName, data)`: the position of the record and the new content. -/
def saveBlockToFileBinary (file data : Bytes) : ℕ × Bytes :=
  (file.length, file ++ blockRecord data)

/-- `seekFile(file, pos)`: `tellg` is -1 if the position is negative. -/
def seekFile (pos : ℕ) : Exec Exn Unit :=
  check (pos < 2 ^ 63 ∨ pos = 2 ^ 64 - 1) "Incorrect seek operations"

/-- `ifile.read` into a buffer of `n` zeros. -/
def readFile (file : Bytes) (pos n : ℕ) : Bytes :=
  let bs := slice file pos n
  bs ++ List.replicate (n - bs.length) 0

/-- `getBlockDump(ifile, currPos, fromByte, toByte)`: the size of the block and the bytes. -/
def getBlockDump (file : Bytes) (currPos fromByte toByte : UInt64) : Exec Exn (ℕ × Bytes) := do
  if file.length ≤ currPos.toNat then return (0, [])
  else if blockHeaderSize ≤ file.length - currPos.toNat then
    seekFile currPos.toNat
    let blockSize := leNat ((readFile file currPos.toNat blockHeaderSize).take 8)
    if blockSize ≤ fromByte.toNat then return (0, [])
    else
      let toByte := if blockSize < toByte.toNat then UInt64.ofNat blockSize else toByte
      let size := (toByte - fromByte).toNat
      Exec.check (size ≤ maxSize) (.std "basic_string::_M_create")
      seekFile (currPos + 8 + fromByte).toNat
      return (blockSize, readFile file (currPos + 8 + fromByte).toNat size)
  else return (0, [])

end TorrentNode
