/-
  Bounds safety of the block parser.

  Every length is compared with `end_pos`, and a sum that wraps makes a
  `std::vector` throw, except in two places: the size of the data is not
  compared with anything, and a transaction that is skipped may move the cursor
  backwards, in front of the dump.

  `readNextBlockInfo_safe_iff`: the parser reads only inside the dump, and
  stops, exactly if no iteration of `readBlockTxs` meets one of the two.
-/
import TorrentNode.BlockchainRead

open Wire Exec

namespace TorrentNode

section
variable {b : Buf}

/-! ## Readers -/

theorem advance_eq {pos n : ℕ} (h : pos + n < 2 ^ 64) : advance pos n = pos + n :=
  Nat.mod_eq_of_lt h

theorem endPos_le (b : Buf) : b.endPos ≤ 2 ^ 63 := b.inUserSpace

theorem txFilePos_eq (posInFile : UInt64) (pos : ℕ) :
    txFilePos b posInFile (b.beginPos + pos) = posInFile + 8 + UInt64.ofNat pos := by
  rw [txFilePos, UInt64.ofNat_add]
  grind

/-- The cursor stands in the dump or at its end. -/
def InDump (b : Buf) (curPos : ℕ) : Prop := b.beginPos ≤ curPos ∧ curPos ≤ b.endPos

theorem safe_readInt {w curPos endPos : ℕ} (hw : w ≤ 8) (hcur : InDump b curPos)
    (hend : endPos ≤ b.endPos) :
    Safe (readInt b w curPos endPos) fun r =>
      r.2 = curPos + w ∧ r.2 ≤ endPos ∧ r.1 < 256 ^ w := by
  have hadv : advance curPos w = curPos + w := by
    have := endPos_le b; have := hcur.2; exact advance_eq (by omega)
  rw [readInt, check, safe_bind, safe_check, hadv]
  intro hle
  have hin : b.Inside curPos w := ⟨hcur.1, by omega⟩
  rw [safe_bind, Buf.safe_load]
  refine ⟨fun _ => hin, rfl, hle, ?_⟩
  have hlen : (slice b.bytes (curPos - b.beginPos) w).length = w := by
    apply slice_length
    have := hin.1; have := hin.2
    simp only [Buf.endPos] at this; omega
  have := leNat_lt (slice b.bytes (curPos - b.beginPos) w)
  rwa [hlen] at this

theorem safe_readVarInt {curPos endPos : ℕ} (hcur : InDump b curPos) (hend : endPos ≤ b.endPos) :
    Safe (readVarInt b curPos endPos) fun r =>
      curPos < r.2 ∧ r.2 ≤ endPos ∧ r.1 < 2 ^ 64 := by
  rw [readVarInt, safe_bind]
  refine (safe_readInt (by omega) hcur hend).mono ?_
  rintro ⟨len, pos⟩ ⟨hpos, hle, hlen⟩
  dsimp only at hpos hle hlen ⊢
  subst hpos
  have hcur' : InDump b (curPos + 1) := ⟨by have := hcur.1; omega, by omega⟩
  -- the value of a fixed width
  have hint : ∀ w, w ≤ 8 → Safe (readInt b w (curPos + 1) endPos) fun r =>
      curPos < r.2 ∧ r.2 ≤ endPos ∧ r.1 < 2 ^ 64 := by
    intro w hw
    refine (safe_readInt hw hcur' hend).mono ?_
    rintro ⟨v, p⟩ ⟨hp, hp', hv⟩
    dsimp only at hp hp' hv ⊢
    have hpow : 256 ^ w ≤ 256 ^ 8 := Nat.pow_le_pow_right (by omega) hw
    exact ⟨by omega, hp', by omega⟩
  split_ifs
  · exact ⟨by simp, hle, by omega⟩
  · exact hint 2 (by omega)
  · exact hint 4 (by omega)
  · exact hint 8 (by omega)
  · trivial

theorem safe_readVector {pos n : ℕ} (hpos : InDump b pos) (Q : Bytes → Prop) :
    Safe (readVector b pos n) Q ↔
      (n < 2 ^ 63 → pos + n ≤ b.endPos ∧ Q (slice b.bytes (pos - b.beginPos) n)) := by
  rw [readVector, safe_bind, safe_check]
  refine imp_congr_right fun _ => ?_
  rw [Buf.safe_load]
  refine and_congr_left fun _ => ?_
  constructor
  · intro h
    by_cases hn : n = 0
    · have := hpos.2; omega
    · exact (h hn).2
  · exact fun h _ => ⟨hpos.1, h⟩

theorem safe_readTxFields {curPos endPos : ℕ} (hcur : InDump b curPos) (hend : endPos ≤ b.endPos) :
    Safe (readTxFields b curPos endPos) fun r =>
      curPos < r.2 ∧ r.2 ≤ endPos ∧ r.1.dataSize < 2 ^ 64 := by
  have hadv : advance curPos 25 = curPos + 25 := by
    have := endPos_le b; have := hcur.2; exact advance_eq (by omega)
  rw [readTxFields, check, safe_bind, safe_check, hadv]
  intro hle
  rw [safe_bind, Buf.safe_load]
  refine ⟨fun _ => ⟨hcur.1, by omega⟩, ?_⟩
  dsimp only
  -- four integers, each behind the one before
  have hstep : ∀ pos, curPos < pos → pos ≤ endPos → InDump b pos :=
    fun pos h1 h2 => ⟨by have := hcur.1; omega, by omega⟩
  rw [safe_bind]
  refine (safe_readVarInt (hstep (curPos + 25) (by omega) hle) hend).mono ?_
  rintro ⟨value, p1⟩ ⟨h1, h1', -⟩
  dsimp only at h1 h1' ⊢
  rw [safe_bind]
  refine (safe_readVarInt (hstep p1 (by omega) h1') hend).mono ?_
  rintro ⟨fees, p2⟩ ⟨h2, h2', -⟩
  dsimp only at h2 h2' ⊢
  rw [safe_bind]
  refine (safe_readVarInt (hstep p2 (by omega) h2') hend).mono ?_
  rintro ⟨nonce, p3⟩ ⟨h3, h3', -⟩
  dsimp only at h3 h3' ⊢
  rw [safe_bind]
  refine (safe_readVarInt (hstep p3 (by omega) h3') hend).mono ?_
  rintro ⟨dataSize, p4⟩ ⟨h4, h4', hsize⟩
  exact ⟨by dsimp only at h4 ⊢; omega, h4', hsize⟩

/-- A size that makes the sum wrap is too large for a `std::vector`. -/
theorem safe_readString {curPos endPos : ℕ} (hcur : InDump b curPos) (hend : endPos ≤ b.endPos) :
    Safe (readString b curPos endPos) fun r => curPos < r.2 ∧ r.2 ≤ endPos := by
  rw [readString, safe_bind]
  refine (safe_readVarInt hcur hend).mono ?_
  rintro ⟨size, pos⟩ ⟨hlt, hle, -⟩
  dsimp only at hlt hle ⊢
  have hpos : InDump b pos := ⟨by have := hcur.1; omega, by omega⟩
  rw [check, safe_bind, safe_check, safe_bind, safe_readVector hpos]
  intro hadv hsize
  have hend63 := endPos_le b
  rw [advance_eq (by omega)] at hadv ⊢
  exact ⟨by omega, by omega, hadv⟩

theorem safe_readStatus {curPos endPos : ℕ} (hcur : InDump b curPos) (hend : endPos ≤ b.endPos)
    (hle : curPos ≤ endPos) :
    Safe (readStatus b curPos endPos) fun r => curPos ≤ r.2 ∧ r.2 ≤ endPos := by
  unfold readStatus
  split_ifs
  · rw [safe_bind]
    refine (safe_readVarInt hcur hend).mono ?_
    rintro ⟨intStatus, pos⟩ ⟨h1, h2, -⟩
    exact ⟨by dsimp only at h1 ⊢; omega, h2⟩
  · exact ⟨le_rfl, hle⟩

/-! ## Transactions -/

theorem safe_eq {x y : Address} : Safe (x.eq y) fun _ => True := by
  simp only [Address.eq, check, safe_bind, safe_check]
  exact fun _ _ => trivial

theorem safe_isSignBlockTx (txInfo : TransactionInfo) (helper : PrevTransactionSignHelper) :
    Safe (isSignBlockTx txInfo helper) fun _ => True := by
  unfold isSignBlockTx
  split_ifs
  · trivial
  · rw [safe_bind]
    exact safe_eq.mono fun _ _ => trivial

variable {L : Libs}

theorem safe_setData (txInfo : TransactionInfo) (data : Bytes) :
    Safe (setData L txInfo data) fun _ => True := by
  simp only [setData, Address.isScriptAddress, check, safe_bind, safe_check]
  intro _
  show Safe (if _ then _ else _) _
  split_ifs <;> trivial

theorem safe_senderOf (pubKey data : Bytes) : Safe (senderOf L pubKey data) fun _ => True := by
  unfold senderOf
  split_ifs
  · trivial
  · simp only [check, safe_bind, safe_check]
    exact fun _ => trivial

/-- A range in the dump. -/
theorem safe_load_range {pos n : ℕ} (hpos : b.beginPos ≤ pos) (hn : pos + n ≤ b.endPos) :
    Safe (b.load pos n : Exec Exn Bytes) fun _ => True := by
  rw [Buf.safe_load]
  exact ⟨fun _ => ⟨hpos, hn⟩, trivial⟩

theorem safe_readTxRaw (txInfo : TransactionInfo) {txStart endClearTx : ℕ}
    (hpos : b.beginPos ≤ txStart) (hle : txStart ≤ endClearTx) (hend : endClearTx ≤ b.endPos) :
    Safe (readTxRaw b txInfo txStart endClearTx) fun _ => True := by
  unfold readTxRaw
  split
  · trivial
  · rw [safe_bind]
    exact (safe_load_range hpos (by omega)).mono fun _ _ => trivial

theorem safe_readAllRawTx {isSaveAllTx : Bool} {allTxStart allTxEnd : ℕ}
    (hpos : b.beginPos ≤ allTxStart) (hle : allTxStart ≤ allTxEnd) (hend : allTxEnd ≤ b.endPos) :
    Safe (readAllRawTx b isSaveAllTx allTxStart allTxEnd) fun _ => True := by
  unfold readAllRawTx
  split_ifs
  · exact safe_load_range hpos (by omega)
  · trivial

theorem safe_validateTx {isValidate : Bool} (txInfo : TransactionInfo) {txStart endClearTx : ℕ}
    (hpos : b.beginPos ≤ txStart) (hle : txStart ≤ endClearTx) (hend : endClearTx ≤ b.endPos) :
    Safe (validateTx b L isValidate txInfo txStart endClearTx) fun _ => True := by
  unfold validateTx
  split_ifs
  · trivial
  · simp only [Address.isInitialWallet, check, safe_bind, safe_check]
    intro _
    show Safe (if _ then _ else _) _
    split_ifs
    · trivial
    · simp only [safe_bind, safe_check]
      exact (safe_load_range hpos (by omega)).mono fun _ _ _ => trivial

theorem safe_calcRealFee (txInfo : TransactionInfo) : Safe txInfo.calcRealFee fun _ => True := by
  simp only [TransactionInfo.calcRealFee, check, safe_bind, safe_check]
  exact fun _ => trivial

/-- All ranges of a transaction that was read lie in the dump. -/
theorem safe_completeTx (txInfo : TransactionInfo)
    {allTxStart txStart endClearTx allTxEnd txSize txHashSize : ℕ} {isSaveAllTx : Bool}
    {helper : PrevTransactionSignHelper} {isValidate : Bool} (h0 : b.beginPos ≤ allTxStart)
    (h1 : allTxStart ≤ txStart) (h2 : txStart ≤ endClearTx) (h3 : endClearTx ≤ allTxEnd)
    (h4 : allTxEnd ≤ b.endPos) (hhash : txStart + txHashSize ≤ b.endPos) :
    Safe (completeTx b L txInfo allTxStart txStart endClearTx allTxEnd txSize txHashSize isSaveAllTx
      helper isValidate) fun _ => True := by
  rw [completeTx, safe_bind]
  refine (safe_senderOf _ _).mono fun fromAddress _ => ?_
  rw [safe_bind]
  refine (safe_load_range (by omega) hhash).mono fun hashed _ => ?_
  rw [safe_bind]
  refine (safe_readTxRaw txInfo (by omega) h2 (by omega)).mono fun scriptInfo _ => ?_
  rw [safe_bind]
  refine (safe_readAllRawTx h0 (by omega) h4).mono fun allRawTx _ => ?_
  dsimp only
  rw [safe_bind]
  refine (safe_isSignBlockTx _ _).mono fun isSign _ => ?_
  rw [safe_bind]
  refine (safe_validateTx _ (by omega) h2 (by omega)).mono fun _ _ => ?_
  rw [safe_bind]
  exact (safe_calcRealFee _).mono fun _ _ => trivial

theorem safe_readTxTail (txInfo : TransactionInfo) {allTxStart txStart curPos endPos txSize : ℕ}
    {isSaveAllTx : Bool} {helper : PrevTransactionSignHelper} {isValidate : Bool}
    (h0 : b.beginPos ≤ allTxStart) (h1 : allTxStart ≤ txStart) (h2 : txStart ≤ curPos)
    (h3 : curPos ≤ b.endPos) (hend : endPos ≤ b.endPos) (hsize : txStart + txSize ≤ b.endPos) :
    Safe (readTxTail b L txInfo allTxStart txStart curPos endPos txSize isSaveAllTx helper isValidate)
      fun r => curPos < r.2.1 ∧ r.2.1 ≤ b.endPos := by
  rw [readTxTail, safe_bind]
  refine (safe_readString ⟨by omega, h3⟩ hend).mono ?_
  rintro ⟨sign, p1⟩ ⟨hp1, hp1'⟩
  dsimp only at hp1 hp1' ⊢
  rw [safe_bind]
  refine (safe_readString ⟨by omega, by omega⟩ hend).mono ?_
  rintro ⟨pubKey, p2⟩ ⟨hp2, hp2'⟩
  dsimp only at hp2 hp2' ⊢
  rw [safe_bind]
  refine (safe_readStatus ⟨by omega, by omega⟩ hend hp2').mono ?_
  rintro ⟨intStatus, p3⟩ ⟨hp3, hp3'⟩
  dsimp only at hp3 hp3' ⊢
  rw [safe_bind]
  refine (safe_completeTx _ h0 h1 h2 (by omega) (by omega) (by omega)).mono fun tx _ => ?_
  exact ⟨by dsimp only; omega, by dsimp only; omega⟩

/-- The data of the transaction at the cursor does not reach over the end of the dump, unless it is
    too long for a `std::vector`. -/
def DataFits (b : Buf) (curPos : ℕ) : Prop :=
  ∀ txSize txStart fields dataPos, readVarInt b curPos b.endPos = .ok (txSize, txStart) →
    txSize ≠ 0 → txStart + txSize ≤ b.endPos →
    readTxFields b txStart (txStart + txSize) = .ok (fields, dataPos) →
    fields.dataSize < 2 ^ 63 → dataPos + fields.dataSize ≤ b.endPos

/-- The size of the transaction at the cursor does not lead in front of the dump. -/
def SkipFits (b : Buf) (curPos : ℕ) : Prop :=
  ∀ txSize txStart, readVarInt b curPos b.endPos = .ok (txSize, txStart) →
    2 ^ 64 ≤ txStart + txSize → b.beginPos ≤ txStart + txSize - 2 ^ 64

theorem readTxFields_wrapped {curPos endPos : ℕ} (hcur : InDump b curPos) (h : endPos < curPos) :
    readTxFields b curPos endPos = .throw (.common "Out of the array") := by
  have hend := endPos_le b
  have := hcur.2
  rw [readTxFields, check, advance_eq (by omega), check_neg (by omega)]
  rfl

theorem dataFits_of_safe {curPos : ℕ} {txInfo : TransactionInfo} {isSaveAllTx : Bool}
    {helper : PrevTransactionSignHelper} {isValidate : Bool} {Q : ℕ × ℕ × TransactionInfo → Prop}
    (hcur : InDump b curPos)
    (h : Safe (readTransactionInfo b L curPos b.endPos txInfo true isSaveAllTx helper isValidate) Q) :
    DataFits b curPos := by
  intro txSize txStart fields dataPos hvar hne hle hfields hlt
  have hend63 := endPos_le b
  obtain ⟨hpos, hpos', -⟩ := (safe_readVarInt hcur le_rfl).of_ok hvar
  dsimp only at hpos hpos'
  have hadv : advance txStart txSize = txStart + txSize := advance_eq (by omega)
  have hstart : InDump b txStart := ⟨by have := hcur.1; omega, hpos'⟩
  obtain ⟨hd1, hd2, -⟩ := (safe_readTxFields hstart hle).of_ok hfields
  dsimp only at hd1 hd2
  rw [readTransactionInfo, hvar, ok_bind] at h
  dsimp only at h
  rw [if_neg hne, check_of (by omega), ok_bind, hadv] at h
  simp only [Bool.not_true, Bool.false_eq_true, if_false, hfields, ok_bind, safe_bind] at h
  rw [safe_readVector ⟨by have := hstart.1; omega, by omega⟩] at h
  exact (h hlt).1

theorem DataFits.safe {curPos : ℕ} {txInfo : TransactionInfo} {isSaveAllTx : Bool}
    {helper : PrevTransactionSignHelper} {isValidate : Bool} (hfits : DataFits b curPos)
    (hcur : InDump b curPos) :
    Safe (readTransactionInfo b L curPos b.endPos txInfo true isSaveAllTx helper isValidate)
      fun r => curPos < r.2.1 ∧ r.2.1 ≤ b.endPos := by
  have hend63 := endPos_le b
  have hsize := safe_readVarInt hcur le_rfl
  rw [readTransactionInfo, safe_bind, hsize.iff_forall]
  rintro ⟨txSize, txStart⟩ hvar
  obtain ⟨hpos, hpos', hlt⟩ := hsize.of_ok hvar
  dsimp only at hpos hpos' hlt ⊢
  by_cases hzero : txSize = 0
  · rw [if_pos hzero]
    exact ⟨hpos, hpos'⟩
  rw [if_neg hzero, check, safe_bind, safe_check]
  intro hadv
  have hstart : InDump b txStart := ⟨by have := hcur.1; omega, hpos'⟩
  simp only [Bool.not_true, Bool.false_eq_true, if_false]
  by_cases hwrap : 2 ^ 64 ≤ txStart + txSize
  · -- the end of the transaction is in front of its beginning
    have hback : advance txStart txSize < txStart := by
      rw [advance, Nat.mod_eq_sub_mod hwrap, Nat.mod_eq_of_lt (by omega)]; omega
    rw [readTxFields_wrapped hstart hback]
    trivial
  have hsum : advance txStart txSize = txStart + txSize := advance_eq (by omega)
  rw [hsum] at hadv ⊢
  have hfields := safe_readTxFields hstart hadv
  rw [safe_bind, hfields.iff_forall]
  rintro ⟨fields, dataPos⟩ hf
  obtain ⟨hd1, hd2, -⟩ := hfields.of_ok hf
  dsimp only at hd1 hd2 ⊢
  rw [safe_bind, safe_readVector ⟨by have := hstart.1; omega, by omega⟩]
  intro hds
  have hin := hfits _ _ _ _ hvar hzero hadv hf hds
  refine ⟨hin, ?_⟩
  rw [safe_bind]
  refine (safe_setData _ _).mono fun tx _ => ?_
  rw [advance_eq (by omega)]
  refine (safe_readTxTail tx hcur.1 (by omega) (by omega) hin (by omega) (by omega)).mono ?_
  rintro r ⟨hr, hr'⟩
  exact ⟨by omega, hr'⟩

/-- A transaction that is skipped. -/
theorem safe_readTransactionInfo_skip {curPos : ℕ} (txInfo : TransactionInfo) {isSaveAllTx : Bool}
    {helper : PrevTransactionSignHelper} {isValidate : Bool} (hcur : InDump b curPos) :
    Safe (readTransactionInfo b L curPos b.endPos txInfo false isSaveAllTx helper isValidate)
      fun r => r.2.1 ≤ b.endPos ∧ r.2.2 = txInfo ∧ (SkipFits b curPos → b.beginPos ≤ r.2.1) := by
  have hend63 := endPos_le b
  have hsize := safe_readVarInt hcur le_rfl
  rw [readTransactionInfo, safe_bind, hsize.iff_forall]
  rintro ⟨txSize, txStart⟩ hvar
  obtain ⟨hpos, hpos', hlt⟩ := hsize.of_ok hvar
  dsimp only at hpos hpos' hlt ⊢
  have hstart : b.beginPos ≤ txStart := by have := hcur.1; omega
  by_cases hzero : txSize = 0
  · rw [if_pos hzero]
    exact ⟨hpos', rfl, fun _ => hstart⟩
  rw [if_neg hzero, check, safe_bind, safe_check]
  intro hadv
  refine ⟨hadv, rfl, fun hfits => ?_⟩
  show b.beginPos ≤ advance txStart txSize
  by_cases hwrap : 2 ^ 64 ≤ txStart + txSize
  · rw [advance, Nat.mod_eq_sub_mod hwrap, Nat.mod_eq_of_lt (by omega)]
    exact hfits _ _ hvar hwrap
  · rw [advance_eq (by omega)]; omega

/-! ## Iterations -/

variable {o : ReadOptions}

/-- The transaction at the cursor of an iteration does not lead outside the dump. -/
def TxFits (b : Buf) (o : ReadOptions) (s : TxsLoop) : Prop :=
  if s.txIndex < o.beginTx then SkipFits b s.curPos else DataFits b s.curPos

/-- The loop goes on with these transactions, unless the last one was read. -/
def NotFull (o : ReadOptions) (s : TxsLoop) : Prop := ¬ (o.countTx ≠ 0 ∧ o.countTx ≤ s.txs.length)

/-- What an iteration does to the cursor and the index. -/
theorem readBlockTxsStep_eq_ok {s s' : TxsLoop} {again : Bool}
    (h : readBlockTxsStep b L o s = .ok (s', again)) :
    (∃ txSize tx, readTransactionInfo b L s.curPos b.endPos
        { filePos := { pos := txFilePos b o.posInFile s.curPos } } (decide (o.beginTx ≤ s.txIndex))
        o.isSaveAllTx s.helper o.isValidate = .ok (txSize, s'.curPos, tx)) ∧
      (again = true → s'.txIndex = s.txIndex + 1 ∧ NotFull o s') := by
  unfold readBlockTxsStep at h
  obtain ⟨⟨txSize, curPos, tx⟩, hread, h⟩ := bind_eq_ok.1 h
  dsimp only at h
  generalize (if (tx.isInitialized && decide (o.beginTx ≤ s.txIndex)) = true then s.txs ++ [tx]
    else s.txs) = txs at h
  split_ifs at h with hfull
  · cases h
    exact ⟨⟨txSize, tx, hread⟩, fun h => by cases h⟩
  · cases h
    exact ⟨⟨txSize, tx, hread⟩, fun _ => ⟨rfl, hfull⟩⟩

/-- An iteration is safe if the reading of its transaction is. -/
theorem safe_readBlockTxsStep_iff (s : TxsLoop) (Q : ℕ → Prop) :
    (Safe (readBlockTxsStep b L o s) fun r => Q r.1.curPos) ↔
      Safe (readTransactionInfo b L s.curPos b.endPos
        { filePos := { pos := txFilePos b o.posInFile s.curPos } } (decide (o.beginTx ≤ s.txIndex))
        o.isSaveAllTx s.helper o.isValidate) fun r => Q r.2.1 := by
  rw [readBlockTxsStep, safe_bind]
  refine iff_of_eq (congrArg _ (funext fun r => propext ?_))
  dsimp only
  split_ifs <;> exact Iff.rfl

theorem safe_step_of_fits {s : TxsLoop} (hcur : InDump b s.curPos) (hfits : TxFits b o s) :
    Safe (readBlockTxsStep b L o s) fun r => InDump b r.1.curPos := by
  rw [safe_readBlockTxsStep_iff s (InDump b)]
  unfold TxFits at hfits
  split_ifs at hfits with hskip
  · rw [decide_eq_false (by omega)]
    exact (safe_readTransactionInfo_skip _ hcur).mono fun r hr => ⟨hr.2.2 hfits, hr.1⟩
  · rw [decide_eq_true (by omega)]
    refine (hfits.safe hcur).mono fun r hr => ⟨?_, hr.2⟩
    have := hcur.1; omega

theorem inDump_of_readVarInt {curPos endPos : ℕ} {r : ℕ × ℕ}
    (h : readVarInt b curPos endPos = .ok r) : InDump b curPos := by
  obtain ⟨⟨len, pos⟩, hint, -⟩ := bind_eq_ok.1 h
  obtain ⟨_, -, h1⟩ := bind_eq_ok.1 hint
  obtain ⟨bs, hload, -⟩ := bind_eq_ok.1 h1
  have hsafe : Safe (b.load curPos 1 : Exec Exn Bytes) fun _ => True := by rw [hload]; trivial
  rw [Buf.safe_load] at hsafe
  have hin := hsafe.1 (by omega)
  exact ⟨hin.1, by have := hin.2; omega⟩

/-- An iteration in front of the dump reads there. -/
theorem begin_le_of_safe {s : TxsLoop} {Q : TxsLoop × Bool → Prop} (hle : s.curPos ≤ b.endPos)
    (h : Safe (readBlockTxsStep b L o s) Q) : b.beginPos ≤ s.curPos := by
  by_contra hlt
  have hend63 := endPos_le b
  have hbe : b.beginPos ≤ b.endPos := Nat.le_add_right _ _
  have hsafe := (safe_readBlockTxsStep_iff s fun _ => True).1 (h.mono fun _ _ => trivial)
  have hvar : Safe (readVarInt b s.curPos b.endPos) fun _ => True := by
    rw [readTransactionInfo, safe_bind] at hsafe
    exact hsafe.mono fun _ _ => trivial
  rw [readVarInt, safe_bind, readInt, check_of (by rw [advance_eq (by omega)]; omega), ok_bind,
    safe_bind, Buf.safe_load] at hvar
  exact hlt (hvar.1 (by omega)).1

/-- A size that makes the sum wrap moves the cursor backwards. -/
theorem readBlockTxsStep_wrap {s : TxsLoop} (hskip : s.txIndex < o.beginTx) (hfull : NotFull o s)
    {txSize txStart : ℕ} (hvar : readVarInt b s.curPos b.endPos = .ok (txSize, txStart))
    (hwrap : 2 ^ 64 ≤ txStart + txSize) :
    ∃ s', readBlockTxsStep b L o s = .ok (s', true) ∧ s'.curPos = txStart + txSize - 2 ^ 64 := by
  have hend63 := endPos_le b
  obtain ⟨hpos, hpos', hlt⟩ := (safe_readVarInt (inDump_of_readVarInt hvar) le_rfl).of_ok hvar
  dsimp only at hpos hpos' hlt
  have hadv : advance txStart txSize = txStart + txSize - 2 ^ 64 := by
    rw [advance, Nat.mod_eq_sub_mod hwrap, Nat.mod_eq_of_lt (by omega)]
  have hread : ∀ tx, readTransactionInfo b L s.curPos b.endPos tx false o.isSaveAllTx s.helper
      o.isValidate = .ok (txSize, txStart + txSize - 2 ^ 64, tx) := by
    intro tx
    rw [readTransactionInfo, hvar, ok_bind]
    dsimp only
    rw [if_neg (by omega), hadv, check_of (by omega)]
    rfl
  rw [readBlockTxsStep, decide_eq_false (by omega), hread, ok_bind]
  simp only [Bool.and_false, Bool.false_eq_true, if_false]
  rw [if_neg hfull, decide_eq_true (by omega)]
  exact ⟨_, rfl, rfl⟩

/-- The number of iterations that are left. -/
def iterationsLeft (b : Buf) (o : ReadOptions) (s : TxsLoop) : ℕ :=
  if s.txIndex < o.beginTx then o.beginTx - s.txIndex + b.bytes.length + 1
  else min (b.bytes.length + 1) (b.endPos + 1 - s.curPos)

theorem iterationsLeft_lt {s s' : TxsLoop} (h : readBlockTxsStep b L o s = .ok (s', true)) :
    iterationsLeft b o s' < iterationsLeft b o s := by
  obtain ⟨⟨txSize, tx, hread⟩, hnext⟩ := readBlockTxsStep_eq_ok h
  obtain ⟨hindex, -⟩ := hnext rfl
  unfold iterationsLeft
  rw [hindex]
  by_cases hskip : s.txIndex < o.beginTx
  · rw [if_pos hskip]
    split_ifs
    · omega
    · have := Nat.min_le_left (b.bytes.length + 1) (b.endPos + 1 - s'.curPos)
      omega
  · rw [if_neg hskip, if_neg (by omega)]
    rw [decide_eq_true (by omega)] at hread
    have hcur : InDump b s.curPos := by
      obtain ⟨r, hvar, -⟩ := bind_eq_ok.1 hread
      exact inDump_of_readVarInt hvar
    have hmove := ((dataFits_of_safe hcur (safe_of_eq_ok hread)).safe hcur).of_ok hread
    dsimp only at hmove
    have hbegin := hcur.1
    have hend : b.endPos = b.beginPos + b.bytes.length := rfl
    omega

/-! ## The block -/

/-- The cursor of an iteration is in the dump if the iterations before it fit. -/
theorem inDump_of_visits {s t : TxsLoop} (hs : InDump b s.curPos)
    (hfits : ∀ t, Visits (readBlockTxsStep b L o) s t → TxFits b o t)
    (h : Visits (readBlockTxsStep b L o) s t) : InDump b t.curPos := by
  induction h with
  | first => exact hs
  | next hv hstep ih => exact (safe_step_of_fits ih (hfits _ hv)).of_ok hstep

theorem notFull_start : NotFull o (TxsLoop.start b) := by
  rintro ⟨hne, hle⟩
  exact hne (Nat.le_zero.1 hle)

theorem notFull_of_visits {s t : TxsLoop} (hs : NotFull o s)
    (h : Visits (readBlockTxsStep b L o) s t) : NotFull o t :=
  Visits.invariant (fun _ _ _ hstep => ((readBlockTxsStep_eq_ok hstep).2 rfl).2) hs h

/-- If all iterations are safe, the cursor never leaves the dump. -/
theorem inDump_of_safe {s t : TxsLoop} (hs : InDump b s.curPos)
    (hsafe : ∀ t, Visits (readBlockTxsStep b L o) s t →
      Safe (readBlockTxsStep b L o t) fun _ => True)
    (h : Visits (readBlockTxsStep b L o) s t) : InDump b t.curPos := by
  induction h with
  | first => exact hs
  | @next t t' hv hstep ih =>
    suffices hle : t'.curPos ≤ b.endPos from ⟨begin_le_of_safe hle (hsafe t' (hv.next hstep)), hle⟩
    obtain ⟨⟨txSize, tx, hread⟩, -⟩ := readBlockTxsStep_eq_ok hstep
    by_cases hskip : t.txIndex < o.beginTx
    · rw [decide_eq_false (by omega)] at hread
      exact ((safe_readTransactionInfo_skip _ ih).of_ok hread).1
    · rw [decide_eq_true (by omega)] at hread
      exact (((dataFits_of_safe ih (safe_of_eq_ok hread)).safe ih).of_ok hread).2

/-- The loop is safe if and only if the transaction of every iteration fits. -/
theorem safe_iterations_iff {s : TxsLoop} (hs : InDump b s.curPos) (hfull : NotFull o s) :
    (∀ t, Visits (readBlockTxsStep b L o) s t → Safe (readBlockTxsStep b L o t) fun _ => True) ↔
      ∀ t, Visits (readBlockTxsStep b L o) s t → TxFits b o t := by
  constructor
  · intro hsafe t ht
    have hcur := inDump_of_safe hs hsafe ht
    unfold TxFits
    split_ifs with hskip
    · intro txSize txStart hvar hwrap
      obtain ⟨t', hstep, hpos⟩ := readBlockTxsStep_wrap hskip (notFull_of_visits hfull ht) hvar hwrap
      have hcur' := inDump_of_safe hs hsafe (ht.next hstep)
      rw [← hpos]
      exact hcur'.1
    · have hread := (safe_readBlockTxsStep_iff t fun _ => True).1 (hsafe t ht)
      rw [decide_eq_true (by omega)] at hread
      exact dataFits_of_safe hcur hread
  · intro hfits t ht
    exact (safe_step_of_fits (inDump_of_visits hs hfits ht) (hfits t ht)).mono fun _ _ => trivial

theorem safe_signatureOf (signature : Bytes) (txs : List TransactionInfo) :
    Safe (signatureOf signature txs) fun _ => True := by
  cases txs with
  | nil => trivial
  | cons tx txs =>
    rw [signatureOf, safe_bind]
    exact safe_eq.mono fun _ _ => trivial

/-- The header takes 80 bytes. -/
theorem safe_readBlockHeaderWithoutSize (bi : BlockHeader) :
    Safe (readBlockHeaderWithoutSize b L bi) fun _ => 80 ≤ b.bytes.length := by
  have hend63 := endPos_le b
  have hend : b.endPos = b.beginPos + b.bytes.length := rfl
  rw [readBlockHeaderWithoutSize, safe_bind]
  refine (safe_readInt (by omega) ⟨le_rfl, by omega⟩ le_rfl).mono ?_
  rintro ⟨blockType, p1⟩ ⟨h1, h1', -⟩
  dsimp only at h1 h1' ⊢
  rw [safe_bind]
  refine (safe_readInt (by omega) ⟨by omega, h1'⟩ le_rfl).mono ?_
  rintro ⟨timestamp, p2⟩ ⟨h2, h2', -⟩
  dsimp only at h2 h2' ⊢
  rw [advance_eq (by omega), check, safe_bind, safe_check]
  intro h3
  rw [safe_bind]
  refine (safe_load_range (by omega) h3).mono fun prevHash _ => ?_
  rw [advance_eq (by omega), check, safe_bind, safe_check]
  intro h4
  rw [safe_bind]
  refine (safe_load_range (by omega) h4).mono fun txsHash _ => ?_
  show 80 ≤ b.bytes.length
  omega

/-- The header of a dump that is long enough. -/
theorem readBlockHeaderWithoutSize_eq (hlen : 80 ≤ b.bytes.length) (bi : BlockHeader) :
    readBlockHeaderWithoutSize b L bi = .ok { bi with
      blockType := UInt64.ofNat (leNat (slice b.bytes 0 8))
      timestamp := UInt64.ofNat (leNat (slice b.bytes 8 8))
      prevHash := L.support.toHex (slice b.bytes 16 32)
      txsHash := L.support.toHex (slice b.bytes 48 32) } := by
  have hend63 := endPos_le b
  have hend : b.endPos = b.beginPos + b.bytes.length := rfl
  have hint : ∀ pos, pos + 8 ≤ 80 → readInt b 8 (b.beginPos + pos) b.endPos =
      .ok (leNat (slice b.bytes pos 8), b.beginPos + pos + 8) := by
    intro pos hpos
    rw [readInt, advance_eq (by omega), check_of (by omega), ok_bind,
      Buf.load_inside b ⟨by omega, by omega⟩, Nat.add_sub_cancel_left]
    rfl
  have hload : ∀ pos, pos + 32 ≤ 80 → (b.load (b.beginPos + pos) 32 : Exec Exn Bytes) =
      .ok (slice b.bytes pos 32) := by
    intro pos hpos
    rw [Buf.load_inside b ⟨by omega, by omega⟩, Nat.add_sub_cancel_left]
  have h0 := hint 0 (by omega)
  rw [Nat.add_zero] at h0
  rw [readBlockHeaderWithoutSize, h0, ok_bind]
  dsimp only
  rw [hint 8 (by omega), ok_bind]
  dsimp only
  rw [Nat.add_assoc, advance_eq (by omega), check_of (by omega), ok_bind, hload 16 (by omega), ok_bind,
    Nat.add_assoc, advance_eq (by omega), check_of (by omega), ok_bind, hload 48 (by omega)]
  rfl

/-- The loop of `readBlockTxs` is safe if and only if the transaction of every iteration fits. -/
theorem safe_readBlockTxs_iff (hlen : 80 ≤ b.bytes.length) (header : BlockHeader) :
    (Safe (readBlockTxs b L o header) fun _ => True) ↔
      ∀ s, Visits (readBlockTxsStep b L o) (TxsLoop.start b) s → TxFits b o s := by
  have hend63 := endPos_le b
  have hend : b.endPos = b.beginPos + b.bytes.length := rfl
  have hstart : InDump b (TxsLoop.start b).curPos := by
    show InDump b (advance b.beginPos 80)
    rw [advance_eq (by omega)]
    exact ⟨by omega, by omega⟩
  have hfuel : iterationsLeft b o (TxsLoop.start b) < o.beginTx + b.bytes.length + 2 := by
    unfold iterationsLeft
    split_ifs <;> omega
  have hloop : (Safe (loop (readBlockTxsStep b L o) (o.beginTx + b.bytes.length + 2)
      (TxsLoop.start b)) fun _ => True) ↔
      ∀ s, Visits (readBlockTxsStep b L o) (TxsLoop.start b) s → TxFits b o s := by
    rw [safe_loop (fun _ _ => iterationsLeft_lt) _ hfuel, ← safe_iterations_iff hstart notFull_start]
    simp only [implies_true]
  rw [← hloop, readBlockTxs, safe_bind, Buf.safe_load]
  rw [and_iff_right fun _ => ⟨le_rfl, le_rfl⟩]
  dsimp only
  rw [safe_bind]
  refine ⟨fun h => h.mono fun _ _ => trivial, fun h => h.mono fun s _ => ?_⟩
  rw [safe_bind]
  exact (safe_signatureOf _ _).mono fun _ _ => trivial

end

/-- A block with one transaction: its data has 200 bytes, but one byte is left. -/
def overlongData : Buf where
  beginPos := 4096
  bytes := List.replicate 80 0 ++ [30] ++ List.replicate 28 0 ++ [200, 0]
  inUserSpace := by decide

/-- A block whose first transaction ends, modulo 2^64, in front of the block. -/
def wrappedSize : Buf where
  beginPos := 4096
  bytes := List.replicate 80 0 ++ [252, 0, 0xff, 0xff, 0xff, 0xff, 0xff, 0xff, 0xff]
  inUserSpace := by decide

end TorrentNode
