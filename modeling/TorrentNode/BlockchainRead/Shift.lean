/-
  The parser does not depend on where its bytes stand.

  `SameWindow b b' A A' n`: the `n` bytes at the address `A` of the object `b` and
  those at the address `A'` of `b'` are the same.  What a reader returns from the
  first window it returns from the second one, with the cursor moved along
  (`readTransactionInfo_shift`); so a dump that is parsed gives the same block
  wherever it is loaded (`readNextBlockInfo_moved`).

  Only parses that return are compared: the size of the data is not checked, so a
  parse that fails may have read behind the window.
-/
import TorrentNode.BlockchainRead.Safety

open Wire Exec

namespace TorrentNode

theorem slice_slice (bs : Bytes) {pos n i k : ℕ} (h : i + k ≤ n) :
    slice (slice bs pos n) i k = slice bs (pos + i) k := by
  rw [slice, slice, slice, List.drop_take, List.take_take, List.drop_drop, Nat.min_eq_left (by omega)]

/-- The `n` bytes at `A` and at `A'` are the same. -/
structure SameWindow (b b' : Buf) (A A' n : ℕ) : Prop where
  begin_le : b.beginPos ≤ A
  end_le : A + n ≤ b.endPos
  begin_le' : b'.beginPos ≤ A'
  end_le' : A' + n ≤ b'.endPos
  eq : slice b.bytes (A - b.beginPos) n = slice b'.bytes (A' - b'.beginPos) n

section
variable {b b' : Buf} {A A' n : ℕ} (hw : SameWindow b b' A A' n)
include hw

/-! ## Readers -/

theorem load_shift {i k : ℕ} (h : i + k ≤ n) :
    ∃ bs, (b.load (A + i) k : Exec Exn Bytes) = .ok bs ∧
      (b'.load (A' + i) k : Exec Exn Bytes) = .ok bs := by
  have h1 := hw.begin_le
  have h2 := hw.end_le
  have h3 := hw.begin_le'
  have h4 := hw.end_le'
  have heq : slice b.bytes (A + i - b.beginPos) k = slice b'.bytes (A' + i - b'.beginPos) k := by
    have h5 : slice (slice b.bytes (A - b.beginPos) n) i k =
        slice (slice b'.bytes (A' - b'.beginPos) n) i k := by rw [hw.eq]
    rw [slice_slice _ h, slice_slice _ h] at h5
    rw [Nat.sub_add_comm h1, Nat.sub_add_comm h3]
    exact h5
  refine ⟨_, b.load_inside ⟨by omega, by omega⟩, ?_⟩
  rw [b'.load_inside ⟨by omega, by omega⟩, heq]

theorem load_shift_ok {i k : ℕ} {bs : Bytes} (h : i + k ≤ n)
    (hload : (b.load (A + i) k : Exec Exn Bytes) = .ok bs) :
    (b'.load (A' + i) k : Exec Exn Bytes) = .ok bs := by
  obtain ⟨bs', h1, h2⟩ := load_shift hw h
  rw [h2, ← Exec.ok.inj (h1.symm.trans hload)]

theorem advance_window {i k : ℕ} (h : i + k ≤ n) : advance (A + i) k = A + (i + k) := by
  have h1 := hw.end_le
  have h2 := endPos_le b
  rw [advance_eq (by omega), Nat.add_assoc]

theorem advance_window' {i k : ℕ} (h : i + k ≤ n) : advance (A' + i) k = A' + (i + k) := by
  have h1 := hw.end_le'
  have h2 := endPos_le b'
  rw [advance_eq (by omega), Nat.add_assoc]

theorem readInt_shift {w i E v pos : ℕ} (hi : i + w ≤ n)
    (h : readInt b w (A + i) E = .ok (v, pos)) :
    pos = A + (i + w) ∧ ∀ E', A' + (i + w) ≤ E' →
      readInt b' w (A' + i) E' = .ok (v, A' + (i + w)) := by
  obtain ⟨_, -, h⟩ := bind_eq_ok.1 h
  obtain ⟨t, hload, h⟩ := bind_eq_ok.1 h
  rw [advance_window hw hi] at h
  cases h
  refine ⟨rfl, fun E' hE' => ?_⟩
  rw [readInt, advance_window' hw hi, check_of hE', ok_bind, load_shift_ok hw hi hload]
  rfl

/-- A varint that lies in the window. -/
theorem readVarInt_shift {i E v pos : ℕ} (hi : i ≤ n) (h : readVarInt b (A + i) E = .ok (v, pos))
    (hpos : pos ≤ A + n) (hE : E ≤ b.endPos) :
    ∃ j, pos = A + j ∧ i < j ∧ j ≤ i + 9 ∧ ∀ E', A' + j ≤ E' →
      readVarInt b' (A' + i) E' = .ok (v, A' + j) := by
  have hin : InDump b (A + i) := ⟨by have := hw.begin_le; omega, by have := hw.end_le; omega⟩
  have hlt := ((safe_readVarInt hin hE).of_ok h).1
  dsimp only at hlt
  obtain ⟨⟨len, p⟩, hlen, h⟩ := bind_eq_ok.1 h
  obtain ⟨rfl, hlen'⟩ := readInt_shift hw (show i + 1 ≤ n by omega) hlen
  -- the three longer forms
  have hlong : ∀ w, w ≠ 0 → w ≤ 8 → readInt b w (A + (i + 1)) E = .ok (v, pos) →
      ∃ j, pos = A + j ∧ i < j ∧ j ≤ i + 9 ∧ ∀ E', A' + j ≤ E' →
        readInt b' 1 (A' + i) E' = .ok (len, A' + (i + 1)) ∧
          readInt b' w (A' + (i + 1)) E' = .ok (v, A' + j) := by
    intro w hw0 hw8 hread
    have hin' : InDump b (A + (i + 1)) := ⟨by have := hin.1; omega, by have := hw.end_le; omega⟩
    have hp := ((safe_readInt hw8 hin' hE).of_ok hread).1
    dsimp only at hp
    obtain ⟨-, hread'⟩ := readInt_shift hw (show i + 1 + w ≤ n by omega) hread
    refine ⟨i + 1 + w, by omega, by omega, by omega, fun E' hE' => ?_⟩
    exact ⟨hlen' E' (by omega), hread' E' hE'⟩
  dsimp only at h
  split_ifs at h with h249 h250 h251 h252
  · cases h
    refine ⟨i + 1, rfl, by omega, by omega, fun E' hE' => ?_⟩
    rw [readVarInt, hlen' E' hE', ok_bind]
    dsimp only
    rw [if_pos h249]
    rfl
  · obtain ⟨j, hj, h1, h2, hread⟩ := hlong 2 (by omega) (by omega) h
    refine ⟨j, hj, h1, h2, fun E' hE' => ?_⟩
    rw [readVarInt, (hread E' hE').1, ok_bind]
    dsimp only
    rw [if_neg h249, if_pos h250, (hread E' hE').2]
  · obtain ⟨j, hj, h1, h2, hread⟩ := hlong 4 (by omega) (by omega) h
    refine ⟨j, hj, h1, h2, fun E' hE' => ?_⟩
    rw [readVarInt, (hread E' hE').1, ok_bind]
    dsimp only
    rw [if_neg h249, if_neg h250, if_pos h251, (hread E' hE').2]
  · obtain ⟨j, hj, h1, h2, hread⟩ := hlong 8 (by omega) (by omega) h
    refine ⟨j, hj, h1, h2, fun E' hE' => ?_⟩
    rw [readVarInt, (hread E' hE').1, ok_bind]
    dsimp only
    rw [if_neg h249, if_neg h250, if_neg h251, if_pos h252, (hread E' hE').2]

theorem readVector_shift {i k : ℕ} {bs : Bytes} (hi : i + k ≤ n)
    (h : readVector b (A + i) k = .ok bs) : readVector b' (A' + i) k = .ok bs := by
  obtain ⟨_, hsize, hload⟩ := bind_eq_ok.1 h
  rw [readVector, hsize, ok_bind, load_shift_ok hw hi hload]

/-- A varint in front of the end of a transaction. -/
theorem readVarInt_shift_end {i e v pos : ℕ} (hi : i ≤ n) (he : e ≤ n)
    (h : readVarInt b (A + i) (A + e) = .ok (v, pos)) :
    ∃ j, pos = A + j ∧ i < j ∧ j ≤ e ∧ readVarInt b' (A' + i) (A' + e) = .ok (v, A' + j) := by
  have h1 := hw.begin_le
  have h2 := hw.end_le
  have hin : InDump b (A + i) := ⟨by omega, by omega⟩
  have hle := ((safe_readVarInt hin (show A + e ≤ b.endPos by omega)).of_ok h).2.1
  dsimp only at hle
  obtain ⟨j, rfl, hlt, -, hread⟩ := readVarInt_shift hw hi h (by omega) (by omega)
  exact ⟨j, rfl, hlt, by omega, hread _ (by omega)⟩

theorem readTxFields_shift {i e pos : ℕ} {fields : TxFields} (hi : i ≤ n) (he : e ≤ n)
    (h : readTxFields b (A + i) (A + e) = .ok (fields, pos)) :
    ∃ j, pos = A + j ∧ i < j ∧ j ≤ e ∧
      readTxFields b' (A' + i) (A' + e) = .ok (fields, A' + j) := by
  have h2 := hw.end_le
  have h63 := endPos_le b
  obtain ⟨_, hadr, h⟩ := bind_eq_ok.1 h
  have hle := check_eq_ok hadr
  rw [advance_eq (by omega)] at hle
  have hadr' : i + 25 ≤ n := by omega
  obtain ⟨toAddress, hload, h⟩ := bind_eq_ok.1 h
  rw [advance_window hw hadr'] at h
  obtain ⟨⟨value, p⟩, hvalue, h⟩ := bind_eq_ok.1 h
  obtain ⟨j1, rfl, hlt1, hle1, hvalue⟩ := readVarInt_shift_end hw hadr' he hvalue
  obtain ⟨⟨fees, p⟩, hfees, h⟩ := bind_eq_ok.1 h
  obtain ⟨j2, rfl, hlt2, hle2, hfees⟩ := readVarInt_shift_end hw (by omega) he hfees
  obtain ⟨⟨nonce, p⟩, hnonce, h⟩ := bind_eq_ok.1 h
  obtain ⟨j3, rfl, hlt3, hle3, hnonce⟩ := readVarInt_shift_end hw (by omega) he hnonce
  obtain ⟨⟨dataSize, p⟩, hdata, h⟩ := bind_eq_ok.1 h
  obtain ⟨j4, rfl, hlt4, hle4, hdata⟩ := readVarInt_shift_end hw (by omega) he hdata
  cases h
  refine ⟨j4, rfl, by omega, hle4, ?_⟩
  rw [readTxFields, advance_window' hw hadr', check_of (by omega), ok_bind,
    load_shift_ok hw hadr' hload, ok_bind]
  dsimp only
  simp only [hvalue, hfees, hnonce, hdata, ok_bind, pure_eq_ok]

theorem readString_shift {i e pos : ℕ} {str : Bytes} (hi : i ≤ n) (he : e ≤ n)
    (h : readString b (A + i) (A + e) = .ok (str, pos)) :
    ∃ j, pos = A + j ∧ i < j ∧ j ≤ e ∧ readString b' (A' + i) (A' + e) = .ok (str, A' + j) := by
  have h2 := hw.end_le
  have h63 := endPos_le b
  obtain ⟨⟨size, p⟩, hsize, h⟩ := bind_eq_ok.1 h
  obtain ⟨j, rfl, hlt, hle, hsize⟩ := readVarInt_shift_end hw hi he hsize
  obtain ⟨_, hcheck, h⟩ := bind_eq_ok.1 h
  have hcheck := check_eq_ok hcheck
  obtain ⟨bs, hvec, h⟩ := bind_eq_ok.1 h
  -- a size that wraps is refused by the vector
  obtain ⟨_, hmax, -⟩ := bind_eq_ok.1 hvec
  have hlt63 : size < 2 ^ 63 := by
    by_contra hge
    rw [Exec.check_neg hge] at hmax
    cases hmax
  have hfit : j + size ≤ n := by
    rw [advance_eq (by omega)] at hcheck
    omega
  rw [advance_window hw hfit] at h hcheck
  cases h
  refine ⟨j + size, rfl, by omega, by omega, ?_⟩
  simp only [readString, hsize, ok_bind, advance_window' hw hfit,
    check_of (show A' + (j + size) ≤ A' + e by omega), readVector_shift hw hfit hvec, pure_eq_ok]

theorem readStatus_shift {i e pos : ℕ} {status : Option UInt64} (hi : i ≤ e) (he : e ≤ n)
    (h : readStatus b (A + i) (A + e) = .ok (status, pos)) :
    ∃ j, pos = A + j ∧ i ≤ j ∧ j ≤ e ∧ readStatus b' (A' + i) (A' + e) = .ok (status, A' + j) := by
  unfold readStatus at h ⊢
  by_cases hlt : i < e
  · rw [if_pos (by omega)] at h
    obtain ⟨⟨intStatus, p⟩, hread, h⟩ := bind_eq_ok.1 h
    obtain ⟨j, rfl, hlt', hle, hread⟩ := readVarInt_shift_end hw (by omega) he hread
    cases h
    refine ⟨j, rfl, by omega, hle, ?_⟩
    rw [if_pos (by omega), hread]
    rfl
  · rw [if_neg (by omega)] at h
    cases h
    exact ⟨i, rfl, le_rfl, hi, by rw [if_neg (by omega)]; rfl⟩

/-! ## Transactions -/

variable {L : Libs}

theorem load_range_shift {i j : ℕ} (hij : i ≤ j) (hj : j ≤ n) :
    ∃ bs, (b.load (A + i) (A + j - (A + i)) : Exec Exn Bytes) = .ok bs ∧
      (b'.load (A' + i) (A' + j - (A' + i)) : Exec Exn Bytes) = .ok bs := by
  rw [Nat.add_sub_add_left, Nat.add_sub_add_left]
  exact load_shift hw (by omega)

theorem readTxRaw_shift {t : TransactionInfo} {i j : ℕ} (hij : i ≤ j) (hj : j ≤ n)
    {info : Option ScriptInfo} (h : readTxRaw b t (A + i) (A + j) = .ok info) :
    readTxRaw b' t (A' + i) (A' + j) = .ok info := by
  unfold readTxRaw at h ⊢
  cases hs : t.scriptInfo with
  | none => rwa [hs] at h
  | some script =>
    obtain ⟨bs, h1, h2⟩ := load_range_shift hw hij hj
    simp only [hs, h1, ok_bind] at h
    simp only [h2, ok_bind]
    exact h

theorem readAllRawTx_shift {isSaveAllTx : Bool} (isSaveAllTx' : Bool) {i j : ℕ} (hij : i ≤ j)
    (hj : j ≤ n) {raw : Bytes} (h : readAllRawTx b isSaveAllTx (A + i) (A + j) = .ok raw) :
    ∃ raw', readAllRawTx b' isSaveAllTx' (A' + i) (A' + j) = .ok raw' ∧
      (isSaveAllTx' = isSaveAllTx → raw' = raw) := by
  obtain ⟨bs, h1, h2⟩ := load_range_shift hw hij hj
  cases isSaveAllTx' with
  | true =>
    refine ⟨bs, h2, ?_⟩
    rintro rfl
    exact Exec.ok.inj (h1.symm.trans h)
  | false =>
    refine ⟨[], rfl, ?_⟩
    rintro rfl
    exact Exec.ok.inj h

theorem validateTx_shift {isValidate isValidate' : Bool} (hval : isValidate' = true → isValidate = true)
    {t : TransactionInfo} {i j : ℕ} (hij : i ≤ j) (hj : j ≤ n)
    (h : validateTx b L isValidate t (A + i) (A + j) = .ok ()) :
    validateTx b' L isValidate' t (A' + i) (A' + j) = .ok () := by
  cases isValidate' with
  | false => rfl
  | true =>
    obtain rfl := hval rfl
    obtain ⟨bs, h1, h2⟩ := load_range_shift hw hij hj
    simp only [validateTx, h1, ok_bind] at h
    simp only [validateTx, h2, ok_bind]
    exact h

omit hw in
/-- Without a signature before it, a transaction does not sign the block. -/
theorem isSignBlockTx_other {t : TransactionInfo} {helper helper' : PrevTransactionSignHelper}
    (hhelper : helper' = helper ∨ helper'.isPrevSign = false) {isSign : Bool}
    (h : isSignBlockTx t helper = .ok isSign) :
    ∃ isSign', isSignBlockTx t helper' = .ok isSign' ∧ (helper' = helper → isSign' = isSign) := by
  rcases hhelper with rfl | hprev
  · exact ⟨isSign, h, fun _ => rfl⟩
  · have hother : isSignBlockTx t helper' = .ok false := by simp [isSignBlockTx, hprev]
    refine ⟨false, hother, ?_⟩
    rintro rfl
    exact Exec.ok.inj (hother.symm.trans h)

omit hw in
theorem isSignBlockTx_congr {t t' : TransactionInfo} {helper : PrevTransactionSignHelper}
    (h1 : t'.fromAddress = t.fromAddress) (h2 : t'.toAddress = t.toAddress) (h3 : t'.value = t.value)
    (h4 : t'.data = t.data) : isSignBlockTx t' helper = isSignBlockTx t helper := by
  simp only [isSignBlockTx, h1, h2, h3, h4]

omit hw in
theorem validateTx_congr {t t' : TransactionInfo} {isValidate : Bool} {i j : ℕ}
    (h1 : t'.fromAddress = t.fromAddress) (h2 : t'.sign = t.sign) (h3 : t'.pubKey = t.pubKey) :
    validateTx b L isValidate t' i j = validateTx b L isValidate t i j := by
  simp only [validateTx, h1, h2, h3]

section
variable {isSaveAllTx isValidate isValidate' : Bool} {helper helper' : PrevTransactionSignHelper}
  (fp : FilePosition) (isSaveAllTx' : Bool) (hval : isValidate' = true → isValidate = true)
  (hhelper : helper' = helper ∨ helper'.isPrevSign = false)
include hval hhelper

/-- The transaction `tx` is read from the other window as well: its place, its raw text and whether
    it signs the block may differ. -/
theorem completeTx_shift {t tx : TransactionInfo} {s0 s1 s2 s3 txSize k : ℕ} (h0 : s0 ≤ s3)
    (h1 : s1 ≤ s2) (h2 : s2 ≤ n) (h3 : s3 ≤ n) (hk : s1 + k ≤ n)
    (h : completeTx b L t (A + s0) (A + s1) (A + s2) (A + s3) txSize k isSaveAllTx helper isValidate =
      .ok tx) :
    ∃ raw isSign, completeTx b' L { t with filePos := fp } (A' + s0) (A' + s1) (A' + s2) (A' + s3)
        txSize k isSaveAllTx' helper' isValidate' =
          .ok { tx with filePos := fp, allRawTx := raw, isSignBlockTx := isSign } ∧
      (isSaveAllTx' = isSaveAllTx → raw = tx.allRawTx) ∧
      (helper' = helper → isSign = tx.isSignBlockTx) ∧ tx.filePos = t.filePos := by
  obtain ⟨fromAddress, hfrom, h⟩ := bind_eq_ok.1 h
  obtain ⟨hashed, hhash, h⟩ := bind_eq_ok.1 h
  obtain ⟨scriptInfo, hscript, h⟩ := bind_eq_ok.1 h
  obtain ⟨allRawTx, hraw, h⟩ := bind_eq_ok.1 h
  obtain ⟨isSign, hsign, h⟩ := bind_eq_ok.1 h
  obtain ⟨_, hvalid, h⟩ := bind_eq_ok.1 h
  obtain ⟨t', hfee, h⟩ := bind_eq_ok.1 h
  obtain ⟨_, hsize, hfee⟩ := bind_eq_ok.1 hfee
  cases hfee
  cases h
  obtain ⟨raw', hraw', hsame⟩ := readAllRawTx_shift hw isSaveAllTx' h0 h3 hraw
  obtain ⟨isSign', hsign', hsameSign⟩ := isSignBlockTx_other hhelper hsign
  refine ⟨raw', isSign', ?_, hsame, hsameSign, rfl⟩
  have hscript' : readTxRaw b' { t with filePos := fp } (A' + s1) (A' + s2) = .ok scriptInfo :=
    readTxRaw_shift hw h1 h2 hscript
  have hvalid' := validateTx_shift hw hval h1 h2 hvalid
  have hload := load_shift_ok hw hk hhash
  simp only [completeTx, hfrom, hload, hscript', hraw', ok_bind]
  refine bind_eq_ok.2 ⟨isSign', (isSignBlockTx_congr (by rfl) (by rfl) (by rfl) (by rfl)).trans
    hsign', ?_⟩
  refine bind_eq_ok.2 ⟨(), (validateTx_congr (by rfl) (by rfl) (by rfl)).trans hvalid', ?_⟩
  rw [TransactionInfo.calcRealFee, hsize, ok_bind]
  rfl

theorem readTxTail_shift {t tx : TransactionInfo} {s0 s1 i e txSize size pos : ℕ} (h0 : s0 ≤ s1)
    (h1 : s1 ≤ i) (hi : i ≤ n) (he : e ≤ n) (hsize : s1 + txSize ≤ n)
    (h : readTxTail b L t (A + s0) (A + s1) (A + i) (A + e) txSize isSaveAllTx helper isValidate =
      .ok (size, pos, tx)) :
    ∃ j raw isSign, pos = A + j ∧ i < j ∧ j ≤ e ∧ size = txSize ∧
      readTxTail b' L { t with filePos := fp } (A' + s0) (A' + s1) (A' + i) (A' + e) txSize
        isSaveAllTx' helper' isValidate' = .ok (size, A' + j,
          { tx with filePos := fp, allRawTx := raw, isSignBlockTx := isSign }) ∧
      (isSaveAllTx' = isSaveAllTx → raw = tx.allRawTx) ∧
      (helper' = helper → isSign = tx.isSignBlockTx) ∧ tx.filePos = t.filePos := by
  obtain ⟨⟨sign, p⟩, hsign, h⟩ := bind_eq_ok.1 h
  obtain ⟨j1, rfl, hlt1, hle1, hsign'⟩ := readString_shift hw hi he hsign
  obtain ⟨⟨pubKey, p⟩, hkey, h⟩ := bind_eq_ok.1 h
  obtain ⟨j2, rfl, hlt2, hle2, hkey'⟩ := readString_shift hw (by omega) he hkey
  obtain ⟨⟨status, p⟩, hstatus, h⟩ := bind_eq_ok.1 h
  obtain ⟨j3, rfl, hlt3, hle3, hstatus'⟩ := readStatus_shift hw hle2 he hstatus
  obtain ⟨tx', hcomplete, h⟩ := bind_eq_ok.1 h
  cases h
  have hdiff : A + j3 - (A + j2) = j3 - j2 := Nat.add_sub_add_left ..
  have hdiff' : A' + j3 - (A' + j2) = j3 - j2 := Nat.add_sub_add_left ..
  rw [hdiff] at hcomplete
  obtain ⟨raw, isSign, hcomplete', hraw, hs, hpos⟩ := completeTx_shift hw fp isSaveAllTx' hval hhelper
    (by omega) h1 hi (by omega) (by omega) hcomplete
  refine ⟨j3, raw, isSign, rfl, by omega, hle3, rfl, ?_, hraw, hs, hpos⟩
  simp only [readTxTail, hsign', hkey', hstatus', ok_bind, hdiff']
  refine bind_eq_ok.2 ⟨_, hcomplete', rfl⟩

omit hw hval hhelper in
theorem setData_filePos {t t' : TransactionInfo} {data : Bytes} (fp : FilePosition)
    (h : setData L t data = .ok t') :
    setData L { t with filePos := fp } data = .ok { t' with filePos := fp } ∧
      t'.filePos = t.filePos := by
  obtain ⟨isScript, hscript, h⟩ := bind_eq_ok.1 h
  have hscript' : ({ t with filePos := fp, data := data, delegate := delegateOf L data } :
      TransactionInfo).toAddress.isScriptAddress = .ok isScript := hscript
  cases isScript with
  | true =>
    cases h
    exact ⟨by rw [setData, hscript', ok_bind]; rfl, rfl⟩
  | false =>
    cases h
    exact ⟨by rw [setData, hscript', ok_bind]; rfl, rfl⟩

omit hw hval hhelper in
/-- The data of a transaction that is read ends in front of the end of the transaction. -/
theorem data_inside {t tx : TransactionInfo} {s0 s1 cur E dataSize txSize size pos : ℕ} {data : Bytes}
    (hcur : cur ≤ b.endPos) (hdata : readVector b cur dataSize = .ok data)
    (h : readTxTail b L t s0 s1 (advance cur dataSize) E txSize isSaveAllTx helper isValidate =
      .ok (size, pos, tx)) : cur + dataSize ≤ E ∧ advance cur dataSize = cur + dataSize := by
  have h63 := endPos_le b
  obtain ⟨_, hmax, hload⟩ := bind_eq_ok.1 hdata
  have hlt : dataSize < 2 ^ 63 := by
    by_contra hge
    rw [Exec.check_neg hge] at hmax
    cases hmax
  have hin : cur + dataSize ≤ b.endPos := by
    by_cases hzero : dataSize = 0
    · omega
    · have hsafe : Safe (b.load cur dataSize : Exec Exn Bytes) fun _ => True := by
        rw [hload]; trivial
      rw [Buf.safe_load] at hsafe
      exact (hsafe.1 hzero).2
  have hadv : advance cur dataSize = cur + dataSize := advance_eq (by omega)
  refine ⟨?_, hadv⟩
  rw [hadv] at h
  obtain ⟨_, hsign, -⟩ := bind_eq_ok.1 h
  obtain ⟨_, hvar, -⟩ := bind_eq_ok.1 hsign
  obtain ⟨_, hint, -⟩ := bind_eq_ok.1 hvar
  obtain ⟨_, hcheck, -⟩ := bind_eq_ok.1 hint
  have hle := check_eq_ok hcheck
  rw [advance_eq (by omega)] at hle
  omega

/-- **A transaction is read alike wherever it stands.**  The window covers it. -/
theorem readTransactionInfo_shift {t tx : TransactionInfo} {i E E' size pos : ℕ} (hi : i ≤ n)
    (hE : E ≤ b.endPos) (hE' : A' + n ≤ E')
    (hcover : ∀ txSize txStart, readVarInt b (A + i) E = .ok (txSize, txStart) →
      txStart + txSize ≤ A + n)
    (h : readTransactionInfo b L (A + i) E t true isSaveAllTx helper isValidate = .ok (size, pos, tx)) :
    ∃ j raw isSign, pos = A + j ∧ i < j ∧ j ≤ n ∧
      readTransactionInfo b' L (A' + i) E' { t with filePos := fp } true isSaveAllTx' helper'
        isValidate' = .ok (size, A' + j,
          { tx with filePos := fp, allRawTx := raw, isSignBlockTx := isSign }) ∧
      (isSaveAllTx' = isSaveAllTx → raw = tx.allRawTx) ∧
      (helper' = helper → isSign = tx.isSignBlockTx) ∧ tx.filePos = t.filePos := by
  have h63 := endPos_le b
  have hend := hw.end_le
  obtain ⟨⟨txSize, txStart⟩, hvar, h⟩ := bind_eq_ok.1 h
  have hc := hcover _ _ hvar
  obtain ⟨k, rfl, hlt, -, hvar'⟩ := readVarInt_shift hw hi hvar (by omega) hE
  have hvar'' := hvar' E' (by omega)
  by_cases hzero : txSize = 0
  · subst hzero
    cases h
    refine ⟨k, t.allRawTx, t.isSignBlockTx, rfl, hlt, by omega, ?_, fun _ => rfl, fun _ => rfl, rfl⟩
    rw [readTransactionInfo, hvar'', ok_bind]
    rfl
  · dsimp only at h
    rw [if_neg hzero] at h
    have hfit : k + txSize ≤ n := by omega
    obtain ⟨_, -, h⟩ := bind_eq_ok.1 h
    rw [advance_window hw hfit] at h
    obtain ⟨⟨fields, p⟩, hfields, h⟩ := bind_eq_ok.1 h
    obtain ⟨m, rfl, hlt2, hle2, hfields'⟩ := readTxFields_shift hw (by omega) hfit hfields
    obtain ⟨data, hdata, h⟩ := bind_eq_ok.1 h
    obtain ⟨t1, hset, h⟩ := bind_eq_ok.1 h
    obtain ⟨hin, hadv⟩ := data_inside (by omega) hdata h
    dsimp only at hin hadv hdata h
    have hfit' : m + fields.dataSize ≤ n := by omega
    rw [advance_window hw hfit'] at h
    obtain ⟨hset', hpos1⟩ := setData_filePos fp hset
    have hset'' : setData L (fields.setIn { t with filePos := fp }) data =
        .ok { t1 with filePos := fp } := hset'
    obtain ⟨j, raw, isSign, rfl, hj1, hj2, -, htail, hraw, hs, hpos⟩ := readTxTail_shift hw fp
      isSaveAllTx' hval hhelper (by omega) (by omega) hfit' hfit (by omega) h
    refine ⟨j, raw, isSign, rfl, by omega, by omega, ?_, hraw, hs, hpos.trans hpos1⟩
    rw [readTransactionInfo, hvar'', ok_bind]
    dsimp only
    rw [if_neg hzero, advance_window' hw hfit, check_of (by omega), ok_bind]
    simp only [Bool.not_true, Bool.false_eq_true, if_false, hfields', ok_bind,
      readVector_shift hw hfit' hdata, hset'', advance_window' hw hfit', htail]

end

end

/-! ## Blocks -/

/-- A transaction that was read `δ` bytes further on. -/
def moveTx (δ : UInt64) (tx : TransactionInfo) : TransactionInfo :=
  { tx with filePos := { tx.filePos with pos := tx.filePos.pos + δ } }

section
variable {b b' : Buf} {L : Libs}

/-- A transaction that is read ends in the dump. -/
theorem tx_inside {cur : ℕ} {t : TransactionInfo} {isSaveAllTx isValidate : Bool}
    {helper : PrevTransactionSignHelper} {r : ℕ × ℕ × TransactionInfo} (hcur : InDump b cur)
    (h : readTransactionInfo b L cur b.endPos t true isSaveAllTx helper isValidate = .ok r)
    {txSize txStart : ℕ} (hvar : readVarInt b cur b.endPos = .ok (txSize, txStart)) :
    txStart + txSize ≤ b.endPos := by
  have h63 := endPos_le b
  obtain ⟨hlt, hle, hsize⟩ := (safe_readVarInt hcur le_rfl).of_ok hvar
  dsimp only at hlt hle hsize
  by_cases hzero : txSize = 0
  · omega
  rw [readTransactionInfo, hvar, ok_bind] at h
  dsimp only at h
  rw [if_neg hzero] at h
  obtain ⟨_, hcheck, h⟩ := bind_eq_ok.1 h
  have hcheck := check_eq_ok hcheck
  by_contra hbehind
  -- the sum wraps, so the transaction ends in front of its beginning
  have hwrap : advance txStart txSize = txStart + txSize - 2 ^ 64 := by
    by_cases hlt64 : txStart + txSize < 2 ^ 64
    · rw [advance_eq hlt64] at hcheck
      omega
    · rw [advance, Nat.mod_eq_sub_mod (by omega), Nat.mod_eq_of_lt (by omega)]
  obtain ⟨_, hfields, -⟩ := bind_eq_ok.1 h
  rw [hwrap, readTxFields_wrapped ⟨by have := hcur.1; omega, hle⟩ (by omega)] at hfields
  cases hfields

/-- A transaction that is read has an address of 25 bytes. -/
theorem tx_long {cur : ℕ} {t : TransactionInfo} {isSaveAllTx isValidate : Bool}
    {helper : PrevTransactionSignHelper} {r : ℕ × ℕ × TransactionInfo} (hcur : InDump b cur)
    (h : readTransactionInfo b L cur b.endPos t true isSaveAllTx helper isValidate = .ok r)
    {txSize txStart : ℕ} (hvar : readVarInt b cur b.endPos = .ok (txSize, txStart))
    (hne : txSize ≠ 0) : 25 ≤ txSize := by
  have h63 := endPos_le b
  have hin := tx_inside hcur h hvar
  rw [readTransactionInfo, hvar, ok_bind] at h
  dsimp only at h
  rw [if_neg hne] at h
  obtain ⟨_, -, h⟩ := bind_eq_ok.1 h
  obtain ⟨_, hfields, -⟩ := bind_eq_ok.1 h
  obtain ⟨_, hcheck, -⟩ := bind_eq_ok.1 hfields
  have hle := check_eq_ok hcheck
  rw [advance_eq (by omega), advance_eq (by omega)] at hle
  omega

/-- The loops over a dump and over the same dump at another place. -/
structure Moved (b b' : Buf) (δ : UInt64) (s s' : TxsLoop) : Prop where
  cur : ∃ i, i ≤ b.bytes.length ∧ s.curPos = b.beginPos + i ∧ s'.curPos = b'.beginPos + i
  txIndex : s'.txIndex = s.txIndex
  helper : s'.helper = s.helper
  txs : s'.txs = s.txs.map (moveTx δ)

theorem sameWindow_whole (hbytes : b'.bytes = b.bytes) :
    SameWindow b b' b.beginPos b'.beginPos b.bytes.length where
  begin_le := le_rfl
  end_le := le_rfl
  begin_le' := le_rfl
  end_le' := by rw [Buf.endPos, hbytes]
  eq := by rw [Nat.sub_self, Nat.sub_self, hbytes]

variable (hbytes : b'.bytes = b.bytes) {o : ReadOptions} (hbegin : o.beginTx = 0)
  (hcount : o.countTx = 0) (posInFile : UInt64) {isValidate : Bool}
  (hval : isValidate = true → o.isValidate = true)
include hbytes hbegin hcount hval

theorem readBlockTxsStep_moved {s s' t : TxsLoop} {again : Bool}
    (hm : Moved b b' (posInFile - o.posInFile) s s')
    (h : readBlockTxsStep b L o s = .ok (t, again)) :
    ∃ t', readBlockTxsStep b' L { o with posInFile := posInFile, isValidate := isValidate } s' =
        .ok (t', again) ∧
      Moved b b' (posInFile - o.posInFile) t t' := by
  obtain ⟨i, hi, hcur, hcur'⟩ := hm.cur
  have hread : decide (o.beginTx ≤ s.txIndex) = true := decide_eq_true (by omega)
  have hend : b.endPos = b.beginPos + b.bytes.length := rfl
  have hin : InDump b (b.beginPos + i) := ⟨by omega, by omega⟩
  have hE' : b'.endPos = b'.beginPos + b.bytes.length := by rw [Buf.endPos, hbytes]
  unfold readBlockTxsStep at h
  obtain ⟨⟨txSize, pos, tx⟩, htx, h⟩ := bind_eq_ok.1 h
  rw [hread, hcur] at htx
  obtain ⟨j, raw, isSign, rfl, -, hj, htx', hraw, hsign, hpos⟩ := readTransactionInfo_shift
    (sameWindow_whole hbytes) { pos := txFilePos b' posInFile (b'.beginPos + i) } o.isSaveAllTx hval
    (Or.inl rfl) hi le_rfl (show _ ≤ b'.endPos by omega)
    (fun txSize txStart hvar => tx_inside hin htx hvar) htx
  rw [hraw rfl, hsign rfl] at htx'
  -- the transaction differs by its place
  have hmoved : ({ tx with filePos := { pos := txFilePos b' posInFile (b'.beginPos + i) } } :
      TransactionInfo) = moveTx (posInFile - o.posInFile) tx := by
    rw [moveTx, hpos]
    have hplace : txFilePos b' posInFile (b'.beginPos + i) =
        txFilePos b o.posInFile (b.beginPos + i) + (posInFile - o.posInFile) := by
      rw [txFilePos_eq, txFilePos_eq]
      grind
    rw [hplace]
  have hstep : readTransactionInfo b' L s'.curPos b'.endPos
      { filePos := { pos := txFilePos b' posInFile s'.curPos } } true o.isSaveAllTx s'.helper
      isValidate = .ok (txSize, b'.beginPos + j, moveTx (posInFile - o.posInFile) tx) := by
    rw [← hmoved, hcur', hm.helper]
    exact htx'
  dsimp only at h
  rw [hread, if_neg (by rw [hcount]; simp)] at h
  cases h
  refine ⟨{
      curPos := b'.beginPos + j
      txIndex := s'.txIndex + 1
      helper := { isPrevSign := tx.isSignBlockTx, prevTxData := tx.data }
      txs := if tx.isInitialized && true then
          s'.txs ++ [moveTx (posInFile - o.posInFile) tx] else s'.txs }, ?_, ?_⟩
  · unfold readBlockTxsStep
    dsimp only
    rw [hm.txIndex, hread, hstep, ok_bind]
    dsimp only
    rw [if_neg (by rw [hcount]; simp)]
    rfl
  · refine ⟨⟨j, hj, rfl, rfl⟩, by rw [hm.txIndex], rfl, ?_⟩
    dsimp only
    split_ifs
    · rw [hm.txs, List.map_append, List.map_singleton]
    · exact hm.txs

theorem loop_moved {fuel : ℕ} {s s' t : TxsLoop} (hm : Moved b b' (posInFile - o.posInFile) s s')
    (h : Exec.loop (readBlockTxsStep b L o) fuel s = .ok t) :
    ∃ t', Exec.loop (readBlockTxsStep b' L
        { o with posInFile := posInFile, isValidate := isValidate }) fuel s' = .ok t' ∧
      Moved b b' (posInFile - o.posInFile) t t' := by
  induction fuel generalizing s s' with
  | zero => cases h
  | succ fuel ih =>
    rw [Exec.loop] at h ⊢
    obtain ⟨⟨u, again⟩, hstep, h⟩ := bind_eq_ok.1 h
    obtain ⟨u', hstep', hm'⟩ := readBlockTxsStep_moved hbytes hbegin hcount posInFile hval hm hstep
    rw [hstep', ok_bind]
    cases again with
    | true => exact ih hm' h
    | false =>
      cases h
      exact ⟨u', rfl, hm'⟩

omit hbegin hcount hval in
theorem start_moved (hlen : 80 ≤ b.bytes.length) (δ : UInt64) :
    Moved b b' δ (TxsLoop.start b) (TxsLoop.start b') where
  cur := by
    have h63 := endPos_le b
    have h63' := endPos_le b'
    rw [Buf.endPos] at h63 h63'
    rw [hbytes] at h63'
    exact ⟨80, hlen, advance_eq (by omega), advance_eq (by omega)⟩
  txIndex := rfl
  helper := rfl
  txs := rfl

omit hbytes hbegin hcount hval in
/-- The signature comes from the first transaction, wherever it was read. -/
theorem signatureOf_map (signature : Bytes) (δ : UInt64) (txs : List TransactionInfo) :
    signatureOf signature (txs.map (moveTx δ)) = signatureOf signature txs := by
  cases txs <;> rfl

/-- **A block is read alike wherever its dump is loaded.**  The header is completed by the hash, the
    number of transactions and the signature; the transactions differ by their places.  Fewer checks do
    not change what is read. -/
theorem readBlockTxs_moved (hlen : 80 ≤ b.bytes.length) {header header' : BlockHeader}
    (hsig : header'.signature = header.signature) {bi : BlockInfo}
    (h : readBlockTxs b L o header = .ok bi) :
    bi.header = { header with
      hash := bi.header.hash, countTxs := bi.header.countTxs, signature := bi.header.signature } ∧
    readBlockTxs b' L { o with posInFile := posInFile, isValidate := isValidate } header' = .ok {
      header := { header' with
        hash := bi.header.hash, countTxs := bi.header.countTxs, signature := bi.header.signature }
      txs := bi.txs.map (moveTx (posInFile - o.posInFile)) } := by
  obtain ⟨dump, hload, h⟩ := bind_eq_ok.1 h
  obtain ⟨t, hloop, h⟩ := bind_eq_ok.1 h
  obtain ⟨signature, hsignature, h⟩ := bind_eq_ok.1 h
  rw [if_pos hcount] at hsignature h
  cases h
  obtain ⟨t', hloop', hm⟩ := loop_moved hbytes hbegin hcount posInFile hval
    (start_moved hbytes hlen (posInFile - o.posInFile)) hloop
  have hload' : (b'.load b'.beginPos b'.bytes.length : Exec Exn Bytes) = .ok dump := by
    have hwhole := load_shift_ok (sameWindow_whole hbytes) (show 0 + b.bytes.length ≤ _ by omega) hload
    rw [hbytes]
    exact hwhole
  refine ⟨rfl, ?_⟩
  rw [readBlockTxs, hload', ok_bind]
  dsimp only
  rw [hbytes, hloop', ok_bind, if_pos hcount]
  refine bind_eq_ok.2 ⟨signature, ?_, ?_⟩
  · rw [hm.txs, signatureOf_map, hsig]
    exact hsignature
  · rw [hm.txs, List.length_map]
    rfl

/-! ## The transactions of a block -/

omit hbytes hbegin hcount hval in
/-- The transaction `tx` was read at `i` of the dump. -/
def ReadAt (b : Buf) (L : Libs) (o : ReadOptions) (tx : TransactionInfo) (i : ℕ) : Prop :=
  80 ≤ i ∧ i ≤ b.bytes.length ∧ tx.isInitialized = true ∧
    tx.filePos = { pos := o.posInFile + 8 + UInt64.ofNat i } ∧ ∃ t helper size pos,
      readTransactionInfo b L (b.beginPos + i) b.endPos t true o.isSaveAllTx helper o.isValidate =
        .ok (size, pos, tx) ∧ t = { filePos := t.filePos }

omit hbytes hcount hval in
/-- Every transaction of a block was read somewhere in the dump. -/
theorem readBlockTxs_readAt (hlen : 80 ≤ b.bytes.length) {header : BlockHeader} {bi : BlockInfo}
    (h : readBlockTxs b L o header = .ok bi) : ∀ tx ∈ bi.txs, ∃ i, ReadAt b L o tx i := by
  obtain ⟨dump, -, h⟩ := bind_eq_ok.1 h
  obtain ⟨t, hloop, h⟩ := bind_eq_ok.1 h
  obtain ⟨signature, -, h⟩ := bind_eq_ok.1 h
  cases h
  have h63 := endPos_le b
  have hend : b.endPos = b.beginPos + b.bytes.length := rfl
  have hinv : (∃ i, 80 ≤ i ∧ i ≤ b.bytes.length ∧ t.curPos = b.beginPos + i) ∧
      ∀ tx ∈ t.txs, ∃ i, ReadAt b L o tx i := by
    refine Exec.loop_invariant
      (P := fun s => (∃ i, 80 ≤ i ∧ i ≤ b.bytes.length ∧ s.curPos = b.beginPos + i) ∧
        ∀ tx ∈ s.txs, ∃ i, ReadAt b L o tx i) ?_ ?_ hloop
    · rintro s t again ⟨⟨i, h80, hi, hcur⟩, htxs⟩ hstep
      have hread : decide (o.beginTx ≤ s.txIndex) = true := decide_eq_true (by omega)
      unfold readBlockTxsStep at hstep
      obtain ⟨⟨txSize, pos, tx⟩, htx, hstep⟩ := bind_eq_ok.1 hstep
      rw [hread, hcur] at htx
      obtain ⟨j, -, -, rfl, hij, hj, -, -, -, hpos⟩ := readTransactionInfo_shift
        (sameWindow_whole rfl) {} o.isSaveAllTx id (Or.inl rfl) hi le_rfl
        (show _ ≤ b.endPos by omega)
        (fun txSize txStart hvar => tx_inside ⟨by omega, by omega⟩ htx hvar) htx
      have hnew : ∀ tx' ∈ (if tx.isInitialized && true then s.txs ++ [tx] else s.txs),
          ∃ i, ReadAt b L o tx' i := by
        intro tx' hin
        split_ifs at hin with hinit
        · rcases List.mem_append.1 hin with hin | hin
          · exact htxs tx' hin
          · obtain rfl := List.mem_singleton.1 hin
            rw [Bool.and_true] at hinit
            refine ⟨i, h80, hi, hinit, ?_, _, _, _, _, htx, rfl⟩
            rw [hpos, txFilePos_eq]
        · exact htxs tx' hin
      dsimp only at hstep
      rw [hread] at hstep
      generalize (if tx.isInitialized && true then s.txs ++ [tx] else s.txs) = txs at hstep hnew
      split_ifs at hstep
      · cases hstep
        exact ⟨⟨j, by omega, hj, rfl⟩, hnew⟩
      · cases hstep
        exact ⟨⟨j, by omega, hj, rfl⟩, hnew⟩
    · exact ⟨⟨80, le_rfl, hlen, advance_eq (by omega)⟩, fun tx htx => absurd htx List.not_mem_nil⟩
  exact hinv.2

omit hbytes hcount hval in
theorem readNextBlockInfo_readAt (hlen : 80 ≤ b.bytes.length) {bi : BlockInfo}
    (h : readNextBlockInfo b L o = .ok bi) : ∀ tx ∈ bi.txs, ∃ i, ReadAt b L o tx i := by
  obtain ⟨header, -, h⟩ := bind_eq_ok.1 h
  obtain ⟨bi', htxs, h⟩ := bind_eq_ok.1 h
  cases h
  have hread := readBlockTxs_readAt hbegin hlen htxs
  exact hread

end

end TorrentNode
