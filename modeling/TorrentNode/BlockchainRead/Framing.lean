/-
  The places of the transactions of a block.

  A transaction that is skipped ends where its declared size says; a transaction
  that is parsed ends behind the last field that was read: the public key, or a
  status if bytes are left.  The places are described by the bytes of the dump alone
  (`varIntAt`, `bodyEnd`).

  `readBlockTxs_framing_iff`: parsing keeps to the declared sizes exactly if every
  transaction, up to the one with size zero, has nothing behind its public key but
  at most one status.
-/
import TorrentNode.BlockchainRead.Shift
import TorrentNode.PrivateKey.Envelope

open Wire Exec

namespace TorrentNode

/-! ## Places -/

/-- The varint at a place of the dump: its value and the place behind it. -/
def varIntAt (bs : Bytes) (pos : ℕ) : ℕ × ℕ :=
  let len := leNat (slice bs pos 1)
  if len ≤ 249 then (len, pos + 1)
  else if len = 250 then (leNat (slice bs (pos + 1) 2), pos + 3)
  else if len = 251 then (leNat (slice bs (pos + 1) 4), pos + 5)
  else (leNat (slice bs (pos + 1) 8), pos + 9)

/-- The place behind a byte string with its length. -/
def stringEnd (bs : Bytes) (pos : ℕ) : ℕ := (varIntAt bs pos).2 + (varIntAt bs pos).1

/-- The place behind the address, the value, the fees and the nonce of a transaction. -/
def fieldsEnd (bs : Bytes) (start : ℕ) : ℕ :=
  (varIntAt bs (varIntAt bs (varIntAt bs (start + 25)).2).2).2

/-- The place behind the data, the signature and the public key of a transaction. -/
def bodyEnd (bs : Bytes) (start : ℕ) : ℕ :=
  stringEnd bs (stringEnd bs (stringEnd bs (fieldsEnd bs start)))

/-- Behind the public key there is nothing, or one status that ends with the transaction. -/
def ExactBody (bs : Bytes) (start stop : ℕ) : Prop :=
  bodyEnd bs start = stop ∨ bodyEnd bs start < stop ∧ (varIntAt bs (bodyEnd bs start)).2 = stop

/-- The transactions from a place on have exact bodies, up to the one with size zero. -/
inductive WellFramed (bs : Bytes) : ℕ → Prop where
  | stop {pos : ℕ} : (varIntAt bs pos).1 = 0 → WellFramed bs pos
  | tx {pos : ℕ} : (varIntAt bs pos).1 ≠ 0 →
      ExactBody bs (varIntAt bs pos).2 (stringEnd bs pos) → WellFramed bs (stringEnd bs pos) →
      WellFramed bs pos

section
variable {b : Buf}

/-! ## Readers -/

theorem readInt_at {w i E v pos : ℕ} (hw : w ≤ 8) (hi : i ≤ b.bytes.length + 80)
    (hE : E ≤ b.endPos) (h : readInt b w (b.beginPos + i) E = .ok (v, pos)) :
    v = leNat (slice b.bytes i w) ∧ pos = b.beginPos + (i + w) ∧ pos ≤ E := by
  have h63 := endPos_le b
  have hend : b.endPos = b.beginPos + b.bytes.length := rfl
  have hadv : advance (b.beginPos + i) w = b.beginPos + (i + w) := by
    rw [advance_eq (by omega), Nat.add_assoc]
  obtain ⟨_, hcheck, h⟩ := bind_eq_ok.1 h
  have hle := check_eq_ok hcheck
  rw [hadv] at hle
  obtain ⟨bs, hload, h⟩ := bind_eq_ok.1 h
  rw [Buf.load_inside b ⟨by omega, by omega⟩, Nat.add_sub_cancel_left] at hload
  cases hload
  cases h
  exact ⟨rfl, hadv, by rw [hadv]; exact hle⟩

/-- A varint is read where it stands. -/
theorem readVarInt_at {i E v pos : ℕ} (hi : i ≤ b.bytes.length + 80) (hE : E ≤ b.endPos)
    (h : readVarInt b (b.beginPos + i) E = .ok (v, pos)) :
    ∃ n, varIntAt b.bytes i = (v, n) ∧ pos = b.beginPos + n ∧ pos ≤ E ∧ i < n := by
  have hend : b.endPos = b.beginPos + b.bytes.length := rfl
  obtain ⟨⟨len, p⟩, hlen, h⟩ := bind_eq_ok.1 h
  obtain ⟨hl, rfl, hle⟩ := readInt_at (by omega) hi hE hlen
  have hi' : i + 1 ≤ b.bytes.length + 80 := by omega
  dsimp only at h
  rw [varIntAt]
  simp only [← hl]
  split_ifs at h ⊢
  · cases h
    exact ⟨i + 1, rfl, rfl, hle, by omega⟩
  · obtain ⟨rfl, rfl, hle'⟩ := readInt_at (by omega) hi' hE h
    exact ⟨i + 1 + 2, rfl, rfl, hle', by omega⟩
  · obtain ⟨rfl, rfl, hle'⟩ := readInt_at (by omega) hi' hE h
    exact ⟨i + 1 + 4, rfl, rfl, hle', by omega⟩
  · obtain ⟨rfl, rfl, hle'⟩ := readInt_at (by omega) hi' hE h
    exact ⟨i + 1 + 8, rfl, rfl, hle', by omega⟩

/-- A byte string ends inside the transaction. -/
theorem readString_at {i E pos : ℕ} {str : Bytes} (hi : i ≤ b.bytes.length) (hE : E ≤ b.endPos)
    (h : readString b (b.beginPos + i) E = .ok (str, pos)) :
    pos = b.beginPos + stringEnd b.bytes i ∧ pos ≤ E ∧ i < stringEnd b.bytes i := by
  have h63 := endPos_le b
  have hend : b.endPos = b.beginPos + b.bytes.length := rfl
  obtain ⟨⟨size, p⟩, hvar, h⟩ := bind_eq_ok.1 h
  obtain ⟨n, hn, rfl, hle, hlt⟩ := readVarInt_at (by omega) hE hvar
  obtain ⟨_, hcheck, h⟩ := bind_eq_ok.1 h
  have hcheck := check_eq_ok hcheck
  obtain ⟨bs, hvec, h⟩ := bind_eq_ok.1 h
  obtain ⟨_, hmax, -⟩ := bind_eq_ok.1 hvec
  have hlt63 : size < 2 ^ 63 := by
    by_contra hge
    rw [Exec.check_neg hge] at hmax
    cases hmax
  have hadv : advance (b.beginPos + n) size = b.beginPos + stringEnd b.bytes i := by
    rw [advance_eq (by omega), stringEnd, hn, Nat.add_assoc]
  rw [hadv] at hcheck h
  cases h
  refine ⟨rfl, hcheck, ?_⟩
  rw [stringEnd, hn]
  exact Nat.lt_add_right size hlt

/-- The fields in front of the data. -/
theorem readTxFields_at {i E p : ℕ} {fields : TxFields} (hi : i ≤ b.bytes.length)
    (hE : E ≤ b.endPos) (h : readTxFields b (b.beginPos + i) E = .ok (fields, p)) :
    ∃ n, varIntAt b.bytes (fieldsEnd b.bytes i) = (fields.dataSize, n) ∧ p = b.beginPos + n ∧
      p ≤ E ∧ i < n := by
  have h63 := endPos_le b
  have hend : b.endPos = b.beginPos + b.bytes.length := rfl
  obtain ⟨_, hcheck, h⟩ := bind_eq_ok.1 h
  have hcheck := check_eq_ok hcheck
  have hadv : advance (b.beginPos + i) 25 = b.beginPos + (i + 25) := by
    rw [advance_eq (by omega), Nat.add_assoc]
  obtain ⟨toAddress, -, h⟩ := bind_eq_ok.1 h
  rw [hadv] at hcheck h
  obtain ⟨⟨value, _⟩, h1, h⟩ := bind_eq_ok.1 h
  obtain ⟨n1, e1, rfl, l1, s1⟩ := readVarInt_at (by omega) hE h1
  obtain ⟨⟨fees, _⟩, h2, h⟩ := bind_eq_ok.1 h
  obtain ⟨n2, e2, rfl, l2, s2⟩ := readVarInt_at (by omega) hE h2
  obtain ⟨⟨nonce, _⟩, h3, h⟩ := bind_eq_ok.1 h
  obtain ⟨n3, e3, rfl, l3, s3⟩ := readVarInt_at (by omega) hE h3
  obtain ⟨⟨dataSize, _⟩, h4, h⟩ := bind_eq_ok.1 h
  obtain ⟨n4, e4, rfl, l4, s4⟩ := readVarInt_at (by omega) hE h4
  cases h
  refine ⟨n4, ?_, rfl, l4, by omega⟩
  rw [fieldsEnd, e1, e2, e3, e4]

/-- The place at which the reading of a transaction ends: behind the status, if there is one. -/
def cursorEnd (bs : Bytes) (start stop : ℕ) : ℕ :=
  if bodyEnd bs start < stop then (varIntAt bs (bodyEnd bs start)).2 else bodyEnd bs start

variable {L : Libs} {isSaveAllTx isValidate : Bool} {helper : PrevTransactionSignHelper}

/-- The hash and the flags of a completed transaction. -/
theorem completeTx_eq_ok {t tx : TransactionInfo}
    {allTxStart txStart endClearTx allTxEnd txSize txHashSize : ℕ}
    (h : completeTx b L t allTxStart txStart endClearTx allTxEnd txSize txHashSize isSaveAllTx helper
      isValidate = .ok tx) :
    (∃ hashed, b.load txStart txHashSize = (.ok hashed : Exec Exn Bytes) ∧
      tx.hash = (getDoubleSha256 L.crypto hashed).1) ∧
    isSignBlockTx tx helper = .ok tx.isSignBlockTx ∧ tx.isInitialized = true := by
  obtain ⟨fromAddress, -, h⟩ := bind_eq_ok.1 h
  obtain ⟨hashed, hhash, h⟩ := bind_eq_ok.1 h
  obtain ⟨scriptInfo, -, h⟩ := bind_eq_ok.1 h
  obtain ⟨allRawTx, -, h⟩ := bind_eq_ok.1 h
  obtain ⟨isSign, hsign, h⟩ := bind_eq_ok.1 h
  obtain ⟨_, -, h⟩ := bind_eq_ok.1 h
  obtain ⟨t', hfee, h⟩ := bind_eq_ok.1 h
  obtain ⟨_, -, hfee⟩ := bind_eq_ok.1 hfee
  cases hfee
  cases h
  exact ⟨⟨hashed, hhash, rfl⟩,
    (isSignBlockTx_congr (by rfl) (by rfl) (by rfl) (by rfl)).trans hsign, rfl⟩

/-- What is known of a transaction that was read at `i`, with the position behind it. -/
structure ReadsTx (b : Buf) (L : Libs) (helper : PrevTransactionSignHelper) (i size pos : ℕ)
    (tx : TransactionInfo) : Prop where
  size_eq : (varIntAt b.bytes i).1 = size
  lt_start : i < (varIntAt b.bytes i).2
  stop_le : stringEnd b.bytes i ≤ b.bytes.length
  start_le : (varIntAt b.bytes i).2 ≤ bodyEnd b.bytes (varIntAt b.bytes i).2
  body_le : bodyEnd b.bytes (varIntAt b.bytes i).2 ≤ stringEnd b.bytes i
  pos_eq : pos = b.beginPos + cursorEnd b.bytes (varIntAt b.bytes i).2 (stringEnd b.bytes i)
  pos_le : pos ≤ b.beginPos + stringEnd b.bytes i
  lt_pos : b.beginPos + i < pos
  hash : tx.hash = (getDoubleSha256 L.crypto (slice b.bytes (varIntAt b.bytes i).2
    (size - (cursorEnd b.bytes (varIntAt b.bytes i).2 (stringEnd b.bytes i) -
      bodyEnd b.bytes (varIntAt b.bytes i).2)))).1
  sign : isSignBlockTx tx helper = .ok tx.isSignBlockTx
  initialized : tx.isInitialized = true

/-- The fields behind the data, up to the end of the transaction. -/
theorem readTxTail_at {t tx : TransactionInfo} {allTxStart start i stop txSize size pos : ℕ}
    (hi : i ≤ b.bytes.length) (hstop : stop ≤ b.bytes.length) (hsize : start + txSize ≤ stop)
    (h : readTxTail b L t allTxStart (b.beginPos + start) (b.beginPos + i) (b.beginPos + stop) txSize
      isSaveAllTx helper isValidate = .ok (size, pos, tx)) :
    let body := stringEnd b.bytes (stringEnd b.bytes i)
    let cursor := if body < stop then (varIntAt b.bytes body).2 else body
    size = txSize ∧ i < body ∧ body ≤ stop ∧ body ≤ cursor ∧ cursor ≤ stop ∧
      pos = b.beginPos + cursor ∧
      tx.hash = (getDoubleSha256 L.crypto (slice b.bytes start (txSize - (cursor - body)))).1 ∧
      isSignBlockTx tx helper = .ok tx.isSignBlockTx ∧ tx.isInitialized = true := by
  intro body cursor
  have hend : b.endPos = b.beginPos + b.bytes.length := rfl
  obtain ⟨⟨sign, _⟩, hsign, h⟩ := bind_eq_ok.1 h
  obtain ⟨rfl, l1, s1⟩ := readString_at hi (by omega) hsign
  obtain ⟨⟨pubKey, _⟩, hkey, h⟩ := bind_eq_ok.1 h
  obtain ⟨rfl, l2, s2⟩ := readString_at (by omega) (by omega) hkey
  obtain ⟨⟨status, p⟩, hstatus, h⟩ := bind_eq_ok.1 h
  have hcursor : p = b.beginPos + cursor ∧ body ≤ cursor ∧ cursor ≤ stop := by
    rw [readStatus] at hstatus
    by_cases hlt : body < stop
    · rw [if_pos (show _ < _ by omega)] at hstatus
      obtain ⟨⟨intStatus, _⟩, hvar, hstatus⟩ := bind_eq_ok.1 hstatus
      obtain ⟨n, hn, rfl, l3, s3⟩ := readVarInt_at (by omega) (by omega) hvar
      cases hstatus
      have hc : cursor = n := by
        change (if body < stop then (varIntAt b.bytes body).2 else body) = n
        rw [if_pos hlt, show varIntAt b.bytes body = _ from hn]
      exact ⟨by rw [hc], by omega, by omega⟩
    · rw [if_neg (show ¬ _ < _ by omega)] at hstatus
      cases hstatus
      have hc : cursor = body := if_neg hlt
      exact ⟨by rw [hc], by omega, by omega⟩
  obtain ⟨rfl, hle, hle'⟩ := hcursor
  obtain ⟨tx', hcomplete, h⟩ := bind_eq_ok.1 h
  obtain ⟨⟨hashed, hload, hhash⟩, hs, hinit⟩ := completeTx_eq_ok hcomplete
  cases h
  have hk : b.beginPos + cursor - (b.beginPos + body) = cursor - body := by omega
  rw [hk, Buf.load_inside b ⟨by omega, by omega⟩, Nat.add_sub_cancel_left] at hload
  cases hload
  exact ⟨rfl, by omega, by omega, hle, hle', rfl, hhash, hs, hinit⟩

/-- A transaction that is parsed: the size zero ends the block. -/
theorem readTransactionInfo_at {t tx : TransactionInfo} {i size pos : ℕ}
    (hi : i ≤ b.bytes.length + 80)
    (h : readTransactionInfo b L (b.beginPos + i) b.endPos t true isSaveAllTx helper isValidate =
      .ok (size, pos, tx)) :
    ((varIntAt b.bytes i).1 = 0 ∧ size = 0 ∧ tx = t) ∨
      (size ≠ 0 ∧ ReadsTx b L helper i size pos tx) := by
  have h63 := endPos_le b
  have hend : b.endPos = b.beginPos + b.bytes.length := rfl
  have hread := h
  obtain ⟨⟨txSize, _⟩, hvar, h⟩ := bind_eq_ok.1 h
  have hcur := inDump_of_readVarInt hvar
  have hcover := tx_inside hcur hread hvar
  obtain ⟨start, hn, rfl, l1, s1⟩ := readVarInt_at hi le_rfl hvar
  have hstop : stringEnd b.bytes i = start + txSize := by rw [stringEnd, hn]
  dsimp only at h
  by_cases hzero : txSize = 0
  · left
    subst hzero
    cases h
    exact ⟨by rw [hn], rfl, rfl⟩
  · right
    rw [if_neg hzero] at h
    obtain ⟨_, -, h⟩ := bind_eq_ok.1 h
    have hadv : advance (b.beginPos + start) txSize = b.beginPos + (start + txSize) := by
      rw [advance_eq (by omega), Nat.add_assoc]
    rw [hadv] at h
    obtain ⟨⟨fields, _⟩, hfields, h⟩ := bind_eq_ok.1 h
    obtain ⟨n, en, rfl, l2, s2⟩ := readTxFields_at (by omega) (by omega) hfields
    obtain ⟨data, hdata, h⟩ := bind_eq_ok.1 h
    obtain ⟨t₁, -, h⟩ := bind_eq_ok.1 h
    obtain ⟨hin, hadv'⟩ := data_inside (by omega) hdata h
    have hbody : b.beginPos + n + fields.dataSize =
        b.beginPos + stringEnd b.bytes (fieldsEnd b.bytes start) := by
      rw [stringEnd, en, Nat.add_assoc]
    rw [hadv', hbody] at h
    rw [hbody] at hin
    obtain ⟨rfl, hlt, hle, hle1, hle2, hpos, hhash, hsign, hinit⟩ :=
      readTxTail_at (by omega) (by omega) le_rfl h
    have hstart : (varIntAt b.bytes i).2 = start := by rw [hn]
    have hle3 : start ≤ bodyEnd b.bytes start := by
      have hb : n + fields.dataSize = stringEnd b.bytes (fieldsEnd b.bytes start) := by omega
      unfold bodyEnd
      omega
    refine ⟨hzero, ?_⟩
    constructor
    · rw [hn]
    · rw [hstart]; exact s1
    · rw [hstop]; omega
    · rw [hstart]; exact hle3
    · rw [hstart, hstop]; exact hle
    · rw [hstart, hstop]; exact hpos
    · rw [hstop, hpos]; exact Nat.add_le_add_left hle2 _
    · rw [hpos]
      have hb : start ≤ stringEnd b.bytes (stringEnd b.bytes (stringEnd b.bytes
        (fieldsEnd b.bytes start))) := hle3
      omega
    · rw [hstart, hstop]; exact hhash
    · exact hsign
    · exact hinit

/-- A transaction that is skipped ends where its size says. -/
theorem readTransactionInfo_skip {t tx : TransactionInfo} {i size pos : ℕ}
    (hi : i ≤ b.bytes.length + 80)
    (h : readTransactionInfo b L (b.beginPos + i) b.endPos t true isSaveAllTx helper isValidate =
      .ok (size, pos, tx)) (hsize : size ≠ 0) :
    readTransactionInfo b L (b.beginPos + i) b.endPos t false isSaveAllTx helper isValidate =
      .ok (size, b.beginPos + stringEnd b.bytes i, t) := by
  have h63 := endPos_le b
  have hend : b.endPos = b.beginPos + b.bytes.length := rfl
  rcases readTransactionInfo_at hi h with ⟨-, hzero, -⟩ | ⟨-, hr⟩
  · exact absurd hzero hsize
  · obtain ⟨⟨txSize, _⟩, hvar, -⟩ := bind_eq_ok.1 h
    obtain ⟨start, hn, rfl, l1, s1⟩ := readVarInt_at hi le_rfl hvar
    have hs := hr.size_eq
    have hle := hr.stop_le
    rw [hn] at hs
    dsimp only at hs
    subst hs
    have hstop : stringEnd b.bytes i = start + txSize := by rw [stringEnd, hn]
    have hadv : advance (b.beginPos + start) txSize = b.beginPos + stringEnd b.bytes i := by
      rw [hstop, advance_eq (by omega), Nat.add_assoc]
    rw [readTransactionInfo, hvar, ok_bind]
    dsimp only
    rw [if_neg hsize, hadv, check_of (by omega)]
    rfl

theorem cursorEnd_eq_iff {bs : Bytes} {start stop : ℕ} (h : bodyEnd bs start ≤ stop) :
    cursorEnd bs start stop = stop ↔ ExactBody bs start stop := by
  rw [cursorEnd, ExactBody]
  split_ifs with hlt
  · constructor
    · intro h'
      exact Or.inr ⟨hlt, h'⟩
    · rintro (h' | ⟨-, h'⟩)
      · exact absurd h' (Nat.ne_of_lt hlt)
      · exact h'
  · constructor
    · intro h'
      exact Or.inl h'
    · intro _
      exact Nat.le_antisymm h (Nat.not_lt.1 hlt)

end

/-! ## The loop -/

/-- The helper in front of the loop. -/
def firstHelper : PrevTransactionSignHelper := { isFirst := true, isPrevSign := true }

/-- The helper behind a transaction. -/
def helperAfter (tx : TransactionInfo) : PrevTransactionSignHelper :=
  { isPrevSign := tx.isSignBlockTx, prevTxData := tx.data }

section
variable (b : Buf) (L : Libs) (o : ReadOptions)

/-- The call of `readTransactionInfo` at a place of the dump. -/
def readAtPlace (isParseTx : Bool) (helper : PrevTransactionSignHelper) (i : ℕ) :
    Exec Exn (ℕ × ℕ × TransactionInfo) :=
  readTransactionInfo b L (b.beginPos + i) b.endPos
    { filePos := { pos := txFilePos b o.posInFile (b.beginPos + i) } } isParseTx o.isSaveAllTx helper
    o.isValidate

/-- The transactions that the loop parses from a place on, each behind the cursor of the one before
    it. -/
inductive Parsed : ℕ → PrevTransactionSignHelper → List TransactionInfo → Prop where
  | stop {i pos : ℕ} {helper : PrevTransactionSignHelper} {tx : TransactionInfo} :
      readAtPlace b L o true helper i = .ok (0, pos, tx) → Parsed i helper []
  | tx {i size j : ℕ} {helper : PrevTransactionSignHelper} {tx : TransactionInfo}
      {txs : List TransactionInfo} :
      readAtPlace b L o true helper i = .ok (size, b.beginPos + j, tx) → size ≠ 0 →
      Parsed j (helperAfter tx) txs → Parsed i helper (tx :: txs)

/-- Transactions that keep to their declared sizes: the cursor behind each one is the end it declares,
    parsed or skipped, the next one begins there, and the hash covers its bytes without the
    status. -/
inductive Framing : ℕ → PrevTransactionSignHelper → List TransactionInfo → Prop where
  | stop {i : ℕ} {helper : PrevTransactionSignHelper} :
      (varIntAt b.bytes i).1 = 0 → Framing i helper []
  | tx {i size start : ℕ} {helper : PrevTransactionSignHelper} {tx t : TransactionInfo}
      {txs : List TransactionInfo} :
      varIntAt b.bytes i = (size, start) → size ≠ 0 →
      readAtPlace b L o true helper i = .ok (size, b.beginPos + (start + size), tx) →
      readAtPlace b L o false helper i = .ok (size, b.beginPos + (start + size), t) →
      tx.hash = (getDoubleSha256 L.crypto (slice b.bytes start (bodyEnd b.bytes start - start))).1 →
      Framing (start + size) (helperAfter tx) txs → Framing i helper (tx :: txs)

variable {b L o}

/-- An iteration of the loop that reads every transaction. -/
theorem readBlockTxsStep_at (hbegin : o.beginTx = 0) (hcount : o.countTx = 0) {s t : TxsLoop} {i : ℕ}
    {again : Bool} (hi : i ≤ b.bytes.length + 80) (hcur : s.curPos = b.beginPos + i)
    (h : readBlockTxsStep b L o s = .ok (t, again)) :
    (again = false ∧ t.txs = s.txs ∧ Parsed b L o i s.helper []) ∨
    (again = true ∧ ∃ size j tx, readAtPlace b L o true s.helper i = .ok (size, b.beginPos + j, tx) ∧
      size ≠ 0 ∧ ReadsTx b L s.helper i size (b.beginPos + j) tx ∧ t.curPos = b.beginPos + j ∧
      t.helper = helperAfter tx ∧ t.txs = s.txs ++ [tx]) := by
  obtain ⟨⟨size, pos, tx⟩, hread, h⟩ := bind_eq_ok.1 h
  rw [hbegin, decide_eq_true (Nat.zero_le _), hcur] at hread
  have hnext : ∀ txs : List TransactionInfo, ¬ (o.countTx ≠ 0 ∧ o.countTx ≤ txs.length) := by
    intro txs h
    exact h.1 hcount
  simp only [hbegin, Nat.zero_le, decide_true, Bool.and_true] at h
  rw [if_neg (hnext _)] at h
  cases h
  rcases readTransactionInfo_at hi hread with ⟨-, rfl, rfl⟩ | ⟨hsize, hr⟩
  · left
    exact ⟨rfl, by simp, .stop hread⟩
  · right
    have hpos := hr.pos_eq
    rw [hpos] at hread hr
    refine ⟨by simpa using Nat.pos_of_ne_zero hsize, size, _, tx, hread, hsize, hr, hpos, rfl, ?_⟩
    simp [hr.initialized]

/-- The loop parses the transactions one behind the other. -/
theorem loop_parsed (hbegin : o.beginTx = 0) (hcount : o.countTx = 0) {fuel i : ℕ} {s t : TxsLoop}
    (hi : i ≤ b.bytes.length + 80) (hcur : s.curPos = b.beginPos + i)
    (h : Exec.loop (readBlockTxsStep b L o) fuel s = .ok t) :
    ∃ txs, t.txs = s.txs ++ txs ∧ Parsed b L o i s.helper txs := by
  induction fuel generalizing s i with
  | zero => cases h
  | succ fuel ih =>
    obtain ⟨⟨u, again⟩, hstep, h⟩ := bind_eq_ok.1 h
    rcases readBlockTxsStep_at hbegin hcount hi hcur hstep with
      ⟨rfl, htxs, hp⟩ | ⟨rfl, size, j, tx, hread, hsize, hr, hcur', hhelper, htxs⟩
    · cases h
      exact ⟨[], by rw [htxs, List.append_nil], hp⟩
    · have hj : j ≤ b.bytes.length + 80 := by
        have h1 := hr.pos_le
        have h2 := hr.stop_le
        omega
      obtain ⟨txs, htxs', hp⟩ := ih hj hcur' h
      refine ⟨tx :: txs, by rw [htxs', htxs, List.append_assoc, List.singleton_append], ?_⟩
      rw [hhelper] at hp
      exact .tx hread hsize hp

theorem readBlockTxs_parsed (hbegin : o.beginTx = 0) (hcount : o.countTx = 0) {header : BlockHeader}
    {bi : BlockInfo} (h : readBlockTxs b L o header = .ok bi) :
    Parsed b L o 80 firstHelper bi.txs ∧
      signatureOf header.signature bi.txs = .ok bi.header.signature := by
  have h63 := endPos_le b
  have hend : b.endPos = b.beginPos + b.bytes.length := rfl
  obtain ⟨dump, -, h⟩ := bind_eq_ok.1 h
  obtain ⟨t, hloop, h⟩ := bind_eq_ok.1 h
  obtain ⟨signature, hsign, h⟩ := bind_eq_ok.1 h
  cases h
  obtain ⟨txs, htxs, hp⟩ := loop_parsed hbegin hcount (show 80 ≤ b.bytes.length + 80 by omega)
    (show (TxsLoop.start b).curPos = b.beginPos + 80 from advance_eq (by omega)) hloop
  have htxs' : t.txs = txs := htxs
  rw [if_pos hcount] at hsign
  exact ⟨by rw [htxs']; exact hp, hsign⟩

theorem Framing.wellFramed {i : ℕ} {helper : PrevTransactionSignHelper} {txs : List TransactionInfo}
    (hi : i ≤ b.bytes.length + 80) (h : Framing b L o i helper txs) : WellFramed b.bytes i := by
  induction h with
  | stop hzero => exact .stop hzero
  | @tx i size start helper tx t txs hvar hsize hread hskip hhash hrest ih =>
    rcases readTransactionInfo_at hi hread with ⟨-, hzero, -⟩ | ⟨-, hr⟩
    · exact absurd hzero hsize
    · have hstop : stringEnd b.bytes i = start + size := by rw [stringEnd, hvar]
      have hle := hr.stop_le
      refine .tx (by rw [hvar]; exact hsize) ?_ (by rw [hstop]; exact ih (by omega))
      apply (cursorEnd_eq_iff hr.body_le).1
      have hpos := hr.pos_eq
      omega

theorem Parsed.framing {i : ℕ} {helper : PrevTransactionSignHelper} {txs : List TransactionInfo}
    (hi : i ≤ b.bytes.length + 80) (h : Parsed b L o i helper txs) (hw : WellFramed b.bytes i) :
    Framing b L o i helper txs := by
  induction h with
  | stop hread =>
    rcases readTransactionInfo_at hi hread with ⟨hzero, -⟩ | ⟨hsize, -⟩
    · exact .stop hzero
    · exact absurd rfl hsize
  | @tx i size j helper tx txs hread hsize hrest ih =>
    rcases readTransactionInfo_at hi hread with ⟨-, hzero, -⟩ | ⟨-, hr⟩
    · exact absurd hzero hsize
    · have hle := hr.stop_le
      cases hw with
      | stop hzero => exact absurd (hr.size_eq.symm.trans hzero) hsize
      | tx _ hexact hnext =>
        have hcursor := (cursorEnd_eq_iff hr.body_le).2 hexact
        have hpos := hr.pos_eq
        rw [hcursor] at hpos
        obtain rfl : j = stringEnd b.bytes i := by omega
        obtain ⟨start, hstart⟩ : ∃ start, (varIntAt b.bytes i).2 = start := ⟨_, rfl⟩
        have hvar : varIntAt b.bytes i = (size, start) := Prod.ext hr.size_eq hstart
        have hstop : stringEnd b.bytes i = start + size := by rw [stringEnd, hvar]
        have hhash := hr.hash
        have hbody := hr.body_le
        have hstartle := hr.start_le
        rw [hcursor, hstart] at hhash
        rw [hstart] at hbody hstartle
        have hlen : size - (stringEnd b.bytes i - bodyEnd b.bytes start) =
            bodyEnd b.bytes start - start := by omega
        rw [hlen] at hhash
        have hskip := readTransactionInfo_skip hi hread hsize
        have hnext' := ih (by omega) hnext
        rw [hstop] at hread hskip hnext'
        exact .tx hvar hsize hread hskip hhash hnext'

/-- **Parsing keeps to the declared sizes exactly if the bodies are exact**: every transaction, up to
    the one with size zero, has nothing behind its public key but at most one status. -/
theorem readBlockTxs_framing_iff (hbegin : o.beginTx = 0) (hcount : o.countTx = 0)
    {header : BlockHeader} {bi : BlockInfo} (h : readBlockTxs b L o header = .ok bi) :
    Framing b L o 80 firstHelper bi.txs ↔ WellFramed b.bytes 80 := by
  have hi : 80 ≤ b.bytes.length + 80 := Nat.le_add_left _ _
  exact ⟨Framing.wellFramed hi, (readBlockTxs_parsed hbegin hcount h).1.framing hi⟩

end

/-- A block with one transaction: behind its status there is one more byte. -/
def trailingByte : Buf where
  beginPos := 4096
  bytes := List.replicate 80 0 ++ [33] ++ List.replicate 31 0 ++ [1, 0] ++ [0]
  inUserSpace := by decide

/-- The libraries of the samples. -/
def sampleLibs : Libs where
  crypto := Sample.crypto
  support := Sample.support
  json := { parse := fun _ => none }

/-- The byte behind the status is taken for the end of the block: the cursor stands in front of the
    end that the transaction declares. -/
theorem trailingByte_not_framing :
    ∃ bi, readBlockTxs trailingByte sampleLibs ⟨0, false, false, 0, 0⟩ {} = .ok bi ∧
      bi.txs.length = 1 ∧
      ¬ Framing trailingByte sampleLibs ⟨0, false, false, 0, 0⟩ 80 firstHelper bi.txs := by
  refine ⟨_, rfl, rfl, ?_⟩
  intro h
  rcases h.wellFramed (by decide) with hzero | ⟨-, hexact, -⟩
  · exact absurd hzero (by decide +kernel)
  · rcases hexact with h | ⟨-, h⟩
    · exact absurd h (by decide +kernel)
    · exact absurd h (by decide +kernel)

/-- A block with one transaction that ends with its status. -/
def exactByte : Buf where
  beginPos := 4096
  bytes := List.replicate 80 0 ++ [32] ++ List.replicate 31 0 ++ [1] ++ [0]
  inUserSpace := by decide

/-- The transaction of this block keeps to its size. -/
theorem exactByte_framing :
    ∃ bi, readBlockTxs exactByte sampleLibs ⟨0, false, false, 0, 0⟩ {} = .ok bi ∧
      Framing exactByte sampleLibs ⟨0, false, false, 0, 0⟩ 80 firstHelper bi.txs := by
  refine ⟨_, rfl, ?_⟩
  refine (readBlockTxs_framing_iff rfl rfl rfl).2 ?_
  exact .tx (by decide +kernel) (Or.inr (by decide +kernel)) (.stop (by decide +kernel))

end TorrentNode
