/-
  Reading a part of the transactions of a block (`beginTx` and `countTx` of
  `readBlockTxs`).

  The first `beginTx` transactions are skipped: only their sizes are read, and for
  the next one they have not signed the block.  Behind `countTx` transactions the
  loop stops.

  `readBlockTxs_slice_iff`: what is read are the transactions from the place to
  which the sizes lead on.  `Parsed.upTo_iff` compares them with the transactions of
  the whole block.  `RecordAt.readNextBlockInfoFileInto_iff`: when a reader of block
  files that is given the stored header reads such a part.
-/
import TorrentNode.BlockchainRead.Signatures
import TorrentNode.BlockchainRead.Files

open Wire Exec

namespace TorrentNode

/-! ## Skipping -/

/-- `readTransactionInfo` for a transaction that is not parsed: its size and the position behind it. -/
def skipTx (b : Buf) (curPos : ℕ) : Exec Exn (ℕ × ℕ) := do
  let (txSize, curPos) ← readVarInt b curPos b.endPos
  if txSize = 0 then return (0, curPos)
  check (advance curPos txSize ≤ b.endPos) "Out of the array"
  return (txSize, advance curPos txSize)

/-- The place of the transaction behind `k` transactions that are skipped, or none if the block ends
    before. -/
def skipTo (b : Buf) : ℕ → ℕ → Exec Exn (Option ℕ)
  | 0, curPos => do
    let (txSize, _) ← readVarInt b curPos b.endPos
    return if txSize = 0 then none else some (curPos - b.beginPos)
  | k + 1, curPos => do
    let (txSize, next) ← skipTx b curPos
    if txSize = 0 then return none else skipTo b k next

section
variable {b : Buf} {L : Libs} {o : ReadOptions}

theorem readTransactionInfo_false (curPos : ℕ) (t : TransactionInfo) (isSaveAllTx : Bool)
    (helper : PrevTransactionSignHelper) (isValidate : Bool) :
    readTransactionInfo b L curPos b.endPos t false isSaveAllTx helper isValidate =
      skipTx b curPos >>= fun r => .ok (r.1, r.2, t) := by
  rw [readTransactionInfo, skipTx]
  rcases readVarInt b curPos b.endPos with ⟨txSize, txStart⟩ | e | u | _
  · simp only [ok_bind]
    by_cases hzero : txSize = 0
    · rw [if_pos hzero, if_pos hzero]
      rfl
    · rw [if_neg hzero, if_neg hzero]
      by_cases hle : advance txStart txSize ≤ b.endPos
      · rw [check_of hle]
        rfl
      · rw [check, check_neg hle]
        rfl
  all_goals rfl

/-- The size of a transaction that is parsed. -/
theorem readVarInt_of_read {curPos : ℕ} {t tx : TransactionInfo} {isSaveAllTx isValidate : Bool}
    {helper : PrevTransactionSignHelper} {size pos : ℕ}
    (h : readTransactionInfo b L curPos b.endPos t true isSaveAllTx helper isValidate =
      .ok (size, pos, tx)) : ∃ next, readVarInt b curPos b.endPos = .ok (size, next) := by
  obtain ⟨⟨txSize, txStart⟩, hvar, h⟩ := bind_eq_ok.1 h
  dsimp only at h
  refine ⟨txStart, ?_⟩
  rw [hvar]
  by_cases hzero : txSize = 0
  · rw [if_pos hzero] at h
    cases h
    rw [hzero]
  · rw [if_neg hzero] at h
    obtain ⟨_, -, h⟩ := bind_eq_ok.1 h
    obtain ⟨_, -, h⟩ := bind_eq_ok.1 h
    obtain ⟨_, -, h⟩ := bind_eq_ok.1 h
    obtain ⟨_, -, h⟩ := bind_eq_ok.1 h
    obtain ⟨_, -, h⟩ := bind_eq_ok.1 h
    obtain ⟨_, -, h⟩ := bind_eq_ok.1 h
    obtain ⟨_, -, h⟩ := bind_eq_ok.1 h
    obtain ⟨_, -, h⟩ := bind_eq_ok.1 h
    cases h
    rfl

theorem inDump_of_skipTx {curPos : ℕ} {r : ℕ × ℕ} (h : skipTx b curPos = .ok r) : InDump b curPos := by
  obtain ⟨_, hvar, -⟩ := bind_eq_ok.1 h
  exact inDump_of_readVarInt hvar

theorem inDump_of_skipTo {k curPos : ℕ} {r : Option ℕ} (h : skipTo b k curPos = .ok r) :
    InDump b curPos := by
  cases k with
  | zero =>
    obtain ⟨_, hvar, -⟩ := bind_eq_ok.1 h
    exact inDump_of_readVarInt hvar
  | succ k =>
    obtain ⟨_, hskip, -⟩ := bind_eq_ok.1 h
    exact inDump_of_skipTx hskip

/-- The size zero ends the block. -/
theorem read_of_zero {curPos next : ℕ} (h : readVarInt b curPos b.endPos = .ok (0, next))
    (t : TransactionInfo) (isSaveAllTx : Bool) (helper : PrevTransactionSignHelper)
    (isValidate : Bool) :
    readTransactionInfo b L curPos b.endPos t true isSaveAllTx helper isValidate =
      .ok (0, next, t) := by
  rw [readTransactionInfo, h]
  rfl

end

/-! ## The loop -/

section
variable (b : Buf) (L : Libs) (o : ReadOptions)

/-- At most `n` transactions that are parsed from a place on. -/
inductive ParsedUpTo : ℕ → ℕ → PrevTransactionSignHelper → List TransactionInfo → Prop where
  | full {i : ℕ} {helper : PrevTransactionSignHelper} : ParsedUpTo 0 i helper []
  | stop {n i pos : ℕ} {helper : PrevTransactionSignHelper} {tx : TransactionInfo} :
      readAtPlace b L o true helper i = .ok (0, pos, tx) → ParsedUpTo (n + 1) i helper []
  | tx {n i size j : ℕ} {helper : PrevTransactionSignHelper} {tx : TransactionInfo}
      {txs : List TransactionInfo} :
      readAtPlace b L o true helper i = .ok (size, b.beginPos + j, tx) → size ≠ 0 →
      ParsedUpTo n j (helperAfter tx) txs → ParsedUpTo (n + 1) i helper (tx :: txs)

/-- The transactions that are read when `k` of them are skipped first. -/
def SliceFrom (k curPos : ℕ) (helper : PrevTransactionSignHelper) (txs : List TransactionInfo) : Prop :=
  (skipTo b k curPos = .ok none ∧ txs = []) ∨
    ∃ j, skipTo b k curPos = .ok (some j) ∧
      ParsedUpTo b L o o.countTx j (if k = 0 then helper else {}) txs

variable {b L o}

/-- An iteration that skips a transaction. -/
theorem readBlockTxsStep_skip {s t : TxsLoop} {again : Bool} (hskip : s.txIndex < o.beginTx)
    (hfull : NotFull o s) :
    readBlockTxsStep b L o s = .ok (t, again) ↔ ∃ size next, skipTx b s.curPos = .ok (size, next) ∧
      t = { curPos := next, txIndex := s.txIndex + 1, helper := {}, txs := s.txs } ∧
      again = decide (0 < size) := by
  rw [readBlockTxsStep, decide_eq_false (by omega), readTransactionInfo_false]
  rcases skipTx b s.curPos with ⟨size, next⟩ | e | u | _
  · simp only [ok_bind, Bool.and_false, Bool.false_eq_true, if_false]
    rw [if_neg hfull]
    constructor
    · intro h
      cases h
      exact ⟨size, next, rfl, rfl, rfl⟩
    · rintro ⟨size', next', h, rfl, rfl⟩
      cases h
      rfl
  all_goals simp

section
variable {s : TxsLoop} {i : ℕ} (hcur : s.curPos = b.beginPos + i) (hread : o.beginTx ≤ s.txIndex)
include hcur hread

theorem readBlockTxsStep_read :
    readBlockTxsStep b L o s = readAtPlace b L o true s.helper i >>= fun r =>
      let txs := if r.2.2.isInitialized then s.txs ++ [r.2.2] else s.txs
      if o.countTx ≠ 0 ∧ o.countTx ≤ txs.length then .ok ({ s with curPos := r.2.1, txs := txs }, false)
      else .ok ({ curPos := r.2.1, txIndex := s.txIndex + 1, helper := helperAfter r.2.2, txs := txs },
        decide (0 < r.1)) := by
  rw [readBlockTxsStep, decide_eq_true hread, hcur, readAtPlace]
  simp only [Bool.and_true]
  rfl

/-- The iteration at the end of the block. -/
theorem readBlockTxsStep_end (hfull : NotFull o s) {pos : ℕ} {tx : TransactionInfo}
    (hi : i ≤ b.bytes.length + 80) (h : readAtPlace b L o true s.helper i = .ok (0, pos, tx)) :
    ∃ t, readBlockTxsStep b L o s = .ok (t, false) ∧ t.txs = s.txs := by
  rcases readTransactionInfo_at hi h with ⟨-, -, rfl⟩ | ⟨hsize, -⟩
  · rw [readBlockTxsStep_read hcur hread, h, ok_bind]
    simp only [Bool.false_eq_true, if_false]
    rw [if_neg hfull]
    exact ⟨_, rfl, rfl⟩
  · exact absurd rfl hsize

/-- An iteration that reads a transaction. -/
theorem readBlockTxsStep_tx {size pos : ℕ} {tx : TransactionInfo} (hi : i ≤ b.bytes.length + 80)
    (h : readAtPlace b L o true s.helper i = .ok (size, pos, tx)) (hsize : size ≠ 0) :
    readBlockTxsStep b L o s =
      if o.countTx ≠ 0 ∧ o.countTx ≤ s.txs.length + 1 then
        .ok ({ s with curPos := pos, txs := s.txs ++ [tx] }, false)
      else .ok (⟨pos, s.txIndex + 1, helperAfter tx, s.txs ++ [tx]⟩, true) := by
  rcases readTransactionInfo_at hi h with ⟨-, hzero, -⟩ | ⟨-, hr⟩
  · exact absurd hzero hsize
  · rw [readBlockTxsStep_read hcur hread, h, ok_bind]
    dsimp only
    rw [if_pos hr.initialized, List.length_append, List.length_singleton,
      decide_eq_true (Nat.pos_of_ne_zero hsize)]

end

/-- What the loop reads behind the skipped transactions. -/
theorem parsedUpTo_of_stops {s t : TxsLoop} {i n : ℕ} (h : Stops (readBlockTxsStep b L o) s t)
    (hi : i ≤ b.bytes.length + 80) (hcur : s.curPos = b.beginPos + i) (hread : o.beginTx ≤ s.txIndex)
    (hn : s.txs.length + (n + 1) = o.countTx) :
    ∃ txs, t.txs = s.txs ++ txs ∧ ParsedUpTo b L o (n + 1) i s.helper txs := by
  induction h generalizing i n with
  | @last s t hstep =>
    obtain ⟨⟨size, pos, tx⟩, hat, -⟩ :=
      bind_eq_ok.1 ((readBlockTxsStep_read hcur hread).symm.trans hstep)
    rcases readTransactionInfo_at hi hat with ⟨-, rfl, -⟩ | ⟨hsize, hr⟩
    · obtain ⟨t', hstep', htxs⟩ := readBlockTxsStep_end hcur hread (fun h => by omega) hi hat
      rw [hstep] at hstep'
      cases hstep'
      exact ⟨[], by rw [htxs, List.append_nil], .stop hat⟩
    · rw [readBlockTxsStep_tx hcur hread hi hat hsize] at hstep
      split_ifs at hstep with hlast
      · cases hstep
        obtain rfl : n = 0 := by omega
        rw [hr.pos_eq] at hat
        exact ⟨[tx], rfl, .tx hat hsize .full⟩
      · cases hstep
  | @next s u t hstep hrest ih =>
    obtain ⟨⟨size, pos, tx⟩, hat, -⟩ :=
      bind_eq_ok.1 ((readBlockTxsStep_read hcur hread).symm.trans hstep)
    rcases readTransactionInfo_at hi hat with ⟨-, rfl, -⟩ | ⟨hsize, hr⟩
    · obtain ⟨t', hstep', -⟩ := readBlockTxsStep_end hcur hread (fun h => by omega) hi hat
      rw [hstep] at hstep'
      cases hstep'
    · rw [readBlockTxsStep_tx hcur hread hi hat hsize] at hstep
      split_ifs at hstep with hlast
      · cases hstep
      · cases hstep
        obtain ⟨n, rfl⟩ : ∃ m, n = m + 1 := ⟨n - 1, by omega⟩
        have hpos := hr.pos_eq
        have hle := hr.pos_le
        have hstop := hr.stop_le
        rw [hpos] at hat
        have hcount : (s.txs ++ [tx]).length + (n + 1) = o.countTx := by
          rw [List.length_append, List.length_singleton]
          omega
        obtain ⟨rest, htxs, hp⟩ := ih (by omega) hpos (Nat.le_succ_of_le hread) hcount
        exact ⟨tx :: rest, by rw [htxs, List.append_assoc]; rfl, .tx hat hsize hp⟩

/-- The loop reads what can be parsed. -/
theorem ParsedUpTo.stops {s : TxsLoop} {i n : ℕ} {txs : List TransactionInfo}
    {helper : PrevTransactionSignHelper} (h : ParsedUpTo b L o n i helper txs) (hn : n ≠ 0)
    (hi : i ≤ b.bytes.length + 80) (hhelper : s.helper = helper) (hcur : s.curPos = b.beginPos + i)
    (hread : o.beginTx ≤ s.txIndex) (hcount : s.txs.length + n = o.countTx) :
    ∃ t, Stops (readBlockTxsStep b L o) s t ∧ t.txs = s.txs ++ txs := by
  induction h generalizing s with
  | full => exact absurd rfl hn
  | stop hat =>
    subst hhelper
    obtain ⟨t, hstep, htxs⟩ := readBlockTxsStep_end hcur hread (fun h => by omega) hi hat
    exact ⟨t, .last hstep, by rw [htxs, List.append_nil]⟩
  | @tx n i size j helper tx txs hat hsize hrest ih =>
    subst hhelper
    have hstep := readBlockTxsStep_tx hcur hread hi hat hsize
    rcases Nat.eq_zero_or_pos n with rfl | hpos
    · rw [if_pos ⟨by omega, by omega⟩] at hstep
      cases hrest
      exact ⟨_, .last hstep, rfl⟩
    · rw [if_neg (by omega)] at hstep
      have hj : j ≤ b.bytes.length + 80 := by
        rcases readTransactionInfo_at hi hat with ⟨-, hzero, -⟩ | ⟨-, hr⟩
        · exact absurd hzero hsize
        · have hle := hr.pos_le
          have hstop := hr.stop_le
          omega
      have hcount' : (s.txs ++ [tx]).length + n = o.countTx := by
        rw [List.length_append, List.length_singleton]
        omega
      obtain ⟨t, hstops, htxs⟩ := ih (s := ⟨b.beginPos + j, s.txIndex + 1, helperAfter tx, s.txs ++ [tx]⟩)
        (by omega) hj rfl rfl (Nat.le_succ_of_le hread) hcount'
      exact ⟨t, .next hstep hstops, by rw [htxs, List.append_assoc]; rfl⟩

theorem inDump_of_step {s : TxsLoop} {r : TxsLoop × Bool} (h : readBlockTxsStep b L o s = .ok r) :
    InDump b s.curPos := by
  obtain ⟨_, hread, -⟩ := bind_eq_ok.1 h
  obtain ⟨_, hvar, -⟩ := bind_eq_ok.1 hread
  exact inDump_of_readVarInt hvar

theorem inDump_of_stops {s t : TxsLoop} (h : Stops (readBlockTxsStep b L o) s t) : InDump b s.curPos := by
  cases h with
  | last hstep => exact inDump_of_step hstep
  | next hstep _ => exact inDump_of_step hstep

theorem InDump.place {curPos : ℕ} (h : InDump b curPos) :
    curPos = b.beginPos + (curPos - b.beginPos) ∧ curPos - b.beginPos ≤ b.bytes.length := by
  have hbegin := h.1
  have hend : curPos ≤ b.beginPos + b.bytes.length := h.2
  omega

/-- What the loop reads when nothing is left to skip. -/
theorem stops_slice_zero (hcount : o.countTx ≠ 0) {s : TxsLoop} {txs : List TransactionInfo}
    (hread : o.beginTx ≤ s.txIndex) (hs : s.txs = []) :
    (∃ t, Stops (readBlockTxsStep b L o) s t ∧ t.txs = txs) ↔
      SliceFrom b L o 0 s.curPos s.helper txs := by
  obtain ⟨n, hn⟩ := Nat.exists_eq_succ_of_ne_zero hcount
  have hlength : s.txs.length + (n + 1) = o.countTx := by rw [hs, List.length_nil]; omega
  rw [SliceFrom, if_pos rfl, skipTo]
  constructor
  · rintro ⟨t, hstops, rfl⟩
    obtain ⟨hcur, hi⟩ := (inDump_of_stops hstops).place
    obtain ⟨txs, htxs, hp⟩ := parsedUpTo_of_stops hstops (by omega) hcur hread hlength
    rw [hs, List.nil_append] at htxs
    rw [htxs, hn]
    cases hp with
    | stop hat =>
      obtain ⟨next, hskip⟩ := readVarInt_of_read hat
      rw [← hcur] at hskip
      exact Or.inl ⟨by rw [hskip]; rfl, rfl⟩
    | tx hat hsize hrest =>
      obtain ⟨next, hskip⟩ := readVarInt_of_read hat
      rw [← hcur] at hskip
      refine Or.inr ⟨_, ?_, .tx hat hsize hrest⟩
      rw [hskip, ok_bind]
      exact congrArg Exec.ok (if_neg hsize)
  · intro h
    obtain ⟨size, next, hskip⟩ : ∃ size next, readVarInt b s.curPos b.endPos = .ok (size, next) := by
      rcases h with ⟨h, -⟩ | ⟨_, h, -⟩
      · obtain ⟨⟨size, next⟩, hskip, -⟩ := bind_eq_ok.1 h
        exact ⟨size, next, hskip⟩
      · obtain ⟨⟨size, next⟩, hskip, -⟩ := bind_eq_ok.1 h
        exact ⟨size, next, hskip⟩
    obtain ⟨hcur, hi⟩ := (inDump_of_readVarInt hskip).place
    rw [hskip, ok_bind] at h
    dsimp only at h
    have hp : ParsedUpTo b L o (n + 1) (s.curPos - b.beginPos) s.helper txs := by
      by_cases hsize : size = 0
      · subst hsize
        rcases h with ⟨-, rfl⟩ | ⟨_, h, -⟩
        · have hat := @read_of_zero b L _ _ hskip
            { filePos := { pos := txFilePos b o.posInFile s.curPos } } o.isSaveAllTx s.helper o.isValidate
          rw [hcur] at hat
          exact .stop hat
        · cases h
      · rw [if_neg hsize] at h
        rcases h with ⟨h, -⟩ | ⟨j, h, hp⟩
        · cases h
        · cases h
          rwa [hn] at hp
    obtain ⟨t, hstops, htxs⟩ := hp.stops (Nat.succ_ne_zero n) (by omega) rfl hcur hread hlength
    exact ⟨t, hstops, by rw [htxs, hs, List.nil_append]⟩

/-- What the loop reads when `k` transactions are to be skipped first. -/
theorem stops_slice_iff (hcount : o.countTx ≠ 0) {k : ℕ} {s : TxsLoop} {txs : List TransactionInfo}
    (hk : s.txIndex + k = o.beginTx) (hs : s.txs = []) :
    (∃ t, Stops (readBlockTxsStep b L o) s t ∧ t.txs = txs) ↔
      SliceFrom b L o k s.curPos s.helper txs := by
  induction k generalizing s with
  | zero => exact stops_slice_zero hcount (by omega) hs
  | succ k ih =>
    have hfull : NotFull o s := by
      rintro ⟨-, hle⟩
      rw [hs] at hle
      exact hcount (Nat.le_zero.1 hle)
    -- what is left behind a transaction that is skipped
    have hnext : ∀ next, (∃ t, Stops (readBlockTxsStep b L o) ⟨next, s.txIndex + 1, {}, s.txs⟩ t ∧
        t.txs = txs) ↔ SliceFrom b L o k next {} txs := fun next =>
      ih (s := ⟨next, s.txIndex + 1, {}, s.txs⟩) (by dsimp only; omega) hs
    rw [SliceFrom, if_neg (Nat.succ_ne_zero k), skipTo]
    constructor
    · rintro ⟨t, hstops, rfl⟩
      cases hstops with
      | last hstep =>
        obtain ⟨size, next, hskip, rfl, hagain⟩ := (readBlockTxsStep_skip (by omega) hfull).1 hstep
        have hsize : size = 0 := by simpa using hagain
        rw [hskip, ok_bind]
        exact Or.inl ⟨if_pos hsize, hs⟩
      | next hstep hrest =>
        obtain ⟨size, next, hskip, rfl, hagain⟩ := (readBlockTxsStep_skip (by omega) hfull).1 hstep
        have hsize : size ≠ 0 := by
          rintro rfl
          cases hagain
        have hslice := (hnext next).1 ⟨_, hrest, rfl⟩
        rw [SliceFrom, ite_self] at hslice
        rw [hskip, ok_bind]
        dsimp only
        rwa [if_neg hsize]
    · intro h
      obtain ⟨size, next, hskip⟩ : ∃ size next, skipTx b s.curPos = .ok (size, next) := by
        rcases h with ⟨h, -⟩ | ⟨_, h, -⟩
        · obtain ⟨⟨size, next⟩, hskip, -⟩ := bind_eq_ok.1 h
          exact ⟨size, next, hskip⟩
        · obtain ⟨⟨size, next⟩, hskip, -⟩ := bind_eq_ok.1 h
          exact ⟨size, next, hskip⟩
      have hstep : readBlockTxsStep b L o s = .ok (⟨next, s.txIndex + 1, {}, s.txs⟩, decide (0 < size)) :=
        (readBlockTxsStep_skip (by omega) hfull).2 ⟨size, next, hskip, rfl, rfl⟩
      rw [hskip, ok_bind] at h
      dsimp only at h
      by_cases hsize : size = 0
      · subst hsize
        rcases h with ⟨-, rfl⟩ | ⟨_, h, -⟩
        · exact ⟨_, .last hstep, hs⟩
        · cases h
      · rw [if_neg hsize] at h
        rw [decide_eq_true (Nat.pos_of_ne_zero hsize)] at hstep
        obtain ⟨t, hrest, htxs⟩ := (hnext next).2 (by rw [SliceFrom, ite_self]; exact h)
        exact ⟨t, .next hstep hrest, htxs⟩

/-- **What is read of a block**: the transactions from the place to which `beginTx` sizes lead on, at
    most `countTx` of them, and the signature by the first of them. -/
theorem readBlockTxs_slice_iff (hlen : 80 ≤ b.bytes.length) (hcount : o.countTx ≠ 0)
    {header : BlockHeader} {bi : BlockInfo} :
    readBlockTxs b L o header = .ok bi ↔
      SliceFrom b L o o.beginTx (b.beginPos + 80) firstHelper bi.txs ∧
      ∃ signature, signatureOf header.signature bi.txs = .ok signature ∧
        bi.header = { header with
          hash := L.support.toHex (getDoubleSha256 L.crypto b.bytes).1, signature := signature } := by
  have hend63 := endPos_le b
  have hend : b.endPos = b.beginPos + b.bytes.length := rfl
  have hcur : (TxsLoop.start b).curPos = b.beginPos + 80 := advance_eq (by omega)
  have hfuel : iterationsLeft b o (TxsLoop.start b) < o.beginTx + b.bytes.length + 2 := by
    unfold iterationsLeft
    split_ifs <;> omega
  have hload : (b.load b.beginPos b.bytes.length : Exec Exn Bytes) = .ok b.bytes := by
    rw [Buf.load_inside b ⟨le_rfl, le_rfl⟩, Nat.sub_self, slice, List.drop_zero, List.take_length]
  have hslice : ∀ txs, (∃ t, Stops (readBlockTxsStep b L o) (TxsLoop.start b) t ∧ t.txs = txs) ↔
      SliceFrom b L o o.beginTx (b.beginPos + 80) firstHelper txs := by
    intro txs
    rw [← hcur]
    exact stops_slice_iff hcount (Nat.zero_add _) rfl
  rw [← hslice, readBlockTxs, hload, ok_bind]
  simp only [if_neg hcount]
  constructor
  · intro h
    obtain ⟨t, hloop, h⟩ := bind_eq_ok.1 h
    obtain ⟨signature, hsign, h⟩ := bind_eq_ok.1 h
    cases h
    exact ⟨⟨t, (loop_eq_ok_iff (fun _ _ => iterationsLeft_lt) hfuel).1 hloop, rfl⟩, signature, hsign, rfl⟩
  · rintro ⟨⟨t, hstops, htxs⟩, signature, hsign, hheader⟩
    rw [(loop_eq_ok_iff (fun _ _ => iterationsLeft_lt) hfuel).2 hstops, ok_bind, htxs, hsign, ok_bind,
      ← hheader]
    rfl

/-! ## The transactions of the whole block -/

/-- A place of the block is read in the same way from another buffer, or with other options. -/
def SameRead (b : Buf) (L : Libs) (o : ReadOptions) (b' : Buf) (o' : ReadOptions) : Prop :=
  ∀ helper i size pos tx, readAtPlace b L o true helper i = .ok (size, pos, tx) →
    ∃ j, pos = b.beginPos + j ∧ readAtPlace b' L o' true helper i = .ok (size, b'.beginPos + j, tx)

theorem inDump_of_readAtPlace {isParseTx : Bool} {helper : PrevTransactionSignHelper} {i : ℕ}
    {r : ℕ × ℕ × TransactionInfo} (h : readAtPlace b L o isParseTx helper i = .ok r) :
    i ≤ b.bytes.length := by
  obtain ⟨_, hvar, -⟩ := bind_eq_ok.1 h
  have hin : b.beginPos + i ≤ b.beginPos + b.bytes.length := (inDump_of_readVarInt hvar).2
  omega

theorem sameRead {b' : Buf} {o' : ReadOptions} (hbytes : b'.bytes = b.bytes)
    (hpos : o'.posInFile = o.posInFile) (hsave : o'.isSaveAllTx = o.isSaveAllTx)
    (hval : o'.isValidate = true → o.isValidate = true) : SameRead b L o b' o' := by
  intro helper i size pos tx h
  have hi := inDump_of_readAtPlace h
  have hend : b.endPos = b.beginPos + b.bytes.length := rfl
  have hE' : b'.beginPos + b.bytes.length ≤ b'.endPos := by rw [Buf.endPos, hbytes]
  have hin : InDump b (b.beginPos + i) := ⟨by omega, by omega⟩
  obtain ⟨j, raw, isSign, rfl, -, -, hread, hraw, hsign, hplace⟩ := readTransactionInfo_shift
    (sameWindow_whole hbytes) { pos := txFilePos b' o'.posInFile (b'.beginPos + i) } o'.isSaveAllTx hval
    (Or.inl rfl) hi le_rfl hE' (fun txSize txStart hvar => tx_inside hin h hvar) h
  refine ⟨j, rfl, ?_⟩
  rw [hraw hsave, hsign rfl] at hread
  have hsame : ({ tx with filePos := { pos := txFilePos b' o'.posInFile (b'.beginPos + i) } } :
      TransactionInfo) = tx := by
    have hplace' : tx.filePos = { pos := o.posInFile + 8 + UInt64.ofNat i } := by
      rw [hplace, txFilePos_eq]
    rw [txFilePos_eq, hpos, ← hplace']
  rw [hsame] at hread
  exact hread

theorem Parsed.same {b' : Buf} {o' : ReadOptions} (hsame : SameRead b L o b' o') {i : ℕ}
    {helper : PrevTransactionSignHelper} {txs : List TransactionInfo} (h : Parsed b L o i helper txs) :
    Parsed b' L o' i helper txs := by
  induction h with
  | stop hat =>
    obtain ⟨j, -, hat'⟩ := hsame _ _ _ _ _ hat
    exact .stop hat'
  | tx hat hsize _ ih =>
    obtain ⟨j, hj, hat'⟩ := hsame _ _ _ _ _ hat
    cases Nat.add_left_cancel hj
    exact .tx hat' hsize ih

theorem ParsedUpTo.same {b' : Buf} {o' : ReadOptions} (hsame : SameRead b L o b' o') {n i : ℕ}
    {helper : PrevTransactionSignHelper} {txs : List TransactionInfo}
    (h : ParsedUpTo b L o n i helper txs) : ParsedUpTo b' L o' n i helper txs := by
  induction h with
  | full => exact .full
  | stop hat =>
    obtain ⟨j, -, hat'⟩ := hsame _ _ _ _ _ hat
    exact .stop hat'
  | tx hat hsize _ ih =>
    obtain ⟨j, hj, hat'⟩ := hsame _ _ _ _ _ hat
    cases Nat.add_left_cancel hj
    exact .tx hat' hsize ih

/-- At most `n` transactions of a block that is read whole. -/
theorem Parsed.upTo_iff {i : ℕ} {helper : PrevTransactionSignHelper} {txs txs' : List TransactionInfo}
    (h : Parsed b L o i helper txs) {n : ℕ} :
    ParsedUpTo b L o n i helper txs' ↔ txs' = txs.take n := by
  induction h generalizing n txs' with
  | stop hat =>
    rw [List.take_nil]
    constructor
    · intro h'
      cases h' with
      | full => rfl
      | stop => rfl
      | tx hat' hsize _ =>
        rw [hat] at hat'
        cases hat'
        exact absurd rfl hsize
    · rintro rfl
      cases n with
      | zero => exact .full
      | succ n => exact .stop hat
  | @tx i size j helper tx txs hat hsize hrest ih =>
    constructor
    · intro h'
      cases h' with
      | full => rfl
      | stop hat' =>
        rw [hat] at hat'
        cases hat'
        exact absurd rfl hsize
      | tx hat' hsize' hrest' =>
        rw [hat] at hat'
        obtain ⟨-, hrest''⟩ := Prod.mk.inj (Exec.ok.inj hat')
        obtain ⟨hj, rfl⟩ := Prod.mk.inj hrest''
        cases Nat.add_left_cancel hj
        rw [List.take_succ_cons, ih.1 hrest']
    · rintro rfl
      cases n with
      | zero => exact .full
      | succ n =>
        rw [List.take_succ_cons]
        exact .tx hat hsize (ih.2 rfl)

theorem sameWindow_self (b : Buf) : SameWindow b b b.beginPos b.beginPos b.bytes.length :=
  sameWindow_whole rfl

/-- The place of a transaction in the dump. -/
def txPlace (posInFile : UInt64) (tx : TransactionInfo) : ℕ := (tx.filePos.pos - posInFile - 8).toNat

theorem txPlace_of_read {helper : PrevTransactionSignHelper} {i size pos : ℕ} {tx : TransactionInfo}
    (h : readAtPlace b L o true helper i = .ok (size, pos, tx)) : txPlace o.posInFile tx = i := by
  have h63 := endPos_le b
  have hi := inDump_of_readAtPlace h
  have hend : b.endPos = b.beginPos + b.bytes.length := rfl
  have hin : InDump b (b.beginPos + i) := ⟨by omega, by omega⟩
  obtain ⟨j, raw, isSign, -, -, -, -, -, -, hplace⟩ := readTransactionInfo_shift
    (sameWindow_self b) {} o.isSaveAllTx (fun h => h) (Or.inl rfl) hi le_rfl
    (show b.beginPos + b.bytes.length ≤ b.endPos from le_rfl)
    (fun txSize txStart hvar => tx_inside hin h hvar) h
  have hpos : tx.filePos.pos - o.posInFile - 8 = UInt64.ofNat i := by
    rw [hplace, txFilePos_eq]
    grind
  rw [txPlace, hpos]
  exact UInt64.toNat_ofNat_of_lt' (by show i < 2 ^ 64; omega)

/-- The rest of a block that is read whole. -/
theorem Parsed.drop {i : ℕ} {helper : PrevTransactionSignHelper} {txs : List TransactionInfo}
    (h : Parsed b L o i helper txs) {k : ℕ} {tx : TransactionInfo} (hk : txs[k]? = some tx) :
    ∃ helper', Parsed b L o (txPlace o.posInFile tx) helper' (txs.drop k) ∧
      (k = 0 → helper' = helper) := by
  induction h generalizing k with
  | stop => cases hk
  | @tx i size j helper tx' txs hat hsize hrest ih =>
    cases k with
    | zero =>
      cases hk
      rw [txPlace_of_read hat]
      exact ⟨helper, .tx hat hsize hrest, fun _ => rfl⟩
    | succ k =>
      obtain ⟨helper', hp, -⟩ := ih hk
      exact ⟨helper', hp, fun h => by cases h⟩

/-- Behind a transaction that does not sign the block no other one does. -/
theorem unsigned_of_read {helper : PrevTransactionSignHelper} {i size pos : ℕ} {tx : TransactionInfo}
    (h : readAtPlace b L o true helper i = .ok (size, pos, tx)) (hprev : helper.isPrevSign = false) :
    tx.isSignBlockTx = false := by
  rcases readTransactionInfo_at (by have := inDump_of_readAtPlace h; omega) h with ⟨-, -, rfl⟩ | ⟨-, hr⟩
  · rfl
  · have hsign := hr.sign
    rw [isSignBlockTx, hprev] at hsign
    exact (Exec.ok.inj hsign).symm

/-- A transaction that does not sign the block is read alike behind one that does not. -/
theorem readAtPlace_unsigned {helper helper' : PrevTransactionSignHelper} {i size pos : ℕ}
    {tx : TransactionInfo} (h : readAtPlace b L o true helper i = .ok (size, pos, tx))
    (hunsigned : tx.isSignBlockTx = false) (hprev : helper'.isPrevSign = false) :
    readAtPlace b L o true helper' i = .ok (size, pos, tx) := by
  have hi := inDump_of_readAtPlace h
  have hend : b.endPos = b.beginPos + b.bytes.length := rfl
  have hin : InDump b (b.beginPos + i) := ⟨by omega, by omega⟩
  obtain ⟨j, raw, isSign, rfl, -, -, hread, hraw, -, hplace⟩ := readTransactionInfo_shift
    (sameWindow_self b) { pos := txFilePos b o.posInFile (b.beginPos + i) } o.isSaveAllTx
    (fun h => h) (Or.inr hprev) hi le_rfl (show b.beginPos + b.bytes.length ≤ b.endPos from le_rfl)
    (fun txSize txStart hvar => tx_inside hin h hvar) h
  have hsign : isSign = tx.isSignBlockTx :=
    (unsigned_of_read (o := o) hread hprev).trans hunsigned.symm
  have hplace' : tx.filePos = { pos := txFilePos b o.posInFile (b.beginPos + i) } := hplace
  rw [hraw rfl, hsign, ← hplace'] at hread
  rw [readAtPlace, ← hplace']
  exact hread

theorem skipTo_eq_some {k curPos j : ℕ} (h : skipTo b k curPos = .ok (some j)) :
    ∃ size next, size ≠ 0 ∧ readVarInt b (b.beginPos + j) b.endPos = .ok (size, next) := by
  induction k generalizing curPos with
  | zero =>
    obtain ⟨⟨size, next⟩, hskip, h⟩ := bind_eq_ok.1 h
    obtain ⟨hcur, -⟩ := (inDump_of_readVarInt hskip).place
    have h := Exec.ok.inj h
    split_ifs at h with hsize
    obtain rfl := Option.some.inj h
    exact ⟨size, next, hsize, by rw [← hcur]; exact hskip⟩
  | succ k ih =>
    obtain ⟨⟨size, next⟩, -, h⟩ := bind_eq_ok.1 h
    dsimp only at h
    split_ifs at h
    · cases h
    · exact ih h

/-- **A part of a block is read as in the whole block** exactly if the sizes lead to its place, and its
    first transaction, unless it is the first of the block, does not sign the block. -/
theorem sliceFrom_iff {txs : List TransactionInfo} (hp : Parsed b L o 80 firstHelper txs)
    (hcount : o.countTx ≠ 0) (k : ℕ) :
    SliceFrom b L o k (b.beginPos + 80) firstHelper ((txs.drop k).take o.countTx) ↔
      skipTo b k (b.beginPos + 80) = .ok ((txs[k]?).map (txPlace o.posInFile)) ∧
      (k = 0 ∨ ∀ tx, txs[k]? = some tx → tx.isSignBlockTx = false) := by
  obtain ⟨n, hn⟩ := Nat.exists_eq_succ_of_ne_zero hcount
  have hget : ∀ tx rest, txs.drop k = tx :: rest → txs[k]? = some tx := by
    intro tx rest hdrop
    rw [← List.head?_drop, hdrop]
    rfl
  rw [SliceFrom, hn]
  constructor
  · rintro (⟨hskip, hnil⟩ | ⟨j, hskip, hparsed⟩)
    · have hdrop : txs.drop k = [] := by
        rcases hd : txs.drop k with _ | ⟨tx, rest⟩
        · rfl
        · rw [hd] at hnil
          cases hnil
      have hnone : txs[k]? = none := by rw [← List.head?_drop, hdrop]; rfl
      rw [hnone]
      exact ⟨hskip, Or.inr fun tx h => by cases h⟩
    · obtain ⟨size, next, hsize, hskipTx⟩ := skipTo_eq_some hskip
      rcases hd : txs.drop k with _ | ⟨tx, rest⟩
      · rw [hd, List.take_nil] at hparsed
        cases hparsed with
        | stop hat =>
          obtain ⟨next', hskip'⟩ := readVarInt_of_read hat
          rw [hskipTx] at hskip'
          cases hskip'
          exact absurd rfl hsize
      · rw [hd, List.take_succ_cons] at hparsed
        rw [hget tx rest hd]
        cases hparsed with
        | tx hat _ _ =>
          refine ⟨by rw [hskip, Option.map_some, txPlace_of_read hat], ?_⟩
          by_cases hk : k = 0
          · exact Or.inl hk
          · rw [if_neg hk] at hat
            right
            rintro _ ⟨⟩
            exact unsigned_of_read hat rfl
  · rintro ⟨hskip, hsign⟩
    rcases hd : txs.drop k with _ | ⟨tx, rest⟩
    · have hnone : txs[k]? = none := by rw [← List.head?_drop, hd]; rfl
      rw [hnone] at hskip
      exact Or.inl ⟨hskip, rfl⟩
    · have hsome := hget tx rest hd
      rw [hsome] at hskip hsign
      obtain ⟨helper, hrest, hzero⟩ := hp.drop hsome
      rw [hd] at hrest
      refine Or.inr ⟨_, hskip, ?_⟩
      by_cases hk : k = 0
      · rw [if_pos hk, ← hzero hk]
        exact hrest.upTo_iff.2 rfl
      · rw [if_neg hk, List.take_succ_cons]
        cases hrest with
        | tx hat hsize hrest =>
          have hunsigned : tx.isSignBlockTx = false := hsign.resolve_left hk tx rfl
          exact .tx (readAtPlace_unsigned hat hunsigned rfl) hsize (hrest.upTo_iff.2 rfl)

/-! ## Validation -/

/-- What `isValidate` checks of the transaction at a place: it is from the initial wallet, or its
    signature is one of its fields up to the data. -/
def Validated (L : Libs) (bs : Bytes) (i : ℕ) (tx : TransactionInfo) : Prop :=
  ∃ initial, tx.fromAddress.isInitialWallet = .ok initial ∧ (initial = false →
    cryptoCheckSignData L.crypto tx.sign tx.pubKey (slice bs (varIntAt bs i).2
      (stringEnd bs (fieldsEnd bs (varIntAt bs i).2) - (varIntAt bs i).2)) = true)

theorem validateTx_true_iff {tx : TransactionInfo} {start stop : ℕ} (hle : start ≤ stop)
    (hstop : stop ≤ b.bytes.length) :
    validateTx b L true tx (b.beginPos + start) (b.beginPos + stop) = .ok () ↔
      ∃ initial, tx.fromAddress.isInitialWallet = .ok initial ∧ (initial = false →
        cryptoCheckSignData L.crypto tx.sign tx.pubKey (slice b.bytes start (stop - start)) = true) := by
  have hend : b.endPos = b.beginPos + b.bytes.length := rfl
  have hsize : b.beginPos + stop - (b.beginPos + start) = stop - start := by omega
  have hload : (b.load (b.beginPos + start) (stop - start) : Exec Exn Bytes) =
      .ok (slice b.bytes start (stop - start)) := by
    rw [Buf.load_inside b ⟨by omega, by omega⟩, Nat.add_sub_cancel_left]
  rw [validateTx, hsize]
  rcases tx.fromAddress.isInitialWallet with initial | e | u | _
  · cases initial with
    | true => simp
    | false =>
      simp only [Bool.not_true, Bool.false_eq_true, if_false, ok_bind, hload, Exec.ok.injEq,
        exists_eq_left', true_implies]
      by_cases hcheck : cryptoCheckSignData L.crypto tx.sign tx.pubKey
          (slice b.bytes start (stop - start)) = true
      · rw [check_of hcheck]
        exact iff_of_true rfl hcheck
      · refine iff_of_false (fun h => hcheck (check_eq_ok h)) hcheck
  all_goals simp

theorem completeTx_validate_iff {t tx : TransactionInfo}
    {allTxStart txStart endClearTx allTxEnd txSize txHashSize : ℕ} {isSaveAllTx : Bool}
    {helper : PrevTransactionSignHelper} :
    completeTx b L t allTxStart txStart endClearTx allTxEnd txSize txHashSize isSaveAllTx helper true =
        .ok tx ↔
      completeTx b L t allTxStart txStart endClearTx allTxEnd txSize txHashSize isSaveAllTx helper
        false = .ok tx ∧ validateTx b L true tx txStart endClearTx = .ok () := by
  constructor
  · intro h
    obtain ⟨fromAddress, hfrom, h⟩ := bind_eq_ok.1 h
    obtain ⟨hashed, hhash, h⟩ := bind_eq_ok.1 h
    obtain ⟨scriptInfo, hscript, h⟩ := bind_eq_ok.1 h
    obtain ⟨allRawTx, hraw, h⟩ := bind_eq_ok.1 h
    obtain ⟨isSign, hsign, h⟩ := bind_eq_ok.1 h
    obtain ⟨_, hvalid, h⟩ := bind_eq_ok.1 h
    obtain ⟨t', hfee, h⟩ := bind_eq_ok.1 h
    have hfee' := hfee
    obtain ⟨_, -, hfee'⟩ := bind_eq_ok.1 hfee'
    cases hfee'
    cases h
    refine ⟨?_, (validateTx_congr (by rfl) (by rfl) (by rfl)).trans hvalid⟩
    simp only [completeTx, hfrom, hhash, hscript, hraw, ok_bind]
    refine bind_eq_ok.2 ⟨isSign, hsign, bind_eq_ok.2 ⟨(), rfl, ?_⟩⟩
    rw [hfee]
    rfl
  · rintro ⟨h, hvalid⟩
    obtain ⟨fromAddress, hfrom, h⟩ := bind_eq_ok.1 h
    obtain ⟨hashed, hhash, h⟩ := bind_eq_ok.1 h
    obtain ⟨scriptInfo, hscript, h⟩ := bind_eq_ok.1 h
    obtain ⟨allRawTx, hraw, h⟩ := bind_eq_ok.1 h
    obtain ⟨isSign, hsign, h⟩ := bind_eq_ok.1 h
    obtain ⟨_, -, h⟩ := bind_eq_ok.1 h
    obtain ⟨t', hfee, h⟩ := bind_eq_ok.1 h
    have hfee' := hfee
    obtain ⟨_, -, hfee'⟩ := bind_eq_ok.1 hfee'
    cases hfee'
    cases h
    simp only [completeTx, hfrom, hhash, hscript, hraw, ok_bind]
    refine bind_eq_ok.2 ⟨isSign, hsign, bind_eq_ok.2 ⟨(), ?_, ?_⟩⟩
    · exact (validateTx_congr (by rfl) (by rfl) (by rfl)).trans hvalid
    · rw [hfee]
      rfl

theorem readTxTail_validate_iff {t tx : TransactionInfo}
    {allTxStart txStart curPos endPos txSize size pos : ℕ} {isSaveAllTx : Bool}
    {helper : PrevTransactionSignHelper} :
    readTxTail b L t allTxStart txStart curPos endPos txSize isSaveAllTx helper true =
        .ok (size, pos, tx) ↔
      readTxTail b L t allTxStart txStart curPos endPos txSize isSaveAllTx helper false =
        .ok (size, pos, tx) ∧ validateTx b L true tx txStart curPos = .ok () := by
  rw [readTxTail, readTxTail]
  rcases readString b curPos endPos with ⟨sign, pos₁⟩ | e | u | _
  · simp only [ok_bind]
    rcases readString b pos₁ endPos with ⟨pubKey, pos₂⟩ | e | u | _
    · simp only [ok_bind]
      rcases readStatus b pos₂ endPos with ⟨status, pos₃⟩ | e | u | _
      · simp only [ok_bind]
        constructor
        · intro h
          obtain ⟨tx', hcomplete, h⟩ := bind_eq_ok.1 h
          cases h
          obtain ⟨hcomplete, hvalid⟩ := completeTx_validate_iff.1 hcomplete
          exact ⟨by rw [hcomplete]; rfl, hvalid⟩
        · rintro ⟨h, hvalid⟩
          obtain ⟨tx', hcomplete, h⟩ := bind_eq_ok.1 h
          cases h
          rw [completeTx_validate_iff.2 ⟨hcomplete, hvalid⟩]
          rfl
      all_goals simp
    all_goals simp
  all_goals simp

theorem readTxTail_size {t tx : TransactionInfo} {allTxStart txStart curPos endPos txSize size pos : ℕ}
    {isSaveAllTx isValidate : Bool} {helper : PrevTransactionSignHelper}
    (h : readTxTail b L t allTxStart txStart curPos endPos txSize isSaveAllTx helper isValidate =
      .ok (size, pos, tx)) : size = txSize := by
  obtain ⟨_, -, h⟩ := bind_eq_ok.1 h
  obtain ⟨_, -, h⟩ := bind_eq_ok.1 h
  obtain ⟨_, -, h⟩ := bind_eq_ok.1 h
  obtain ⟨_, -, h⟩ := bind_eq_ok.1 h
  cases h
  rfl

/-- With validation the same is read, if the transaction is valid. -/
theorem readAtPlace_validate_iff {helper : PrevTransactionSignHelper} {i size pos : ℕ}
    {tx : TransactionInfo} :
    readAtPlace b L { o with isValidate := true } true helper i = .ok (size, pos, tx) ↔
      readAtPlace b L { o with isValidate := false } true helper i = .ok (size, pos, tx) ∧
        (size ≠ 0 → Validated L b.bytes i tx) := by
  have hend : b.endPos = b.beginPos + b.bytes.length := rfl
  rw [readAtPlace, readAtPlace, readTransactionInfo, readTransactionInfo]
  rcases hvar : readVarInt b (b.beginPos + i) b.endPos with ⟨txSize, txStart⟩ | e | u | _
  · have hin : b.beginPos + i ≤ b.beginPos + b.bytes.length := (inDump_of_readVarInt hvar).2
    obtain ⟨start, hn, rfl, l1, s1⟩ := readVarInt_at (by omega) le_rfl hvar
    simp only [ok_bind]
    by_cases hzero : txSize = 0
    · rw [if_pos hzero, if_pos hzero]
      constructor
      · intro h
        cases h
        exact ⟨rfl, fun h => absurd rfl h⟩
      · exact fun h => h.1
    rw [if_neg hzero, if_neg hzero]
    by_cases hle : advance (b.beginPos + start) txSize ≤ b.endPos
    swap
    · rw [check, check_neg hle]
      simp
    rw [check_of hle, ok_bind, ok_bind]
    generalize advance (b.beginPos + start) txSize = stop at hle ⊢
    simp only [Bool.not_true, Bool.false_eq_true, if_false]
    rcases hfields : readTxFields b (b.beginPos + start) stop with ⟨fields, cur⟩ | e | u | _
    · obtain ⟨n, en, rfl, l2, s2⟩ := readTxFields_at (by omega) hle hfields
      have hclear : b.beginPos + n + fields.dataSize =
          b.beginPos + stringEnd b.bytes (fieldsEnd b.bytes start) := by
        rw [stringEnd, en, Nat.add_assoc]
      simp only [ok_bind]
      rcases hdata : readVector b (b.beginPos + n) fields.dataSize with data | e | u | _
      · simp only [ok_bind]
        rcases setData L (fields.setIn _) data with t | e | u | _
        · simp only [ok_bind]
          rw [readTxTail_validate_iff]
          refine and_congr_right fun htail => ?_
          have hne : size ≠ 0 := by rwa [readTxTail_size htail]
          obtain ⟨hinside, hadv⟩ := data_inside (by omega) hdata htail
          rw [hadv, hclear, validateTx_true_iff (by omega) (by omega), Validated, hn,
            forall_prop_of_true hne]
        all_goals simp
      all_goals simp
    all_goals simp
  all_goals simp

/-- With validation the same transactions are read, if they are valid. -/
theorem parsedUpTo_validate_iff {n i : ℕ} {helper : PrevTransactionSignHelper}
    {txs : List TransactionInfo} :
    ParsedUpTo b L { o with isValidate := true } n i helper txs ↔
      ParsedUpTo b L { o with isValidate := false } n i helper txs ∧
        ∀ tx ∈ txs, Validated L b.bytes (txPlace o.posInFile tx) tx := by
  constructor
  · intro h
    induction h with
    | full => exact ⟨.full, by simp⟩
    | stop hat => exact ⟨.stop (readAtPlace_validate_iff.1 hat).1, by simp⟩
    | @tx n i size j helper tx txs hat hsize _ ih =>
      obtain ⟨hat', hvalid⟩ := readAtPlace_validate_iff.1 hat
      have hplace := txPlace_of_read hat
      dsimp only at hplace
      refine ⟨.tx hat' hsize ih.1, ?_⟩
      intro tx' hmem
      rcases List.mem_cons.1 hmem with rfl | hmem
      · rw [hplace]
        exact hvalid hsize
      · exact ih.2 tx' hmem
  · rintro ⟨h, hvalid⟩
    induction h with
    | full => exact .full
    | stop hat => exact .stop (readAtPlace_validate_iff.2 ⟨hat, fun h => absurd rfl h⟩)
    | @tx n i size j helper tx txs hat hsize _ ih =>
      have hplace := txPlace_of_read hat
      have hfirst := hvalid tx List.mem_cons_self
      dsimp only at hplace
      rw [hplace] at hfirst
      refine .tx (readAtPlace_validate_iff.2 ⟨hat, fun _ => hfirst⟩) hsize (ih ?_)
      exact fun tx' hmem => hvalid tx' (List.mem_cons_of_mem _ hmem)

/-! ## Another buffer -/

section
variable {b' : Buf} (hbytes : b'.bytes = b.bytes)
include hbytes

theorem readVarInt_same {i v pos : ℕ} (h : readVarInt b (b.beginPos + i) b.endPos = .ok (v, pos)) :
    ∃ j, pos = b.beginPos + j ∧ readVarInt b' (b'.beginPos + i) b'.endPos = .ok (v, b'.beginPos + j) := by
  have hend : b.endPos = b.beginPos + b.bytes.length := rfl
  have hend' : b'.endPos = b'.beginPos + b.bytes.length := by rw [Buf.endPos, hbytes]
  have hin := inDump_of_readVarInt h
  have hle := ((safe_readVarInt hin le_rfl).of_ok h).2.1
  have hi : i ≤ b.bytes.length := by
    have := hin.2
    omega
  dsimp only at hle
  obtain ⟨j, rfl, -, -, hvar⟩ := readVarInt_shift (sameWindow_whole hbytes) hi h (by omega) le_rfl
  exact ⟨j, rfl, hvar _ (by omega)⟩

theorem skipTx_same {i size next : ℕ} (h : skipTx b (b.beginPos + i) = .ok (size, next))
    (hnext : InDump b next) :
    ∃ j, next = b.beginPos + j ∧ skipTx b' (b'.beginPos + i) = .ok (size, b'.beginPos + j) := by
  have h63 := endPos_le b
  have h63' := endPos_le b'
  have hend : b.endPos = b.beginPos + b.bytes.length := rfl
  have hend' : b'.endPos = b'.beginPos + b.bytes.length := by rw [Buf.endPos, hbytes]
  obtain ⟨⟨txSize, _⟩, hvar, h⟩ := bind_eq_ok.1 h
  have hsize := ((safe_readVarInt (inDump_of_readVarInt hvar) le_rfl).of_ok hvar).2
  obtain ⟨start, rfl, hvar'⟩ := readVarInt_same hbytes hvar
  dsimp only at h hsize
  rw [skipTx, hvar', ok_bind]
  dsimp only
  by_cases hzero : txSize = 0
  · rw [if_pos hzero] at h ⊢
    cases h
    exact ⟨start, rfl, rfl⟩
  · rw [if_neg hzero] at h ⊢
    obtain ⟨_, -, h⟩ := bind_eq_ok.1 h
    cases h
    have hbegin := hnext.1
    have hstop := hnext.2
    -- the sum wraps in both buffers or in none
    have hadv : advance (b'.beginPos + start) size =
        b'.beginPos + (advance (b.beginPos + start) size - b.beginPos) := by
      unfold advance at hbegin hstop ⊢
      omega
    rw [hadv, check_of (by omega)]
    exact ⟨_, by omega, rfl⟩

theorem skipTo_same {k i : ℕ} {r : Option ℕ} (h : skipTo b k (b.beginPos + i) = .ok r) :
    skipTo b' k (b'.beginPos + i) = .ok r := by
  induction k generalizing i with
  | zero =>
    obtain ⟨⟨size, next⟩, hvar, h⟩ := bind_eq_ok.1 h
    obtain ⟨j, -, hvar'⟩ := readVarInt_same hbytes hvar
    rw [skipTo, hvar', ok_bind, ← h]
    simp only [Nat.add_sub_cancel_left]
  | succ k ih =>
    obtain ⟨⟨size, next⟩, hskip, h⟩ := bind_eq_ok.1 h
    dsimp only at h
    by_cases hzero : size = 0
    · rw [if_pos hzero] at h
      have hin : InDump b next := by
        obtain ⟨⟨txSize, txStart⟩, hvar, hskip⟩ := bind_eq_ok.1 hskip
        have hcur := inDump_of_readVarInt hvar
        obtain ⟨hlt, hle, -⟩ := (safe_readVarInt hcur le_rfl).of_ok hvar
        have hbegin := hcur.1
        dsimp only at hskip hlt hle
        split_ifs at hskip
        · cases hskip
          exact ⟨by omega, hle⟩
        · obtain ⟨_, -, hskip⟩ := bind_eq_ok.1 hskip
          cases hskip
          contradiction
      obtain ⟨j, -, hskip'⟩ := skipTx_same hbytes hskip hin
      rw [skipTo, hskip', ok_bind]
      dsimp only
      rw [if_pos hzero]
      exact h
    · rw [if_neg hzero] at h
      obtain ⟨j, rfl, hskip'⟩ := skipTx_same hbytes hskip (inDump_of_skipTo h)
      rw [skipTo, hskip', ok_bind]
      dsimp only
      rw [if_neg hzero]
      exact ih h

theorem sliceFrom_same {k : ℕ} {txs : List TransactionInfo}
    (h : SliceFrom b L o k (b.beginPos + 80) firstHelper txs) :
    SliceFrom b' L o k (b'.beginPos + 80) firstHelper txs := by
  rcases h with ⟨hskip, rfl⟩ | ⟨j, hskip, hparsed⟩
  · exact Or.inl ⟨skipTo_same hbytes hskip, rfl⟩
  · exact Or.inr ⟨j, skipTo_same hbytes hskip, hparsed.same (sameRead hbytes rfl rfl fun h => h)⟩

/-- A part of a block is read alike wherever its dump is loaded. -/
theorem sliceFrom_same_iff {k : ℕ} {txs : List TransactionInfo} :
    SliceFrom b' L o k (b'.beginPos + 80) firstHelper txs ↔
      SliceFrom b L o k (b.beginPos + 80) firstHelper txs :=
  ⟨sliceFrom_same hbytes.symm, sliceFrom_same hbytes⟩

end

/-- **With validation the same part of a block is read**, if its transactions are valid. -/
theorem sliceFrom_validate_iff {k curPos : ℕ} {helper : PrevTransactionSignHelper}
    {txs : List TransactionInfo} :
    SliceFrom b L { o with isValidate := true } k curPos helper txs ↔
      SliceFrom b L { o with isValidate := false } k curPos helper txs ∧
        ∀ tx ∈ txs, Validated L b.bytes (txPlace o.posInFile tx) tx := by
  constructor
  · rintro (⟨hskip, rfl⟩ | ⟨j, hskip, hparsed⟩)
    · exact ⟨Or.inl ⟨hskip, rfl⟩, by simp⟩
    · obtain ⟨hparsed, hvalid⟩ := parsedUpTo_validate_iff.1 hparsed
      exact ⟨Or.inr ⟨j, hskip, hparsed⟩, hvalid⟩
  · rintro ⟨⟨hskip, rfl⟩ | ⟨j, hskip, hparsed⟩, hvalid⟩
    · exact Or.inl ⟨hskip, rfl⟩
    · exact Or.inr ⟨j, hskip, parsedUpTo_validate_iff.2 ⟨hparsed, hvalid⟩⟩

end

/-! ## Transactions as they are read -/

/-- What the parser leaves in every transaction: no number of a block, and both addresses. -/
structure AsRead (tx : TransactionInfo) : Prop where
  blockNumber : tx.blockNumber = 0
  fromSet : tx.fromAddress.isSet = true
  toSet : tx.toAddress.isSet = true

section
variable {b : Buf} {L : Libs} {o : ReadOptions}

theorem setData_kept {t t' : TransactionInfo} {data : Bytes} (h : setData L t data = .ok t') :
    t'.blockNumber = t.blockNumber ∧ t'.toAddress = t.toAddress := by
  obtain ⟨isScript, -, h⟩ := bind_eq_ok.1 h
  split_ifs at h
  · cases h
    exact ⟨rfl, rfl⟩
  · cases h
    exact ⟨rfl, rfl⟩

theorem senderOf_set {pubKey data : Bytes} {a : Address} (h : senderOf L pubKey data = .ok a) :
    a.isSet = true := by
  rw [senderOf] at h
  split_ifs at h
  · cases h
    rfl
  · obtain ⟨_, -, h⟩ := bind_eq_ok.1 h
    cases h
    rfl

theorem completeTx_kept {t tx : TransactionInfo}
    {allTxStart txStart endClearTx allTxEnd txSize txHashSize : ℕ} {isSaveAllTx isValidate : Bool}
    {helper : PrevTransactionSignHelper}
    (h : completeTx b L t allTxStart txStart endClearTx allTxEnd txSize txHashSize isSaveAllTx helper
      isValidate = .ok tx) :
    tx.blockNumber = t.blockNumber ∧ tx.toAddress = t.toAddress ∧ tx.fromAddress.isSet = true := by
  obtain ⟨fromAddress, hfrom, h⟩ := bind_eq_ok.1 h
  obtain ⟨_, -, h⟩ := bind_eq_ok.1 h
  obtain ⟨_, -, h⟩ := bind_eq_ok.1 h
  obtain ⟨_, -, h⟩ := bind_eq_ok.1 h
  obtain ⟨_, -, h⟩ := bind_eq_ok.1 h
  obtain ⟨_, -, h⟩ := bind_eq_ok.1 h
  obtain ⟨_, hfee, h⟩ := bind_eq_ok.1 h
  obtain ⟨_, -, hfee⟩ := bind_eq_ok.1 hfee
  cases hfee
  cases h
  exact ⟨rfl, rfl, senderOf_set hfrom⟩

theorem asRead_of_read {helper : PrevTransactionSignHelper} {i size pos : ℕ} {tx : TransactionInfo}
    (h : readAtPlace b L o true helper i = .ok (size, pos, tx)) (hsize : size ≠ 0) : AsRead tx := by
  obtain ⟨⟨txSize, _⟩, -, h⟩ := bind_eq_ok.1 h
  dsimp only at h
  by_cases hzero : txSize = 0
  · rw [if_pos hzero] at h
    cases h
    exact absurd rfl hsize
  · rw [if_neg hzero] at h
    obtain ⟨_, -, h⟩ := bind_eq_ok.1 h
    obtain ⟨fields, -, h⟩ := bind_eq_ok.1 h
    obtain ⟨_, -, h⟩ := bind_eq_ok.1 h
    obtain ⟨t, hdata, h⟩ := bind_eq_ok.1 h
    obtain ⟨_, -, h⟩ := bind_eq_ok.1 h
    obtain ⟨_, -, h⟩ := bind_eq_ok.1 h
    obtain ⟨_, -, h⟩ := bind_eq_ok.1 h
    obtain ⟨tx', hcomplete, h⟩ := bind_eq_ok.1 h
    cases h
    obtain ⟨hnumber, hto⟩ := setData_kept hdata
    obtain ⟨hnumber', hto', hfrom⟩ := completeTx_kept hcomplete
    refine ⟨hnumber'.trans hnumber, hfrom, ?_⟩
    rw [hto']
    exact (congrArg Address.isSet hto).trans rfl

theorem Parsed.asRead {i : ℕ} {helper : PrevTransactionSignHelper} {txs : List TransactionInfo}
    (h : Parsed b L o i helper txs) : ∀ tx ∈ txs, AsRead tx := by
  induction h with
  | stop => simp
  | tx hat hsize _ ih => exact List.forall_mem_cons.2 ⟨asRead_of_read hat hsize, ih⟩

theorem ParsedUpTo.asRead {n i : ℕ} {helper : PrevTransactionSignHelper} {txs : List TransactionInfo}
    (h : ParsedUpTo b L o n i helper txs) : ∀ tx ∈ txs, AsRead tx := by
  induction h with
  | full => simp
  | stop => simp
  | tx hat hsize _ ih => exact List.forall_mem_cons.2 ⟨asRead_of_read hat hsize, ih⟩

theorem SliceFrom.asRead {k curPos : ℕ} {helper : PrevTransactionSignHelper}
    {txs : List TransactionInfo} (h : SliceFrom b L o k curPos helper txs) : ∀ tx ∈ txs, AsRead tx := by
  rcases h with ⟨-, rfl⟩ | ⟨_, -, hparsed⟩
  · simp
  · exact hparsed.asRead

instance (tx : TransactionInfo) : Decidable (SelfTx tx) := inferInstanceAs (Decidable (_ ∧ _))

/-- The signature of a header by the first transaction that is read. -/
def headerSignature (signature : Bytes) : Option TransactionInfo → Bytes
  | some tx => if SelfTx tx then tx.data else signature
  | none => signature

theorem signatureOf_asRead (signature : Bytes) {txs : List TransactionInfo} (h : ∀ tx ∈ txs, AsRead tx) :
    signatureOf signature txs = .ok (headerSignature signature txs.head?) := by
  cases txs with
  | nil => rfl
  | cons tx txs =>
    have hread := h tx List.mem_cons_self
    rw [signatureOf, Address.eq, check_of hread.fromSet, ok_bind, check_of hread.toSet, ok_bind]
    show Exec.ok (if (tx.fromAddress.address == tx.toAddress.address) && tx.value == 0 then tx.data
      else signature) = .ok (if SelfTx tx then tx.data else signature)
    have hiff : ((tx.fromAddress.address == tx.toAddress.address) && tx.value == 0) = true ↔
        SelfTx tx := by simp [SelfTx]
    by_cases hself : SelfTx tx
    · rw [if_pos hself, if_pos (hiff.2 hself)]
    · rw [if_neg hself, if_neg (mt hiff.1 hself)]

end

/-! ## Reading into a header -/

section
variable (L : Libs)

/-- `readNextBlockInfo(begin_pos, end_pos, posInFile, bi, …)` for a `bi` that has a header. -/
def readNextBlockInfoInto (b : Buf) (o : ReadOptions) (bi : BlockHeader) : Exec Exn BlockInfo := do
  let header ← readBlockHeaderWithoutSize b L bi
  let bi ← readBlockTxs b L o header
  let blockSize := UInt64.ofNat b.bytes.length
  return { bi with header := { bi.header with
    blockSize := blockSize
    filePos := { bi.header.filePos with pos := o.posInFile }
    endBlockPos := o.posInFile + blockSize + 8 } }

/-- `readNextBlockInfo(ifile, currPos, bi, blockDump, …)` for a `bi` that has a header. -/
def readNextBlockInfoFileInto (M : Allocator) (file : Bytes) (currPos : UInt64) (o : ReadOptions)
    (bi : BlockHeader) : Exec Exn (UInt64 × BlockInfo × Bytes) := do
  let (res, header) ← readBlockHeaderFile M L file currPos bi
  if !res then return (currPos, { header := header }, [])
  else if file.length - currPos.toNat < (header.blockSize + 8).toNat then
    return (currPos, { header := header }, [])
  else
    let bSize := header.blockSize.toNat
    Exec.check (bSize ≤ maxSize) (.std "basic_string::_M_create")
    seekFile (currPos + 8).toNat
    let blockDump ← M.vector (readFile file (currPos + 8).toNat bSize)
    let bi ← readBlockTxs blockDump L { o with posInFile := currPos } header
    let currPos := currPos + (bi.header.blockSize + 8)
    return (currPos, { bi with header := { bi.header with endBlockPos := currPos } }, blockDump.bytes)

theorem readNextBlockInfoInto_empty (b : Buf) (o : ReadOptions) :
    readNextBlockInfoInto L b o {} = readNextBlockInfo b L o := rfl

theorem readNextBlockInfoFileInto_empty (M : Allocator) (file : Bytes) (currPos : UInt64)
    (o : ReadOptions) :
    readNextBlockInfoFileInto L M file currPos o {} = readNextBlockInfoFile M L file currPos o := rfl

/-- The header `bi` when a dump at `pos` of a block file is read into it. -/
def headerOfDump (dump : Bytes) (pos : UInt64) (bi : BlockHeader) : BlockHeader where
  timestamp := UInt64.ofNat (leNat (slice dump 8 8))
  blockSize := UInt64.ofNat dump.length
  blockType := UInt64.ofNat (leNat (slice dump 0 8))
  hash := L.support.toHex (getDoubleSha256 L.crypto dump).1
  prevHash := L.support.toHex (slice dump 16 32)
  signature := bi.signature
  txsHash := L.support.toHex (slice dump 48 32)
  countTxs := bi.countTxs
  filePos := { bi.filePos with pos := pos }
  endBlockPos := pos + UInt64.ofNat dump.length + 8
  blockNumber := bi.blockNumber
  senderSign := bi.senderSign
  senderPubkey := bi.senderPubkey
  senderAddress := bi.senderAddress

/-- The part of a block that is read into the header `bi`. -/
def IsPart (b : Buf) (o : ReadOptions) (bi : BlockHeader) (part : BlockInfo) : Prop :=
  SliceFrom b L o o.beginTx (b.beginPos + 80) firstHelper part.txs ∧
    ∃ signature, signatureOf bi.signature part.txs = .ok signature ∧
      part.header = { headerOfDump L b.bytes o.posInFile bi with signature := signature }

variable {L} {b : Buf} {o : ReadOptions} {bi : BlockHeader} {part : BlockInfo}

/-- What is read of a block, and completed by `f`. -/
theorem readBlockTxs_map_iff (hlen : 80 ≤ b.bytes.length) (hcount : o.countTx ≠ 0) {α : Type}
    {f : BlockInfo → α} {x : α} :
    (readBlockTxs b L o bi >>= fun r => .ok (f r)) = .ok x ↔ ∃ txs signature,
      SliceFrom b L o o.beginTx (b.beginPos + 80) firstHelper txs ∧
      signatureOf bi.signature txs = .ok signature ∧
      x = f ⟨{ bi with
        hash := L.support.toHex (getDoubleSha256 L.crypto b.bytes).1, signature := signature }, txs⟩ := by
  constructor
  · intro h
    obtain ⟨⟨header, txs⟩, htxs, h⟩ := bind_eq_ok.1 h
    obtain ⟨hslice, signature, hsign, hheader⟩ := (readBlockTxs_slice_iff hlen hcount).1 htxs
    refine ⟨txs, signature, hslice, hsign, ?_⟩
    rw [← Exec.ok.inj h, ← hheader]
  · rintro ⟨txs, signature, hslice, hsign, rfl⟩
    exact bind_eq_ok.2 ⟨_, (readBlockTxs_slice_iff hlen hcount).2 ⟨hslice, signature, hsign, rfl⟩, rfl⟩

theorem readNextBlockInfoInto_iff (hlen : 80 ≤ b.bytes.length) (hcount : o.countTx ≠ 0) :
    readNextBlockInfoInto L b o bi = .ok part ↔ IsPart L b o bi part := by
  rw [readNextBlockInfoInto, readBlockHeaderWithoutSize_eq hlen, ok_bind]
  refine (readBlockTxs_map_iff hlen hcount).trans ?_
  constructor
  · rintro ⟨txs, signature, hslice, hsign, rfl⟩
    exact ⟨hslice, signature, hsign, rfl⟩
  · rintro ⟨hslice, signature, hsign, hheader⟩
    refine ⟨part.txs, signature, hslice, hsign, ?_⟩
    obtain ⟨header, txs⟩ := part
    obtain rfl : header = _ := hheader
    rfl

theorem moveTx_zero : moveTx 0 = id := by
  funext tx
  rw [moveTx, UInt64.add_zero]
  rfl

namespace RecordAt

variable {file dump : Bytes} {pos : UInt64} (h : RecordAt file pos dump) (M : Allocator)
include h

/-- A block is read into a header from its record, by way of its dump in a new buffer. -/
theorem readNextBlockInfoFileInto_eq (o : ReadOptions) (bi : BlockHeader) :
    ∃ buf : Buf, buf.bytes = dump ∧ readNextBlockInfoFileInto L M file pos o bi =
      readBlockTxs buf L { o with posInFile := pos }
        { headerOfDump L dump pos bi with hash := bi.hash, endBlockPos := bi.endBlockPos } >>= fun r =>
      .ok (pos + (r.header.blockSize + 8),
        { r with header := { r.header with endBlockPos := pos + (r.header.blockSize + 8) } }, dump) := by
  have hend := h.end_le
  have hhead := h.header_le
  have hlt := h.file_lt
  have hsize : (UInt64.ofNat dump.length).toNat = dump.length :=
    UInt64.toNat_ofNat_of_lt' (by show dump.length < 2 ^ 64; omega)
  have hsum : (UInt64.ofNat dump.length + 8).toNat = dump.length + 8 := by
    rw [UInt64.toNat_add, hsize]
    show (dump.length + 8) % 2 ^ 64 = _
    omega
  have hfile : readFile file (pos.toNat + 8) dump.length = dump := by
    rw [readFile_eq (by omega), h.dump_at.slice_eq]
  obtain ⟨buf, hbuf, hbytes⟩ : ∃ buf : Buf, M.vector dump = .ok buf ∧ buf.bytes = dump :=
    ⟨_, M.vector_eq h.length_lt, rfl⟩
  refine ⟨buf, hbytes, ?_⟩
  rw [readNextBlockInfoFileInto, h.readBlockHeaderFile_eq M L hbytes
    (readBlockHeaderWithoutSize_eq (by rw [hbytes]; exact hhead) bi), ok_bind]
  dsimp only
  rw [if_neg (by simp), hsum, if_neg (by omega), hsize, Exec.check_pos (by rw [maxSize]; omega),
    ok_bind, h.toNat_dumpPos, seekFile, check_of (Or.inl (by omega)), ok_bind, hfile, hbuf, ok_bind,
    hbytes]
  rfl

/-- What is read of a part of a block from its record. -/
theorem readNextBlockInfoFileInto_iff (hb : b.bytes = dump) (hpos : o.posInFile = pos)
    (hcount : o.countTx ≠ 0) {next : UInt64} {dump' : Bytes} :
    readNextBlockInfoFileInto L M file pos o bi = .ok (next, part, dump') ↔
      IsPart L b o bi part ∧ next = pos + (UInt64.ofNat dump.length + 8) ∧ dump' = dump := by
  obtain ⟨buf, hbytes, heq⟩ := h.readNextBlockInfoFileInto_eq M o bi (L := L)
  have hlen : 80 ≤ buf.bytes.length := by rw [hbytes]; exact h.header_le
  have hplace : pos + (UInt64.ofNat dump.length + 8) = pos + UInt64.ofNat dump.length + 8 :=
    (UInt64.add_assoc _ _ _).symm
  obtain ⟨posInFile, isValidate, isSaveAllTx, beginTx, countTx⟩ := o
  obtain rfl : posInFile = pos := hpos
  rw [heq]
  refine (readBlockTxs_map_iff hlen hcount).trans ?_
  rw [IsPart, ← sliceFrom_same_iff (hbytes.trans hb.symm), hb, hbytes]
  dsimp only [headerOfDump]
  constructor
  · rintro ⟨txs, signature, hslice, hsign, hpart⟩
    rw [Prod.mk.injEq, Prod.mk.injEq, hplace] at hpart
    obtain ⟨rfl, rfl, rfl⟩ := hpart
    rw [hplace]
    exact ⟨⟨hslice, signature, hsign, rfl⟩, rfl, rfl⟩
  · rintro ⟨⟨hslice, signature, hsign, hheader⟩, rfl, rfl⟩
    refine ⟨part.txs, signature, hslice, hsign, ?_⟩
    obtain ⟨header, txs⟩ := part
    obtain rfl : header = _ := hheader
    rw [hplace]

/-- A whole block is read from its record as from its dump in memory. -/
theorem readNextBlockInfoFileInto_whole (hb : b.bytes = dump) (hpos : o.posInFile = pos)
    (hbegin : o.beginTx = 0) (hcount : o.countTx = 0) {whole : BlockInfo}
    (hread : readBlockTxs b L o bi = .ok whole) :
    ∃ full, readNextBlockInfoFileInto L M file pos o bi =
        .ok (pos + (UInt64.ofNat dump.length + 8), full, dump) ∧
      full.txs = whole.txs ∧ full.header.signature = whole.header.signature ∧
      full.header.blockNumber = bi.blockNumber := by
  obtain ⟨buf, hbytes, heq⟩ := h.readNextBlockInfoFileInto_eq M o bi (L := L)
  obtain ⟨-, hmoved⟩ := readBlockTxs_moved (hbytes.trans hb.symm) hbegin hcount pos
    (fun hval : o.isValidate = true => hval) (by rw [hb]; exact h.header_le)
    (show ({ headerOfDump L dump pos bi with hash := bi.hash, endBlockPos := bi.endBlockPos } :
      BlockHeader).signature = bi.signature from rfl) hread
  rw [heq, hmoved, ok_bind]
  refine ⟨_, rfl, ?_, rfl, rfl⟩
  rw [hpos, UInt64.sub_self, moveTx_zero, List.map_id]

end RecordAt

end

end TorrentNode
