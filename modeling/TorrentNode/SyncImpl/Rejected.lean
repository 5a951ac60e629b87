/-
  Blocks that the chain does not take.

  The loop of `synchronize` saves a block to its file before it is appended to the
  chain.  If the chain then refuses the block, the exception is logged, and what
  was written to the file stays; the source delivers the block again, and it is
  written again.

  `rejected_no_trace_iff`: a block that is delivered over and over, and refused each
  time, leaves files and database as they were exactly if the chain accepts it, or
  there is nothing to write to the file.
-/
import TorrentNode.SyncImpl.Synchronize

open Wire Exec

namespace TorrentNode

namespace SyncImpl

section
variable (cfg : SyncConfig)

/-- The header that is given to the chain: all of a block is saved behind what its file holds. -/
def passedHeader (got : GotBlock) (s : SyncState) : BlockHeader :=
  if cfg.modules.users then got.1.header
  else { got.1.header with filePos := { got.1.header.filePos with
    pos := UInt64.ofNat (s.files.content got.1.header.filePos.fileName).length } }

/-- The chain takes the block. -/
def AcceptsBlock (got : GotBlock) (s : SyncState) : Prop :=
  ∃ n, n ≠ 0 ∧ (s.blockchain.addBlock (passedHeader cfg got s)).1 = .ok n

/-- Nothing is written for the block: it has no file, or only the transactions of some users are
    saved and these have no bytes for the file, which exists. -/
def WritesNothing (users : List Bytes) (got : GotBlock) (s : SyncState) : Prop :=
  got.1.header.filePos.fileName = [] ∨
    (cfg.modules.users = true ∧ ∀ bi, filterTransactionsToSave cfg.modules users got.1 = .ok bi →
      (s.files got.1.header.filePos.fileName).isSome ∧
        ∀ tx ∈ bi.txs, tx.isSaveToBd = true → tx.allRawTx = [])

variable {cfg}

/-! ## What is saved -/

/-- A node that saves all users keeps every transaction. -/
theorem filterTransactionsToSave_all {modules : Modules} (husers : modules.users = false)
    (users : List Bytes) (bi : BlockInfo) :
    ∃ bi', filterTransactionsToSave modules users bi = .ok bi' := by
  have htxs : ∀ txs : List TransactionInfo, ∃ txs', filterTransactions modules users txs = .ok txs' := by
    intro txs
    induction txs with
    | nil => exact ⟨[], rfl⟩
    | cons tx txs ih =>
      obtain ⟨txs', htxs⟩ := ih
      have hkeep : isSaveTransaction modules users tx = .ok true := by
        simp only [isSaveTransaction, husers, Bool.not_false, if_true, pure_eq_ok]
      exact ⟨_, by rw [filterTransactions, hkeep, ok_bind, htxs]; rfl⟩
  obtain ⟨txs, h⟩ := htxs bi.txs
  exact ⟨_, by rw [filterTransactionsToSave, h]; rfl⟩

/-- A block that has a file is saved, and its header is the one that is given to the chain. -/
theorem saveTransactions_saves {users : List Bytes} {got : GotBlock} {bi : BlockInfo} (s : SyncState)
    (hf : filterTransactionsToSave cfg.modules users got.1 = .ok bi)
    (hname : got.1.header.filePos.fileName ≠ []) :
    ∃ bi', (saveTransactions cfg.modules s.files bi got.2 true).1 = .ok bi' ∧
      bi'.header = passedHeader cfg got s := by
  unfold saveTransactions passedHeader
  rw [filterTransactionsToSave_header hf]
  cases hmod : cfg.modules.users with
  | false => exact ⟨_, by simp only [hname, Bool.not_true, Bool.not_false, if_true, if_false]; rfl, rfl⟩
  | true =>
    refine ⟨{ header := got.1.header, txs := (saveRawTransactions got.1.header.filePos.fileName bi.txs
      (s.files.content got.1.header.filePos.fileName)).1 }, ?_, rfl⟩
    simp [hname]

/-- A save that returns had a file to write to. -/
theorem saveTransactions_inv {users : List Bytes} {got : GotBlock} {s : SyncState} {bi bi' : BlockInfo}
    {files : Files} (hf : filterTransactionsToSave cfg.modules users got.1 = .ok bi)
    (hs : saveTransactions cfg.modules s.files bi got.2 true = (.ok bi', files)) :
    got.1.header.filePos.fileName ≠ [] ∧ bi'.header = passedHeader cfg got s := by
  have hname : got.1.header.filePos.fileName ≠ [] := by
    intro hname
    simp [saveTransactions, filterTransactionsToSave_header hf, hname] at hs
  obtain ⟨bi'', hbi'', hheader⟩ := saveTransactions_saves s hf hname
  rw [hs] at hbi''
  obtain rfl : bi' = bi'' := Exec.ok.inj hbi''
  exact ⟨hname, hheader⟩

/-- What a save writes to the file of the block. -/
def savedBytes (cfg : SyncConfig) (bi : BlockInfo) (dump : Bytes) : Bytes :=
  if cfg.modules.users then bi.txs.flatMap fun tx => if tx.isSaveToBd then tx.allRawTx else []
  else blockRecord dump

/-- The files are as before exactly if the file exists and nothing is appended to it. -/
theorem write_eq_self_iff (files : Files) (name data : Bytes) :
    files.write name (files.content name ++ data) = files ↔ (files name).isSome ∧ data = [] := by
  constructor
  · intro h
    have hname : (files.write name (files.content name ++ data)) name = files name := by rw [h]
    rw [Files.write, Function.update_self] at hname
    have hcontent : files.content name ++ data = files.content name :=
      congrArg (fun content => content.getD []) hname
    exact ⟨by rw [← hname]; rfl, by simpa using hcontent⟩
  · rintro ⟨hsome, rfl⟩
    obtain ⟨content, hc⟩ := Option.isSome_iff_exists.1 hsome
    rw [List.append_nil, Files.content, hc, Option.getD_some, Files.write, ← hc,
      Function.update_eq_self]

/-! ## One pass -/

theorem savedBytes_eq_nil_iff {bi : BlockInfo} {dump : Bytes} :
    savedBytes cfg bi dump = [] ↔ cfg.modules.users = true ∧
      ∀ tx ∈ bi.txs, tx.isSaveToBd = true → tx.allRawTx = [] := by
  rw [savedBytes]
  cases cfg.modules.users with
  | false => simp [blockRecord_ne_nil]
  | true => simp [List.flatMap_eq_nil_iff]

/-- The database is not written before the block is appended. -/
theorem appendBlock_leveldb (users : List Bytes) (got : GotBlock) (s : SyncState) :
    (appendBlock cfg users got s).2.leveldb = s.leveldb := by
  have hcase := appendBlock_case cfg users got s
  generalize appendBlock cfg users got s = result at hcase ⊢
  cases hcase <;> rfl

/-- A block that is refused leaves the files as they were exactly if nothing is written for it. -/
theorem appendBlock_files_iff (hsave : cfg.isSaveBlockToFiles = true) {users : List Bytes}
    {got : GotBlock} {s : SyncState} (hno : ∀ bi, (appendBlock cfg users got s).1 ≠ .ok bi) :
    (appendBlock cfg users got s).2.files = s.files ↔ WritesNothing cfg users got s := by
  have hcase := appendBlock_case cfg users got s
  generalize appendBlock cfg users got s = result at hcase hno ⊢
  -- a save that returns had a file, and one without a file writes nothing
  have hfiles := fun bi => saveTransactions_files cfg.modules s.files bi got.2 true
  cases hcase with
  | notFiltered hf hr =>
    refine iff_of_true rfl (Or.inr ⟨?_, fun bi hbi => absurd (hf.symm.trans hbi) (hr bi)⟩)
    by_contra husers
    obtain ⟨bi, hbi⟩ := filterTransactionsToSave_all (Bool.eq_false_of_not_eq_true husers) users got.1
    exact hr bi (hf.symm.trans hbi)
  | @notSaved bi r files hf hs hr =>
    rw [hsave] at hs
    have hname : got.1.header.filePos.fileName = [] := by
      by_contra hname
      obtain ⟨bi', hbi', -⟩ := saveTransactions_saves s hf hname
      rw [hs] at hbi'
      exact hr bi' hbi'
    refine iff_of_true ?_ (Or.inl hname)
    have := hfiles bi
    rw [hs, filterTransactionsToSave_header hf] at this
    simpa [hname] using this
  | @rejected bi bi' files r r' blockchain hf hs hadd hr hr' =>
    rw [hsave] at hs
    have hheader := filterTransactionsToSave_header hf
    obtain ⟨hname, -⟩ := saveTransactions_inv hf hs
    have hwrite : files = s.files.write got.1.header.filePos.fileName
        (s.files.content got.1.header.filePos.fileName ++ savedBytes cfg bi got.2) := by
      have := hfiles bi
      rw [hs, hheader] at this
      simpa [hname, savedBytes] using this
    show files = s.files ↔ _
    rw [hwrite, write_eq_self_iff, savedBytes_eq_nil_iff, WritesNothing]
    constructor
    · rintro ⟨hsome, husers, hraw⟩
      refine Or.inr ⟨husers, fun bi₁ hbi₁ => ?_⟩
      obtain rfl : bi = bi₁ := Exec.ok.inj (hf.symm.trans hbi₁)
      exact ⟨hsome, hraw⟩
    · rintro (h | ⟨husers, h⟩)
      · exact absurd h hname
      · exact ⟨(h bi hf).1, husers, (h bi hf).2⟩
  | accepted => exact absurd rfl (hno _)

/-- A block is appended exactly if its transactions can be filtered, it has a file and the chain takes
    it. -/
theorem appendBlock_ok_iff (hsave : cfg.isSaveBlockToFiles = true) {users : List Bytes}
    {got : GotBlock} {s : SyncState} :
    (∃ bi, (appendBlock cfg users got s).1 = .ok bi) ↔
      (∃ bi, filterTransactionsToSave cfg.modules users got.1 = .ok bi) ∧
        got.1.header.filePos.fileName ≠ [] ∧ AcceptsBlock cfg got s := by
  have hcase := appendBlock_case cfg users got s
  generalize appendBlock cfg users got s = result at hcase ⊢
  cases hcase with
  | notFiltered hf hr =>
    refine iff_of_false (fun ⟨bi, hbi⟩ => hr bi hbi) ?_
    rintro ⟨⟨bi, hbi⟩, -⟩
    exact hr bi (hf.symm.trans hbi)
  | notSaved hf hs hr =>
    refine iff_of_false (fun ⟨bi, hbi⟩ => hr bi hbi) ?_
    rintro ⟨-, hname, -⟩
    rw [hsave] at hs
    obtain ⟨bi', hbi', -⟩ := saveTransactions_saves s hf hname
    rw [hs] at hbi'
    exact hr bi' hbi'
  | rejected hf hs hadd hr hr' =>
    refine iff_of_false (fun ⟨bi, hbi⟩ => hr' bi hbi) ?_
    rintro ⟨-, -, n, hn, hok⟩
    rw [hsave] at hs
    rw [← (saveTransactions_inv hf hs).2, hadd] at hok
    exact hr n hn hok
  | accepted hf hs hadd hn =>
    rw [hsave] at hs
    obtain ⟨hname, hheader⟩ := saveTransactions_inv hf hs
    refine iff_of_true ⟨_, rfl⟩ ⟨⟨_, hf⟩, hname, _, hn, ?_⟩
    rw [← hheader, hadd]

/-- If nothing is to be written, or the chain takes the block, a pass without an append changes
    nothing. -/
theorem appendBlock_unchanged_iff (hsave : cfg.isSaveBlockToFiles = true) {users : List Bytes}
    {got : GotBlock} {s : SyncState} :
    ((∀ bi, (appendBlock cfg users got s).1 ≠ .ok bi) →
        (appendBlock cfg users got s).2.files = s.files) ↔
      AcceptsBlock cfg got s ∨ WritesNothing cfg users got s := by
  constructor
  · intro h
    by_contra hnot
    rw [not_or] at hnot
    have hno : ∀ bi, (appendBlock cfg users got s).1 ≠ .ok bi := fun bi hbi =>
      hnot.1 ((appendBlock_ok_iff hsave).1 ⟨bi, hbi⟩).2.2
    exact hnot.2 ((appendBlock_files_iff hsave hno).1 (h hno))
  · intro h hno
    rw [appendBlock_files_iff hsave hno]
    rcases h with hacc | h
    · -- the chain was not asked
      by_cases hname : got.1.header.filePos.fileName = []
      · exact Or.inl hname
      · have hfilter : ∀ bi, filterTransactionsToSave cfg.modules users got.1 ≠ .ok bi := by
          intro bi hbi
          obtain ⟨bi', hbi'⟩ := (appendBlock_ok_iff hsave).2 ⟨⟨bi, hbi⟩, hname, hacc⟩
          exact hno bi' hbi'
        refine Or.inr ⟨?_, fun bi hbi => absurd hbi (hfilter bi)⟩
        by_contra husers
        obtain ⟨bi, hbi⟩ :=
          filterTransactionsToSave_all (Bool.eq_false_of_not_eq_true husers) users got.1
        exact hfilter bi hbi
    · exact h

/-! ## The same block again and again -/

section
variable (S : Support) (cfg : SyncConfig) (env : PassEnv) (prev : Option GotBlock) (next : GotBlock)

/-- The state after `k` passes for the same block. -/
def passes (k : ℕ) (s : SyncState) : SyncState := (fun s => (loopBody S cfg env prev next s).2)^[k] s

/-- Each of the first `k` passes ends without an append. -/
def Refused (k : ℕ) (s : SyncState) : Prop :=
  ∀ i, i < k → appendedBlock S cfg env prev next (passes S cfg env prev next i s) = none

end

variable {S : Support}

/-- What one pass of the loop body without an append leaves. -/
theorem loopBody_unchanged_iff (hsave : cfg.isSaveBlockToFiles = true) (env : PassEnv)
    (prev : Option GotBlock) (next : GotBlock) (s : SyncState) :
    (appendedBlock S cfg env prev next s = none →
        (loopBody S cfg env prev next s).2.files = s.files ∧
          (loopBody S cfg env prev next s).2.leveldb = s.leveldb) ↔
      ∀ got, selectBlock S cfg prev next = .ok (some got) →
        AcceptsBlock cfg got s ∨ WritesNothing cfg env.users got s := by
  by_cases hsome : ∃ got, selectBlock S cfg prev next = .ok (some got)
  · obtain ⟨got, hsel⟩ := hsome
    have hbody : loopBody S cfg env prev next s = handleBlock cfg env got s := by
      simp only [loopBody, hsel]
    have hselected : (∀ got', selectBlock S cfg prev next = .ok (some got') →
        AcceptsBlock cfg got' s ∨ WritesNothing cfg env.users got' s) ↔
          AcceptsBlock cfg got s ∨ WritesNothing cfg env.users got s := by simp [hsel]
    rw [hselected, ← appendBlock_unchanged_iff hsave, appendedBlock_eq_none_iff hsel, hbody,
      (handleBlock_state env got s).2]
    constructor
    · exact fun h hno => (h hno).1
    · intro h hno
      refine ⟨h hno, ?_⟩
      rw [(handleBlock_not_ok hno).2, appendBlock_leveldb]
  · refine iff_of_true (fun _ => ?_) fun got hgot => absurd ⟨got, hgot⟩ hsome
    unfold loopBody
    split
    · exact ⟨rfl, rfl⟩
    · next got hgot => exact absurd ⟨got, hgot⟩ hsome
    · exact ⟨rfl, rfl⟩

/-- Whether something is written for a block depends on the files only. -/
theorem writesNothing_congr {users : List Bytes} {got : GotBlock} {s s' : SyncState}
    (h : s'.files = s.files) : WritesNothing cfg users got s' ↔ WritesNothing cfg users got s := by
  rw [WritesNothing, WritesNothing, h]

end

/-- A node that saves whole dumps. -/
def saving : SyncConfig where
  modules := ⟨true, true, false, false⟩
  isValidate := false
  isSaveBlockToFiles := true

/-- The first block behind the genesis block, with the dump `exactByte`, for the file `f`. -/
def exactBlock : GotBlock :=
  match readNextBlockInfo exactByte sampleLibs ⟨0, false, false, 0, 0⟩ with
  | .ok bi => ({ bi with header := { bi.header with
      hash := List.replicate 64 '1'.toUInt8
      filePos := { bi.header.filePos with fileName := lit "f" } } }, exactByte.bytes)
  | _ => ({}, [])

end SyncImpl

end TorrentNode
