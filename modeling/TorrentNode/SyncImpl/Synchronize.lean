/-
  The main loop of `synchronize` (`SyncImpl.cpp`).

  The outer loop asks the block source whether there are blocks (`doProcess`); the
  inner one takes a block at a time (`process`), saves it to its file, appends it
  to the chain, passes it to the workers and saves it to the database.  A node
  that validates runs one block behind, as the next block confirms it.  An
  exception ends the inner loop and is only logged: what was done before it stays.

  The events of the loop are the answers of the block source, with the failures of
  the workers and of the database, the writes of the workers' own threads, and
  restarts.  `Loop` is the state between two events, with the blocks that were
  delivered and appended since the last `doProcess`.

  `appended_confirmed`: a node that validates appends a block only if the next one
  that was delivered confirms it.
-/
import TorrentNode.BlockChain.Atomic
import TorrentNode.BlockchainRead.Signatures
import TorrentNode.Lib.Machine
import TorrentNode.SyncImpl.Recovery
import TorrentNode.SyncImpl.SaveTransactions

open Wire Exec

namespace TorrentNode

namespace SyncImpl

/-! ## One block -/

/-- The members of `SyncImpl` that are set once. -/
structure SyncConfig where
  modules : Modules
  isValidate : Bool
  isSaveBlockToFiles : Bool

/-- The members of `SyncImpl` that the loop writes to. -/
structure SyncState where
  blockchain : BlockChain
  leveldb : LevelDb
  files : Files

/-- A block with its dump. -/
abbrev GotBlock := BlockInfo × Bytes

/-- What a pass of the loop meets: the users, what a worker throws, and what the database throws. -/
structure PassEnv where
  users : List Bytes := []
  workers : Option Exn := none
  addBatch : Option Exn := none

/-- The block with its number. -/
def setBlockNumber (bi : BlockInfo) (currentBlockNum : ℕ) : BlockInfo where
  header := { bi.header with blockNumber := some currentBlockNum }
  txs := bi.txs.map fun tx => { tx with blockNumber := currentBlockNum }

section
variable (S : Support) (cfg : SyncConfig)

/-- The loop body from `filterTransactionsToSave` to the number of the block. -/
def appendBlock (users : List Bytes) (got : GotBlock) (s : SyncState) : Exec Exn BlockInfo × SyncState :=
  match filterTransactionsToSave cfg.modules users got.1 with
  | .ok bi =>
    match saveTransactions cfg.modules s.files bi got.2 cfg.isSaveBlockToFiles with
    | (.ok bi, files) =>
      match s.blockchain.addBlock bi.header with
      | (.ok currentBlockNum, blockchain) =>
        if currentBlockNum = 0 then
          (.throw (.common "Incorrect block number"), { s with files := files, blockchain := blockchain })
        else (.ok (setBlockNumber bi currentBlockNum), { s with files := files, blockchain := blockchain })
      | (r, blockchain) => (r >>= fun _ => .ok bi, { s with files := files, blockchain := blockchain })
    | (r, files) => (r, { s with files := files })
  | r => (r, s)

/-- The loop body from the workers on. -/
def finishBlock (env : PassEnv) (bi : BlockInfo) (s : SyncState) : Exec Exn Unit × SyncState :=
  match env.workers with
  | some e => (.throw e, s)
  | none =>
    match saveBlockToLeveldb cfg.modules s.leveldb bi with
    | .ok leveldb =>
      match env.addBatch with
      | some e => (.throw e, s)
      | none => (.ok (), { s with leveldb := leveldb })
    | r => (r >>= fun _ => .ok (), s)

/-- The loop body for the block `got`. -/
def handleBlock (env : PassEnv) (got : GotBlock) (s : SyncState) : Exec Exn Unit × SyncState :=
  match appendBlock cfg env.users got s with
  | (.ok bi, s) => finishBlock cfg env bi s
  | (r, s) => (r >>= fun _ => .ok (), s)

/-- The block that the loop body is for: the delivered one, or, if the node validates, the one before
    it, once it is confirmed. -/
def selectBlock (prev : Option GotBlock) (next : GotBlock) : Exec Exn (Option GotBlock) :=
  match prev with
  | none => .ok (if cfg.isValidate then none else some next)
  | some prev =>
    if cfg.isValidate then do
      let thisHashFromHex ← Exec.ofExcept (S.fromHex prev.1.header.hash)
      check (∀ tx ∈ next.1.txs, tx.isSignBlockTx = true → thisHashFromHex = tx.data)
        "Block signatures not confirmed"
      return some prev
    else .ok (some next)

/-- The loop body. -/
def loopBody (env : PassEnv) (prev : Option GotBlock) (next : GotBlock) (s : SyncState) :
    Exec Exn Unit × SyncState :=
  match selectBlock S cfg prev next with
  | .ok none => (.ok (), s)
  | .ok (some got) => handleBlock cfg env got s
  | r => (r >>= fun _ => .ok (), s)

/-- The block that the loop body appends to the chain. -/
def appendedBlock (env : PassEnv) (prev : Option GotBlock) (next : GotBlock) (s : SyncState) :
    Option GotBlock :=
  match selectBlock S cfg prev next with
  | .ok (some got) =>
    match (appendBlock cfg env.users got s).1 with
    | .ok _ => some got
    | _ => none
  | _ => none

/-! ## The loop -/

/-- The answer of `process`. -/
inductive SourceResult where
  | block (got : GotBlock)
  | stopped
  | throws (e : Exn)

inductive LoopEvent where
  /-- `doProcess` answers, or throws -/
  | doProcess (isContinue : Bool)
  /-- `process` answers, and the loop body runs if there is a block -/
  | process (result : SourceResult) (env : PassEnv)
  /-- the thread of `WorkerMain` writes to the database -/
  | mainBlock (value : Bytes)
  /-- the node is started again -/
  | restart

/-- The loop between two events. -/
structure Loop where
  state : SyncState
  prev : Option GotBlock := none
  isContinue : Bool := false
  /-- the blocks delivered and those appended since the last `doProcess` -/
  delivered : List GotBlock := []
  appended : List GotBlock := []

/-- The loop after a pass with the block `next`. -/
def Loop.deliver (l : Loop) (env : PassEnv) (next : GotBlock) : Loop where
  state := (loopBody S cfg env l.prev next l.state).2
  prev := some next
  isContinue :=
    match (loopBody S cfg env l.prev next l.state).1 with
    | .ok () => true
    | _ => false
  delivered := l.delivered ++ [next]
  appended := l.appended ++ (appendedBlock S cfg env l.prev next l.state).toList

/-- One event, if it is possible. -/
def Loop.step (l : Loop) : LoopEvent → Option Loop
  | .doProcess isContinue =>
    if l.isContinue then none else some { state := l.state, isContinue := isContinue }
  | .process result env =>
    if !l.isContinue then none
    else
      match result with
      | .block next => some (l.deliver S cfg env next)
      | .stopped => some { l with isContinue := false }
      | .throws _ => some { l with isContinue := false }
  | .mainBlock value =>
    some { l with state := { l.state with
      leveldb := l.state.leveldb.saveValue mainBlockNumberPrefix value } }
  | .restart =>
    match loadBlockchain l.state.leveldb l.state.blockchain with
    | (.ok (), blockchain) => some { state := { l.state with blockchain := blockchain } }
    | _ => none

/-- Events one after another. -/
def Loop.run (l : Loop) (events : List LoopEvent) : Option Loop :=
  Machine.runs (Loop.step S cfg) l events

/-- What an event does. -/
inductive Loop.StepCase (l : Loop) : LoopEvent → Loop → Prop
  | doProcess {isContinue : Bool} (hoff : l.isContinue = false) :
      StepCase l (.doProcess isContinue) { state := l.state, isContinue := isContinue }
  | block {next : GotBlock} {env : PassEnv} (hon : l.isContinue = true) :
      StepCase l (.process (.block next) env) (l.deliver S cfg env next)
  | noBlock {result : SourceResult} {env : PassEnv} (hon : l.isContinue = true)
      (hresult : ∀ next, result ≠ .block next) :
      StepCase l (.process result env) { l with isContinue := false }
  | mainBlock {value : Bytes} : StepCase l (.mainBlock value) { l with state := { l.state with
      leveldb := l.state.leveldb.saveValue mainBlockNumberPrefix value } }
  | restart {blockchain : BlockChain}
      (hload : loadBlockchain l.state.leveldb l.state.blockchain = (.ok (), blockchain)) :
      StepCase l .restart { state := { l.state with blockchain := blockchain } }

theorem Loop.step_case {l l' : Loop} {event : LoopEvent} (h : l.step S cfg event = some l') :
    Loop.StepCase S cfg l event l' := by
  cases event with
  | doProcess isContinue =>
    simp only [Loop.step] at h
    split_ifs at h with hon
    cases h
    exact .doProcess (by simpa using hon)
  | process result env =>
    simp only [Loop.step] at h
    split_ifs at h with hon
    have hon : l.isContinue = true := by simpa using hon
    cases result with
    | block next => cases h; exact .block hon
    | stopped => cases h; exact .noBlock hon (by simp)
    | throws e => cases h; exact .noBlock hon (by simp)
  | mainBlock value =>
    cases h
    exact .mainBlock
  | restart =>
    simp only [Loop.step] at h
    split at h
    · next hload => cases h; exact .restart hload
    · cases h

/-! ## What a pass does -/

/-- The ways in which `appendBlock` ends. -/
inductive AppendCase (users : List Bytes) (got : GotBlock) (s : SyncState) :
    Exec Exn BlockInfo × SyncState → Prop
  | notFiltered {r : Exec Exn BlockInfo}
      (hf : filterTransactionsToSave cfg.modules users got.1 = r) (hr : ∀ bi, r ≠ .ok bi) :
      AppendCase users got s (r, s)
  | notSaved {bi : BlockInfo} {r : Exec Exn BlockInfo} {files : Files}
      (hf : filterTransactionsToSave cfg.modules users got.1 = .ok bi)
      (hs : saveTransactions cfg.modules s.files bi got.2 cfg.isSaveBlockToFiles = (r, files))
      (hr : ∀ bi, r ≠ .ok bi) : AppendCase users got s (r, { s with files := files })
  | rejected {bi bi' : BlockInfo} {files : Files} {r : Exec Exn ℕ} {r' : Exec Exn BlockInfo}
      {blockchain : BlockChain} (hf : filterTransactionsToSave cfg.modules users got.1 = .ok bi)
      (hs : saveTransactions cfg.modules s.files bi got.2 cfg.isSaveBlockToFiles = (.ok bi', files))
      (hadd : s.blockchain.addBlock bi'.header = (r, blockchain)) (hr : ∀ n, n ≠ 0 → r ≠ .ok n)
      (hr' : ∀ bi, r' ≠ .ok bi) :
      AppendCase users got s (r', { s with files := files, blockchain := blockchain })
  | accepted {bi bi' : BlockInfo} {files : Files} {n : ℕ} {blockchain : BlockChain}
      (hf : filterTransactionsToSave cfg.modules users got.1 = .ok bi)
      (hs : saveTransactions cfg.modules s.files bi got.2 cfg.isSaveBlockToFiles = (.ok bi', files))
      (hadd : s.blockchain.addBlock bi'.header = (.ok n, blockchain)) (hn : n ≠ 0) :
      AppendCase users got s (.ok (setBlockNumber bi' n),
        { s with files := files, blockchain := blockchain })

theorem appendBlock_case (users : List Bytes) (got : GotBlock) (s : SyncState) :
    AppendCase cfg users got s (appendBlock cfg users got s) := by
  unfold appendBlock
  rcases hf : filterTransactionsToSave cfg.modules users got.1 with bi | e | u | _
  · dsimp only
    rcases hs : saveTransactions cfg.modules s.files bi got.2 cfg.isSaveBlockToFiles with
      ⟨bi' | e | u | _, files⟩
    · dsimp only
      rcases hadd : s.blockchain.addBlock bi'.header with ⟨n | e | u | _, blockchain⟩
      · dsimp only
        split_ifs with hn
        · exact .rejected hf hs hadd (fun m hm h => hm (Exec.ok.inj h ▸ hn)) nofun
        · exact .accepted hf hs hadd hn
      · exact .rejected hf hs hadd nofun nofun
      · exact .rejected hf hs hadd nofun nofun
      · exact .rejected hf hs hadd nofun nofun
    · exact .notSaved hf hs nofun
    · exact .notSaved hf hs nofun
    · exact .notSaved hf hs nofun
  · exact .notFiltered hf nofun
  · exact .notFiltered hf nofun
  · exact .notFiltered hf nofun

variable {S cfg}

/-- The filter leaves the header. -/
theorem filterTransactionsToSave_header {modules : Modules} {users : List Bytes} {bi bi' : BlockInfo}
    (h : filterTransactionsToSave modules users bi = .ok bi') : bi'.header = bi.header := by
  obtain ⟨txs, -, h⟩ := bind_eq_ok.1 h
  cases h
  rfl

/-- Of the header only the place is changed. -/
theorem saveTransactions_header {modules : Modules} {files files' : Files} {bi bi' : BlockInfo}
    {dump : Bytes} {saveBlockToFile : Bool}
    (h : saveTransactions modules files bi dump saveBlockToFile = (.ok bi', files')) :
    bi'.header = { bi.header with filePos := bi'.header.filePos } := by
  unfold saveTransactions at h
  dsimp only at h
  split_ifs at h <;> cases h <;> rfl

/-- The header that is given to the chain is the delivered one up to its place. -/
theorem header_appended {users : List Bytes} {got : GotBlock} {files files' : Files}
    {bi bi' : BlockInfo} (hf : filterTransactionsToSave cfg.modules users got.1 = .ok bi)
    (hs : saveTransactions cfg.modules files bi got.2 cfg.isSaveBlockToFiles = (.ok bi', files')) :
    bi'.header = { got.1.header with filePos := bi'.header.filePos } := by
  rw [← filterTransactionsToSave_header hf]
  exact saveTransactions_header hs

/-- Behind `addBlock` only the database is written. -/
theorem finishBlock_state (env : PassEnv) (bi : BlockInfo) (s : SyncState) :
    ∃ leveldb, (finishBlock cfg env bi s).2 = { s with leveldb := leveldb } ∧
      (leveldb = s.leveldb ∨ (finishBlock cfg env bi s).1 = .ok () ∧
        saveBlockToLeveldb cfg.modules s.leveldb bi = .ok leveldb) := by
  unfold finishBlock
  split
  · exact ⟨_, rfl, Or.inl rfl⟩
  · split
    · next leveldb hsave =>
      split
      · exact ⟨_, rfl, Or.inl rfl⟩
      · exact ⟨leveldb, rfl, Or.inr ⟨rfl, hsave⟩⟩
    · exact ⟨_, rfl, Or.inl rfl⟩

/-- The chain and the files after a pass are those after `addBlock`. -/
theorem handleBlock_state (env : PassEnv) (got : GotBlock) (s : SyncState) :
    (handleBlock cfg env got s).2.blockchain = (appendBlock cfg env.users got s).2.blockchain ∧
      (handleBlock cfg env got s).2.files = (appendBlock cfg env.users got s).2.files := by
  unfold handleBlock
  split
  · next bi s' heq =>
    obtain ⟨leveldb, hfinish, -⟩ := finishBlock_state env bi s'
    rw [hfinish, heq]
    exact ⟨rfl, rfl⟩
  · next r s' _ heq =>
    rw [heq]
    exact ⟨rfl, rfl⟩

/-- A pass that does not append its block ends there, with an exception. -/
theorem handleBlock_not_ok {env : PassEnv} {got : GotBlock} {s : SyncState}
    (h : ∀ bi, (appendBlock cfg env.users got s).1 ≠ .ok bi) :
    (handleBlock cfg env got s).1 ≠ .ok () ∧
      (handleBlock cfg env got s).2 = (appendBlock cfg env.users got s).2 := by
  unfold handleBlock
  split
  · next bi s' heq => exact absurd (by rw [heq]) (h bi)
  · next r s' hno heq =>
    refine ⟨?_, by rw [heq]⟩
    intro hok
    obtain ⟨bi, hbi, -⟩ := bind_eq_ok.1 hok
    exact hno bi hbi

/-- The selected block is appended unless `appendBlock` fails. -/
theorem appendedBlock_eq_none_iff {env : PassEnv} {prev : Option GotBlock} {next got : GotBlock}
    {s : SyncState} (hsel : selectBlock S cfg prev next = .ok (some got)) :
    appendedBlock S cfg env prev next s = none ↔
      ∀ bi, (appendBlock cfg env.users got s).1 ≠ .ok bi := by
  simp only [appendedBlock, hsel]
  cases (appendBlock cfg env.users got s).1 <;> simp

/-- A pass keeps the headers of the chain. -/
theorem mem_handleBlock {env : PassEnv} {got : GotBlock} {s : SyncState} {k : Bytes}
    (hk : k ∈ s.blockchain.blocks) : k ∈ (handleBlock cfg env got s).2.blockchain.blocks := by
  rw [(handleBlock_state env got s).1]
  have hcase := appendBlock_case cfg env.users got s
  generalize appendBlock cfg env.users got s = result at hcase ⊢
  cases hcase with
  | notFiltered => exact hk
  | notSaved => exact hk
  | @rejected _ bi' _ _ _ _ _ _ hadd =>
    have hmem : k ∈ (s.blockchain.addBlock bi'.header).2.blocks := BlockChain.mem_addBlock hk
    rwa [hadd] at hmem
  | @accepted _ bi' _ _ _ _ _ hadd =>
    have hmem : k ∈ (s.blockchain.addBlock bi'.header).2.blocks := BlockChain.mem_addBlock hk
    rwa [hadd] at hmem

/-- A block that is appended was not stored before the pass, and is after it. -/
theorem handleBlock_new {env : PassEnv} {got : GotBlock} {s : SyncState} {bi : BlockInfo}
    (h : (appendBlock cfg env.users got s).1 = .ok bi) :
    got.1.header.hash ∉ s.blockchain.blocks ∧
      got.1.header.hash ∈ (handleBlock cfg env got s).2.blockchain.blocks := by
  rw [(handleBlock_state env got s).1]
  have hcase := appendBlock_case cfg env.users got s
  generalize appendBlock cfg env.users got s = result at hcase h ⊢
  cases hcase with
  | notFiltered _ hr => exact absurd h (hr _)
  | notSaved _ _ hr => exact absurd h (hr _)
  | rejected _ _ _ _ hr => exact absurd h (hr _)
  | accepted hf hs hadd _ =>
    have hnew := BlockChain.addBlock_new (congrArg Prod.fst hadd)
    rw [hadd, header_appended hf hs] at hnew
    exact hnew

/-! ## Confirmed blocks -/

/-- The next block that was delivered confirms the block `B`. -/
def ConfirmedBy (S : Support) (B C : GotBlock) : Prop :=
  ∃ hash, S.fromHex B.1.header.hash = .ok hash ∧ C.1.Confirms hash

/-- The appended blocks are the first ones that were delivered, each once, without the last one, and
    the next block that was delivered confirms each of them. -/
structure Loop.Confirmed (S : Support) (l : Loop) : Prop where
  inOrder : l.appended <+: l.delivered.dropLast
  once : (l.appended.map fun B => B.1.header.hash).Nodup
  confirmed : ∀ i B, l.appended[i]? = some B → l.delivered[i]? = some B ∧
    ∃ C, l.delivered[i + 1]? = some C ∧ ConfirmedBy S B C

/-- What holds between two events: while the source is asked, all blocks but the last one are
    appended. -/
structure Loop.OneBehind (S : Support) (l : Loop) : Prop extends Loop.Confirmed S l where
  pending : l.isContinue = true → l.prev = l.delivered.getLast? ∧ l.appended = l.delivered.dropLast
  stored : ∀ B ∈ l.appended, B.1.header.hash ∈ l.state.blockchain.blocks

/-- A loop in front of a session. -/
theorem oneBehind_start (s : SyncState) (isContinue : Bool) :
    Loop.OneBehind S { state := s, isContinue := isContinue } where
  inOrder := List.prefix_rfl
  once := List.nodup_nil
  confirmed i B h := by simp at h
  pending _ := ⟨rfl, rfl⟩
  stored B h := by simp at h

/-- A node that validates takes the first block without an effect, and then the block before. -/
theorem selectBlock_validate (hval : cfg.isValidate = true) (prev : Option GotBlock) (next : GotBlock) :
    (prev = none ∧ selectBlock S cfg prev next = .ok none) ∨
    (∃ B, prev = some B ∧ selectBlock S cfg prev next = .ok (some B) ∧ ConfirmedBy S B next) ∨
    (∃ B, prev = some B ∧ ∀ got, selectBlock S cfg prev next ≠ .ok got) := by
  cases prev with
  | none => exact Or.inl ⟨rfl, by simp [selectBlock, hval]⟩
  | some B =>
    right
    rcases hhex : S.fromHex B.1.header.hash with e | hash
    · refine Or.inr ⟨B, rfl, fun got h => ?_⟩
      simp only [selectBlock, hval, if_true, hhex, Exec.ofExcept, throw_bind] at h
      cases h
    · by_cases hc : ∀ tx ∈ next.1.txs, tx.isSignBlockTx = true → hash = tx.data
      · refine Or.inl ⟨B, rfl, ?_, hash, hhex, hc⟩
        simp only [selectBlock, hval, if_true, hhex, Exec.ofExcept, ok_bind, check_of hc, pure_eq_ok]
      · refine Or.inr ⟨B, rfl, fun got h => ?_⟩
        simp only [selectBlock, hval, if_true, hhex, Exec.ofExcept, ok_bind, check,
          Exec.check_neg hc, throw_bind] at h
        cases h

/-- One more block is delivered, and none is appended. -/
theorem Loop.Confirmed.snoc {l l' : Loop} (h : l.Confirmed S) (next : GotBlock)
    (hdelivered : l'.delivered = l.delivered ++ [next]) (happended : l'.appended = l.appended) :
    l'.Confirmed S where
  inOrder := by
    rw [hdelivered, happended, List.dropLast_concat]
    exact h.inOrder.trans (List.dropLast_prefix _)
  once := by rw [happended]; exact h.once
  confirmed i B hB := by
    rw [happended] at hB
    obtain ⟨hi, C, hC, hconf⟩ := h.confirmed i B hB
    have hlt := (List.getElem?_eq_some_iff.1 hC).1
    rw [hdelivered]
    refine ⟨?_, C, ?_, hconf⟩
    · rw [List.getElem?_append_left (by omega), hi]
    · rw [List.getElem?_append_left hlt, hC]

/-- The block before the delivered one is appended. -/
theorem Loop.Confirmed.append {l l' : Loop} (h : l.Confirmed S) {B next : GotBlock}
    (hpending : l.delivered = l.appended ++ [B]) (hconf : ConfirmedBy S B next)
    (hnew : B.1.header.hash ∉ l.appended.map fun B => B.1.header.hash)
    (hdelivered : l'.delivered = l.delivered ++ [next]) (happended : l'.appended = l.appended ++ [B]) :
    l'.Confirmed S where
  inOrder := by
    rw [hdelivered, happended, List.dropLast_concat, hpending]
  once := by
    rw [happended, List.map_append, List.map_singleton, ← List.concat_eq_append]
    exact h.once.concat hnew
  confirmed i C hC := by
    rw [happended] at hC
    rw [hdelivered]
    rcases Nat.lt_or_ge i l.appended.length with hlt | hge
    · rw [List.getElem?_append_left hlt] at hC
      obtain ⟨hi, D, hD, hconf⟩ := h.confirmed i C hC
      have hlt' := (List.getElem?_eq_some_iff.1 hD).1
      refine ⟨?_, D, ?_, hconf⟩
      · rw [List.getElem?_append_left (by omega), hi]
      · rw [List.getElem?_append_left hlt', hD]
    · rw [List.getElem?_append_right hge, List.getElem?_singleton] at hC
      split_ifs at hC with h0
      obtain rfl := Option.some.inj hC
      obtain rfl : i = l.appended.length := by omega
      rw [hpending]
      exact ⟨by simp, next, by simp, hconf⟩

/-- A pass that ends the session without appending its block. -/
theorem Loop.OneBehind.stop {l l' : Loop} (h : l.OneBehind S) (next : GotBlock)
    (hdelivered : l'.delivered = l.delivered ++ [next]) (happended : l'.appended = l.appended)
    (hoff : l'.isContinue = false)
    (hkeep : ∀ k ∈ l.state.blockchain.blocks, k ∈ l'.state.blockchain.blocks) : l'.OneBehind S :=
  { h.toConfirmed.snoc next hdelivered happended with
    pending := fun hc => by rw [hoff] at hc; cases hc
    stored := fun C hC => hkeep _ (h.stored C (happended ▸ hC)) }

/-- **One pass** of a node that validates. -/
theorem oneBehind_deliver (hval : cfg.isValidate = true) {l : Loop} (h : l.OneBehind S)
    (hon : l.isContinue = true) (env : PassEnv) (next : GotBlock) :
    (l.deliver S cfg env next).OneBehind S := by
  obtain ⟨hprev, happ⟩ := h.pending hon
  rcases selectBlock_validate (S := S) hval l.prev next with
    ⟨hnone, hsel⟩ | ⟨B, hB, hsel, hconf⟩ | ⟨B, hB, hsel⟩
  · -- the first block of a session
    have hbody : loopBody S cfg env l.prev next l.state = (.ok (), l.state) := by
      simp only [loopBody, hsel]
    have hno : appendedBlock S cfg env l.prev next l.state = none := by
      simp only [appendedBlock, hsel]
    have happended : (l.deliver S cfg env next).appended = l.appended := by
      simp [Loop.deliver, hno]
    have hempty : l.delivered = [] := by
      rw [hprev] at hnone
      exact List.getLast?_eq_none_iff.1 hnone
    refine { h.toConfirmed.snoc next rfl happended with pending := ?_, stored := ?_ }
    · intro _
      rw [happended, happ]
      exact ⟨by simp [Loop.deliver], by simp [Loop.deliver, hempty]⟩
    · rw [happended]
      simpa [Loop.deliver, hbody] using h.stored
  · have hpending : l.delivered = l.appended ++ [B] := by
      rw [hprev] at hB
      rw [happ]
      exact (List.dropLast_append_getLast? B hB).symm
    have hstate : (l.deliver S cfg env next).state = (handleBlock cfg env B l.state).2 := by
      simp only [Loop.deliver, loopBody, hsel]
    have hkeep : ∀ k ∈ l.state.blockchain.blocks,
        k ∈ (l.deliver S cfg env next).state.blockchain.blocks := by
      intro k hk
      rw [hstate]
      exact mem_handleBlock hk
    by_cases hok : ∃ bi, (appendBlock cfg env.users B l.state).1 = .ok bi
    · obtain ⟨bi, hbi⟩ := hok
      have happended : (l.deliver S cfg env next).appended = l.appended ++ [B] := by
        simp [Loop.deliver, appendedBlock, hsel, hbi]
      obtain ⟨hfresh, hin⟩ := handleBlock_new hbi
      have hnew : B.1.header.hash ∉ l.appended.map fun B => B.1.header.hash := by
        intro hmem
        obtain ⟨C, hC, hhash⟩ := List.mem_map.1 hmem
        exact hfresh (hhash ▸ h.stored C hC)
      refine { h.toConfirmed.append hpending hconf hnew rfl happended with pending := ?_, stored := ?_ }
      · intro _
        rw [happended, ← hpending]
        exact ⟨by simp [Loop.deliver], by simp [Loop.deliver]⟩
      · intro C hC
        rw [happended] at hC
        rcases List.mem_append.1 hC with hC | hC
        · exact hkeep _ (h.stored C hC)
        · obtain rfl := List.mem_singleton.1 hC
          rw [hstate]
          exact hin
    · have hno : ∀ bi, (appendBlock cfg env.users B l.state).1 ≠ .ok bi := not_exists.1 hok
      refine h.stop next rfl ?_ ?_ hkeep
      · simp [Loop.deliver, (appendedBlock_eq_none_iff hsel).2 hno]
      · simp only [Loop.deliver, loopBody, hsel]
        split
        · next heq => exact absurd heq (handleBlock_not_ok hno).1
        · rfl
  · -- the block before is not confirmed
    have hbody : (loopBody S cfg env l.prev next l.state).1 ≠ .ok () ∧
        (loopBody S cfg env l.prev next l.state).2 = l.state ∧
        appendedBlock S cfg env l.prev next l.state = none := by
      unfold loopBody appendedBlock
      generalize selectBlock S cfg l.prev next = r at hsel
      cases r with
      | ok got => exact absurd rfl (hsel got)
      | throw e => exact ⟨nofun, rfl, rfl⟩
      | undef u => exact ⟨nofun, rfl, rfl⟩
      | outOfFuel => exact ⟨nofun, rfl, rfl⟩
    refine h.stop next rfl ?_ ?_ ?_
    · simp [Loop.deliver, hbody.2.2]
    · simp only [Loop.deliver]
      split
      · next heq => exact absurd heq hbody.1
      · rfl
    · intro k hk
      rw [Loop.deliver, hbody.2.1]
      exact hk

theorem oneBehind_step (hval : cfg.isValidate = true) {l l' : Loop} {event : LoopEvent}
    (h : l.OneBehind S) (hstep : l.step S cfg event = some l') : l'.OneBehind S := by
  cases Loop.step_case S cfg hstep with
  | doProcess => exact oneBehind_start _ _
  | block hon => exact oneBehind_deliver hval h hon _ _
  | noBlock => exact { h.toConfirmed with pending := nofun, stored := h.stored }
  | mainBlock => exact { h.toConfirmed with pending := h.pending, stored := h.stored }
  | restart => exact oneBehind_start _ _

/-- **Only confirmed blocks are appended.**  Whatever the block source, the workers and the database
    do, and from whatever chain, database and files a node that validates begins: at every moment the
    blocks appended since the last `doProcess` are the first ones that were delivered since then, in
    order and each once, without the last one, and each of them is confirmed by the next block that
    was delivered. -/
theorem appended_confirmed (hval : cfg.isValidate = true) (s : SyncState) (events : List LoopEvent)
    {l : Loop} (hrun : Loop.run S cfg { state := s } events = some l) : l.Confirmed S :=
  (Machine.runs_invariant (fun _ _ _ h hstep => oneBehind_step hval h hstep)
    (oneBehind_start s false) hrun).toConfirmed

end

/-- A node that validates, with an empty chain. -/
def validating : SyncConfig where
  modules := ⟨true, false, false, false⟩
  isValidate := true
  isSaveBlockToFiles := false

/-- A block, and one with a signature of it. -/
def signedPair : GotBlock × GotBlock :=
  (({ header := { hash := lit "0a", prevHash := BlockChain.genesisHash } }, []),
   ({ header := { hash := lit "0b", prevHash := lit "0a" },
      txs := [{ isSignBlockTx := true, data := [10] }] }, []))

/-- The block is appended when its signature is delivered. -/
theorem appended_confirmed_signedPair :
    ∃ l, Loop.run Sample.support validating
        { state := ⟨BlockChain.new, ∅, fun _ => none⟩ }
        [.doProcess true, .process (.block signedPair.1) {}, .process (.block signedPair.2) {}] =
          some l ∧
      l.appended.length = 1 ∧ l.Confirmed Sample.support := by
  have hrun : Loop.run Sample.support validating { state := ⟨BlockChain.new, ∅, fun _ => none⟩ }
      [.doProcess true, .process (.block signedPair.1) {}, .process (.block signedPair.2) {}] =
        some _ := rfl
  exact ⟨_, hrun, by decide +kernel, appended_confirmed rfl _ _ hrun⟩

end SyncImpl

end TorrentNode
