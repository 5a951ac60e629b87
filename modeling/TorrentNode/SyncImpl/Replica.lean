/-
  A node that follows other nodes.

  `Replica` puts the loop of `synchronize` and `NetworkBlockSource` together: `doProcess` is asked
  for the blocks behind the chain, and what `process` returns goes through the loop body.  The peers
  are honest (`HonestPeers`), or fail; saving, the workers and the database may fail too.

  `replica_follows`: in every run the chain of the node is the chain of the other nodes, up to
  some block: under each number there is the hash of their block with this number.
  `replicas_agree`: the chain of one of two such nodes is the beginning of the chain of the other.
-/
import TorrentNode.BlockSource.Replication
import TorrentNode.BlockchainRead.Safety
import TorrentNode.SyncImpl.Synchronize

open Wire Exec

namespace TorrentNode

open GetNewBlocksFromServer (Offer HonestPeers)
open NetworkBlockSource (SameLibs New Right Replies blockOf)
open Server (ServerEnv)

/-! ## Blocks of the source -/

theorem readNextBlockInfo_blockNumber {b : Buf} {L : Libs} {o : ReadOptions} {bi : BlockInfo}
    (h : readNextBlockInfo b L o = .ok bi) : bi.header.blockNumber = none := by
  obtain ⟨header, hheader, h⟩ := bind_eq_ok.1 h
  obtain ⟨bi', htxs, h⟩ := bind_eq_ok.1 h
  cases h
  have hnone : header.blockNumber = none := by
    obtain ⟨⟨blockType, curPos⟩, -, hheader⟩ := bind_eq_ok.1 hheader
    obtain ⟨⟨timestamp, curPos'⟩, -, hheader⟩ := bind_eq_ok.1 hheader
    obtain ⟨_, -, hheader⟩ := bind_eq_ok.1 hheader
    obtain ⟨prevHash, -, hheader⟩ := bind_eq_ok.1 hheader
    obtain ⟨_, -, hheader⟩ := bind_eq_ok.1 hheader
    obtain ⟨txsHash, -, hheader⟩ := bind_eq_ok.1 hheader
    cases hheader
    rfl
  obtain ⟨dump, -, htxs⟩ := bind_eq_ok.1 htxs
  obtain ⟨loop, -, htxs⟩ := bind_eq_ok.1 htxs
  obtain ⟨signature, -, htxs⟩ := bind_eq_ok.1 htxs
  cases htxs
  dsimp only
  split_ifs
  · exact hnone
  · exact hnone

theorem parseBlock_blockNumber {E : SourceEnv} {s : NetworkBlockSource}
    {header : MinimumBlockHeader} {dump : Bytes} {a : AdvancedBlock}
    (h : NetworkBlockSource.parseBlock E s header dump = .ok a) :
    a.bi.header.blockNumber = none := by
  obtain ⟨signBlock, -, h⟩ := bind_eq_ok.1 h
  obtain ⟨_, -, h⟩ := bind_eq_ok.1 h
  obtain ⟨buf, -, h⟩ := bind_eq_ok.1 h
  obtain ⟨bi, hbi, h⟩ := bind_eq_ok.1 h
  cases h
  have hnone := readNextBlockInfo_blockNumber hbi
  exact hnone

namespace SyncImpl

/-! ## The node with its source -/

structure Replica where
  loop : Loop
  source : NetworkBlockSource

inductive ReplicaAction where
  | doProcess (lastBlock : LastBlockResponse)
  | process (calls : ℕ → P2PCalls × P2PCalls) (env : PassEnv)
  /-- the thread of `WorkerMain` writes to the database -/
  | mainBlock (value : Bytes)

section
variable (S : Support) (cfg : SyncConfig) (E : SourceEnv)

/-- Whether `doProcess` has announced blocks. -/
def isContinueOf : Exec Exn (Bool × ℕ) → Bool
  | .ok (isContinue, _) => isContinue
  | _ => false

/-- The loop asks the source; there is no step behind undefined behaviour. -/
def replicaStep (r : Replica) : ReplicaAction → Option Replica
  | .doProcess lastBlock =>
    let (answer, source) := r.source.doProcess r.loop.state.blockchain.countBlocks lastBlock
    (r.loop.step S cfg (.doProcess (isContinueOf answer))).map fun loop => ⟨loop, source⟩
  | .process calls env =>
    match NetworkBlockSource.process E r.source calls with
    | (.ok (some got), source) =>
      (r.loop.step S cfg (.process (.block got) env)).map fun loop => ⟨loop, source⟩
    | (.ok none, source) =>
      (r.loop.step S cfg (.process .stopped env)).map fun loop => ⟨loop, source⟩
    | (.throw e, source) =>
      (r.loop.step S cfg (.process (.throws e) env)).map fun loop => ⟨loop, source⟩
    | _ => none
  | .mainBlock value => (r.loop.step S cfg (.mainBlock value)).map fun loop => ⟨loop, r.source⟩

end

/-- The peers are honest, and the blocks that are announced can be asked for. -/
def HonestAction (V : ServerEnv) (O : Offer) (r : Replica) : ReplicaAction → Prop
  | .doProcess lastBlock => NetworkBlockSource.Honest V O r.source
    (.doProcess r.loop.state.blockchain.countBlocks lastBlock)
  | .process calls _ => NetworkBlockSource.Honest V O r.source (.process calls)
  | .mainBlock _ => True

/-! ## What is known of the chain -/

/-- Block `n` of the nodes, as the source `s` delivers it. -/
def NodeBlock (E : SourceEnv) (s : NetworkBlockSource) (O : Offer) (n : ℕ) (got : GotBlock) :
    Prop :=
  ∃ a, blockOf E s O n = .ok a ∧ got = (a.bi, a.dump)

/-- The hashes behind the genesis block are those of the blocks of the nodes. -/
def FollowsChain (E : SourceEnv) (s : NetworkBlockSource) (O : Offer) (c : BlockChain) : Prop :=
  ∀ n hash, n ≠ 0 → c.hashes[n]? = some hash →
    ∃ got, NodeBlock E s O n got ∧ got.1.header.hash = hash

/-- Where the source stands while it is asked: at the block behind the chain, or, if the node
    validates and has a block that is to be confirmed, behind this block. -/
def AtNext (E : SourceEnv) (s : NetworkBlockSource) (O : Offer) (isValidate : Bool) (next : ℕ)
    (l : Loop) : Prop :=
  match isValidate, l.prev with
  | true, some prev => next = l.state.blockchain.hashes.length + 1 ∧
    NodeBlock E s O l.state.blockchain.hashes.length prev
  | _, _ => next = l.state.blockchain.hashes.length

/-- What holds between two steps of a node that was started with the source `s₀`. -/
structure Follows (E : SourceEnv) (s₀ : NetworkBlockSource) (O : Offer) (isValidate : Bool)
    (r : Replica) : Prop where
  inv : r.loop.state.blockchain.Inv
  chain : FollowsChain E s₀ O r.loop.state.blockchain
  same : ∀ n, blockOf E r.source O n = blockOf E s₀ O n
  sound : NetworkBlockSource.Sound E O r.source
  asked : r.loop.isContinue = true → r.source.nextBlockToRead ≠ 0 ∧
    AtNext E s₀ O isValidate r.source.nextBlockToRead r.loop

section
variable {S : Support} {cfg : SyncConfig} {E : SourceEnv} {V : ServerEnv} {lz4 : Lz4} {O : Offer}
  {s₀ : NetworkBlockSource}

theorem NodeBlock.blockNumber {n : ℕ} {got : GotBlock} (h : NodeBlock E s₀ O n got) :
    got.1.header.blockNumber = none := by
  obtain ⟨a, ha, rfl⟩ := h
  exact parseBlock_blockNumber ha

/-- The next block of the nodes is appended. -/
theorem FollowsChain.append {c : BlockChain} (h : FollowsChain E s₀ O c) {got : GotBlock}
    (hgot : NodeBlock E s₀ O c.hashes.length got) {c' : BlockChain}
    (hc' : c'.hashes = c.hashes ++ [got.1.header.hash]) : FollowsChain E s₀ O c' := by
  intro n hash h0 hn
  rw [hc'] at hn
  rcases Nat.lt_or_ge n c.hashes.length with hlt | hge
  · rw [List.getElem?_append_left hlt] at hn
    exact h n hash h0 hn
  · have hlt := (List.getElem?_eq_some_iff.1 hn).1
    rw [List.length_append, List.length_singleton] at hlt
    obtain rfl : n = c.hashes.length := by omega
    rw [List.getElem?_concat_length] at hn
    exact ⟨got, hgot, Option.some.inj hn⟩

/-- A pass appends its block, or leaves the chain and fails. -/
theorem handleBlock_grows (cfg : SyncConfig) (env : PassEnv) {got : GotBlock} {s : SyncState}
    (hinv : s.blockchain.Inv) (hnew : got.1.header.blockNumber = none) :
    (handleBlock cfg env got s).2.blockchain.Inv ∧
      ((handleBlock cfg env got s).2.blockchain.hashes =
          s.blockchain.hashes ++ [got.1.header.hash] ∨
        (handleBlock cfg env got s).2.blockchain = s.blockchain ∧
          (handleBlock cfg env got s).1 ≠ .ok ()) := by
  have hfail : (∀ bi, (appendBlock cfg env.users got s).1 ≠ .ok bi) →
      (handleBlock cfg env got s).1 ≠ .ok () := fun h => (handleBlock_not_ok h).1
  rw [(handleBlock_state env got s).1]
  have hcase := appendBlock_case cfg env.users got s
  generalize appendBlock cfg env.users got s = result at hcase hfail ⊢
  cases hcase with
  | notFiltered _ hr => exact ⟨hinv, Or.inr ⟨rfl, hfail hr⟩⟩
  | notSaved _ _ hr => exact ⟨hinv, Or.inr ⟨rfl, hfail hr⟩⟩
  | @rejected bi bi' files r r' blockchain hf hs hadd hr hr' =>
    have hb : bi'.header.blockNumber = none := by rw [header_appended hf hs]; exact hnew
    rcases BlockChain.addBlock_spec hinv.numbered hb with ⟨-, hok⟩ | ⟨-, message, hthrow⟩
    · rw [hadd] at hok
      exact absurd (congrArg Prod.fst hok) (hr _ (Nat.ne_of_gt hinv.length_pos))
    · obtain rfl : blockchain = s.blockchain := congrArg Prod.snd (hadd.symm.trans hthrow)
      exact ⟨hinv, Or.inr ⟨rfl, hfail hr'⟩⟩
  | @accepted bi bi' files n blockchain hf hs hadd hn =>
    have hheader := header_appended hf hs
    have hb : bi'.header.blockNumber = none := by rw [hheader]; exact hnew
    obtain ⟨haccepts, hok⟩ := BlockChain.addBlock_of_ok hinv.numbered hb (congrArg Prod.fst hadd)
    obtain rfl : blockchain = s.blockchain.append bi'.header :=
      congrArg Prod.snd (hadd.symm.trans hok)
    refine ⟨BlockChain.inv_append hinv haccepts, Or.inl ?_⟩
    show s.blockchain.hashes ++ [bi'.header.hash] = _
    rw [hheader]

/-! ## One block -/

theorem selectBlock_plain (hval : cfg.isValidate = false) (prev : Option GotBlock)
    (next : GotBlock) : selectBlock S cfg prev next = .ok (some next) := by
  cases prev <;> simp [selectBlock, hval]

/-- The selected block is the one behind the chain. -/
theorem deliver_select (S : Support) (env : PassEnv) {l : Loop} {next got : GotBlock}
    (hinv : l.state.blockchain.Inv) (hchain : FollowsChain E s₀ O l.state.blockchain)
    (hgot : NodeBlock E s₀ O l.state.blockchain.hashes.length got)
    (hsel : selectBlock S cfg l.prev next = .ok (some got)) :
    let l' := l.deliver S cfg env next
    l'.state.blockchain.Inv ∧ FollowsChain E s₀ O l'.state.blockchain ∧
      (l'.isContinue = true →
        l'.state.blockchain.hashes.length = l.state.blockchain.hashes.length + 1) := by
  intro l'
  have hl' : l' = l.deliver S cfg env next := rfl
  rw [Loop.deliver, loopBody, hsel] at hl'
  dsimp only at hl'
  obtain ⟨hinv', hgrows⟩ := handleBlock_grows cfg env hinv hgot.blockNumber
  rw [hl']
  refine ⟨hinv', ?_, fun hon => ?_⟩
  · rcases hgrows with happend | ⟨hkept, -⟩
    · exact hchain.append hgot happend
    · rw [hkept]
      exact hchain
  · rcases hgrows with happend | ⟨-, hfail⟩
    · rw [happend, List.length_append, List.length_singleton]
    · dsimp only at hon
      split at hon
      · next hok => exact absurd hok hfail
      · cases hon

/-- Without a selected block the chain stays. -/
theorem deliver_wait (S : Support) (cfg : SyncConfig) (l : Loop) (env : PassEnv) (next : GotBlock)
    (hsel : ∀ got, selectBlock S cfg l.prev next ≠ .ok (some got)) :
    (l.deliver S cfg env next).state = l.state ∧ ((l.deliver S cfg env next).isContinue = true →
      selectBlock S cfg l.prev next = .ok none) := by
  rw [Loop.deliver, loopBody]
  split
  · next hnone => exact ⟨rfl, fun _ => hnone⟩
  · next got hsome => exact absurd hsome (hsel got)
  · next hno _ =>
    refine ⟨rfl, fun hon => ?_⟩
    dsimp only at hon
    split at hon
    · next hok =>
      obtain ⟨got, hgot, -⟩ := bind_eq_ok.1 hok
      cases got with
      | none => exact absurd hgot hno
      | some got => exact absurd hgot (hsel got)
    · cases hon

/-- **A delivered block** keeps the node behind the others. -/
theorem follows_deliver {r : Replica} (h : Follows E s₀ O cfg.isValidate r)
    (hon : r.loop.isContinue = true) (env : PassEnv) {next : GotBlock}
    (hnext : NodeBlock E s₀ O r.source.nextBlockToRead next) {source : NetworkBlockSource}
    (hsame : ∀ n, blockOf E source O n = blockOf E s₀ O n)
    (hsound : NetworkBlockSource.Sound E O source)
    (hnumber : source.nextBlockToRead = r.source.nextBlockToRead + 1) :
    Follows E s₀ O cfg.isValidate ⟨r.loop.deliver S cfg env next, source⟩ := by
  obtain ⟨-, hat⟩ := h.asked hon
  have hsource : source.nextBlockToRead ≠ 0 := by
    rw [hnumber]
    exact Nat.succ_ne_zero _
  cases hval : cfg.isValidate with
  | false =>
    have hat : r.source.nextBlockToRead = r.loop.state.blockchain.hashes.length := by
      rw [hval] at hat
      exact hat
    rw [hat] at hnext
    obtain ⟨hinv, hchain, hlength⟩ := deliver_select S env h.inv h.chain hnext
      (selectBlock_plain hval r.loop.prev next)
    refine ⟨hinv, hchain, hsame, hsound, fun hon' => ⟨hsource, ?_⟩⟩
    show source.nextBlockToRead = _
    rw [hnumber, hat, hlength hon']
  | true =>
    rcases selectBlock_validate (S := S) hval r.loop.prev next with
      ⟨hprev, hsel⟩ | ⟨B, hprev, hsel, -⟩ | ⟨B, hprev, hsel⟩
    · have hat : r.source.nextBlockToRead = r.loop.state.blockchain.hashes.length := by
        simpa only [hval, AtNext, hprev] using hat
      obtain ⟨hstate, -⟩ := deliver_wait S cfg r.loop env next
        (fun got hgot => by rw [hsel] at hgot; cases hgot)
      refine ⟨?_, ?_, hsame, hsound, fun hon' => ⟨hsource, ?_⟩⟩
      · rw [hstate]
        exact h.inv
      · rw [hstate]
        exact h.chain
      · show source.nextBlockToRead = _ ∧ NodeBlock E s₀ O _ next
        rw [hstate, hnumber, hat]
        exact ⟨rfl, hat ▸ hnext⟩
    · obtain ⟨hat, hB⟩ : r.source.nextBlockToRead = r.loop.state.blockchain.hashes.length + 1 ∧
          NodeBlock E s₀ O r.loop.state.blockchain.hashes.length B := by
        simpa only [hval, AtNext, hprev] using hat
      obtain ⟨hinv, hchain, hlength⟩ := deliver_select S env h.inv h.chain hB hsel
      refine ⟨hinv, hchain, hsame, hsound, fun hon' => ⟨hsource, ?_⟩⟩
      show source.nextBlockToRead = _ ∧ NodeBlock E s₀ O _ next
      rw [hlength hon', hnumber, hat]
      exact ⟨rfl, hat ▸ hnext⟩
    · obtain ⟨hstate, hwait⟩ := deliver_wait S cfg r.loop env next
        (fun got => hsel (some got))
      refine ⟨?_, ?_, hsame, hsound, fun hon' => absurd (hwait hon') (hsel none)⟩
      · rw [hstate]
        exact h.inv
      · rw [hstate]
        exact h.chain

/-! ## All steps -/

theorem blockOf_doProcess (s : NetworkBlockSource) (countBlocks : ℕ) (lastBlock : LastBlockResponse)
    (n : ℕ) : blockOf E (s.doProcess countBlocks lastBlock).2 O n = blockOf E s O n := by
  rw [NetworkBlockSource.doProcess]
  dsimp only
  split <;> rfl

theorem nextBlockToRead_doProcess (s : NetworkBlockSource) (countBlocks : ℕ)
    (lastBlock : LastBlockResponse) :
    (s.doProcess countBlocks lastBlock).2.nextBlockToRead = countBlocks + 1 := by
  rw [NetworkBlockSource.doProcess]
  dsimp only
  split <;> rfl

/-- `process` is asked while there are blocks. -/
theorem replicaStep_process {r r' : Replica} {calls : ℕ → P2PCalls × P2PCalls} {env : PassEnv}
    (h : replicaStep S cfg E r (.process calls env) = some r') : r.loop.isContinue = true ∧
      NetworkBlockSource.Defined (NetworkBlockSource.process E r.source calls).1 := by
  rw [replicaStep] at h
  rcases hprocess : NetworkBlockSource.process E r.source calls with ⟨(_ | got) | e | u | _, source⟩ <;>
    rw [hprocess] at h
  · obtain ⟨loop, hloop, -⟩ := Option.map_eq_some_iff.1 h
    cases Loop.step_case S cfg hloop with
    | noBlock hon => exact ⟨hon, trivial⟩
  · obtain ⟨loop, hloop, -⟩ := Option.map_eq_some_iff.1 h
    cases Loop.step_case S cfg hloop with
    | block hon => exact ⟨hon, trivial⟩
    | noBlock hon => exact ⟨hon, trivial⟩
  · obtain ⟨loop, hloop, -⟩ := Option.map_eq_some_iff.1 h
    cases Loop.step_case S cfg hloop with
    | noBlock hon => exact ⟨hon, trivial⟩
  · cases h
  · cases h

/-- A step of a node with honest peers. -/
theorem follows_step (hlibs : SameLibs E V lz4) {r r' : Replica} {action : ReplicaAction}
    (h : Follows E s₀ O cfg.isValidate r) (hhonest : HonestAction V O r action)
    (hstep : replicaStep S cfg E r action = some r') : Follows E s₀ O cfg.isValidate r' := by
  cases action with
  | doProcess lastBlock =>
    rw [replicaStep] at hstep
    obtain ⟨loop, hloop, rfl⟩ := Option.map_eq_some_iff.1 hstep
    have hpos := h.inv.length_pos
    have hright := NetworkBlockSource.right_doProcess h.sound r.loop.state.blockchain.countBlocks
      hhonest
    cases Loop.step_case S cfg hloop with
    | doProcess hoff =>
      refine ⟨h.inv, h.chain, fun n => ?_, hright.toSound, fun _ => ⟨hright.next_ne, ?_⟩⟩
      · exact (blockOf_doProcess _ _ _ n).trans (h.same n)
      · have hnext : r.loop.state.blockchain.countBlocks + 1 =
            r.loop.state.blockchain.hashes.length := by
          rw [BlockChain.countBlocks]
          omega
        cases cfg.isValidate <;> exact (nextBlockToRead_doProcess _ _ _).trans hnext
  | process calls env =>
    obtain ⟨hon, hdefined⟩ := replicaStep_process hstep
    obtain ⟨hright, hreplies⟩ := NetworkBlockSource.process_honest hlibs ⟨h.sound, (h.asked hon).1⟩
      hhonest hdefined
    rw [replicaStep] at hstep
    generalize NetworkBlockSource.process E r.source calls = result at hstep hright hreplies
    cases hreplies with
    | deliver a hle hblock =>
      obtain ⟨loop, hloop, rfl⟩ := Option.map_eq_some_iff.1 hstep
      cases Loop.step_case S cfg hloop with
      | block =>
        have hnext : NodeBlock E s₀ O r.source.nextBlockToRead (a.bi, a.dump) :=
          ⟨a, (h.same _).symm.trans hblock, rfl⟩
        exact follows_deliver h hon env hnext h.same hright.toSound rfl
      | noBlock _ hno => exact absurd rfl (hno _)
    | finish hlt =>
      obtain ⟨loop, hloop, rfl⟩ := Option.map_eq_some_iff.1 hstep
      cases Loop.step_case S cfg hloop with
      | noBlock => exact ⟨h.inv, h.chain, h.same, hright.toSound, fun hon => by cases hon⟩
    | fail e hle =>
      obtain ⟨loop, hloop, rfl⟩ := Option.map_eq_some_iff.1 hstep
      cases Loop.step_case S cfg hloop with
      | noBlock => exact ⟨h.inv, h.chain, h.same, hright.toSound, fun hon => by cases hon⟩
  | mainBlock value =>
    rw [replicaStep] at hstep
    obtain ⟨loop, hloop, rfl⟩ := Option.map_eq_some_iff.1 hstep
    cases Loop.step_case S cfg hloop with
    | mainBlock => exact ⟨h.inv, h.chain, h.same, h.sound, h.asked⟩

/-- A run of a node from a start-up on; what it has loaded follows the other nodes. -/
structure ReplicaRun (S : Support) (cfg : SyncConfig) (E : SourceEnv) (V : ServerEnv) (O : Offer)
    (r₀ r : Replica) (actions : List ReplicaAction) : Prop where
  new : New E r₀.source
  stopped : r₀.loop.isContinue = false
  inv : r₀.loop.state.blockchain.Inv
  chain : FollowsChain E r₀.source O r₀.loop.state.blockchain
  honest : Machine.Along (replicaStep S cfg E) (HonestAction V O) r₀ actions
  run : Machine.runs (replicaStep S cfg E) r₀ actions = some r

section
variable {r₀ r : Replica} {actions : List ReplicaAction}

theorem ReplicaRun.follows (h : ReplicaRun S cfg E V O r₀ r actions) (hlibs : SameLibs E V lz4) :
    Follows E r₀.source O cfg.isValidate r := by
  have hstart : Follows E r₀.source O cfg.isValidate r₀ := by
    refine ⟨h.inv, h.chain, fun _ => rfl, h.new.sound O, fun hon => ?_⟩
    rw [h.stopped] at hon
    cases hon
  exact Machine.runs_invariant_along (fun _ _ _ => follows_step hlibs) hstart h.honest h.run

end

end

/-! ## Two nodes -/

section
variable {E E' : SourceEnv} {O : Offer} {s s' : NetworkBlockSource}

/-- The hash of a block is computed from its dump. -/
theorem blockOf_hash {n : ℕ} {a : AdvancedBlock} (h : blockOf E s O n = .ok a) :
    ∃ signBlock, NetworkBlockSource.openDump E s.isVerifySign (O.dump (O.hash n)) = .ok signBlock ∧
      a.bi.header.hash =
        E.libs.support.toHex (getDoubleSha256 E.libs.crypto signBlock.block).1 := by
  obtain ⟨signBlock, hopen, h⟩ := bind_eq_ok.1 h
  obtain ⟨_, -, h⟩ := bind_eq_ok.1 h
  obtain ⟨buf, hbuf, h⟩ := bind_eq_ok.1 h
  obtain ⟨bi, hbi, h⟩ := bind_eq_ok.1 h
  have hhash := NetworkBlockSource.readNextBlockInfo_hash hbi
  rw [NetworkBlockSource.vector_bytes hbuf] at hhash
  cases h
  exact ⟨signBlock, hopen, hhash⟩

/-- Two nodes with the same libraries find the same hash. -/
theorem NodeBlock.hash_eq (hlibs : E.libs = E'.libs) (hsign : s.isVerifySign = s'.isVerifySign) {n : ℕ}
    {got got' : GotBlock} (h : NodeBlock E s O n got) (h' : NodeBlock E' s' O n got') :
    got.1.header.hash = got'.1.header.hash := by
  obtain ⟨a, ha, rfl⟩ := h
  obtain ⟨a', ha', rfl⟩ := h'
  obtain ⟨signBlock, hopen, hhash⟩ := blockOf_hash ha
  obtain ⟨signBlock', hopen', hhash'⟩ := blockOf_hash ha'
  have hdump : NetworkBlockSource.openDump E s.isVerifySign (O.dump (O.hash n)) =
      NetworkBlockSource.openDump E' s'.isVerifySign (O.dump (O.hash n)) := by
    rw [NetworkBlockSource.openDump, NetworkBlockSource.openDump, hlibs, hsign]
  obtain rfl : signBlock = signBlock' := Exec.ok.inj (hopen.symm.trans (hdump.trans hopen'))
  show a.bi.header.hash = a'.bi.header.hash
  rw [hhash, hhash', hlibs]

/-- The shorter chain is the beginning of the longer one. -/
theorem FollowsChain.prefix_of_le (hlibs : E.libs = E'.libs) (hsign : s.isVerifySign = s'.isVerifySign)
    {c c' : BlockChain} (hc : c.Inv) (hc' : c'.Inv) (h : FollowsChain E s O c)
    (h' : FollowsChain E' s' O c') (hle : c.hashes.length ≤ c'.hashes.length) :
    c.hashes <+: c'.hashes := by
  refine List.prefix_iff_getElem?.2 fun i hi => ?_
  have hget : c.hashes[i]? = some c.hashes[i] := List.getElem?_eq_getElem hi
  have hget' : c'.hashes[i]? = some c'.hashes[i] := List.getElem?_eq_getElem (by omega)
  rcases Nat.eq_zero_or_pos i with rfl | hpos
  · rw [hc'.genesis, ← hc.genesis, hget]
  · obtain ⟨got, hgot, hhash⟩ := h i _ (by omega) hget
    obtain ⟨got', hgot', hhash'⟩ := h' i _ (by omega) hget'
    rw [hget', ← hhash, ← hhash', hgot.hash_eq hlibs hsign hgot']

end

/-! ## One block -/

open NetworkBlockSource (nodePeers literalsServer oneNode oneNode_heldBy literalsEnv plainSource oneOffer
  oneOffer_sendable honestPeers_nodePeers sameLibs_literals new_plainSource)

/-- A node without blocks. -/
def newReplica : Replica where
  loop := { state := { blockchain := BlockChain.new, leveldb := ∅, files := fun _ => none } }
  source := plainSource

/-- It saves the headers only. -/
def plainConfig : SyncConfig where
  modules := ⟨false, false, false, false⟩
  isValidate := false
  isSaveBlockToFiles := false

/-- A block is announced and loaded from the node that has it. -/
def oneActions : List ReplicaAction :=
  [.doProcess { lastBlock := 1, servers := [lit "peer"], error := none },
   .process (fun _ => (nodePeers literalsServer oneNode,
     nodePeers literalsServer oneNode)) {}]

theorem runs_oneActions :
    ∃ r, Machine.runs (replicaStep Sample.support plainConfig literalsEnv) newReplica oneActions =
      some r ∧ r.loop.state.blockchain.countBlocks = 1 := by
  have hcount : (Machine.runs (replicaStep Sample.support plainConfig literalsEnv) newReplica
      oneActions).map (fun r => r.loop.state.blockchain.countBlocks) = some 1 := by decide +kernel
  exact Option.map_eq_some_iff.1 hcount

theorem followsChain_newReplica :
    FollowsChain literalsEnv newReplica.source oneOffer newReplica.loop.state.blockchain := by
  intro n hash h0 hn
  have hlt : n < 1 := (List.getElem?_eq_some_iff.1 hn).1
  omega

theorem replicaRun_oneActions {r : Replica}
    (hrun : Machine.runs (replicaStep Sample.support plainConfig literalsEnv) newReplica oneActions =
      some r) :
    ReplicaRun Sample.support plainConfig literalsEnv literalsServer oneOffer newReplica r oneActions := by
  have hpeers := honestPeers_nodePeers (S := literalsServer) oneNode_heldBy
  refine ⟨new_plainSource, rfl, BlockChain.inv_new, followsChain_newReplica, ?_, hrun⟩
  refine ⟨fun _ => oneOffer_sendable, fun r' hstep => ⟨?_, fun _ _ => trivial⟩⟩
  obtain rfl := Option.some.inj hstep
  exact fun _ => ⟨hpeers, hpeers⟩

end SyncImpl

end TorrentNode
