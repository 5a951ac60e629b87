/-
  A block source whose peers have the blocks.

  `process` loads up to eight blocks and delivers the first one; the others wait.  With honest
  peers what waits is the block of the nodes under its number, or an exception, and a call that
  fails leaves the caches right.

  `process_replicates`: in every run, whatever fails, a block that is delivered is the next block
  of the nodes, read from the dump that they have.
-/
import TorrentNode.BlockSource.Delivery
import TorrentNode.BlockSource.HonestPeers

open Wire Exec

namespace TorrentNode

open GetNewBlocksFromServer
open Server (ServerEnv)

namespace NetworkBlockSource

/-! ## The assumptions -/

/-- The client and the nodes use the same libraries. -/
structure SameLibs (E : SourceEnv) (S : ServerEnv) (lz4 : Lz4) : Prop where
  json : E.client.json = S.json
  compress : S.compress = lz4.compress
  decompress : E.client.decompress = lz4.decompress
  lawful : lz4.Lawful
  bounded : lz4.Bounded

/-- A getter that can load the blocks up to `last`. -/
structure Loads (E : SourceEnv) (O : Offer) (isSign : Bool) (last : ℕ) (g : Getter) : Prop where
  noneAlone : g.NoneAlone
  fuel : g.countBlocksInBatch < E.client.fuel
  sendable : O.Sendable isSign g.isCompress last

/-- What the reader makes of block `n` of the nodes. -/
def blockOf (E : SourceEnv) (s : NetworkBlockSource) (O : Offer) (n : ℕ) : Exec Exn AdvancedBlock :=
  parseBlock E s (O.header n).minimum (O.dump (O.hash n))

/-- A block that was loaded: the one of the nodes, or an exception. -/
def FromNodes (E : SourceEnv) (s : NetworkBlockSource) (O : Offer) (n : ℕ)
    (r : Except Exn AdvancedBlock) : Prop :=
  n ≠ 0 ∧ n ≤ s.lastBlockInBlockchain ∧ ∀ a, r = .ok a → blockOf E s O n = .ok a

/-- A source that has loaded nothing else. -/
structure Sound (E : SourceEnv) (O : Offer) (s : NetworkBlockSource) : Prop where
  loads : Loads E O s.isVerifySign s.lastBlockInBlockchain s.getterBlocks
  caches : s.getterBlocks.Caches O s.lastBlockInBlockchain
  window : ∀ n r, (n, r) ∈ s.advancedBlocks → FromNodes E s O n r

/-- A source behind a `doProcess`: the genesis block is not asked for. -/
structure Right (E : SourceEnv) (O : Offer) (s : NetworkBlockSource) : Prop
    extends Sound E O s where
  next_ne : s.nextBlockToRead ≠ 0

/-- What a call of `process` does. -/
inductive Replies (E : SourceEnv) (O : Offer) (s : NetworkBlockSource) :
    Outcome × NetworkBlockSource → Prop where
  /-- the next block of the nodes is delivered -/
  | deliver {g advanced} (a : AdvancedBlock) (hle : s.nextBlockToRead ≤ s.lastBlockInBlockchain)
      (h : blockOf E s O s.nextBlockToRead = .ok a) : Replies E O s (.ok (some (a.bi, a.dump)),
        { s.withBlocks g advanced with nextBlockToRead := s.nextBlockToRead + 1 })
  /-- all blocks are delivered -/
  | finish (hlt : s.lastBlockInBlockchain < s.nextBlockToRead) : Replies E O s (.ok none, s)
  | fail {g advanced} (e : Exn) (hle : s.nextBlockToRead ≤ s.lastBlockInBlockchain) :
      Replies E O s (.throw e, s.withBlocks g advanced)

/-! ## Loading -/

section
variable {E : SourceEnv} {S : ServerEnv} {lz4 : Lz4} {O : Offer} {s : NetworkBlockSource}

theorem Loads.of_clear {isSign : Bool} {last : ℕ} {g g' : Getter} (h : Loads E O isSign last g)
    (hsame : g'.clearAdvanced = g.clearAdvanced) : Loads E O isSign last g' := by
  have hbatch : g'.clearAdvanced.countBlocksInBatch = g.countBlocksInBatch := by
    rw [hsame, Getter.clearAdvanced]
  have hcompress : g'.clearAdvanced.isCompress = g.isCompress := by
    rw [hsame, Getter.clearAdvanced]
  rw [Getter.clearAdvanced] at hbatch hcompress
  refine ⟨h.noneAlone.of_clear hsame, ?_, ?_⟩
  · rw [hbatch]
    exact h.fuel
  · rw [hcompress]
    exact h.sendable

section
variable (hlibs : SameLibs E S lz4)
include hlibs

/-- A block that is loaded from honest peers. -/
theorem loadBlock_honest {g : Getter}
    (hloads : Loads E O s.isVerifySign s.lastBlockInBlockchain g)
    (hcaches : g.Caches O s.lastBlockInBlockchain) {p2p : P2PCalls × P2PCalls}
    (hheader : HonestPeers S O s.isVerifySign s.lastBlockInBlockchain p2p.1)
    (hdump : HonestPeers S O s.isVerifySign s.lastBlockInBlockchain p2p.2)
    {n : ℕ} (h0 : n ≠ 0) (hle : n ≤ s.lastBlockInBlockchain) :
    let r := loadBlock E s g p2p n
    r.2.Caches O s.lastBlockInBlockchain ∧ r.2.clearAdvanced = g.clearAdvanced ∧
      ∀ header dump, r.1 = .ok (.ok (header, dump)) →
        header = (O.header n).minimum ∧ dump = O.dump (O.hash n) := by
  intro r
  have hr : r = loadBlock E s g p2p n := rfl
  obtain ⟨hcaches', hsame, hvalue⟩ := getBlockHeader_honest hloads.sendable hheader
    hloads.noneAlone h0 hle hcaches (s.servers.headD [])
  rw [← hlibs.json] at hcaches' hsame hvalue
  rw [loadBlock] at hr
  split at hr
  · next header g' hget =>
    rw [hget] at hcaches' hsame hvalue
    obtain rfl := hvalue header rfl
    have hloads' := hloads.of_clear hsame
    obtain ⟨hcaches'', hsame', hvalue'⟩ := getBlockDump_honest hlibs.lawful hlibs.bounded
      hlibs.compress hlibs.decompress hloads'.fuel hloads'.sendable hdump hloads'.noneAlone
      hcaches' h0 hle s.servers
    rw [hr]
    refine ⟨hcaches'', hsame'.trans hsame, fun header dump h => ?_⟩
    obtain ⟨dump', hdump', heq⟩ := bind_eq_ok.1 (attempt_eq_ok.1 h)
    obtain ⟨rfl, rfl⟩ := Prod.mk.inj (Exec.ok.inj heq)
    exact ⟨rfl, hvalue' _ hdump'⟩
  · next result g' hne hget =>
    rw [hget] at hcaches' hsame
    rw [hr]
    refine ⟨hcaches', hsame, fun header dump h => ?_⟩
    obtain ⟨header', hheader', -⟩ := bind_eq_ok.1 (attempt_eq_ok.1 h)
    exact absurd hheader' (hne header')

/-- Blocks that are loaded one after another. -/
theorem loadBlocks_honest {calls : ℕ → P2PCalls × P2PCalls}
    (hcalls : ∀ n, HonestPeers S O s.isVerifySign s.lastBlockInBlockchain (calls n).1 ∧
      HonestPeers S O s.isVerifySign s.lastBlockInBlockchain (calls n).2)
    {blocks : List ℕ} (hblocks : ∀ n ∈ blocks, n ≠ 0 ∧ n ≤ s.lastBlockInBlockchain) {g : Getter}
    (hloads : Loads E O s.isVerifySign s.lastBlockInBlockchain g)
    (hcaches : g.Caches O s.lastBlockInBlockchain) :
    let r := loadBlocks E s calls blocks g
    r.2.Caches O s.lastBlockInBlockchain ∧ r.2.clearAdvanced = g.clearAdvanced ∧
      ∀ loaded, r.1 = .ok loaded → ∀ p ∈ loaded, ∀ header dump, p.2 = .ok (header, dump) →
        header = (O.header p.1).minimum ∧ dump = O.dump (O.hash p.1) := by
  induction blocks generalizing g with
  | nil =>
    refine ⟨hcaches, rfl, fun loaded h p hp => ?_⟩
    rw [← Exec.ok.inj h] at hp
    cases hp
  | cons n blocks ih =>
    intro r
    have hr : r = loadBlocks E s calls (n :: blocks) g := rfl
    obtain ⟨h0, hle⟩ := hblocks n List.mem_cons_self
    obtain ⟨hcaches', hsame, hvalue⟩ := loadBlock_honest hlibs hloads hcaches (hcalls n).1
      (hcalls n).2 h0 hle
    rw [loadBlocks] at hr
    split at hr
    · next block g' hblock =>
      rw [hblock] at hcaches' hsame hvalue
      obtain ⟨hcaches'', hsame', hrest⟩ := ih (fun m hm => hblocks m (List.mem_cons_of_mem _ hm))
        (hloads.of_clear hsame) hcaches'
      rw [hr]
      refine ⟨hcaches'', hsame'.trans hsame, fun loaded h p hp header dump hp2 => ?_⟩
      obtain ⟨loaded', hloaded, heq⟩ := bind_eq_ok.1 h
      obtain rfl := Exec.ok.inj heq
      rcases List.mem_cons.1 hp with rfl | hp
      · exact hvalue header dump (congrArg Exec.ok hp2)
      · exact hrest loaded' hloaded p hp header dump hp2
    · next result g' hne hblock =>
      rw [hblock] at hcaches' hsame
      rw [hr]
      refine ⟨hcaches', hsame, fun loaded h => ?_⟩
      obtain ⟨block, hresult, -⟩ := bind_eq_ok.1 h
      exact absurd hresult (hne block)

end

/-- A block is parsed from what was loaded. -/
theorem parseAdvanced_honest {p : ℕ × Except Exn (MinimumBlockHeader × Bytes)}
    {q : ℕ × Except Exn AdvancedBlock} (h : parseAdvanced E s p = .ok q)
    (hp : p.1 ≠ 0 ∧ p.1 ≤ s.lastBlockInBlockchain)
    (hvalue : ∀ header dump, p.2 = .ok (header, dump) →
      header = (O.header p.1).minimum ∧ dump = O.dump (O.hash p.1)) : FromNodes E s O q.1 q.2 := by
  rcases p with ⟨n, e | ⟨header, dump⟩⟩
  · cases h
    exact ⟨hp.1, hp.2, fun a h => by cases h⟩
  · obtain ⟨rfl, rfl⟩ : header = (O.header n).minimum ∧ dump = O.dump (O.hash n) :=
      hvalue header dump rfl
    obtain ⟨advanced, hadvanced, heq⟩ := bind_eq_ok.1 h
    obtain rfl := Exec.ok.inj heq
    refine ⟨hp.1, hp.2, fun a h => ?_⟩
    obtain rfl : advanced = .ok a := h
    exact attempt_eq_ok.1 hadvanced

/-- The blocks that wait are the ones of the nodes. -/
theorem mapM_parseAdvanced_honest {loaded : List (ℕ × Except Exn (MinimumBlockHeader × Bytes))}
    {advanced : List (ℕ × Except Exn AdvancedBlock)}
    (h : loaded.mapM (parseAdvanced E s) = .ok advanced)
    (hloaded : ∀ p ∈ loaded, (p.1 ≠ 0 ∧ p.1 ≤ s.lastBlockInBlockchain) ∧
      ∀ header dump, p.2 = .ok (header, dump) →
        header = (O.header p.1).minimum ∧ dump = O.dump (O.hash p.1)) :
    ∀ q ∈ advanced, FromNodes E s O q.1 q.2 := by
  have hparsed := mapM_eq_ok.1 h
  clear h
  induction hparsed with
  | nil => exact fun q hq => by cases hq
  | cons hparse _ ih =>
    intro q hq
    obtain ⟨hp, hvalue⟩ := hloaded _ List.mem_cons_self
    rcases List.mem_cons.1 hq with rfl | hq
    · exact parseAdvanced_honest hparse hp hvalue
    · exact ih (fun p hp => hloaded p (List.mem_cons_of_mem _ hp)) q hq

/-! ## One call -/

/-- A block that is loaded is delivered, or its exception is thrown. -/
theorem replies_of_findBlock {g : Getter} {advanced : List (ℕ × Except Exn AdvancedBlock)}
    (hright : Right E O (s.withBlocks g advanced))
    (hle : s.nextBlockToRead ≤ s.lastBlockInBlockchain) {r : Except Exn AdvancedBlock}
    (h : (s.withBlocks g advanced).findBlock s.nextBlockToRead = some r) :
    Right E O ((s.withBlocks g advanced).processAdvanced r).2 ∧
      Replies E O s ((s.withBlocks g advanced).processAdvanced r) := by
  obtain ⟨-, -, hvalue⟩ := hright.window _ _ (mem_of_findBlock h)
  rcases r with e | a
  · exact ⟨hright, .fail e hle⟩
  · exact ⟨⟨⟨hright.loads, hright.caches, hright.window⟩, Nat.succ_ne_zero _⟩,
      .deliver a hle (hvalue a rfl)⟩

section
variable {calls : ℕ → P2PCalls × P2PCalls}

theorem loadAndProcess_honest (hlibs : SameLibs E S lz4) (hright : Right E O s)
    (hle : s.nextBlockToRead ≤ s.lastBlockInBlockchain)
    (hcalls : ∀ n, HonestPeers S O s.isVerifySign s.lastBlockInBlockchain (calls n).1 ∧
      HonestPeers S O s.isVerifySign s.lastBlockInBlockchain (calls n).2)
    (hdefined : Defined (loadAndProcess E s calls).1) :
    Right E O (loadAndProcess E s calls).2 ∧ Replies E O s (loadAndProcess E s calls) := by
  by_cases hservers : s.servers = []
  · rw [loadAndProcess_of_no_servers hservers]
    exact ⟨⟨⟨hright.loads, hright.caches, fun _ _ h => by cases h⟩, hright.next_ne⟩, .fail _ hle⟩
  · rcases hload : loadBlocks E { s with advancedBlocks := [] } calls (List.range' s.nextBlockToRead
      (min countAdvancedBlocks (s.lastBlockInBlockchain - s.nextBlockToRead + 1))) s.getterBlocks
      with ⟨loaded, g⟩
    have hblocks : ∀ n ∈ List.range' s.nextBlockToRead
        (min countAdvancedBlocks (s.lastBlockInBlockchain - s.nextBlockToRead + 1)),
        n ≠ 0 ∧ n ≤ s.lastBlockInBlockchain := by
      intro n hn
      have hnext := hright.next_ne
      have hcount := min_le_right countAdvancedBlocks
        (s.lastBlockInBlockchain - s.nextBlockToRead + 1)
      rw [List.mem_range'_1] at hn
      omega
    obtain ⟨hcaches, hsame, hvalue⟩ := loadBlocks_honest (s := { s with advancedBlocks := [] })
      hlibs hcalls hblocks hright.loads hright.caches
    rw [hload] at hcaches hsame hvalue
    have hright' : ∀ advanced, (∀ q ∈ advanced, FromNodes E s O q.1 q.2) →
        Right E O (s.withBlocks g advanced) := fun advanced h =>
      ⟨⟨hright.loads.of_clear hsame, hcaches, fun n r hmem => h (n, r) hmem⟩, hright.next_ne⟩
    rw [loadAndProcess, if_neg hservers] at hdefined ⊢
    dsimp only at hdefined ⊢
    rw [hload] at hdefined ⊢
    dsimp only at hdefined ⊢
    rcases hadvanced : loaded >>= fun loaded => loaded.mapM (parseAdvanced E (s.withBlocks g []))
      with advanced | e | u | _ <;> rw [withBlocks] at hadvanced <;> rw [hadvanced] at hdefined ⊢
    · obtain ⟨loaded, rfl, hparse⟩ := bind_eq_ok.1 hadvanced
      obtain ⟨hkeys, hall⟩ := loadBlocks_spec (congrArg Prod.fst hload)
      obtain ⟨hkeys', -⟩ := mapM_parseAdvanced hparse hall
      have hwindow : ∀ q ∈ advanced, FromNodes E s O q.1 q.2 := by
        refine mapM_parseAdvanced_honest (s := s.withBlocks g []) hparse fun p hp => ⟨?_, ?_⟩
        · exact hblocks _ (hkeys ▸ List.mem_map_of_mem hp)
        · exact hvalue loaded rfl p hp
      obtain ⟨count, hcount⟩ : ∃ count, min countAdvancedBlocks
          (s.lastBlockInBlockchain - s.nextBlockToRead + 1) = count + 1 := by
        refine Nat.exists_eq_succ_of_ne_zero ?_
        rw [countAdvancedBlocks]
        omega
      rw [hkeys, hcount] at hkeys'
      obtain ⟨r, hr⟩ := findBlock_of_keys (s := s) (g := g) hkeys'
      have hreplies := replies_of_findBlock (hright' advanced hwindow) hle hr
      rw [withBlocks] at hreplies hr
      dsimp only
      rw [hr]
      exact hreplies
    · exact ⟨hright' [] (fun q hq => by cases hq), .fail e hle⟩
    · exact hdefined.elim
    · exact hdefined.elim

/-- **One call**, with honest peers. -/
theorem process_honest (hlibs : SameLibs E S lz4) (hright : Right E O s)
    (hcalls : ∀ n, HonestPeers S O s.isVerifySign s.lastBlockInBlockchain (calls n).1 ∧
      HonestPeers S O s.isVerifySign s.lastBlockInBlockchain (calls n).2)
    (hdefined : Defined (process E s calls).1) :
    Right E O (process E s calls).2 ∧ Replies E O s (process E s calls) := by
  by_cases hle : s.nextBlockToRead ≤ s.lastBlockInBlockchain
  · rcases hfind : s.findBlock s.nextBlockToRead with _ | r
    · rw [process_of_not_found hle hfind] at hdefined ⊢
      exact loadAndProcess_honest hlibs hright hle hcalls hdefined
    · rw [process_of_found hle hfind]
      exact replies_of_findBlock (g := s.getterBlocks) hright hle hfind
  · rw [process_of_finished (not_le.1 hle)]
    exact ⟨hright, .finish (not_le.1 hle)⟩

end

end

/-! ## All runs -/

/-- A source that has not been used. -/
structure New (E : SourceEnv) (s : NetworkBlockSource) : Prop where
  noneAlone : s.getterBlocks.NoneAlone
  fuel : s.getterBlocks.countBlocksInBatch < E.client.fuel
  cleared : s.getterBlocks.clearAdvanced = s.getterBlocks
  last : s.lastBlockInBlockchain = 0
  advancedBlocks : s.advancedBlocks = []

/-- The calls with honest peers; the blocks that are announced can be asked for. -/
def Honest (S : ServerEnv) (O : Offer) (s : NetworkBlockSource) : Call → Prop
  | .doProcess _ lastBlock => lastBlock.error = none →
    O.Sendable s.isVerifySign s.getterBlocks.isCompress lastBlock.lastBlock
  | .process calls => ∀ n, HonestPeers S O s.isVerifySign s.lastBlockInBlockchain (calls n).1 ∧
    HonestPeers S O s.isVerifySign s.lastBlockInBlockchain (calls n).2

section
variable {E : SourceEnv} {S : ServerEnv} {lz4 : Lz4} {O : Offer} {s s' : NetworkBlockSource}

theorem sendable_zero (O : Offer) (isSign isCompress : Bool) : O.Sendable isSign isCompress 0 where
  last_lt := by omega
  hex n h0 hle := absurd (Nat.le_zero.1 hle) h0
  dump_ne n h0 hle := absurd (Nat.le_zero.1 hle) h0
  plain _ n h0 hle := absurd (Nat.le_zero.1 hle) h0
  length_le n h0 hle := absurd (Nat.le_zero.1 hle) h0
  large n h0 hle := absurd (Nat.le_zero.1 hle) h0

theorem New.sound (h : New E s) (O : Offer) : Sound E O s where
  loads := ⟨h.noneAlone, h.fuel, by rw [h.last]; exact sendable_zero O _ _⟩
  caches := by
    rw [← h.cleared]
    exact Getter.Caches.clear _ O _
  window n r hmem := by
    rw [h.advancedBlocks] at hmem
    cases hmem

/-- What was loaded is thrown away if another block is announced, and kept if there is no answer. -/
theorem right_doProcess (hsound : Sound E O s) (countBlocks : ℕ) {lastBlock : LastBlockResponse}
    (hsend : lastBlock.error = none →
      O.Sendable s.isVerifySign s.getterBlocks.isCompress lastBlock.lastBlock) :
    Right E O (s.doProcess countBlocks lastBlock).2 := by
  rcases herror : lastBlock.error with _ | error
  · rw [doProcess, herror]
    refine ⟨⟨?_, Getter.Caches.clear _ O _, fun n r hmem => by cases hmem⟩, Nat.succ_ne_zero _⟩
    have hloads : Loads E O s.isVerifySign lastBlock.lastBlock s.getterBlocks :=
      ⟨hsound.loads.noneAlone, hsound.loads.fuel, hsend herror⟩
    exact hloads.of_clear rfl
  · rw [doProcess, herror]
    exact ⟨⟨hsound.loads, hsound.caches, hsound.window⟩, Nat.succ_ne_zero _⟩

theorem defined_of_step {calls : ℕ → P2PCalls × P2PCalls}
    (h : step E s (.process calls) = some s') : Defined (process E s calls).1 ∧ (process E s calls).2 = s' := by
  rw [step] at h
  split at h
  · next hprocess =>
    rw [hprocess]
    exact ⟨trivial, Option.some.inj h⟩
  · next hprocess =>
    rw [hprocess]
    exact ⟨trivial, Option.some.inj h⟩
  · cases h

theorem right_step (hlibs : SameLibs E S lz4) (call : Call) (hright : Right E O s)
    (hhonest : Honest S O s call) (h : step E s call = some s') : Right E O s' := by
  cases call with
  | doProcess countBlocks lastBlock =>
    cases h
    exact right_doProcess hright.toSound countBlocks hhonest
  | process calls =>
    obtain ⟨hdefined, rfl⟩ := defined_of_step h
    exact (process_honest hlibs hright hhonest hdefined).1

end

/-! ## One block -/

/-- Peers that run the server on one node. -/
def nodePeers (S : ServerEnv) (sync : Sync) : P2PCalls where
  requests n makeQsAndPost parse _ := (List.range n).mapM fun i => do
    let request ← makeQsAndPost i
    let raw ← Server.run S sync request.1 request.2
    let parsed ← parse raw
    match parsed.error with
    | none =>
      if h : parsed.response.length ≤ maxSize then .ok ⟨parsed.response, h⟩
      else .throw (.std "basic_string::append")
    | some error => .throw (.common error)
  request _ _ _ _ _ := .throw (.common "All servers broken")

theorem honestPeers_nodePeers {S : ServerEnv} {O : Offer} {isSign : Bool} {last : ℕ} {sync : Sync}
    (hsync : O.HeldBy isSign last sync) : HonestPeers S O isSign last (nodePeers S sync) where
  request h := by cases h
  requests {n makeQsAndPost parse servers answers} h := by
    obtain ⟨hlength, hget⟩ := List.forall₂_iff_get.1 (mapM_eq_ok.1 h)
    rw [List.length_range] at hlength
    refine ⟨hlength.symm, fun i answer hi => ?_⟩
    obtain ⟨hlt, rfl⟩ := List.getElem?_eq_some_iff.1 hi
    have hanswer := hget i (by rw [List.length_range]; omega) hlt
    rw [List.get_eq_getElem, List.getElem_range, List.get_eq_getElem] at hanswer
    obtain ⟨⟨qs, post⟩, hrequest, hanswer⟩ := bind_eq_ok.1 hanswer
    obtain ⟨raw, hraw, hanswer⟩ := bind_eq_ok.1 hanswer
    obtain ⟨⟨text, error⟩, hparse, hanswer⟩ := bind_eq_ok.1 hanswer
    refine ⟨sync, qs, post, raw, hsync, hrequest, hraw, ?_⟩
    rcases error with _ | error
    · dsimp only at hanswer
      split_ifs at hanswer with hfits
      rw [hparse, ← Exec.ok.inj hanswer]
    · cases hanswer

/-- The header of the block without transactions, in the file `a`. -/
def emptyBlockHeader : BlockHeader where
  blockNumber := some 1
  blockSize := 81
  hash := lit "00"
  filePos := { pos := 0, fileName := lit "a" }

/-- Nodes with this block. -/
def oneOffer : Offer where
  header _ := emptyBlockHeader
  dump _ := emptyBlock.encode

/-- A node with this block. -/
def oneNode : Sync where
  countBlocks := 1
  getBlockNumber _ := emptyBlockHeader
  getBlockHash _ := .ok emptyBlockHeader
  getBlockDump _ fromByte toByte _ _ :=
    .ok (slice emptyBlock.encode fromByte.toNat (toByte.toNat - fromByte.toNat))

theorem oneNode_heldBy : oneOffer.HeldBy false 1 oneNode where
  chain := {
    count := le_refl _
    header := fun n h0 _ hle => by
      obtain rfl : n = 1 := by
        have hle : n ≤ 1 := hle
        omega
      exact ⟨rfl, one_ne_zero, by omega, by decide, by decide +kernel, by decide +kernel,
        by decide +kernel⟩ }
  header _ _ _ := rfl
  byHash _ _ _ := rfl
  dump _ _ _ := by
    show (Exec.ok (slice emptyBlock.encode 0 (2 ^ 64 - 1)) : Exec Exn Bytes) = .ok emptyBlock.encode
    rw [slice, List.drop_zero, List.take_of_length_le (by rw [emptyBlock_length]; omega)]
  part _ _ _ _ fromByte toByte _ hto := by
    have hto : toByte ≤ emptyBlock.encode.length := hto
    rw [emptyBlock_length] at hto
    show Exec.ok (slice emptyBlock.encode (UInt64.ofNat fromByte).toNat _) = _
    rw [UInt64.toNat_ofNat_of_lt' (by change fromByte < 2 ^ 64; omega),
      UInt64.toNat_ofNat_of_lt' (by change toByte < 2 ^ 64; omega)]
    rfl

theorem oneOffer_sendable : oneOffer.Sendable false false 1 where
  last_lt := by omega
  hex _ _ _ := show HexText (lit "00") by decide +kernel
  dump_ne _ _ _ := show emptyBlock.encode ≠ [] by decide +kernel
  plain _ _ _ _ := show ¬ LooksLikeJson emptyBlock.encode by decide +kernel
  length_le _ _ _ _ := by
    show emptyBlock.encode.length ≤ _
    rw [emptyBlock_length]
    omega
  large _ _ _ h :=
    absurd h (show ¬ maxBlockSizeWithoutAdvance < emptyBlockHeader.blockSize.toNat by decide)

/-- The client and the server with one LZ4. -/
def literalsEnv : SourceEnv :=
  { plainEnv emptyBlockLibs with
    client := { json := plainJson, decompress := Lz4.literals.decompress, fuel := 2 } }

/-- The server of the node. -/
def literalsServer : ServerEnv := { ServerEnv.plain with compress := Lz4.literals.compress }

theorem sameLibs_literals : SameLibs literalsEnv literalsServer Lz4.literals :=
  ⟨rfl, rfl, rfl, Lz4.literals_lawful, Lz4.literals_bounded⟩

theorem new_plainSource : New literalsEnv plainSource where
  noneAlone := ⟨by decide, by decide, Or.inl rfl⟩
  fuel := by decide
  cleared := rfl
  last := rfl
  advancedBlocks := rfl

theorem loadBlock_oneNode :
    (loadBlock literalsEnv readySource readySource.getterBlocks
      (nodePeers literalsServer oneNode, nodePeers literalsServer oneNode) 1).1 =
        .ok (.ok (firstHeader (lit "00"), emptyBlock.encode)) := by
  decide +kernel

end NetworkBlockSource

end TorrentNode
