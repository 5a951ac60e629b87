/-
  Runs of `addBlock` calls on a fresh or cleared chain.

  * `run_consistent`: after any calls, throwing ones included, the two views of
    the index agree, and so do the queries by number and by hash.
  * `along_described_iff`: every call behaves as its callers expect (the block
    is appended exactly if it extends the last block) iff no call of the run
    gives an empty chain a block with a parent other than the genesis block.
-/
import TorrentNode.BlockChain.Invariant

open Wire

namespace TorrentNode

namespace BlockChain

/-- A header as a block source delivers it: without a number. -/
abbrev NewHeader := { b : BlockHeader // b.blockNumber = none }

/-- Where a run starts. -/
inductive Start where
  | constructed
  | cleared (c : BlockChain)

def Start.chain : Start → BlockChain
  | constructed => new
  | cleared c => c.clear

theorem Start.inv_chain (s : Start) : s.chain.Inv := by
  cases s <;> exact inv_new

/-- The chain after the calls `addBlock(b)` for `b` in `bs`. -/
def run (c : BlockChain) (bs : List NewHeader) : BlockChain :=
  bs.foldl (fun c b => (c.addBlock b).2) c

/-- `P` holds of every call of a run and of the chain it is made on. -/
def Along (P : BlockChain → BlockHeader → Prop) : BlockChain → List NewHeader → Prop
  | _, [] => True
  | c, b :: bs => P c b ∧ Along P (c.addBlock b).2 bs

theorem inv_run {c : BlockChain} (hc : c.Inv) (bs : List NewHeader) : (run c bs).Inv := by
  induction bs generalizing c with
  | nil => exact hc
  | cons b bs ih => exact ih (inv_addBlock hc b.2)

/-! ## The two views agree -/

/-- The two views of the index describe one numbered chain, and calls keep it. -/
structure Consistent (c : BlockChain) : Prop where
  nonempty : c.hashes ≠ []
  genesis : c.hashes.head? = some genesisHash
  nodup : c.hashes.Nodup
  keys : ∀ h, h ∈ c.blocks ↔ h ∈ c.hashes
  stored : ∀ i h, c.hashes[i]? = some h → ∃ bh, c.blocks.lookup h = some bh ∧ bh.hash = h ∧
    bh.blockNumber = some i ∧ (2 ≤ i → c.hashes[i - 1]? = some bh.prevHash)
  byNumber : ∀ n, n ≤ c.countBlocks → (c.getBlockNumber n).blockNumber = some n ∧
    c.getBlockHash (c.getBlockNumber n).hash = .ok (c.getBlockNumber n)
  byHash : ∀ h bh n, c.getBlockHash h = .ok bh → bh.blockNumber = some n →
    bh.hash = h ∧ n ≤ c.countBlocks ∧ c.getBlockNumber n = bh
  last : c.getLastBlock.blockNumber = some c.countBlocks
  keeps : ∀ (b : NewHeader) (n : ℕ), (c.addBlock b).1 = .ok n →
    ∀ h bh, c.blocks.lookup h = some bh → (c.addBlock b).2.blocks.lookup h = some bh
  throws : ∀ (b : NewHeader) (e : Exn), (c.addBlock b).1 = .throw e → (c.addBlock b).2 = c

theorem Inv.consistent {c : BlockChain} (hc : c.Inv) : c.Consistent where
  nonempty := List.ne_nil_of_length_pos hc.length_pos
  genesis := by rw [List.head?_eq_getElem?]; exact hc.genesis
  nodup := hc.nodup
  keys := hc.mem_iff
  stored i h hi := by
    obtain ⟨bh, hl, hh, hn⟩ := hc.number i h hi
    exact ⟨bh, hl, hh, hn, fun h2 => by rw [hc.linked i h h2 hi, header_of_lookup hl]⟩
  byNumber n hn := by
    have hlt : n < c.hashes.length := by have := hc.length_pos; rw [countBlocks] at hn; omega
    have hget := List.getElem?_eq_getElem hlt
    obtain ⟨hl, hh, hnum⟩ := hc.getBlockNumber_spec hget
    have hne : (c.getBlockNumber n).hash ≠ [] := by
      intro h0
      exact hc.hash_ne (h0 ▸ hh ▸ List.getElem_mem hlt)
    refine ⟨hnum, ?_⟩
    rw [getBlockHash, check_of hne, Exec.ok_bind, getBlockImplHash, hh, hl]; rfl
  byHash h bh n hq hnum := by
    rw [getBlockHash] at hq
    obtain ⟨_, -, hq⟩ := Exec.bind_eq_ok.1 hq
    have hbh : c.getBlockImplHash h = bh := Exec.ok.inj hq
    -- a hash that is not stored gives the empty header, which has no number
    rcases hl : c.blocks.lookup h with _ | bh'
    · rw [getBlockImplHash, hl] at hbh; rw [← hbh] at hnum; simp at hnum
    · rw [getBlockImplHash, hl, Option.getD_some] at hbh
      subst hbh
      obtain ⟨i, hi, hget⟩ := List.getElem_of_mem ((hc.mem_iff h).1 (Finmap.mem_of_lookup_eq_some hl))
      obtain ⟨hl', hh, hn⟩ := hc.getBlockNumber_spec (List.getElem?_eq_some_iff.2 ⟨hi, hget⟩)
      obtain rfl : c.getBlockNumber i = bh' := Option.some.inj (hl'.symm.trans hl)
      obtain rfl : i = n := Option.some.inj (hn.symm.trans hnum)
      exact ⟨hh, by rw [countBlocks]; omega, rfl⟩
  last := (hc.getBlockNumber_spec hc.getElem?_last).2.2
  keeps b n hok h bh hl := by
    rcases addBlock_spec hc.numbered b.2 with ⟨ha, he⟩ | ⟨-, m, he⟩
    · have hne : h ≠ b.1.hash := fun h' => ha.2.1 (h' ▸ Finmap.mem_of_lookup_eq_some hl)
      rw [he, append, Finmap.lookup_insert_of_ne _ hne]; exact hl
    · rw [he] at hok; cases hok
  throws b e hthrow := by
    rcases addBlock_spec hc.numbered b.2 with ⟨-, he⟩ | ⟨-, m, he⟩
    · rw [he] at hthrow; cases hthrow
    · rw [he]

/-- **The index is consistent after every run.** -/
theorem run_consistent (s : Start) (bs : List NewHeader) : (run s.chain bs).Consistent :=
  (inv_run s.inv_chain bs).consistent

/-! ## Extending the last block -/

/-- The call returns a number exactly if the block is new and extends the last block; it then
    appends the block, and otherwise changes nothing. -/
structure Described (c : BlockChain) (b : BlockHeader) : Prop where
  accepts : (∃ n, n ≠ 0 ∧ (c.addBlock b).1 = .ok n) ↔
    b.hash ≠ [] ∧ b.hash ∉ c.blocks ∧ b.prevHash = c.getLastBlock.hash
  extends_ : ∀ n, n ≠ 0 → (c.addBlock b).1 = .ok n → n = c.countBlocks + 1 ∧
    (c.addBlock b).2.getLastBlock = { b with blockNumber := some n }
  rejects : (¬ ∃ n, n ≠ 0 ∧ (c.addBlock b).1 = .ok n) →
    ((c.addBlock b).1 = .ok 0 ∨ ∃ e, (c.addBlock b).1 = .throw e) ∧ (c.addBlock b).2 = c

/-- Every numbered block names its predecessor as its parent. -/
def Linked (c : BlockChain) : Prop :=
  ∀ i, 1 ≤ i → i ≤ c.countBlocks → (c.getBlockNumber i).prevHash = (c.getBlockNumber (i - 1)).hash

theorem linked_new : new.Linked := by
  intro i h1 hi
  have : new.countBlocks = 0 := rfl
  omega

/-- A new block that an empty chain gets is a child of the genesis block (or names no parent). -/
def RootedCall (c : BlockChain) (b : BlockHeader) : Prop :=
  c.countBlocks = 0 → b.hash ≠ [] → b.hash ∉ c.blocks → b.prevHash ≠ [] → b.prevHash = genesisHash

section
variable {c : BlockChain} {b : BlockHeader} (hc : c.Inv)
include hc

theorem Inv.accepts_iff : c.Accepts b ↔ b.hash ≠ [] ∧ b.hash ∉ c.blocks ∧
    (b.prevHash = c.getLastBlock.hash ∨
      (c.countBlocks = 0 ∧ b.prevHash ≠ [] ∧ b.prevHash ∉ c.blocks)) := by
  have hlast : c.getLastBlock.hash ≠ [] := fun h =>
    hc.hash_ne (h ▸ List.mem_of_getElem? hc.getElem?_last)
  rw [Accepts, hc.parentNumber_iff]
  constructor
  · rintro ⟨h1, h2, h3, h4 | h4⟩
    · exact ⟨h1, h2, Or.inl h4⟩
    · exact ⟨h1, h2, Or.inr ⟨h4.1, h3, h4.2⟩⟩
  · rintro ⟨h1, h2, h3 | h3⟩
    · exact ⟨h1, h2, h3 ▸ hlast, Or.inl h3⟩
    · exact ⟨h1, h2, h3.2.1, Or.inr ⟨h3.1, h3.2.2⟩⟩

/-- On an empty chain the genesis block is the last block and the only one. -/
theorem Inv.genesis_of_empty (h0 : c.countBlocks = 0) :
    c.getLastBlock.hash = genesisHash ∧ ∀ h, h ∈ c.blocks ↔ h = genesisHash := by
  have hpos := hc.length_pos
  rw [countBlocks] at h0
  have hlen : c.hashes.length = 1 := by omega
  obtain ⟨g, hg⟩ := List.length_eq_one_iff.1 hlen
  have hgen : g = genesisHash := by have := hc.genesis; rw [hg] at this; simpa using this
  have hlast := hc.getElem?_last
  rw [hg, hgen] at hlast
  exact ⟨by simpa using hlast.symm, fun h => by rw [hc.mem_iff, hg, hgen, List.mem_singleton]⟩

theorem Inv.getLastBlock_append (hb : c.Accepts b) :
    (c.append b).getLastBlock = { b with blockNumber := some c.hashes.length } := by
  have hget : (c.append b).hashes[(c.append b).hashes.length - 1]? = some b.hash := by
    simp [append]
  have hspec := (inv_append hc hb).getBlockNumber_spec hget
  rw [append, Finmap.lookup_insert] at hspec
  exact (Option.some.inj hspec.1).symm

/-- **One call is as described iff it is rooted.** -/
theorem Inv.described_iff (hb : b.blockNumber = none) : c.Described b ↔ c.RootedCall b := by
  have hcount : c.countBlocks + 1 = c.hashes.length := by
    have := hc.length_pos; rw [countBlocks]; omega
  constructor
  · intro hd h0 hh hfresh hp
    by_contra hne
    obtain ⟨hlast, hmem⟩ := hc.genesis_of_empty h0
    have hacc : c.Accepts b := hc.accepts_iff.2 ⟨hh, hfresh, Or.inr ⟨h0, hp, by rwa [hmem]⟩⟩
    rcases addBlock_spec hc.numbered hb with ⟨-, he⟩ | ⟨hn, -⟩
    · have := (hd.accepts.1 ⟨c.hashes.length, by omega, by rw [he]⟩).2.2
      exact hne (this.trans hlast)
    · exact hn hacc
  · intro hr
    -- a rooted call is accepted exactly if it extends the last block
    have hacc : c.Accepts b ↔
        b.hash ≠ [] ∧ b.hash ∉ c.blocks ∧ b.prevHash = c.getLastBlock.hash := by
      rw [hc.accepts_iff]
      constructor
      · rintro ⟨h1, h2, h3 | ⟨h0, h3, -⟩⟩
        · exact ⟨h1, h2, h3⟩
        · exact ⟨h1, h2, (hr h0 h1 h2 h3).trans (hc.genesis_of_empty h0).1.symm⟩
      · rintro ⟨h1, h2, h3⟩; exact ⟨h1, h2, Or.inl h3⟩
    rcases addBlock_spec hc.numbered hb with ⟨ha, he⟩ | ⟨hn, m, he⟩
    · refine ⟨⟨fun _ => hacc.1 ha, fun _ => ⟨c.hashes.length, by omega, by rw [he]⟩⟩, ?_, ?_⟩
      · intro n _ hok
        rw [he] at hok ⊢
        obtain rfl : c.hashes.length = n := Exec.ok.inj hok
        exact ⟨hcount.symm, hc.getLastBlock_append ha⟩
      · intro hno; exact absurd ⟨c.hashes.length, by omega, by rw [he]⟩ hno
    · have hno : ¬ ∃ n, n ≠ 0 ∧ (c.addBlock b).1 = .ok n := by
        rintro ⟨n, -, hok⟩; rw [he] at hok; cases hok
      refine ⟨⟨fun h => absurd h hno, fun h => absurd (hacc.2 h) hn⟩, ?_, ?_⟩
      · intro n h0 hok; exact absurd ⟨n, h0, hok⟩ hno
      · intro _; rw [he]; exact ⟨Or.inr ⟨_, rfl⟩, rfl⟩

/-- A rooted call keeps the chain linked. -/
theorem Inv.linked_addBlock (hb : b.blockNumber = none) (hl : c.Linked) (hr : c.RootedCall b) :
    (c.addBlock b).2.Linked := by
  rcases addBlock_spec hc.numbered hb with ⟨ha, he⟩ | ⟨-, m, he⟩
  swap
  · rw [he]; exact hl
  rw [he]
  have hpos := hc.length_pos
  have hinv := inv_append hc ha
  have hlen : (c.append b).countBlocks = c.hashes.length := by simp [countBlocks, append]
  -- below the new block, numbers mean what they meant before
  have hold : ∀ i, i < c.hashes.length → (c.append b).getBlockNumber i = c.getBlockNumber i := by
    intro i hi
    have hget := List.getElem?_eq_getElem hi
    have hget' : (c.append b).hashes[i]? = some c.hashes[i] := by
      rw [append, List.getElem?_append_left hi, hget]
    have hne : c.hashes[i] ≠ b.hash := fun h =>
      ha.2.1 ((hc.mem_iff _).2 (h ▸ List.getElem_mem hi))
    have h1 := (hinv.getBlockNumber_spec hget').1
    rw [append, Finmap.lookup_insert_of_ne _ hne, (hc.getBlockNumber_spec hget).1] at h1
    exact (Option.some.inj h1).symm
  have hlast : c.getBlockNumber (c.hashes.length - 1) = c.getLastBlock := rfl
  intro i h1 hi
  rw [hlen] at hi
  rcases Nat.lt_or_ge i c.hashes.length with hlt | hge
  · rw [hold i hlt, hold (i - 1) (by omega)]
    exact hl i h1 (by rw [countBlocks]; omega)
  · obtain rfl : i = c.hashes.length := by omega
    have hnew : (c.append b).getBlockNumber c.hashes.length = (c.append b).getLastBlock := by
      simp [getLastBlock, append]
    rw [hnew, hc.getLastBlock_append ha, hold _ (by omega), hlast]
    rcases (hc.accepts_iff.1 ha).2.2 with hp | ⟨h0, hp, -⟩
    · exact hp
    · exact (hr h0 ha.1 ha.2.1 hp).trans (hc.genesis_of_empty h0).1.symm

end

/-- **Every call of a run is as described, and leaves a linked chain, iff every call is rooted.** -/
theorem along_described_iff (s : Start) (bs : List NewHeader) :
    Along (fun c b => c.Described b ∧ (c.addBlock b).2.Linked) s.chain bs ↔
      Along RootedCall s.chain bs := by
  have hlinked : s.chain.Linked := by
    cases s <;> exact linked_new
  have hinv := s.inv_chain
  generalize s.chain = c at hlinked hinv
  induction bs generalizing c with
  | nil => exact Iff.rfl
  | cons b bs ih =>
    have hnext := inv_addBlock hinv b.2
    constructor
    · rintro ⟨⟨hd, hl⟩, hrest⟩
      exact ⟨(hinv.described_iff b.2).1 hd, (ih _ hl hnext).1 hrest⟩
    · rintro ⟨hr, hrest⟩
      have hl := hinv.linked_addBlock b.2 hlinked hr
      exact ⟨⟨(hinv.described_iff b.2).2 hr, hl⟩, (ih _ hl hnext).2 hrest⟩

/-- A block with an unknown parent. -/
def orphan : NewHeader :=
  ⟨{ hash := List.replicate 64 'a'.toUInt8, prevHash := List.replicate 64 'b'.toUInt8 }, rfl⟩

/-- An empty chain accepts a block with an unknown parent as block 1. -/
theorem orphan_not_described :
    ¬ ∀ (s : Start) (bs : List NewHeader),
      Along (fun c b => c.Described b ∧ (c.addBlock b).2.Linked) s.chain bs := by
  intro h
  have hd := (h .constructed [orphan]).1.1
  have hok : (new.addBlock orphan).1 = .ok 1 := by decide +kernel
  have hp := (hd.accepts.1 ⟨1, one_ne_zero, hok⟩).2.2
  exact absurd hp (by decide +kernel)

end BlockChain

end TorrentNode
