/-
  What holds after any sequence of `addBlock` calls.

  `Inv` ties the two views of the index together.  It holds of a new chain
  (`inv_new`), and one call preserves it (`inv_addBlock`), throwing or not.

  `Inv.parentNumber_iff`: the walk of `calcBlockchain` ends with the number of
  the last block iff the parent is the last block, or the chain is empty and
  the parent is missing.  In the second case the walk stops at the new header,
  whose temporary number is then taken for that of a stored parent.
-/
import TorrentNode.BlockChain.Append

open Wire

namespace TorrentNode

namespace BlockChain

/-- The hash map and the list of hashes describe the same numbered chain. -/
structure Inv (c : BlockChain) : Prop where
  genesis : c.hashes[0]? = some genesisHash
  nodup : c.hashes.Nodup
  hash_ne : [] ∉ c.hashes
  mem_iff : ∀ h, h ∈ c.blocks ↔ h ∈ c.hashes
  number : ∀ i h, c.hashes[i]? = some h →
    ∃ bh, c.blocks.lookup h = some bh ∧ bh.hash = h ∧ bh.blockNumber = some i
  linked : ∀ i h, 2 ≤ i → c.hashes[i]? = some h →
    c.hashes[i - 1]? = some (header c.blocks h).prevHash

theorem inv_new : new.Inv where
  genesis := rfl
  nodup := List.nodup_singleton _
  hash_ne := by decide
  mem_iff h := by simp [new, initializeChain, Finmap.notMem_empty]
  number i h hi := by
    obtain ⟨rfl, rfl⟩ : i = 0 ∧ genesisHash = h := by
      cases i with
      | zero => exact ⟨rfl, by simpa [new, initializeChain] using hi⟩
      | succ i => simp [new, initializeChain] at hi
    exact ⟨_, Finmap.lookup_insert _, rfl, rfl⟩
  linked i h h2 hi := by
    have := (List.getElem?_eq_some_iff.1 hi).1
    simp only [new, initializeChain, List.nil_append, List.length_singleton] at this; omega

namespace Inv
variable {c : BlockChain} (hc : c.Inv)
include hc

theorem length_pos : 0 < c.hashes.length := (List.getElem?_eq_some_iff.1 hc.genesis).1

theorem numbered : c.Numbered := by
  intro k hk
  obtain ⟨i, hi, rfl⟩ := List.getElem_of_mem ((hc.mem_iff k).1 hk)
  obtain ⟨bh, hl, -, hn⟩ := hc.number i _ (List.getElem?_eq_getElem hi)
  rw [header_of_lookup hl, hn]; rfl

/-- Headers are stored under their hashes. -/
theorem hash_of_lookup {h : Bytes} {bh : BlockHeader} (hl : c.blocks.lookup h = some bh) :
    bh.hash = h := by
  obtain ⟨i, hi⟩ := List.mem_iff_getElem?.1 ((hc.mem_iff h).1 (Finmap.mem_of_lookup_eq_some hl))
  obtain ⟨bh', hl', hh, -⟩ := hc.number i h hi
  rw [Option.some.inj (hl.symm.trans hl')]; exact hh

/-- The last hash listed is that of the last block. -/
theorem getElem?_last : c.hashes[c.hashes.length - 1]? = some c.getLastBlock.hash := by
  have hlt : c.hashes.length - 1 < c.hashes.length := by have := hc.length_pos; omega
  have hget := List.getElem?_eq_getElem hlt
  obtain ⟨bh, hl, hh, -⟩ := hc.number _ _ hget
  simp only [getLastBlock, getBlockNumber, hget, getBlockImplHash, hl, Option.getD_some, hh]

/-- Every number below the length of `hashes` is that of a stored block. -/
theorem getBlockNumber_spec {i : ℕ} {h : Bytes} (hi : c.hashes[i]? = some h) :
    c.blocks.lookup h = some (c.getBlockNumber i) ∧ (c.getBlockNumber i).hash = h ∧
      (c.getBlockNumber i).blockNumber = some i := by
  obtain ⟨bh, hl, hh, hn⟩ := hc.number i h hi
  have : c.getBlockNumber i = bh := by
    simp only [getBlockNumber, hi, getBlockImplHash, hl, Option.getD_some]
  rw [this]; exact ⟨hl, hh, hn⟩

/-- A stored parent has the last number iff it is the last block. -/
theorem parentNumber_iff (b : BlockHeader) :
    c.parentNumber b + 1 = c.hashes.length ↔
      b.prevHash = c.getLastBlock.hash ∨ (c.countBlocks = 0 ∧ b.prevHash ∉ c.blocks) := by
  have hpos := hc.length_pos
  have hlast := hc.getElem?_last
  by_cases hmem : b.prevHash ∈ c.blocks
  · obtain ⟨i, hi, hget⟩ := List.getElem_of_mem ((hc.mem_iff _).1 hmem)
    obtain ⟨bh, hl, -, hn⟩ := hc.number i _ (List.getElem?_eq_some_iff.2 ⟨hi, hget⟩)
    rw [parentNumber, if_pos hmem, header_of_lookup hl, hn, Option.getD_some]
    constructor
    · intro h
      have hi' : i = c.hashes.length - 1 := by omega
      rw [← hi', List.getElem?_eq_some_iff] at hlast
      exact Or.inl (by rw [← hget, hlast.2])
    · rintro (h | h)
      · rw [← h, List.getElem?_eq_some_iff] at hlast
        obtain ⟨hlt, hget'⟩ := hlast
        have heq : c.hashes[i] = c.hashes[c.hashes.length - 1] := by rw [hget, hget']
        have := hc.nodup.getElem_inj_iff.1 heq
        omega
      · exact absurd hmem h.2
  · rw [parentNumber, if_neg hmem, countBlocks]
    have hne : b.prevHash ≠ c.getLastBlock.hash := by
      intro h
      exact hmem ((hc.mem_iff _).2 (h ▸ List.mem_of_getElem? hlast))
    constructor
    · intro h; exact Or.inr ⟨by omega, hmem⟩
    · rintro (h | h)
      · exact absurd h hne
      · omega

end Inv

/-! ## Preservation -/

theorem inv_append {c : BlockChain} {b : BlockHeader} (hc : c.Inv) (hb : c.Accepts b) :
    (c.append b).Inv := by
  obtain ⟨hh, hfresh, hp, hlen⟩ := hb
  have hpos := hc.length_pos
  have hnew : b.hash ∉ c.hashes := fun h => hfresh ((hc.mem_iff _).2 h)
  have hold : ∀ h ∈ c.hashes, (c.append b).blocks.lookup h = c.blocks.lookup h := by
    intro h hm
    exact Finmap.lookup_insert_of_ne _ (ne_of_mem_of_not_mem hm hnew)
  -- a hash of the longer list is an old one or the new one, at the end
  have hsplit : ∀ i h, (c.append b).hashes[i]? = some h →
      c.hashes[i]? = some h ∨ (i = c.hashes.length ∧ h = b.hash) := by
    intro i h hi
    rcases lt_or_ge i c.hashes.length with hlt | hge
    · left; rwa [append, List.getElem?_append_left hlt] at hi
    · right
      rw [append, List.getElem?_append_right hge, List.getElem?_singleton] at hi
      split_ifs at hi with h0
      exact ⟨by omega, (Option.some.inj hi).symm⟩
  refine ⟨?_, ?_, ?_, ?_, ?_, ?_⟩
  · rw [append, List.getElem?_append_left hpos]; exact hc.genesis
  · rw [append, List.nodup_append]
    exact ⟨hc.nodup, List.nodup_singleton _, fun a ha a' ha' h => by
      rw [List.mem_singleton] at ha'; exact hnew (ha' ▸ h ▸ ha)⟩
  · rw [append, List.mem_append, List.mem_singleton]
    rintro (h | h)
    · exact hc.hash_ne h
    · exact hh h.symm
  · intro h
    rw [append, Finmap.mem_insert, List.mem_append, List.mem_singleton, hc.mem_iff, or_comm]
  · intro i h hi
    rcases hsplit i h hi with hi | ⟨rfl, rfl⟩
    · rw [hold h (List.mem_of_getElem? hi)]; exact hc.number i h hi
    · exact ⟨_, Finmap.lookup_insert _, rfl, rfl⟩
  · intro i h h2 hi
    have hprev : (c.append b).hashes[i - 1]? = c.hashes[i - 1]? := by
      have : i - 1 < c.hashes.length := by
        have := (List.getElem?_eq_some_iff.1 hi).1
        simp only [append, List.length_append, List.length_singleton] at this; omega
      rw [append, List.getElem?_append_left this]
    rw [hprev]
    rcases hsplit i h hi with hi | ⟨rfl, rfl⟩
    · rw [header, hold h (List.mem_of_getElem? hi)]; exact hc.linked i h h2 hi
    · rw [append, header_insert, hc.getElem?_last]
      rcases (hc.parentNumber_iff b).1 hlen with hl | ⟨h0, -⟩
      · rw [hl]
      · rw [countBlocks] at h0; omega

theorem inv_addBlock {c : BlockChain} {b : BlockHeader} (hc : c.Inv) (hb : b.blockNumber = none) :
    (c.addBlock b).2.Inv := by
  rcases addBlock_spec hc.numbered hb with ⟨ha, he⟩ | ⟨-, m, he⟩
  · rw [he]; exact inv_append hc ha
  · rw [he]; exact hc

end BlockChain

end TorrentNode
