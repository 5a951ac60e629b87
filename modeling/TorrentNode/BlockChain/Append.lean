/-
  `addBlock` on a chain all of whose headers are numbered.

  The walk of `calcBlockchain` then makes one step: it stops at the parent, or
  at the new header itself if the parent is missing.  `addBlock_spec`: the
  call appends the block or leaves the chain as it was.
-/
import TorrentNode.BlockChain

open Wire

namespace TorrentNode

namespace BlockChain

/-- The chain with `b` as its last block. -/
def append (c : BlockChain) (b : BlockHeader) : BlockChain where
  blocks := c.blocks.insert b.hash { b with blockNumber := some c.hashes.length }
  hashes := c.hashes ++ [b.hash]

/-- The chain with `b` stored under the number `n`, not listed yet. -/
def withHeader (c : BlockChain) (b : BlockHeader) (n : Option ℕ) : BlockChain :=
  { c with blocks := c.blocks.insert b.hash { b with blockNumber := n } }

/-- Every stored header has a number. -/
def Numbered (c : BlockChain) : Prop := ∀ k ∈ c.blocks, (header c.blocks k).blockNumber.isSome

/-- The number `calcBlockchain` finds at the end of its walk: that of the parent, or the temporary
    `0` of the new header itself if the parent is not stored. -/
def parentNumber (c : BlockChain) (b : BlockHeader) : ℕ :=
  if b.prevHash ∈ c.blocks then (header c.blocks b.prevHash).blockNumber.getD 0 else 0

/-! ## One call -/

section
variable {c : BlockChain} {b : BlockHeader}

/-- The walk from a new header. -/
theorem walkBack_new (hfresh : b.hash ∉ c.blocks) (hb : b.blockNumber = none) (hc : c.Numbered)
    (hp : b.prevHash ≠ []) (fuel : ℕ) :
    walkBack (fuel + 2) ⟨c.blocks.insert b.hash b, b.hash, 0, []⟩ =
      (.ok (), ⟨c.blocks.insert b.hash { b with blockNumber := some 0 },
        if b.prevHash ∈ c.blocks then b.prevHash else b.hash, 1, [b.hash]⟩) := by
  rw [walkBack]
  simp only [header_insert, hb, Option.isSome_none, Bool.false_eq_true, if_false, hp,
    setNumber_insert, Finmap.mem_insert, Nat.zero_add]
  by_cases hself : b.prevHash = b.hash
  · rw [if_pos (Or.inl hself), walkBack_numbered (by simp [hself]), if_neg (hself ▸ hfresh), hself]
  · by_cases hmem : b.prevHash ∈ c.blocks
    · rw [if_pos (Or.inr hmem), if_pos hmem,
        walkBack_numbered (by rw [header_insert_of_ne _ hself]; exact hc _ hmem)]
    · rw [if_neg (by simp [hself, hmem]), if_neg hmem]

theorem walkBack_no_parent (hb : b.blockNumber = none) (hp : b.prevHash = []) (fuel : ℕ) :
    walkBack (fuel + 1) ⟨c.blocks.insert b.hash b, b.hash, 0, []⟩ =
      (.throw (.common "Empty block hash"),
        ⟨c.blocks.insert b.hash { b with blockNumber := some 0 }, b.hash, 1, [b.hash]⟩) := by
  rw [walkBack]
  simp [hb, hp]

/-- Where the walk from a new header ends, `parentNumber` is found. -/
theorem number_walk_end (hfresh : b.hash ∉ c.blocks) (hc : c.Numbered) :
    (header (c.blocks.insert b.hash { b with blockNumber := some 0 })
      (if b.prevHash ∈ c.blocks then b.prevHash else b.hash)).blockNumber =
        some (c.parentNumber b) := by
  by_cases hmem : b.prevHash ∈ c.blocks
  · have hne : b.prevHash ≠ b.hash := fun h => hfresh (h ▸ hmem)
    obtain ⟨n, hn⟩ := Option.isSome_iff_exists.1 (hc _ hmem)
    rw [if_pos hmem, header_insert_of_ne _ hne, parentNumber, if_pos hmem, hn]; rfl
  · rw [if_neg hmem, header_insert, parentNumber, if_neg hmem]

/-- `calcBlockchain` of a header added just now. -/
theorem calcBlockchain_new (hfresh : b.hash ∉ c.blocks) (hb : b.blockNumber = none)
    (hc : c.Numbered) (hh : b.hash ≠ []) (hp : b.prevHash ≠ []) :
    calcBlockchain { c with blocks := c.blocks.insert b.hash b } b.hash =
      if c.parentNumber b + 1 = c.hashes.length then (.ok c.hashes.length, c.append b)
      else (.throw (.common "Ups"), c.withHeader b (some (c.parentNumber b + 1))) := by
  have hmem : b.hash ∈ c.blocks.insert b.hash b := Finmap.mem_insert.2 (Or.inl rfl)
  obtain ⟨fuel, hf⟩ : ∃ fuel, (c.blocks.insert b.hash b).keys.card + 1 = fuel + 2 := by
    have := Finset.card_pos.2 ⟨b.hash, Finmap.mem_keys.2 hmem⟩
    exact ⟨(c.blocks.insert b.hash b).keys.card - 1, by omega⟩
  rw [calcBlockchain, if_neg hh, if_neg (not_not.2 hmem)]
  simp only [hf, walkBack_new hfresh hb hc hp, number_walk_end hfresh hc, numberBlocks,
    header_insert, Option.getD_some, Nat.sub_zero, setNumber_insert, Nat.add_comm 1]
  by_cases hlen : c.parentNumber b + 1 = c.hashes.length
  · simp only [hlen, ne_eq, not_true, if_false, if_true, Exec.ok_bind, append]
  · simp only [hlen, ne_eq, not_false_eq_true, if_true, if_false, Exec.throw_bind,
      withHeader]

end

/-- The calls that append their block. -/
def Accepts (c : BlockChain) (b : BlockHeader) : Prop :=
  b.hash ≠ [] ∧ b.hash ∉ c.blocks ∧ b.prevHash ≠ [] ∧ c.parentNumber b + 1 = c.hashes.length

instance (c : BlockChain) (b : BlockHeader) : Decidable (c.Accepts b) :=
  inferInstanceAs (Decidable (_ ∧ _))

/-- **One call**: the block is appended, or the call throws and the chain is as before. -/
theorem addBlock_spec {c : BlockChain} {b : BlockHeader} (hc : c.Numbered)
    (hb : b.blockNumber = none) :
    (c.Accepts b ∧ c.addBlock b = (.ok c.hashes.length, c.append b)) ∨
      (¬ c.Accepts b ∧ ∃ message, c.addBlock b = (.throw (.common message), c)) := by
  by_cases hh : b.hash = []
  · refine Or.inr ⟨fun h => h.1 hh, "Empty block hash", ?_⟩
    simp only [addBlock, addWithoutCalc, hh, if_true, Exec.throw_bind]
  by_cases hmem : b.hash ∈ c.blocks
  · refine Or.inr ⟨fun h => h.2.1 hmem, "Block " ++ text b.hash ++ " already exist", ?_⟩
    simp only [addBlock, addWithoutCalc, hh, hmem, if_true, if_false]
  have hadd : addWithoutCalc c b = (.ok false, { c with blocks := c.blocks.insert b.hash b }) := by
    rw [addWithoutCalc, if_neg hh, if_neg hmem]
  have hremove : ∀ n, (c.withHeader b n).removeBlock b = (.ok (), c) := by
    intro n
    rw [removeBlock, if_neg hh, withHeader]
    simp only [erase_insert _ hmem]
  by_cases hp : b.prevHash = []
  · refine Or.inr ⟨fun h => h.2.2.1 hp, "Empty block hash", ?_⟩
    have hin : b.hash ∈ c.blocks.insert b.hash b := Finmap.mem_insert.2 (Or.inl rfl)
    have hcalc : calcBlockchain { c with blocks := c.blocks.insert b.hash b } b.hash =
        (.throw (.common "Empty block hash"), c.withHeader b (some 0)) := by
      rw [calcBlockchain, if_neg hh, if_neg (not_not.2 hin)]
      simp only [walkBack_no_parent hb hp, Exec.throw_bind, withHeader]
    simp only [addBlock, hadd, hcalc, hremove]
  · have hcalc := calcBlockchain_new hmem hb hc hh hp
    by_cases hlen : c.parentNumber b + 1 = c.hashes.length
    · rw [if_pos hlen] at hcalc
      exact Or.inl ⟨⟨hh, hmem, hp, hlen⟩, by simp only [addBlock, hadd, hcalc]⟩
    · rw [if_neg hlen] at hcalc
      exact Or.inr ⟨fun h => hlen h.2.2.2, "Ups", by simp only [addBlock, hadd, hcalc, hremove]⟩

/-- A call that returns has appended its block. -/
theorem addBlock_of_ok {c : BlockChain} {b : BlockHeader} {n : ℕ} (hc : c.Numbered)
    (hb : b.blockNumber = none) (h : (c.addBlock b).1 = .ok n) :
    c.Accepts b ∧ c.addBlock b = (.ok c.hashes.length, c.append b) := by
  rcases addBlock_spec hc hb with haccepted | ⟨-, message, he⟩
  · exact haccepted
  · rw [he] at h
    cases h

end BlockChain

end TorrentNode
