/-
  The two loops of `calcBlockchain` on arbitrary headers.

  The links of the headers may form cycles, and any of them may have numbers.  The
  first loop writes a number into each header it passes, so it does not pass a
  header twice, and on a cycle it stops at its own numbers.

  `calcBlockchain_terminates`: the first loop passes each header without a number
  at most once; the second one gives consecutive numbers, so it lists all headers
  or fails at the first one.
-/
import TorrentNode.BlockChain.Atomic

open Wire

namespace TorrentNode

namespace BlockChain

/-! ## Fuel -/

/-- More fuel does not change the result of the first loop. -/
theorem walkBack_add {fuel : ℕ} {w w' : Walk} {r : Exec Exn Unit} (h : walkBack fuel w = (r, w'))
    (hr : r ≠ .outOfFuel) (k : ℕ) : walkBack (fuel + k) w = (r, w') := by
  induction fuel generalizing w with
  | zero =>
    cases h
    exact absurd rfl hr
  | succ fuel ih =>
    rw [Nat.add_right_comm, walkBack]
    rw [walkBack] at h
    dsimp only at h ⊢
    split_ifs at h ⊢
    · exact h
    · exact h
    · exact ih h
    · exact h

/-! ## The two passes -/

/-- The second pass over the headers of the walk `w` numbers them from `first` on; it lists all of
    them, or fails at the first one and lists none. -/
structure PassesAll (c : BlockChain) (w : Walk) (allNum first : ℕ) : Prop where
  consecutive : ∀ i ref, w.processedBlocks[i]? = some ref →
    allNum - (header w.blocks ref).blockNumber.getD 0 = first + i
  result : numberBlocks allNum w.processedBlocks { c with blocks := w.blocks } =
      (.ok (), ⟨numberFrom first w.processedBlocks w.blocks,
        c.hashes ++ w.processedBlocks.map fun ref => (header c.blocks ref).hash⟩) ∨
    ∃ ref, w.processedBlocks.head? = some ref ∧ first ≠ c.hashes.length ∧
      numberBlocks allNum w.processedBlocks { c with blocks := w.blocks } =
        (.throw (.common "Ups"), { c with blocks := setNumber w.blocks ref (some first) })

theorem hash_numberFrom (n : ℕ) (refs : List Bytes) (blocks : Blocks) (k : Bytes) :
    (header (numberFrom n refs blocks) k).hash = (header blocks k).hash := by
  induction refs generalizing n blocks with
  | nil => rfl
  | cons ref refs ih =>
    rw [numberFrom, ih]
    by_cases hk : k = ref
    · rw [hk, header_setNumber]
    · rw [header_setNumber_of_ne _ hk]

/-- The second pass over the headers that a walk has passed. -/
theorem passesAll_walkedTo {c : BlockChain} {refs : List Bytes} (hd : refs.Nodup) (bh : Bytes) (n : ℕ) :
    PassesAll c (walkedTo c.blocks refs bh) (refs.length + n) (n + 1) := by
  have hnum : ∀ i k, refs.reverse[i]? = some k →
      refs.length + n - (header (numberFrom 0 refs c.blocks) k).blockNumber.getD 0 = n + 1 + i :=
    fun i k hi => number_walked hd n hi
  refine ⟨hnum, ?_⟩
  dsimp only [walkedTo]
  by_cases hne : refs.reverse = []
  · left
    rw [hne, numberBlocks, List.map_nil, List.append_nil, numberFrom]
  · rcases numberBlocks_consecutive (c := { c with blocks := numberFrom 0 refs c.blocks })
      (List.nodup_reverse.2 hd) hnum hne with ⟨-, hpass⟩ | ⟨hlen, ref, hfirst, hpass⟩
    · left
      simp only [hpass, hash_numberFrom]
    · exact Or.inr ⟨ref, hfirst, hlen, hpass⟩

/-- **The walk of `calcBlockchain` terminates on all headers.**  The first loop passes at most the
    headers without a number, whatever its fuel; the second one gives consecutive numbers and fails
    only at its first header; and `hashes` is extended by all headers passed, or not at all. -/
theorem calcBlockchain_terminates (c : BlockChain) (lastHash : Bytes) (hmem : lastHash ∈ c.blocks) :
    ∃ r w, (∀ fuel, (unnumbered c.blocks).card < fuel →
        walkBack fuel ⟨c.blocks, lastHash, 0, []⟩ = (r, w)) ∧
      w.processedBlocks.length ≤ (unnumbered c.blocks).card ∧
      ((∃ message, r = .throw (.common message)) ∨
        r = .ok () ∧ ∃ n, (header w.blocks w.bh).blockNumber = some n ∧
          PassesAll c w (w.currNum + n) (n + 1)) ∧
      ((c.calcBlockchain lastHash).2.hashes = c.hashes ∨
        ∃ n, (c.calcBlockchain lastHash).1 = .ok n ∧ (c.calcBlockchain lastHash).2.hashes =
          c.hashes ++ w.processedBlocks.map fun ref => (header c.blocks ref).hash) := by
  obtain ⟨refs, found, he, hl⟩ := @walkBack_ends _ ((unnumbered c.blocks).card + 1) _ _
    (.nil c.blocks) hmem (Nat.lt_succ_self _)
  have hu := he.unnumbered (.nil _) hmem
  have hlength : refs.reverse.length ≤ (unnumbered c.blocks).card := by
    rw [List.length_reverse]
    exact hu.length_le
  have hfuel : ∀ {r w}, walkBack ((unnumbered c.blocks).card + 1) (walkedTo c.blocks [] lastHash) =
      (r, w) → r ≠ .outOfFuel → ∀ fuel, (unnumbered c.blocks).card < fuel →
      walkBack fuel (walkedTo c.blocks [] lastHash) = (r, w) := by
    intro r w hwalk hr fuel hlt
    have hmore := walkBack_add hwalk hr (fuel - ((unnumbered c.blocks).card + 1))
    rwa [Nat.add_sub_cancel' hlt] at hmore
  have hcard := Nat.lt_succ_of_le (unnumbered_card_le c.blocks)
  have hempty : lastHash = [] → (c.calcBlockchain lastHash).2.hashes = c.hashes := by
    intro h
    rw [calcBlockchain, if_pos h]
  cases found with
  | none =>
    obtain ⟨bh, hwalk⟩ := hl
    have hwalk := hfuel hwalk (by simp)
    refine ⟨_, _, hwalk, hlength, Or.inl ⟨_, rfl⟩, Or.inl ?_⟩
    by_cases hh : lastHash = []
    · exact hempty hh
    · rw [calcBlockchain_of_throw hh hmem (hwalk _ hcard)]
  | some n =>
    obtain ⟨bh, hwalk, hn⟩ := hl
    have hwalk := hfuel hwalk (by simp)
    have hpass := @passesAll_walkedTo c _ hu.nodup bh n
    refine ⟨_, _, hwalk, hlength, Or.inr ⟨rfl, n, hn, hpass⟩, ?_⟩
    by_cases hh : lastHash = []
    · exact Or.inl (hempty hh)
    · rw [calcBlockchain_of_ok hh hmem (hwalk _ hcard) hn]
      rcases hpass.result with hall | ⟨ref, -, -, hfails⟩
      · right
        rw [show (walkedTo c.blocks refs bh).currNum = refs.length from rfl, hall]
        exact ⟨_, rfl, rfl⟩
      · left
        rw [show (walkedTo c.blocks refs bh).currNum = refs.length from rfl, hfails]

/-- Two headers, each the parent of the other. -/
def cyclicHeaders : BlockChain where
  blocks := (new.blocks.insert [1] { hash := [1], prevHash := [2] }).insert [2]
    { hash := [2], prevHash := [1] }
  hashes := new.hashes

/-- On a cycle of two headers the walk passes at most two. -/
theorem calcBlockchain_cycle :
    [1] ∈ cyclicHeaders.blocks ∧ (unnumbered cyclicHeaders.blocks).card = 2 ∧
      ∃ r w, (∀ fuel, 2 < fuel → walkBack fuel ⟨cyclicHeaders.blocks, [1], 0, []⟩ = (r, w)) ∧
        w.processedBlocks.length ≤ 2 := by
  have hmem : [1] ∈ cyclicHeaders.blocks := by decide +kernel
  have hcard : (unnumbered cyclicHeaders.blocks).card = 2 := by decide +kernel
  obtain ⟨r, w, hwalk, hlength, -⟩ := calcBlockchain_terminates cyclicHeaders [1] hmem
  rw [hcard] at hwalk hlength
  exact ⟨hmem, hcard, r, w, hwalk, hlength⟩

end BlockChain

end TorrentNode
