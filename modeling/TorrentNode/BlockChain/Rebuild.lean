/-
  Renumbering a stored chain.

  At start-up all headers are put into `blocks` without their numbers, and one
  `calcBlockchain` of the last hash numbers them.  `calcBlockchain_unnumbered`:
  if the headers are those of a linked chain, the call restores the chain,
  whatever its length.

  The walk back and the second pass are described by `numberFrom`, which gives
  a list of references consecutive numbers.
-/
import TorrentNode.BlockChain.Runs

open Wire

namespace TorrentNode

namespace BlockChain

/-! ## Consecutive numbers -/

/-- Number the headers `refs` with `n, n + 1, …`. -/
def numberFrom : ℕ → List Bytes → Blocks → Blocks
  | _, [], blocks => blocks
  | n, ref :: refs, blocks => numberFrom (n + 1) refs (setNumber blocks ref (some n))

theorem header_numberFrom_of_notMem {n : ℕ} {refs : List Bytes} {blocks : Blocks} {k : Bytes}
    (hk : k ∉ refs) : header (numberFrom n refs blocks) k = header blocks k := by
  induction refs generalizing n blocks with
  | nil => rfl
  | cons ref refs ih =>
    rw [List.mem_cons, not_or] at hk
    rw [numberFrom, ih hk.2, header_setNumber_of_ne _ hk.1]

theorem mem_numberFrom {n : ℕ} {refs : List Bytes} {blocks : Blocks} {k : Bytes} :
    k ∈ numberFrom n refs blocks ↔ k ∈ refs ∨ k ∈ blocks := by
  induction refs generalizing n blocks with
  | nil => simp [numberFrom]
  | cons ref refs ih =>
    rw [numberFrom, ih, mem_setNumber, List.mem_cons]; tauto

theorem header_numberFrom {n : ℕ} {refs : List Bytes} {blocks : Blocks} (hd : refs.Nodup)
    {i : ℕ} {k : Bytes} (hi : refs[i]? = some k) :
    header (numberFrom n refs blocks) k = { header blocks k with blockNumber := some (n + i) } := by
  induction refs generalizing n i blocks with
  | nil => simp at hi
  | cons ref refs ih =>
    rw [List.nodup_cons] at hd
    cases i with
    | zero =>
      obtain rfl : ref = k := by simpa using hi
      rw [numberFrom, header_numberFrom_of_notMem hd.1, header_setNumber, Nat.add_zero]
    | succ i =>
      rw [List.getElem?_cons_succ] at hi
      have hne : k ≠ ref := ne_of_mem_of_not_mem (List.mem_of_getElem? hi) hd.1
      rw [numberFrom, ih hd.2 hi, header_setNumber_of_ne _ hne, Nat.add_right_comm, Nat.add_assoc]

/-! ## The two passes -/

/-- The references `refs` lead from header to parent down to `stop`; none of them has a number. -/
def Descends (blocks : Blocks) (stop : Bytes) : List Bytes → Prop
  | [] => True
  | ref :: refs => (header blocks ref).blockNumber = none ∧
      (header blocks ref).prevHash = refs.headD stop ∧ refs.headD stop ≠ [] ∧
      refs.headD stop ∈ blocks ∧ Descends blocks stop refs

theorem Descends.congr {blocks blocks' : Blocks} {stop : Bytes} {refs : List Bytes}
    (hh : ∀ k ∈ refs, header blocks' k = header blocks k) (hm : ∀ k ∈ blocks, k ∈ blocks')
    (hd : Descends blocks stop refs) : Descends blocks' stop refs := by
  induction refs with
  | nil => trivial
  | cons ref refs ih =>
    obtain ⟨h1, h2, h3, h4, h5⟩ := hd
    have href := hh ref List.mem_cons_self
    refine ⟨by rw [href]; exact h1, by rw [href]; exact h2, h3, hm _ h4, ?_⟩
    exact ih (fun k hk => hh k (List.mem_cons_of_mem _ hk)) h5

/-- The walk back numbers all references and stops at the numbered header. -/
theorem walkBack_descends {stop : Bytes} {refs : List Bytes} (hd : refs.Nodup) :
    ∀ {fuel : ℕ} {w : Walk}, refs.length < fuel → w.bh = refs.headD stop → stop ∉ refs →
      (header w.blocks stop).blockNumber.isSome → Descends w.blocks stop refs →
      walkBack fuel w = (.ok (), ⟨numberFrom w.currNum refs w.blocks, stop,
        w.currNum + refs.length, refs.reverse ++ w.processedBlocks⟩) := by
  induction refs with
  | nil =>
    rintro fuel w hfuel hbh - hstop -
    obtain ⟨fuel, rfl⟩ := Nat.exists_eq_succ_of_ne_zero (Nat.ne_of_gt hfuel)
    have hbh' : w.bh = stop := hbh
    rw [walkBack_numbered (by rw [hbh']; exact hstop)]
    cases w; cases hbh'; rfl
  | cons ref refs ih =>
    rintro fuel w hfuel hbh hnot hstop ⟨h1, h2, h3, h4, h5⟩
    obtain ⟨fuel, rfl⟩ := Nat.exists_eq_succ_of_ne_zero (Nat.ne_of_gt (Nat.zero_lt_of_lt hfuel))
    rw [List.nodup_cons] at hd
    rw [List.mem_cons, not_or] at hnot
    have hbh' : w.bh = ref := hbh
    have hmem : refs.headD stop ∈ setNumber w.blocks ref (some w.currNum) :=
      mem_setNumber.2 (Or.inr h4)
    have hkeep : ∀ k ∈ refs, header (setNumber w.blocks ref (some w.currNum)) k =
        header w.blocks k := fun k hk => header_setNumber_of_ne _ (ne_of_mem_of_not_mem hk hd.1)
    rw [walkBack, hbh', h1, if_neg (by simp), h2, if_neg h3, if_pos hmem]
    rw [ih hd.2 (by simpa using hfuel) rfl hnot.2
      (by rw [header_setNumber_of_ne _ hnot.1]; exact hstop)
      (h5.congr hkeep fun k hk => mem_setNumber.2 (Or.inr hk))]
    simp only [numberFrom, List.reverse_cons, List.append_assoc, List.singleton_append,
      List.length_cons, Nat.add_assoc, Nat.add_comm 1]

/-- The second pass gives the references their final numbers and lists them. -/
theorem numberBlocks_spec {allNum : ℕ} {refs : List Bytes} (hd : refs.Nodup) :
    ∀ {c : BlockChain},
      (∀ i k, refs[i]? = some k → allNum - (header c.blocks k).blockNumber.getD 0 =
        c.hashes.length + i) →
      numberBlocks allNum refs c =
        (.ok (), ⟨numberFrom c.hashes.length refs c.blocks,
          c.hashes ++ refs.map fun k => (header c.blocks k).hash⟩) := by
  induction refs with
  | nil => rintro c -; simp [numberBlocks, numberFrom]
  | cons ref refs ih =>
    intro c hnum
    rw [List.nodup_cons] at hd
    have h0 := hnum 0 ref rfl
    rw [Nat.add_zero] at h0
    have hkeep : ∀ k ∈ refs, header (setNumber c.blocks ref (some c.hashes.length)) k =
        header c.blocks k := fun k hk => header_setNumber_of_ne _ (ne_of_mem_of_not_mem hk hd.1)
    have hhash : (refs.map fun k => (header (setNumber c.blocks ref (some c.hashes.length)) k).hash) =
        refs.map fun k => (header c.blocks k).hash :=
      List.map_congr_left fun k hk => by rw [hkeep k hk]
    simp only [numberBlocks, h0, ne_eq, not_true, if_false]
    rw [ih hd.2]
    · simp only [numberFrom, List.length_append, List.length_singleton, List.append_assoc,
        List.singleton_append, hhash, List.map_cons]
    · intro i k hi
      rw [hkeep k (List.mem_of_getElem? hi), hnum (i + 1) k (by simpa using hi)]
      simp only [List.length_append, List.length_singleton]; omega

theorem lookup_of_mem {blocks : Blocks} {k : Bytes} (hk : k ∈ blocks) :
    blocks.lookup k = some (header blocks k) := by
  obtain ⟨h, hl⟩ := Finmap.mem_iff.1 hk
  rw [header_of_lookup hl, hl]

section
variable {blocks : Blocks} {l : List Bytes} (hnodup : l.Nodup)
include hnodup

/-- The temporary number of `l[i]` counts from the end of `l`. -/
theorem header_numberFrom_reverse {i : ℕ} {k : Bytes} (hi : l[i]? = some k) :
    header (numberFrom 0 l.reverse blocks) k =
      { header blocks k with blockNumber := some (l.length - 1 - i) } := by
  have hlt := (List.getElem?_eq_some_iff.1 hi).1
  have hi' : l.reverse[l.length - 1 - i]? = some k := by
    rw [List.getElem?_reverse (by omega), ← hi]; congr 1; omega
  rw [header_numberFrom (List.nodup_reverse.2 hnodup) hi', Nat.zero_add]

/-- `calcBlockchain` on a chain that lists the genesis block only. -/
theorem calcBlockchain_descends (hgen : genesisHash ∉ l) (hne : l ≠ [])
    (hnum : (header blocks genesisHash).blockNumber = some 0)
    (hstored : ∀ h ∈ l, h ≠ [] ∧ h ∈ blocks ∧ (header blocks h).hash = h)
    (hdesc : Descends blocks genesisHash l.reverse) :
    calcBlockchain ⟨blocks, [genesisHash]⟩ (l.reverse.headD genesisHash) =
      (.ok l.length, ⟨numberFrom 1 l (numberFrom 0 l.reverse blocks), genesisHash :: l⟩) := by
  have hgen' : genesisHash ∉ l.reverse := by rwa [List.mem_reverse]
  have hlast : l.reverse.headD genesisHash ∈ l := by
    obtain ⟨r, rs, hr⟩ := List.exists_cons_of_ne_nil (List.reverse_ne_nil_iff.2 hne)
    rw [hr, List.headD_cons, ← List.mem_reverse, hr]
    exact List.mem_cons_self
  have hfuel : l.reverse.length < blocks.keys.card + 1 := by
    have hsub : l.toFinset ⊆ blocks.keys := by
      intro h hh
      exact Finmap.mem_keys.2 (hstored h (List.mem_toFinset.1 hh)).2.1
    have := Finset.card_le_card hsub
    rw [List.toFinset_card_of_nodup hnodup] at this
    rw [List.length_reverse]; omega
  have hwalk := walkBack_descends (List.nodup_reverse.2 hnodup)
    (w := ⟨blocks, l.reverse.headD genesisHash, 0, []⟩) hfuel rfl hgen' (by rw [hnum]; rfl) hdesc
  have hstop : (header (numberFrom 0 l.reverse blocks) genesisHash).blockNumber = some 0 := by
    rw [header_numberFrom_of_notMem hgen', hnum]
  have hsecond : numberBlocks l.length l ⟨numberFrom 0 l.reverse blocks, [genesisHash]⟩ =
      (.ok (), ⟨numberFrom 1 l (numberFrom 0 l.reverse blocks), genesisHash :: l⟩) := by
    have hhash : (l.map fun k => (header (numberFrom 0 l.reverse blocks) k).hash) = l := by
      refine (List.map_congr_left fun k hk => ?_).trans (List.map_id _)
      obtain ⟨i, hi⟩ := List.mem_iff_getElem?.1 hk
      rw [header_numberFrom_reverse hnodup hi]
      exact (hstored k hk).2.2
    rw [numberBlocks_spec hnodup]
    · simp only [hhash, List.length_singleton, List.singleton_append]
    · intro i k hi
      have hlt := (List.getElem?_eq_some_iff.1 hi).1
      rw [header_numberFrom_reverse hnodup hi]
      simp only [Option.getD_some, List.length_singleton]; omega
  rw [calcBlockchain, if_neg (hstored _ hlast).1, if_neg (not_not.2 (hstored _ hlast).2.1)]
  simp only [hwalk, hstop, Nat.zero_add, Nat.add_zero, List.length_reverse, List.reverse_reverse,
    List.append_nil, hsecond, Exec.ok_bind]

/-- Renumbering changes nothing but the numbers. -/
theorem header_renumbered {i : ℕ} {k : Bytes} (hi : l[i]? = some k) :
    header (numberFrom 1 l (numberFrom 0 l.reverse blocks)) k =
      { header blocks k with blockNumber := some (i + 1) } := by
  rw [header_numberFrom hnodup hi, header_numberFrom_reverse hnodup hi, Nat.add_comm 1]

omit hnodup in
/-- Renumbering leaves the other blocks alone. -/
theorem lookup_renumbered_of_notMem {h : Bytes} (hh : h ∉ l) :
    (numberFrom 1 l (numberFrom 0 l.reverse blocks)).lookup h = blocks.lookup h := by
  have hiff : h ∈ numberFrom 1 l (numberFrom 0 l.reverse blocks) ↔ h ∈ blocks := by
    rw [mem_numberFrom, mem_numberFrom, List.mem_reverse]; tauto
  by_cases hb : h ∈ blocks
  · rw [lookup_of_mem hb, lookup_of_mem (hiff.2 hb), header_numberFrom_of_notMem hh,
      header_numberFrom_of_notMem (by rwa [List.mem_reverse])]
  · rw [Finmap.lookup_eq_none.2 hb, Finmap.lookup_eq_none.2 (fun h' => hb (hiff.1 h'))]

end

/-! ## A linked chain -/

/-- `c'` has the hashes, the numbers and the stored header fields of `c`. -/
structure Restores (c' c : BlockChain) : Prop where
  hashes : c'.hashes = c.hashes
  headers : ∀ h, c'.blocks.lookup h = (c.blocks.lookup h).map fun bh => { bh with endBlockPos := 0 }

/-- A chain is restored in one way only. -/
theorem Restores.eq {c₁ c₂ c : BlockChain} (h₁ : c₁.Restores c) (h₂ : c₂.Restores c) : c₁ = c₂ := by
  obtain ⟨blocks₁, hashes₁⟩ := c₁
  obtain ⟨blocks₂, hashes₂⟩ := c₂
  have hblocks : blocks₁ = blocks₂ :=
    Finmap.ext_lookup fun h => (h₁.headers h).trans (h₂.headers h).symm
  rw [hblocks, show hashes₁ = hashes₂ from h₁.hashes.trans h₂.hashes.symm]

/-- The header of the genesis block. -/
def genesisHeader : BlockHeader := { hash := genesisHash, blockNumber := some 0 }

/-- `blocks` holds the genesis block and what is stored of the other headers of `c`. -/
structure HoldsStored (blocks : Blocks) (c : BlockChain) : Prop where
  genesis : blocks.lookup genesisHash = some genesisHeader
  others : ∀ h, h ≠ genesisHash → blocks.lookup h = (c.blocks.lookup h).map BlockHeader.persisted

/-- Nothing has to be restored of a hash that has no block of its own. -/
theorem HoldsStored.lookup_unlisted {blocks : Blocks} {c : BlockChain} (hm : HoldsStored blocks c)
    (hg : c.blocks.lookup genesisHash = some genesisHeader) {h : Bytes}
    (hno : h ≠ genesisHash → h ∉ c.blocks) :
    blocks.lookup h = (c.blocks.lookup h).map fun bh => { bh with endBlockPos := 0 } := by
  by_cases hh : h = genesisHash
  · rw [hh, hm.genesis, hg]; rfl
  · rw [hm.others h hh, Finmap.lookup_eq_none.2 (hno hh)]; rfl

section
variable {c : BlockChain} (hc : c.Inv)
include hc

theorem Inv.hashes_eq : c.hashes = genesisHash :: c.hashes.tail := by
  cases hh : c.hashes with
  | nil => have := hc.genesis; rw [hh] at this; simp at this
  | cons g l =>
    have := hc.genesis
    rw [hh, List.getElem?_cons_zero] at this
    rw [Option.some.inj this, List.tail_cons]

theorem Inv.tail_nodup : genesisHash ∉ c.hashes.tail ∧ c.hashes.tail.Nodup := by
  have := hc.nodup
  rwa [hc.hashes_eq, List.nodup_cons] at this

/-- The last of the first `n` hashes behind the genesis hash is the one with number `n`. -/
theorem Inv.getElem?_take {n : ℕ} (hn : n ≤ c.countBlocks) :
    c.hashes[n]? = some ((c.hashes.tail.take n).reverse.headD genesisHash) := by
  have htail : c.hashes.tail.length = c.countBlocks := by rw [List.length_tail]; rfl
  cases n with
  | zero => exact hc.genesis
  | succ n =>
    have hlt : n < c.hashes.tail.length := by omega
    rw [hc.hashes_eq, List.getElem?_cons_succ, List.tail_cons, List.take_succ_eq_append_getElem hlt,
      List.reverse_append, List.reverse_singleton, List.singleton_append,
      List.getElem?_eq_getElem hlt]
    rfl

theorem Inv.mem_of_holdsStored {blocks : Blocks} (hm : HoldsStored blocks c) {h : Bytes}
    (hh : h ∈ c.hashes) : h ∈ blocks := by
  by_cases hg : h = genesisHash
  · rw [hg]; exact Finmap.mem_of_lookup_eq_some hm.genesis
  · have hl := hm.others h hg
    rw [lookup_of_mem ((hc.mem_iff h).2 hh)] at hl
    exact Finmap.mem_of_lookup_eq_some hl

/-- The first `n` hashes behind the genesis hash, read from their end, lead down to it. -/
theorem Inv.descends {blocks : Blocks} (hl : c.Linked) (hm : HoldsStored blocks c) {n : ℕ}
    (hn : n ≤ c.countBlocks) : Descends blocks genesisHash (c.hashes.tail.take n).reverse := by
  have htail : c.hashes.tail.length = c.countBlocks := by rw [List.length_tail]; rfl
  induction n with
  | zero => trivial
  | succ n ih =>
    have hlt : n < c.hashes.tail.length := by omega
    have hprev := hc.getElem?_take (show n ≤ c.countBlocks by omega)
    have hnext : c.hashes[n + 1]? = some c.hashes.tail[n] := by
      rw [List.getElem_tail, List.getElem?_eq_getElem]
    rw [List.take_succ_eq_append_getElem hlt, List.reverse_append, List.reverse_singleton,
      List.singleton_append]
    obtain ⟨hlook, -, -⟩ := hc.getBlockNumber_spec hnext
    have hne : c.hashes.tail[n] ≠ genesisHash := fun h =>
      hc.tail_nodup.1 (h ▸ List.getElem_mem hlt)
    have hheader := header_of_lookup ((hm.others _ hne).trans (by rw [hlook]; rfl))
    have hlinked := hl (n + 1) (by omega) hn
    rw [Nat.add_sub_cancel, (hc.getBlockNumber_spec hprev).2.1] at hlinked
    refine ⟨by rw [hheader]; rfl, by rw [hheader]; exact hlinked, ?_, ?_, ih (by omega)⟩
    · exact fun h0 => hc.hash_ne (h0 ▸ List.mem_of_getElem? hprev)
    · exact hc.mem_of_holdsStored hm (List.mem_of_getElem? hprev)

theorem Inv.getLastBlock_hash : c.getLastBlock.hash = c.hashes.tail.reverse.headD genesisHash := by
  have hget := hc.getElem?_last
  rw [← List.getLast?_eq_getElem?, hc.hashes_eq, List.getLast?_cons] at hget
  rw [List.headD_eq_head?_getD, List.head?_reverse]
  exact (Option.some.inj hget).symm

/-- **Numbering restores a linked chain.** -/
theorem Inv.calcBlockchain_unnumbered {blocks : Blocks} (hl : c.Linked)
    (hg : c.blocks.lookup genesisHash = some genesisHeader) (hm : HoldsStored blocks c)
    (hpos : 0 < c.countBlocks) :
    ∃ c', calcBlockchain ⟨blocks, [genesisHash]⟩ c.getLastBlock.hash = (.ok c.countBlocks, c') ∧
      c'.Restores c := by
  obtain ⟨hgen, hnodup⟩ := hc.tail_nodup
  have hlen : c.hashes.tail.length = c.countBlocks := by rw [List.length_tail]; rfl
  have hdesc := hc.descends hl hm le_rfl
  rw [← hlen, List.take_length] at hdesc
  have hhashes := hc.hashes_eq
  rw [hc.getLastBlock_hash, ← hlen]
  generalize c.hashes.tail = l at hgen hnodup hlen hdesc hhashes ⊢
  have hget : ∀ {i h}, l[i]? = some h → ∃ bh, c.blocks.lookup h = some bh ∧ bh.hash = h ∧
      bh.blockNumber = some (i + 1) := by
    intro i h hi
    exact hc.number (i + 1) h (by rw [hhashes, List.getElem?_cons_succ, hi])
  have hlook : ∀ {h bh}, h ∈ l → c.blocks.lookup h = some bh →
      blocks.lookup h = some bh.persisted := by
    intro h bh hh hbh
    rw [hm.others h (ne_of_mem_of_not_mem hh hgen), hbh]; rfl
  have hstored : ∀ h ∈ l, h ≠ [] ∧ h ∈ blocks ∧ (header blocks h).hash = h := by
    intro h hh
    obtain ⟨i, hi⟩ := List.mem_iff_getElem?.1 hh
    obtain ⟨bh, hbh, hhash, -⟩ := hget hi
    refine ⟨fun h0 => hc.hash_ne ?_, Finmap.mem_of_lookup_eq_some (hlook hh hbh), ?_⟩
    · rw [hhashes, ← h0]; exact List.mem_cons_of_mem _ hh
    · rw [header_of_lookup (hlook hh hbh)]; exact hhash
  refine ⟨_, calcBlockchain_descends hnodup hgen (List.ne_nil_of_length_pos (by omega))
    (by rw [header_of_lookup hm.genesis]; rfl) hstored hdesc, hhashes.symm, ?_⟩
  intro h
  by_cases hh : h ∈ l
  · obtain ⟨i, hi⟩ := List.mem_iff_getElem?.1 hh
    obtain ⟨bh, hbh, -, hn⟩ := hget hi
    rw [lookup_of_mem (mem_numberFrom.2 (Or.inl hh)), header_renumbered hnodup hi,
      header_of_lookup (hlook hh hbh), hbh, Option.map_some]
    simp only [BlockHeader.persisted, ← hn]
  · rw [lookup_renumbered_of_notMem hh]
    refine hm.lookup_unlisted hg fun hne => ?_
    rw [hc.mem_iff, hhashes, List.mem_cons, not_or]
    exact ⟨hne, hh⟩

end

end BlockChain

end TorrentNode
