/-
  Calls that fail.

  The walk of `calcBlockchain` numbers the headers it passes before it is known
  whether the branch attaches to the last block.  The source has a branch that
  takes the numbers back, but the header at the end of the walk always has a
  number, so it is not reached; and `addBlock` removes its own header only.

  * `WalkEnds` describes the walk on the headers before the call, and
    `walkBack_ends` says that the loop does what it describes;
  * `calcBlockchain_walk`: the call succeeds iff the number found at the end of
    the walk is that of the last block, and else leaves every header it passed
    with a number;
  * `along_atomic_iff`: every failing call of a run leaves the index as it was
    iff every call that walks over stored headers attaches them.
-/
import TorrentNode.BlockChain.Rebuild

open Wire

namespace TorrentNode

namespace BlockChain

/-! ## The walk -/

/-- The walk back from `h`, once it has passed the headers `walked`, passes the headers `refs` in
    all and finds the number `r` at its end. -/
inductive WalkEnds (blocks : Blocks) : List Bytes → Bytes → List Bytes → Option ℕ → Prop
  /-- a header with a number -/
  | numbered {walked : List Bytes} {h : Bytes} {n : ℕ} (hw : h ∉ walked)
      (hn : (header blocks h).blockNumber = some n) : WalkEnds blocks walked h walked (some n)
  /-- a header passed before; its temporary number is its place among them -/
  | cycle {walked : List Bytes} {h : Bytes} (hw : h ∈ walked) :
      WalkEnds blocks walked h walked (some (walked.idxOf h))
  /-- the parent is not stored; the temporary number of the header itself is found -/
  | orphan {walked : List Bytes} {h : Bytes} (hw : h ∉ walked)
      (hn : (header blocks h).blockNumber = none) (hp : (header blocks h).prevHash ≠ [])
      (hm : (header blocks h).prevHash ∉ blocks) :
      WalkEnds blocks walked h (walked ++ [h]) (some walked.length)
  /-- no parent is named -/
  | noParent {walked : List Bytes} {h : Bytes} (hw : h ∉ walked)
      (hn : (header blocks h).blockNumber = none) (hp : (header blocks h).prevHash = []) :
      WalkEnds blocks walked h (walked ++ [h]) none
  | parent {walked refs : List Bytes} {h : Bytes} {r : Option ℕ} (hw : h ∉ walked)
      (hn : (header blocks h).blockNumber = none) (hp : (header blocks h).prevHash ≠ [])
      (hm : (header blocks h).prevHash ∈ blocks)
      (hr : WalkEnds blocks (walked ++ [h]) (header blocks h).prevHash refs r) :
      WalkEnds blocks walked h refs r

/-- The branch of `h` attaches to the last block. -/
def Attaches (c : BlockChain) (h : Bytes) : Prop :=
  ∃ refs n, WalkEnds c.blocks [] h refs (some n) ∧ n + 1 = c.hashes.length

/-- The headers `walked` are stored, without numbers, and no two of them are the same. -/
structure Unnumbered (blocks : Blocks) (walked : List Bytes) : Prop where
  nodup : walked.Nodup
  mem : ∀ k ∈ walked, k ∈ blocks
  none : ∀ k ∈ walked, (header blocks k).blockNumber = none

theorem Unnumbered.nil (blocks : Blocks) : Unnumbered blocks [] :=
  ⟨List.nodup_nil, by simp, by simp⟩

theorem Unnumbered.snoc {blocks : Blocks} {walked : List Bytes} {h : Bytes}
    (hu : Unnumbered blocks walked) (hw : h ∉ walked) (hm : h ∈ blocks)
    (hn : (header blocks h).blockNumber = .none) : Unnumbered blocks (walked ++ [h]) where
  nodup := by
    rw [← List.concat_eq_append]
    exact hu.nodup.concat hw
  mem k hk := by
    rcases List.mem_append.1 hk with hk | hk
    · exact hu.mem k hk
    · rwa [List.mem_singleton.1 hk]
  none k hk := by
    rcases List.mem_append.1 hk with hk | hk
    · exact hu.none k hk
    · rwa [List.mem_singleton.1 hk]

/-- The headers without a number. -/
def unnumbered (blocks : Blocks) : Finset Bytes :=
  blocks.keys.filter fun k => (header blocks k).blockNumber = none

theorem unnumbered_card_le (blocks : Blocks) : (unnumbered blocks).card ≤ blocks.keys.card :=
  Finset.card_filter_le _ _

theorem Unnumbered.length_le {blocks : Blocks} {walked : List Bytes}
    (hu : Unnumbered blocks walked) : walked.length ≤ (unnumbered blocks).card := by
  rw [← List.toFinset_card_of_nodup hu.nodup]
  apply Finset.card_le_card
  intro k hk
  have hk := List.mem_toFinset.1 hk
  exact Finset.mem_filter.2 ⟨Finmap.mem_keys.2 (hu.mem k hk), hu.none k hk⟩

/-- The parent of `h` is another stored header, and has no number either. -/
def UnnumberedParent (blocks : Blocks) (h : Bytes) : Prop :=
  (header blocks h).prevHash ≠ [] ∧ (header blocks h).prevHash ∈ blocks ∧
    (header blocks h).prevHash ≠ h ∧
    (header blocks (header blocks h).prevHash).blockNumber = none

namespace WalkEnds
variable {blocks : Blocks} {walked refs : List Bytes} {h : Bytes} {r : Option ℕ}

/-- The end of the walk is determined by the headers. -/
theorem unique {refs' : List Bytes} {r' : Option ℕ} (h₁ : WalkEnds blocks walked h refs r)
    (h₂ : WalkEnds blocks walked h refs' r') : r = r' := by
  induction h₁ with
  | numbered hw hn => cases h₂ <;> simp_all
  | cycle hw => cases h₂ <;> simp_all
  | orphan hw hn hp hm => cases h₂ <;> simp_all
  | noParent hw hn hp => cases h₂ <;> simp_all
  | parent hw hn hp hm _ ih =>
    cases h₂ with
    | numbered _ hn' => simp_all
    | cycle hw' => exact absurd hw' hw
    | orphan _ _ _ hm' => exact absurd hm hm'
    | noParent _ _ hp' => exact absurd hp' hp
    | parent _ _ _ _ hr => exact ih hr

theorem unnumbered (he : WalkEnds blocks walked h refs r) (hu : Unnumbered blocks walked)
    (hm : h ∈ blocks) : Unnumbered blocks refs := by
  induction he with
  | numbered hw hn => exact hu
  | cycle hw => exact hu
  | orphan hw hn hp _ => exact hu.snoc hw hm hn
  | noParent hw hn hp => exact hu.snoc hw hm hn
  | parent hw hn hp hm' _ ih => exact ih (hu.snoc hw hm hn) hm'

/-- The walk only adds to the headers passed. -/
theorem subset (he : WalkEnds blocks walked h refs r) : ∀ k ∈ walked, k ∈ refs := by
  induction he with
  | numbered hw hn => exact fun k hk => hk
  | cycle hw => exact fun k hk => hk
  | orphan hw hn hp _ => exact fun k hk => List.mem_append_left _ hk
  | noParent hw hn hp => exact fun k hk => List.mem_append_left _ hk
  | parent hw hn hp hm' _ ih => exact fun k hk => ih k (List.mem_append_left _ hk)

/-- A header without a number is passed. -/
theorem mem (he : WalkEnds blocks walked h refs r) (hn : (header blocks h).blockNumber = none)
    (hw : h ∉ walked) : h ∈ refs := by
  cases he with
  | numbered _ hn' => rw [hn] at hn'; cases hn'
  | cycle hw' => exact absurd hw' hw
  | orphan => simp
  | noParent => simp
  | parent _ _ _ _ hr => exact hr.subset h (by simp)

/-- The first step: the parent is another stored header without a number and is passed too, or
    only `h` is passed. -/
theorem first (he : WalkEnds blocks [] h refs r) (hn : (header blocks h).blockNumber = none) :
    (UnnumberedParent blocks h ∧ (header blocks h).prevHash ∈ refs) ∨
      (¬ UnnumberedParent blocks h ∧ refs = [h]) := by
  cases he with
  | numbered _ hn' => rw [hn] at hn'; cases hn'
  | cycle hw => cases hw
  | orphan _ _ _ hm => exact Or.inr ⟨fun h => hm h.2.1, rfl⟩
  | noParent _ _ hp => exact Or.inr ⟨fun h => h.1 hp, rfl⟩
  | parent _ _ hp hm hr =>
    cases hr with
    | numbered _ hn' => exact Or.inr ⟨fun h => absurd (h.2.2.2.symm.trans hn') (by simp), rfl⟩
    | cycle hw => exact Or.inr ⟨fun h => h.2.2.1 (by simpa using hw), rfl⟩
    | orphan hw hn' _ _ => exact Or.inl ⟨⟨hp, hm, by simpa using hw, hn'⟩, by simp⟩
    | noParent hw hn' _ => exact Or.inl ⟨⟨hp, hm, by simpa using hw, hn'⟩, by simp⟩
    | parent hw hn' _ _ hr =>
      exact Or.inl ⟨⟨hp, hm, by simpa using hw, hn'⟩, hr.subset _ (by simp)⟩

end WalkEnds

/-! ## What the walk leaves -/

theorem numberFrom_snoc (n : ℕ) (refs : List Bytes) (k : Bytes) (blocks : Blocks) :
    numberFrom n (refs ++ [k]) blocks =
      setNumber (numberFrom n refs blocks) k (some (n + refs.length)) := by
  induction refs generalizing n blocks with
  | nil => rfl
  | cons ref refs ih =>
    rw [List.cons_append, numberFrom, ih, numberFrom, List.length_cons, Nat.add_assoc,
      Nat.add_comm 1]

/-- The headers of `blocks` with numbers written to `refs`. -/
structure Marked (blocks : Blocks) (refs : List Bytes) (blocks' : Blocks) : Prop where
  others : ∀ k, k ∉ refs → blocks'.lookup k = blocks.lookup k
  some : ∀ k ∈ refs, (header blocks' k).blockNumber.isSome

theorem lookup_setNumber_of_ne {blocks : Blocks} {ref k : Bytes} (n : Option ℕ) (hne : k ≠ ref) :
    (setNumber blocks ref n).lookup k = blocks.lookup k := Finmap.lookup_insert_of_ne _ hne

theorem Marked.setNumber {blocks blocks' : Blocks} {refs : List Bytes} {ref : Bytes}
    (hm : Marked blocks refs blocks') (href : ref ∈ refs) (n : ℕ) :
    Marked blocks refs (setNumber blocks' ref (.some n)) where
  others k hk := by
    rw [lookup_setNumber_of_ne _ (ne_of_mem_of_not_mem href hk).symm]
    exact hm.others k hk
  some k hk := by
    by_cases hkr : k = ref
    · rw [hkr, header_setNumber]; rfl
    · rw [header_setNumber_of_ne _ hkr]; exact hm.some k hk

theorem marked_numberFrom {blocks : Blocks} {refs : List Bytes} (hd : refs.Nodup) (n : ℕ) :
    Marked blocks refs (numberFrom n refs blocks) where
  others k hk := by
    induction refs generalizing n blocks with
    | nil => rfl
    | cons ref refs ih =>
      rw [List.mem_cons, not_or] at hk
      rw [numberFrom, ih (List.nodup_cons.1 hd).2 _ hk.2, lookup_setNumber_of_ne _ hk.1]
  some k hk := by
    obtain ⟨i, hi⟩ := List.mem_iff_getElem?.1 hk
    rw [header_numberFrom hd hi]; rfl

/-- The state of the loop once it has passed the headers `refs`. -/
def walkedTo (blocks : Blocks) (refs : List Bytes) (bh : Bytes) : Walk :=
  ⟨numberFrom 0 refs blocks, bh, refs.length, refs.reverse⟩

/-- The loop ends with the number `r` at its last header, or throws if there is none. -/
def LoopEnds (blocks : Blocks) (refs : List Bytes) (result : Exec Exn Unit × Walk) :
    Option ℕ → Prop
  | some n => ∃ bh, result = (.ok (), walkedTo blocks refs bh) ∧
      (header (numberFrom 0 refs blocks) bh).blockNumber = some n
  | none => ∃ bh, result = (.throw (.common "Empty block hash"), walkedTo blocks refs bh)

/-- **The loop walks as described**, if its fuel exceeds the headers without a number. -/
theorem walkBack_ends {blocks : Blocks} :
    ∀ {fuel : ℕ} {walked : List Bytes} {h : Bytes}, Unnumbered blocks walked → h ∈ blocks →
      (unnumbered blocks).card < fuel + walked.length →
      ∃ refs r, WalkEnds blocks walked h refs r ∧
        LoopEnds blocks refs (walkBack fuel (walkedTo blocks walked h)) r := by
  intro fuel
  induction fuel with
  | zero =>
    intro walked h hu _ hfuel
    have := hu.length_le
    omega
  | succ fuel ih =>
    intro walked h hu hmem hfuel
    by_cases hw : h ∈ walked
    · -- the loop stops at the temporary number
      have hidx : walked[walked.idxOf h]? = some h := List.getElem?_idxOf hw
      have hnum : (header (numberFrom 0 walked blocks) h).blockNumber =
          some (walked.idxOf h) := by
        rw [header_numberFrom hu.nodup hidx, Nat.zero_add]
      refine ⟨walked, _, .cycle hw, h, ?_, hnum⟩
      rw [walkBack_numbered (by rw [walkedTo, hnum]; rfl)]
    have hheader : header (numberFrom 0 walked blocks) h = header blocks h :=
      header_numberFrom_of_notMem hw
    rcases hn : (header blocks h).blockNumber with _ | n
    swap
    · refine ⟨walked, _, .numbered hw hn, h, ?_, by rw [hheader, hn]⟩
      rw [walkBack_numbered (by rw [walkedTo, hheader, hn]; rfl)]
    have hnext : setNumber (numberFrom 0 walked blocks) h (some walked.length) =
        numberFrom 0 (walked ++ [h]) blocks := by
      rw [numberFrom_snoc, Nat.zero_add]
    have hiff : (header blocks h).prevHash ∈ numberFrom 0 (walked ++ [h]) blocks ↔
        (header blocks h).prevHash ∈ blocks := by
      rw [mem_numberFrom]
      constructor
      · rintro (hk | hk)
        · exact (hu.snoc hw hmem hn).mem _ hk
        · exact hk
      · exact Or.inr
    have hstep : walkBack (fuel + 1) (walkedTo blocks walked h) =
        if (header blocks h).prevHash = [] then
          (.throw (.common "Empty block hash"), walkedTo blocks (walked ++ [h]) h)
        else if (header blocks h).prevHash ∈ blocks then
          walkBack fuel (walkedTo blocks (walked ++ [h]) (header blocks h).prevHash)
        else (.ok (), walkedTo blocks (walked ++ [h]) h) := by
      rw [walkBack]
      simp only [walkedTo, hheader, hn, Option.isSome_none, Bool.false_eq_true, if_false, hnext,
        hiff, List.length_append, List.length_singleton, List.reverse_append,
        List.reverse_singleton, List.singleton_append]
    rw [hstep]
    by_cases hp : (header blocks h).prevHash = []
    · exact ⟨_, _, .noParent hw hn hp, h, by rw [if_pos hp]⟩
    by_cases hm : (header blocks h).prevHash ∈ blocks
    · rw [if_neg hp, if_pos hm]
      obtain ⟨refs, r, he, hl⟩ := ih (hu.snoc hw hmem hn) hm
        (by rw [List.length_append, List.length_singleton]; omega)
      exact ⟨refs, r, .parent hw hn hp hm he, hl⟩
    · refine ⟨_, _, .orphan hw hn hp hm, h, by rw [if_neg hp, if_neg hm], ?_⟩
      rw [← hnext, header_setNumber]

/-! ## One call -/

/-- The second pass reads the temporary numbers back: the last header passed comes first and gets the
    number `n + 1`. -/
theorem number_walked {blocks : Blocks} {refs : List Bytes} (hd : refs.Nodup) (n : ℕ) {i : ℕ}
    {k : Bytes} (hi : refs.reverse[i]? = some k) :
    refs.length + n - (header (numberFrom 0 refs blocks) k).blockNumber.getD 0 = n + 1 + i := by
  have hlt := (List.getElem?_eq_some_iff.1 hi).1
  have hk : header (numberFrom 0 refs.reverse.reverse blocks) k = _ :=
    header_numberFrom_reverse (List.nodup_reverse.2 hd) hi
  rw [List.reverse_reverse] at hk
  rw [List.length_reverse] at hk hlt
  rw [hk, Option.getD_some]; omega

/-- A second pass that finds consecutive numbers lists all headers, or fails at the first one. -/
theorem numberBlocks_consecutive {c : BlockChain} {refs : List Bytes} (hd : refs.Nodup)
    {allNum first : ℕ} (hnum : ∀ i k, refs[i]? = some k →
      allNum - (header c.blocks k).blockNumber.getD 0 = first + i) (hne : refs ≠ []) :
    (first = c.hashes.length ∧ numberBlocks allNum refs c =
      (.ok (), ⟨numberFrom first refs c.blocks,
        c.hashes ++ refs.map fun k => (header c.blocks k).hash⟩)) ∨
    (first ≠ c.hashes.length ∧ ∃ ref, refs.head? = some ref ∧ numberBlocks allNum refs c =
      (.throw (.common "Ups"), { c with blocks := setNumber c.blocks ref (some first) })) := by
  by_cases hlen : first = c.hashes.length
  · refine Or.inl ⟨hlen, ?_⟩
    rw [numberBlocks_spec hd (by rwa [← hlen]), hlen]
  · obtain ⟨ref, rest, rfl⟩ := List.exists_cons_of_ne_nil hne
    have hfirst := hnum 0 ref rfl
    refine Or.inr ⟨hlen, ref, rfl, ?_⟩
    rw [numberBlocks]
    simp only [hfirst, Nat.add_zero, ne_eq, hlen, not_false_eq_true, if_true]

/-- The second pass over the headers of a walk that found the number `n`. -/
theorem numberBlocks_walked {c : BlockChain} {refs : List Bytes} (hd : refs.Nodup) (n : ℕ)
    (hne : refs ≠ []) :
    (n + 1 = c.hashes.length ∧ (numberBlocks (refs.length + n) refs.reverse
      { c with blocks := numberFrom 0 refs c.blocks }).1 = .ok ()) ∨
    (n + 1 ≠ c.hashes.length ∧ ∃ blocks', Marked c.blocks refs blocks' ∧
      numberBlocks (refs.length + n) refs.reverse
        { c with blocks := numberFrom 0 refs c.blocks } =
          (.throw (.common "Ups"), { c with blocks := blocks' })) := by
  rcases numberBlocks_consecutive (c := { c with blocks := numberFrom 0 refs c.blocks })
      (List.nodup_reverse.2 hd) (fun i k hi => number_walked hd n hi) (List.reverse_ne_nil_iff.2 hne)
    with ⟨hlen, hpass⟩ | ⟨hlen, ref, hfirst, hpass⟩
  · exact Or.inl ⟨hlen, by rw [hpass]⟩
  · have hmem : ref ∈ refs := List.mem_reverse.1 (List.mem_of_mem_head? hfirst)
    exact Or.inr ⟨hlen, _, (marked_numberFrom hd 0).setNumber hmem (n + 1), hpass⟩

section
variable {c : BlockChain} {h : Bytes} {w : Walk} (hh : h ≠ []) (hm : h ∈ c.blocks)
include hh hm

theorem calcBlockchain_of_throw {e : Exn}
    (hw : walkBack (c.blocks.keys.card + 1) (walkedTo c.blocks [] h) = (.throw e, w)) :
    c.calcBlockchain h = (.throw e, { c with blocks := w.blocks }) := by
  rw [walkedTo] at hw
  rw [calcBlockchain, if_neg hh, if_neg (not_not.2 hm)]
  simp only [numberFrom, List.length_nil, List.reverse_nil] at hw
  simp only [hw, Exec.throw_bind]

theorem calcBlockchain_of_ok {n : ℕ}
    (hw : walkBack (c.blocks.keys.card + 1) (walkedTo c.blocks [] h) = (.ok (), w))
    (hn : (header w.blocks w.bh).blockNumber = some n) :
    c.calcBlockchain h =
      ((numberBlocks (w.currNum + n) w.processedBlocks { c with blocks := w.blocks }).1 >>=
          fun _ => .ok (w.currNum + n),
        (numberBlocks (w.currNum + n) w.processedBlocks { c with blocks := w.blocks }).2) := by
  rw [walkedTo] at hw
  rw [calcBlockchain, if_neg hh, if_neg (not_not.2 hm)]
  simp only [numberFrom, List.length_nil, List.reverse_nil] at hw
  simp only [hw, hn]

end

/-- **Numbering a stored header**: the call succeeds iff the branch attaches, and else throws and
    leaves a number in every header it has passed. -/
theorem calcBlockchain_walk {c : BlockChain} {h : Bytes} (hh : h ≠ []) (hm : h ∈ c.blocks)
    (hn : (header c.blocks h).blockNumber = none) :
    (c.Attaches h ∧ ∃ n, n ≠ 0 ∧ (c.calcBlockchain h).1 = .ok n) ∨
    (¬ c.Attaches h ∧ ∃ refs r message blocks', WalkEnds c.blocks [] h refs r ∧
      Marked c.blocks refs blocks' ∧
      c.calcBlockchain h = (.throw (.common message), { c with blocks := blocks' })) := by
  obtain ⟨refs, r, he, hl⟩ := walkBack_ends (.nil c.blocks) hm
    (Nat.lt_succ_of_le (unnumbered_card_le c.blocks))
  have hd := (he.unnumbered (.nil _) hm).nodup
  have hin := he.mem hn List.not_mem_nil
  have hattach : c.Attaches h ↔ ∃ n, r = some n ∧ n + 1 = c.hashes.length := by
    constructor
    · rintro ⟨refs', n, he', hlen⟩
      exact ⟨n, he.unique he', hlen⟩
    · rintro ⟨n, rfl, hlen⟩
      exact ⟨refs, n, he, hlen⟩
  rw [hattach]
  cases r with
  | none =>
    obtain ⟨bh, hw⟩ := hl
    refine Or.inr ⟨by simp, refs, none, "Empty block hash", _, he, marked_numberFrom hd 0, ?_⟩
    rw [calcBlockchain_of_throw hh hm hw]; rfl
  | some n =>
    obtain ⟨bh, hw, hbh⟩ := hl
    have hpass := calcBlockchain_of_ok hh hm hw hbh
    have hpos : 0 < refs.length := List.length_pos_of_mem hin
    rcases numberBlocks_walked hd n (List.ne_nil_of_mem hin) with
      ⟨hlen, hok⟩ | ⟨hlen, blocks', hmark, hthrow⟩
    · refine Or.inl ⟨⟨n, rfl, hlen⟩, refs.length + n, by omega, ?_⟩
      rw [hpass]
      simp only [walkedTo, hok, Exec.ok_bind]
    · refine Or.inr ⟨by simpa using hlen, refs, some n, "Ups", blocks', he, hmark, ?_⟩
      rw [hpass]
      simp only [walkedTo, hthrow, Exec.throw_bind]

/-- The call has failed, as its callers see it. -/
def Fails (r : Exec Exn ℕ) : Prop := r = .ok 0 ∨ ∃ e, r = .throw e

/-- The call comes to an end, and if it fails the index is as before. -/
structure IsAtomic (c : BlockChain) (r : Exec Exn ℕ × BlockChain) : Prop where
  ends : (∃ n, n ≠ 0 ∧ r.1 = .ok n) ∨ Fails r.1
  unchanged : Fails r.1 → r.2 = c

theorem isAtomic_of_ok {c : BlockChain} {r : Exec Exn ℕ × BlockChain} {n : ℕ} (h0 : n ≠ 0)
    (hr : r.1 = .ok n) : IsAtomic c r where
  ends := Or.inl ⟨n, h0, hr⟩
  unchanged hf := by
    rcases hf with hf | ⟨e, hf⟩
    · rw [hr] at hf; exact absurd (Exec.ok.inj hf) h0
    · rw [hr] at hf; cases hf

theorem isAtomic_throw_iff {c c' : BlockChain} {e : Exn} :
    IsAtomic c (.throw e, c') ↔ c' = c :=
  ⟨fun h => h.unchanged (Or.inr ⟨e, rfl⟩), fun h => ⟨Or.inr (Or.inr ⟨e, rfl⟩), fun _ => h⟩⟩

/-- A header without a number that `calcBlockchain` starts from is on a branch that attaches. -/
def CalcAttaches (c : BlockChain) (h : Bytes) : Prop :=
  h ≠ [] → h ∈ c.blocks → (header c.blocks h).blockNumber = none → c.Attaches h

/-- A new header for `addBlock` does not have the number `0`; and if it has none and its parent is
    stored without one, it is on a branch that attaches. -/
def AddAttaches (c : BlockChain) (b : BlockHeader) : Prop :=
  b.hash ≠ [] → b.hash ∉ c.blocks → b.blockNumber ≠ some 0 ∧
    (b.blockNumber = none → b.prevHash ≠ [] → b.prevHash ∈ c.blocks →
      (header c.blocks b.prevHash).blockNumber = none →
      (c.addWithoutCalc b).2.Attaches b.hash)

/-- A call that starts from a numbered header returns its number. -/
theorem calcBlockchain_numbered {c : BlockChain} {h : Bytes} {n : ℕ} (hh : h ≠ [])
    (hm : h ∈ c.blocks) (hn : (header c.blocks h).blockNumber = some n) :
    c.calcBlockchain h = (.ok n, c) := by
  have hw : walkBack (c.blocks.keys.card + 1) (walkedTo c.blocks [] h) =
      (.ok (), walkedTo c.blocks [] h) := walkBack_numbered (by simp [walkedTo, numberFrom, hn])
  rw [calcBlockchain_of_ok hh hm hw hn]
  simp [walkedTo, numberFrom, numberBlocks]

theorem isAtomic_calcBlockchain_iff (c : BlockChain) (h : Bytes) :
    IsAtomic c (c.calcBlockchain h) ↔ c.CalcAttaches h := by
  by_cases hh : h = []
  · rw [calcBlockchain, if_pos hh]
    exact iff_of_true (isAtomic_throw_iff.2 rfl) fun h0 => absurd hh h0
  by_cases hm : h ∈ c.blocks
  swap
  · rw [calcBlockchain, if_neg hh, if_pos hm]
    exact iff_of_true (isAtomic_throw_iff.2 rfl) fun _ h0 => absurd h0 hm
  rcases hn : (header c.blocks h).blockNumber with _ | n
  swap
  · rw [calcBlockchain_numbered hh hm hn]
    refine iff_of_true ⟨?_, fun _ => rfl⟩ fun _ _ h0 => ?_
    · cases n with
      | zero => exact Or.inr (Or.inl rfl)
      | succ n => exact Or.inl ⟨n + 1, Nat.succ_ne_zero n, rfl⟩
    · rw [hn] at h0; cases h0
  rcases calcBlockchain_walk hh hm hn with
    ⟨ha, n, h0, hok⟩ | ⟨ha, refs, r, message, blocks', he, hmark, hthrow⟩
  · exact iff_of_true (isAtomic_of_ok h0 hok) fun _ _ _ => ha
  · rw [hthrow, isAtomic_throw_iff]
    refine iff_of_false ?_ fun h' => ha (h' hh hm hn)
    intro hc
    -- the header the walk started from has a number now
    have hsome := hmark.some h (he.mem hn List.not_mem_nil)
    have hblocks : blocks' = c.blocks := congrArg BlockChain.blocks hc
    rw [hblocks, hn] at hsome
    cases hsome

section
variable {c : BlockChain} {b : BlockHeader} (hh : b.hash ≠ []) (hfresh : b.hash ∉ c.blocks)
include hh hfresh

theorem addWithoutCalc_new :
    c.addWithoutCalc b = (.ok false, { c with blocks := c.blocks.insert b.hash b }) := by
  rw [addWithoutCalc, if_neg hh, if_neg hfresh]

/-- A new header with a number is stored and not listed. -/
theorem addBlock_numbered {n : ℕ} (hn : b.blockNumber = some n) :
    c.addBlock b = (.ok n, { c with blocks := c.blocks.insert b.hash b }) := by
  have hcalc : calcBlockchain { c with blocks := c.blocks.insert b.hash b } b.hash =
      (.ok n, { c with blocks := c.blocks.insert b.hash b }) :=
    calcBlockchain_numbered hh (Finmap.mem_insert.2 (Or.inl rfl)) (by rw [header_insert, hn])
  simp only [addBlock, addWithoutCalc_new hh hfresh, hcalc]

omit hh in
theorem unnumberedParent_insert : UnnumberedParent (c.blocks.insert b.hash b) b.hash ↔
    b.prevHash ≠ [] ∧ b.prevHash ∈ c.blocks ∧
      (header c.blocks b.prevHash).blockNumber = none := by
  rw [UnnumberedParent, header_insert, Finmap.mem_insert]
  constructor
  · rintro ⟨hp, hm, hne, hn⟩
    rw [header_insert_of_ne _ hne] at hn
    exact ⟨hp, hm.resolve_left hne, hn⟩
  · rintro ⟨hp, hm, hn⟩
    have hne : b.prevHash ≠ b.hash := ne_of_mem_of_not_mem hm hfresh
    refine ⟨hp, Or.inr hm, hne, ?_⟩
    rw [header_insert_of_ne _ hne]; exact hn

omit hh in
/-- Removing the new header restores the index iff the walk has passed no other one. -/
theorem erase_marked_iff {refs : List Bytes} {r : Option ℕ} {blocks' : Blocks}
    (hn : b.blockNumber = none) (he : WalkEnds (c.blocks.insert b.hash b) [] b.hash refs r)
    (hmark : Marked (c.blocks.insert b.hash b) refs blocks') :
    blocks'.erase b.hash = c.blocks ↔
      ¬ UnnumberedParent (c.blocks.insert b.hash b) b.hash := by
  rcases he.first (by rw [header_insert, hn]) with ⟨hu, hpr⟩ | ⟨hu, hr⟩
  · refine iff_of_false ?_ (not_not.2 hu)
    intro heq
    obtain ⟨-, -, hne, hpn⟩ := hu
    rw [header_insert] at hne hpn hpr
    rw [header_insert_of_ne _ hne, header] at hpn
    have hsome := hmark.some _ hpr
    rw [header, ← Finmap.lookup_erase_ne hne, heq, hpn] at hsome
    cases hsome
  · refine iff_of_true ?_ hu
    apply Finmap.ext_lookup
    intro k
    by_cases hk : k = b.hash
    · rw [hk, Finmap.lookup_erase, Finmap.lookup_eq_none.2 hfresh]
    · rw [Finmap.lookup_erase_ne hk, hmark.others k (by rw [hr]; simpa using hk),
        Finmap.lookup_insert_of_ne _ hk]

end

theorem isAtomic_addBlock_iff (c : BlockChain) (b : BlockHeader) :
    IsAtomic c (c.addBlock b) ↔ c.AddAttaches b := by
  by_cases hh : b.hash = []
  · refine iff_of_true ?_ fun h0 => absurd hh h0
    simp only [addBlock, addWithoutCalc, hh, if_true, Exec.throw_bind, isAtomic_throw_iff]
  by_cases hfresh : b.hash ∈ c.blocks
  · refine iff_of_true ?_ fun _ h0 => absurd hfresh h0
    simp only [addBlock, addWithoutCalc, hh, hfresh, if_true, if_false, isAtomic_throw_iff]
  have hin : b.hash ∈ c.blocks.insert b.hash b := Finmap.mem_insert.2 (Or.inl rfl)
  rcases hn : b.blockNumber with _ | n
  swap
  · rw [addBlock_numbered hh hfresh hn]
    cases n with
    | zero =>
      refine iff_of_false ?_ fun h => (h hh hfresh).1 hn
      intro h
      have hc := congrArg BlockChain.blocks (h.unchanged (Or.inl rfl))
      rw [← hc] at hfresh
      exact hfresh hin
    | succ n =>
      refine iff_of_true (isAtomic_of_ok (Nat.succ_ne_zero n) rfl) fun _ _ => ⟨?_, ?_⟩
      · rw [hn]; simp
      · intro h0; rw [hn] at h0; cases h0
  rcases calcBlockchain_walk (c := { c with blocks := c.blocks.insert b.hash b }) hh hin
    (by rw [header_insert, hn]) with
    ⟨ha, n, h0, hok⟩ | ⟨ha, refs, r, message, blocks', he, hmark, hthrow⟩
  · have hadd : (c.addBlock b).1 = .ok n := by
      simp only [addBlock, addWithoutCalc_new hh hfresh]
      split
      · next heq => rw [heq] at hok; cases hok
      · exact hok
    refine iff_of_true (isAtomic_of_ok h0 hadd) fun _ _ => ⟨by rw [hn]; simp, ?_⟩
    intro _ _ _ _
    rw [addWithoutCalc_new hh hfresh]; exact ha
  · have hadd : c.addBlock b =
        (.throw (.common message), { c with blocks := blocks'.erase b.hash }) := by
      simp only [addBlock, addWithoutCalc_new hh hfresh, hthrow, removeBlock, hh, if_false]
    have heq : ({ c with blocks := blocks'.erase b.hash } : BlockChain) = c ↔
        blocks'.erase b.hash = c.blocks := by
      cases c; simp
    rw [hadd, isAtomic_throw_iff, heq, erase_marked_iff hfresh hn he hmark,
      unnumberedParent_insert hfresh]
    constructor
    · intro hno _ _
      exact ⟨by rw [hn]; simp, fun _ hp hm hpn => absurd ⟨hp, hm, hpn⟩ hno⟩
    · rintro hadd' ⟨hp, hm, hpn⟩
      have := (hadd' hh hfresh).2 hn hp hm hpn
      rw [addWithoutCalc_new hh hfresh] at this
      exact ha this

/-! ## What a call keeps -/

theorem mem_walkBack {fuel : ℕ} {w : Walk} {k : Bytes} (hk : k ∈ w.blocks) :
    k ∈ (walkBack fuel w).2.blocks := by
  induction fuel generalizing w with
  | zero => exact hk
  | succ fuel ih =>
    have hset : k ∈ setNumber w.blocks w.bh (some w.currNum) := mem_setNumber.2 (Or.inr hk)
    rw [walkBack]
    dsimp only
    split_ifs
    · exact hk
    · exact hset
    · exact ih hset
    · exact hset

theorem mem_numberBlocks {allNum : ℕ} {refs : List Bytes} {c : BlockChain} {k : Bytes}
    (hk : k ∈ c.blocks) : k ∈ (numberBlocks allNum refs c).2.blocks := by
  induction refs generalizing c with
  | nil => exact hk
  | cons ref refs ih =>
    rw [numberBlocks]
    dsimp only
    split_ifs
    · exact mem_setNumber.2 (Or.inr hk)
    · exact ih (mem_setNumber.2 (Or.inr hk))

theorem mem_calcBlockchain {c : BlockChain} {h k : Bytes} (hk : k ∈ c.blocks) :
    k ∈ (c.calcBlockchain h).2.blocks := by
  have hw : k ∈ (walkBack (c.blocks.keys.card + 1) ⟨c.blocks, h, 0, []⟩).2.blocks :=
    mem_walkBack hk
  by_cases hh : h = []
  · rw [calcBlockchain, if_pos hh]; exact hk
  by_cases hm : h ∈ c.blocks
  swap
  · rw [calcBlockchain, if_neg hh, if_pos hm]; exact hk
  rw [calcBlockchain, if_neg hh, if_neg (not_not.2 hm)]
  dsimp only
  split
  · split
    · exact mem_numberBlocks hw
    · induction (walkBack (c.blocks.keys.card + 1) ⟨c.blocks, h, 0, []⟩).2.processedBlocks with
      | nil => exact hw
      | cons ref refs ih => exact mem_setNumber.2 (Or.inr ih)
  · exact hw

/-- A call of `addBlock` keeps the other headers stored, whatever its outcome. -/
theorem mem_addBlock {c : BlockChain} {b : BlockHeader} {k : Bytes} (hk : k ∈ c.blocks) :
    k ∈ (c.addBlock b).2.blocks := by
  by_cases hh : b.hash = []
  · simpa [addBlock, addWithoutCalc, hh] using hk
  by_cases hfresh : b.hash ∈ c.blocks
  · simpa [addBlock, addWithoutCalc, hh, hfresh] using hk
  have hin : k ∈ (calcBlockchain { c with blocks := c.blocks.insert b.hash b } b.hash).2.blocks :=
    mem_calcBlockchain (Finmap.mem_insert.2 (Or.inr hk))
  simp only [addBlock, addWithoutCalc_new hh hfresh]
  split
  · next heq =>
    rw [heq] at hin
    rw [removeBlock, if_neg hh]
    exact Finmap.mem_erase.2 ⟨ne_of_mem_of_not_mem hk hfresh, hin⟩
  · exact hin

/-- A block that is appended was not stored before. -/
theorem addBlock_new {c : BlockChain} {b : BlockHeader} {n : ℕ} (h : (c.addBlock b).1 = .ok n) :
    b.hash ∉ c.blocks ∧ b.hash ∈ (c.addBlock b).2.blocks := by
  by_cases hh : b.hash = []
  · simp [addBlock, addWithoutCalc, hh] at h
  by_cases hfresh : b.hash ∈ c.blocks
  · simp [addBlock, addWithoutCalc, hh, hfresh] at h
  have hin : b.hash ∈ (calcBlockchain { c with blocks := c.blocks.insert b.hash b } b.hash).2.blocks :=
    mem_calcBlockchain (Finmap.mem_insert.2 (Or.inl rfl))
  refine ⟨hfresh, ?_⟩
  simp only [addBlock, addWithoutCalc_new hh hfresh] at h ⊢
  split at h
  · cases h
  · exact hin

/-! ## Runs -/

/-- The calls that write to the index. -/
inductive Call where
  | addWithoutCalc (b : NewHeader)
  | calcBlockchain (lastHash : Bytes)
  | addBlock (b : BlockHeader)

namespace Call

/-- The index after a call, whatever its outcome. -/
def exec (c : BlockChain) : Call → BlockChain
  | addWithoutCalc b => (c.addWithoutCalc b).2
  | calcBlockchain lastHash => (c.calcBlockchain lastHash).2
  | addBlock b => (c.addBlock b).2

/-- A call that numbers headers fails without a trace, if it fails. -/
def Atomic (c : BlockChain) : Call → Prop
  | addWithoutCalc _ => True
  | calcBlockchain lastHash => IsAtomic c (c.calcBlockchain lastHash)
  | addBlock b => IsAtomic c (c.addBlock b)

/-- The condition on the index before the call. -/
def AttachesBranch (c : BlockChain) : Call → Prop
  | addWithoutCalc _ => True
  | calcBlockchain lastHash => c.CalcAttaches lastHash
  | addBlock b => c.AddAttaches b

theorem atomic_iff (c : BlockChain) (call : Call) : call.Atomic c ↔ call.AttachesBranch c := by
  cases call with
  | addWithoutCalc b => exact Iff.rfl
  | calcBlockchain lastHash => exact isAtomic_calcBlockchain_iff c lastHash
  | addBlock b => exact isAtomic_addBlock_iff c b

/-- `P` holds of every call of a run and of the index it is made on. -/
def Along (P : BlockChain → Call → Prop) : BlockChain → List Call → Prop
  | _, [] => True
  | c, call :: calls => P c call ∧ Along P (call.exec c) calls

end Call

/-- **Every failing call of a run leaves the index as it was iff no call leaves a branch of stored
    headers unattached.** -/
theorem along_atomic_iff (s : Start) (calls : List Call) :
    Call.Along (fun c call => call.Atomic c) s.chain calls ↔
      Call.Along (fun c call => call.AttachesBranch c) s.chain calls := by
  generalize s.chain = c
  induction calls generalizing c with
  | nil => exact Iff.rfl
  | cons call calls ih => exact and_congr (Call.atomic_iff c call) (ih (call.exec c))

/-- The child of `orphan`. -/
def orphanChild : NewHeader :=
  ⟨{ hash := List.replicate 64 'c'.toUInt8, prevHash := List.replicate 64 'a'.toUInt8 }, rfl⟩

/-- Numbering a branch of two orphans throws, and both keep the numbers of the walk. -/
theorem orphans_not_atomic :
    ¬ ∀ (s : Start) (calls : List Call), Call.Along (fun c call => call.Atomic c) s.chain calls := by
  intro h
  obtain ⟨-, -, hcalc, -⟩ := h .constructed
    [.addWithoutCalc orphan, .addWithoutCalc orphanChild, .calcBlockchain orphanChild.1.hash]
  have hc := hcalc.unchanged (Or.inr ⟨.common "Ups", by decide +kernel⟩)
  have hnum := congrArg (fun c => (header c.blocks orphanChild.1.hash).blockNumber) hc
  exact absurd hnum (by decide +kernel)

end BlockChain

end TorrentNode
