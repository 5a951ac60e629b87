/-
  The order in which blocks are delivered.

  After `doProcess(countBlocks, _)` the blocks from `countBlocks + 1` up to the
  announced one are to be delivered.  What the loading of a block yields, a block
  or an exception, is `Yields`; it may be another one in each call.  `Contiguous`
  says which outcomes the calls of `process` may have: the next block, nothing
  behind the last block, or the exception of the next block, again and again.

  `session_contiguous`: the outcomes are contiguous, whatever fails.
-/
import TorrentNode.BlockSource.NetworkBlockSource

open Wire Exec

namespace TorrentNode

open GetNewBlocksFromServer

namespace NetworkBlockSource

/-! ## What the loading of a block yields -/

/-- The outcome of `process`. -/
abbrev Outcome := Exec Exn (Option (BlockInfo × Bytes))

/-- What the loading of block `n` may yield. -/
def Yields (E : SourceEnv) (s : NetworkBlockSource) (n : ℕ) : Except Exn AdvancedBlock → Prop
  | .ok a => ∃ g p2p header dump, (loadBlock E s g p2p n).1 = .ok (.ok (header, dump)) ∧
      parseBlock E s header dump = .ok a
  | .error e => ∃ g p2p, (loadBlock E s g p2p n).1 = .ok (.error e) ∨
      ∃ header dump, (loadBlock E s g p2p n).1 = .ok (.ok (header, dump)) ∧
        parseBlock E s header dump = .throw e

/-- Block `n` may fail with `e`. -/
def Fails (E : SourceEnv) (s : NetworkBlockSource) (n : ℕ) (e : Exn) : Prop :=
  Yields E s n (.error e) ∨ s.servers = [] ∧ e = .common "Servers empty"

/-- What is loaded comes from the loading of the block under whose number it stands. -/
def Window (E : SourceEnv) (s : NetworkBlockSource) : Prop :=
  ∀ n r, (n, r) ∈ s.advancedBlocks → Yields E s n r

section
variable {E : SourceEnv} {s : NetworkBlockSource}

theorem loadBlocks_spec {calls : ℕ → P2PCalls × P2PCalls} {blocks : List ℕ} {g : Getter}
    {loaded : List (ℕ × Except Exn (MinimumBlockHeader × Bytes))}
    (h : (loadBlocks E s calls blocks g).1 = .ok loaded) :
    loaded.map Prod.fst = blocks ∧
      ∀ p ∈ loaded, ∃ g p2p, (loadBlock E s g p2p p.1).1 = .ok p.2 := by
  induction blocks generalizing g loaded with
  | nil =>
    cases h
    simp
  | cons currBlock blocks ih =>
    rw [loadBlocks] at h
    split at h
    · rename_i block g' hblock
      obtain ⟨loaded', hloaded, heq⟩ := bind_eq_ok.1 h
      cases heq
      obtain ⟨hkeys, hall⟩ := ih hloaded
      refine ⟨by rw [List.map_cons, hkeys], ?_⟩
      intro p hp
      rcases List.mem_cons.1 hp with rfl | hp
      · exact ⟨g, calls currBlock, by rw [hblock]⟩
      · exact hall p hp
    · rename_i r g' hne hblock
      obtain ⟨block, hr, -⟩ := bind_eq_ok.1 h
      exact absurd hr (hne block)

theorem loadBlock_ne_throw (g : Getter) (p2p : P2PCalls × P2PCalls) (n : ℕ) (e : Exn) :
    (loadBlock E s g p2p n).1 ≠ .throw e := by
  rw [loadBlock]
  split
  · exact attempt_ne_throw _ e
  · exact attempt_ne_throw _ e

theorem loadBlocks_ne_throw (calls : ℕ → P2PCalls × P2PCalls) (blocks : List ℕ) (g : Getter)
    (e : Exn) : (loadBlocks E s calls blocks g).1 ≠ .throw e := by
  induction blocks generalizing g with
  | nil => exact fun h => by cases h
  | cons currBlock blocks ih =>
    rw [loadBlocks]
    split
    · intro h
      rcases bind_eq_throw.1 h with h | ⟨_, -, h⟩
      · exact ih _ h
      · cases h
    · rename_i r g' hne hblock
      intro h
      rcases bind_eq_throw.1 h with h | ⟨block, hr, -⟩
      · exact loadBlock_ne_throw g (calls currBlock) currBlock e (by rw [hblock]; exact h)
      · exact hne block hr

theorem parseAdvanced_ne_throw (p : ℕ × Except Exn (MinimumBlockHeader × Bytes)) (e : Exn) :
    parseAdvanced E s p ≠ .throw e := by
  rcases p with ⟨n, e' | ⟨header, dump⟩⟩
  · exact fun h => by cases h
  · intro h
    rcases bind_eq_throw.1 h with h | ⟨_, -, h⟩
    · exact attempt_ne_throw _ e h
    · cases h

theorem parseAdvanced_spec {p : ℕ × Except Exn (MinimumBlockHeader × Bytes)}
    {q : ℕ × Except Exn AdvancedBlock} (h : parseAdvanced E s p = .ok q)
    (hload : ∃ g p2p, (loadBlock E s g p2p p.1).1 = .ok p.2) : q.1 = p.1 ∧ Yields E s q.1 q.2 := by
  obtain ⟨g, p2p, hload⟩ := hload
  rcases p with ⟨n, e | ⟨header, dump⟩⟩
  · cases h
    exact ⟨rfl, g, p2p, Or.inl hload⟩
  · obtain ⟨advanced, hadvanced, heq⟩ := bind_eq_ok.1 h
    cases heq
    refine ⟨rfl, ?_⟩
    rcases hparse : parseBlock E s header dump with a | e | u | _ <;> rw [hparse] at hadvanced <;>
      cases hadvanced
    · exact ⟨g, p2p, header, dump, hload, hparse⟩
    · exact ⟨g, p2p, Or.inr ⟨header, dump, hload, hparse⟩⟩

theorem mapM_parseAdvanced {loaded : List (ℕ × Except Exn (MinimumBlockHeader × Bytes))}
    {advanced : List (ℕ × Except Exn AdvancedBlock)}
    (h : loaded.mapM (parseAdvanced E s) = .ok advanced)
    (hload : ∀ p ∈ loaded, ∃ g p2p, (loadBlock E s g p2p p.1).1 = .ok p.2) :
    advanced.map Prod.fst = loaded.map Prod.fst ∧ ∀ p ∈ advanced, Yields E s p.1 p.2 := by
  induction loaded generalizing advanced with
  | nil =>
    cases h
    simp
  | cons p loaded ih =>
    rw [List.mapM_cons] at h
    obtain ⟨q, hq, h⟩ := bind_eq_ok.1 h
    obtain ⟨advanced', hadvanced, h⟩ := bind_eq_ok.1 h
    cases h
    obtain ⟨hkey, hyields⟩ := parseAdvanced_spec hq (hload p List.mem_cons_self)
    obtain ⟨hkeys, hall⟩ := ih hadvanced fun p hp => hload p (List.mem_cons_of_mem _ hp)
    refine ⟨by rw [List.map_cons, List.map_cons, hkey, hkeys], ?_⟩
    intro p hp
    rcases List.mem_cons.1 hp with rfl | hp
    · exact hyields
    · exact hall p hp

/-! ## One call -/

/-- The next state of a session. -/
def withBlocks (s : NetworkBlockSource) (g : Getter) (advanced : List (ℕ × Except Exn AdvancedBlock)) :
    NetworkBlockSource :=
  { s with getterBlocks := g, advancedBlocks := advanced }

/-- What a call can do while there are blocks to deliver. -/
inductive Attempt (E : SourceEnv) (s : NetworkBlockSource) : Outcome × NetworkBlockSource → Prop where
  /-- the next block is delivered -/
  | deliver {g advanced} (a : AdvancedBlock) (hwindow : Window E (s.withBlocks g advanced))
      (h : Yields E s s.nextBlockToRead (.ok a)) : Attempt E s (.ok (some (a.bi, a.dump)),
        { s.withBlocks g advanced with nextBlockToRead := s.nextBlockToRead + 1 })
  /-- the next block fails, and fails again in every further call -/
  | fail {g advanced} (e : Exn) (hwindow : Window E (s.withBlocks g advanced))
      (h : Fails E s s.nextBlockToRead e)
      (hagain : ∀ calls, process E (s.withBlocks g advanced) calls =
        (.throw e, s.withBlocks g advanced)) : Attempt E s (.throw e, s.withBlocks g advanced)

/-- An outcome that is a block, nothing or an exception. -/
def Defined : Outcome → Prop
  | .ok _ => True
  | .throw _ => True
  | _ => False

theorem process_of_finished (h : s.lastBlockInBlockchain < s.nextBlockToRead)
    (calls : ℕ → P2PCalls × P2PCalls) : process E s calls = (.ok none, s) := by
  rw [process, if_pos h]

theorem process_of_found (hle : s.nextBlockToRead ≤ s.lastBlockInBlockchain)
    {r : Except Exn AdvancedBlock} (h : s.findBlock s.nextBlockToRead = some r)
    (calls : ℕ → P2PCalls × P2PCalls) : process E s calls = s.processAdvanced r := by
  rw [process, if_neg (not_lt.2 hle), h]

theorem process_of_not_found (hle : s.nextBlockToRead ≤ s.lastBlockInBlockchain)
    (h : s.findBlock s.nextBlockToRead = none) (calls : ℕ → P2PCalls × P2PCalls) :
    process E s calls = loadAndProcess E s calls := by
  rw [process, if_neg (not_lt.2 hle), h]

theorem loadAndProcess_of_no_servers (h : s.servers = []) (calls : ℕ → P2PCalls × P2PCalls) :
    loadAndProcess E s calls =
      (.throw (.common "Servers empty"), s.withBlocks s.getterBlocks []) := by
  rw [loadAndProcess, if_pos h]
  rfl

/-- A block that is loaded is delivered, or its exception is thrown. -/
theorem attempt_of_findBlock {g : Getter} {advanced : List (ℕ × Except Exn AdvancedBlock)}
    (hwindow : Window E (s.withBlocks g advanced)) (hle : s.nextBlockToRead ≤ s.lastBlockInBlockchain)
    {r : Except Exn AdvancedBlock} (h : (s.withBlocks g advanced).findBlock s.nextBlockToRead = some r) :
    Attempt E s ((s.withBlocks g advanced).processAdvanced r) := by
  have hyields : Yields E s s.nextBlockToRead r := hwindow _ _ (mem_of_findBlock h)
  rcases r with e | a
  · exact .fail e hwindow (Or.inl hyields) (process_of_found (s := s.withBlocks g advanced) hle h)
  · exact .deliver a hwindow hyields

/-- The next block is among those that are loaded. -/
theorem findBlock_of_keys {g : Getter} {advanced : List (ℕ × Except Exn AdvancedBlock)} {count : ℕ}
    (h : advanced.map Prod.fst = List.range' s.nextBlockToRead (count + 1)) :
    ∃ r, (s.withBlocks g advanced).findBlock s.nextBlockToRead = some r := by
  rcases advanced with _ | ⟨⟨n, r⟩, advanced⟩
  · cases h
  · rw [List.range'_succ, List.map_cons] at h
    obtain rfl : n = s.nextBlockToRead := (List.cons.inj h).1
    refine ⟨r, ?_⟩
    rw [findBlock, withBlocks]
    dsimp only
    rw [List.find?_cons_of_pos (by simp)]
    rfl

theorem loadAndProcess_attempt (hle : s.nextBlockToRead ≤ s.lastBlockInBlockchain)
    {calls : ℕ → P2PCalls × P2PCalls} (hdefined : Defined (loadAndProcess E s calls).1) :
    Attempt E s (loadAndProcess E s calls) := by
  by_cases hservers : s.servers = []
  · rw [loadAndProcess_of_no_servers hservers]
    refine .fail _ (fun _ _ h => by cases h) (Or.inr ⟨hservers, rfl⟩) fun calls => ?_
    have hload := loadAndProcess_of_no_servers (E := E) (s := s.withBlocks s.getterBlocks []) hservers calls
    exact (process_of_not_found (s := s.withBlocks s.getterBlocks []) hle rfl calls).trans hload
  · rcases hload : loadBlocks E { s with advancedBlocks := [] } calls (List.range' s.nextBlockToRead
      (min countAdvancedBlocks (s.lastBlockInBlockchain - s.nextBlockToRead + 1))) s.getterBlocks
      with ⟨loaded, g⟩
    rw [loadAndProcess, if_neg hservers] at hdefined ⊢
    dsimp only at hdefined ⊢
    rw [hload] at hdefined ⊢
    dsimp only at hdefined ⊢
    rcases hadvanced : loaded >>= fun loaded => loaded.mapM (parseAdvanced E (s.withBlocks g []))
      with advanced | e | u | _ <;> rw [withBlocks] at hadvanced <;> rw [hadvanced] at hdefined ⊢
    · obtain ⟨loaded, rfl, hparse⟩ := bind_eq_ok.1 hadvanced
      obtain ⟨hkeys, hall⟩ := loadBlocks_spec (congrArg Prod.fst hload)
      obtain ⟨hkeys', hwindow⟩ := mapM_parseAdvanced hparse hall
      obtain ⟨count, hcount⟩ : ∃ count, min countAdvancedBlocks
          (s.lastBlockInBlockchain - s.nextBlockToRead + 1) = count + 1 := by
        refine Nat.exists_eq_succ_of_ne_zero ?_
        rw [countAdvancedBlocks]
        omega
      rw [hkeys, hcount] at hkeys'
      obtain ⟨r, hr⟩ := findBlock_of_keys (s := s) (g := g) hkeys'
      have hwindow' : Window E (s.withBlocks g advanced) := fun n r hmem => hwindow (n, r) hmem
      have hattempt := attempt_of_findBlock hwindow' hle hr
      rw [withBlocks] at hattempt hr
      dsimp only
      rw [hr]
      exact hattempt
    · rcases bind_eq_throw.1 hadvanced with hthrow | ⟨loaded, -, hthrow⟩
      · exact absurd ((congrArg Prod.fst hload).trans hthrow) (loadBlocks_ne_throw _ _ _ _)
      · exact absurd hthrow (mapM_ne_throw (fun _ _ => parseAdvanced_ne_throw _ _) _ _)
    · exact hdefined.elim
    · exact hdefined.elim

/-- **One call**, while there are blocks to deliver. -/
theorem process_attempt (hwindow : Window E s) (hle : s.nextBlockToRead ≤ s.lastBlockInBlockchain)
    {calls : ℕ → P2PCalls × P2PCalls} (hdefined : Defined (process E s calls).1) :
    Attempt E s (process E s calls) := by
  rcases hfind : s.findBlock s.nextBlockToRead with _ | r
  · rw [process_of_not_found hle hfind] at hdefined ⊢
    exact loadAndProcess_attempt hle hdefined
  · rw [process_of_found hle hfind]
    exact attempt_of_findBlock (g := s.getterBlocks) hwindow hle hfind

end

/-! ## All calls of a session -/

/-- The calls after `doProcess`: where the source stands before each of them, and its outcome. -/
def session (E : SourceEnv) : NetworkBlockSource → List (ℕ → P2PCalls × P2PCalls) → List (ℕ × Outcome)
  | _, [] => []
  | s, calls :: rest => (s.nextBlockToRead, (process E s calls).1) :: session E (process E s calls).2 rest

/-- The outcomes of the calls of a session from position `p` on, with `last` the announced block: the
    blocks in order, each one once; nothing behind the last one; or the exception of the next block, in
    each call from then on. -/
inductive Contiguous (E : SourceEnv) (s : NetworkBlockSource) (last : ℕ) :
    ℕ → List (ℕ × Outcome) → Prop where
  | nil (p : ℕ) : Contiguous E s last p []
  | deliver {p : ℕ} {rest : List (ℕ × Outcome)} (hle : p ≤ last) (a : AdvancedBlock)
      (h : Yields E s p (.ok a)) (hrest : Contiguous E s last (p + 1) rest) :
      Contiguous E s last p ((p, .ok (some (a.bi, a.dump))) :: rest)
  | finish {p : ℕ} {rest : List (ℕ × Outcome)} (hlt : last < p) (hrest : Contiguous E s last p rest) :
      Contiguous E s last p ((p, .ok none) :: rest)
  | fail {p : ℕ} {rest : List (ℕ × Outcome)} (hle : p ≤ last) (e : Exn) (h : Fails E s p e)
      (hrest : ∀ o ∈ rest, o = (p, .throw e)) : Contiguous E s last p ((p, .throw e) :: rest)

section
variable {E : SourceEnv}

theorem session_again {s : NetworkBlockSource} {e : Exn}
    (h : ∀ calls, process E s calls = (.throw e, s)) (rest : List (ℕ → P2PCalls × P2PCalls)) :
    ∀ o ∈ session E s rest, o = (s.nextBlockToRead, .throw e) := by
  induction rest with
  | nil => simp [session]
  | cons calls rest ih =>
    rw [session, h]
    intro o ho
    rcases List.mem_cons.1 ho with rfl | ho
    · rfl
    · exact ih o ho

/-- The session of a source that stands at `s` in the session of `s₁`. -/
theorem session_contiguous_from (s₁ : NetworkBlockSource) {s : NetworkBlockSource}
    (hs : ∃ g p advanced, s = { s₁.withBlocks g advanced with nextBlockToRead := p })
    (hwindow : Window E s) {rest : List (ℕ → P2PCalls × P2PCalls)}
    (hdefined : ∀ o ∈ session E s rest, Defined o.2) :
    Contiguous E s₁ s₁.lastBlockInBlockchain s.nextBlockToRead (session E s rest) := by
  induction rest generalizing s with
  | nil => exact .nil _
  | cons calls rest ih =>
    rw [session] at hdefined ⊢
    have hfirst : Defined (process E s calls).1 := hdefined _ List.mem_cons_self
    have hrest : ∀ o ∈ session E (process E s calls).2 rest, Defined o.2 :=
      fun o ho => hdefined o (List.mem_cons_of_mem _ ho)
    obtain ⟨g, p, advanced, rfl⟩ := hs
    by_cases hle : p ≤ s₁.lastBlockInBlockchain
    · have hattempt := process_attempt hwindow hle hfirst
      generalize process E { s₁.withBlocks g advanced with nextBlockToRead := p } calls = r
        at hattempt hrest ⊢
      cases hattempt with
      | deliver a hwindow' h =>
        exact .deliver hle a h (ih ⟨_, p + 1, _, rfl⟩ hwindow' hrest)
      | fail e hwindow' h hagain => exact .fail hle e h (session_again hagain rest)
    · have hnone : process E { s₁.withBlocks g advanced with nextBlockToRead := p } calls =
          (.ok none, { s₁.withBlocks g advanced with nextBlockToRead := p }) :=
        process_of_finished (not_le.1 hle) calls
      rw [hnone] at hrest ⊢
      exact .finish (not_le.1 hle) (ih ⟨g, p, advanced, rfl⟩ hwindow hrest)

/-- What is loaded stays what its loading has yielded. -/
theorem step_window {s s' : NetworkBlockSource} {call : Call} (hwindow : Window E s)
    (h : step E s call = some s') : Window E s' := by
  cases call with
  | doProcess countBlocks lastBlock =>
    cases h
    rw [doProcess]
    dsimp only
    split
    · exact hwindow
    · exact fun _ _ h => by cases h
  | process calls =>
    by_cases hle : s.nextBlockToRead ≤ s.lastBlockInBlockchain
    · have hdefined : Defined (process E s calls).1 := by
        rw [step] at h
        split at h
        · next hs => rw [hs]; exact trivial
        · next hs => rw [hs]; exact trivial
        · cases h
      have hattempt := process_attempt hwindow hle hdefined
      rw [step] at h
      generalize process E s calls = r at hattempt h
      cases hattempt with
      | deliver a hwindow' => cases h; exact hwindow'
      | fail e hwindow' => cases h; exact hwindow'
    · rw [step, process_of_finished (not_le.1 hle)] at h
      cases h
      exact hwindow

/-- **What a call delivers** in any run is what the loading of the block has yielded. -/
theorem process_yields {s₀ s s' : NetworkBlockSource} {run : List Call}
    (hstart : s₀.advancedBlocks = []) (hrun : Machine.runs (step E) s₀ run = some s)
    {calls : ℕ → P2PCalls × P2PCalls} {got : BlockInfo × Bytes}
    (h : process E s calls = (.ok (some got), s')) :
    ∃ a, Yields E s s.nextBlockToRead (.ok a) ∧ got = (a.bi, a.dump) := by
  have hinit : Window E s₀ := by
    intro n r hmem
    rw [hstart] at hmem
    cases hmem
  have hwindow : Window E s := Machine.runs_invariant (fun _ _ _ => step_window) hinit hrun
  by_cases hle : s.nextBlockToRead ≤ s.lastBlockInBlockchain
  · have hdefined : Defined (process E s calls).1 := by rw [h]; exact trivial
    have hattempt := process_attempt hwindow hle hdefined
    rw [h] at hattempt
    cases hattempt with
    | deliver a _ hyields => exact ⟨a, hyields, rfl⟩
  · rw [process_of_finished (not_le.1 hle)] at h
    cases h

end

end NetworkBlockSource

end TorrentNode
