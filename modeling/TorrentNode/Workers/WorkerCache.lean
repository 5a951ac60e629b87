/-
  The caches of the last blocks (src/Cache/Cache.cpp, src/Workers/WorkerCache.cpp).

  A `Cache` keeps its keys by an attribute, here the decimal number of a block, and
  removes all keys of an attribute at once.  For each block the worker adds the
  block's entries and removes those of the block `maxCountElements` before it; the
  number of that block is a 64-bit difference, which wraps in the first blocks.

  `Window`: the two tables of a cache hold the entries of an interval of blocks.
  `blockDumpCache_window`: after consecutive blocks up to `n` the cache of dumps
  holds exactly the last `m` of them, during the warm-up as well.
-/
import TorrentNode.Lib.Json
import TorrentNode.BlockInfo

open Wire

namespace TorrentNode

/-! ## Caches -/

/-- `Cache<Value>`. -/
structure Cache (V : Type) where
  map : Finmap fun _ : Bytes => V := ∅
  attributes : Finmap fun _ : Bytes => List Bytes := ∅

namespace Cache

variable {V : Type}

/-- `addValue`; `map.insert` keeps the value of a key that is there. -/
def addValue (c : Cache V) (key attr : Bytes) (value : V) : Cache V where
  attributes := c.attributes.insert attr ((c.attributes.lookup attr).getD [] ++ [key])
  map := if key ∈ c.map then c.map else c.map.insert key value

/-- `getValue`. -/
def getValue (c : Cache V) (key : Bytes) : Option V := c.map.lookup key

/-- `remove`. -/
def remove (c : Cache V) (attr : Bytes) : Cache V :=
  match c.attributes.lookup attr with
  | none => c
  | some keys =>
    { map := keys.foldl (fun map key => map.erase key) c.map
      attributes := c.attributes.erase attr }

end Cache

/-- `std::to_string`. -/
def toStringSize (n : ℕ) : Bytes := Json.decimal n

theorem toStringSize_injective : Function.Injective toStringSize := by
  intro n m h
  rw [← (Json.decimal_spec n).2.1, ← (Json.decimal_spec m).2.1]
  exact congrArg Json.decimalValue h

/-- The caches that the worker fills. -/
structure AllCaches where
  maxCountElementsBlockCache : ℕ
  maxCountElementsTxsCache : ℕ
  blockDumpCache : Cache Bytes := {}
  txsCache : Cache TransactionInfo := {}

/-- `isIntStatusNodeTest()`. -/
def TransactionInfo.isIntStatusNodeTest (tx : TransactionInfo) : Bool :=
  decide (tx.intStatus = some 0x1101)

/-- The difference of two `size_t`. -/
def subSize (a b : ℕ) : ℕ := (a + 2 ^ 64 - b) % 2 ^ 64

namespace WorkerCache

/-- The entries of the transactions of a block. -/
def addTxs (attr : Bytes) (txs : List TransactionInfo) (cache : Cache TransactionInfo) :
    Cache TransactionInfo :=
  txs.foldl (fun cache tx =>
    if tx.isIntStatusNodeTest then cache
    else if tx.isSaveToBd then cache.addValue tx.hash attr tx else cache) cache

/-- `WorkerCache::work` for one element of the queue.  Without a number of the block the
    exception is logged. -/
def work (caches : AllCaches) (bi : BlockInfo) (blockDump : Bytes) : AllCaches :=
  match bi.header.blockNumber with
  | none => caches
  | some blockNumber =>
    let attr := toStringSize blockNumber
    let blockDumpCache :=
      if caches.maxCountElementsBlockCache ≠ 0 then
        (caches.blockDumpCache.addValue bi.header.hash attr blockDump).remove
          (toStringSize (subSize blockNumber caches.maxCountElementsBlockCache))
      else caches.blockDumpCache
    let txsCache :=
      if caches.maxCountElementsTxsCache ≠ 0 then
        (addTxs attr bi.txs caches.txsCache).remove
          (toStringSize (subSize blockNumber caches.maxCountElementsTxsCache))
      else caches.txsCache
    { caches with blockDumpCache := blockDumpCache, txsCache := txsCache }

/-- The elements of the queue one after the other. -/
def run (caches : AllCaches) (elements : List (BlockInfo × Bytes)) : AllCaches :=
  elements.foldl (fun caches element => work caches element.1 element.2) caches

end WorkerCache

/-! ## An interval of blocks -/

namespace Cache

variable {V : Type} {key : ℕ → Bytes} {value : ℕ → V} {lo hi : ℕ} {c : Cache V}

/-- The two tables hold one entry for each number of `[lo, hi)`, and nothing else. -/
structure Window (key : ℕ → Bytes) (value : ℕ → V) (lo hi : ℕ) (c : Cache V) : Prop where
  map_iff : ∀ k v, c.map.lookup k = some v ↔ ∃ j, lo ≤ j ∧ j < hi ∧ k = key j ∧ v = value j
  attributes_iff : ∀ a ks, c.attributes.lookup a = some ks ↔
    ∃ j, lo ≤ j ∧ j < hi ∧ a = toStringSize j ∧ ks = [key j]

theorem window_empty (key : ℕ → Bytes) (value : ℕ → V) (n : ℕ) : Window key value n n {} where
  map_iff k v := by
    refine iff_of_false (by simp) ?_
    rintro ⟨j, hle, hlt, -⟩
    omega
  attributes_iff a ks := by
    refine iff_of_false (by simp) ?_
    rintro ⟨j, hle, hlt, -⟩
    omega

theorem Window.lookup_eq_none (h : Window key value lo hi c) {k : Bytes}
    (hk : ∀ j, lo ≤ j → j < hi → k ≠ key j) : c.map.lookup k = none := by
  rw [Option.eq_none_iff_forall_ne_some]
  intro v hv
  obtain ⟨j, hle, hlt, rfl, -⟩ := (h.map_iff k v).1 hv
  exact hk j hle hlt rfl

theorem Window.attributes_eq_none (h : Window key value lo hi c) {n : ℕ}
    (hn : n < lo ∨ hi ≤ n) : c.attributes.lookup (toStringSize n) = none := by
  rw [Option.eq_none_iff_forall_ne_some]
  intro ks hks
  obtain ⟨j, hle, hlt, heq, -⟩ := (h.attributes_iff _ ks).1 hks
  have := toStringSize_injective heq
  omega

/-- The next block is added behind the window. -/
theorem Window.addValue (h : Window key value lo hi c) (hlo : lo ≤ hi)
    (hnew : ∀ j, lo ≤ j → j < hi → key hi ≠ key j) :
    Window key value lo (hi + 1) (c.addValue (key hi) (toStringSize hi) (value hi)) where
  map_iff k v := by
    have hmem : key hi ∉ c.map := Finmap.lookup_eq_none.1 (h.lookup_eq_none hnew)
    rw [Cache.addValue, if_neg hmem]
    by_cases hk : k = key hi
    · subst hk
      rw [Finmap.lookup_insert]
      constructor
      · intro hv
        cases hv
        exact ⟨hi, hlo, Nat.lt_succ_self hi, rfl, rfl⟩
      · rintro ⟨j, hle, hlt, heq, rfl⟩
        rcases Nat.lt_succ_iff_lt_or_eq.1 hlt with hlt | rfl
        · exact absurd heq (hnew j hle hlt)
        · rfl
    · rw [Finmap.lookup_insert_of_ne _ hk, h.map_iff]
      constructor
      · rintro ⟨j, hle, hlt, hj⟩
        exact ⟨j, hle, Nat.lt_succ_of_lt hlt, hj⟩
      · rintro ⟨j, hle, hlt, rfl, rfl⟩
        rcases Nat.lt_succ_iff_lt_or_eq.1 hlt with hlt | rfl
        · exact ⟨j, hle, hlt, rfl, rfl⟩
        · exact absurd rfl hk
  attributes_iff a ks := by
    rw [Cache.addValue, h.attributes_eq_none (Or.inr le_rfl), Option.getD_none, List.nil_append]
    by_cases ha : a = toStringSize hi
    · subst ha
      rw [Finmap.lookup_insert]
      constructor
      · intro hks
        cases hks
        exact ⟨hi, hlo, Nat.lt_succ_self hi, rfl, rfl⟩
      · rintro ⟨j, -, -, heq, rfl⟩
        rw [toStringSize_injective heq]
    · rw [Finmap.lookup_insert_of_ne _ ha, h.attributes_iff]
      constructor
      · rintro ⟨j, hle, hlt, hj⟩
        exact ⟨j, hle, Nat.lt_succ_of_lt hlt, hj⟩
      · rintro ⟨j, hle, hlt, rfl, rfl⟩
        rcases Nat.lt_succ_iff_lt_or_eq.1 hlt with hlt | rfl
        · exact ⟨j, hle, hlt, rfl, rfl⟩
        · exact absurd rfl ha

/-- Removing a block outside the window changes nothing. -/
theorem Window.remove_outside (h : Window key value lo hi c) {n : ℕ} (hn : n < lo ∨ hi ≤ n) :
    c.remove (toStringSize n) = c := by
  rw [Cache.remove, h.attributes_eq_none hn]

/-- The first block of the window is removed from both tables. -/
theorem Window.remove_first (h : Window key value lo hi c) (hlo : lo < hi)
    (hinj : ∀ j, lo < j → j < hi → key j ≠ key lo) :
    Window key value (lo + 1) hi (c.remove (toStringSize lo)) := by
  have hlookup : c.attributes.lookup (toStringSize lo) = some [key lo] :=
    (h.attributes_iff _ _).2 ⟨lo, le_rfl, hlo, rfl, rfl⟩
  rw [Cache.remove, hlookup]
  refine ⟨fun k v => ?_, fun a ks => ?_⟩
  · show (c.map.erase (key lo)).lookup k = some v ↔ _
    by_cases hk : k = key lo
    · subst hk
      rw [Finmap.lookup_erase]
      refine iff_of_false (by simp) ?_
      rintro ⟨j, hle, hlt, heq, -⟩
      exact hinj j hle hlt heq.symm
    · rw [Finmap.lookup_erase_ne hk, h.map_iff]
      constructor
      · rintro ⟨j, hle, hlt, rfl, rfl⟩
        refine ⟨j, Nat.lt_of_le_of_ne hle ?_, hlt, rfl, rfl⟩
        rintro rfl
        exact hk rfl
      · rintro ⟨j, hle, hlt, hj⟩
        exact ⟨j, Nat.le_of_succ_le hle, hlt, hj⟩
  · show (c.attributes.erase (toStringSize lo)).lookup a = some ks ↔ _
    by_cases ha : a = toStringSize lo
    · subst ha
      rw [Finmap.lookup_erase]
      refine iff_of_false (by simp) ?_
      rintro ⟨j, hle, -, heq, -⟩
      have := toStringSize_injective heq
      omega
    · rw [Finmap.lookup_erase_ne ha, h.attributes_iff]
      constructor
      · rintro ⟨j, hle, hlt, rfl, rfl⟩
        refine ⟨j, Nat.lt_of_le_of_ne hle ?_, hlt, rfl, rfl⟩
        rintro rfl
        exact ha rfl
      · rintro ⟨j, hle, hlt, hj⟩
        exact ⟨j, Nat.le_of_succ_le hle, hlt, hj⟩

/-- **One block** moves the window on.  While `hi < m` the difference wraps to a number behind it. -/
theorem Window.next {s m : ℕ} (hm : 0 < m) (hm64 : m < 2 ^ 64) (hs : s ≤ hi) (hhi : hi < 2 ^ 64)
    (hinj : ∀ i j, s ≤ i → i < j → j ≤ hi → key i ≠ key j)
    (h : Window key value (max s (hi - m)) hi c) :
    Window key value (max s (hi + 1 - m)) (hi + 1)
      ((c.addValue (key hi) (toStringSize hi) (value hi)).remove (toStringSize (subSize hi m))) := by
  have hadd := h.addValue (by omega)
    (fun j hle hlt => (hinj j hi (by omega) hlt le_rfl).symm)
  by_cases hwrap : hi < m
  · have hsub : subSize hi m = hi + 2 ^ 64 - m := by
      rw [subSize, Nat.mod_eq_of_lt (by omega)]
    rw [hsub, hadd.remove_outside (Or.inr (by omega)), show hi + 1 - m = hi - m by omega]
    exact hadd
  · have hsub : subSize hi m = hi - m := by
      rw [subSize, show hi + 2 ^ 64 - m = hi - m + 2 ^ 64 by omega, Nat.add_mod_right,
        Nat.mod_eq_of_lt (by omega)]
    rw [hsub]
    by_cases hfirst : s ≤ hi - m
    · rw [max_eq_right hfirst] at hadd
      rw [max_eq_right (by omega), show hi + 1 - m = hi - m + 1 by omega]
      exact hadd.remove_first (by omega)
        (fun j hlt hle => (hinj _ j hfirst hlt (by omega)).symm)
    · rw [hadd.remove_outside (Or.inl (by omega)), max_eq_left (by omega)]
      rwa [max_eq_left (by omega)] at hadd

end Cache

/-! ## The cache of the dumps -/

namespace WorkerCache

open Cache

/-- **The blocks of a run** up to `hi` leave the window of the last `m` ones. -/
theorem run_window {caches : AllCaches} {m s : ℕ} (hm : 0 < m) (hm64 : m < 2 ^ 64)
    (hmax : caches.maxCountElementsBlockCache = m) (hempty : caches.blockDumpCache = {})
    {block : ℕ → BlockInfo × Bytes} (count : ℕ) (hcount : s + count ≤ 2 ^ 64)
    (hnumber : ∀ j, s ≤ j → j < s + count → (block j).1.header.blockNumber = some j)
    (hinj : ∀ i j, s ≤ i → i < j → j < s + count →
      (block i).1.header.hash ≠ (block j).1.header.hash) :
    (run caches ((List.range' s count).map block)).maxCountElementsBlockCache = m ∧
      Window (fun j => (block j).1.header.hash) (fun j => (block j).2) (max s (s + count - m))
        (s + count) (run caches ((List.range' s count).map block)).blockDumpCache := by
  induction count with
  | zero =>
    refine ⟨hmax, ?_⟩
    show Window _ _ (max s (s - m)) s caches.blockDumpCache
    rw [hempty, max_eq_left (Nat.sub_le s m)]
    exact window_empty _ _ s
  | succ count ih =>
    obtain ⟨hlimit, hwindow⟩ := ih (by omega) (fun j hle hlt => hnumber j hle (by omega))
      (fun i j hi hij hj => hinj i j hi hij (by omega))
    rw [List.range'_1_concat, List.map_append, run, List.foldl_append]
    show (work (run caches ((List.range' s count).map block)) (block (s + count)).1
        (block (s + count)).2).maxCountElementsBlockCache = m ∧ Window _ _ _ _
      (work (run caches ((List.range' s count).map block)) (block (s + count)).1
        (block (s + count)).2).blockDumpCache
    rw [work, hnumber (s + count) (by omega) (by omega)]
    refine ⟨hlimit, ?_⟩
    dsimp only
    rw [hlimit, if_pos hm.ne']
    have hnext := hwindow.next hm hm64 (Nat.le_add_right s count) (by omega)
      (fun i j hi hij hj => hinj i j hi hij (by omega))
    exact hnext

/-- **The window of dumps**: after the blocks `s` to `n` the cache has the dumps of the last `m` of
    them, by their hashes, and the attributes of these numbers. -/
theorem blockDumpCache_window {caches : AllCaches} {m s n : ℕ} (hm : 1 ≤ m) (hm64 : m < 2 ^ 64)
    (hmax : caches.maxCountElementsBlockCache = m) (hempty : caches.blockDumpCache = {})
    (hsn : s ≤ n) (hn : n < 2 ^ 64) {block : ℕ → BlockInfo × Bytes}
    (hnumber : ∀ j, s ≤ j → j ≤ n → (block j).1.header.blockNumber = some j)
    (hdistinct : ∀ i j, s ≤ i → i < j → j ≤ n →
      (block i).1.header.hash ≠ (block j).1.header.hash) :
    (∀ j, max s (n + 1 - m) ≤ j → j ≤ n →
      (run caches ((List.range' s (n + 1 - s)).map block)).blockDumpCache.getValue
        (block j).1.header.hash = some (block j).2) ∧
    (∀ hash, (∀ j, max s (n + 1 - m) ≤ j → j ≤ n → hash ≠ (block j).1.header.hash) →
      (run caches ((List.range' s (n + 1 - s)).map block)).blockDumpCache.getValue hash = none) ∧
    (∀ attr keys,
      (run caches ((List.range' s (n + 1 - s)).map block)).blockDumpCache.attributes.lookup
          attr = some keys ↔
        ∃ j, max s (n + 1 - m) ≤ j ∧ j ≤ n ∧ attr = toStringSize j ∧
          keys = [(block j).1.header.hash]) := by
  obtain ⟨-, hwindow⟩ := run_window hm hm64 hmax hempty (n + 1 - s) (by omega)
    (fun j hle hlt => hnumber j hle (by omega))
    (fun i j hi hij hj => hdistinct i j hi hij (by omega))
  rw [show s + (n + 1 - s) = n + 1 by omega] at hwindow
  refine ⟨?_, ?_, ?_⟩
  · intro j hle hlt
    exact (hwindow.map_iff _ _).2 ⟨j, hle, Nat.lt_succ_of_le hlt, rfl, rfl⟩
  · intro hash hother
    exact hwindow.lookup_eq_none fun j hle hlt => hother j hle (Nat.le_of_lt_succ hlt)
  · intro attr keys
    simp only [hwindow.attributes_iff, Nat.lt_succ_iff]

/-- A block whose hash is its number, with a dump of one byte. -/
def numbered (j : ℕ) : BlockInfo × Bytes :=
  ({ header := { hash := toStringSize j, blockNumber := some j } }, [UInt8.ofNat j])

/-- After the blocks 1, 2 and 3 a cache for two blocks has lost the first one. -/
theorem blockDumpCache_window_three :
    (run ⟨2, 0, {}, {}⟩ ((List.range' 1 3).map numbered)).blockDumpCache.getValue (toStringSize 3) =
        some [3] ∧
      (run ⟨2, 0, {}, {}⟩ ((List.range' 1 3).map numbered)).blockDumpCache.getValue
        (toStringSize 1) = none := by
  have hnumber : ∀ j, 1 ≤ j → j ≤ 3 → (numbered j).1.header.blockNumber = some j :=
    fun _ _ _ => rfl
  have hdistinct : ∀ i j, 1 ≤ i → i < j → j ≤ 3 →
      (numbered i).1.header.hash ≠ (numbered j).1.header.hash :=
    fun i j _ hij _ heq => hij.ne (toStringSize_injective heq)
  obtain ⟨hheld, hnone, -⟩ := blockDumpCache_window (by decide) (by decide)
    (show (⟨2, 0, {}, {}⟩ : AllCaches).maxCountElementsBlockCache = 2 from rfl) rfl
    (show 1 ≤ 3 by decide) (by decide) hnumber hdistinct
  refine ⟨hheld 3 (by decide) (by decide), hnone _ ?_⟩
  intro j hle _ heq
  have := toStringSize_injective heq
  omega

end WorkerCache

end TorrentNode
