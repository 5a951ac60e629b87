/-
  The cache of the addresses' transactions and statuses (src/Cache/LocalCache.cpp).

  A `LocalCacheInternal` with a limit evicts through its recency heap: a read
  puts the address into the heap, an insert reduces the heap to the limit and
  erases what left it.  An address that was never read is not in the heap, so an
  insert cannot evict it.

  `Inv`: the heap is in order and holds addresses of the cache only.
  `run_inv`: every sequence of calls keeps it; none of the checks of the heap fails.
  `addElement_limit_iff`: an insert leaves the cache within its limit if and only
  if the addresses fit without eviction, or all of them are in the heap.
-/
import TorrentNode.Utils.Heap

open Wire Exec

namespace TorrentNode

/-- `LocalCacheElement<std::variant<size_t, std::vector<T>>>`. -/
structure LocalCacheElement (T : Type) where
  value : ℕ ⊕ List T
  blockUnklesOrNewNum : ℕ := 0
  isSyncBlockchainThreadUpdated : Bool

/-- `LocalCacheInternal`, for elements with values `T` and time points `Time`. -/
structure LocalCacheInternal (T Time : Type) where
  cache : Finmap fun _ : Bytes => LocalCacheElement T
  noSyncBlockchainThreadElements : Finset Bytes
  lastBlockNum : ℕ
  maxCountElements : ℕ
  heap : Heap Bytes Time
  isSaveFull : Bool

namespace LocalCacheInternal

variable {T Time : Type}

def DISABLED_CACHE : ℕ := 0

def WITHOUT_LIMITATION : ℕ := 2 ^ 64 - 1

/-- The constructor. -/
def init (maxCountElements : ℕ) : LocalCacheInternal T Time :=
  ⟨∅, ∅, 0, maxCountElements, Heap.empty, true⟩

section
variable (blockNumber : T → ℕ)

/-- `getMaxBlockNumber`. -/
def getMaxBlockNumber : List T → ℕ
  | [] => 0
  | first :: rest => max (blockNumber first) (blockNumber ((first :: rest).getLast (by simp)))

/-- `makeNewElementValue`. -/
def makeNewElementValue (value : List T) (isSaveFull : Bool) : ℕ ⊕ List T :=
  if isSaveFull then .inr value else .inl (getMaxBlockNumber blockNumber value)

/-- `addElementInternal`. -/
def addElementInternal (s : LocalCacheInternal T Time) (address : Bytes) (value : List T)
    (isSyncBlockchainThreadUpdated isNewElement : Bool) : LocalCacheInternal T Time :=
  let newElement : LocalCacheElement T :=
    { value := makeNewElementValue blockNumber value s.isSaveFull
      blockUnklesOrNewNum := if isNewElement then (s.lastBlockNum + 1) % 2 ^ 64 else 0
      isSyncBlockchainThreadUpdated := isSyncBlockchainThreadUpdated }
  if !isSyncBlockchainThreadUpdated then
    { s with
      cache := s.cache.insert address newElement
      noSyncBlockchainThreadElements := insert address s.noSyncBlockchainThreadElements }
  else if address ∈ s.cache then
    { s with
      cache := s.cache.insert address newElement
      noSyncBlockchainThreadElements := s.noSyncBlockchainThreadElements.erase address }
  else s

/-- `removeElement`. -/
def removeElement (s : LocalCacheInternal T Time) (address : Bytes) : LocalCacheInternal T Time :=
  { s with
    cache := s.cache.erase address
    noSyncBlockchainThreadElements := s.noSyncBlockchainThreadElements.erase address }

variable [LinearOrder Time] [OrderBot Time]

/-- `addElement`. -/
def addElement (s : LocalCacheInternal T Time) (address : Bytes) (value : List T)
    (isSyncBlockchainThreadUpdated : Bool) : Exec Exn (LocalCacheInternal T Time) :=
  if s.maxCountElements = DISABLED_CACHE then pure s
  else
    let s := s.addElementInternal blockNumber address value isSyncBlockchainThreadUpdated false
    if s.maxCountElements ≠ WITHOUT_LIMITATION then do
      let (heap, addrs) ← s.heap.reduceToMax s.maxCountElements
      pure (addrs.foldl removeElement { s with heap := heap })
    else pure s

/-- `addIfNoExist`; a `getter` that throws leaves the cache as it is. -/
def addIfNoExist (s : LocalCacheInternal T Time) (address : Bytes)
    (getter : Bytes → Except Exn (List T)) (isSyncBlockchainThreadUpdated isInitialized : Bool) :
    Exec Exn (LocalCacheInternal T Time) :=
  match s.cache.lookup address with
  | none => do
    let value ← Exec.ofExcept (getter address)
    pure (s.addElementInternal blockNumber address value isSyncBlockchainThreadUpdated true)
  | some found =>
    if !isInitialized then
      let element := { found with blockUnklesOrNewNum := (s.lastBlockNum + 1) % 2 ^ 64 }
      pure { s with cache := s.cache.insert address element }
    else pure s

/-- `getValueIfExist` at the time `now`: the cache and the value, if there is one. -/
def getValueIfExist (s : LocalCacheInternal T Time) (address : Bytes) (now : Time) :
    Exec Exn (LocalCacheInternal T Time × Option (ℕ ⊕ List T)) :=
  if s.maxCountElements = DISABLED_CACHE then pure (s, none)
  else
    match s.cache.lookup address with
    | none => pure (s, none)
    | some found =>
      if s.maxCountElements ≠ WITHOUT_LIMITATION then do
        let heap ← s.heap.addElement address now
        pure ({ s with heap := heap }, some found.value)
      else pure (s, some found.value)

/-- The loop of `setLastBlockNum` for one element. -/
def markNew (blockNum : ℕ) (cache : Finmap fun _ : Bytes => LocalCacheElement T) (address : Bytes) :
    Finmap fun _ : Bytes => LocalCacheElement T :=
  match cache.lookup address with
  | some element => cache.insert address { element with blockUnklesOrNewNum := blockNum }
  | none => cache

/-- `setLastBlockNum`; the first call marks the elements that are there as new. -/
def setLastBlockNum (s : LocalCacheInternal T Time) (newLastBlockNum : ℕ) : LocalCacheInternal T Time :=
  { s with
    cache :=
      if s.lastBlockNum = 0 then
        (s.cache.keys.sort (· ≤ ·)).foldl (markNew ((newLastBlockNum + 1) % 2 ^ 64)) s.cache
      else s.cache
    lastBlockNum := newLastBlockNum }

/-- A call of a client of the cache. -/
inductive Call (T Time : Type) where
  | addElement (address : Bytes) (value : List T) (isSyncBlockchainThreadUpdated : Bool)
  | addIfNoExist (address : Bytes) (getter : Bytes → Except Exn (List T))
      (isSyncBlockchainThreadUpdated isInitialized : Bool)
  | getValueIfExist (address : Bytes) (now : Time)

/-- The cache after a call. -/
def call (s : LocalCacheInternal T Time) : Call T Time → Exec Exn (LocalCacheInternal T Time)
  | .addElement address value isSync => s.addElement blockNumber address value isSync
  | .addIfNoExist address getter isSync isInitialized =>
    s.addIfNoExist blockNumber address getter isSync isInitialized
  | .getValueIfExist address now => do
    let (s, _) ← s.getValueIfExist address now
    pure s

/-- The cache after a sequence of calls; a client catches the exceptions of its calls. -/
def run (s : LocalCacheInternal T Time) : List (Call T Time) → Exec Exn (LocalCacheInternal T Time)
  | [] => pure s
  | c :: calls => do
    let r ← (s.call blockNumber c).attempt
    match r with
    | .ok s' => s'.run calls
    | .error _ => s.run calls

end

/-! ## The addresses of the cache and of the heap -/

/-- The addresses in the cache. -/
def addresses (s : LocalCacheInternal T Time) : Finset Bytes := s.cache.keys

/-- The addresses in the cache once `address` is added, if it is. -/
def addressesWith (s : LocalCacheInternal T Time) (address : Bytes)
    (isSyncBlockchainThreadUpdated : Bool) : Finset Bytes :=
  if isSyncBlockchainThreadUpdated then s.addresses else insert address s.addresses

theorem keys_insert (m : Finmap fun _ : Bytes => LocalCacheElement T) (address : Bytes)
    (element : LocalCacheElement T) : (m.insert address element).keys = insert address m.keys := by
  ext a
  simp [Finmap.mem_keys]

theorem addElementInternal_addresses (blockNumber : T → ℕ) (s : LocalCacheInternal T Time)
    (address : Bytes) (value : List T) (isSync isNew : Bool) :
    (s.addElementInternal blockNumber address value isSync isNew).addresses =
      s.addressesWith address isSync := by
  rw [addElementInternal, addressesWith, addresses, addresses]
  cases isSync with
  | false => simp [keys_insert]
  | true =>
    by_cases hfound : address ∈ s.cache
    · simpa [hfound, keys_insert] using Finmap.mem_keys.2 hfound
    · simp [hfound]

theorem addElementInternal_heap (blockNumber : T → ℕ) (s : LocalCacheInternal T Time)
    (address : Bytes) (value : List T) (isSync isNew : Bool) :
    (s.addElementInternal blockNumber address value isSync isNew).heap = s.heap ∧
      (s.addElementInternal blockNumber address value isSync isNew).maxCountElements =
        s.maxCountElements := by
  rw [addElementInternal]
  split
  · exact ⟨rfl, rfl⟩
  · split
    · exact ⟨rfl, rfl⟩
    · exact ⟨rfl, rfl⟩

theorem subset_addressesWith (s : LocalCacheInternal T Time) (address : Bytes) (isSync : Bool) :
    s.addresses ⊆ s.addressesWith address isSync := by
  rw [addressesWith]
  split
  · exact Finset.Subset.refl _
  · exact Finset.subset_insert _ _

theorem foldl_removeElement (addrs : List Bytes) (s : LocalCacheInternal T Time) :
    (addrs.foldl removeElement s).addresses = s.addresses \ addrs.toFinset ∧
      (addrs.foldl removeElement s).heap = s.heap ∧
      (addrs.foldl removeElement s).maxCountElements = s.maxCountElements := by
  induction addrs generalizing s with
  | nil => simp
  | cons address addrs ih =>
    rw [List.foldl_cons]
    obtain ⟨haddresses, hheap, hmax⟩ := ih (s.removeElement address)
    refine ⟨?_, hheap, hmax⟩
    rw [haddresses, removeElement, addresses, Finmap.keys_erase, List.toFinset_cons]
    ext a
    simp only [Finset.mem_sdiff, Finset.mem_erase, Finset.mem_insert, addresses]
    tauto

/-! ## The invariant of the calls -/

variable [LinearOrder Time]

/-- The heap of a cache with the limit `m` holds addresses of the cache. -/
structure Inv (m : ℕ) (s : LocalCacheInternal T Time) : Prop where
  limit : s.maxCountElements = m
  heap : s.heap.Inv
  read : s.heap.keys.keys ⊆ s.addresses

theorem inv_init (m : ℕ) : (init m : LocalCacheInternal T Time).Inv m where
  limit := rfl
  heap := Heap.inv_empty
  read := by simp [init, Heap.empty]

section
variable {blockNumber : T → ℕ} {m : ℕ} {s : LocalCacheInternal T Time}

/-- **A read** puts the address into the heap. -/
theorem getValueIfExist_spec (hm : 0 < m) (hlimit : m < WITHOUT_LIMITATION) (hinv : s.Inv m)
    (address : Bytes) (now : Time) :
    ∃ s' value, s.getValueIfExist address now = .ok (s', value) ∧ s'.Inv m ∧
      s'.addresses = s.addresses := by
  rw [getValueIfExist, if_neg (by rw [hinv.limit]; exact hm.ne')]
  cases hfound : s.cache.lookup address with
  | none => exact ⟨s, none, rfl, hinv, rfl⟩
  | some found =>
    obtain ⟨heap, hadd, hinv', hkeys⟩ := Heap.addElement_spec hinv.heap address now
    refine ⟨{ s with heap := heap }, some found.value, ?_, ⟨hinv.limit, hinv', ?_⟩, rfl⟩
    · dsimp only
      rw [hinv.limit, if_pos hlimit.ne, hadd]
      rfl
    · intro a ha
      have ha : a ∈ heap.keys.keys := ha
      rw [hkeys, Finmap.mem_keys, Finmap.mem_insert] at ha
      rcases ha with rfl | ha
      · exact Finmap.mem_keys.2 (Finmap.mem_of_lookup_eq_some hfound)
      · exact hinv.read (Finmap.mem_keys.2 ha)

/-- `addIfNoExist` erases nothing. -/
theorem addIfNoExist_inv (hinv : s.Inv m) (address : Bytes) (getter : Bytes → Except Exn (List T))
    (isSync isInitialized : Bool) :
    (∃ s', s.addIfNoExist blockNumber address getter isSync isInitialized = .ok s' ∧ s'.Inv m) ∨
      ∃ e, s.addIfNoExist blockNumber address getter isSync isInitialized = .throw e := by
  rw [addIfNoExist]
  cases hfound : s.cache.lookup address with
  | none =>
    cases hget : getter address with
    | error e => exact Or.inr ⟨e, rfl⟩
    | ok value =>
      obtain ⟨hheap, hmax⟩ := addElementInternal_heap blockNumber s address value isSync true
      refine Or.inl ⟨_, rfl, ⟨?_, ?_, ?_⟩⟩
      · exact hmax.trans hinv.limit
      · rw [hheap]
        exact hinv.heap
      · rw [hheap, addElementInternal_addresses]
        exact hinv.read.trans (subset_addressesWith s address isSync)
  | some found =>
    left
    dsimp only
    split
    · refine ⟨_, rfl, hinv.limit, hinv.heap, hinv.read.trans ?_⟩
      show s.addresses ⊆ Finmap.keys (Finmap.insert _ _ _)
      rw [keys_insert]
      exact Finset.subset_insert _ _
    · exact ⟨s, rfl, hinv⟩

variable [OrderBot Time]

/-- **An insert** erases the oldest addresses of the heap from the cache. -/
theorem addElement_spec (hm : 0 < m) (hlimit : m < WITHOUT_LIMITATION) (hinv : s.Inv m)
    (address : Bytes) (value : List T) (isSync : Bool) :
    ∃ s', s.addElement blockNumber address value isSync = .ok s' ∧ s'.Inv m ∧
      s'.addresses = s.addressesWith address isSync \
        ((s.heap.heap.take (s.heap.heap.length - m)).map Prod.snd).toFinset := by
  obtain ⟨hheap, hmax⟩ := addElementInternal_heap blockNumber s address value isSync false
  have haddresses := addElementInternal_addresses blockNumber s address value isSync false
  obtain ⟨heap, hreduce, hinv', hrest⟩ := Heap.reduceToMax_spec hinv.heap hm.ne'
  have hadd : s.addElement blockNumber address value isSync = .ok
      (((s.heap.heap.take (s.heap.heap.length - m)).map Prod.snd).foldl removeElement
        { s.addElementInternal blockNumber address value isSync false with heap := heap }) := by
    rw [addElement, if_neg (by rw [hinv.limit]; exact hm.ne')]
    dsimp only
    rw [hmax, hinv.limit, if_pos hlimit.ne, hheap, hreduce]
    rfl
  obtain ⟨hleft, hheap', hmax'⟩ := foldl_removeElement
    ((s.heap.heap.take (s.heap.heap.length - m)).map Prod.snd)
    { s.addElementInternal blockNumber address value isSync false with heap := heap }
  refine ⟨_, hadd, ⟨?_, ?_, ?_⟩, ?_⟩
  · rw [hmax']
    exact hmax.trans hinv.limit
  · rw [hheap']
    exact hinv'
  · rw [hheap', hleft, ← hinv'.keys_eq, hrest]
    have hsplit := hinv.heap.keys_nodup
    rw [← List.take_append_drop (s.heap.heap.length - m) s.heap.heap, List.map_append] at hsplit
    intro a ha
    rw [List.mem_toFinset] at ha
    refine Finset.mem_sdiff.2 ⟨?_, ?_⟩
    · have hread : a ∈ s.heap.keys.keys := by
        rw [← hinv.heap.keys_eq, List.mem_toFinset]
        exact List.map_subset _ (List.drop_subset _ _) ha
      exact haddresses ▸ subset_addressesWith s address isSync (hinv.read hread)
    · rw [List.mem_toFinset]
      exact fun ha' => (List.nodup_append.1 hsplit).2.2 a ha' a ha rfl
  · rw [hleft]
    exact congrArg (· \ _) haddresses

/-- One call keeps the invariant, or throws and does nothing. -/
theorem call_inv (hm : 0 < m) (hlimit : m < WITHOUT_LIMITATION) (hinv : s.Inv m)
    (c : Call T Time) :
    (∃ s', s.call blockNumber c = .ok s' ∧ s'.Inv m) ∨ ∃ e, s.call blockNumber c = .throw e := by
  cases c with
  | addElement address value isSync =>
    obtain ⟨s', hadd, hinv', -⟩ := addElement_spec hm hlimit hinv address value isSync
    exact Or.inl ⟨s', hadd, hinv'⟩
  | addIfNoExist address getter isSync isInitialized =>
    exact addIfNoExist_inv hinv address getter isSync isInitialized
  | getValueIfExist address now =>
    obtain ⟨s', value, hget, hinv', -⟩ := getValueIfExist_spec hm hlimit hinv address now
    exact Or.inl ⟨s', by rw [call, hget]; rfl, hinv'⟩

/-- **Every sequence of calls** keeps the invariant. -/
theorem run_inv (hm : 0 < m) (hlimit : m < WITHOUT_LIMITATION) (hinv : s.Inv m)
    (calls : List (Call T Time)) : ∃ s', s.run blockNumber calls = .ok s' ∧ s'.Inv m := by
  induction calls generalizing s with
  | nil => exact ⟨s, rfl, hinv⟩
  | cons c calls ih =>
    rcases call_inv hm hlimit hinv c with ⟨s', hcall, hinv'⟩ | ⟨e, hcall⟩
    · obtain ⟨s'', hrun, hinv''⟩ := ih hinv'
      exact ⟨s'', by rw [run, hcall]; exact hrun, hinv''⟩
    · obtain ⟨s'', hrun, hinv''⟩ := ih hinv
      exact ⟨s'', by rw [run, hcall]; exact hrun, hinv''⟩

theorem run_append (calls : List (Call T Time)) {s' : LocalCacheInternal T Time}
    (hrun : s.run blockNumber calls = .ok s') (c : Call T Time)
    {s'' : LocalCacheInternal T Time} (hcall : s'.call blockNumber c = .ok s'') :
    s.run blockNumber (calls ++ [c]) = .ok s'' := by
  induction calls generalizing s with
  | nil =>
    cases hrun
    rw [List.nil_append, run, hcall]
    rfl
  | cons c' calls ih =>
    rw [run] at hrun
    rw [List.cons_append, run]
    obtain ⟨r, hr, hrun⟩ := bind_eq_ok.1 hrun
    rw [hr, ok_bind]
    cases r with
    | ok t => exact ih hrun
    | error e => exact ih hrun

end

/-! ## The limit -/

variable [OrderBot Time]

/-- What is left of `n` addresses, `k` of them in the heap, of which all but `m` are erased. -/
theorem sub_le_iff {n k m : ℕ} (hk : k ≤ n) : n - (k - m) ≤ m ↔ n ≤ m ∨ n ≤ k := by
  omega

/-- **The limit of the cache**: after every sequence of calls, an insert leaves at most `m` addresses
    if and only if the addresses fit without eviction, or all of them are in the heap. -/
theorem addElement_limit_iff {m : ℕ} (hm : 0 < m) (hlimit : m < 2 ^ 64 - 1) (blockNumber : T → ℕ)
    (calls : List (Call T Time)) (address : Bytes) (value : List T) (isSync : Bool) :
    ∃ s s' : LocalCacheInternal T Time,
      (init m).run blockNumber calls = .ok s ∧
      (init m).run blockNumber (calls ++ [.addElement address value isSync]) = .ok s' ∧
      (s'.addresses.card ≤ m ↔
        (s.addressesWith address isSync).card ≤ m ∨
          s.addressesWith address isSync ⊆ s.heap.keys.keys) := by
  obtain ⟨s, hrun, hinv⟩ : ∃ s, (init m).run blockNumber calls = .ok s ∧ s.Inv m :=
    run_inv hm hlimit (inv_init m) calls
  obtain ⟨s', hadd, haddresses⟩ : ∃ s', s.addElement blockNumber address value isSync = .ok s' ∧
      s'.addresses = s.addressesWith address isSync \
        ((s.heap.heap.take (s.heap.heap.length - m)).map Prod.snd).toFinset := by
    obtain ⟨s', hadd, -, haddresses⟩ := addElement_spec hm hlimit hinv address value isSync
    exact ⟨s', hadd, haddresses⟩
  refine ⟨s, s', hrun, run_append calls hrun _ hadd, ?_⟩
  have hread := hinv.read.trans (subset_addressesWith s address isSync)
  have hevicted : ((s.heap.heap.take (s.heap.heap.length - m)).map Prod.snd).toFinset ⊆
      s.addressesWith address isSync := by
    refine Finset.Subset.trans ?_ hread
    rw [← hinv.heap.keys_eq]
    exact fun a ha => List.mem_toFinset.2
      (List.map_subset _ (List.take_subset _ _) (List.mem_toFinset.1 ha))
  have hcount : ((s.heap.heap.take (s.heap.heap.length - m)).map Prod.snd).toFinset.card =
      s.heap.keys.keys.card - m := by
    rw [List.toFinset_card_of_nodup, List.length_map, List.length_take, hinv.heap.card_eq]
    · omega
    · exact hinv.heap.keys_nodup.sublist ((List.take_sublist _ _).map _)
  rw [haddresses, Finset.card_sdiff_of_subset hevicted, hcount,
    sub_le_iff (Finset.card_le_card hread)]
  refine or_congr_right ⟨fun hle => ?_, Finset.card_le_card⟩
  exact (Finset.eq_of_subset_of_card_le hread hle).symm.subset

/-- Two addresses that were read fit into a cache for two. -/
theorem addElement_limit_of_read : ∃ s s' : LocalCacheInternal ℕ ℕ,
    (init 2).run id [.addElement [1] [7] false, .getValueIfExist [1] 0,
      .addElement [2] [8] false] = .ok s ∧
    (init 2).run id ([.addElement [1] [7] false, .getValueIfExist [1] 0,
      .addElement [2] [8] false] ++ [.addElement [1] [9] true]) = .ok s' ∧
    (s'.addresses.card ≤ 2 ↔
      (s.addressesWith [1] true).card ≤ 2 ∨ s.addressesWith [1] true ⊆ s.heap.keys.keys) :=
  addElement_limit_iff (by decide) (by decide) id _ _ _ _

/-- Two addresses that were not read stay in a cache for one. -/
theorem addElement_exceeds_limit : ∃ s : LocalCacheInternal ℕ ℕ,
    (init 1).run id [.addElement [1] [7] false, .addElement [2] [8] false] = .ok s ∧
    ¬ s.addresses.card ≤ 1 :=
  ⟨_, rfl, by decide⟩

end LocalCacheInternal

end TorrentNode
