/-
  The recency heap of the caches (src/utils/Heap.cpp).

  A `Heap` holds each key with its last value, in a table by key and in a
  multimap by value.  `Heap.Inv` says that the two hold the same pairs and that
  the multimap is in its order.

  `addElement_spec`: `addElement` returns, keeps the invariant and sets one key.
  `reduceToMax_spec`: `reduceToMax` returns, keeps the invariant and moves the
  first pairs of the multimap, which are the oldest ones, out of both tables.
  `run_agrees`: after every run the two tables agree, and the oldest keys are
  the ones that go.
-/
import TorrentNode.Utils.Serialize
import Mathlib.Data.Finmap
import Mathlib.Data.List.Sort
import Mathlib.Order.BoundedOrder.Basic

open Exec

namespace TorrentNode

/-- `Heap<Key, Value>`; the multimap is the list of its pairs in its order, so pairs with equal
    values stand in the order of their insertion. -/
structure Heap (K V : Type) where
  keys : Finmap fun _ : K => V
  heap : List (V × K)

namespace Heap

variable {K V : Type}

def empty : Heap K V := ⟨∅, []⟩

variable [LinearOrder V]

/-- `heap.insert({value, key})`: behind the pairs whose value is not greater. -/
def insert (heap : List (V × K)) (value : V) (key : K) : List (V × K) :=
  heap.orderedInsert (fun p q => p.1 < q.1) (value, key)

theorem insert_perm (heap : List (V × K)) (value : V) (key : K) :
    (insert heap value key).Perm ((value, key) :: heap) :=
  List.perm_orderedInsert _ _ _

theorem insert_sorted {heap : List (V × K)} (h : heap.Pairwise fun p q => p.1 ≤ q.1) (value : V)
    (key : K) : (insert heap value key).Pairwise fun p q => p.1 ≤ q.1 := by
  induction heap with
  | nil => simp [insert]
  | cons p heap ih =>
    rw [List.pairwise_cons] at h
    rw [insert, List.orderedInsert_cons]
    split
    · rename_i hlt
      refine List.pairwise_cons.2 ⟨?_, List.pairwise_cons.2 h⟩
      intro q hq
      rcases List.mem_cons.1 hq with rfl | hq
      · exact hlt.le
      · exact hlt.le.trans (h.1 q hq)
    · rename_i hlt
      refine List.pairwise_cons.2 ⟨?_, ih h.2⟩
      intro q hq
      rcases List.mem_cons.1 ((insert_perm heap value key).subset hq) with rfl | hq
      · exact not_lt.1 hlt
      · exact h.1 q hq

theorem dropWhile_bot [OrderBot V] (heap : List (V × K)) :
    heap.dropWhile (fun p => p.1 < ⊥) = heap := by
  cases heap <;> simp

variable [DecidableEq K]

/-- `Heap::addElement`. -/
def addElement (h : Heap K V) (key : K) (value : V) : Exec Exn (Heap K V) := do
  let heap ← match h.keys.lookup key with
    | some lastValue => do
      check ((lastValue, key) ∈ h.heap) "Not found element"
      pure (h.heap.erase (lastValue, key))
    | none => pure h.heap
  pure ⟨h.keys.insert key value, insert heap value key⟩

section
variable [OrderBot V]

/-- One pass of the loop of `reduceToMax`; the element at `lower_bound` must exist. -/
def reduceStep (newSize : ℕ) (s : Heap K V × List K) : Exec Exn ((Heap K V × List K) × Bool) :=
  if newSize < s.1.keys.keys.card then
    match s.1.heap.dropWhile (fun p => p.1 < ⊥) with
    | [] => .undef .assertion
    | p :: _ => pure ((⟨s.1.keys.erase p.2, s.1.heap.erase p⟩, s.2 ++ [p.2]), true)
  else pure (s, false)

/-- `Heap::reduceToMax`; each pass removes a key. -/
def reduceToMax (h : Heap K V) (newSize : ℕ) : Exec Exn (Heap K V × List K) := do
  check (newSize ≠ 0) "Incorrect new size"
  loop (reduceStep newSize) (h.keys.keys.card + 1) (h, [])

end

/-! ## The two tables -/

/-- The multimap is in order and holds each key once, with its last value. -/
structure Inv (h : Heap K V) : Prop where
  sorted : h.heap.Pairwise fun p q => p.1 ≤ q.1
  nodup : h.heap.Nodup
  mem_iff : ∀ v k, (v, k) ∈ h.heap ↔ h.keys.lookup k = some v

theorem inv_empty : (empty : Heap K V).Inv where
  sorted := List.Pairwise.nil
  nodup := List.nodup_nil
  mem_iff v k := by simp [empty]

section
variable {h : Heap K V}

theorem Inv.keys_nodup (hinv : h.Inv) : (h.heap.map Prod.snd).Nodup := by
  refine hinv.nodup.map_on ?_
  rintro ⟨v, k⟩ hp ⟨v', k'⟩ hq rfl
  have hv := (hinv.mem_iff v k).1 hp
  rw [(hinv.mem_iff v' k).1 hq] at hv
  cases hv
  rfl

theorem Inv.keys_eq (hinv : h.Inv) : (h.heap.map Prod.snd).toFinset = h.keys.keys := by
  ext k
  rw [List.mem_toFinset, Finmap.mem_keys, ← Finmap.lookup_isSome, Option.isSome_iff_exists]
  simp only [List.mem_map, Prod.exists, exists_eq_right, hinv.mem_iff]

theorem Inv.card_eq (hinv : h.Inv) : h.keys.keys.card = h.heap.length := by
  rw [← hinv.keys_eq, List.toFinset_card_of_nodup hinv.keys_nodup, List.length_map]

/-! ## Adding -/

/-- **`addElement`** finds the pair of the last value, and sets the value of its key. -/
theorem addElement_spec (hinv : h.Inv) (key : K) (value : V) :
    ∃ h', h.addElement key value = .ok h' ∧ h'.Inv ∧ h'.keys = h.keys.insert key value := by
  -- what is left of the multimap are the pairs of the other keys
  obtain ⟨heap, hheap, hsub, hmem⟩ : ∃ heap, (h.addElement key value =
      .ok ⟨h.keys.insert key value, insert heap value key⟩) ∧ heap.Sublist h.heap ∧
      ∀ v k, (v, k) ∈ heap ↔ k ≠ key ∧ h.keys.lookup k = some v := by
    cases hlast : h.keys.lookup key with
    | none =>
      refine ⟨h.heap, by rw [addElement, hlast]; rfl, List.Sublist.refl _, ?_⟩
      intro v k
      rw [hinv.mem_iff]
      refine ⟨fun hk => ⟨?_, hk⟩, fun hk => hk.2⟩
      rintro rfl
      rw [hlast] at hk
      cases hk
    | some lastValue =>
      have hfound : (lastValue, key) ∈ h.heap := (hinv.mem_iff _ _).2 hlast
      refine ⟨h.heap.erase (lastValue, key), ?_, List.erase_sublist, ?_⟩
      · rw [addElement, hlast]
        dsimp only
        rw [check, check_pos hfound]
        rfl
      · intro v k
        rw [hinv.nodup.mem_erase_iff, hinv.mem_iff]
        constructor
        · rintro ⟨hne, hk⟩
          refine ⟨?_, hk⟩
          rintro rfl
          rw [hlast] at hk
          cases hk
          exact hne rfl
        · rintro ⟨hne, hk⟩
          exact ⟨fun heq => hne (congrArg Prod.snd heq), hk⟩
  refine ⟨_, hheap, ⟨?_, ?_, ?_⟩, rfl⟩
  · exact insert_sorted (hinv.sorted.sublist hsub) value key
  · rw [(insert_perm heap value key).nodup_iff, List.nodup_cons, hmem]
    exact ⟨fun hk => hk.1 rfl, hinv.nodup.sublist hsub⟩
  · intro v k
    rw [(insert_perm heap value key).mem_iff, List.mem_cons, hmem]
    by_cases hk : k = key
    · subst hk
      simp [eq_comm]
    · simp [hk, Finmap.lookup_insert_of_ne]

/-! ## Reducing -/

theorem Inv.tail (hinv : h.Inv) {p : V × K} {rest : List (V × K)} (hheap : h.heap = p :: rest) :
    Inv ⟨h.keys.erase p.2, rest⟩ := by
  have hsorted := hinv.sorted
  have hnodup := hinv.nodup
  have hkeys := hinv.keys_nodup
  rw [hheap] at hsorted hnodup hkeys
  refine ⟨hsorted.of_cons, hnodup.of_cons, ?_⟩
  intro v k
  rw [List.map_cons, List.nodup_cons] at hkeys
  by_cases hk : k = p.2
  · subst hk
    rw [Finmap.lookup_erase]
    refine iff_of_false ?_ (by simp)
    exact fun hmem => hkeys.1 (List.mem_map.2 ⟨_, hmem, rfl⟩)
  · rw [Finmap.lookup_erase_ne hk, ← hinv.mem_iff, hheap, List.mem_cons]
    refine ⟨Or.inr, ?_⟩
    rintro (rfl | hmem)
    · exact absurd rfl hk
    · exact hmem

variable [OrderBot V]

/-- One pass moves the first pair of the multimap out. -/
theorem reduceStep_eq (hinv : h.Inv) {newSize : ℕ} (result : List K) {p : V × K}
    {rest : List (V × K)} (hheap : h.heap = p :: rest) (hsize : newSize < h.heap.length) :
    reduceStep newSize (h, result) = .ok ((⟨h.keys.erase p.2, rest⟩, result ++ [p.2]), true) := by
  rw [reduceStep, if_pos (by rwa [hinv.card_eq]), dropWhile_bot, hheap]
  simp

/-- The loop moves the first pairs out until `newSize` ones are left. -/
theorem reduceLoop_spec {newSize : ℕ} (hinv : h.Inv) (result : List K) {fuel : ℕ}
    (hfuel : h.heap.length < fuel) :
    ∃ h', loop (reduceStep newSize) fuel (h, result) =
        .ok (h', result ++ (h.heap.take (h.heap.length - newSize)).map Prod.snd) ∧
      h'.Inv ∧ h'.heap = h.heap.drop (h.heap.length - newSize) := by
  induction fuel generalizing h result with
  | zero => omega
  | succ fuel ih =>
    by_cases hsize : newSize < h.heap.length
    · cases hheap : h.heap with
      | nil => simp [hheap] at hsize
      | cons p rest =>
        have hlength : h.heap.length = rest.length + 1 := by rw [hheap, List.length_cons]
        obtain ⟨h', hloop, hinv', hheap'⟩ := ih (hinv.tail hheap) (result ++ [p.2])
          (show rest.length < fuel by omega)
        have hcount : rest.length + 1 - newSize = (rest.length - newSize) + 1 := by omega
        refine ⟨h', ?_, hinv', ?_⟩
        · rw [loop, reduceStep_eq hinv result hheap hsize, ok_bind, if_pos rfl, hloop,
            List.length_cons, hcount]
          simp
        · rw [hheap', List.length_cons, hcount, List.drop_succ_cons]
    · have hzero : h.heap.length - newSize = 0 := by omega
      refine ⟨h, ?_, hinv, by rw [hzero, List.drop_zero]⟩
      rw [loop, reduceStep, if_neg (by rwa [hinv.card_eq]), hzero]
      simp

/-- **`reduceToMax`** returns the keys of the first pairs of the multimap and keeps the others. -/
theorem reduceToMax_spec (hinv : h.Inv) {newSize : ℕ} (hsize : newSize ≠ 0) :
    ∃ h', h.reduceToMax newSize =
        .ok (h', (h.heap.take (h.heap.length - newSize)).map Prod.snd) ∧
      h'.Inv ∧ h'.heap = h.heap.drop (h.heap.length - newSize) := by
  obtain ⟨h', hloop, hspec⟩ := reduceLoop_spec hinv []
    (show h.heap.length < h.keys.keys.card + 1 by rw [hinv.card_eq]; omega)
  refine ⟨h', ?_, hspec⟩
  rw [reduceToMax, check, check_pos hsize, ok_bind, hloop, List.nil_append]

/-! ## Runs -/

/-- The multimap has one pair for each key, with its last value, and no other pair. -/
def Agrees (h : Heap K V) : Prop :=
  ∀ v k, h.heap.count (v, k) = if h.keys.lookup k = some v then 1 else 0

/-- What `reduceToMax(newSize)` removes from `h` and what it leaves: the oldest keys go. -/
structure Evicts (h : Heap K V) (newSize : ℕ) (h' : Heap K V) (result : List K) : Prop where
  length : result.length = h.keys.keys.card - newSize
  nodup : result.Nodup
  /-- the last values of the removed keys, in order -/
  order : ∃ values : List V, result.map h.keys.lookup = values.map some ∧ values.Pairwise (· ≤ ·)
  /-- the other keys keep their values -/
  left : ∀ k, h'.keys.lookup k = if k ∈ result then none else h.keys.lookup k
  oldest : ∀ k ∈ result, ∀ v k' v', h.keys.lookup k = some v → h'.keys.lookup k' = some v' → v ≤ v'
  size : h'.keys.keys.card = min h.keys.keys.card newSize

/-- A call of the heap; `reduceToMax` is called with `newSize >= 1`. -/
inductive Call (K V : Type) where
  | addElement (key : K) (value : V)
  | reduceToMax (newSize : ℕ+)

/-- The heap after a call. -/
def exec (h : Heap K V) : Call K V → Exec Exn (Heap K V)
  | .addElement key value => h.addElement key value
  | .reduceToMax newSize => do
    let (h, _) ← h.reduceToMax newSize
    return h

/-- The heap after some calls. -/
def run (h : Heap K V) : List (Call K V) → Exec Exn (Heap K V)
  | [] => .ok h
  | call :: calls => do
    let h ← h.exec call
    h.run calls

omit [OrderBot V] in
theorem Inv.agrees (hinv : h.Inv) : h.Agrees := by
  intro v k
  split_ifs with hk
  · exact List.count_eq_one_of_mem hinv.nodup ((hinv.mem_iff v k).2 hk)
  · exact List.count_eq_zero_of_not_mem fun hmem => hk ((hinv.mem_iff v k).1 hmem)

omit [OrderBot V] in
/-- The first pairs of the multimap are the oldest ones. -/
theorem Inv.evicts (hinv : h.Inv) {newSize : ℕ} {h' : Heap K V} (hinv' : h'.Inv)
    (hheap : h'.heap = h.heap.drop (h.heap.length - newSize)) :
    h.Evicts newSize h' ((h.heap.take (h.heap.length - newSize)).map Prod.snd) := by
  generalize hn : h.heap.length - newSize = n at hheap ⊢
  have hsplit : h.heap.take n ++ h'.heap = h.heap := by rw [hheap, List.take_append_drop]
  have hsorted := hinv.sorted
  have hkeys := hinv.keys_nodup
  rw [← hsplit, List.pairwise_append] at hsorted
  rw [← hsplit, List.map_append, List.nodup_append'] at hkeys
  have htake : ∀ p ∈ h.heap.take n, h.keys.lookup p.2 = some p.1 := fun p hp =>
    (hinv.mem_iff p.1 p.2).1 (List.mem_of_mem_take hp)
  refine ⟨?_, hkeys.1, ⟨(h.heap.take n).map Prod.fst, ?_, ?_⟩, ?_, ?_, ?_⟩
  · rw [hinv.card_eq, List.length_map, List.length_take]
    omega
  · rw [List.map_map, List.map_map]
    exact List.map_congr_left htake
  · exact List.pairwise_map.2 hsorted.1
  · intro k
    split_ifs with hk
    · rw [Option.eq_none_iff_forall_ne_some]
      intro v hv
      exact hkeys.2.2 hk (List.mem_map.2 ⟨_, (hinv'.mem_iff v k).2 hv, rfl⟩)
    · ext v
      rw [← hinv'.mem_iff, ← hinv.mem_iff, ← hsplit, List.mem_append]
      refine ⟨Or.inr, ?_⟩
      rintro (hmem | hmem)
      · exact absurd (List.mem_map.2 ⟨_, hmem, rfl⟩) hk
      · exact hmem
  · intro k hk v k' v' hv hv'
    obtain ⟨p, hp, rfl⟩ := List.mem_map.1 hk
    have hvalue := htake p hp
    rw [hv] at hvalue
    cases hvalue
    exact hsorted.2.2 p hp _ ((hinv'.mem_iff v' k').2 hv')
  · rw [hinv'.card_eq, hinv.card_eq, hheap, List.length_drop]
    omega

theorem exec_inv (hinv : h.Inv) (call : Call K V) : ∃ h', h.exec call = .ok h' ∧ h'.Inv := by
  cases call with
  | addElement key value =>
    obtain ⟨h', hadd, hinv', -⟩ := addElement_spec hinv key value
    exact ⟨h', hadd, hinv'⟩
  | reduceToMax newSize =>
    obtain ⟨h', hreduce, hinv', -⟩ := reduceToMax_spec hinv newSize.ne_zero
    exact ⟨h', by rw [exec, hreduce]; rfl, hinv'⟩

theorem run_inv (hinv : h.Inv) (calls : List (Call K V)) : ∃ h', h.run calls = .ok h' ∧ h'.Inv := by
  induction calls generalizing h with
  | nil => exact ⟨h, rfl, hinv⟩
  | cons call calls ih =>
    obtain ⟨h₁, hexec, hinv₁⟩ := exec_inv hinv call
    obtain ⟨h', hrun, hinv'⟩ := ih hinv₁
    exact ⟨h', by rw [run, hexec, ok_bind, hrun], hinv'⟩

/-- **The two tables of the heap agree after every run**, which never fails; every further element
    is added, and every further reduction removes the oldest keys. -/
theorem run_agrees (calls : List (Call K V)) :
    ∃ h : Heap K V, run empty calls = .ok h ∧ h.Agrees ∧
      (∀ key value, ∃ h', h.addElement key value = .ok h' ∧ h'.Agrees ∧
        h'.keys = h.keys.insert key value) ∧
      ∀ newSize : ℕ+, ∃ h' result, h.reduceToMax newSize = .ok (h', result) ∧ h'.Agrees ∧
        h.Evicts newSize h' result := by
  obtain ⟨h, hrun, hinv⟩ := run_inv (inv_empty : (empty : Heap K V).Inv) calls
  refine ⟨h, hrun, hinv.agrees, ?_, ?_⟩
  · intro key value
    obtain ⟨h', hadd, hinv', hkeys⟩ := addElement_spec hinv key value
    exact ⟨h', hadd, hinv'.agrees, hkeys⟩
  · intro newSize
    obtain ⟨h', hreduce, hinv', hheap⟩ := reduceToMax_spec hinv newSize.ne_zero
    exact ⟨h', _, hreduce, hinv'.agrees, hinv.evicts hinv' hheap⟩

end

end Heap

end TorrentNode
