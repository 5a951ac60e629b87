/-
  The records of the node tests (`NodeTestsBlockInfo.cpp`): the last block the
  worker has processed, and the registered nodes.

  A `std::map` is written with its size and its entries in the order of the keys,
  and read back by inserting them.

  `records_decode`: the records that the node persists decode to themselves.
-/
import TorrentNode.BlockInfo

open Wire

namespace TorrentNode

/-! ## The last block -/

structure NodeStatBlockInfo where
  blockNumber : UInt64 := 0
  blockHash : Bytes := []
  countVal : UInt64 := 0
deriving DecidableEq, Repr

/-- `NodeStatBlockInfo::serialize()`. -/
def NodeStatBlockInfo.serialize (info : NodeStatBlockInfo) : Exec Exn Bytes :=
  serializeLastBlock info.blockNumber info.blockHash info.countVal

/-- `NodeStatBlockInfo::deserialize(raw)`. -/
def NodeStatBlockInfo.deserialize (raw : Bytes) : Exec Exn NodeStatBlockInfo := do
  let (blockNumber, blockHash, countVal) ← deserializeLastBlock raw
  return { blockNumber := blockNumber, blockHash := blockHash, countVal := countVal }

theorem MainBlockInfo.deserialize_serialize {m : MainBlockInfo} {raw : Bytes}
    (hs : m.serialize = .ok raw) : MainBlockInfo.deserialize raw = .ok m := by
  rw [MainBlockInfo.deserialize, deserializeLastBlock_serialize hs]; rfl

theorem NodeStatBlockInfo.deserialize_serialize {info : NodeStatBlockInfo} {raw : Bytes}
    (hs : info.serialize = .ok raw) : NodeStatBlockInfo.deserialize raw = .ok info := by
  rw [NodeStatBlockInfo.deserialize, deserializeLastBlock_serialize hs]; rfl

/-! ## The registered nodes -/

/-- The registered nodes: hosts with their names. -/
@[ext] structure AllNodes where
  nodes : Finmap (fun _ : Bytes => Bytes) := ∅

namespace AllNodes

/-- The hosts, in the order of the map. -/
def hosts (a : AllNodes) : List Bytes := a.nodes.keys.sort (· ≤ ·)

/-- The name of a host. -/
def name (a : AllNodes) (host : Bytes) : Bytes := (a.nodes.lookup host).getD []

/-- An entry of the map. -/
def entry (a : AllNodes) (host : Bytes) : Bytes :=
  serializeStringBigEndian host ++ serializeStringBigEndian (a.name host)

/-- `AllNodes::serialize()`. -/
def serialize (a : AllNodes) : Exec Exn Bytes :=
  stdString (serializeIntBigEndian 8 a.hosts.length ++ a.hosts.flatMap a.entry)

/-- The loop of `AllNodes::deserialize` over the entries that are still to be read. -/
def deserializeLoop (raw : Bytes) : ℕ → ℕ → AllNodes → Exec Exn AllNodes
  | 0, _, result => return result
  | count + 1, pos, result => do
    let (node, pos) ← deserializeStringBigEndian raw pos
    let (name, pos) ← deserializeStringBigEndian raw pos
    deserializeLoop raw count pos { nodes := result.nodes.insert node name }

/-- `AllNodes::deserialize(raw)`. -/
def deserialize (raw : Bytes) : Exec Exn AllNodes := do
  if raw = [] then return {}
  let (count, pos) ← deserializeIntBigEndian 8 raw 0
  deserializeLoop raw count pos {}

/-- The entries of some hosts, inserted one after another. -/
def insertAll (a : AllNodes) (hosts : List Bytes) (result : AllNodes) : AllNodes :=
  hosts.foldl (fun r host => { nodes := r.nodes.insert host (a.name host) }) result

theorem lookup_insertAll (a : AllNodes) (hosts : List Bytes) (result : AllNodes) (host : Bytes) :
    (a.insertAll hosts result).nodes.lookup host =
      if host ∈ hosts then some (a.name host) else result.nodes.lookup host := by
  induction hosts generalizing result with
  | nil => simp [insertAll]
  | cons h hosts ih =>
    change (a.insertAll hosts { nodes := result.nodes.insert h (a.name h) }).nodes.lookup host = _
    rw [ih]
    rcases eq_or_ne host h with rfl | hne
    · simp
    · simp [hne, Finmap.lookup_insert_of_ne]

/-- A map is what the insertion of its entries gives. -/
theorem insertAll_hosts (a : AllNodes) : a.insertAll a.hosts {} = a := by
  apply AllNodes.ext
  apply Finmap.ext_lookup
  intro host
  rw [lookup_insertAll]
  have hmem : host ∈ a.hosts ↔ host ∈ a.nodes := by
    rw [hosts, Finset.mem_sort, Finmap.mem_keys]
  by_cases h : host ∈ a.nodes
  · obtain ⟨name, hname⟩ := Finmap.mem_iff.1 h
    rw [if_pos (hmem.2 h), AllNodes.name, hname, Option.getD_some]
  · rw [if_neg (mt hmem.1 h), Finmap.lookup_empty, Finmap.lookup_eq_none.2 h]

/-- The loop on the entries of some hosts. -/
theorem deserializeLoop_at (a : AllNodes) {raw : Bytes} (hraw : raw.length < 2 ^ 64)
    {hosts : List Bytes} {pos : ℕ} (h : StandsAt raw pos (hosts.flatMap a.entry)) (result : AllNodes) :
    deserializeLoop raw hosts.length pos result = .ok (a.insertAll hosts result) := by
  induction hosts generalizing pos result with
  | nil => rfl
  | cons host hosts ih =>
    rw [List.flatMap_cons, standsAt_append] at h
    obtain ⟨hentry, hrest⟩ := h
    simp only [entry, List.length_append, serializeStringBigEndian_length] at hrest
    rw [entry, standsAt_append, serializeStringBigEndian_length] at hentry
    simp only [List.length_cons, deserializeLoop, Exec.ok_bind,
      deserializeStringBigEndian_at hraw hentry.1, deserializeStringBigEndian_at hraw hentry.2]
    exact ih (by rwa [Nat.add_assoc pos]) _

theorem hosts_length_le (a : AllNodes) (hosts : List Bytes) :
    hosts.length ≤ (hosts.flatMap a.entry).length := by
  induction hosts with
  | nil => simp
  | cons host hosts ih =>
    simp only [List.length_cons, List.flatMap_cons, List.length_append, entry,
      serializeStringBigEndian_length]
    omega

/-- **The registered nodes decode to themselves.** -/
theorem deserialize_serialize {a : AllNodes} {raw : Bytes} (hs : a.serialize = .ok raw) :
    deserialize raw = .ok a := by
  obtain ⟨hr, hl⟩ := stdString_eq_ok hs
  have hlen : 8 + (a.hosts.flatMap a.entry).length < 2 ^ 63 := by
    simp only [List.length_append, serializeIntBigEndian_length] at hl
    rw [maxSize] at hl; omega
  have hraw : raw.length < 2 ^ 64 := by
    rw [hr, List.length_append, serializeIntBigEndian_length]; omega
  have hne : raw ≠ [] := by rw [hr]; exact List.ne_nil_of_length_pos (by simp)
  have hat := standsAt_self raw
  nth_rewrite 2 [hr] at hat
  rw [standsAt_append, serializeIntBigEndian_length] at hat
  have hcount : a.hosts.length < 256 ^ 8 := by
    have h := a.hosts_length_le a.hosts
    omega
  rw [deserialize, if_neg hne]
  simp only [deserializeIntBigEndian_at (by norm_num) hcount hraw hat.1, Exec.ok_bind]
  rw [a.deserializeLoop_at hraw hat.2, a.insertAll_hosts]

end AllNodes

/-! ## All records -/

/-- A position inside a longer string, in both forms of `deserialize`. -/
theorem FilePosition.deserialize_embedded (p : FilePosition) {before behind : Bytes}
    (h : (before ++ (p.serialize ++ behind)).length ≤ maxSize) :
    FilePosition.deserializeEnd (before ++ (p.serialize ++ behind)) before.length =
        .ok (p, before.length + p.serialize.length) ∧
      FilePosition.deserialize (before ++ (p.serialize ++ behind)) before.length =
        .ok (p, before.length + p.serialize.length) := by
  have hraw : (before ++ (p.serialize ++ behind)).length < 2 ^ 64 := by rw [maxSize] at h; omega
  have hat : StandsAt (before ++ (p.serialize ++ behind)) before.length p.serialize :=
    ⟨behind, by rw [List.drop_left]⟩
  exact ⟨FilePosition.deserializeEnd_at hraw hat, FilePosition.deserialize_at hraw hat⟩

/-- **Records decode to themselves**: every record that `serialize` accepts is read back with all
    the fields it stores, and a file position also inside a longer string, with the offset just
    behind it. -/
theorem records_decode :
    (∀ (h : BlockHeader) (raw : Bytes), h.serialize = .ok raw →
      BlockHeader.deserialize raw = .ok h.persisted) ∧
    (∀ (m : BlocksMetadata) (raw : Bytes), m.serialize = .ok raw →
      BlocksMetadata.deserialize raw = .ok m) ∧
    (∀ (m : MainBlockInfo) (raw : Bytes), m.serialize = .ok raw →
      MainBlockInfo.deserialize raw = .ok m) ∧
    (∀ (fi : FileInfo) (raw : StdString), raw.1 = fi.serialize →
      FileInfo.deserialize raw.1 = .ok fi) ∧
    (∀ (p : FilePosition) (before behind : Bytes) (raw : StdString),
      raw.1 = before ++ (p.serialize ++ behind) →
      FilePosition.deserializeEnd raw.1 before.length = .ok (p, before.length + p.serialize.length) ∧
      FilePosition.deserialize raw.1 before.length = .ok (p, before.length + p.serialize.length)) ∧
    (∀ (tx : TransactionInfo) (raw : StdString), tx.blockNumber < 2 ^ 64 → raw.1 = tx.serialize →
      TransactionInfo.deserialize raw.1 0 =
        .ok ({ filePos := tx.filePos, blockNumber := tx.blockNumber }, raw.1.length)) ∧
    (∀ (info : NodeStatBlockInfo) (raw : Bytes), info.serialize = .ok raw →
      NodeStatBlockInfo.deserialize raw = .ok info) ∧
    (∀ (a : AllNodes) (raw : Bytes), a.serialize = .ok raw → AllNodes.deserialize raw = .ok a) := by
  refine ⟨fun h raw => BlockHeader.deserialize_serialize,
    fun m raw => BlocksMetadata.deserialize_serialize, fun m raw => MainBlockInfo.deserialize_serialize,
    ?_, ?_, ?_, fun info raw => NodeStatBlockInfo.deserialize_serialize,
    fun a raw => AllNodes.deserialize_serialize⟩
  · intro fi raw hr
    have hat : StandsAt raw.1 0 fi.filePos.serialize := by
      rw [hr]; exact standsAt_self _
    have hlt : raw.1.length < 2 ^ 64 := by have := raw.length_lt; omega
    rw [FileInfo.deserialize, FilePosition.deserializeEnd_at hlt hat]
    rfl
  · intro p before behind raw hr
    have hl := raw.2
    rw [hr] at hl ⊢
    exact p.deserialize_embedded hl
  · intro tx raw hnum hr
    have hat : StandsAt raw.1 0 tx.serialize := by rw [hr]; exact standsAt_self _
    have hlt : raw.1.length < 2 ^ 64 := by have := raw.length_lt; omega
    rw [TransactionInfo.deserialize_at hlt hnum hat, ← hr, Nat.zero_add]

/-- A header with hashes, a number of transactions and a sender. -/
def sampleHeader : BlockHeader where
  hash := [0xAA]
  prevHash := [0xBB]
  countTxs := some 2
  filePos := { pos := 300, fileName := [0x66] }
  senderAddress := [0, 255]
  endBlockPos := 7

/-- The record of a header, and its length. -/
theorem sampleHeader_decodes :
    ∃ raw, sampleHeader.serialize = .ok raw ∧ raw.length = 109 ∧
      BlockHeader.deserialize raw = .ok sampleHeader.persisted := by
  have hs : sampleHeader.serialize = .ok (sampleHeader.record 2) := by decide +kernel
  exact ⟨_, hs, by decide +kernel, records_decode.1 _ _ hs⟩

end TorrentNode
