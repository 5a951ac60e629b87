/-
  The other records of the node tests (`NodeTestsBlockInfo.cpp`): results, trusts
  and counts of tests, the tested nodes and the requests per second.

  A `std::set` is written with its size and its elements in order, and read back by
  inserting them.  The testers of a count are written by `toBdString()`, which has
  a marker for the empty address; the reader takes the marker for an address.

  `status_records_decode_iff`: the statuses, the index entries and the records of the
  tests decode to themselves, a count if and only if no tester is the empty address.
-/
import TorrentNode.BlockInfo.TransactionStatus
import TorrentNode.Workers.NodeTestsBlockInfo

open Wire Exec

namespace TorrentNode

/-! ## Results and trusts -/

/-- `NodeTestType::Type`. -/
inductive NodeTestType where
  | unknown
  | torrent
  | proxy
deriving DecidableEq, Repr

/-- `NodeTestType::serialize()`. -/
def NodeTestType.serialize : NodeTestType → Exec Exn Bytes
  | torrent => pure (serializeIntBigEndian 1 1)
  | proxy => pure (serializeIntBigEndian 1 2)
  | unknown => .throw (.common "Incorrect nodeTestType")

/-- `NodeTestType::deserialize(raw, from)`: the type and the new `from`. -/
def NodeTestType.deserialize (raw : Bytes) (pos : ℕ) : Exec Exn (NodeTestType × ℕ) :=
  if raw.length ≤ pos then pure (.unknown, pos)
  else do
    let (typeInt, pos) ← deserializeIntBigEndian 1 raw pos
    if typeInt = 1 then pure (.torrent, pos)
    else if typeInt = 2 then pure (.proxy, pos)
    else .throw (.common ("Incorrect type " ++ toString typeInt))

structure NodeTestResult where
  result : Bytes := []
  timestamp : UInt64 := 0
  type : NodeTestType := .unknown
  ip : Bytes := []
  day : UInt64 := 0
  avgRps : UInt64 := 0
deriving DecidableEq, Repr

/-- `NodeTestResult::serialize()`. -/
def NodeTestResult.serialize (r : NodeTestResult) : Exec Exn Bytes := do
  let type ← r.type.serialize
  stdString (serializeStringBigEndian r.result ++ (serializeIntBigEndian 8 r.timestamp.toNat ++
    (type ++ (serializeStringBigEndian r.ip ++ serializeIntBigEndian 8 r.day.toNat))))

/-- `NodeTestResult::deserialize(raw)`. -/
def NodeTestResult.deserialize (raw : Bytes) : Exec Exn NodeTestResult := do
  if raw = [] then return {}
  let (result, pos) ← deserializeStringBigEndian raw 0
  let (timestamp, pos) ← deserializeIntBigEndian 8 raw pos
  let (type, pos) ← NodeTestType.deserialize raw pos
  let (ip, pos) ← deserializeStringBigEndian raw pos
  let (day, _) ← deserializeIntBigEndian 8 raw pos
  return {
    result := result, timestamp := UInt64.ofNat timestamp, type := type, ip := ip,
    day := UInt64.ofNat day }

/-- What is stored of a result: all fields but the average of the requests. -/
def NodeTestResult.persisted (r : NodeTestResult) : NodeTestResult := { r with avgRps := 0 }

structure NodeTestTrust where
  trustJson : Bytes := []
  timestamp : UInt64 := 0
  trust : Int32 := 1
deriving DecidableEq

/-- `NodeTestTrust::serialize()`: the trust is converted to `size_t`. -/
def NodeTestTrust.serialize (t : NodeTestTrust) : Exec Exn Bytes :=
  stdString (serializeStringBigEndian t.trustJson ++ (serializeIntBigEndian 8 t.timestamp.toNat ++
    serializeIntBigEndian 8 t.trust.toInt64.toUInt64.toNat))

/-- `NodeTestTrust::deserialize(raw)`: the trust is converted back to `int`. -/
def NodeTestTrust.deserialize (raw : Bytes) : Exec Exn NodeTestTrust := do
  if raw = [] then return {}
  let (trustJson, pos) ← deserializeStringBigEndian raw 0
  let (timestamp, pos) ← deserializeIntBigEndian 8 raw pos
  let (trust, _) ← deserializeIntBigEndian 8 raw pos
  return {
    trustJson := trustJson, timestamp := UInt64.ofNat timestamp,
    trust := (UInt64.ofNat trust).toInt64.toInt32 }

theorem NodeTestType.deserialize_at {raw record : Bytes} {pos : ℕ} {type : NodeTestType}
    (hraw : raw.length < 2 ^ 64) (hs : type.serialize = .ok record) (h : StandsAt raw pos record) :
    record.length = 1 ∧ NodeTestType.deserialize raw pos = .ok (type, pos + 1) := by
  have hread : ∀ n, n < 256 → StandsAt raw pos (serializeIntBigEndian 1 n) →
      ¬ raw.length ≤ pos ∧ deserializeIntBigEndian 1 raw pos = .ok (n, pos + 1) := by
    intro n hn hat
    have hle := hat.le_length (List.ne_nil_of_length_pos (by simp))
    rw [serializeIntBigEndian_length] at hle
    exact ⟨by omega, deserializeIntBigEndian_at (by norm_num) (by omega) hraw hat⟩
  cases type with
  | unknown => cases hs
  | torrent =>
    cases hs
    obtain ⟨hinside, hint⟩ := hread 1 (by decide) h
    refine ⟨serializeIntBigEndian_length 1 1, ?_⟩
    rw [NodeTestType.deserialize, if_neg hinside, hint]
    rfl
  | proxy =>
    cases hs
    obtain ⟨hinside, hint⟩ := hread 2 (by decide) h
    refine ⟨serializeIntBigEndian_length 1 2, ?_⟩
    rw [NodeTestType.deserialize, if_neg hinside, hint]
    rfl

/-- A record that was written stands at its start, and is not empty. -/
theorem standsAt_stdString {bs raw : Bytes} (hs : stdString bs = .ok raw) (hne : 0 < bs.length) :
    StandsAt raw 0 bs ∧ raw.length < 2 ^ 64 ∧ raw ≠ [] := by
  obtain ⟨rfl, hl⟩ := stdString_eq_ok hs
  rw [maxSize] at hl
  exact ⟨standsAt_self _, by omega, List.ne_nil_of_length_pos hne⟩

/-- **The result of a test decodes to itself.** -/
theorem NodeTestResult.deserialize_serialize {r : NodeTestResult} {raw : Bytes}
    (hs : r.serialize = .ok raw) : NodeTestResult.deserialize raw = .ok r.persisted := by
  obtain ⟨type, htype, hs⟩ := bind_eq_ok.1 hs
  obtain ⟨hat, hraw, hne⟩ := standsAt_stdString hs (by simp)
  simp only [standsAt_append, serializeStringBigEndian_length, serializeIntBigEndian_length] at hat
  obtain ⟨hresult, htimestamp, htypeAt, hip, hday⟩ := hat
  obtain ⟨hlength, itype⟩ := NodeTestType.deserialize_at hraw htype htypeAt
  rw [hlength] at hip hday
  have itimestamp := deserializeIntBigEndian_at (by norm_num) r.timestamp.toNat_lt hraw htimestamp
  have iday := deserializeIntBigEndian_at (by norm_num) r.day.toNat_lt hraw hday
  rw [NodeTestResult.deserialize, if_neg hne]
  simp only [deserializeStringBigEndian_at hraw hresult, itimestamp, itype,
    deserializeStringBigEndian_at hraw hip, iday, ok_bind, UInt64.ofNat_toNat]
  rfl

/-- **The trust of a node decodes to itself**, also a negative one. -/
theorem NodeTestTrust.deserialize_serialize {t : NodeTestTrust} {raw : Bytes}
    (hs : t.serialize = .ok raw) : NodeTestTrust.deserialize raw = .ok t := by
  obtain ⟨hat, hraw, hne⟩ := standsAt_stdString hs (by simp)
  simp only [standsAt_append, serializeStringBigEndian_length, serializeIntBigEndian_length] at hat
  obtain ⟨hjson, htimestamp, htrust⟩ := hat
  have itimestamp := deserializeIntBigEndian_at (by norm_num) t.timestamp.toNat_lt hraw htimestamp
  have itrust := deserializeIntBigEndian_at (by norm_num) t.trust.toInt64.toUInt64.toNat_lt hraw htrust
  rw [NodeTestTrust.deserialize, if_neg hne]
  simp only [deserializeStringBigEndian_at hraw hjson, itimestamp, itrust, ok_bind,
    UInt64.ofNat_toNat, Int64.toInt64_toUInt64, Int32.toInt32_toInt64]
  rfl

/-! ## Sets of strings -/

/-- The number of strings, and the strings. -/
def serializeSet (strs : List Bytes) : Bytes :=
  serializeIntBigEndian 8 strs.length ++ strs.flatMap serializeStringBigEndian

/-- The loops of `NodeTestCount::deserialize` and `AllTestedNodes::deserialize`. -/
def deserializeSetLoop (raw : Bytes) : ℕ → ℕ → Finset Bytes → Exec Exn (Finset Bytes)
  | 0, _, result => pure result
  | count + 1, pos, result => do
    let (str, pos) ← deserializeStringBigEndian raw pos
    deserializeSetLoop raw count pos (insert str result)

/-- A set: the number of its strings, and the strings. -/
def deserializeSet (raw : Bytes) (pos : ℕ) : Exec Exn (Finset Bytes) := do
  let (count, pos) ← deserializeIntBigEndian 8 raw pos
  deserializeSetLoop raw count pos ∅

theorem deserializeSetLoop_at {raw : Bytes} (hraw : raw.length < 2 ^ 64) {strs : List Bytes} {pos : ℕ}
    (h : StandsAt raw pos (strs.flatMap serializeStringBigEndian)) (result : Finset Bytes) :
    deserializeSetLoop raw strs.length pos result = .ok (result ∪ strs.toFinset) := by
  induction strs generalizing pos result with
  | nil => simp [deserializeSetLoop]
  | cons str strs ih =>
    rw [List.flatMap_cons, standsAt_append, serializeStringBigEndian_length] at h
    rw [List.length_cons, deserializeSetLoop, deserializeStringBigEndian_at hraw h.1, ok_bind]
    dsimp only
    rw [ih h.2]
    congr 1
    ext a
    simp only [Finset.mem_union, Finset.mem_insert, List.toFinset_cons]
    tauto

theorem length_le_flatMap_serializeString (strs : List Bytes) :
    strs.length ≤ (strs.flatMap serializeStringBigEndian).length := by
  induction strs with
  | nil => simp
  | cons str strs ih =>
    rw [List.flatMap_cons, List.length_append, List.length_cons, serializeStringBigEndian_length]
    omega

/-- A set of strings behind other fields. -/
theorem deserializeSet_at {raw : Bytes} (hraw : raw.length < 2 ^ 64) {strs : List Bytes} {pos : ℕ}
    (h : StandsAt raw pos (serializeSet strs)) :
    deserializeSet raw pos = .ok strs.toFinset := by
  have hle := h.le_length (List.ne_nil_of_length_pos (by simp [serializeSet]))
  rw [serializeSet, List.length_append, serializeIntBigEndian_length] at hle
  have hlength := length_le_flatMap_serializeString strs
  rw [serializeSet, standsAt_append, serializeIntBigEndian_length] at h
  rw [deserializeSet,
    deserializeIntBigEndian_at (by norm_num) (show strs.length < 256 ^ 8 by omega) hraw h.1, ok_bind]
  dsimp only
  rw [deserializeSetLoop_at hraw h.2, Finset.empty_union]

/-! ## Counts and tested nodes -/

/-- The testers are addresses that are set; a `std::set` tells them apart by their bytes. -/
structure NodeTestCount where
  countAll : UInt64 := 0
  countFailure : UInt64 := 0
  day : UInt64 := 0
  testers : Finset Bytes := ∅
deriving DecidableEq

/-- `toBdString()` of an address that is set. -/
def toBdString (address : Bytes) : Bytes :=
  if address = [] then Address.initialWalletTransaction else address

/-- `NodeTestCount::serialize()`. -/
def NodeTestCount.serialize (c : NodeTestCount) : Exec Exn Bytes :=
  stdString (serializeIntBigEndian 8 c.countAll.toNat ++ (serializeIntBigEndian 8 c.countFailure.toNat ++
    (serializeIntBigEndian 8 c.day.toNat ++ serializeSet ((c.testers.sort (· ≤ ·)).map toBdString))))

/-- `NodeTestCount::deserialize(raw)`. -/
def NodeTestCount.deserialize (raw : Bytes) : Exec Exn NodeTestCount := do
  if raw = [] then return {}
  let (countAll, pos) ← deserializeIntBigEndian 8 raw 0
  let (countFailure, pos) ← deserializeIntBigEndian 8 raw pos
  let (day, pos) ← deserializeIntBigEndian 8 raw pos
  let testers ← deserializeSet raw pos
  return ⟨UInt64.ofNat countAll, UInt64.ofNat countFailure, UInt64.ofNat day, testers⟩

/-- A count is read with the strings of its testers. -/
theorem NodeTestCount.deserialize_eq {c : NodeTestCount} {raw : Bytes} (hs : c.serialize = .ok raw) :
    NodeTestCount.deserialize raw = .ok { c with testers := c.testers.image toBdString } := by
  obtain ⟨hat, hraw, hne⟩ := standsAt_stdString hs (by simp)
  simp only [standsAt_append, serializeIntBigEndian_length] at hat
  obtain ⟨hall, hfailure, hday, htesters⟩ := hat
  have iall := deserializeIntBigEndian_at (by norm_num) c.countAll.toNat_lt hraw hall
  have ifailure := deserializeIntBigEndian_at (by norm_num) c.countFailure.toNat_lt hraw hfailure
  have iday := deserializeIntBigEndian_at (by norm_num) c.day.toNat_lt hraw hday
  have itesters := deserializeSet_at hraw htesters
  have himage : ((c.testers.sort (· ≤ ·)).map toBdString).toFinset = c.testers.image toBdString := by
    ext a
    simp
  rw [himage] at itesters
  rw [NodeTestCount.deserialize, if_neg hne]
  simp only [iall, ifailure, iday, itesters, ok_bind, UInt64.ofNat_toNat]
  rfl

/-- **The count of the tests of a node** decodes to itself if and only if no tester is empty. -/
theorem NodeTestCount.deserialize_serialize_iff {c : NodeTestCount} {raw : Bytes}
    (hs : c.serialize = .ok raw) : NodeTestCount.deserialize raw = .ok c ↔ [] ∉ c.testers := by
  rw [NodeTestCount.deserialize_eq hs]
  constructor
  · intro heq hempty
    -- no written string is empty
    have himage : c.testers.image toBdString = c.testers :=
      congrArg NodeTestCount.testers (ok.inj heq)
    rw [← himage, Finset.mem_image] at hempty
    obtain ⟨a, -, ha⟩ := hempty
    rw [toBdString] at ha
    split at ha
    · exact absurd ha (by decide)
    · exact absurd ha (by assumption)
  · intro hempty
    have himage : c.testers.image toBdString = c.testers := by
      conv_rhs => rw [← Finset.image_id (s := c.testers)]
      refine Finset.image_congr fun a ha => if_neg ?_
      rintro rfl
      exact hempty ha
    rw [himage]

structure AllTestedNodes where
  nodes : Finset Bytes := ∅
  day : UInt64 := 0
deriving DecidableEq

/-- `AllTestedNodes::serialize()`. -/
def AllTestedNodes.serialize (a : AllTestedNodes) : Exec Exn Bytes :=
  stdString (serializeIntBigEndian 8 a.day.toNat ++ serializeSet (a.nodes.sort (· ≤ ·)))

/-- `AllTestedNodes::deserialize(raw)`. -/
def AllTestedNodes.deserialize (raw : Bytes) : Exec Exn AllTestedNodes := do
  if raw = [] then return {}
  let (day, pos) ← deserializeIntBigEndian 8 raw 0
  let nodes ← deserializeSet raw pos
  return ⟨nodes, UInt64.ofNat day⟩

/-- **The tested nodes decode to themselves.** -/
theorem AllTestedNodes.deserialize_serialize {a : AllTestedNodes} {raw : Bytes}
    (hs : a.serialize = .ok raw) : AllTestedNodes.deserialize raw = .ok a := by
  obtain ⟨hat, hraw, hne⟩ := standsAt_stdString hs (by simp)
  simp only [standsAt_append, serializeIntBigEndian_length] at hat
  have iday := deserializeIntBigEndian_at (by norm_num) a.day.toNat_lt hraw hat.1
  have inodes := deserializeSet_at hraw hat.2
  rw [Finset.sort_toFinset] at inodes
  rw [AllTestedNodes.deserialize, if_neg hne]
  simp only [iday, inodes, ok_bind, UInt64.ofNat_toNat]
  rfl

/-! ## Requests per second -/

structure NodeRps where
  rps : List UInt64 := []
deriving DecidableEq, Repr

/-- `NodeRps::serialize()`. -/
def NodeRps.serialize (r : NodeRps) : Exec Exn Bytes :=
  stdString (serializeIntBigEndian 8 r.rps.length ++
    r.rps.flatMap fun rp => serializeIntBigEndian 8 rp.toNat)

/-- The loop of `NodeRps::deserialize`. -/
def NodeRps.deserializeLoop (raw : Bytes) : ℕ → ℕ → NodeRps → Exec Exn NodeRps
  | 0, _, result => pure result
  | count + 1, pos, result => do
    let (rp, pos) ← deserializeIntBigEndian 8 raw pos
    deserializeLoop raw count pos ⟨result.rps ++ [UInt64.ofNat rp]⟩

/-- `NodeRps::deserialize(raw)`. -/
def NodeRps.deserialize (raw : Bytes) : Exec Exn NodeRps := do
  if raw = [] then return {}
  let (count, pos) ← deserializeIntBigEndian 8 raw 0
  deserializeLoop raw count pos {}

theorem NodeRps.deserializeLoop_at {raw : Bytes} (hraw : raw.length < 2 ^ 64) {rps : List UInt64}
    {pos : ℕ} (h : StandsAt raw pos (rps.flatMap fun rp => serializeIntBigEndian 8 rp.toNat))
    (result : NodeRps) :
    deserializeLoop raw rps.length pos result = .ok ⟨result.rps ++ rps⟩ := by
  induction rps generalizing pos result with
  | nil => simp [deserializeLoop]
  | cons rp rps ih =>
    rw [List.flatMap_cons, standsAt_append, serializeIntBigEndian_length] at h
    rw [List.length_cons, deserializeLoop,
      deserializeIntBigEndian_at (by norm_num) rp.toNat_lt hraw h.1, ok_bind]
    dsimp only
    rw [ih h.2, UInt64.ofNat_toNat, List.append_assoc]
    rfl

/-- **The requests per second decode to themselves.** -/
theorem NodeRps.deserialize_serialize {r : NodeRps} {raw : Bytes} (hs : r.serialize = .ok raw) :
    NodeRps.deserialize raw = .ok r := by
  obtain ⟨hat, hraw, hne⟩ := standsAt_stdString hs (by simp)
  have hlength : r.rps.length < 256 ^ 8 := by
    have hle := hat.le_length (List.ne_nil_of_length_pos (by simp))
    simp only [List.length_append, serializeIntBigEndian_length, List.length_flatMap,
      List.map_const', List.sum_replicate, smul_eq_mul] at hle
    omega
  rw [standsAt_append, serializeIntBigEndian_length] at hat
  rw [NodeRps.deserialize, if_neg hne]
  simp only [deserializeIntBigEndian_at (by norm_num) hlength hraw hat.1, ok_bind]
  exact deserializeLoop_at hraw hat.2 {}

/-! ## All records -/

/-- **Statuses and records of the tests decode to themselves**: every value that `serialize` accepts
    is read back with all the fields it stores, the count of the tests of a node if and only if no
    tester is the empty address. -/
theorem status_records_decode_iff (raw : StdString) :
    (∀ s : TransactionStatus, s.serialize = .ok raw.1 →
      TransactionStatus.deserialize raw.1 = .ok s.persisted) ∧
    (∀ info : AddressInfo, raw.1 = info.serialize → AddressInfo.deserialize raw.1 = .ok info) ∧
    (∀ r : NodeTestResult, r.serialize = .ok raw.1 →
      NodeTestResult.deserialize raw.1 = .ok r.persisted) ∧
    (∀ t : NodeTestTrust, t.serialize = .ok raw.1 → NodeTestTrust.deserialize raw.1 = .ok t) ∧
    (∀ c : NodeTestCount, c.serialize = .ok raw.1 →
      (NodeTestCount.deserialize raw.1 = .ok c ↔ [] ∉ c.testers)) ∧
    (∀ a : AllTestedNodes, a.serialize = .ok raw.1 → AllTestedNodes.deserialize raw.1 = .ok a) ∧
    (∀ r : NodeRps, r.serialize = .ok raw.1 → NodeRps.deserialize raw.1 = .ok r) := by
  refine ⟨fun s => TransactionStatus.deserialize_serialize,
    fun info => AddressInfo.deserialize_serialize, fun r => NodeTestResult.deserialize_serialize,
    fun t => NodeTestTrust.deserialize_serialize, fun c => NodeTestCount.deserialize_serialize_iff,
    fun a => AllTestedNodes.deserialize_serialize, fun r => NodeRps.deserialize_serialize⟩

/-- A count with one tester. -/
theorem status_records_decode_count :
    ∃ raw, NodeTestCount.serialize ⟨3, 1, 7, {[0, 5]}⟩ = .ok raw ∧
      NodeTestCount.deserialize raw = .ok ⟨3, 1, 7, {[0, 5]}⟩ := by
  have hs : ∃ raw, NodeTestCount.serialize ⟨3, 1, 7, {[0, 5]}⟩ = .ok raw :=
    ⟨_, by rw [NodeTestCount.serialize, stdString, check_pos (by decide +kernel)]; rfl⟩
  obtain ⟨raw, hs⟩ := hs
  obtain ⟨heq, hlen⟩ := stdString_eq_ok hs
  exact ⟨raw, hs, ((status_records_decode_iff ⟨raw, heq ▸ hlen⟩).2.2.2.2.1 _ hs).2 (by decide)⟩

/-- A count whose tester is the empty address is read with the marker as its tester. -/
theorem status_records_decode_empty :
    ∃ raw, NodeTestCount.serialize ⟨3, 1, 7, {[]}⟩ = .ok raw ∧
      NodeTestCount.deserialize raw = .ok ⟨3, 1, 7, {lit "InitialWalletTransaction"}⟩ ∧
      NodeTestCount.deserialize raw ≠ .ok ⟨3, 1, 7, {[]}⟩ :=
  ⟨_, by rw [NodeTestCount.serialize, stdString, check_pos (by decide +kernel)]; rfl,
    by decide +kernel, by decide +kernel⟩

end TorrentNode
