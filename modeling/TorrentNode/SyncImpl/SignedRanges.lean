/-
  Downloading a signed dump in ranges (`getBlockDumpWithoutAdvancedLoad` of the
  client, `SyncImpl::getBlockDump` of the node that answers).

  The client does not know the size of the signature: it cuts the size of the
  block plus 250 into segments and asks for each of them.  The node puts the size
  of the block in front of a range that begins with the block and the
  signature behind every range that reaches its end.

  `getBlockDump_reassembles_iff`: the answers can be put together exactly if the
  node signs the block and either reads it from its file or no segment begins
  behind the block.
-/
import TorrentNode.P2P.Ips
import TorrentNode.SyncImpl.DumpCache

open Wire Exec

namespace TorrentNode

namespace SyncImpl

open P2P

/-- `ESTIMATE_SIZE_SIGNATURE`. -/
def estimateSizeSignature : ℕ := 250

/-! ## The answers -/

/-- What belongs into the answer for a segment of a block with a signature. -/
def rangeAnswer (dump sign : Bytes) (s : Segment) : Bytes :=
  (if s.fromByte = 0 then makeFirstPartBlockSign dump.length else []) ++
    (slice dump s.fromByte (s.toByte - s.fromByte) ++ if dump.length ≤ s.toByte then sign else [])

/-- The range of a segment, with a signature. -/
def segmentRange (s : Segment) : DumpRange := ⟨UInt64.ofNat s.fromByte, UInt64.ofNat s.toByte, true⟩

theorem segmentRange_fromByte {s : Segment} (h : s.fromByte < 2 ^ 64) :
    (segmentRange s).fromByte.toNat = s.fromByte := UInt64.toNat_ofNat_of_lt' h

theorem segmentRange_toByte {s : Segment} (h : s.toByte < 2 ^ 64) :
    (segmentRange s).toByte.toNat = s.toByte := UInt64.toNat_ofNat_of_lt' h

theorem slice_append_drop (dump : Bytes) {i j : ℕ} (h : i ≤ j) :
    slice dump i (j - i) ++ dump.drop j = dump.drop i := by
  have hj : dump.drop j = (dump.drop i).drop (j - i) := by
    rw [List.drop_drop, Nat.add_sub_cancel' h]
  rw [slice, hj, List.take_append_drop]

theorem slice_to_end {dump : Bytes} {i n : ℕ} (h : dump.length ≤ i + n) :
    slice dump i n = dump.drop i := by
  rw [slice, List.take_of_length_le (by rw [List.length_drop]; omega)]

/-- The answer for a segment behind the block is the signature. -/
theorem rangeAnswer_behind {dump sign : Bytes} {s : Segment} (hfrom : dump.length ≤ s.fromByte)
    (hne : s.fromByte ≠ 0) (hto : s.fromByte < s.toByte) : rangeAnswer dump sign s = sign := by
  rw [rangeAnswer, if_neg hne, if_pos (by omega), slice, List.drop_eq_nil_of_le hfrom]
  simp

/-- The answers give the block and its signature, and the signature once more if a segment lies
    behind the block. -/
theorem rangeAnswers_flatten {dump : Bytes} (sign : Bytes) {size : ℕ} (hsize : size ≤ dump.length + 250)
    {segments : List Segment} {start : ℕ} (hc : Contiguous start segments size)
    (hwide : ∀ s ∈ segments.dropLast, s.fromByte + 250 ≤ s.toByte) (hstart : start < dump.length)
    (hend : dump.length ≤ size) :
    ∃ rest, (rest = [] ∨ rest = sign) ∧ (segments.map (rangeAnswer dump sign)).flatten =
      (if start = 0 then makeFirstPartBlockSign dump.length else []) ++
        (dump.drop start ++ (sign ++ rest)) := by
  induction segments generalizing start with
  | nil =>
    have hstop : start = size := hc
    omega
  | cons s segments ih =>
    obtain ⟨rfl, hlt, hc⟩ := hc
    rw [List.map_cons, List.flatten_cons]
    by_cases hto : dump.length ≤ s.toByte
    · -- the block ends in this segment: at most one segment follows
      have hhere : rangeAnswer dump sign s =
          (if s.fromByte = 0 then makeFirstPartBlockSign dump.length else []) ++
            (dump.drop s.fromByte ++ sign) := by
        rw [rangeAnswer, if_pos hto, slice_to_end (by omega)]
      cases segments with
      | nil => exact ⟨[], Or.inl rfl, by simp [hhere]⟩
      | cons t segments =>
        obtain ⟨hfrom, hlt', hc'⟩ := hc
        cases segments with
        | nil =>
          refine ⟨sign, Or.inr rfl, ?_⟩
          have ht : rangeAnswer dump sign t = sign :=
            rangeAnswer_behind (by omega) (by omega) (by omega)
          simp [hhere, ht]
        | cons u segments =>
          have hle := hc'.2.2.le
          have hwide' := hwide t (by simp)
          have := hc'.2.1
          omega
    · have hwide' : ∀ t ∈ segments.dropLast, t.fromByte + 250 ≤ t.toByte := by
        intro t ht
        cases segments with
        | nil => cases ht
        | cons u segments => exact hwide t (List.mem_cons_of_mem _ ht)
      obtain ⟨rest, hrest, heq⟩ := ih hc hwide' (by omega)
      refine ⟨rest, hrest, ?_⟩
      rw [if_neg (by omega), List.nil_append] at heq
      rw [heq, rangeAnswer, if_neg hto, List.append_nil,
        ← slice_append_drop dump (le_of_lt hlt)]
      simp only [List.append_assoc]

/-! ## The node -/

section
variable {C : Crypto} {S : Support} {e : DumpEnv}

theorem bind_ok_self {α : Type} (x : Exec Exn α) : (x >>= fun a => .ok a) = x := by
  cases x <;> rfl

/-- What the node makes of the parts of a dump for a client that wants a signature. -/
theorem finishDump_sign {r : DumpRange} {parts : DumpParts} {key : PrivateKey}
    (hsign : r.isSign = true) (hkey : e.privateKey = some key) :
    finishDump C S e r false parts =
      match signedData r parts with
      | none => stdString ((if r.fromByte = 0 then makeFirstPartBlockSign parts.realSizeBlock else []) ++
          parts.res)
      | some data => makeBlockSign C S data key >>= fun sign =>
          stdString ((if r.fromByte = 0 then makeFirstPartBlockSign parts.realSizeBlock else []) ++
            (parts.res ++ sign)) := by
  have hfirst : (if r.fromByte = 0 then makeFirstPartBlockSign parts.realSizeBlock ++ parts.res
      else parts.res) = (if r.fromByte = 0 then makeFirstPartBlockSign parts.realSizeBlock else []) ++
        parts.res := by
    split_ifs <;> rfl
  simp only [finishDump, signDump, hsign, Bool.not_true, Bool.false_eq_true, if_false, hkey, hfirst,
    pure_eq_ok, bind_ok_self]
  cases signedData r parts with
  | none => rfl
  | some data => simp only [List.append_assoc]

/-- The parts of a range that begins in the block, from the cache or the block file. -/
theorem readDump_inside (b : StoredBlock e) (hs : e.serves = true) {r : DumpRange}
    (hfrom : r.fromByte.toNat < b.dump.length) (hto : r.fromByte.toNat ≤ r.toByte.toNat) :
    readDump e b.bh r = .ok
      ⟨slice b.dump r.fromByte.toNat (min r.toByte.toNat b.dump.length - r.fromByte.toNat),
        b.dump.length, if r.isSign ∧ b.dump.length ≤ r.toByte.toNat then b.dump else []⟩ := by
  have hfile : readDump e b.bh r = readFromFile b.file b.bh.filePos.pos r := by
    cases hcache : e.blockDumpCache b.bh.hash with
    | some element => rw [readDump_cached b hs hcache, readFromCache_eq_file b hfrom hto]
    | none => rw [readDump_uncached b hs hcache]
  have hle : r.fromByte.toNat ≤ min r.toByte.toNat b.dump.length := by omega
  rw [hfile, readFromFile_within b hfrom, if_pos hle]

theorem slice_length_le (bs : Bytes) (pos n : ℕ) : (slice bs pos n).length ≤ bs.length := by
  rw [slice, List.length_take, List.length_drop]
  omega

section
variable (b : StoredBlock e) (hs : e.serves = true) {key : PrivateKey} (hkey : e.privateKey = some key)
  {sign : Bytes} (hm : makeBlockSign C S b.dump key = .ok sign) {s : Segment}
  (hlt : s.fromByte < s.toByte) (hto : s.toByte < 2 ^ 64)
include hs hkey hm hlt hto

/-- A segment that begins in the block. -/
theorem getBlockDump_segment_inside (hfit : 8 + b.dump.length + sign.length ≤ maxSize)
    (hfrom : s.fromByte < b.dump.length) :
    getBlockDump C S e b.bh (segmentRange s) false = .ok (rangeAnswer b.dump sign s) := by
  have hf := segmentRange_fromByte (lt_trans hlt hto)
  have ht := segmentRange_toByte hto
  have hzero : (segmentRange s).fromByte = 0 ↔ s.fromByte = 0 := by
    rw [← hf, ← UInt64.toNat_inj]; rfl
  have hread := readDump_inside b hs (r := segmentRange s) (by rw [hf]; exact hfrom)
    (by rw [hf, ht]; omega)
  rw [hf, ht, ← slice_clamp] at hread
  have hslice := slice_length_le b.dump s.fromByte (s.toByte - s.fromByte)
  have hfirst : ((if s.fromByte = 0 then makeFirstPartBlockSign b.dump.length else [] : Bytes)).length ≤
      8 := by
    split_ifs <;> simp [makeFirstPartBlockSign]
  have hstd : ∀ bs : Bytes, bs.length ≤ maxSize → stdString bs = .ok bs := by
    intro bs hbs
    rw [stdString, Exec.check_pos hbs, ok_bind]
  show readDump e b.bh (segmentRange s) >>= finishDump C S e (segmentRange s) false = _
  rw [hread, ok_bind, finishDump_sign rfl hkey, signedData, rangeAnswer]
  simp only [hzero, ht]
  by_cases hend : b.dump.length ≤ s.toByte
  · rw [if_pos ⟨rfl, hend⟩, if_pos ⟨rfl, hend⟩, if_pos hend]
    dsimp only
    rw [hm, ok_bind, hstd]
    rw [List.length_append, List.length_append]
    omega
  · rw [if_neg (fun h => hend h.2), if_neg hend, List.append_nil]
    dsimp only
    rw [hstd]
    rw [List.length_append]
    omega

/-- A segment that begins behind the block, or at its end. -/
theorem getBlockDump_segment_behind (hfrom : b.dump.length ≤ s.fromByte)
    (hcache : e.blockDumpCache b.bh.hash = none ∨ s.fromByte = b.dump.length) :
    getBlockDump C S e b.bh (segmentRange s) false = .ok sign := by
  have hf := segmentRange_fromByte (lt_trans hlt hto)
  have ht := segmentRange_toByte hto
  have hne := b.ne_zero_of_behind
    (show _ ≤ (segmentRange s).fromByte.toNat by rw [hf]; exact hfrom)
  -- the size differs, and is not used
  have hread : ∃ size, size ≤ s.toByte ∧
      readDump e b.bh (segmentRange s) = .ok ⟨[], size, b.dump⟩ := by
    cases hentry : e.blockDumpCache b.bh.hash with
    | none =>
      refine ⟨0, Nat.zero_le _, ?_⟩
      rw [readDump_uncached b hs hentry, readFromFile_behind b rfl (by rw [hf]; exact hfrom), ht,
        List.take_of_length_le (by omega)]
    | some element =>
      have heq : s.fromByte = b.dump.length := by
        rcases hcache with hnone | heq
        · rw [hentry] at hnone; cases hnone
        · exact heq
      refine ⟨b.dump.length, by omega, ?_⟩
      rw [readDump_cached b hs hentry, readFromCache_within (by rw [hf, heq]), hf, ht, heq, slice,
        List.drop_length, List.take_nil, if_pos ⟨rfl, by omega⟩]
  obtain ⟨size, hsize, hread⟩ := hread
  show readDump e b.bh (segmentRange s) >>= finishDump C S e (segmentRange s) false = _
  rw [hread, ok_bind, finishDump_signature hkey hne rfl (if_pos ⟨rfl, by rw [ht]; exact hsize⟩), hm,
    ok_bind]
  rfl

end

/-- The cache refuses a segment behind the block. -/
theorem getBlockDump_segment_refused (b : StoredBlock e) (hs : e.serves = true)
    (hcache : e.blockDumpCache b.bh.hash ≠ none) {s : Segment} (hlt : s.fromByte < 2 ^ 64)
    (hfrom : b.dump.length < s.fromByte) :
    getBlockDump C S e b.bh (segmentRange s) false = .throw (.std "basic_string::substr") := by
  have hf := segmentRange_fromByte hlt
  obtain ⟨element, hentry⟩ := Option.ne_none_iff_exists'.1 hcache
  rw [getBlockDump, readDump_cached b hs hentry, readFromCache_behind (by rw [hf]; exact hfrom),
    throw_bind]

end

/-! ## The segments -/

/-- The last segment of a block of `size` bytes begins behind the block: the segments have 1000
    bytes, and less than 250 are left for the last one. -/
def LastBehind (size countServers : ℕ) : Prop :=
  750 < size ∧ (size + 249) / 1000 + 1 ≤ countServers ∧ (size + 249) % 1000 < 249

instance (size countServers : ℕ) : Decidable (LastBehind size countServers) :=
  inferInstanceAs (Decidable (_ ∧ _))

/-- The beginning of the last segment of a response. -/
def lastBegin (responseSize countServers : ℕ) : ℕ :=
  (segmentCount responseSize countServers - 1) * segmentStep responseSize countServers

theorem lastBegin_behind_iff (size : ℕ) {countServers : ℕ} (hN : 1 ≤ countServers) :
    size < lastBegin (size + 250) countServers ↔ LastBehind size countServers := by
  have hround : (size + 250 + 999) / 1000 = (size + 249) / 1000 + 1 := by omega
  obtain ⟨k, hk⟩ : ∃ k, k = (size + 249) / 1000 := ⟨_, rfl⟩
  rw [lastBegin, segmentStep, segmentCount, hround, LastBehind, ← hk]
  by_cases hall : k + 1 ≤ countServers
  · -- as many segments as the minimum size allows
    have hdiv : (size + 250) / (k + 1) ≤ 1000 :=
      Nat.le_of_lt_succ ((Nat.div_lt_iff_lt_mul (by omega)).2 (by omega))
    rw [Nat.min_eq_left hall, Nat.max_eq_right hdiv, Nat.add_sub_cancel]
    rcases Nat.eq_zero_or_pos k with hzero | hpos
    · rw [hzero, Nat.zero_mul]
      omega
    · rw [Nat.min_eq_right (by omega)]
      omega
  · -- an even share for each server
    have hmul : 1000 * countServers ≤ size + 249 := by omega
    have hshare : countServers * ((size + 250) / countServers) ≤ size + 250 := Nat.mul_div_le _ _
    have hdiv : 1000 ≤ (size + 250) / countServers :=
      (Nat.le_div_iff_mul_le (by omega)).2 (by omega)
    have hsplit : (countServers - 1) * ((size + 250) / countServers) + (size + 250) / countServers =
        countServers * ((size + 250) / countServers) := by
      rw [← Nat.add_one_mul, Nat.sub_add_cancel hN]
    have hmin : (size + 250) / countServers ≤ size + 250 := Nat.div_le_self _ _
    rw [Nat.min_eq_right (by omega), Nat.max_eq_left hdiv, Nat.min_eq_right hmin]
    omega

/-- The segments that the client requests, as `request` computes them. -/
theorem segments_of_dump (size : ℕ) {countServers : ℕ} (hN : 1 ≤ countServers)
    (hlt : size < 2 ^ 63) :
    ∃ segments, requestSegments (size + estimateSizeSignature) 1000 countServers = .ok segments ∧
      Contiguous 0 segments (size + 250) ∧
      (∀ s ∈ segments.dropLast, s.fromByte + 250 ≤ s.toByte) ∧
      (∀ s ∈ segments, s.fromByte < s.toByte ∧ s.toByte ≤ size + 250 ∧
        s.fromByte ≤ lastBegin (size + 250) countServers) ∧
      ∃ s ∈ segments, s.fromByte = lastBegin (size + 250) countServers := by
  have hR : size + 250 ≠ 0 := by omega
  have hc := segmentCount_pos hR hN
  have hlast := segmentStep_lt hR hN
  have htile := tiles_evenSegments hc (segmentStep_pos hR) hlast
  have hrequest := requestSegments_thousand hR hN (by omega)
  refine ⟨_, hrequest, htile.contiguous, ?_, ?_, ?_⟩
  · intro s hs
    rw [evenSegments, List.dropLast_concat, List.mem_map] at hs
    obtain ⟨i, hi, rfl⟩ := hs
    rw [List.mem_range] at hi
    -- there are two segments, so the width is at least 1000
    have hstep : 1000 ≤ segmentStep (size + 250) countServers := by
      rw [segmentCount] at hi
      rw [segmentStep]
      omega
    dsimp only
    rw [Nat.add_one_mul]
    omega
  · intro s hs
    obtain ⟨i, hi⟩ := List.mem_iff_getElem?.1 hs
    have hseg := (htile.segment i s hi).2
    have hle := htile.toByte_le hi
    obtain ⟨hi, rfl⟩ := evenSegments_getElem? hc hi
    exact ⟨hseg, hle, Nat.mul_le_mul_right _ (by omega)⟩
  · exact ⟨_, by rw [evenSegments]; exact List.mem_concat_self, rfl⟩

/-! ## The download -/

section
variable (C : Crypto) (S : Support)

/-- The node answers every segment, the answers begin with the signed dump, and the client reads the
    dump from them. -/
def Reassembles (e : DumpEnv) (b : StoredBlock e) (countServers : ℕ) : Prop :=
  ∃ key envelope segments answers, e.privateKey = some key ∧
    signedDump C S b.dump key = .ok envelope ∧
    requestSegments (b.dump.length + estimateSizeSignature) 1000 countServers = .ok segments ∧
    List.Forall₂ (fun s answer => getBlockDump C S e b.bh (segmentRange s) false = .ok answer)
      segments answers ∧
    envelope <+: answers.flatten ∧
    checkSignatureBlock C answers.flatten = checkSignatureBlock C envelope ∧
    ∀ result, checkSignatureBlock C answers.flatten = .ok result → result.block = b.dump

variable {C S} {e : DumpEnv}

/-- The parts of a signed dump. -/
theorem signedDump_eq_ok {dump envelope : Bytes} {key : PrivateKey}
    (h : signedDump C S dump key = .ok envelope) :
    ∃ sign, makeBlockSign C S dump key = .ok (signPart sign key.pubk key.address) ∧
      envelope = serializeStringBigEndian dump ++ signPart sign key.pubk key.address ∧
      envelope.length ≤ maxSize := by
  obtain ⟨part, hm, hstd⟩ := bind_eq_ok.1 h
  obtain ⟨rfl, hmax⟩ := stdString_eq_ok hstd
  obtain ⟨sign, -, hpart⟩ := bind_eq_ok.1 hm
  obtain ⟨rfl, -⟩ := stdString_eq_ok hpart
  refine ⟨sign, hm, ?_, hmax⟩
  rw [serializeStringBigEndian, List.append_assoc]
  rfl

theorem forall₂_map_of_forall {α β : Type} {R : α → β → Prop} {f : α → β} {l : List α}
    (h : ∀ a ∈ l, R a (f a)) : List.Forall₂ R l (l.map f) := by
  rw [List.forall₂_map_right_iff, List.forall₂_same]
  exact h

/-- Every segment is answered if none of them begins behind a cached block. -/
theorem reassembles_of (b : StoredBlock e) {countServers : ℕ} (hN : 1 ≤ countServers)
    (hs : e.serves = true) {key : PrivateKey} (hkey : e.privateKey = some key) {envelope : Bytes}
    (henv : signedDump C S b.dump key = .ok envelope)
    (hbegin : e.blockDumpCache b.bh.hash = none ∨
      lastBegin (b.dump.length + 250) countServers ≤ b.dump.length) :
    Reassembles C S e b countServers := by
  obtain ⟨sign, hm, heq, hmax⟩ := signedDump_eq_ok henv
  have hhead := b.header_le
  have hlt := b.file_lt
  have hend := b.end_le
  obtain ⟨segments, hseg, hc, hwide, hin, -⟩ :=
    segments_of_dump b.dump.length hN (by omega)
  have hfit : 8 + b.dump.length + (signPart sign key.pubk key.address).length ≤ maxSize := by
    rw [heq, List.length_append, serializeStringBigEndian_length] at hmax
    exact hmax
  have hanswers : ∀ s ∈ segments, getBlockDump C S e b.bh (segmentRange s) false =
      .ok (rangeAnswer b.dump (signPart sign key.pubk key.address) s) := by
    intro s hin'
    obtain ⟨hpos, hto, hlast⟩ := hin s hin'
    have hto' : s.toByte < 2 ^ 64 := by omega
    rcases Nat.lt_or_ge s.fromByte b.dump.length with hfrom | hfrom
    · exact getBlockDump_segment_inside b hs hkey hm hpos hto' hfit hfrom
    · rw [rangeAnswer_behind hfrom (by omega) hpos]
      refine getBlockDump_segment_behind b hs hkey hm hpos hto' hfrom ?_
      rcases hbegin with hnone | hle
      · exact Or.inl hnone
      · exact Or.inr (by omega)
  obtain ⟨rest, hrest, hflat⟩ := rangeAnswers_flatten
    (signPart sign key.pubk key.address) le_rfl hc hwide (by omega) (by omega)
  rw [if_pos rfl, List.drop_zero] at hflat
  have hwhole : (segments.map (rangeAnswer b.dump (signPart sign key.pubk key.address))).flatten =
      envelope ++ rest := by
    rw [hflat, heq, serializeStringBigEndian]
    simp only [List.append_assoc]
    rfl
  have hlen : (envelope ++ rest).length < 2 ^ 64 := by
    have hrest' : rest.length ≤ (signPart sign key.pubk key.address).length := by
      rcases hrest with rfl | rfl
      · exact Nat.zero_le _
      · exact le_rfl
    rw [maxSize] at hmax hfit
    rw [List.length_append]
    omega
  -- whatever follows the envelope is not read
  have hread : checkSignatureBlock C (envelope ++ rest) =
      checkSignature C ⟨b.dump, sign, key.pubk, key.address⟩ := by
    refine checkSignatureBlock_standsAt hlen ?_
    rw [← heq]
    exact standsAt_zero_append _ _
  refine ⟨key, envelope, segments, _, hkey, henv, hseg, forall₂_map_of_forall hanswers, ?_, ?_, ?_⟩
  · rw [hwhole]
    exact List.prefix_append _ _
  · rw [hwhole, hread]
    refine (checkSignatureBlock_standsAt ?_ ?_).symm
    · rw [maxSize] at hmax
      omega
    · rw [← heq]
      exact standsAt_self _
  · intro result hresult
    rw [hwhole, hread] at hresult
    rw [checkSignature_eq_ok hresult]

end

/-! ## A block of 900 bytes -/

/-- A block of 900 bytes. -/
def longDump : Bytes := 1 :: List.replicate 899 0

theorem longDump_length : longDump.length = 900 := by
  rw [longDump, List.length_cons, List.length_replicate]

/-- A node with the key `Sample.node2` that has this block in the file `f`, and in its cache if
    `cached` is set. -/
def rangedEnv (cached : Bool) : DumpEnv where
  modules := ⟨true, true, false, false⟩
  blockDumpCache _ := if cached then some longDump else none
  files name := if name = ascii ['f'] then some (blockRecord longDump) else none
  privateKey := some Sample.node2

/-- The block. -/
def rangedBlock (cached : Bool) : StoredBlock (rangedEnv cached) where
  bh := { filePos := { pos := 0, fileName := ascii ['f'] } }
  dump := longDump
  file := blockRecord longDump
  file_eq := by simp [rangedEnv]
  named := nofun
  record := standsAt_self _
  header_le := by rw [longDump_length]; norm_num
  file_lt := by rw [blockRecord, List.length_append, leBytes_length, longDump_length]; norm_num
  cached element h := by
    cases cached with
    | true => exact (Option.some.inj h).symm
    | false => cases h

theorem signedDump_longDump :
    signedDump Sample.crypto Sample.support longDump Sample.node2 =
      .ok (serializeStringBigEndian longDump ++
        signPart [] Sample.derDouble Sample.node2.address) := by
  decide +kernel

end SyncImpl

end TorrentNode
