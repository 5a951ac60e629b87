/-
  The dump cache of the node (`caches.blockDumpCache`) in `SyncImpl::getBlockDump`.

  The same range of the same block is read from the cache with `substr`, or from
  the block file.  `substr` refuses a range that begins behind the dump and
  takes a range that ends before it begins for the rest of the dump; the block
  file answers the first with nothing and refuses the second.

  `getBlockDump_cache_iff`: the cache is transparent exactly for the ranges that
  begin in the block and do not end before they begin, for the empty rest of the
  block (signed only if the whole block is), and where both ways fail.
-/
import TorrentNode.SyncImpl.BlockDump

open Wire Exec

namespace TorrentNode

namespace SyncImpl

/-! ## With and without the cache -/

/-- The same node with another entry of the cache for a block. -/
def DumpEnv.setCache (e : DumpEnv) (hash : Bytes) (entry : Option Bytes) : DumpEnv :=
  { e with blockDumpCache := Function.update e.blockDumpCache hash entry }

section
variable (e : DumpEnv) (hash : Bytes) (entry : Option Bytes)

@[simp] theorem DumpEnv.setCache_serves : (e.setCache hash entry).serves = e.serves := rfl

@[simp] theorem DumpEnv.setCache_privateKey :
    (e.setCache hash entry).privateKey = e.privateKey := rfl

@[simp] theorem DumpEnv.setCache_same : (e.setCache hash entry).blockDumpCache hash = entry :=
  Function.update_self ..

end

/-- The block is still stored when its dump is put into the cache, or removed from it. -/
def StoredBlock.setCache {e : DumpEnv} (b : StoredBlock e) (entry : Option Bytes)
    (hentry : ∀ element, entry = some element → element = b.dump) :
    StoredBlock (e.setCache b.bh.hash entry) where
  bh := b.bh
  dump := b.dump
  file := b.file
  file_eq := b.file_eq
  named := b.named
  record := b.record
  header_le := b.header_le
  file_lt := b.file_lt
  cached element h := hentry element (by rwa [DumpEnv.setCache_same] at h)

/-- The same value, or an exception on both sides. -/
def SameOutcome {α : Type} (x y : Exec Exn α) : Prop :=
  x = y ∨ (∃ exn, x = .throw exn) ∧ ∃ exn, y = .throw exn

theorem sameOutcome_throw {α : Type} (exn : Exn) (y : Exec Exn α) :
    SameOutcome (.throw exn) y ↔ ∃ exn', y = .throw exn' := by
  constructor
  · rintro (rfl | ⟨-, h⟩)
    · exact ⟨exn, rfl⟩
    · exact h
  · exact fun h => Or.inr ⟨⟨exn, rfl⟩, h⟩

theorem sameOutcome_ok {α : Type} (a : α) (y : Exec Exn α) : SameOutcome (.ok a) y ↔ y = .ok a := by
  constructor
  · rintro (rfl | ⟨⟨_, h⟩, -⟩)
    · rfl
    · cases h
  · rintro rfl
    exact Or.inl rfl

section
variable (C : Crypto) (S : Support) {e : DumpEnv} (b : StoredBlock e)

/-- `getBlockDump` if the dump is in the cache. -/
def dumpCached (r : DumpRange) (isHex : Bool) : Exec Exn Bytes :=
  getBlockDump C S (e.setCache b.bh.hash (some b.dump)) b.bh r isHex

/-- `getBlockDump` if the dump is not in the cache. -/
def dumpUncached (r : DumpRange) (isHex : Bool) : Exec Exn Bytes :=
  getBlockDump C S (e.setCache b.bh.hash none) b.bh r isHex

/-- What `getBlockDump` makes of the parts of a dump. -/
def finishDump (e : DumpEnv) (r : DumpRange) (isHex : Bool) (parts : DumpParts) : Exec Exn Bytes := do
  let res ← signDump C S e r parts
  return if isHex then S.toHex res else res

theorem dumpCached_eq (hs : e.serves = true) (r : DumpRange) (isHex : Bool) :
    dumpCached C S b r isHex =
      readFromCache b.dump r >>= finishDump C S e r isHex := by
  have hread := readDump_cached (b.setCache (some b.dump) fun _ h => (Option.some.inj h).symm) hs
    (DumpEnv.setCache_same ..) r
  show readDump _ b.bh r >>= _ = _
  exact congrArg (· >>= finishDump C S e r isHex) hread

theorem dumpUncached_eq (hs : e.serves = true) (r : DumpRange) (isHex : Bool) :
    dumpUncached C S b r isHex =
      readFromFile b.file b.bh.filePos.pos r >>= finishDump C S e r isHex := by
  have hread := readDump_uncached (b.setCache none nofun) hs (DumpEnv.setCache_same ..) r
  show readDump _ b.bh r >>= _ = _
  exact congrArg (· >>= finishDump C S e r isHex) hread

end

/-! ## The two ways to read -/

theorem readFromCache_within {dump : Bytes} {r : DumpRange} (h : r.fromByte.toNat ≤ dump.length) :
    readFromCache dump r = .ok ⟨slice dump r.fromByte.toNat (r.toByte - r.fromByte).toNat,
      dump.length, if r.isSign ∧ dump.length ≤ r.toByte.toNat then dump else []⟩ := by
  rw [readFromCache, substr, Exec.check_pos h, ok_bind, ok_bind]
  rfl

theorem readFromCache_behind {dump : Bytes} {r : DumpRange} (h : dump.length < r.fromByte.toNat) :
    readFromCache dump r = .throw (.std "basic_string::substr") := by
  rw [readFromCache, substr, Exec.check_neg (by omega), throw_bind, throw_bind]

theorem slice_of_le {bs : Bytes} {pos n m : ℕ} (hn : bs.length ≤ pos + n) (hm : bs.length ≤ pos + m) :
    slice bs pos n = slice bs pos m := by
  rw [slice, slice, List.take_of_length_le (by rw [List.length_drop]; omega),
    List.take_of_length_le (by rw [List.length_drop]; omega)]

/-- A range is clamped to the dump. -/
theorem slice_clamp (dump : Bytes) (i j : ℕ) :
    slice dump i (j - i) = slice dump i (min j dump.length - i) := by
  rcases Nat.le_total j dump.length with h | h
  · rw [Nat.min_eq_left h]
  · exact slice_of_le (by omega) (by omega)

section
variable {e : DumpEnv} (b : StoredBlock e)

/-- A range of the block: the cache and the block file give the same. -/
theorem readFromCache_eq_file {r : DumpRange} (hfrom : r.fromByte.toNat < b.dump.length)
    (hto : r.fromByte.toNat ≤ r.toByte.toNat) :
    readFromCache b.dump r = readFromFile b.file b.bh.filePos.pos r := by
  have hle : r.fromByte.toNat ≤ min r.toByte.toNat b.dump.length := by omega
  rw [readFromCache_within (le_of_lt hfrom), readFromFile_within b hfrom, if_pos hle]
  have hsub : (r.toByte - r.fromByte).toNat = r.toByte.toNat - r.fromByte.toNat := by
    rw [UInt64.toNat_sub_of_le _ _ hto]
  rw [hsub, slice_clamp]

/-- A range behind the block that is not signed. -/
theorem readFromFile_behind_unsigned {r : DumpRange} (hsign : r.isSign = false)
    (h : b.dump.length ≤ r.fromByte.toNat) :
    readFromFile b.file b.bh.filePos.pos r = .ok ⟨[], 0, []⟩ := by
  rw [readFromFile, b.recordAt.getBlockDump_behind h, ok_bind]
  dsimp only
  rw [if_neg (by simp [hsign])]
  rfl

end

/-! ## Signing what was read -/

section
variable {C : Crypto} {S : Support} {e : DumpEnv} {r : DumpRange} {parts : DumpParts}

theorem finishDump_plain (hsign : r.isSign = false) (isHex : Bool) :
    finishDump C S e r isHex parts = .ok (if isHex then S.toHex parts.res else parts.res) := by
  simp [finishDump, signDump, hsign]

theorem finishDump_noKey (hsign : r.isSign = true) (hkey : e.privateKey = none) (isHex : Bool) :
    finishDump C S e r isHex parts = .throw (.common "Private key not set") := by
  simp [finishDump, signDump, hsign, hkey]

/-- A range that does not begin the block and is not followed by a signature. -/
theorem finishDump_middle {key : PrivateKey} (hkey : e.privateKey = some key)
    (hfrom : r.fromByte ≠ 0) (hdata : signedData r parts = none)
    (hlen : parts.res.length ≤ maxSize) (isHex : Bool) :
    finishDump C S e r isHex parts = .ok (if isHex then S.toHex parts.res else parts.res) := by
  cases hsign : r.isSign with
  | false => exact finishDump_plain hsign isHex
  | true =>
    have hstd : stdString parts.res = .ok parts.res := by
      rw [stdString, Exec.check_pos hlen, ok_bind]
    simp only [finishDump, signDump, hsign, Bool.not_true, Bool.false_eq_true, if_false, hkey, hdata,
      if_neg hfrom, hstd, ok_bind, pure_eq_ok]

/-- The signature alone. -/
theorem finishDump_signature {key : PrivateKey} (hkey : e.privateKey = some key)
    (hfrom : r.fromByte ≠ 0) (hres : parts.res = []) {data : Bytes}
    (hdata : signedData r parts = some data) (isHex : Bool) :
    finishDump C S e r isHex parts =
      makeBlockSign C S data key >>= fun sign => .ok (if isHex then S.toHex sign else sign) := by
  have hsign := (signedData_eq_some hdata).1.1
  simp only [finishDump, signDump, hsign, Bool.not_true, Bool.false_eq_true, if_false, hkey, hdata,
    if_neg hfrom, hres, List.nil_append]
  cases hm : makeBlockSign C S data key with
  | ok sign => rw [ok_bind, stdString_makeBlockSign hm, ok_bind, ok_bind]; rfl
  | throw exn => rfl
  | undef u => rfl
  | outOfFuel => rfl

theorem makeBlockSign_ne_nil {data sign : Bytes} {key : PrivateKey}
    (h : makeBlockSign C S data key = .ok sign) : sign ≠ [] := by
  obtain ⟨s, -, hstd⟩ := bind_eq_ok.1 h
  obtain ⟨rfl, -⟩ := stdString_eq_ok hstd
  intro hnil
  have hlen := congrArg List.length hnil
  simp [signPart, serializeStringBigEndian_length] at hlen

end

/-! ## When the cache is transparent -/

/-- The ranges of a block of `size` bytes that are read alike: those that begin in the block and do
    not end before they begin, and the empty rest of the block. -/
def RangeAgrees (size : ℕ) (r : DumpRange) : Prop :=
  r.fromByte.toNat < size ∧ r.fromByte.toNat ≤ r.toByte.toNat ∨
    r.fromByte.toNat = size ∧ (r.isSign = true → size ≤ r.toByte.toNat)

section
variable (C : Crypto) (S : Support) {e : DumpEnv} (b : StoredBlock e)

/-- The node does not serve dumps, or cannot sign: it has no key, or the key refuses the beginning of
    the block that is signed for a range behind the block. -/
def StoredBlock.BothFail (r : DumpRange) : Prop :=
  e.serves = false ∨ r.isSign = true ∧ (e.privateKey = none ∨ b.dump.length < r.fromByte.toNat ∧
    ∃ key exn, e.privateKey = some key ∧
      makeBlockSign C S (b.dump.take r.toByte.toNat) key = .throw exn)

variable {C S b} {r : DumpRange} {isHex : Bool}

theorem dump_notServed (hs : e.serves = false) (entry : Option Bytes) :
    getBlockDump C S (e.setCache b.bh.hash entry) b.bh r isHex =
      .throw (.common "modules block block_raw not set") := by
  rw [getBlockDump, readDump, check, Exec.check_neg (by simp [hs]), throw_bind, throw_bind]

/-- Without a key both ways fail. -/
theorem dump_noKey (hs : e.serves = true) (hsign : r.isSign = true) (hkey : e.privateKey = none) :
    SameOutcome (dumpCached C S b r isHex) (dumpUncached C S b r isHex) := by
  have hfinish : ∀ parts, finishDump C S e r isHex parts = .throw (.common "Private key not set") :=
    fun parts => finishDump_noKey hsign hkey isHex
  rw [dumpCached_eq C S b hs, dumpUncached_eq C S b hs]
  refine Or.inr ⟨?_, ?_⟩
  · rcases Nat.lt_or_ge b.dump.length r.fromByte.toNat with h | h
    · exact ⟨_, by rw [readFromCache_behind h, throw_bind]⟩
    · exact ⟨_, by rw [readFromCache_within h, ok_bind, hfinish]⟩
  · rcases Nat.lt_or_ge r.fromByte.toNat b.dump.length with h | h
    · rw [readFromFile_within b h]
      by_cases hle : r.fromByte.toNat ≤ min r.toByte.toNat b.dump.length
      · exact ⟨_, by rw [if_pos hle, ok_bind, hfinish]⟩
      · exact ⟨_, by rw [if_neg hle, throw_bind]⟩
    · exact ⟨_, by rw [readFromFile_behind b hsign h, ok_bind, hfinish]⟩

/-- A range that begins in the block. -/
theorem dump_inside_iff (hs : e.serves = true) (hkey : r.isSign = true → e.privateKey ≠ none)
    (hfrom : r.fromByte.toNat < b.dump.length) :
    SameOutcome (dumpCached C S b r isHex) (dumpUncached C S b r isHex) ↔
      r.fromByte.toNat ≤ r.toByte.toNat := by
  rw [dumpCached_eq C S b hs, dumpUncached_eq C S b hs]
  constructor
  · intro h
    by_contra hto
    have hne : r.fromByte ≠ 0 := by
      rintro hzero
      rw [hzero] at hto
      exact hto (Nat.zero_le _)
    have hlt := b.file_lt
    have hend := b.end_le
    have hle : ¬ r.fromByte.toNat ≤ min r.toByte.toNat b.dump.length := by omega
    rw [readFromFile_within b hfrom, if_neg hle, throw_bind] at h
    -- the cache gives the rest of the block
    obtain ⟨parts, hparts⟩ : ∃ parts, parts = DumpParts.mk
        (slice b.dump r.fromByte.toNat (r.toByte - r.fromByte).toNat) b.dump.length
        (if r.isSign ∧ b.dump.length ≤ r.toByte.toNat then b.dump else []) := ⟨_, rfl⟩
    rw [readFromCache_within (le_of_lt hfrom), ok_bind, ← hparts] at h
    have hdata : signedData r parts = none := by
      rw [signedData, hparts]
      exact if_neg (by rintro ⟨-, hle⟩; dsimp only at hle; omega)
    have hlen : parts.res.length ≤ maxSize := by
      rw [hparts, slice, List.length_take, List.length_drop, maxSize]
      omega
    cases hsign : r.isSign with
    | false =>
      rw [finishDump_plain hsign, sameOutcome_ok] at h
      cases h
    | true =>
      obtain ⟨key, hk⟩ := Option.ne_none_iff_exists'.1 (hkey hsign)
      rw [finishDump_middle hk hne hdata hlen, sameOutcome_ok] at h
      cases h
  · intro hto
    rw [readFromCache_eq_file b hfrom hto]
    exact Or.inl rfl

/-- A range that begins at the end of the block. -/
theorem dump_end_iff (hhex : ∀ bs, (S.toHex bs).length = 2 * bs.length) (hs : e.serves = true)
    (hkey : r.isSign = true → e.privateKey ≠ none) (hfrom : r.fromByte.toNat = b.dump.length) :
    SameOutcome (dumpCached C S b r isHex) (dumpUncached C S b r isHex) ↔
      (r.isSign = true → b.dump.length ≤ r.toByte.toNat) := by
  have hne := b.ne_zero_of_behind (le_of_eq hfrom.symm)
  have hnil : slice b.dump r.fromByte.toNat (r.toByte - r.fromByte).toNat = [] := by
    rw [slice, hfrom, List.drop_length, List.take_nil]
  rw [dumpCached_eq C S b hs, dumpUncached_eq C S b hs, readFromCache_within (le_of_eq hfrom), hnil,
    ok_bind]
  cases hsign : r.isSign with
  | false =>
    rw [readFromFile_behind_unsigned b hsign (le_of_eq hfrom.symm), ok_bind, finishDump_plain hsign,
      finishDump_plain hsign]
    exact iff_of_true (Or.inl rfl) (by simp)
  | true =>
    obtain ⟨key, hk⟩ := Option.ne_none_iff_exists'.1 (hkey hsign)
    rw [readFromFile_behind b hsign (le_of_eq hfrom.symm), ok_bind,
      finishDump_signature hk hne
        (show (⟨[], 0, b.dump.take r.toByte.toNat⟩ : DumpParts).res = [] from rfl)
        (if_pos ⟨hsign, Nat.zero_le _⟩)]
    by_cases hto : b.dump.length ≤ r.toByte.toNat
    · rw [if_pos ⟨rfl, hto⟩, List.take_of_length_le hto,
        finishDump_signature hk hne
          (show (⟨[], b.dump.length, b.dump⟩ : DumpParts).res = [] from rfl) (if_pos ⟨hsign, hto⟩)]
      exact ⟨fun _ _ => hto, fun _ => Or.inl rfl⟩
    · have hdata : signedData r ⟨[], b.dump.length, []⟩ = none := if_neg fun h => hto h.2
      rw [if_neg (fun h => hto h.2), finishDump_middle hk hne hdata (Nat.zero_le _), sameOutcome_ok]
      refine ⟨fun h => ?_, fun h => absurd (h rfl) hto⟩
      -- a signature is not empty
      obtain ⟨sign, hm, heq⟩ := bind_eq_ok.1 h
      have hnonempty := List.length_pos_of_ne_nil (makeBlockSign_ne_nil hm)
      have hlen := congrArg List.length (Exec.ok.inj heq)
      cases isHex with
      | true => simp only [if_true, hhex, List.length_nil] at hlen; omega
      | false => simp only [Bool.false_eq_true, if_false, List.length_nil] at hlen; omega

/-- A range that begins behind the block. -/
theorem dump_behind_iff (hs : e.serves = true) (hfrom : b.dump.length < r.fromByte.toNat) :
    SameOutcome (dumpCached C S b r isHex) (dumpUncached C S b r isHex) ↔
      b.BothFail C S r := by
  have hne := b.ne_zero_of_behind (le_of_lt hfrom)
  have hfail : b.BothFail C S r ↔ r.isSign = true ∧ (e.privateKey = none ∨
      ∃ key exn, e.privateKey = some key ∧
        makeBlockSign C S (b.dump.take r.toByte.toNat) key = .throw exn) := by
    simp [StoredBlock.BothFail, hs, hfrom]
  rw [dumpCached_eq C S b hs, dumpUncached_eq C S b hs, readFromCache_behind hfrom, throw_bind,
    sameOutcome_throw, hfail]
  cases hsign : r.isSign with
  | false =>
    rw [readFromFile_behind_unsigned b hsign (le_of_lt hfrom), ok_bind, finishDump_plain hsign]
    simp
  | true =>
    rw [readFromFile_behind b hsign (le_of_lt hfrom), ok_bind]
    cases hkey : e.privateKey with
    | none => simp [finishDump_noKey hsign hkey]
    | some key =>
      rw [finishDump_signature hkey hne
        (show (⟨[], 0, b.dump.take r.toByte.toNat⟩ : DumpParts).res = [] from rfl)
        (if_pos ⟨hsign, Nat.zero_le _⟩)]
      cases hm : makeBlockSign C S (b.dump.take r.toByte.toNat) key <;> simp [hm]

/-- **When the cache is transparent.** -/
theorem getBlockDump_cache_iff (C : Crypto) (S : Support)
    (hhex : ∀ bs, (S.toHex bs).length = 2 * bs.length) (e : DumpEnv) (b : StoredBlock e)
    (r : DumpRange) (isHex : Bool) :
    SameOutcome (dumpCached C S b r isHex) (dumpUncached C S b r isHex) ↔
      RangeAgrees b.dump.length r ∨ b.BothFail C S r := by
  cases hs : e.serves with
  | false =>
    refine ⟨fun _ => Or.inr (Or.inl hs), fun _ => Or.inl ?_⟩
    rw [dumpCached, dumpUncached, dump_notServed hs, dump_notServed hs]
  | true =>
    by_cases hkey : r.isSign = true ∧ e.privateKey = none
    · exact ⟨fun _ => Or.inr (Or.inr ⟨hkey.1, Or.inl hkey.2⟩),
        fun _ => dump_noKey hs hkey.1 hkey.2⟩
    · have hable : r.isSign = true → e.privateKey ≠ none := fun h hn => hkey ⟨h, hn⟩
      have hfail : b.BothFail C S r → b.dump.length < r.fromByte.toNat := by
        rintro (h | ⟨hsign, hnone | ⟨hlt, -⟩⟩)
        · rw [hs] at h; cases h
        · exact absurd hnone (hable hsign)
        · exact hlt
      rcases Nat.lt_trichotomy r.fromByte.toNat b.dump.length with hlt | heq | hgt
      · rw [dump_inside_iff hs hable hlt]
        refine ⟨fun h => Or.inl (Or.inl ⟨hlt, h⟩), ?_⟩
        rintro ((⟨-, h⟩ | ⟨h, -⟩) | h)
        · exact h
        · omega
        · have := hfail h
          omega
      · rw [dump_end_iff hhex hs hable heq]
        refine ⟨fun h => Or.inl (Or.inr ⟨heq, h⟩), ?_⟩
        rintro ((⟨h, -⟩ | ⟨-, h⟩) | h)
        · omega
        · exact h
        · have := hfail h
          omega
      · rw [dump_behind_iff hs hgt]
        refine ⟨Or.inr, ?_⟩
        rintro ((⟨h, -⟩ | ⟨h, -⟩) | h)
        · omega
        · omega
        · exact h

end

/-- The first two bytes of a block. -/
theorem getBlockDump_cache_first :
    SameOutcome (dumpCached Sample.crypto Sample.support oracleBlock ⟨0, 2, false⟩ true)
      (dumpUncached Sample.crypto Sample.support oracleBlock ⟨0, 2, false⟩ true) :=
  (getBlockDump_cache_iff Sample.crypto Sample.support flatMap_hexByte_length oracleEnv oracleBlock
    ⟨0, 2, false⟩ true).2 (Or.inl (Or.inl ⟨by decide, by decide⟩))

/-- The bytes from 79 to 0: the cache gives the last byte of the block, the block file an exception;
    the bytes from 81 to 90: the cache gives an exception, the block file nothing. -/
theorem getBlockDump_cache_differs :
    dumpCached Sample.crypto Sample.support oracleBlock ⟨79, 0, false⟩ false = .ok [0] ∧
      dumpUncached Sample.crypto Sample.support oracleBlock ⟨79, 0, false⟩ false =
        .throw (.std "basic_string::_M_create") ∧
      dumpCached Sample.crypto Sample.support oracleBlock ⟨81, 90, false⟩ false =
        .throw (.std "basic_string::substr") ∧
      dumpUncached Sample.crypto Sample.support oracleBlock ⟨81, 90, false⟩ false = .ok [] ∧
      ¬ ∀ r isHex, SameOutcome (dumpCached Sample.crypto Sample.support oracleBlock r isHex)
        (dumpUncached Sample.crypto Sample.support oracleBlock r isHex) := by
  have hcached : dumpCached Sample.crypto Sample.support oracleBlock ⟨79, 0, false⟩ false = .ok [0] :=
    by decide +kernel
  have hfile : dumpUncached Sample.crypto Sample.support oracleBlock ⟨79, 0, false⟩ false =
      .throw (.std "basic_string::_M_create") := by decide +kernel
  refine ⟨hcached, hfile, by decide +kernel, by decide +kernel, fun h => ?_⟩
  have hsame := h ⟨79, 0, false⟩ false
  rw [hcached, hfile, sameOutcome_ok] at hsame
  cases hsame

end SyncImpl

end TorrentNode
