/-
  Compressed responses (`utils/compress.cpp`).

  A compressed string is the size of the original in four bytes, in the byte order
  of the machine, followed by a block of LZ4.  LZ4 gets its sizes as `int`; it is a
  parameter, with what its header documents (`Lz4.Lawful`).

  `Lz4.decompress_compress`: a string that LZ4 accepts is read back.
  `Lz4.compress_short`: a short result comes from a short string (`Lz4.Bounded`).
  `Lz4.literals`: blocks with literals only, as LZ4 writes them for short inputs.
-/
import TorrentNode.BlockchainUtils

open Wire

namespace TorrentNode

/-! ## LZ4 -/

theorem toInt32_lt (n : ℕ) : toInt32 n < 2 ^ 31 := by
  rw [toInt32]; split_ifs <;> omega

/-- `LZ4_MAX_INPUT_SIZE`. -/
def lz4MaxInputSize : ℕ := 0x7E000000

/-- `LZ4_compressBound(isize)`; a negative size is a large one. -/
def lz4CompressBound (isize : ℤ) : ℕ :=
  if lz4MaxInputSize < (isize % 2 ^ 32).toNat then 0
  else isize.toNat + isize.toNat / 255 + 16

/-- The functions of LZ4: a buffer is given with its content, and comes back with what was written
    into it. -/
structure Lz4 where
  /-- `LZ4_compress_default`: the number of bytes written, or zero. -/
  compressDefault (source dest : Bytes) (sourceSize maxDestSize : ℤ) : ℕ × Bytes
  /-- `LZ4_decompress_safe`: the number of bytes written, or a negative number. -/
  decompressSafe (source dest : Bytes) (compressedSize maxDecompressedSize : ℤ) : ℤ × Bytes
  decompressSafe_length : ∀ source dest compressedSize maxDecompressedSize,
    (decompressSafe source dest compressedSize maxDecompressedSize).2.length = dest.length
  decompressSafe_le : ∀ source dest compressedSize maxDecompressedSize,
    (decompressSafe source dest compressedSize maxDecompressedSize).1 ≤ max maxDecompressedSize 0

/-- `str.resize(size)`. -/
def resize (str : Bytes) (size : ℕ) : Bytes := (str ++ List.replicate (size - str.length) 0).take size

@[simp] theorem resize_length (str : Bytes) (size : ℕ) : (resize str size).length = size := by
  simp only [resize, List.length_take, List.length_append, List.length_replicate]; omega

theorem resize_of_le {str : Bytes} {size : ℕ} (h : size ≤ str.length) :
    resize str size = str.take size := by
  rw [resize, List.take_append_of_le_length h]

namespace Lz4
variable (lz4 : Lz4)

/-- `compress_uint32_block(src, dst)` on an empty `dst`: what is in `dst` afterwards. -/
def compressUint32Block (src : Bytes) : Bytes :=
  if src = [] then []
  else
    let boundSize := lz4CompressBound (toInt32 src.length)
    if boundSize = 0 then []
    else
      let dst : Bytes := List.replicate (boundSize + 4) 0
      match lz4.compressDefault src (dst.drop 4) (toInt32 src.length)
        (toInt32 (dst.length - 4)) with
      | (lz4Size, written) =>
        let dst := dst.take 4 ++ written
        if lz4Size = 0 then dst
        else
          let dst := if lz4Size + 4 ≠ boundSize + 4 then resize dst (lz4Size + 4) else dst
          leBytes 4 src.length ++ dst.drop 4

/-- `decompress_uint32_block(src, dst, max_size)` on an empty `dst`, with the largest `max_size`:
    what is in `dst` afterwards. -/
def decompressUint32Block (src : Bytes) : Bytes :=
  if src.length ≤ 4 then []
  else
    let origSize := leNat (src.take 4)
    let dst : Bytes := List.replicate origSize 0
    match lz4.decompressSafe (src.drop 4) dst (toInt32 (src.length - 4))
      (toInt32 dst.length) with
    | (size, dst) =>
      if size < 0 then dst
      else if dst.length ≠ size.toNat then resize dst size.toNat
      else dst

theorem decompressUint32Block_length (src : Bytes) :
    (lz4.decompressUint32Block src).length < 2 ^ 32 := by
  have hlt : leNat (src.take 4) < 2 ^ 32 :=
    (leNat_lt _).trans_le (Nat.pow_le_pow_right (by norm_num) (List.length_take_le 4 src))
  have hint := toInt32_lt (leNat (src.take 4))
  rw [decompressUint32Block]
  simp only [List.length_replicate]
  rcases hcall : lz4.decompressSafe (src.drop 4) (List.replicate (leNat (src.take 4)) 0)
    (toInt32 (src.length - 4)) (toInt32 (leNat (src.take 4))) with ⟨size, dst⟩
  have hlen : dst.length = leNat (src.take 4) := by
    have h := lz4.decompressSafe_length (src.drop 4) (List.replicate (leNat (src.take 4)) 0)
      (toInt32 (src.length - 4)) (toInt32 (leNat (src.take 4)))
    rwa [hcall, List.length_replicate] at h
  have hle : size ≤ max (toInt32 (leNat (src.take 4))) 0 := by
    have h := lz4.decompressSafe_le (src.drop 4) (List.replicate (leNat (src.take 4)) 0)
      (toInt32 (src.length - 4)) (toInt32 (leNat (src.take 4)))
    rwa [hcall] at h
  simp only [hcall]
  split_ifs
  · norm_num
  · rwa [hlen]
  · rw [resize_length]; omega
  · rwa [hlen]

/-- `compress(value)`. -/
def compress (value : Bytes) : Bytes := lz4.compressUint32Block value

/-- `decompress(value)`. -/
def decompress (value : StdString) : StdString :=
  ⟨lz4.decompressUint32Block value.1, by
    have h := lz4.decompressUint32Block_length value.1
    have hmax : maxSize = 2 ^ 63 - 1 := rfl
    omega⟩

/-! ## Reading back -/

/-- What the header of LZ4 documents: an input that is not too large is compressed into a buffer
    of `LZ4_compressBound` bytes, and `LZ4_decompress_safe` restores it from the bytes written. -/
structure Lawful : Prop where
  compress_pos : ∀ source dest : Bytes, source ≠ [] → source.length ≤ lz4MaxInputSize →
    dest.length = lz4CompressBound source.length →
    0 < (lz4.compressDefault source dest source.length dest.length).1
  compress_le : ∀ source dest : Bytes, source.length ≤ lz4MaxInputSize →
    dest.length = lz4CompressBound source.length →
    (lz4.compressDefault source dest source.length dest.length).1 ≤ dest.length
  compress_length : ∀ source dest : Bytes, source.length ≤ lz4MaxInputSize →
    dest.length = lz4CompressBound source.length →
    (lz4.compressDefault source dest source.length dest.length).2.length = dest.length
  decompress_compress : ∀ source dest out : Bytes, source ≠ [] → source.length ≤ lz4MaxInputSize →
    dest.length = lz4CompressBound source.length → out.length = source.length →
    let r := lz4.compressDefault source dest source.length dest.length
    lz4.decompressSafe (r.2.take r.1) out r.1 out.length = ((source.length : ℤ), source)

variable {lz4}

theorem lz4CompressBound_of_le {n : ℕ} (h : n ≤ lz4MaxInputSize) :
    lz4CompressBound n = n + n / 255 + 16 ∧ lz4CompressBound n < 2 ^ 31 := by
  rw [lz4MaxInputSize] at h
  have hn : ((n : ℤ) % 2 ^ 32).toNat = n := by omega
  have hb : lz4CompressBound n = n + n / 255 + 16 := by
    rw [lz4CompressBound, hn, if_neg (by rw [lz4MaxInputSize]; omega), Int.toNat_natCast]
  exact ⟨hb, by omega⟩

/-- The compressed string: the size and the bytes that LZ4 has written. -/
theorem compress_eq (h : lz4.Lawful) {src : Bytes} (hne : src ≠ []) (hlen : src.length ≤ lz4MaxInputSize) :
    let dest : Bytes := List.replicate (lz4CompressBound src.length) 0
    let r := lz4.compressDefault src dest src.length dest.length
    lz4.compress src = leBytes 4 src.length ++ r.2.take r.1 := by
  intro dest r
  obtain ⟨hb, hb31⟩ := lz4CompressBound_of_le hlen
  have hdest : dest.length = lz4CompressBound src.length := List.length_replicate
  have hpos : 0 < r.1 := h.compress_pos src dest hne hlen hdest
  have hle : r.1 ≤ dest.length := h.compress_le src dest hlen hdest
  have hrlen : r.2.length = dest.length := h.compress_length src dest hlen hdest
  have hint : toInt32 src.length = src.length :=
    toInt32_of_lt (hlen.trans_lt (by rw [lz4MaxInputSize]; norm_num))
  have hint' : toInt32 (lz4CompressBound src.length) = dest.length := by
    rw [toInt32_of_lt hb31, hdest]
  have hcall : lz4.compressDefault src ((List.replicate (lz4CompressBound src.length + 4) 0).drop 4)
      src.length (toInt32 ((List.replicate (lz4CompressBound src.length + 4) (0 : UInt8)).length - 4))
      = r := by
    rw [List.drop_replicate, List.length_replicate, Nat.add_sub_cancel, hint']
  have h4 : (List.replicate (lz4CompressBound src.length + 4) (0 : UInt8)).take 4 =
      List.replicate 4 0 := by rw [List.take_replicate, Nat.min_eq_left (by omega)]
  rw [compress, compressUint32Block, if_neg hne]
  simp only [hint, hcall, if_neg (show lz4CompressBound src.length ≠ 0 by omega), h4]
  clear_value r
  obtain ⟨lz4Size, written⟩ := r
  dsimp only at hpos hle hrlen ⊢
  rw [if_neg (Nat.pos_iff_ne_zero.1 hpos)]
  congr 1
  split_ifs with hs
  · rw [resize_of_le (by simp; omega), List.drop_take, Nat.add_sub_cancel]
    rfl
  · have hn : lz4Size = written.length := by omega
    rw [hn, List.take_length]
    rfl

/-- **A string that is not too large is read back.** -/
theorem decompress_compress (h : lz4.Lawful) {src : Bytes} (hlen : src.length ≤ lz4MaxInputSize)
    {value : StdString} (hv : value.1 = lz4.compress src) : (lz4.decompress value).1 = src := by
  change lz4.decompressUint32Block value.1 = src
  rw [hv]
  rcases eq_or_ne src [] with rfl | hne
  · rw [compress, compressUint32Block, if_pos rfl, decompressUint32Block, if_pos (by simp)]
  · have hc := compress_eq h hne hlen
    obtain ⟨dest, hd⟩ : ∃ dest : Bytes, dest = List.replicate (lz4CompressBound src.length) 0 := ⟨_, rfl⟩
    have hdest : dest.length = lz4CompressBound src.length := by rw [hd, List.length_replicate]
    rw [← hd] at hc
    obtain ⟨r, hr⟩ : ∃ r, r = lz4.compressDefault src dest src.length dest.length := ⟨_, rfl⟩
    simp only [← hr] at hc
    have hpos : 0 < r.1 := by rw [hr]; exact h.compress_pos src dest hne hlen hdest
    have hle : r.1 ≤ dest.length := by rw [hr]; exact h.compress_le src dest hlen hdest
    have hrlen : r.2.length = dest.length := by rw [hr]; exact h.compress_length src dest hlen hdest
    have hdec := h.decompress_compress src dest (List.replicate src.length 0) hne hlen hdest
      List.length_replicate
    simp only [← hr, List.length_replicate] at hdec
    have hb31 := (lz4CompressBound_of_le hlen).2
    have hl31 : src.length < 2 ^ 31 := hlen.trans_lt (by rw [lz4MaxInputSize]; norm_num)
    have htake : (leBytes 4 src.length ++ r.2.take r.1).take 4 = leBytes 4 src.length :=
      List.take_left' (leBytes_length 4 _)
    have hdrop : (leBytes 4 src.length ++ r.2.take r.1).drop 4 = r.2.take r.1 :=
      List.drop_left' (leBytes_length 4 _)
    have hsize : (leBytes 4 src.length ++ r.2.take r.1).length = 4 + r.1 := by
      simp only [List.length_append, leBytes_length, List.length_take]; omega
    have horig : leNat (leBytes 4 src.length) = src.length := leNat_leBytes_of_lt (by omega)
    have hint : toInt32 r.1 = r.1 := toInt32_of_lt (by omega)
    rw [hc, decompressUint32Block, if_neg (by omega)]
    simp only [htake, hdrop, hsize, horig, List.length_replicate, Nat.add_sub_cancel_left, hint,
      toInt32_of_lt hl31, hdec]
    rw [if_neg (by omega), if_neg (by simp)]

/-! ## The ratio -/

variable (lz4) in
/-- A byte of a block stands for at most 255 bytes: as a literal for one, and as the continuation of
    a length for what it adds to it. -/
def Bounded : Prop :=
  ∀ source dest : Bytes, source.length ≤ lz4MaxInputSize →
    dest.length = lz4CompressBound source.length →
    source.length ≤ 255 * (lz4.compressDefault source dest source.length dest.length).1

/-- A short compressed string has a short original; the fourth byte of its size is zero. -/
theorem compress_short (h : lz4.Lawful) (hb : lz4.Bounded) {src : Bytes} (hne : src ≠ [])
    (hlen : src.length ≤ lz4MaxInputSize) (hshort : (lz4.compress src).length ≤ 512) :
    (lz4.compress src)[3]? = some 0 := by
  have hdest : (List.replicate (lz4CompressBound src.length) (0 : UInt8)).length =
      lz4CompressBound src.length := List.length_replicate
  have hratio := hb src _ hlen hdest
  have hle := h.compress_le src _ hlen hdest
  have hrlen := h.compress_length src _ hlen hdest
  have hc := compress_eq h hne hlen
  dsimp only at hc
  rw [hc, List.length_append, leBytes_length, List.length_take, hrlen, Nat.min_eq_left hle] at hshort
  have hsmall : src.length < 2 ^ 24 := by omega
  rw [hc, List.getElem?_append_left (by rw [leBytes_length]; norm_num)]
  have hzero : src.length / 256 / 256 / 256 = 0 := by omega
  simp [leBytes, hzero]

/-! ## Blocks of literals

LZ4 writes an input of less than 13 bytes as one run of literals: a token with their number, which
is continued behind it from 15 on, and the bytes themselves.  Written for every input, such blocks
are a correct LZ4. -/

/-- The rest of a length from 15 on. -/
def lengthBytes (n : ℕ) : Bytes := List.replicate (n / 255) 255 ++ [UInt8.ofNat (n % 255)]

/-- A block with literals only. -/
def literalBlock (source : Bytes) : Bytes :=
  if source.length < 15 then UInt8.ofNat (source.length * 16) :: source
  else 0xF0 :: (lengthBytes (source.length - 15) ++ source)

/-- The rest of a length, and what follows it. -/
def readLength : Bytes → Option (ℕ × Bytes)
  | [] => none
  | b :: bs => if b = 255 then (readLength bs).map fun r => (r.1 + 255, r.2) else some (b.toNat, bs)

/-- The content of a block with literals only. -/
def readLiterals : Bytes → Option Bytes
  | [] => none
  | token :: bs =>
    if token.toNat / 16 = 15 then
      (readLength bs).bind fun r => if r.2.length = r.1 + 15 then some r.2 else none
    else if bs.length = token.toNat / 16 then some bs
    else none

/-- A buffer with the bytes `bs` at its front. -/
def overwrite (dest bs : Bytes) : Bytes := bs ++ dest.drop bs.length

theorem overwrite_length {dest bs : Bytes} (h : bs.length ≤ dest.length) :
    (overwrite dest bs).length = dest.length := by
  simp only [overwrite, List.length_append, List.length_drop]; omega

/-- LZ4 with blocks of literals. -/
def literals : Lz4 where
  compressDefault source dest _ maxDestSize :=
    if ((literalBlock source).length : ℤ) ≤ maxDestSize then
      ((literalBlock source).length, overwrite dest (literalBlock source))
    else (0, dest)
  decompressSafe source dest _ maxDecompressedSize :=
    match readLiterals source with
    | none => (-1, dest)
    | some bs =>
      if bs.length ≤ dest.length ∧ (bs.length : ℤ) ≤ maxDecompressedSize then
        (bs.length, overwrite dest bs)
      else (-1, dest)
  decompressSafe_length source dest _ maxDecompressedSize := by
    rcases readLiterals source with _ | bs
    · rfl
    · dsimp only
      split_ifs with h
      · exact overwrite_length h.1
      · rfl
  decompressSafe_le source dest _ maxDecompressedSize := by
    rcases readLiterals source with _ | bs
    · simp
    · dsimp only
      split_ifs with h
      · exact h.2.trans (le_max_left _ _)
      · simp

theorem readLength_replicate (k : ℕ) {b : UInt8} (hb : b ≠ 255) (bs : Bytes) :
    readLength (List.replicate k 255 ++ b :: bs) = some (k * 255 + b.toNat, bs) := by
  induction k with
  | zero => simp [readLength, hb]
  | succ k ih =>
    rw [List.replicate_succ, List.cons_append, readLength, if_pos rfl, ih]
    simp only [Option.map_some, Option.some.injEq, Prod.mk.injEq, and_true]
    ring

theorem readLength_lengthBytes (n : ℕ) (bs : Bytes) :
    readLength (lengthBytes n ++ bs) = some (n, bs) := by
  have hlt : n % 255 < 255 := Nat.mod_lt _ (by norm_num)
  have hb : (UInt8.ofNat (n % 255)).toNat = n % 255 := UInt8.toNat_ofNat_of_lt' (by change n % 255 < 256; omega)
  have hne : UInt8.ofNat (n % 255) ≠ 255 := by
    intro h
    rw [h] at hb
    exact absurd hb (by change 255 ≠ n % 255; omega)
  rw [lengthBytes, List.append_assoc, List.singleton_append, readLength_replicate _ hne, hb]
  simp only [Option.some.injEq, Prod.mk.injEq, and_true]
  omega

theorem readLiterals_literalBlock (source : Bytes) :
    readLiterals (literalBlock source) = some source := by
  rw [literalBlock]
  split_ifs with h
  · have ht : (UInt8.ofNat (source.length * 16)).toNat / 16 = source.length := by
      rw [UInt8.toNat_ofNat_of_lt' (by change source.length * 16 < 256; omega)]; omega
    rw [readLiterals, ht, if_neg (by omega), if_pos rfl]
  · rw [readLiterals, if_pos (by decide), readLength_lengthBytes]
    simp only [Option.bind_some]
    rw [if_pos (by omega)]

theorem literalBlock_length_le {source : Bytes} (h : source.length ≤ lz4MaxInputSize) :
    (literalBlock source).length ≤ lz4CompressBound source.length := by
  rw [(lz4CompressBound_of_le h).1, literalBlock]
  split_ifs
  · rw [List.length_cons]; omega
  · simp only [List.length_cons, List.length_append, lengthBytes, List.length_replicate,
      List.length_nil]
    omega

/-- Blocks of literals are a correct LZ4. -/
theorem literals_lawful : literals.Lawful := by
  have hc : ∀ source dest : Bytes, source.length ≤ lz4MaxInputSize →
      dest.length = lz4CompressBound source.length →
      literals.compressDefault source dest source.length dest.length =
        ((literalBlock source).length, overwrite dest (literalBlock source)) := by
    intro source dest hs hd
    have hle := literalBlock_length_le hs
    exact if_pos (by omega)
  have hpos : ∀ source, 0 < (literalBlock source).length := by
    intro source
    rw [literalBlock]
    split_ifs <;> simp
  constructor
  · intro source dest _ hs hd
    rw [hc source dest hs hd]
    exact hpos source
  · intro source dest hs hd
    rw [hc source dest hs hd, hd]
    exact literalBlock_length_le hs
  · intro source dest hs hd
    rw [hc source dest hs hd]
    exact overwrite_length (by rw [hd]; exact literalBlock_length_le hs)
  · intro source dest out _ hs hd hout
    rw [hc source dest hs hd]
    dsimp only [literals]
    rw [overwrite, List.take_left, readLiterals_literalBlock]
    dsimp only
    rw [if_pos ⟨hout.ge, by rw [hout]⟩, overwrite, List.drop_eq_nil_of_le hout.le,
      List.append_nil]

theorem literals_bounded : literals.Bounded := by
  intro source dest hs hd
  have hle := literalBlock_length_le hs
  have hlit : source.length ≤ (literalBlock source).length := by
    rw [literalBlock]
    split_ifs
    · simp
    · simp only [List.length_cons, List.length_append]; omega
  have hc : (literals.compressDefault source dest source.length dest.length).1 =
      (literalBlock source).length := congrArg Prod.fst (if_pos (by omega))
  rw [hc]
  omega

end Lz4

end TorrentNode
