/-
  Dumps on the way from the server to the client (`generate_json.cpp`).

  The server writes the dumps of a batch as length-prefixed strings and may
  compress them (`genDumpBlocksBinary`); the client reads them in a loop over
  positions (`parseDumpBlocksBinary`).

  `parseDumpBlocksBinary_genDumpBlocksBinary`: the client reads what the server
  has written, if LZ4 does what it documents.
  `corrupt_refused_iff`: of a block that LZ4 refuses the client reads nothing if and
  only if the announced length is zero or missing; else it reads the buffer.
-/
import TorrentNode.Utils.Compress
import TorrentNode.Server
import TorrentNode.BlockSource.GetNewBlocksFromServers

open Wire Exec

namespace TorrentNode

open Server GetNewBlocksFromServer

/-! ## The loop -/

/-- The loop on the strings that are still to be read. -/
theorem parseDumpBlocksLoop_serialized {r : StdString} {fuel pos : ℕ} {blocks res : List Bytes}
    (hat : r.1.drop pos = blocks.flatMap serializeStringBigEndian) (hpos : pos ≤ r.1.length)
    (hfuel : blocks.length < fuel) :
    parseDumpBlocksLoop r.1 fuel pos res = .ok (res ++ blocks) := by
  have hr := r.length_lt
  induction blocks generalizing fuel pos res with
  | nil =>
    obtain ⟨fuel, rfl⟩ := Nat.exists_eq_succ_of_ne_zero (Nat.ne_of_gt hfuel)
    have hend : r.1.length ≤ pos := List.drop_eq_nil_iff.1 hat
    rw [parseDumpBlocksLoop, if_neg (Nat.not_lt.2 hend), List.append_nil]
  | cons block blocks ih =>
    obtain ⟨fuel, rfl⟩ := Nat.exists_eq_succ_of_ne_zero (Nat.ne_of_gt (Nat.zero_lt_of_lt hfuel))
    rw [List.flatMap_cons] at hat
    have hstands : StandsAt r.1 pos (serializeStringBigEndian block) := ⟨_, hat.symm⟩
    have hlen := hstands.le_length (List.ne_nil_of_length_pos (by simp))
    have hnext : r.1.drop (pos + (serializeStringBigEndian block).length) =
        blocks.flatMap serializeStringBigEndian := by
      rw [← List.drop_drop, hat, List.drop_left]
    rw [serializeStringBigEndian_length] at hlen hnext
    rw [parseDumpBlocksLoop, if_pos (by omega),
      deserializeStringBigEndian_at (by omega) hstands, ok_bind]
    dsimp only
    rw [ih hnext hlen (by simpa using hfuel), List.append_assoc, List.singleton_append]

/-! ## The round trip -/

/-- What the client gets of the bytes that the server sends. -/
theorem responseBytes_genDumpBlockBinary {lz4 : Lz4} (hlz4 : lz4.Lawful) {block : Bytes}
    {isCompress : Bool} (hlen : isCompress → block.length ≤ lz4MaxInputSize) {response : StdString}
    (h : response.1 = genDumpBlockBinary lz4.compress block isCompress) :
    (responseBytes lz4.decompress response isCompress).1 = block := by
  cases isCompress with
  | false => exact h
  | true => exact Lz4.decompress_compress hlz4 (hlen rfl) h

/-- **Dumps are read as they were written**, one dump and a batch of them: for any dumps if they
    are not compressed, and up to `LZ4_MAX_INPUT_SIZE` bytes if they are.  The loop over a batch
    tests its condition once for every dump, and once more. -/
theorem parseDumpBlocksBinary_genDumpBlocksBinary {lz4 : Lz4} (hlz4 : lz4.Lawful) (isCompress : Bool) :
    (∀ (blocks : List Bytes) (response : StdString),
      response.1 = genDumpBlocksBinary lz4.compress blocks isCompress →
      (isCompress → (blocks.flatMap serializeStringBigEndian).length ≤ lz4MaxInputSize) →
      ∀ fuel, blocks.length < fuel →
        parseDumpBlocksBinary lz4.decompress fuel response isCompress = .ok blocks) ∧
    (∀ (block : Bytes) (response : StdString),
      response.1 = genDumpBlockBinary lz4.compress block isCompress →
      (isCompress → block.length ≤ lz4MaxInputSize) →
      parseDumpBlockBinary lz4.decompress response isCompress = block) := by
  constructor
  · intro blocks response hr hlen fuel hfuel
    have hbytes := responseBytes_genDumpBlockBinary hlz4 hlen hr
    rw [parseDumpBlocksBinary, parseDumpBlocksLoop_serialized (by rw [List.drop_zero, hbytes])
      (Nat.zero_le _) hfuel, List.nil_append]
  · intro block response hr hlen
    exact responseBytes_genDumpBlockBinary hlz4 hlen hr

/-- A batch with one dump, compressed. -/
def smallBatch : StdString :=
  ⟨[12, 0, 0, 0, 0xC0, 0, 0, 0, 0, 0, 0, 0, 4, 7, 8, 9, 10], by decide⟩

/-- The round trip of a batch with one dump, on the block that LZ4 writes for it. -/
theorem parseDumpBlocksBinary_smallBatch :
    Lz4.literals.Lawful ∧
    smallBatch.1 = genDumpBlocksBinary Lz4.literals.compress [[7, 8, 9, 10]] true ∧
    parseDumpBlocksBinary Lz4.literals.decompress 2 smallBatch true = .ok [[7, 8, 9, 10]] := by
  have hgen : smallBatch.1 = genDumpBlocksBinary Lz4.literals.compress [[7, 8, 9, 10]] true := by
    decide +kernel
  exact ⟨Lz4.literals_lawful, hgen, (parseDumpBlocksBinary_genDumpBlocksBinary Lz4.literals_lawful true).1
    [[7, 8, 9, 10]] smallBatch hgen (fun _ => by decide +kernel) 2 (by decide)⟩

/-! ## Corrupt answers -/

/-- A length and a block that `LZ4_decompress_safe` decodes within this length. -/
def Lz4.Decodes (lz4 : Lz4) (r : Bytes) : Prop :=
  4 < r.length ∧ 0 ≤ (lz4.decompressSafe (r.drop 4) (List.replicate (leNat (r.take 4)) 0)
    (toInt32 (r.length - 4)) (toInt32 (leNat (r.take 4)))).1

/-- What a refused block leaves: the buffer, with the announced length. -/
theorem Lz4.decompress_refused {lz4 : Lz4} {r : StdString} (h : ¬ lz4.Decodes r.1) :
    (lz4.decompress r).1.length = if 4 < r.1.length then leNat (r.1.take 4) else 0 := by
  show (lz4.decompressUint32Block r.1).length = _
  rw [Lz4.decompressUint32Block]
  by_cases hlen : r.1.length ≤ 4
  · rw [if_pos hlen, if_neg (not_lt.2 hlen)]
    rfl
  · rw [if_neg hlen, if_pos (not_le.1 hlen)]
    simp only [List.length_replicate]
    have hrefused := not_le.1 fun hle => h ⟨not_le.1 hlen, hle⟩
    have hbuffer := lz4.decompressSafe_length (r.1.drop 4)
      (List.replicate (leNat (r.1.take 4)) 0) (toInt32 (r.1.length - 4))
      (toInt32 (leNat (r.1.take 4)))
    rw [List.length_replicate] at hbuffer
    rw [if_pos hrefused, hbuffer]

/-- **Corrupt answers**: nothing is read of an answer that LZ4 does not decode if and only if it has
    no length, or announces the length zero. -/
theorem corrupt_refused_iff (lz4 : Lz4) (r : StdString) :
    (¬ lz4.Decodes r.1 →
      parseDumpBlockBinary lz4.decompress r true = [] ∧
      ∀ fuel, 0 < fuel → (∃ e, parseDumpBlocksBinary lz4.decompress fuel r true = .throw e) ∨
        parseDumpBlocksBinary lz4.decompress fuel r true = .ok []) ↔
      lz4.Decodes r.1 ∨ r.1.length ≤ 4 ∨ leNat (r.1.take 4) = 0 := by
  by_cases hdecodes : lz4.Decodes r.1
  · exact iff_of_true (fun h => absurd hdecodes h) (Or.inl hdecodes)
  · have hlength := Lz4.decompress_refused hdecodes
    have hempty : (lz4.decompress r).1 = [] ↔ r.1.length ≤ 4 ∨ leNat (r.1.take 4) = 0 := by
      rw [← List.length_eq_zero_iff, hlength]
      split
      · rename_i hlt
        exact ⟨Or.inr, fun h => h.resolve_left (not_le.2 hlt)⟩
      · rename_i hle
        exact iff_of_true rfl (Or.inl (not_lt.1 hle))
    constructor
    · intro h
      exact Or.inr (hempty.1 (h hdecodes).1)
    · intro h _
      have hnothing := hempty.2 (h.resolve_left hdecodes)
      refine ⟨hnothing, fun fuel hfuel => Or.inr ?_⟩
      obtain ⟨fuel, rfl⟩ := Nat.exists_eq_succ_of_ne_zero hfuel.ne'
      have hbytes : (responseBytes lz4.decompress r true).1 = [] := hnothing
      rw [parseDumpBlocksBinary, hbytes]
      rfl

/-- The length 16, and a block that ends in its token. -/
def corruptAnswer : StdString := ⟨[16, 0, 0, 0, 0xF0], by decide⟩

/-- A corrupt answer becomes a dump of zeros, and a batch of two empty dumps. -/
theorem corruptAnswer_read :
    ¬ Lz4.literals.Decodes corruptAnswer.1 ∧
      parseDumpBlockBinary Lz4.literals.decompress corruptAnswer true = List.replicate 16 0 ∧
      parseDumpBlocksBinary Lz4.literals.decompress 3 corruptAnswer true = .ok [[], []] := by
  refine ⟨fun h => absurd h.2 (by decide +kernel), by decide +kernel, by decide +kernel⟩

end TorrentNode
