/-
  The binary responses with several blocks (`generate_json.cpp`).

  A response is a sequence of length-prefixed strings.  The position behind a
  string is computed modulo 2^64 and is not compared with the size of the
  response, so a large length can bring it back to the front.

  `progress_of_noWrap` and what follows: the loop ends after at most one round
  for every eight bytes if no length field wraps, and every length field that
  wraps moves the position by less than its own eight bytes, or backwards.
-/
import TorrentNode.Utils.Serialize

open Wire

namespace TorrentNode

/-! ## The loop -/

/-- The loop of `parseDumpBlocksBinary`, at position `fromPos` with the strings `res` read. -/
def parseDumpBlocksLoop (r : Bytes) : ℕ → ℕ → List Bytes → Exec Exn (List Bytes)
  | 0, _, _ => .outOfFuel
  | fuel + 1, fromPos, res =>
    if fromPos < r.length then do
      let (str, fromPos) ← deserializeStringBigEndian r fromPos
      parseDumpBlocksLoop r fuel fromPos (res ++ [str])
    else .ok res

/-- The bytes of a response, after decompression. -/
def responseBytes (decompress : StdString → StdString) (response : StdString)
    (isCompress : Bool) : StdString :=
  if isCompress then decompress response else response

/-- `parseDumpBlocksBinary(response, isCompress)`, with the loop condition tested at most `fuel`
    times; `decompress` is the LZ4 decoder. -/
def parseDumpBlocksBinary (decompress : StdString → StdString) (fuel : ℕ) (response : StdString)
    (isCompress : Bool) : Exec Exn (List Bytes) :=
  parseDumpBlocksLoop (responseBytes decompress response isCompress).1 fuel 0 []

/-! ## One iteration -/

/-- What an iteration does. -/
theorem deserializeStringBigEndian_cases (r : StdString) {pos : ℕ} (hpos : pos < r.1.length) :
    (deserializeStringBigEndian r.1 pos = .throw (.common "Incorrect raw") ∧
      (r.1.length < pos + 8 ∨ lengthAt r.1 pos = 2 ^ 64 - 8)) ∨
    (∃ str, deserializeStringBigEndian r.1 pos =
        .ok (str, (pos + 8 + lengthAt r.1 pos) % 2 ^ 64) ∧
      pos + 8 ≤ r.1.length ∧ lengthAt r.1 pos ≠ 2 ^ 64 - 8) := by
  have hr := r.length_lt
  by_cases hin : pos + 8 ≤ r.1.length
  · have hlt := lengthAt_lt hin
    have heq : (pos + 8 + lengthAt r.1 pos) % 2 ^ 64 = pos ↔ lengthAt r.1 pos = 2 ^ 64 - 8 := by omega
    rw [deserializeStringBigEndian, deserializeStringBigEndianEnd_inside (by omega) hin]
    by_cases hl : lengthAt r.1 pos = 2 ^ 64 - 8
    · left
      refine ⟨?_, Or.inr hl⟩
      simp [-Nat.reducePow, check, Exec.check, heq.2 hl]
    · right
      refine ⟨slice r.1 (pos + 8) (lengthAt r.1 pos), ?_, hin, hl⟩
      simp [-Nat.reducePow, check, Exec.check, mt heq.1 hl]
  · left
    refine ⟨?_, Or.inl (by omega)⟩
    rw [deserializeStringBigEndian,
      deserializeStringBigEndianEnd_outside (by omega) (Nat.lt_of_not_le hin)]
    simp [check, Exec.check]

/-! ## Progress -/

/-- A completed iteration takes the position from `pos` to `next`. -/
def Iteration (r : Bytes) (pos next : ℕ) : Prop :=
  pos < r.length ∧ ∃ str, deserializeStringBigEndian r pos = .ok (str, next)

/-- The positions at which the loop condition is tested. -/
def Reached (r : Bytes) (pos : ℕ) : Prop := Relation.ReflTransGen (Iteration r) 0 pos

/-- Every iteration throws or advances, and the loop ends after at most one completed iteration
    for every eight bytes. -/
structure Progress (r : Bytes) : Prop where
  step : ∀ pos, Reached r pos → pos < r.length →
    (∃ e, deserializeStringBigEndian r pos = .throw e) ∨
      ∃ str next, deserializeStringBigEndian r pos = .ok (str, next) ∧ pos < next
  ends : parseDumpBlocksLoop r (r.length / 8 + 1) 0 [] ≠ .outOfFuel

/-- The positions of the length fields of a response, up to the first one that wraps. -/
inductive FieldAt (r : Bytes) : ℕ → Prop where
  | first : FieldAt r 0
  | next {pos : ℕ} : FieldAt r pos → pos + 8 ≤ r.length → pos + 8 + lengthAt r pos < 2 ^ 64 →
      FieldAt r (pos + 8 + lengthAt r pos)

/-- The end of the string at `pos` is not a 64-bit number.  The length `2^64 - 8`, which leads back
    to `pos` itself, is not counted. -/
def Wraps (r : Bytes) (pos : ℕ) : Prop :=
  pos + 8 ≤ r.length ∧ 2 ^ 64 ≤ pos + 8 + lengthAt r pos ∧ lengthAt r pos ≠ 2 ^ 64 - 8

/-- No length field of the response wraps. -/
def NoWrap (r : Bytes) : Prop := ∀ pos, FieldAt r pos → ¬ Wraps r pos

/-- The string at `pos` ends before `pos`. -/
def WrapsBack (r : Bytes) (pos : ℕ) : Prop :=
  pos + 8 ≤ r.length ∧ 2 ^ 64 ≤ pos + 8 + lengthAt r pos ∧ lengthAt r pos < 2 ^ 64 - 8

section
variable (r : StdString)

theorem iteration_iff {pos next : ℕ} : Iteration r.1 pos next ↔
    pos + 8 ≤ r.1.length ∧ lengthAt r.1 pos ≠ 2 ^ 64 - 8 ∧
      next = (pos + 8 + lengthAt r.1 pos) % 2 ^ 64 := by
  constructor
  · rintro ⟨hpos, str, hok⟩
    rcases deserializeStringBigEndian_cases r hpos with ⟨he, -⟩ | ⟨str', he, hin, hl⟩
    · rw [he] at hok; cases hok
    · rw [he] at hok; cases hok
      exact ⟨hin, hl, rfl⟩
  · rintro ⟨hin, hl, rfl⟩
    have hpos : pos < r.1.length := by omega
    refine ⟨hpos, ?_⟩
    rcases deserializeStringBigEndian_cases r hpos with ⟨-, h | h⟩ | ⟨str, he, -⟩
    · omega
    · exact absurd h hl
    · exact ⟨str, he⟩

/-- Where an iteration leads, by the size of its length field. -/
theorem iteration_next {pos next : ℕ} (h : Iteration r.1 pos next) :
    (next = pos + 8 + lengthAt r.1 pos ∧ pos + 8 + lengthAt r.1 pos < 2 ^ 64) ∨
      (Wraps r.1 pos ∧ next + 2 ^ 64 = pos + 8 + lengthAt r.1 pos ∧ next < pos + 8) := by
  obtain ⟨hin, hl, hn⟩ := (iteration_iff r).1 h
  have hlt := lengthAt_lt hin
  have hr := r.length_lt
  rcases Nat.lt_or_ge (pos + 8 + lengthAt r.1 pos) (2 ^ 64) with hw | hw
  · left
    rw [Nat.mod_eq_of_lt hw] at hn
    exact ⟨hn, hw⟩
  · right
    refine ⟨⟨hin, hw, hl⟩, ?_, ?_⟩ <;> omega

variable {r}

theorem fieldAt_of_reached (hw : NoWrap r.1) {pos : ℕ} (h : Reached r.1 pos) : FieldAt r.1 pos := by
  induction h with
  | refl => exact .first
  | @tail pos next _ hstep ih =>
    rcases iteration_next r hstep with ⟨hn, hlt⟩ | ⟨hwraps, -⟩
    · rw [hn]; exact ih.next ((iteration_iff r).1 hstep).1 hlt
    · exact absurd hwraps (hw pos ih)

theorem fieldAt_reached {pos : ℕ} (h : FieldAt r.1 pos) : Reached r.1 pos := by
  induction h with
  | first => exact .refl
  | @next pos _ hin hlt ih =>
    refine ih.tail ((iteration_iff r).2 ⟨hin, ?_, (Nat.mod_eq_of_lt hlt).symm⟩)
    omega

/-- The loop ends if every length field leads forwards. -/
theorem parseDumpBlocksLoop_ends (hw : NoWrap r.1) {fuel : ℕ} :
    ∀ {pos : ℕ} {res : List Bytes}, Reached r.1 pos → (r.1.length - pos) / 8 < fuel →
      parseDumpBlocksLoop r.1 fuel pos res ≠ .outOfFuel := by
  induction fuel with
  | zero => intro pos res _ h; exact absurd h (Nat.not_lt_zero _)
  | succ fuel ih =>
    intro pos res hreach hfuel
    rw [parseDumpBlocksLoop]
    split_ifs with hpos
    · rcases deserializeStringBigEndian_cases r hpos with ⟨he, -⟩ | ⟨str, he, hin, -⟩
      · rw [he]; intro h; cases h
      · have hstep : Iteration r.1 pos _ := ⟨hpos, str, he⟩
        rw [he]
        refine ih (hreach.tail hstep) ?_
        rcases iteration_next r hstep with ⟨hn, -⟩ | ⟨hwraps, -⟩
        · omega
        · exact absurd hwraps (hw pos (fieldAt_of_reached hw hreach))
    · intro h; cases h

theorem progress_of_noWrap (hw : NoWrap r.1) : Progress r.1 where
  step pos hreach hpos := by
    rcases deserializeStringBigEndian_cases r hpos with ⟨he, -⟩ | ⟨str, he, -, -⟩
    · exact Or.inl ⟨_, he⟩
    · refine Or.inr ⟨str, _, he, ?_⟩
      rcases iteration_next r ⟨hpos, str, he⟩ with ⟨hn, -⟩ | ⟨hwraps, -⟩
      · omega
      · exact absurd hwraps (hw pos (fieldAt_of_reached hw hreach))
  ends := parseDumpBlocksLoop_ends hw .refl (Nat.lt_succ_self _)

/-- A length field that wraps is one that moves the position by less than its own size. -/
theorem noWrap_iff : NoWrap r.1 ↔
    ∀ pos next, Reached r.1 pos → Iteration r.1 pos next → pos + 8 ≤ next := by
  constructor
  · intro hw pos next hreach hstep
    rcases iteration_next r hstep with ⟨hn, -⟩ | ⟨hwraps, -⟩
    · omega
    · exact absurd hwraps (hw pos (fieldAt_of_reached hw hreach))
  · intro h pos hfield hwraps
    have hstep : Iteration r.1 pos _ := (iteration_iff r).2 ⟨hwraps.1, hwraps.2.2, rfl⟩
    have h8 := h pos _ (fieldAt_reached hfield) hstep
    rcases iteration_next r hstep with ⟨-, hlt⟩ | ⟨-, -, hlt⟩
    · exact absurd hlt (Nat.not_lt.2 hwraps.2.1)
    · omega

theorem not_wrapsBack_iff : (∀ pos, Reached r.1 pos → ¬ WrapsBack r.1 pos) ↔
    ∀ pos next, Reached r.1 pos → Iteration r.1 pos next → pos < next := by
  constructor
  · intro h pos next hreach hstep
    rcases iteration_next r hstep with ⟨hn, -⟩ | ⟨hwraps, hn, -⟩
    · omega
    · have hl : ¬ lengthAt r.1 pos < 2 ^ 64 - 8 := fun hl =>
        h pos hreach ⟨hwraps.1, hwraps.2.1, hl⟩
      have := hwraps.2.2
      omega
  · intro h pos hreach hback
    have hstep : Iteration r.1 pos _ :=
      (iteration_iff r).2 ⟨hback.1, Nat.ne_of_lt hback.2.2, rfl⟩
    have hlt := h pos _ hreach hstep
    have := hback.2
    omega

end

/-- **The loop ends unless a length field wraps.**  If none does, every iteration throws or
    advances and at most `|r| / 8` are completed; if one does, an iteration moves the position
    by less than the length field it has read.  The position never goes backwards iff no length
    field that is reached wraps so far. -/
theorem parseDumpBlocksBinary_progress (decompress : StdString → StdString) (response : StdString)
    (isCompress : Bool) :
    let r := (responseBytes decompress response isCompress).1
    (NoWrap r → Progress r ∧
      parseDumpBlocksBinary decompress (r.length / 8 + 1) response isCompress ≠ .outOfFuel) ∧
    (NoWrap r ↔ ∀ pos next, Reached r pos → Iteration r pos next → pos + 8 ≤ next) ∧
    ((∀ pos, Reached r pos → ¬ WrapsBack r pos) ↔
      ∀ pos next, Reached r pos → Iteration r pos next → pos < next) :=
  ⟨fun hw => ⟨progress_of_noWrap hw, (progress_of_noWrap hw).ends⟩, noWrap_iff, not_wrapsBack_iff⟩

/-- An empty string, and a length that leads back to it. -/
def endlessResponse : StdString :=
  ⟨List.replicate 8 0 ++ List.replicate 7 0xFF ++ [0xF0], by decide⟩

/-- On this response the loop goes back and forth and never ends. -/
theorem endlessResponse_not_progress :
    ¬ Progress endlessResponse.1 ∧
      ∀ decompress fuel, parseDumpBlocksBinary decompress fuel endlessResponse false = .outOfFuel := by
  have h0 : deserializeStringBigEndian endlessResponse.1 0 = .ok ([], 8) := by decide +kernel
  have h8 : deserializeStringBigEndian endlessResponse.1 8 = .ok ([], 0) := by decide +kernel
  have hlen : endlessResponse.1.length = 16 := by decide
  have hloop : ∀ fuel res, parseDumpBlocksLoop endlessResponse.1 fuel 0 res = .outOfFuel ∧
      parseDumpBlocksLoop endlessResponse.1 fuel 8 res = .outOfFuel := by
    intro fuel
    induction fuel with
    | zero => intro res; exact ⟨rfl, rfl⟩
    | succ fuel ih =>
      intro res
      constructor
      · rw [parseDumpBlocksLoop, hlen, if_pos (by norm_num), h0]; exact (ih _).2
      · rw [parseDumpBlocksLoop, hlen, if_pos (by norm_num), h8]; exact (ih _).1
  exact ⟨fun hp => hp.ends (hloop _ _).1, fun _ fuel => (hloop fuel []).1⟩

end TorrentNode
