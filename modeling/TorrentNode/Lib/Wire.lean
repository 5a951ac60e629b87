/-
  Byte strings and fixed-width integers.

  A byte string is a `List UInt8`, ordered bytewise (the order of `memcmp`,
  shorter first).  `leBytes w n` and `beBytes w n` write the low `w` bytes of
  `n`; `leNat` and `beNat` read a byte string back as a number.
-/
import Mathlib

namespace Wire

/-- A byte string. -/
abbrev Bytes := List UInt8

/-- Bytes are ordered by value. -/
instance byteLinearOrder : LinearOrder UInt8 where
  le_refl := UInt8.le_refl
  le_trans _ _ _ := UInt8.le_trans
  le_antisymm _ _ := UInt8.le_antisymm
  le_total := UInt8.le_total
  lt_iff_le_not_ge a b := by
    rw [UInt8.lt_iff_toNat_lt, UInt8.le_iff_toNat_le, UInt8.le_iff_toNat_le]; omega
  toDecidableLE := inferInstance
  toDecidableLT := inferInstance

-- What sorting and searching ask of byte strings.
instance bytesTrans : IsTrans Bytes fun a b => a ≤ b := inferInstance

instance bytesAntisymm : Std.Antisymm fun a b : Bytes => a ≤ b := inferInstance

instance bytesTotal : Std.Total fun a b : Bytes => a ≤ b := inferInstance

instance bytesLawfulBEq : LawfulBEq Bytes := inferInstance

/-- The bytes of a text given by its characters. -/
def ascii (cs : List Char) : Bytes := cs.map Char.toUInt8

/-- The bytes of an ASCII literal. -/
def lit (s : String) : Bytes := ascii s.toList

/-! ## Integers -/

/-- The low `w` bytes of `n`, the least significant one first. -/
def leBytes : ℕ → ℕ → Bytes
  | 0, _ => []
  | w + 1, n => UInt8.ofNat n :: leBytes w (n / 256)

/-- The number written in a byte string, the least significant byte first. -/
def leNat : Bytes → ℕ
  | [] => 0
  | b :: bs => b.toNat + 256 * leNat bs

/-- The low `w` bytes of `n`, the most significant one first. -/
def beBytes (w n : ℕ) : Bytes := (leBytes w n).reverse

/-- The number written in a byte string, the most significant byte first. -/
def beNat (bs : Bytes) : ℕ := bs.foldl (fun val b => val * 256 + b.toNat) 0

@[simp] theorem leBytes_length (w n : ℕ) : (leBytes w n).length = w := by
  induction w generalizing n with
  | zero => rfl
  | succ w ih => simp [leBytes, ih]

@[simp] theorem beBytes_length (w n : ℕ) : (beBytes w n).length = w := by simp [beBytes]

theorem leNat_leBytes (w n : ℕ) : leNat (leBytes w n) = n % 256 ^ w := by
  induction w generalizing n with
  | zero => simp [leBytes, leNat, Nat.mod_one]
  | succ w ih =>
    have hb : (UInt8.ofNat n).toNat = n % 256 := by simp
    rw [leBytes, leNat, ih, hb, pow_succ' 256, Nat.mod_mul]

theorem leNat_lt (bs : Bytes) : leNat bs < 256 ^ bs.length := by
  induction bs with
  | nil => simp [leNat]
  | cons b bs ih =>
    have hb := b.toNat_lt
    rw [leNat, List.length_cons, pow_succ']; omega

theorem beNat_eq_leNat_reverse (bs : Bytes) : beNat bs = leNat bs.reverse := by
  induction bs using List.reverseRecOn with
  | nil => rfl
  | append_singleton bs b ih =>
    have h : beNat (bs ++ [b]) = beNat bs * 256 + b.toNat := by simp [beNat]
    rw [h, ih, List.reverse_append, List.reverse_singleton, List.singleton_append, leNat]; ring

theorem beNat_lt (bs : Bytes) : beNat bs < 256 ^ bs.length := by
  rw [beNat_eq_leNat_reverse]; simpa using leNat_lt bs.reverse

theorem beNat_beBytes {w n : ℕ} (h : n < 256 ^ w) : beNat (beBytes w n) = n := by
  rw [beNat_eq_leNat_reverse, beBytes, List.reverse_reverse, leNat_leBytes, Nat.mod_eq_of_lt h]

theorem leNat_leBytes_of_lt {w n : ℕ} (h : n < 256 ^ w) : leNat (leBytes w n) = n := by
  rw [leNat_leBytes, Nat.mod_eq_of_lt h]

theorem leBytes_leNat (bs : Bytes) : leBytes bs.length (leNat bs) = bs := by
  induction bs with
  | nil => rfl
  | cons b bs ih =>
    have hb := b.toNat_lt
    have hlow : UInt8.ofNat (b.toNat + 256 * leNat bs) = b := by
      apply UInt8.toNat_inj.1
      rw [UInt8.toNat_ofNat']
      omega
    rw [leNat, List.length_cons, leBytes, hlow,
      show (b.toNat + 256 * leNat bs) / 256 = leNat bs by omega, ih]

/-! ## Slices -/

/-- The `n` bytes of `bs` from position `pos` on (fewer at the end of `bs`). -/
def slice (bs : Bytes) (pos n : ℕ) : Bytes := (bs.drop pos).take n

theorem slice_length {bs : Bytes} {pos n : ℕ} (h : pos + n ≤ bs.length) :
    (slice bs pos n).length = n := by
  simp only [slice, List.length_take, List.length_drop]; omega

/-- The bytes of `xs` stand in `bs` at position `pos`. -/
def StandsAt (bs : Bytes) (pos : ℕ) (xs : Bytes) : Prop := xs <+: bs.drop pos

theorem standsAt_append {bs : Bytes} {pos : ℕ} {xs ys : Bytes} :
    StandsAt bs pos (xs ++ ys) ↔ StandsAt bs pos xs ∧ StandsAt bs (pos + xs.length) ys := by
  simp only [StandsAt, ← List.drop_drop]
  constructor
  · rintro ⟨zs, hz⟩
    refine ⟨⟨ys ++ zs, by rw [← hz, List.append_assoc]⟩, ⟨zs, ?_⟩⟩
    rw [← hz, List.append_assoc, List.drop_left]
  · rintro ⟨⟨us, hu⟩, ⟨zs, hz⟩⟩
    rw [← hu, List.drop_left] at hz
    exact ⟨zs, by rw [← hu, ← hz, List.append_assoc]⟩

theorem StandsAt.slice_eq {bs : Bytes} {pos : ℕ} {xs : Bytes} (h : StandsAt bs pos xs) :
    slice bs pos xs.length = xs := (List.prefix_iff_eq_take.1 h).symm

theorem StandsAt.le_length {bs : Bytes} {pos : ℕ} {xs : Bytes} (h : StandsAt bs pos xs)
    (hx : xs ≠ []) : pos + xs.length ≤ bs.length := by
  have h1 := h.length_le
  have h2 := List.length_pos_iff.2 hx
  rw [List.length_drop] at h1; omega

/-- A part of what stands at a position. -/
theorem StandsAt.slice_part {bs : Bytes} {pos : ℕ} {xs : Bytes} (h : StandsAt bs pos xs)
    {off n : ℕ} (hn : off + n ≤ xs.length) : slice bs (pos + off) n = slice xs off n := by
  obtain ⟨zs, hz⟩ := h
  unfold slice
  rw [← List.drop_drop, ← hz, List.drop_append_of_le_length (by omega),
    List.take_append_of_le_length (by rw [List.length_drop]; omega)]

/-- What stands in a byte string stays when bytes are appended. -/
theorem StandsAt.append {bs : Bytes} {pos : ℕ} {xs : Bytes} (h : StandsAt bs pos xs)
    (hpos : pos ≤ bs.length) (ys : Bytes) : StandsAt (bs ++ ys) pos xs := by
  unfold StandsAt
  rw [List.drop_append_of_le_length hpos]
  exact h.trans (List.prefix_append _ _)

theorem standsAt_self (bs : Bytes) : StandsAt bs 0 bs := List.prefix_rfl

theorem standsAt_zero_append (xs ys : Bytes) : StandsAt (xs ++ ys) 0 xs := ⟨ys, rfl⟩

/-! ## Key ranges -/

section
variable {α : Type} [LinearOrder α]

/-- The lists that begin with `p ++ [x]` are those from it up to the same list with the next `y`. -/
theorem prefix_iff_range {x y : α} (hxy : x ⋖ y) (p k : List α) :
    p ++ [x] <+: k ↔ p ++ [x] ≤ k ∧ k < p ++ [y] := by
  rw [← not_lt]
  induction p generalizing k with
  | nil =>
    cases k with
    | nil => simp
    | cons a k =>
      simp only [List.nil_append, List.cons_prefix_cons, List.nil_prefix, and_true,
        List.cons_lt_cons_iff, List.not_lt_nil, and_false, or_false, not_lt]
      constructor
      · rintro rfl; exact ⟨le_rfl, hxy.1⟩
      · rintro ⟨h1, h2⟩
        exact h1.antisymm (not_lt.1 fun h => hxy.2 h h2)
  | cons b p ih =>
    cases k with
    | nil => simp
    | cons a k =>
      simp only [List.cons_append, List.cons_prefix_cons, List.cons_lt_cons_iff, ih, not_or, not_and,
        not_lt]
      constructor
      · rintro ⟨rfl, h1, h2⟩; exact ⟨⟨le_rfl, fun _ => h1⟩, Or.inr ⟨rfl, h2⟩⟩
      · rintro ⟨⟨h1, h2⟩, h3 | ⟨rfl, h3⟩⟩
        · exact absurd h3 (not_lt.2 h1)
        · exact ⟨rfl, h2 rfl, h3⟩

/-- The elements of a sorted list from `a` on. -/
def seek (l : List α) (a : α) : List α := l.dropWhile (· < a)

theorem pairwise_seek {l : List α} {r : α → α → Prop} (hl : l.Pairwise r) (a : α) :
    (seek l a).Pairwise r := hl.sublist (List.dropWhile_sublist _)

theorem mem_seek {l : List α} (hl : l.Pairwise (· ≤ ·)) (a x : α) :
    x ∈ seek l a ↔ x ∈ l ∧ a ≤ x := by
  unfold seek
  induction l with
  | nil => simp
  | cons b l ih =>
    rw [List.pairwise_cons] at hl
    rw [List.dropWhile_cons]
    by_cases hb : b < a
    · rw [if_pos (by simpa using hb), ih hl.2, List.mem_cons]
      constructor
      · rintro ⟨h1, h2⟩; exact ⟨Or.inr h1, h2⟩
      · rintro ⟨rfl | h1, h2⟩
        · exact absurd h2 (not_le.2 hb)
        · exact ⟨h1, h2⟩
    · rw [if_neg (by simpa using hb)]
      constructor
      · intro hx
        refine ⟨hx, ?_⟩
        rcases List.mem_cons.1 hx with rfl | hx'
        · exact not_lt.1 hb
        · exact (not_lt.1 hb).trans (hl.1 x hx')
      · exact fun hx => hx.1

end

end Wire
