/-
  Parent pointers.

  `up x` is the parent of `x`, if it has one.  `EndsAfter up x n` says that `n`
  steps up from `x` lead to an element without a parent; in a forest every walk
  up ends (`IsForest`).

  `EndsAfter.lt_card`: a walk up visits each element of a closed set at most once.
  `isForest_update_iff`: giving a root a parent keeps a forest if and only if
  the root is not above its new parent.
-/
import Mathlib.Data.Finset.Card
import Mathlib.Logic.Relation
import Mathlib.Logic.Function.Basic

namespace Forest

variable {α : Type*}

/-- `n` steps up from an element lead to one without a parent. -/
inductive EndsAfter (up : α → Option α) : α → ℕ → Prop where
  | root {x : α} : up x = none → EndsAfter up x 0
  | step {x y : α} {n : ℕ} : up x = some y → EndsAfter up y n → EndsAfter up x (n + 1)

/-- Every walk up ends. -/
def IsForest (up : α → Option α) : Prop := ∀ x, ∃ n, EndsAfter up x n

/-- `y` is `x`, or is met on the walk up from `x`. -/
def Above (up : α → Option α) : α → α → Prop :=
  Relation.ReflTransGen fun x y => up x = some y

variable {up : α → Option α}

theorem EndsAfter.unique {x : α} {n m : ℕ} (h : EndsAfter up x n) (h' : EndsAfter up x m) :
    n = m := by
  induction h generalizing m with
  | root hx =>
    cases h' with
    | root => rfl
    | step hy => rw [hx] at hy; cases hy
  | step hx _ ih =>
    cases h' with
    | root hy => rw [hx] at hy; cases hy
    | step hy h' =>
      rw [hx] at hy
      cases hy
      rw [ih h']

/-- The walk up from an element above `x` is the rest of the walk up from `x`. -/
theorem EndsAfter.above {x y : α} {n : ℕ} (h : EndsAfter up x n) (hxy : Above up x y) :
    ∃ m ≤ n, EndsAfter up y m := by
  induction hxy using Relation.ReflTransGen.head_induction_on generalizing n with
  | refl => exact ⟨n, le_rfl, h⟩
  | head hstep _ ih =>
    cases h with
    | root hx => rw [hx] at hstep; cases hstep
    | step hx h =>
      rw [hx] at hstep
      cases hstep
      obtain ⟨m, hm, hy⟩ := ih h
      exact ⟨m, hm.trans (Nat.le_succ _), hy⟩

/-- Every smaller height stands on the walk up. -/
theorem EndsAfter.exists_height {s : Finset α} (hs : ∀ x ∈ s, ∀ y, up x = some y → y ∈ s) {x : α}
    {n : ℕ} (hx : x ∈ s) (h : EndsAfter up x n) : ∀ k ≤ n, ∃ y ∈ s, EndsAfter up y k := by
  induction h with
  | @root x hroot =>
    intro k hk
    rw [Nat.le_zero.1 hk]
    exact ⟨x, hx, .root hroot⟩
  | @step x y n hstep hend ih =>
    intro k hk
    rcases Nat.lt_or_eq_of_le hk with hk | rfl
    · exact ih (hs x hx y hstep) k (Nat.lt_succ_iff.1 hk)
    · exact ⟨x, hx, .step hstep hend⟩

/-- **A walk up** is shorter than the number of the elements. -/
theorem EndsAfter.lt_card {s : Finset α} (hs : ∀ x ∈ s, ∀ y, up x = some y → y ∈ s) {x : α}
    {n : ℕ} (hx : x ∈ s) (h : EndsAfter up x n) : n < s.card := by
  have : Nonempty α := ⟨x⟩
  choose! f hf hend using h.exists_height hs hx
  have hinj : Set.InjOn f (Finset.range (n + 1) : Set ℕ) := by
    intro k hk k' hk' heq
    simp only [Finset.coe_range, Set.mem_Iio, Nat.lt_succ_iff] at hk hk'
    exact (hend k hk).unique (heq ▸ hend k' hk')
  have hcard := Finset.card_le_card_of_injOn f
    (fun k hk => hf k (Nat.lt_succ_iff.1 (Finset.mem_range.1 hk))) hinj
  rwa [Finset.card_range] at hcard

/-! ## Adding a parent -/

section
variable [DecidableEq α] {p c : α}

/-- Walks up that do not begin at the root `c` are not changed by a parent of `c`. -/
theorem above_update (hc : up c = none) {x : α} (h : Above up x c) :
    Above (Function.update up c (some p)) x c := by
  induction h using Relation.ReflTransGen.head_induction_on with
  | refl => exact .refl
  | @head x y hstep _ ih =>
    refine .head ?_ ih
    have hne : x ≠ c := by
      rintro rfl
      rw [hc] at hstep
      cases hstep
    rwa [Function.update_of_ne hne]

theorem EndsAfter.of_update (hc : up c = none) {x : α} {n : ℕ}
    (h : EndsAfter (Function.update up c (some p)) x n) : ∃ m, EndsAfter up x m := by
  induction h with
  | @root x hroot =>
    by_cases hx : x = c
    · exact ⟨0, .root (hx ▸ hc)⟩
    · rw [Function.update_of_ne hx] at hroot
      exact ⟨0, .root hroot⟩
  | @step x y n hstep _ ih =>
    by_cases hx : x = c
    · exact ⟨0, .root (hx ▸ hc)⟩
    · rw [Function.update_of_ne hx] at hstep
      obtain ⟨m, hm⟩ := ih
      exact ⟨m + 1, .step hstep hm⟩

/-- A walk up that does not meet `c` stays as it is; the others go on from `c`. -/
theorem EndsAfter.update {q : Option α} {x : α} {n : ℕ} (h : EndsAfter up x n) :
    EndsAfter (Function.update up c q) x n ∨ Above up x c ∧
      ∀ m, EndsAfter (Function.update up c q) c m → ∃ k, EndsAfter (Function.update up c q) x k := by
  induction h with
  | @root x hroot =>
    by_cases hx : x = c
    · exact Or.inr ⟨hx ▸ .refl, fun m hm => ⟨m, hx ▸ hm⟩⟩
    · exact Or.inl (.root (by rwa [Function.update_of_ne hx]))
  | @step x y n hstep _ ih =>
    by_cases hx : x = c
    · exact Or.inr ⟨hx ▸ .refl, fun m hm => ⟨m, hx ▸ hm⟩⟩
    · have hstep' : Function.update up c q x = some y := by rwa [Function.update_of_ne hx]
      rcases ih with hend | ⟨habove, hgo⟩
      · exact Or.inl (.step hstep' hend)
      · refine Or.inr ⟨.head hstep habove, fun m hm => ?_⟩
        obtain ⟨k, hk⟩ := hgo m hm
        exact ⟨k + 1, .step hstep' hk⟩

/-- **A new parent of a root** keeps the forest unless the root is above it. -/
theorem isForest_update_iff (hc : up c = none) :
    IsForest (Function.update up c (some p)) ↔ IsForest up ∧ ¬ Above up p c := by
  have hup : Function.update up c (some p) c = some p := Function.update_self ..
  constructor
  · intro hforest
    refine ⟨fun x => (hforest x).elim fun n hn => hn.of_update hc, fun habove => ?_⟩
    -- the walk up from `c` would be longer than itself
    obtain ⟨n, hn⟩ := hforest p
    obtain ⟨m, hm, hend⟩ := hn.above (above_update hc habove)
    have hlength := hend.unique (.step hup hn)
    omega
  · rintro ⟨hforest, habove⟩ x
    obtain ⟨n, hn⟩ := hforest p
    rcases hn.update (c := c) (q := some p) with hp | ⟨hpc, -⟩
    · obtain ⟨m, hm⟩ := hforest x
      rcases hm.update (c := c) (q := some p) with hx | ⟨-, hgo⟩
      · exact ⟨m, hx⟩
      · exact hgo (n + 1) (.step hup hp)
    · exact absurd hpc habove

end

end Forest
