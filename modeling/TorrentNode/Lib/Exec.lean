/-
  Outcomes of a program that may throw, or whose behaviour may be undefined.

  `Exec ε α` is the outcome of a computation: a value, an exception, undefined
  behaviour (a read outside every object, a division by zero), or fuel that
  ran out in the model of a loop.  `Safe x Q` is the weakest precondition of
  the postcondition `Q`: `x` stops, its behaviour is defined, and what it
  returns satisfies `Q`.  `safe_bind` makes it compositional in both
  directions, so the exact condition for safety can be computed from the text.

  `loop` iterates a step until it asks to stop; `safe_loop` reduces the safety of
  a loop to the safety of the iterations from the states it visits, and
  `loop_eq_ok_iff` says when it returns.

  `Buf` is a readable memory object at an address; `Buf.load` is the only way
  to read from it.
-/
import TorrentNode.Lib.Wire

open Wire

/-- The undefined behaviour of the modelled programs. -/
inductive Undef where
  /-- a read at an address outside the object -/
  | readOutside (addr : ℕ)
  | divideByZero
  /-- a violated precondition of a library -/
  | assertion
deriving DecidableEq, Repr

/-- The outcome of a computation. -/
inductive Exec (ε α : Type) where
  | ok (a : α)
  | throw (e : ε)
  | undef (u : Undef)
  | outOfFuel
deriving DecidableEq, Repr

namespace Exec

variable {ε α β σ : Type}

def bind (x : Exec ε α) (f : α → Exec ε β) : Exec ε β :=
  match x with
  | ok a => f a
  | throw e => throw e
  | undef u => undef u
  | outOfFuel => outOfFuel

instance : Monad (Exec ε) where
  pure := ok
  bind := bind

/-- A computation without undefined behaviour. -/
def ofExcept : Except ε α → Exec ε α
  | .ok a => ok a
  | .error e => throw e

/-- Throw `e` unless `c` holds. -/
def check (c : Prop) [Decidable c] (e : ε) : Exec ε Unit := if c then ok () else throw e

/-- Catch the exception of a computation. -/
def attempt : Exec ε α → Exec ε (Except ε α)
  | ok a => ok (.ok a)
  | throw e => ok (.error e)
  | undef u => undef u
  | outOfFuel => outOfFuel

@[simp] theorem ok_bind (a : α) (f : α → Exec ε β) : (ok a >>= f) = f a := rfl

@[simp] theorem throw_bind (e : ε) (f : α → Exec ε β) : ((throw e : Exec ε α) >>= f) = throw e := rfl

@[simp] theorem undef_bind (u : Undef) (f : α → Exec ε β) :
    ((undef u : Exec ε α) >>= f) = undef u := rfl

@[simp] theorem outOfFuel_bind (f : α → Exec ε β) :
    ((outOfFuel : Exec ε α) >>= f) = outOfFuel := rfl

@[simp] theorem pure_eq_ok (a : α) : (pure a : Exec ε α) = ok a := rfl

theorem check_pos {c : Prop} [Decidable c] (h : c) (e : ε) : check c e = ok () := if_pos h

theorem check_neg {c : Prop} [Decidable c] (h : ¬ c) (e : ε) : check c e = throw e := if_neg h

theorem bind_eq_ok {x : Exec ε α} {f : α → Exec ε β} {b : β} :
    (x >>= f) = ok b ↔ ∃ a, x = ok a ∧ f a = ok b := by
  cases x <;> simp

theorem attempt_eq_ok {x : Exec ε α} {a : α} : attempt x = ok (.ok a) ↔ x = ok a := by
  cases x <;> simp [attempt]

theorem attempt_ne_throw (x : Exec ε α) (e : ε) : attempt x ≠ throw e := by
  cases x <;> simp [attempt]

theorem bind_eq_throw {x : Exec ε α} {f : α → Exec ε β} {e : ε} :
    (x >>= f) = throw e ↔ x = throw e ∨ ∃ a, x = ok a ∧ f a = throw e := by
  cases x <;> simp

instance : LawfulMonad (Exec ε) :=
  LawfulMonad.mk' (Exec ε) (by intro _ x; cases x <;> rfl) (by intros; rfl)
    (by intro _ _ _ x _ _; cases x <;> rfl)

/-- A list of computations returns what its members return. -/
theorem mapM_eq_ok {f : α → Exec ε β} {as : List α} {bs : List β} :
    as.mapM f = ok bs ↔ List.Forall₂ (fun a b => f a = ok b) as bs := by
  induction as generalizing bs with
  | nil => rw [List.forall₂_nil_left_iff, List.mapM_nil, pure_eq_ok, ok.injEq, eq_comm]
  | cons a as ih =>
    rw [List.forall₂_cons_left_iff, List.mapM_cons]
    constructor
    · intro h
      obtain ⟨b, hb, h⟩ := bind_eq_ok.1 h
      obtain ⟨bs', hbs, h⟩ := bind_eq_ok.1 h
      cases h
      exact ⟨b, bs', hb, ih.1 hbs, rfl⟩
    · rintro ⟨b, bs', hb, hbs, rfl⟩
      rw [hb, ok_bind, ih.2 hbs]
      rfl

/-- What a list of computations returns comes from one of them. -/
theorem mem_of_mapM_eq_ok {f : α → Exec ε β} {as : List α} {bs : List β} (h : as.mapM f = ok bs)
    {b : β} (hb : b ∈ bs) : ∃ a ∈ as, f a = ok b := by
  have hall := mapM_eq_ok.1 h
  clear h
  induction hall with
  | nil => cases hb
  | @cons a b' as bs hab _ ih =>
    rcases List.mem_cons.1 hb with rfl | hb
    · exact ⟨a, List.mem_cons_self, hab⟩
    · obtain ⟨a', ha', hf⟩ := ih hb
      exact ⟨a', List.mem_cons_of_mem _ ha', hf⟩

theorem mapM_ne_throw {f : α → Exec ε β} (hf : ∀ a e, f a ≠ throw e) (as : List α) (e : ε) :
    as.mapM f ≠ throw e := by
  induction as with
  | nil => exact fun h => by cases h
  | cons a as ih =>
    rw [List.mapM_cons]
    intro h
    rcases bind_eq_throw.1 h with h | ⟨b, -, h⟩
    · exact hf a e h
    rcases bind_eq_throw.1 h with h | ⟨bs, -, h⟩
    · exact ih h
    · cases h

/-- Two steps for each element of a list, of which the first ones all return. -/
theorem mapM_bind_eq {γ : Type} {f : α → Exec ε β} (g : β → Exec ε γ) {as : List α} {bs : List β}
    (h : as.mapM f = ok bs) : (as.mapM fun a => f a >>= g) = bs.mapM g := by
  induction as generalizing bs with
  | nil =>
    cases h
    rfl
  | cons a as ih =>
    rw [List.mapM_cons] at h ⊢
    obtain ⟨b, hb, h⟩ := bind_eq_ok.1 h
    obtain ⟨bs', hbs, h⟩ := bind_eq_ok.1 h
    cases h
    rw [hb, ok_bind, List.mapM_cons, ih hbs]

/-! ## Safety -/

/-- `x` stops with defined behaviour, and every value it returns satisfies `Q`. -/
def Safe (x : Exec ε α) (Q : α → Prop) : Prop :=
  match x with
  | ok a => Q a
  | throw _ => True
  | undef _ => False
  | outOfFuel => False

@[simp] theorem safe_ok (a : α) (Q : α → Prop) : Safe (ok a : Exec ε α) Q ↔ Q a := Iff.rfl

@[simp] theorem safe_throw (e : ε) (Q : α → Prop) : Safe (throw e : Exec ε α) Q ↔ True := Iff.rfl

@[simp] theorem safe_undef (u : Undef) (Q : α → Prop) : Safe (undef u : Exec ε α) Q ↔ False := Iff.rfl

theorem safe_bind (x : Exec ε α) (f : α → Exec ε β) (Q : β → Prop) :
    Safe (x >>= f) Q ↔ Safe x fun a => Safe (f a) Q := by
  cases x <;> exact Iff.rfl

theorem safe_check (c : Prop) [Decidable c] (e : ε) (Q : Unit → Prop) :
    Safe (check c e) Q ↔ (c → Q ()) := by
  by_cases h : c <;> simp [check, h]

theorem Safe.mono {x : Exec ε α} {P Q : α → Prop} (h : Safe x P) (hPQ : ∀ a, P a → Q a) :
    Safe x Q := by
  cases x with
  | ok a => exact hPQ a h
  | throw e => trivial
  | undef u => exact h
  | outOfFuel => exact h

theorem Safe.of_ok {x : Exec ε α} {Q : α → Prop} {a : α} (h : Safe x Q) (hx : x = ok a) : Q a := by
  subst hx; exact h

theorem safe_of_eq_ok {x : Exec ε α} {a : α} (hx : x = ok a) : Safe x fun _ => True := by
  subst hx; trivial

theorem Safe.iff_forall {x : Exec ε α} {P Q : α → Prop} (h : Safe x P) :
    Safe x Q ↔ ∀ a, x = ok a → Q a := by
  cases x with
  | ok a => simp
  | throw e => simp
  | undef u => exact h.elim
  | outOfFuel => exact h.elim

/-! ## Loops -/

/-- Iterate `step`, which gives the next state and whether there is another iteration. -/
def loop (step : σ → Exec ε (σ × Bool)) : ℕ → σ → Exec ε σ
  | 0, _ => outOfFuel
  | fuel + 1, s => step s >>= fun r => if r.2 then loop step fuel r.1 else ok r.1

/-- The states before the iterations of a loop. -/
inductive Visits (step : σ → Exec ε (σ × Bool)) (s : σ) : σ → Prop where
  | first : Visits step s s
  | next {t t' : σ} : Visits step s t → step t = ok (t', true) → Visits step s t'

theorem Visits.head {step : σ → Exec ε (σ × Bool)} {s s' t : σ} (h : step s = ok (s', true))
    (ht : Visits step s' t) : Visits step s t := by
  induction ht with
  | first => exact .next .first h
  | next _ hstep ih => exact .next ih hstep

theorem visits_iff {step : σ → Exec ε (σ × Bool)} {s t : σ} :
    Visits step s t ↔ t = s ∨ ∃ s', step s = ok (s', true) ∧ Visits step s' t := by
  constructor
  · intro h
    induction h with
    | first => exact Or.inl rfl
    | next _ hstep ih =>
      rcases ih with rfl | ⟨s', hs', ht⟩
      · exact Or.inr ⟨_, hstep, .first⟩
      · exact Or.inr ⟨s', hs', .next ht hstep⟩
  · rintro (rfl | ⟨s', hs', ht⟩)
    · exact .first
    · exact ht.head hs'

/-- A loop that makes progress is safe if and only if its iterations are. -/
theorem safe_loop {step : σ → Exec ε (σ × Bool)} {μ : σ → ℕ}
    (hμ : ∀ t t', step t = ok (t', true) → μ t' < μ t) (Q : σ → Prop) {fuel : ℕ} {s : σ}
    (hfuel : μ s < fuel) :
    Safe (loop step fuel s) Q ↔
      ∀ t, Visits step s t → Safe (step t) fun r => r.2 = false → Q r.1 := by
  induction fuel generalizing s with
  | zero => omega
  | succ fuel ih =>
    rw [loop, safe_bind]
    rcases hs : step s with ⟨s', again⟩ | e | u | _
    · cases again with
      | true =>
        have hlt := hμ s s' hs
        show Safe (loop step fuel s') Q ↔ _
        rw [ih (by omega)]
        constructor
        · intro h t ht
          rcases visits_iff.1 ht with rfl | ⟨s'', hs'', ht⟩
          · rw [hs]; exact fun h => by cases h
          · rw [hs] at hs''
            cases hs''
            exact h t ht
        · exact fun h t ht => h t (ht.head hs)
      | false =>
        constructor
        · intro h t ht
          rcases visits_iff.1 ht with rfl | ⟨s'', hs'', -⟩
          · rw [hs]; exact fun _ => h
          · rw [hs] at hs''; cases hs''
        · intro h
          have hfirst := h s .first
          rw [hs] at hfirst
          exact hfirst rfl
    · constructor
      · intro _ t ht
        rcases visits_iff.1 ht with rfl | ⟨s'', hs'', -⟩
        · rw [hs]; trivial
        · rw [hs] at hs''; cases hs''
      · exact fun _ => trivial
    · refine ⟨fun h => h.elim, fun h => ?_⟩
      have hfirst := h s .first
      rw [hs] at hfirst
      exact hfirst
    · refine ⟨fun h => h.elim, fun h => ?_⟩
      have hfirst := h s .first
      rw [hs] at hfirst
      exact hfirst

/-- A property of the states before the iterations, and what the last iteration makes of it. -/
theorem loop_ends {step : σ → Exec ε (σ × Bool)} {P Q : σ → Prop}
    (hstep : ∀ s t, P s → step s = ok (t, true) → P t)
    (hend : ∀ s t, P s → step s = ok (t, false) → Q t) {fuel : ℕ} {s t : σ} (hs : P s)
    (h : loop step fuel s = ok t) : Q t := by
  induction fuel generalizing s with
  | zero => cases h
  | succ fuel ih =>
    obtain ⟨⟨u, again⟩, hu, h⟩ := bind_eq_ok.1 h
    cases again with
    | true => exact ih (hstep s u hs hu) h
    | false =>
      cases h
      exact hend s _ hs hu

/-- An invariant of the iterations holds when the loop stops. -/
theorem loop_invariant {step : σ → Exec ε (σ × Bool)} {P : σ → Prop}
    (hstep : ∀ s t again, P s → step s = ok (t, again) → P t) {fuel : ℕ} {s t : σ} (hs : P s)
    (h : loop step fuel s = ok t) : P t :=
  loop_ends (fun s t => hstep s t true) (fun s t => hstep s t false) hs h

/-- An invariant of the iterations holds in every visited state. -/
theorem Visits.invariant {step : σ → Exec ε (σ × Bool)} {P : σ → Prop}
    (hstep : ∀ t t', P t → step t = ok (t', true) → P t') {s t : σ} (hs : P s)
    (h : Visits step s t) : P t := by
  induction h with
  | first => exact hs
  | next _ hnext ih => exact hstep _ _ ih hnext

/-- The loop leaves the state `s` behind and stops in `t`. -/
inductive Stops (step : σ → Exec ε (σ × Bool)) : σ → σ → Prop where
  | last {s t : σ} : step s = ok (t, false) → Stops step s t
  | next {s u t : σ} : step s = ok (u, true) → Stops step u t → Stops step s t

/-- A loop that makes progress returns where it stops, whatever the fuel. -/
theorem loop_eq_ok_iff {step : σ → Exec ε (σ × Bool)} {μ : σ → ℕ}
    (hμ : ∀ t t', step t = ok (t', true) → μ t' < μ t) {fuel : ℕ} {s t : σ} (hfuel : μ s < fuel) :
    loop step fuel s = ok t ↔ Stops step s t := by
  constructor
  · intro h
    clear hfuel
    induction fuel generalizing s with
    | zero => cases h
    | succ fuel ih =>
      obtain ⟨⟨u, again⟩, hstep, h⟩ := bind_eq_ok.1 h
      cases again with
      | true => exact .next hstep (ih h)
      | false =>
        cases h
        exact .last hstep
  · intro h
    induction h generalizing fuel with
    | last hstep =>
      obtain ⟨fuel, rfl⟩ := Nat.exists_eq_succ_of_ne_zero (Nat.ne_of_gt (Nat.zero_lt_of_lt hfuel))
      rw [loop, hstep]
      rfl
    | next hstep _ ih =>
      obtain ⟨fuel, rfl⟩ := Nat.exists_eq_succ_of_ne_zero (Nat.ne_of_gt (Nat.zero_lt_of_lt hfuel))
      have hlt := hμ _ _ hstep
      rw [loop, hstep]
      exact ih (by omega)

end Exec

/-! ## Memory objects -/

/-- A readable object `[beginPos, endPos)` of the process.  Objects lie in the lower half of the
    64-bit address space, where user-space addresses are. -/
structure Buf where
  beginPos : ℕ
  bytes : Bytes
  inUserSpace : beginPos + bytes.length ≤ 2 ^ 63

namespace Buf

variable {ε : Type} (b : Buf)

/-- The address just behind the object. -/
def endPos : ℕ := b.beginPos + b.bytes.length

/-- The address range `[addr, addr + n)` lies in the object. -/
def Inside (addr n : ℕ) : Prop := b.beginPos ≤ addr ∧ addr + n ≤ b.endPos

instance (addr n : ℕ) : Decidable (b.Inside addr n) := inferInstanceAs (Decidable (_ ∧ _))

/-- Read `n` bytes from `addr` on. -/
def load (addr n : ℕ) : Exec ε Bytes :=
  if n = 0 then .ok []
  else if b.Inside addr n then .ok (slice b.bytes (addr - b.beginPos) n)
  else .undef (.readOutside (if b.Inside addr 1 then b.endPos else addr))

theorem load_inside {addr n : ℕ} (h : b.Inside addr n) :
    (b.load addr n : Exec ε Bytes) = .ok (slice b.bytes (addr - b.beginPos) n) := by
  by_cases hn : n = 0
  · simp [load, hn, slice]
  · simp [load, hn, h]

theorem safe_load (addr n : ℕ) (Q : Bytes → Prop) :
    Exec.Safe (b.load addr n : Exec ε Bytes) Q ↔
      (n ≠ 0 → b.Inside addr n) ∧ Q (slice b.bytes (addr - b.beginPos) n) := by
  by_cases hn : n = 0
  · simp [load, hn, slice]
  · by_cases h : b.Inside addr n <;> simp [load, hn, h]

theorem load_standsAt {pos : ℕ} {xs : Bytes} (h : StandsAt b.bytes pos xs) :
    (b.load (b.beginPos + pos) xs.length : Exec ε Bytes) = .ok xs := by
  by_cases hx : xs = []
  · simp [load, hx]
  · have hin : b.Inside (b.beginPos + pos) xs.length := by
      have := h.le_length hx
      exact ⟨by omega, by simp only [endPos]; omega⟩
    rw [load_inside b hin, Nat.add_sub_cancel_left, h.slice_eq]

end Buf
