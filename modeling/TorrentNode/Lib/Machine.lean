/-
  Machines driven by actions.

  A machine is a partial step function: `step s a` is the state after the action
  `a`, if the action is possible in `s`.  The scheduler, the environment and the
  failures are part of the actions, so the runs of a machine are the lists of
  actions.  `runs_invariant` is the rule for invariants, `runs_invariant_along` the one for
  runs whose actions are restricted, `runs_invariant_yields` the one for invariants that speak
  of what happened before, `runs_map` the one for two machines in lockstep.

  A pool of threads is the list of their states.  What the threads hold together
  is a sum over the pool, and `sum_set` says how it changes when one thread moves.
-/
import Mathlib

namespace Machine

variable {σ α : Type}

/-- The state after a list of actions, if each of them is possible. -/
def runs (step : σ → α → Option σ) : σ → List α → Option σ
  | s, [] => some s
  | s, a :: as => (step s a).bind fun s' => runs step s' as

theorem runs_append {step : σ → α → Option σ} (s : σ) (as bs : List α) :
    runs step s (as ++ bs) = (runs step s as).bind fun s' => runs step s' bs := by
  induction as generalizing s with
  | nil => rfl
  | cons a as ih => simp only [List.cons_append, runs, Option.bind_assoc, ih]

/-- A property that every step keeps holds after every run. -/
theorem runs_invariant {step : σ → α → Option σ} {P : σ → Prop}
    (hstep : ∀ s a s', P s → step s a = some s' → P s') {s s' : σ} {as : List α} (hs : P s)
    (hrun : runs step s as = some s') : P s' := by
  induction as generalizing s with
  | nil => exact Option.some.inj hrun ▸ hs
  | cons a as ih =>
    obtain ⟨s₁, h₁, h₂⟩ := Option.bind_eq_some_iff.1 hrun
    exact ih (hstep s a s₁ hs h₁) h₂

/-- Two machines whose states correspond under `f` make the same runs. -/
theorem runs_map {τ : Type} {step : σ → α → Option σ} {step' : τ → α → Option τ} {f : σ → τ} {I : σ → Prop}
    (hinv : ∀ s a s', I s → step s a = some s' → I s')
    (hmap : ∀ s a, I s → (step s a).map f = step' (f s) a) {s : σ} (hs : I s) (as : List α) :
    (runs step s as).map f = runs step' (f s) as := by
  induction as generalizing s with
  | nil => rfl
  | cons a as ih =>
    rw [runs, runs, ← hmap s a hs]
    cases hstep : step s a with
    | none => rfl
    | some s' => exact ih (hinv s a s' hs hstep)

/-- Every action of a run satisfies `P` in the state it happens in. -/
def Along (step : σ → α → Option σ) (P : σ → α → Prop) : σ → List α → Prop
  | _, [] => True
  | s, a :: as => P s a ∧ ∀ s', step s a = some s' → Along step P s' as

theorem Along.append {step : σ → α → Option σ} {P : σ → α → Prop} {s : σ} {as bs : List α}
    (ha : Along step P s as) (hb : ∀ s', runs step s as = some s' → Along step P s' bs) :
    Along step P s (as ++ bs) := by
  induction as generalizing s with
  | nil => exact hb s rfl
  | cons a as ih =>
    refine ⟨ha.1, fun s₁ h₁ => ih (ha.2 s₁ h₁) fun s' hs' => hb s' ?_⟩
    rw [runs, h₁]
    exact hs'

/-- A property that the actions of a run keep holds after the run. -/
theorem runs_invariant_along {step : σ → α → Option σ} {P : σ → α → Prop} {I : σ → Prop}
    (hstep : ∀ s a s', I s → P s a → step s a = some s' → I s') {s s' : σ} {as : List α} (hs : I s)
    (halong : Along step P s as) (hrun : runs step s as = some s') : I s' := by
  induction as generalizing s with
  | nil => exact Option.some.inj hrun ▸ hs
  | cons a as ih =>
    obtain ⟨s₁, h₁, h₂⟩ := Option.bind_eq_some_iff.1 hrun
    exact ih (hstep s a s₁ hs halong.1 h₁) (halong.2 s₁ h₁) h₂

/-- What the actions of a run yield. -/
def yields {β : Type} (step : σ → α → Option σ) (out : σ → α → List β) : σ → List α → List β
  | _, [] => []
  | s, a :: as => out s a ++ (step s a).elim [] fun s' => yields step out s' as

/-- A property of the state and of what was yielded so far, if the actions of a run keep it. -/
theorem runs_invariant_yields {β : Type} {step : σ → α → Option σ} {out : σ → α → List β}
    {P : σ → α → Prop} {I : List β → σ → Prop}
    (hstep : ∀ bs s a s', I bs s → P s a → step s a = some s' → I (bs ++ out s a) s') {s s' : σ}
    {as : List α} {bs : List β} (hs : I bs s) (halong : Along step P s as)
    (hrun : runs step s as = some s') : I (bs ++ yields step out s as) s' := by
  induction as generalizing s bs with
  | nil =>
    rw [yields, List.append_nil]
    exact Option.some.inj hrun ▸ hs
  | cons a as ih =>
    obtain ⟨s₁, h₁, h₂⟩ := Option.bind_eq_some_iff.1 hrun
    rw [yields, h₁, Option.elim_some, ← List.append_assoc]
    exact ih (hstep bs s a s₁ hs halong.1 h₁) (halong.2 s₁ h₁) h₂

/-! ## Pools of threads -/

variable {M : Type} [AddCommMonoid M]

/-- One thread of a pool apart from the others. -/
theorem sum_set {pool : List σ} {t : ℕ} {w : σ} (h : pool[t]? = some w) (f : σ → M) :
    ∃ rest, (pool.map f).sum = f w + rest ∧ ∀ w', ((pool.set t w').map f).sum = f w' + rest := by
  induction pool generalizing t with
  | nil => simp at h
  | cons v pool ih =>
    cases t with
    | zero =>
      obtain rfl : v = w := by simpa using h
      refine ⟨(pool.map f).sum, by simp, fun w' => by simp⟩
    | succ t =>
      rw [List.getElem?_cons_succ] at h
      obtain ⟨rest, h₁, h₂⟩ := ih h
      refine ⟨f v + rest, ?_, fun w' => ?_⟩
      · rw [List.map_cons, List.sum_cons, h₁, add_left_comm]
      · rw [List.set_cons_succ, List.map_cons, List.sum_cons, h₂, add_left_comm]

/-- The other threads of a pool stay as they are. -/
theorem forall_set {pool : List σ} {t : ℕ} {w : σ} {P : σ → Prop} (h : ∀ v ∈ pool, P v)
    (hw : P w) : ∀ v ∈ pool.set t w, P v := by
  intro v hv
  rcases List.mem_or_eq_of_mem_set hv with hv | rfl
  · exact h v hv
  · exact hw

end Machine
