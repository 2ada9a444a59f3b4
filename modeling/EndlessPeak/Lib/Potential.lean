import Mathlib.Algebra.BigOperators.Group.Finset.Piecewise
import Mathlib.Algebra.Order.BigOperators.Group.Finset
import EndlessPeak.Lib.Run

/-!
# Potentials

A potential is a number that every step of a system makes smaller. It bounds the runs of the
system, and the system comes to rest. The potential of a system with many components is a sum
over them, and a step changes one summand.

* `Decreases.length_add_le`: a run is no longer than what it takes off the potential.
* `Decreases.exists_still`: from everywhere a run leads to a state in which no step is possible.
* `exists_bound_own`: the same for the own steps of one component, while others go on.
* `sum_update`: a sum after one component has changed.
-/

namespace EndlessPeak.Lib

/-! ## Sums over components -/

theorem sum_update {A J M : Type*} [DecidableEq A] [AddCommMonoid M] {as : Finset A} (f : J → M)
    (jobs : A → J) {a : A} (ha : a ∈ as) (job : J) :
    ∑ b ∈ as, f (Function.update jobs a job b) + f (jobs a) = ∑ b ∈ as, f (jobs b) + f job := by
  have hothers : ∑ b ∈ as.erase a, f (Function.update jobs a job b) =
      ∑ b ∈ as.erase a, f (jobs b) := by
    apply Finset.sum_congr rfl
    intro b hb
    rw [Function.update_of_ne (Finset.ne_of_mem_erase hb)]
  rw [← Finset.sum_erase_add _ _ ha, ← Finset.sum_erase_add _ (fun b => f (jobs b)) ha,
    Function.update_self, hothers]
  exact add_right_comm _ _ _

/-- A step that makes one component smaller makes the sum smaller by as much. -/
theorem sum_update_add_le {A J : Type*} [DecidableEq A] {as : Finset A} (f : J → ℕ)
    (jobs : A → J) {a : A} (ha : a ∈ as) (job : J) {k l : ℕ} (h : f job + k ≤ f (jobs a) + l) :
    ∑ b ∈ as, f (Function.update jobs a job b) + k ≤ ∑ b ∈ as, f (jobs b) + l := by
  have hsum := sum_update f jobs ha job
  omega

/-! ## Runs -/

variable {S L : Type*} {next : S → L → S → Prop} {I : S → Prop} {potential : S → ℕ}

/-- In the states with `I`, which steps do not leave, every step makes the potential smaller. -/
structure Decreases (next : S → L → S → Prop) (I : S → Prop) (potential : S → ℕ) : Prop where
  keeps : ∀ s l s', I s → next s l s' → I s'
  less : ∀ s l s', I s → next s l s' → potential s' < potential s

/-- No step is possible. -/
def Still (next : S → L → S → Prop) (s : S) : Prop := ∀ l s', ¬ next s l s'

variable {next' : S → L → S → Prop} {s s' : S} {ls : List L}

theorem Decreases.mono (h : Decreases next I potential)
    (hle : ∀ s l s', next' s l s' → next s l s') : Decreases next' I potential where
  keeps s l s' hs hstep := h.keeps s l s' hs (hle s l s' hstep)
  less s l s' hs hstep := h.less s l s' hs (hle s l s' hstep)

theorem Decreases.length_add_le (h : Decreases next I potential) (hs : I s)
    (hrun : Run next s ls s') : I s' ∧ ls.length + potential s' ≤ potential s := by
  induction hrun with
  | nil => exact ⟨hs, by simp⟩
  | @snoc ls l t t' _ hstep ih =>
    have hless := h.less t l t' ih.1 hstep
    refine ⟨h.keeps t l t' ih.1 hstep, ?_⟩
    rw [List.length_append, List.length_singleton]
    omega

/-- The induction is on the potential. -/
theorem Decreases.exists_still (h : Decreases next I potential) (hs : I s) :
    ∃ ls s', Run next s ls s' ∧ Still next s' := by
  induction hn : potential s using Nat.strong_induction_on generalizing s with
  | _ n ih =>
    by_cases hstill : Still next s
    · exact ⟨[], s, .nil, hstill⟩
    · unfold Still at hstill
      push Not at hstill
      obtain ⟨l, t, hstep⟩ := hstill
      have hless := h.less s l t hs hstep
      obtain ⟨ls, s', hrun, hend⟩ := ih (potential t) (hn ▸ hless) (h.keeps s l t hs hstep) rfl
      exact ⟨[l] ++ ls, s', (Run.single hstep).trans hrun, hend⟩

/-! ## One component -/

/-- A component `core` whose own steps are determined by where it is and lead down a well-founded
    order, while the steps of the others leave it alone, makes a bounded number of steps. The outer
    induction is on the order, the inner one on the run up to the next step of the component. -/
theorem exists_bound_own {C : Type*} {r : C → C → Prop} (hwf : WellFounded r) {core : S → C}
    {advance : C → Option C} {own : L → Bool} (hless : ∀ c c', advance c = some c' → r c' c)
    (hown : ∀ s l s', own l = true → next s l s' → advance (core s) = some (core s'))
    (hother : ∀ s l s', own l = false → next s l s' → core s' = core s) (c : C) :
    ∃ bound, ∀ s, core s = c → ∀ ls s', Run next s ls s' → (ls.filter own).length ≤ bound := by
  induction c using hwf.induction with
  | _ c ih =>
    have hrest : ∃ bound, ∀ c', advance c = some c' → ∀ s, core s = c' → ∀ ls s',
        Run next s ls s' → (ls.filter own).length < bound := by
      cases hadvance : advance c with
      | none => exact ⟨0, by simp⟩
      | some c' =>
        obtain ⟨bound, hbound⟩ := ih c' (hless c c' hadvance)
        refine ⟨bound + 1, ?_⟩
        rintro _ ⟨⟩ s hs ls s' hrun
        exact Nat.lt_succ_of_le (hbound s hs ls s' hrun)
    obtain ⟨bound, hbound⟩ := hrest
    refine ⟨bound, fun s hs ls s' hrun => ?_⟩
    induction ls generalizing s with
    | nil => simp
    | cons l ls ihls =>
      obtain ⟨t, hstep, hrun⟩ := Run.cons_iff.mp hrun
      cases hl : own l with
      | true =>
        rw [List.filter_cons_of_pos hl, List.length_cons]
        exact hbound _ (hs ▸ hown s l t hl hstep) t rfl ls s' hrun
      | false =>
        rw [List.filter_cons_of_neg (by simp [hl])]
        exact ihls t ((hother s l t hl hstep).trans hs) hrun

end EndlessPeak.Lib
