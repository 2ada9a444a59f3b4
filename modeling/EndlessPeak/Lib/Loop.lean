import Mathlib.Data.List.Basic

/-!
# Counting loops that may fail

`for (i = 0; i < n; i++) s = f(s, i);` with a body that fails, `foldlM` over `List.range n` in
`Except E`, and checked reads and writes of an array.

* `foldlM_range_ok`: a body that keeps an invariant and does not fail.
* `foldlM_range_inv`: what the body keeps whenever it does not fail.
* `foldlM_range_step`, `foldlM_range_error`: no round of a loop that ends has failed, and a
  loop that fails does so in one of its rounds.
-/

namespace EndlessPeak.Lib

variable {E S A : Type} {f : S → ℕ → Except E S} {s t : S} {n : ℕ}

theorem foldlM_range_succ : (List.range (n + 1)).foldlM f s =
    (List.range n).foldlM f s >>= fun t => f t n := by
  rw [List.range_succ, List.foldlM_append]
  congr 1
  funext t
  rw [List.foldlM_cons]
  cases f t n <;> rfl

theorem bind_eq_ok {x : Except E S} {g : S → Except E A} {a : A} :
    x >>= g = .ok a ↔ ∃ s, x = .ok s ∧ g s = .ok a := by
  cases x with
  | error e =>
    constructor
    · intro h
      cases h
    · rintro ⟨s, h, -⟩
      cases h
  | ok s =>
    constructor
    · exact fun h => ⟨s, rfl, h⟩
    · rintro ⟨s', h, h'⟩
      cases h
      exact h'

/-- A loop whose body keeps an invariant and does not fail ends, with the invariant. -/
theorem foldlM_range_ok {P : ℕ → S → Prop} (h0 : P 0 s)
    (hstep : ∀ i s, i < n → P i s → ∃ s', f s i = .ok s' ∧ P (i + 1) s') :
    ∃ t, (List.range n).foldlM f s = .ok t ∧ P n t := by
  induction n with
  | zero => exact ⟨s, rfl, h0⟩
  | succ n ih =>
    obtain ⟨t, ht, hP⟩ := ih fun i s hi => hstep i s (by omega)
    obtain ⟨t', ht', hP'⟩ := hstep n t (by omega) hP
    refine ⟨t', ?_, hP'⟩
    rw [foldlM_range_succ, bind_eq_ok]
    exact ⟨t, ht, ht'⟩

/-- A loop that ends has kept what every round that does not fail keeps. -/
theorem foldlM_range_inv {P : S → Prop} (h : (List.range n).foldlM f s = .ok t) (h0 : P s)
    (hstep : ∀ i s s', P s → f s i = .ok s' → P s') : P t := by
  induction n generalizing t with
  | zero =>
    cases h
    exact h0
  | succ n ih =>
    rw [foldlM_range_succ, bind_eq_ok] at h
    obtain ⟨u, hu, hlast⟩ := h
    exact hstep n u t (ih hu) hlast

/-- No round of a loop that ends has failed. -/
theorem foldlM_range_step (h : (List.range n).foldlM f s = .ok t) {i : ℕ} (hi : i < n) :
    ∃ u u', f u i = .ok u' := by
  induction n generalizing t with
  | zero => omega
  | succ n ih =>
    rw [foldlM_range_succ, bind_eq_ok] at h
    obtain ⟨u, hu, hlast⟩ := h
    rcases Nat.lt_succ_iff_lt_or_eq.mp hi with hlt | rfl
    · exact ih hu hlt
    · exact ⟨u, t, hlast⟩

theorem bind_eq_error {x : Except E S} {g : S → Except E A} {e : E} :
    x >>= g = .error e ↔ x = .error e ∨ ∃ s, x = .ok s ∧ g s = .error e := by
  cases x with
  | error e' =>
    constructor
    · intro h
      cases h
      exact .inl rfl
    · rintro (h | ⟨s, h, -⟩)
      · cases h
        rfl
      · cases h
  | ok s =>
    constructor
    · exact fun h => .inr ⟨s, rfl, h⟩
    · rintro (h | ⟨s', h, h'⟩)
      · cases h
      · cases h
        exact h'

/-- A loop that fails does so in a round that fails. -/
theorem foldlM_range_error {e : E} (h : (List.range n).foldlM f s = .error e) :
    ∃ u i, f u i = .error e := by
  induction n with
  | zero => cases h
  | succ n ih =>
    rw [foldlM_range_succ, bind_eq_error] at h
    rcases h with h | ⟨u, -, hlast⟩
    · exact ih h
    · exact ⟨u, n, hlast⟩

/-! ## Checked arrays -/

/-- `a[i]`, failing past the end. -/
def readAt (error : E) (a : List A) (i : ℕ) : Except E A :=
  match a[i]? with
  | some v => .ok v
  | none => .error error

/-- `a[i] = v`, failing past the end. -/
def writeCell (error : E) (a : List A) (i : ℕ) (v : A) : Except E (List A) :=
  if i < a.length then .ok (a.set i v) else .error error

variable {error : E} {a a' : List A} {i : ℕ} {v : A}

theorem readAt_eq_ok : readAt error a i = .ok v ↔ a[i]? = some v := by
  unfold readAt
  cases a[i]? with
  | none => simp
  | some w => simp

theorem error_of_readAt {e : E} (h : readAt error a i = .error e) : e = error := by
  unfold readAt at h
  split at h <;> cases h
  rfl

theorem error_of_writeCell {e : E} (h : writeCell error a i v = .error e) : e = error := by
  unfold writeCell at h
  split_ifs at h
  cases h
  rfl

theorem writeCell_of_lt (h : i < a.length) : writeCell error a i v = .ok (a.set i v) := if_pos h

theorem length_of_writeCell (h : writeCell error a i v = .ok a') : a'.length = a.length := by
  unfold writeCell at h
  split_ifs at h
  cases h
  exact List.length_set

end EndlessPeak.Lib
