import Mathlib.Logic.Basic
import Mathlib.Data.List.Induction

/-!
# Runs of a labelled transition system

A system is a relation `next : S → L → S → Prop`: in state `s` the step labelled
`l` may lead to `s'`. `Run next s ls s'` says that the steps labelled `ls` lead
from `s` to `s'`. A side condition on the steps of a run ("every step finds its
guard true") is part of `next`; `Run.mono` forgets it again.

* `Run.invariant`: what every step preserves holds at the end of a run.
* `Run.invariant_trace`: the same for a property that also speaks of the labels
  of the run so far (ghost history).
* `run_iff_foldlM`: for a partial step function, runs are computed by `foldlM`.
* `EachAfter`: a property of every element of a log and of what came before it.
* `Since`: something has happened, and something else has not happened since.
-/

namespace EndlessPeak.Lib

variable {S L : Type*}

/-- The steps labelled `ls` lead from `s` to the last argument. -/
inductive Run (next : S → L → S → Prop) (s : S) : List L → S → Prop
  | nil : Run next s [] s
  | snoc {ls : List L} {l : L} {t t' : S} : Run next s ls t → next t l t' →
      Run next s (ls ++ [l]) t'

namespace Run

variable {next next' : S → L → S → Prop} {s t u : S} {ls ls' : List L}

/-- An invariant of `next` that holds at the start of a run holds at its end. -/
theorem invariant {I : S → Prop} (h : Run next s ls t) (h0 : I s)
    (hstep : ∀ t l t', I t → next t l t' → I t') : I t := by
  induction h with
  | nil => exact h0
  | snoc _ hn ih => exact hstep _ _ _ ih hn

/-- An invariant that also depends on the labels of the run so far. -/
theorem invariant_trace {I : List L → S → Prop} (h : Run next s ls t) (h0 : I [] s)
    (hstep : ∀ ls t l t', I ls t → next t l t' → I (ls ++ [l]) t') : I ls t := by
  induction h with
  | nil => exact h0
  | snoc _ hn ih => exact hstep _ _ _ _ ih hn

/-- Weakening the step relation; in particular, forgetting a guard. -/
theorem mono (h : Run next s ls t) (hle : ∀ s l s', next s l s' → next' s l s') :
    Run next' s ls t := by
  induction h with
  | nil => exact .nil
  | snoc _ hn ih => exact .snoc ih (hle _ _ _ hn)

/-- Weakening the step relation for the labels of the run. -/
theorem mono_of_mem (h : Run next s ls t) (hle : ∀ l ∈ ls, ∀ s s', next s l s' → next' s l s') :
    Run next' s ls t := by
  induction h with
  | nil => exact .nil
  | @snoc ls l t t' _ hn ih =>
    refine (ih fun l hl => hle l (List.mem_append_left _ hl)).snoc ?_
    exact hle l (List.mem_append_right _ (List.mem_singleton_self l)) _ _ hn

theorem single {l : L} (h : next s l t) : Run next s [l] t := Run.nil.snoc h

theorem trans (h : Run next s ls t) (h' : Run next t ls' u) : Run next s (ls ++ ls') u := by
  induction h' with
  | nil => simpa using h
  | snoc _ hn ih => rw [← List.append_assoc]; exact ih.snoc hn

theorem snoc_iff {l : L} : Run next s (ls ++ [l]) u ↔ ∃ t, Run next s ls t ∧ next t l u := by
  constructor
  · intro h
    generalize hk : ls ++ [l] = k at h
    cases h with
    | nil => simp at hk
    | snoc hr hn =>
      obtain ⟨rfl, hl⟩ := List.append_inj' hk rfl
      cases hl
      exact ⟨_, hr, hn⟩
  · rintro ⟨t, hr, hn⟩
    exact hr.snoc hn

end Run

/-- Where an element can be in a list with one more element at the end. -/
theorem snoc_eq_append_cons {A : Type*} {ls before after : List A} {a b : A} :
    ls ++ [a] = before ++ b :: after ↔
      (ls = before ∧ a = b ∧ after = []) ∨ ∃ after', after = after' ++ [a] ∧
        ls = before ++ b :: after' := by
  constructor
  · intro h
    induction after using List.reverseRecOn with
    | nil =>
      obtain ⟨rfl, hlast⟩ := List.append_inj' h rfl
      exact .inl ⟨rfl, List.singleton_inj.mp hlast, rfl⟩
    | append_singleton after c _ =>
      rw [← List.cons_append, ← List.append_assoc] at h
      obtain ⟨rfl, hlast⟩ := List.append_inj' h rfl
      cases hlast
      exact .inr ⟨after, rfl, rfl⟩
  · rintro (⟨rfl, rfl, rfl⟩ | ⟨after', rfl, rfl⟩)
    · rfl
    · simp

theorem filterMap_snoc {A B : Type*} (f : A → Option B) (ls : List A) (a : A) :
    (ls ++ [a]).filterMap f = ls.filterMap f ++ (f a).toList := by
  rw [List.filterMap_append]
  cases h : f a <;> simp [h]

/-- A run in two parts. -/
theorem Run.append_iff {next : S → L → S → Prop} {s u : S} {ls ls' : List L} :
    Run next s (ls ++ ls') u ↔ ∃ t, Run next s ls t ∧ Run next t ls' u := by
  constructor
  · intro h
    induction ls' using List.reverseRecOn generalizing u with
    | nil => exact ⟨u, by simpa using h, .nil⟩
    | append_singleton ls' l ih =>
      rw [← List.append_assoc, Run.snoc_iff] at h
      obtain ⟨v, hv, hn⟩ := h
      obtain ⟨t, ht, hrest⟩ := ih hv
      exact ⟨t, ht, hrest.snoc hn⟩
  · rintro ⟨t, ht, hrest⟩
    exact ht.trans hrest

theorem Run.nil_iff {next : S → L → S → Prop} {s t : S} : Run next s [] t ↔ t = s := by
  constructor
  · intro h
    generalize hk : ([] : List L) = k at h
    cases h with
    | nil => rfl
    | snoc _ _ => simp at hk
  · rintro rfl
    exact .nil

theorem Run.cons_iff {next : S → L → S → Prop} {s u : S} {l : L} {ls : List L} :
    Run next s (l :: ls) u ↔ ∃ t, next s l t ∧ Run next t ls u := by
  rw [← List.singleton_append, Run.append_iff]
  constructor
  · rintro ⟨t, hfirst, hrest⟩
    rw [← List.nil_append [l], Run.snoc_iff] at hfirst
    obtain ⟨v, hnil, hn⟩ := hfirst
    exact ⟨t, Run.nil_iff.mp hnil ▸ hn, hrest⟩
  · rintro ⟨t, hn, hrest⟩
    exact ⟨t, .single hn, hrest⟩

theorem Run.exists_cons {next : S → L → S → Prop} {s t : S} {l : L} {ls : List L} {P : S → Prop}
    (hn : next s l t) (h : ∃ u, Run next t ls u ∧ P u) : ∃ u, Run next s (l :: ls) u ∧ P u := by
  obtain ⟨u, hrun, hu⟩ := h
  exact ⟨u, Run.cons_iff.mpr ⟨t, hn, hrun⟩, hu⟩

/-- The step relation of a partial step function. -/
def stepRel (step : S → L → Option S) (s : S) (l : L) (s' : S) : Prop := step s l = some s'

/-- Runs of a partial step function are what `foldlM` computes. -/
theorem run_iff_foldlM {step : S → L → Option S} {s t : S} {ls : List L} :
    Run (stepRel step) s ls t ↔ ls.foldlM step s = some t := by
  induction ls using List.reverseRecOn generalizing t with
  | nil => simp [Run.nil_iff, eq_comm]
  | append_singleton ls l ih =>
    rw [Run.snoc_iff, List.foldlM_append]
    simp only [ih, stepRel, List.foldlM_cons, List.foldlM_nil, Option.bind_eq_bind,
      Option.bind_eq_some_iff]
    constructor
    · rintro ⟨u, hu, hl⟩
      exact ⟨u, hu, t, hl, rfl⟩
    · rintro ⟨u, hu, v, hl, hv⟩
      cases hv
      exact ⟨u, hu, hl⟩

/-! ## Logs -/

/-- Every element `a` of `log` satisfies `P pre a`, where `pre` are the elements
    before it. -/
def EachAfter {A : Type*} (P : List A → A → Prop) (log : List A) : Prop :=
  ∀ pre a post, log = pre ++ a :: post → P pre a

namespace EachAfter

variable {A : Type*} {P : List A → A → Prop} {log log' : List A} {a : A}

theorem nil : EachAfter P [] := by
  intro pre a post h
  simp at h

theorem append_iff : EachAfter P (log ++ log') ↔
    EachAfter P log ∧ EachAfter (fun pre => P (log ++ pre)) log' := by
  constructor
  · intro h
    constructor
    · rintro pre a post rfl
      exact h pre a (post ++ log') (by simp)
    · rintro pre a post rfl
      exact h (log ++ pre) a post (by simp)
  · rintro ⟨h, h'⟩ pre a post heq
    rcases List.append_eq_append_iff.mp heq with ⟨mid, rfl, rfl⟩ | ⟨mid, rfl, hmid⟩
    · exact h' mid a post rfl
    · cases mid with
      | nil => simpa using h' [] a post (by simpa using hmid.symm)
      | cons b mid =>
        obtain ⟨rfl, rfl⟩ := List.cons.inj hmid
        exact h pre a mid rfl

theorem singleton_iff : EachAfter P [a] ↔ P [] a := by
  constructor
  · intro h
    exact h [] a [] rfl
  · intro h pre b post heq
    obtain ⟨rfl, hb⟩ := (List.append_eq_singleton_iff.mp heq.symm).resolve_right (by simp)
    cases hb
    exact h

theorem snoc_iff : EachAfter P (log ++ [a]) ↔ EachAfter P log ∧ P log a := by
  rw [append_iff, singleton_iff, List.append_nil]

theorem iff_getElem : EachAfter P log ↔ ∀ i, (h : i < log.length) → P (log.take i) log[i] := by
  constructor
  · intro h i hi
    exact h _ _ (log.drop (i + 1)) (by rw [← List.drop_eq_getElem_cons hi, List.take_append_drop])
  · rintro h pre a post rfl
    simpa using h pre.length (by simp)

theorem map_iff {B : Type*} (f : B → A) {log : List B} :
    EachAfter P (log.map f) ↔ EachAfter (fun pre b => P (pre.map f) (f b)) log := by
  induction log using List.reverseRecOn with
  | nil => exact iff_of_true nil nil
  | append_singleton log b ih =>
    rw [List.map_append, List.map_singleton, snoc_iff, snoc_iff, ih]

theorem filter_iff (keep : A → Prop) [DecidablePred keep] :
    EachAfter P (log.filter fun a => keep a) ↔
      EachAfter (fun pre a => keep a → P (pre.filter fun a => keep a) a) log := by
  induction log using List.reverseRecOn with
  | nil => exact iff_of_true nil nil
  | append_singleton log a ih =>
    rw [List.filter_append, snoc_iff]
    by_cases h : keep a
    · have hlast : [a].filter (fun a => keep a) = [a] := by simp [h]
      rw [hlast, snoc_iff, ih]
      simp [h]
    · have hlast : [a].filter (fun a => keep a) = [] := by simp [h]
      rw [hlast, List.append_nil, ih]
      simp [h]

instance [∀ pre a, Decidable (P pre a)] : Decidable (EachAfter P log) :=
  decidable_of_iff _ iff_getElem.symm

end EachAfter

/-- `start` holds of an element of `log`, and `stop` of none of those after it. -/
def Since {A : Type*} (start stop : A → Prop) (log : List A) : Prop :=
  ∃ before a after, log = before ++ a :: after ∧ start a ∧ ∀ b ∈ after, ¬ stop b

namespace Since

variable {A B : Type*} {start stop : A → Prop} {log : List A} {a : A}

theorem not_nil : ¬ Since start stop [] := by
  rintro ⟨before, a, after, h, -⟩
  simp at h

theorem snoc_iff : Since start stop (log ++ [a]) ↔ start a ∨ Since start stop log ∧ ¬ stop a := by
  constructor
  · rintro ⟨before, b, after, h, hstart, hafter⟩
    rcases snoc_eq_append_cons.mp h with ⟨-, rfl, -⟩ | ⟨after', rfl, rfl⟩
    · exact .inl hstart
    · refine .inr ⟨⟨before, b, after', rfl, hstart, ?_⟩, hafter a (by simp)⟩
      exact fun c hc => hafter c (List.mem_append_left _ hc)
  · rintro (hstart | ⟨⟨before, b, after, rfl, hstart, hafter⟩, ha⟩)
    · exact ⟨log, a, [], rfl, hstart, by simp⟩
    · refine ⟨before, b, after ++ [a], by simp, hstart, ?_⟩
      intro c hc
      rcases List.mem_append.mp hc with hc | hc
      · exact hafter c hc
      · rw [List.mem_singleton.mp hc]
        exact ha

theorem exists_start (h : Since start stop log) : ∃ a ∈ log, start a := by
  obtain ⟨before, a, after, rfl, hstart, -⟩ := h
  exact ⟨a, by simp, hstart⟩

/-- Any element of a part that nothing stops can start it. -/
theorem of_mem {before after : List A} {c : A} (hlog : log = before ++ a :: after)
    (hafter : ∀ b ∈ after, ¬ stop b) (hc : c ∈ a :: after) (hstart : start c) :
    Since start stop log := by
  rcases List.mem_cons.mp hc with rfl | hc
  · exact ⟨before, c, after, hlog, hstart, hafter⟩
  · obtain ⟨mid, rest, rfl⟩ := List.append_of_mem hc
    refine ⟨before ++ a :: mid, c, rest, by simp [hlog], hstart, ?_⟩
    exact fun b hb => hafter b (by simp [hb])

theorem map_iff (f : B → A) {log : List B} :
    Since start stop (log.map f) ↔ Since (fun b => start (f b)) (fun b => stop (f b)) log := by
  constructor
  · rintro ⟨before, a, after, h, hstart, hafter⟩
    obtain ⟨before, rest, rfl, rfl, hrest⟩ := List.map_eq_append_iff.mp h
    obtain ⟨b, after, rfl, rfl, rfl⟩ := List.map_eq_cons_iff.mp hrest
    exact ⟨before, b, after, rfl, hstart, fun c hc => hafter _ (List.mem_map_of_mem hc)⟩
  · rintro ⟨before, b, after, rfl, hstart, hafter⟩
    refine ⟨before.map f, f b, after.map f, by simp, hstart, ?_⟩
    intro a ha
    obtain ⟨c, hc, rfl⟩ := List.mem_map.mp ha
    exact hafter c hc

/-- It is enough to look at some of the elements, if the first one is among them. -/
theorem filter (keep : A → Prop) [DecidablePred keep]
    (h : Since (fun a => start a ∧ keep a) stop log) :
    Since start stop (log.filter fun a => keep a) := by
  obtain ⟨before, a, after, rfl, ⟨hstart, hkeep⟩, hafter⟩ := h
  refine ⟨before.filter fun a => keep a, a, after.filter fun a => keep a, ?_, hstart, ?_⟩
  · rw [List.filter_append, List.filter_cons_of_pos (by simpa using hkeep)]
  · exact fun b hb => hafter b (List.mem_filter.mp hb).1

end Since

end EndlessPeak.Lib
