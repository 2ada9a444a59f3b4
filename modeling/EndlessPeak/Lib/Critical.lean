import Mathlib.Data.Set.BooleanAlgebra
import Mathlib.Data.Set.Function
import Mathlib.Order.CompletePartialOrder
import EndlessPeak.Lib.Run

/-!
# Critical sections

Threads that share data under locks. A thread takes all locks of a section together, works
on the data of these locks, one access after the other, and gives the locks back. Other
threads go on between any two of its accesses. A section is also what is left of it: the
locks, the local variables and the accesses to come.

* `Access`: it reads and writes only the data of its locks.
* `serial_next`: a step of the threads, seen as if every section were one step.
* `atomic_of_run`: in every run the threads leave the data and return the results of the
  sections run one at a time, in the order in which they took their locks.
-/

namespace EndlessPeak.Lib

variable {L D V R T C : Type}

/-! ## Accesses -/

/-- An access under some locks. It turns the local variables and the data into new ones, and
    neither reads nor writes the data of other locks. -/
structure Access (locks : Set L) (D V : Type) where
  run : V → (L → D) → V × (L → D)
  frame : ∀ v d l, l ∉ locks → (run v d).2 l = d l
  congr : ∀ v d d', Set.EqOn d d' locks →
    (run v d).1 = (run v d').1 ∧ Set.EqOn (run v d).2 (run v d').2 locks

/-- An access to the data of one lock. -/
def Access.at [DecidableEq L] {locks : Set L} (l : L) (hl : l ∈ locks) (f : V → D → V × D) :
    Access locks D V where
  run v d := ((f v (d l)).1, Function.update d l (f v (d l)).2)
  frame v d k hk := by
    have hne : k ≠ l := by
      rintro rfl
      exact hk hl
    exact Function.update_of_ne hne _ d
  congr v d d' h := by
    refine ⟨by rw [h hl], fun k hk => ?_⟩
    show Function.update d l (f v (d l)).2 k = Function.update d' l (f v (d' l)).2 k
    by_cases hne : k = l
    · subst hne
      rw [Function.update_self, Function.update_self, h hl]
    · rw [Function.update_of_ne hne, Function.update_of_ne hne, h hk]

/-- What a thread does with some locks: its local variables and its accesses. -/
structure Section (L D V : Type) where
  locks : Set L
  vars : V
  body : List (Access locks D V)

/-- Accesses one after the other. -/
def runAll {locks : Set L} : List (Access locks D V) → V → (L → D) → V × (L → D)
  | [], v, d => (v, d)
  | access :: rest, v, d => runAll rest (access.run v d).1 (access.run v d).2

/-- A section as one step. -/
def Section.run (sec : Section L D V) (d : L → D) : V × (L → D) := runAll sec.body sec.vars d

section RunAll

variable {locks : Set L} {body : List (Access locks D V)} {d d' : L → D}

theorem runAll_frame {l : L} (hl : l ∉ locks) (v : V) : (runAll body v d).2 l = d l := by
  induction body generalizing v d with
  | nil => rfl
  | cons access rest ih =>
    rw [runAll, ih]
    exact access.frame v d l hl

theorem runAll_congr (body : List (Access locks D V)) (h : Set.EqOn d d' locks) (v : V) :
    (runAll body v d).1 = (runAll body v d').1 ∧
      Set.EqOn (runAll body v d).2 (runAll body v d').2 locks := by
  induction body generalizing v d d' with
  | nil => exact ⟨rfl, h⟩
  | cons access rest ih =>
    obtain ⟨hvars, hdata⟩ := access.congr v d d' h
    rw [runAll, runAll, hvars]
    exact ih hdata _

end RunAll

/-! ## Threads -/

/-- The data, and what each thread has left to do in its section. -/
structure Shared (L D V T : Type) where
  data : L → D
  inside : T → Option (Section L D V) := fun _ => none

/-- What a thread does next. -/
inductive CriticalEvent (T C V : Type) where
  /-- It takes the locks of a call. -/
  | enter (t : T) (call : C)
  /-- It executes the next access. -/
  | access (t : T)
  /-- It gives the locks back and returns. -/
  | leave (t : T) (result : V)

variable [DecidableEq T]

/-- The thread `t` goes on, and the data are `data` now. -/
def Shared.goOn (s : Shared L D V T) (t : T) (left : Option (Section L D V)) (data : L → D) :
    Shared L D V T where
  data := data
  inside := Function.update s.inside t left

/-- A step of the threads, which call the sections `code`. -/
inductive CriticalNext (code : C → Section L D V) (s : Shared L D V T) :
    CriticalEvent T C V → Shared L D V T → Prop
  | enter {t : T} {call : C} : s.inside t = none →
      (∀ u sec, s.inside u = some sec → Disjoint sec.locks (code call).locks) →
      CriticalNext code s (.enter t call) (s.goOn t (some (code call)) s.data)
  | access {t : T} {locks : Set L} {v : V} {access : Access locks D V}
      {rest : List (Access locks D V)} : s.inside t = some ⟨locks, v, access :: rest⟩ →
      CriticalNext code s (.access t) (s.goOn t
        (some ⟨locks, (access.run v s.data).1, rest⟩) (access.run v s.data).2)
  | leave {t : T} {locks : Set L} {v : V} : s.inside t = some ⟨locks, v, []⟩ →
      CriticalNext code s (.leave t v) (s.goOn t none s.data)

/-- The call whose locks an event takes. -/
def CriticalEvent.entered : CriticalEvent T C V → Option (T × C)
  | .enter t call => some (t, call)
  | _ => none

/-- What a thread returns with an event. -/
def CriticalEvent.returned : CriticalEvent T C V → Option (T × V)
  | .leave t result => some (t, result)
  | _ => none

/-- The calls, in the order in which they took their locks. -/
def entered (events : List (CriticalEvent T C V)) : List (T × C) :=
  events.filterMap CriticalEvent.entered

/-- What the threads have returned, in this order. -/
def returned (events : List (CriticalEvent T C V)) : List (T × V) :=
  events.filterMap CriticalEvent.returned

/-! ## One at a time -/

/-- Calls that are one step each: the results and the data. -/
def atomically (spec : C → (L → D) → R × (L → D)) (d : L → D) (calls : List (T × C)) :
    List (T × R) × (L → D) :=
  calls.foldl (fun (log, d) (t, call) => (log ++ [(t, (spec call d).1)], (spec call d).2)) ([], d)

/-- The results of one thread. -/
def resultsOf (t : T) (log : List (T × R)) : List R :=
  log.filterMap fun (u, result) => if u = t then some result else none

omit [DecidableEq T] in
theorem atomically_snoc (spec : C → (L → D) → R × (L → D)) (d : L → D) (calls : List (T × C))
    (t : T) (call : C) : atomically spec d (calls ++ [(t, call)]) =
      ((atomically spec d calls).1 ++ [(t, (spec call (atomically spec d calls).2).1)],
        (spec call (atomically spec d calls).2).2) := by
  unfold atomically
  rw [List.foldl_append]
  rfl

omit [DecidableEq T] in
/-- Calls that do the same, up to how their results are written. -/
theorem atomically_map {R' : Type} {spec : C → (L → D) → R × (L → D)}
    {spec' : C → (L → D) → R' × (L → D)} (f : R → R')
    (h : ∀ call d, spec' call d = (f (spec call d).1, (spec call d).2)) (d : L → D)
    (calls : List (T × C)) : atomically spec' d calls =
      ((atomically spec d calls).1.map (Prod.map id f), (atomically spec d calls).2) := by
  induction calls using List.reverseRecOn with
  | nil => rfl
  | append_singleton calls call ih =>
    obtain ⟨t, call⟩ := call
    rw [atomically_snoc, atomically_snoc, ih, h]
    simp

theorem resultsOf_snoc (t u : T) (log : List (T × R)) (result : R) :
    resultsOf t (log ++ [(u, result)]) = resultsOf t log ++ if u = t then [result] else [] := by
  unfold resultsOf
  rw [filterMap_snoc]
  by_cases hu : u = t
  · simp [hu]
  · simp [hu]

theorem resultsOf_map {R' : Type} (f : R → R') (t : T) (log : List (T × R)) :
    resultsOf t (log.map (Prod.map id f)) = (resultsOf t log).map f := by
  induction log with
  | nil => rfl
  | cons entry log ih =>
    obtain ⟨u, result⟩ := entry
    unfold resultsOf at ih ⊢
    rw [List.map_cons, List.filterMap_cons, List.filterMap_cons, ih]
    by_cases hu : u = t
    · simp [hu]
    · simp [hu]

/-! ## The order of the locks -/

/-- No two threads hold the same lock. -/
def Shared.Apart (s : Shared L D V T) : Prop :=
  ∀ t u sec sec', s.inside t = some sec → s.inside u = some sec' → t ≠ u →
    Disjoint sec.locks sec'.locks

/-- The data once every thread has left its section: `d`. What a thread still does to the data
    of its locks does not depend on when it does it. -/
structure Settled (s : Shared L D V T) (d : L → D) : Prop where
  apart : s.Apart
  held : ∀ t sec, s.inside t = some sec → Set.EqOn d (sec.run s.data).2 sec.locks
  free : ∀ l, (∀ t sec, s.inside t = some sec → l ∉ sec.locks) → d l = s.data l

/-- What a thread in its section is going to return. -/
def Shared.pending (s : Shared L D V T) (t : T) : List V :=
  match s.inside t with
  | none => []
  | some sec => [(sec.run s.data).1]

variable {code : C → Section L D V} {s s' : Shared L D V T} {d data : L → D} {t u : T}
  {left : Option (Section L D V)} {sec : Section L D V} {e : CriticalEvent T C V}
  {events : List (CriticalEvent T C V)}

theorem goOn_self : (s.goOn t left data).inside t = left := by
  show Function.update s.inside t left t = left
  rw [Function.update_self]

theorem goOn_of_ne (hu : u ≠ t) : (s.goOn t left data).inside u = s.inside u := by
  show Function.update s.inside t left u = s.inside u
  rw [Function.update_of_ne hu]

theorem inside_goOn : (s.goOn t left data).inside u = some sec ↔
    (u = t ∧ left = some sec) ∨ (u ≠ t ∧ s.inside u = some sec) := by
  by_cases hu : u = t
  · subst hu
    simp [goOn_self]
  · simp [goOn_of_ne hu, hu]

theorem Shared.Apart.goOn (h : s.Apart) (hleft : ∀ sec, left = some sec → ∀ u sec', u ≠ t →
    s.inside u = some sec' → Disjoint sec'.locks sec.locks) : (s.goOn t left data).Apart := by
  intro u w sec sec' hu hw hne
  rcases inside_goOn.mp hu with ⟨rfl, hsec⟩ | ⟨hut, hin⟩
  · rcases inside_goOn.mp hw with ⟨rfl, -⟩ | ⟨hwt, hin⟩
    · exact absurd rfl hne
    · exact (hleft sec hsec w sec' hwt hin).symm
  · rcases inside_goOn.mp hw with ⟨rfl, hsec⟩ | ⟨-, hin'⟩
    · exact hleft sec' hsec u sec hut hin
    · exact h u w sec sec' hin hin' hne

/-- A thread takes its locks: its section is run at once. -/
theorem Settled.enter {call : C} (h : Settled s d) (hout : s.inside t = none)
    (hfree : ∀ u sec, s.inside u = some sec → Disjoint sec.locks (code call).locks) :
    Settled (s.goOn t (some (code call)) s.data) ((code call).run d).2 ∧
      ((code call).run d).1 = ((code call).run s.data).1 := by
  have hsame : Set.EqOn d s.data (code call).locks := by
    intro l hl
    exact h.free l fun u sec hu hmem => Set.disjoint_left.mp (hfree u sec hu) hmem hl
  obtain ⟨hvars, hdata⟩ := runAll_congr (code call).body hsame (code call).vars
  refine ⟨⟨h.apart.goOn ?_, ?_, ?_⟩, hvars⟩
  · intro sec hsec u sec' _ hu
    rw [← Option.some_inj.mp hsec]
    exact hfree u sec' hu
  · intro u sec hu
    rcases inside_goOn.mp hu with ⟨-, hsec⟩ | ⟨-, hu⟩
    · rw [← Option.some_inj.mp hsec]
      exact hdata
    · intro l hl
      have hother : l ∉ (code call).locks := Set.disjoint_left.mp (hfree u sec hu) hl
      exact (runAll_frame hother _).trans (h.held u sec hu hl)
  · intro l hl
    have hother : l ∉ (code call).locks := hl t _ (inside_goOn.mpr (.inl ⟨rfl, rfl⟩))
    refine (runAll_frame hother _).trans (h.free l fun u sec hu => ?_)
    have hut : u ≠ t := by
      rintro rfl
      rw [hout] at hu
      cases hu
    exact hl u sec (inside_goOn.mpr (.inr ⟨hut, hu⟩))

/-- A thread executes an access: what it is going to do has become less by what it has done. -/
theorem Settled.access {locks : Set L} {v : V} {access : Access locks D V}
    {rest : List (Access locks D V)} (h : Settled s d)
    (ht : s.inside t = some ⟨locks, v, access :: rest⟩) :
    Settled (s.goOn t (some ⟨locks, (access.run v s.data).1, rest⟩) (access.run v s.data).2)
      d := by
  have hapart : ∀ u sec, u ≠ t → s.inside u = some sec → Disjoint sec.locks locks :=
    fun u sec hne hu => h.apart u t sec _ hu ht hne
  refine ⟨h.apart.goOn ?_, ?_, ?_⟩
  · intro sec hsec u sec' hne hu
    rw [← Option.some_inj.mp hsec]
    exact hapart u sec' hne hu
  · intro u sec hu
    rcases inside_goOn.mp hu with ⟨-, hsec⟩ | ⟨hne, hu⟩
    · rw [← Option.some_inj.mp hsec]
      exact h.held t _ ht
    · have hsame : Set.EqOn s.data (access.run v s.data).2 sec.locks := by
        intro l hl
        exact (access.frame v s.data l (Set.disjoint_left.mp (hapart u sec hne hu) hl)).symm
      exact (h.held u sec hu).trans (runAll_congr sec.body hsame sec.vars).2
  · intro l hl
    have hlocks : l ∉ locks := hl t _ (inside_goOn.mpr (.inl ⟨rfl, rfl⟩))
    refine (h.free l fun u sec hu => ?_).trans (access.frame v s.data l hlocks).symm
    by_cases hut : u = t
    · subst hut
      rw [ht, Option.some_inj] at hu
      rw [← hu]
      exact hlocks
    · exact hl u sec (inside_goOn.mpr (.inr ⟨hut, hu⟩))

/-- A thread leaves its section: there is nothing left of it to do. -/
theorem Settled.leave {locks : Set L} {v : V} (h : Settled s d)
    (ht : s.inside t = some ⟨locks, v, []⟩) : Settled (s.goOn t none s.data) d := by
  have hin : ∀ u sec, (s.goOn t none s.data).inside u = some sec → s.inside u = some sec := by
    intro u sec hu
    rcases inside_goOn.mp hu with ⟨-, hnone⟩ | ⟨-, hu⟩
    · cases hnone
    · exact hu
  refine ⟨h.apart.goOn (by simp), fun u sec hu => h.held u sec (hin u sec hu), ?_⟩
  intro l hl
  by_cases hlocks : l ∈ locks
  · exact h.held t _ ht hlocks
  · refine h.free l fun u sec hu => ?_
    by_cases hut : u = t
    · subst hut
      rw [ht, Option.some_inj] at hu
      rw [← hu]
      exact hlocks
    · exact hl u sec (inside_goOn.mpr (.inr ⟨hut, hu⟩))

/-- The threads have done what the sections `calls` do one at a time, and have returned the
    results, but for what the threads in their sections are going to return. -/
structure Serial (code : C → Section L D V) (start : L → D) (calls : List (T × C))
    (log : List (T × V)) (s : Shared L D V T) : Prop where
  settled : Settled s (atomically (fun call => (code call).run) start calls).2
  results : ∀ t, resultsOf t (atomically (fun call => (code call).run) start calls).1 =
    resultsOf t log ++ s.pending t

theorem pending_goOn_of_ne (hu : u ≠ t) (hsame : ∀ sec, s.inside u = some sec →
    (sec.run data).1 = (sec.run s.data).1) : (s.goOn t left data).pending u = s.pending u := by
  unfold Shared.pending
  rw [goOn_of_ne hu]
  cases hin : s.inside u with
  | none => rfl
  | some sec =>
    show [(sec.run data).1] = [(sec.run s.data).1]
    rw [hsame sec hin]

theorem pending_goOn_self : (s.goOn t (some sec) data).pending t = [(sec.run data).1] := by
  unfold Shared.pending
  rw [goOn_self]
  rfl

theorem pending_goOn_none : (s.goOn t none data).pending t = [] := by
  unfold Shared.pending
  rw [goOn_self]

/-- One step of the threads. -/
theorem serial_next {start : L → D} {calls : List (T × C)} {log : List (T × V)}
    (h : Serial code start calls log s) (hnext : CriticalNext code s e s') :
    Serial code start (calls ++ e.entered.toList) (log ++ e.returned.toList) s' := by
  cases hnext with
  | @enter t call hout hfree =>
    obtain ⟨hsettled, hvars⟩ := h.settled.enter hout hfree
    show Serial code start (calls ++ [(t, call)]) (log ++ []) _
    refine ⟨by rw [atomically_snoc]; exact hsettled, fun u => ?_⟩
    rw [atomically_snoc, resultsOf_snoc, h.results, List.append_nil]
    by_cases hu : u = t
    · subst hu
      rw [if_pos rfl, pending_goOn_self, hvars, Shared.pending, hout]
      simp
    · rw [if_neg (Ne.symm hu), List.append_nil, pending_goOn_of_ne hu fun _ _ => rfl]
  | @access t locks v access rest ht =>
    show Serial code start (calls ++ []) (log ++ []) _
    rw [List.append_nil, List.append_nil]
    refine ⟨h.settled.access ht, fun u => ?_⟩
    rw [h.results]
    by_cases hu : u = t
    · subst hu
      rw [pending_goOn_self, Shared.pending, ht]
      rfl
    · rw [pending_goOn_of_ne hu fun sec hin => ?_]
      have hsame : Set.EqOn (access.run v s.data).2 s.data sec.locks := by
        intro l hl
        exact access.frame v s.data l
          (Set.disjoint_left.mp (h.settled.apart u t sec _ hin ht hu) hl)
      exact (runAll_congr sec.body hsame sec.vars).1
  | @leave t locks v ht =>
    show Serial code start (calls ++ []) (log ++ [(t, v)]) _
    rw [List.append_nil]
    refine ⟨h.settled.leave ht, fun u => ?_⟩
    rw [h.results, resultsOf_snoc]
    by_cases hu : u = t
    · subst hu
      rw [if_pos rfl, pending_goOn_none, List.append_nil, Shared.pending, ht]
      rfl
    · rw [if_neg (Ne.symm hu), List.append_nil, pending_goOn_of_ne hu fun _ _ => rfl]

/-- In every run the threads leave the data and return the results of their sections, run
    one at a time in the order in which they took their locks. -/
theorem atomic_of_run {start : L → D}
    (h : Run (CriticalNext code) { data := start } events s) :
    Serial code start (entered events) (returned events) s := by
  refine h.invariant_trace (I := fun events s =>
    Serial code start (entered events) (returned events) s) ?_ ?_
  · refine ⟨⟨?_, ?_, fun _ _ => rfl⟩, fun _ => rfl⟩
    · intro t u sec sec' ht
      cases ht
    · intro t sec ht
      cases ht
  · intro events s e s' hserial hnext
    unfold entered returned
    rw [filterMap_snoc, filterMap_snoc]
    exact serial_next hserial hnext

theorem Serial.of_quiet {start : L → D} {calls : List (T × C)} {log : List (T × V)}
    (h : Serial code start calls log s) (hquiet : ∀ t, s.inside t = none) :
    s.data = (atomically (fun call => (code call).run) start calls).2 ∧
      ∀ t, resultsOf t log =
        resultsOf t (atomically (fun call => (code call).run) start calls).1 := by
  constructor
  · funext l
    refine (h.settled.free l fun t sec ht => ?_).symm
    rw [hquiet t] at ht
    cases ht
  · intro t
    rw [h.results, Shared.pending, hquiet t, List.append_nil]

end EndlessPeak.Lib
