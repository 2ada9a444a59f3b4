import EndlessPeak.Lib.Critical
import EndlessPeak.Net.TSQueue

/-!
# The mutexes of the queues

Model of `TSQueue` (`shared/utils/ts_queue.hpp`, lines 29–90) access by access: a thread takes
`data_mutex_`, or both of them in `TSSwap`, and works on `data_` in several steps, between
which the other threads go on. What a move leaves behind in `data_` or in an item is not
specified and can be anything.

* `run_code`: what a call does when nobody comes between.
* `queues_atomic`: in every run the queues are as if every call were one step, and every
  thread gets the results that it would get then.
* `queueNext_data`: these steps are those of `QueueNext`.
-/

namespace EndlessPeak

open Lib

/-! ## The calls -/

/-- What a move leaves behind. -/
structure MovedFrom (A : Type) where
  item : A → A
  queue : List A → List A

/-- What a call returns. -/
inductive QueueResult (A : Type) where
  | void
  | value (value : Option A)
  | empty (empty : Bool)
  | size (size : ℕ)
  deriving DecidableEq

/-- The local variables of a call: `tmp`, what it returns, and whether it has returned
    before its end. -/
structure QueueVars (A : Type) where
  tmp : List A := []
  result : QueueResult A := .void
  returned : Bool := false

/-- The member functions of `TSQueue`, and `TSSwap`. `waitAndPop` is one evaluation of the
    predicate of the wait, and what follows if it holds; otherwise the thread gives back the
    mutex, waits and calls again. -/
inductive QueueCall (Q A : Type) where
  | push (q : Q) (value : A)
  | tryPop (q : Q)
  | waitAndPop (q : Q)
  | empty (q : Q)
  | size (q : Q)
  | tsSwap (lhs rhs : Q)

namespace QueueCall

variable {Q A T : Type} [DecidableEq Q]

/-- `data_.empty()`, the move of `data_.front()`, and `data_.pop()`. -/
def popBody (moved : MovedFrom A) (q : Q) : List (Access {q} (List A) (QueueVars A)) :=
  [ .at q (Set.mem_singleton q) fun v data =>
      if data.isEmpty then ({ v with result := .value none, returned := true }, data)
      else (v, data),
    .at q (Set.mem_singleton q) fun v data =>
      match v.returned, data with
      | false, value :: data => ({ v with result := .value (some value) }, moved.item value :: data)
      | _, _ => (v, data),
    .at q (Set.mem_singleton q) fun v data => if v.returned then (v, data) else (v, data.tail) ]

/-- `lhs.data_ = std::move(rhs.data_)`. -/
def moveInto (moved : MovedFrom A) (lhs rhs : Q) : Access {lhs, rhs} (List A) (QueueVars A) where
  run v d := (v, Function.update (Function.update d rhs (moved.queue (d rhs))) lhs (d rhs))
  frame v d l hl := by
    rw [Set.mem_insert_iff, Set.mem_singleton_iff, not_or] at hl
    exact (Function.update_of_ne hl.1 _ _).trans (Function.update_of_ne hl.2 _ d)
  congr v d d' h := by
    refine ⟨rfl, fun l hl => ?_⟩
    show Function.update (Function.update d rhs (moved.queue (d rhs))) lhs (d rhs) l =
      Function.update (Function.update d' rhs (moved.queue (d' rhs))) lhs (d' rhs) l
    have hrhs : d rhs = d' rhs := h (by simp)
    by_cases hlhs : l = lhs
    · subst hlhs
      rw [Function.update_self, Function.update_self, hrhs]
    · rw [Function.update_of_ne hlhs, Function.update_of_ne hlhs, hrhs]
      by_cases heq : l = rhs
      · subst heq
        rw [Function.update_self, Function.update_self]
      · rw [Function.update_of_ne heq, Function.update_of_ne heq, h hl]

/-- `TSSwap` of two queues. -/
def swapBody (moved : MovedFrom A) (lhs rhs : Q) :
    List (Access {lhs, rhs} (List A) (QueueVars A)) :=
  [ .at lhs (by simp) fun v data => ({ v with tmp := data }, moved.queue data),
    moveInto moved lhs rhs,
    .at rhs (by simp) fun v _ => ({ v with tmp := moved.queue v.tmp }, v.tmp) ]

/-- The mutexes of a call and its accesses. -/
def code (moved : MovedFrom A) : QueueCall Q A → Section Q (List A) (QueueVars A)
  | .push q value => ⟨{q}, {}, [.at q (Set.mem_singleton q) fun v data => (v, data ++ [value])]⟩
  | .tryPop q => ⟨{q}, {}, popBody moved q⟩
  | .waitAndPop q => ⟨{q}, {}, popBody moved q⟩
  | .empty q =>
    ⟨{q}, {}, [.at q (Set.mem_singleton q) fun v data =>
      ({ v with result := .empty data.isEmpty }, data)]⟩
  | .size q =>
    ⟨{q}, {}, [.at q (Set.mem_singleton q) fun v data =>
      ({ v with result := .size data.length }, data)]⟩
  | .tsSwap lhs rhs =>
    -- a swap with itself returns at once
    if lhs = rhs then ⟨∅, {}, []⟩ else ⟨{lhs, rhs}, {}, swapBody moved lhs rhs⟩

/-- A call as one step. -/
def apply : QueueCall Q A → (Q → List A) → QueueResult A × (Q → List A)
  | .push q value, d => (.void, Function.update d q (d q ++ [value]))
  | .tryPop q, d | .waitAndPop q, d => (.value (d q).head?, Function.update d q (d q).tail)
  | .empty q, d => (.empty (d q).isEmpty, d)
  | .size q, d => (.size (d q).length, d)
  | .tsSwap lhs rhs, d =>
    (.void, if lhs = rhs then d else Function.update (Function.update d lhs (d rhs)) rhs (d lhs))

/-! ## A call on its own -/

/-- Popping, access by access. -/
theorem runAll_popBody (moved : MovedFrom A) (q : Q) (d : Q → List A) :
    (runAll (popBody moved q) {} d).1.result = .value (d q).head? ∧
      (runAll (popBody moved q) {} d).2 = Function.update d q (d q).tail := by
  cases hdata : d q with
  | nil => simp [popBody, runAll, Access.at, hdata]
  | cons value data => simp [popBody, runAll, Access.at, hdata]

/-- Swapping, access by access: what the moves leave behind is overwritten. -/
theorem runAll_swapBody (moved : MovedFrom A) {lhs rhs : Q} (hne : lhs ≠ rhs) (d : Q → List A) :
    (runAll (swapBody moved lhs rhs) {} d).1.result = .void ∧
      (runAll (swapBody moved lhs rhs) {} d).2 =
        Function.update (Function.update d lhs (d rhs)) rhs (d lhs) := by
  refine ⟨rfl, funext fun q => ?_⟩
  -- the three assignments, the last one outermost
  let emptied : Q → List A := Function.update d lhs (moved.queue (d lhs))
  let filled : Q → List A :=
    Function.update (Function.update emptied rhs (moved.queue (emptied rhs))) lhs (emptied rhs)
  show (Function.update filled rhs (d lhs) : Q → List A) q =
    (Function.update (Function.update d lhs (d rhs)) rhs (d lhs) : Q → List A) q
  by_cases hrhs : q = rhs
  · subst hrhs
    rw [Function.update_self, Function.update_self]
  · rw [Function.update_of_ne hrhs, Function.update_of_ne hrhs]
    have hother : emptied rhs = d rhs := Function.update_of_ne (Ne.symm hne) _ d
    by_cases hlhs : q = lhs
    · subst hlhs
      rw [Function.update_self, ← hother]
      exact Function.update_self ..
    · rw [Function.update_of_ne hlhs]
      exact (Function.update_of_ne hlhs _ _).trans
        ((Function.update_of_ne hrhs _ _).trans (Function.update_of_ne hlhs _ d))

theorem code_tsSwap (moved : MovedFrom A) (lhs rhs : Q) : code moved (.tsSwap lhs rhs) =
    if lhs = rhs then ⟨∅, {}, []⟩ else ⟨{lhs, rhs}, {}, swapBody moved lhs rhs⟩ := rfl

theorem run_code (moved : MovedFrom A) (call : QueueCall Q A) (d : Q → List A) :
    apply call d = (((code moved call).run d).1.result, ((code moved call).run d).2) := by
  cases call with
  | push q value => rfl
  | tryPop q | waitAndPop q =>
    obtain ⟨hresult, hdata⟩ := runAll_popBody moved q d
    exact Prod.ext hresult.symm hdata.symm
  | empty q | size q => exact Prod.ext rfl (Function.update_eq_self q d).symm
  | tsSwap lhs rhs =>
    have happly : apply (.tsSwap lhs rhs) d = (.void, if lhs = rhs then d
        else Function.update (Function.update d lhs (d rhs)) rhs (d lhs)) := rfl
    rw [happly, code_tsSwap]
    by_cases heq : lhs = rhs
    · rw [if_pos heq, if_pos heq]
      rfl
    · obtain ⟨hresult, hdata⟩ := runAll_swapBody moved heq d
      rw [if_neg heq, if_neg heq]
      exact Prod.ext hresult.symm hdata.symm

end QueueCall

/-! ## Any number of threads -/

variable {Q A T : Type} [DecidableEq Q] [DecidableEq T]

/-- The events of any number of threads that call the functions of the queues. -/
abbrev QueueEvent (Q A T : Type) := CriticalEvent T (QueueCall Q A) (QueueVars A)

/-- The calls, one at a time, on queues that are empty at first. -/
def oneAtATime (calls : List (T × QueueCall Q A)) : List (T × QueueResult A) × (Q → List A) :=
  atomically QueueCall.apply (fun _ => []) calls

/-- In every run, whatever the accesses of the threads come between: every thread has got the
    results that it would get if each call were one step, in the order in which the mutexes
    were taken, and the queues hold what they would hold then once no thread is in a call. -/
theorem queues_atomic (moved : MovedFrom A) {events : List (QueueEvent Q A T)}
    {s : Shared Q (List A) (QueueVars A) T}
    (h : Run (CriticalNext (QueueCall.code moved)) { data := fun _ => [] } events s) :
    (∀ t, (resultsOf t (returned events)).map QueueVars.result <+:
        resultsOf t (oneAtATime (entered events)).1) ∧
      ((∀ t, s.inside t = none) → s.data = (oneAtATime (entered events)).2 ∧
        ∀ t, (resultsOf t (returned events)).map QueueVars.result =
          resultsOf t (oneAtATime (entered events)).1) := by
  have hserial := atomic_of_run h
  have hsame := atomically_map (T := T) QueueVars.result (fun call d =>
    QueueCall.run_code moved call d) (fun _ => []) (entered events)
  have hresults : ∀ t, resultsOf t (oneAtATime (entered events)).1 =
      (resultsOf t (returned events)).map QueueVars.result ++
        (s.pending t).map QueueVars.result := by
    intro t
    rw [oneAtATime, hsame, resultsOf_map, hserial.results, List.map_append]
  refine ⟨fun t => ?_, fun hquiet => ?_⟩
  · rw [hresults t]
    exact List.prefix_append _ _
  · obtain ⟨hdata, -⟩ := hserial.of_quiet hquiet
    refine ⟨by rw [hdata, oneAtATime, hsame], fun t => ?_⟩
    rw [hresults t, Shared.pending, hquiet t, List.map_nil, List.append_nil]

/-- Thread `1` pushes between the three moves of a swap by thread `0`. -/
theorem queues_atomic_swap : ∃ events s,
    Run (CriticalNext (QueueCall.code (Q := ℕ) (A := ℕ) ⟨id, fun _ => []⟩))
      ({ data := fun _ => [] } : Shared ℕ (List ℕ) (QueueVars ℕ) ℕ) events s ∧
    entered events = [(0, .tsSwap 0 1), (1, .push 2 7)] ∧
    (∀ t, (resultsOf t (returned events)).map QueueVars.result <+:
        resultsOf t (oneAtATime (entered events)).1) ∧
      ((∀ t, s.inside t = none) → s.data = (oneAtATime (entered events)).2 ∧
        ∀ t, (resultsOf t (returned events)).map QueueVars.result =
          resultsOf t (oneAtATime (entered events)).1) := by
  have hrun : ∃ s, Run (CriticalNext (QueueCall.code (Q := ℕ) (A := ℕ) ⟨id, fun _ => []⟩))
      ({ data := fun _ => [] } : Shared ℕ (List ℕ) (QueueVars ℕ) ℕ)
      [.enter 0 (.tsSwap 0 1), .access 0, .enter 1 (.push 2 7), .access 0, .access 1,
        .leave 1 {}, .access 0, .leave 0 {}] s ∧ True := by
    apply Run.exists_cons (.enter rfl (by simp))
    apply Run.exists_cons (.access (t := 0) rfl)
    refine Run.exists_cons (.enter rfl ?_) ?_
    · intro u sec hu
      rcases inside_goOn.mp hu with ⟨-, hsec⟩ | ⟨hne, hin⟩
      · rw [← Option.some_inj.mp hsec]
        show Disjoint ({0, 1} : Set ℕ) {2}
        simp
      · rcases inside_goOn.mp hin with ⟨hu, -⟩ | ⟨-, hnone⟩
        · exact absurd hu hne
        · cases hnone
    · apply Run.exists_cons (.access (t := 0) rfl)
      apply Run.exists_cons (.access (t := 1) rfl)
      apply Run.exists_cons (.leave (t := 1) rfl)
      apply Run.exists_cons (.access (t := 0) rfl)
      apply Run.exists_cons (.leave (t := 0) rfl)
      exact ⟨_, .nil, trivial⟩
  obtain ⟨s, hs, -⟩ := hrun
  exact ⟨_, s, hs, rfl, queues_atomic _ hs⟩

/-! ## The calls of `QueueNext` -/

/-- The items of the queues. -/
def contents (s : Q → TSQueue A T) : Q → List A := fun q => (s q).data

/-- The call whose critical section a step is; a spurious wakeup is in none. -/
def QueueOp.call : QueueOp Q A T → Option (T × QueueCall Q A)
  | .push t q value => some (t, .push q value)
  | .tryPop t q => some (t, .tryPop q)
  | .waitAndPop t q | .resume t q => some (t, .waitAndPop q)
  | .wakeUp _ _ => none
  | .tsSwap t lhs rhs => some (t, .tsSwap lhs rhs)

omit [DecidableEq T] in
theorem contents_update (s : Q → TSQueue A T) (q : Q) (queue : TSQueue A T) :
    contents (Function.update s q queue) = Function.update (contents s) q queue.data := by
  funext p
  by_cases hp : p = q
  · subst hp
    rw [Function.update_self, contents, Function.update_self]
  · rw [Function.update_of_ne hp, contents, Function.update_of_ne hp]
    rfl

theorem data_waitAndPop (queue : TSQueue A T) (t : T) (h : t ∉ queue.dataCond.waiting) :
    (queue.waitAndPop t h).2.data = queue.data.tail := by
  unfold TSQueue.waitAndPop
  split
  · rename_i hdata
    show queue.data = queue.data.tail
    rw [hdata]
    rfl
  · rename_i hdata
    rw [hdata]
    rfl

theorem queueNext_data {s s' : Q → TSQueue A T} {op : QueueOp Q A T} (h : QueueNext s op s') :
    contents s' = (op.call.map fun c => (c.2.apply (contents s)).2).getD (contents s) := by
  cases h with
  | push _ hpush =>
    obtain ⟨hnotify⟩ := hpush
    exact contents_update s _ _
  | @tryPop t q _ =>
    rw [contents_update]
    show Function.update (contents s) q (s q).tryPop.2.data = Function.update _ q (s q).data.tail
    congr 1
    unfold TSQueue.tryPop
    split
    · rename_i hdata
      rw [hdata]
      rfl
    · rename_i hdata
      rw [hdata]
      rfl
  | waitAndPop hawake =>
    rw [contents_update, data_waitAndPop]
    rfl
  | wakeUp hparked =>
    rw [contents_update]
    exact Function.update_eq_self _ (contents s)
  | resume hparked hwaiting =>
    rw [contents_update, data_waitAndPop]
    rfl
  | @tsSwap t lhs rhs _ =>
    show contents (tsSwap s lhs rhs) = if lhs = rhs then contents s
      else Function.update (Function.update (contents s) lhs (contents s rhs)) rhs (contents s lhs)
    unfold tsSwap
    by_cases heq : lhs = rhs
    · rw [if_pos heq, if_pos heq]
    · rw [if_neg heq, if_neg heq, contents_update, contents_update]
      rfl

/-- Every run of these steps leaves the items that the calls leave, one at a time. -/
theorem queueRun_data {s : Q → TSQueue A T} {ops : List (QueueOp Q A T)}
    (h : Run QueueNext (fun _ => {}) ops s) :
    contents s = (oneAtATime (ops.filterMap QueueOp.call)).2 := by
  refine h.invariant_trace (I := fun ops s =>
    contents s = (oneAtATime (ops.filterMap QueueOp.call)).2) rfl ?_
  intro ops s op s' hs hnext
  rw [queueNext_data hnext, hs, filterMap_snoc]
  cases hcall : op.call with
  | none => simp
  | some c =>
    obtain ⟨t, call⟩ := c
    rw [Option.toList_some]
    unfold oneAtATime
    rw [atomically_snoc]
    rfl

end EndlessPeak
