import Mathlib.Logic.Function.Basic
import EndlessPeak.Lib.CondVar
import EndlessPeak.Lib.Run

/-!
# Waiting on a queue

Model of `TSQueue` (`shared/utils/ts_queue.hpp`, lines 38–75) with its condition variable, used
by any number of threads. Each critical section is one step; a thread in `WaitAndPop` is parked
between two of them.

* `queueNext_covered`: the only step that can leave a parked thread behind is a `TSSwap` that
  brings items to the queue on which it is parked.
* `noLostWakeup_of_swapQuiet`: a run without such a swap loses no wakeup.
-/

namespace EndlessPeak

open Lib

/-! ## The queue -/

/-- `class TSQueue`, with the threads `T` that wait on `data_cond_`. -/
structure TSQueue (A T : Type) where
  data : List A := []
  dataCond : CondVar T := {}

namespace TSQueue

variable {A T : Type} {queue queue' : TSQueue A T} {t : T}

/-- `TryPop`. -/
def tryPop (q : TSQueue A T) : Option A × TSQueue A T :=
  match q.data with
  | [] => (none, q)
  | value :: data => (some value, { q with data })

/-- A thread that is parked on the queue without a notification pending for it leaves no more
    items than there are notified threads that have not resumed yet. -/
def Covered (q : TSQueue A T) : Prop := q.dataCond.Covered q.data.length

theorem Covered.tryPop (h : queue.Covered) : queue.tryPop.2.Covered := by
  unfold TSQueue.tryPop
  cases hdata : queue.data with
  | nil => exact h
  | cons value data =>
    refine CondVar.Covered.mono h ?_
    rw [hdata]
    exact Nat.le_succ _

variable [DecidableEq T]

/-- `WaitAndPop` by a thread that holds the mutex, as far as its return or the next wait. -/
def waitAndPop (q : TSQueue A T) (t : T) (h : t ∉ q.dataCond.waiting) : Option A × TSQueue A T :=
  match q.data with
  | [] => (none, { q with dataCond := q.dataCond.park t h })
  | res :: data => (some res, { q with data })

/-- `Push`: which thread is notified is left open. -/
inductive Push (q : TSQueue A T) (value : A) : TSQueue A T → Prop
  | intro {dataCond : CondVar T} : CondVar.NotifyOne q.dataCond dataCond →
      Push q value { data := q.data ++ [value], dataCond }

theorem Covered.waitAndPop (ht : t ∉ queue.dataCond.waiting)
    (h : queue.dataCond.Covered (queue.data.length - 1)) : (queue.waitAndPop t ht).2.Covered := by
  unfold TSQueue.waitAndPop
  split
  · rename_i hdata
    unfold TSQueue.Covered
    show CondVar.Covered queue.data.length _
    rw [hdata]
    exact CondVar.covered_zero
  · rename_i res data hdata
    rw [hdata] at h
    exact h

/-- A thread that resumes takes the item that it was notified of. -/
theorem Covered.resume (ht : t ∉ queue.dataCond.parked) (h : queue.Covered) :
    (TSQueue.waitAndPop { queue with dataCond := queue.dataCond.resume t } t
      (CondVar.notMem_waiting_resume ht)).2.Covered := by
  apply Covered.waitAndPop
  show (queue.dataCond.resume t).Covered (queue.data.length - 1)
  cases hdata : queue.data with
  | nil => exact CondVar.covered_zero
  | cons value data =>
    apply CondVar.Covered.resume
    unfold TSQueue.Covered at h
    rwa [hdata] at h

/-- An item comes with a notification. -/
theorem Covered.push {value : A} (h : queue.Covered) (hpush : queue.Push value queue') :
    queue'.Covered := by
  obtain ⟨hnotify⟩ := hpush
  unfold TSQueue.Covered
  rw [List.length_append]
  exact CondVar.Covered.notifyOne h hnotify

end TSQueue

/-! ## Swaps -/

section Queues

variable {Q A T : Type} [DecidableEq Q] {s s' : Q → TSQueue A T} {t : T}

/-- `TSSwap`. -/
def tsSwap (s : Q → TSQueue A T) (lhs rhs : Q) : Q → TSQueue A T :=
  if lhs = rhs then s
  else Function.update (Function.update s lhs { s lhs with data := (s rhs).data })
    rhs { s rhs with data := (s lhs).data }

/-- What a thread does next. -/
inductive QueueOp (Q A T : Type) where
  | push (t : T) (q : Q) (value : A)
  | tryPop (t : T) (q : Q)
  | waitAndPop (t : T) (q : Q)
  | wakeUp (t : T) (q : Q)
  | resume (t : T) (q : Q)
  | tsSwap (t : T) (lhs rhs : Q)

/-- No wakeup has been lost on any queue. -/
def NoLostWakeup (s : Q → TSQueue A T) : Prop := ∀ q, (s q).Covered

/-- A swap of two queues brings no items to one on which a thread is parked that has not been
    notified: the other queue is empty. -/
def SwapQuiet (s : Q → TSQueue A T) : QueueOp Q A T → Prop
  | .tsSwap _ lhs rhs => lhs ≠ rhs →
    ((s lhs).dataCond.parked.Nonempty → (s rhs).data = []) ∧
      ((s rhs).dataCond.parked.Nonempty → (s lhs).data = [])
  | _ => True

theorem NoLostWakeup.update {q : Q} {queue : TSQueue A T} (h : NoLostWakeup s)
    (hqueue : queue.Covered) : NoLostWakeup (Function.update s q queue) := by
  intro p
  by_cases hp : p = q
  · rw [hp, Function.update_self]
    exact hqueue
  · rw [Function.update_of_ne hp]
    exact h p

theorem TSQueue.covered_swapped {lhs rhs : TSQueue A T}
    (hquiet : lhs.dataCond.parked.Nonempty → rhs.data = []) :
    TSQueue.Covered { lhs with data := rhs.data } := by
  intro hparked
  show rhs.data.length ≤ lhs.dataCond.notified.card
  rw [hquiet hparked]
  exact Nat.zero_le _

theorem noLostWakeup_tsSwap {lhs rhs : Q} (h : NoLostWakeup s)
    (hquiet : SwapQuiet s (.tsSwap t lhs rhs)) : NoLostWakeup (tsSwap s lhs rhs) := by
  unfold tsSwap
  by_cases heq : lhs = rhs
  · rw [if_pos heq]
    exact h
  · rw [if_neg heq]
    obtain ⟨hlhs, hrhs⟩ := hquiet heq
    exact (h.update (TSQueue.covered_swapped hlhs)).update (TSQueue.covered_swapped hrhs)

/-! ## Threads -/

variable [DecidableEq T]

/-- The thread waits on no queue. -/
def Awake (s : Q → TSQueue A T) (t : T) : Prop := ∀ q, t ∉ (s q).dataCond.waiting

/-- One critical section, or a spurious wakeup. -/
inductive QueueNext (s : Q → TSQueue A T) : QueueOp Q A T → (Q → TSQueue A T) → Prop
  | push {t : T} {q : Q} {value : A} {queue : TSQueue A T} : Awake s t →
      (s q).Push value queue →
      QueueNext s (.push t q value) (Function.update s q queue)
  | tryPop {t : T} {q : Q} : Awake s t →
      QueueNext s (.tryPop t q) (Function.update s q (s q).tryPop.2)
  | waitAndPop {t : T} {q : Q} (h : Awake s t) :
      QueueNext s (.waitAndPop t q) (Function.update s q ((s q).waitAndPop t (h q)).2)
  | wakeUp {t : T} {q : Q} (h : t ∈ (s q).dataCond.parked) :
      QueueNext s (.wakeUp t q)
        (Function.update s q { s q with dataCond := (s q).dataCond.wakeUp t h })
  | resume {t : T} {q : Q} (h : t ∉ (s q).dataCond.parked) :
      t ∈ (s q).dataCond.waiting →
      QueueNext s (.resume t q) (Function.update s q
        (TSQueue.waitAndPop { s q with dataCond := (s q).dataCond.resume t } t
          (CondVar.notMem_waiting_resume h)).2)
  | tsSwap {t : T} {lhs rhs : Q} : Awake s t →
      QueueNext s (.tsSwap t lhs rhs) (tsSwap s lhs rhs)

/-- The only step that can leave a parked thread behind is a swap that brings items to the queue
    on which it is parked. -/
theorem queueNext_covered {op : QueueOp Q A T} (h : NoLostWakeup s) (hquiet : SwapQuiet s op)
    (hnext : QueueNext s op s') : NoLostWakeup s' := by
  cases hnext with
  | push _ hpush => exact h.update ((h _).push hpush)
  | tryPop _ => exact h.update (h _).tryPop
  | waitAndPop hawake =>
    exact h.update (.waitAndPop _ (CondVar.Covered.mono (h _) (Nat.sub_le _ 1)))
  | wakeUp hparked => exact h.update (CondVar.Covered.wakeUp (h _) hparked)
  | resume hparked _ => exact h.update ((h _).resume hparked)
  | tsSwap _ => exact noLostWakeup_tsSwap h hquiet

/-- A run in which no swap brings items to a queue on which a thread is parked that has not been
    notified loses no wakeup. -/
theorem noLostWakeup_of_swapQuiet {ops : List (QueueOp Q A T)}
    (h : Run (fun s op s' => SwapQuiet s op ∧ QueueNext s op s') (fun _ => {}) ops s) :
    NoLostWakeup s := by
  apply h.invariant
  · intro q
    exact CondVar.covered_zero
  · intro s op s' hs hstep
    exact queueNext_covered hs hstep.1 hstep.2

end Queues

/-- Two threads wait on a queue, one of them is notified of an item, and the queue is swapped for
    an empty one while the other thread is parked on it. -/
theorem noLostWakeup_of_swapQuiet_notified :
    ∃ s, Run QueueNext (fun _ : Bool => ({} : TSQueue ℕ ℕ))
      [.waitAndPop 0 false, .waitAndPop 1 false, .push 2 false 7, .tsSwap 2 false true] s ∧
        NoLostWakeup s := by
  have hrun : ∃ s, Run (fun s op s' => SwapQuiet s op ∧ QueueNext s op s')
      (fun _ : Bool => ({} : TSQueue ℕ ℕ))
      [.waitAndPop 0 false, .waitAndPop 1 false, .push 2 false 7, .tsSwap 2 false true] s ∧
        True := by
    apply Run.exists_cons ⟨trivial, .waitAndPop fun q => by cases q <;> decide⟩
    apply Run.exists_cons ⟨trivial, .waitAndPop fun q => by cases q <;> decide⟩
    apply Run.exists_cons ⟨trivial, .push (fun q => by cases q <;> decide)
      (.intro (.one (t := 0) (by decide)))⟩
    apply Run.exists_cons ⟨fun _ => ⟨fun _ => rfl, fun h => absurd h (by decide)⟩,
      .tsSwap fun q => by cases q <;> decide⟩
    exact ⟨_, .nil, trivial⟩
  obtain ⟨s, hs, -⟩ := hrun
  exact ⟨s, hs.mono fun _ _ _ h => h.2, noLostWakeup_of_swapQuiet hs⟩

/-- A thread waits on an empty queue, which is then swapped for one with an item. -/
theorem swap_loses_wakeup :
    ∃ s, Run QueueNext (fun _ : Bool => ({} : TSQueue ℕ ℕ))
      [.waitAndPop 0 false, .push 1 true 7, .tsSwap 1 false true] s ∧ ¬ NoLostWakeup s := by
  apply Run.exists_cons (.waitAndPop fun q => by cases q <;> decide)
  apply Run.exists_cons (.push (fun q => by cases q <;> decide) (.intro (.nobody (by decide))))
  apply Run.exists_cons (.tsSwap fun q => by cases q <;> decide)
  refine ⟨_, .nil, fun h => ?_⟩
  exact absurd (h false (by decide)) (by decide)

end EndlessPeak
