import Mathlib.Data.Finset.Card

/-!
# Condition variables

The threads that wait on a condition variable: a thread is parked until a notification or a
spurious wakeup, and has to take the mutex again before it resumes. What it waits for is
counted: an item that is there, a permit that is free.

* `Covered`: no parked thread has been forgotten, as far as the counter goes.
* `Covered.notifyOne`, `Covered.resume`: one more item with a notification, and one item less
  for a thread that resumes.
-/

namespace EndlessPeak.Lib

/-- The threads that wait: parked; notified, but not resumed yet; woken up without a
    notification, but not resumed yet. -/
structure CondVar (T : Type) where
  parked : Finset T := ∅
  notified : Finset T := ∅
  woken : Finset T := ∅
  parked_notified : Disjoint parked notified := by simp
  parked_woken : Disjoint parked woken := by simp
  notified_woken : Disjoint notified woken := by simp

namespace CondVar

variable {T : Type} {c c' : CondVar T} {t : T} {n : ℕ}

/-- If a thread is parked, each of the `n` items has a notified thread that comes for it. -/
def Covered (n : ℕ) (c : CondVar T) : Prop := c.parked.Nonempty → n ≤ c.notified.card

theorem covered_zero : Covered 0 c := fun _ => Nat.zero_le _

theorem Covered.mono {m : ℕ} (h : Covered n c) (hle : m ≤ n) : Covered m c :=
  fun hparked => hle.trans (h hparked)

variable [DecidableEq T]

/-- All the threads that wait. -/
def waiting (c : CondVar T) : Finset T := c.parked ∪ c.notified ∪ c.woken

theorem notMem_waiting : t ∉ c.waiting ↔ t ∉ c.parked ∧ t ∉ c.notified ∧ t ∉ c.woken := by
  unfold waiting
  rw [Finset.mem_union, Finset.mem_union, not_or, not_or, and_assoc]

/-- A thread releases the mutex and is parked. -/
def park (c : CondVar T) (t : T) (h : t ∉ c.waiting) : CondVar T where
  parked := insert t c.parked
  notified := c.notified
  woken := c.woken
  parked_notified :=
    Finset.disjoint_insert_left.mpr ⟨(notMem_waiting.mp h).2.1, c.parked_notified⟩
  parked_woken := Finset.disjoint_insert_left.mpr ⟨(notMem_waiting.mp h).2.2, c.parked_woken⟩
  notified_woken := c.notified_woken

/-- A parked thread is notified. -/
def notify (c : CondVar T) (t : T) (h : t ∈ c.parked) : CondVar T where
  parked := c.parked.erase t
  notified := insert t c.notified
  woken := c.woken
  parked_notified := Finset.disjoint_insert_right.mpr
    ⟨Finset.notMem_erase t _, c.parked_notified.mono_left (Finset.erase_subset t _)⟩
  parked_woken := c.parked_woken.mono_left (Finset.erase_subset t _)
  notified_woken := Finset.disjoint_insert_left.mpr
    ⟨Finset.disjoint_left.mp c.parked_woken h, c.notified_woken⟩

/-- A parked thread wakes up without a notification. -/
def wakeUp (c : CondVar T) (t : T) (h : t ∈ c.parked) : CondVar T where
  parked := c.parked.erase t
  notified := c.notified
  woken := insert t c.woken
  parked_notified := c.parked_notified.mono_left (Finset.erase_subset t _)
  parked_woken := Finset.disjoint_insert_right.mpr
    ⟨Finset.notMem_erase t _, c.parked_woken.mono_left (Finset.erase_subset t _)⟩
  notified_woken := Finset.disjoint_insert_right.mpr
    ⟨Finset.disjoint_left.mp c.parked_notified h, c.notified_woken⟩

/-- A thread that has been notified or has woken up takes the mutex again. -/
def resume (c : CondVar T) (t : T) : CondVar T where
  parked := c.parked
  notified := c.notified.erase t
  woken := c.woken.erase t
  parked_notified := c.parked_notified.mono_right (Finset.erase_subset t _)
  parked_woken := c.parked_woken.mono_right (Finset.erase_subset t _)
  notified_woken :=
    c.notified_woken.mono (Finset.erase_subset t _) (Finset.erase_subset t _)

theorem notMem_waiting_resume (h : t ∉ c.parked) : t ∉ (c.resume t).waiting :=
  notMem_waiting.mpr ⟨h, Finset.notMem_erase t _, Finset.notMem_erase t _⟩

/-- `notify_one`: it reaches one of the parked threads, if there is one. -/
inductive NotifyOne (c : CondVar T) : CondVar T → Prop
  | nobody : c.parked = ∅ → NotifyOne c c
  | one {t : T} (h : t ∈ c.parked) : NotifyOne c (c.notify t h)

/-! ## Items and notifications -/

/-- One more item, and a notification for it. -/
theorem Covered.notifyOne (h : Covered n c) (hnotify : NotifyOne c c') : Covered (n + 1) c' := by
  cases hnotify with
  | nobody hempty =>
    intro hparked
    rw [hempty] at hparked
    exact absurd hparked Finset.not_nonempty_empty
  | @one t ht =>
    intro _
    have hcard : (insert t c.notified).card = c.notified.card + 1 :=
      Finset.card_insert_of_notMem (Finset.disjoint_left.mp c.parked_notified ht)
    have hn := h ⟨t, ht⟩
    show n + 1 ≤ (insert t c.notified).card
    omega

theorem Covered.wakeUp (h : Covered n c) (ht : t ∈ c.parked) : Covered n (c.wakeUp t ht) :=
  fun _ => h ⟨t, ht⟩

/-- A thread that resumes takes one notification at most, and an item. -/
theorem Covered.resume (h : Covered (n + 1) c) : Covered n (c.resume t) := by
  intro hparked
  have hn := h hparked
  have hcard : c.notified.card - 1 ≤ (c.notified.erase t).card := Finset.pred_card_le_card_erase
  show n ≤ (c.notified.erase t).card
  omega

end CondVar

end EndlessPeak.Lib
