import Mathlib.Data.List.Basic
import Mathlib.Logic.Function.Basic
import EndlessPeak.Lib.Run

/-!
# Locks in an order

Threads that take locks, some of them while they hold others. A thread that takes several
locks at once waits until all of them are free and holds none of them before. A thread that waits
on a condition variable gives its locks back, is parked until somebody wakes it up, and takes them
again. If every program takes locks of a higher rank than those it holds, and is parked only
when it holds no other lock, then a thread that is not parked can go on, or waits for one that can.

* `Ordered`: a program that takes its locks in the order of their ranks.
* `disciplined_run`: what is left of every program is so, in every run, and a parked thread holds
  no lock.
* `exists_enabled`: no deadlock, and how many threads a thread can wait through.
-/

namespace EndlessPeak.Lib

variable {L T : Type} [DecidableEq L] [DecidableEq T]

/-! ## Programs -/

/-- What a thread does with locks, and with the data that they are for. -/
inductive LockOp (L : Type) where
  /-- It takes these locks together. -/
  | acquire (locks : List L)
  /-- It gives these locks back. -/
  | release (locks : List L)
  /-- It uses the data of the lock, and may change it. It need not hold the lock. -/
  | access (lock : L) (write : Bool)
  /-- It gives these locks back and is parked. Woken up, it takes them again. -/
  | park (locks : List L)

/-- The program takes every lock while it holds only locks of smaller rank, and holds no lock
    while it is parked. It starts with the locks `held` and ends with the last argument. -/
def Ordered (rank : L → ℕ) : List L → List (LockOp L) → List L → Prop
  | held, [], after => held = after
  | held, .acquire locks :: rest, after =>
    (∀ l ∈ locks, ∀ m ∈ held, rank m < rank l) ∧ Ordered rank (held ++ locks) rest after
  | held, .release locks :: rest, after =>
    Ordered rank (held.filter (· ∉ locks)) rest after
  | held, .access _ _ :: rest, after => Ordered rank held rest after
  | held, .park locks :: rest, after =>
    held.filter (· ∉ locks) = [] ∧ Ordered rank locks rest after

variable {rank : L → ℕ} {held mid after : List L} {p q : List (LockOp L)}

theorem Ordered.append (hp : Ordered rank held p mid) (hq : Ordered rank mid q after) :
    Ordered rank held (p ++ q) after := by
  induction p generalizing held with
  | nil =>
    obtain rfl : held = mid := hp
    exact hq
  | cons op p ih =>
    cases op with
    | acquire locks => exact ⟨hp.1, ih hp.2⟩
    | release locks => exact ih hp
    | access lock write => exact ih hp
    | park locks => exact ⟨hp.1, ih hp.2⟩

theorem ordered_flatMap {A : Type} {f : A → List (LockOp L)} {as : List A}
    (h : ∀ a ∈ as, Ordered rank held (f a) held) : Ordered rank held (as.flatMap f) held := by
  induction as with
  | nil => rfl
  | cons a as ih =>
    rw [List.forall_mem_cons] at h
    rw [List.flatMap_cons]
    exact h.1.append (ih h.2)

theorem ordered_accesses (locks : List L) (write : Bool) :
    Ordered rank held (locks.map fun l => .access l write) held := by
  induction locks with
  | nil => rfl
  | cons l locks ih => exact ih

theorem Ordered.ne_nil {l : L} (h : Ordered rank held p []) (hl : l ∈ held) : p ≠ [] := by
  rintro rfl
  obtain rfl : held = [] := h
  exact absurd hl List.not_mem_nil

/-! ## Threads -/

/-- The locks that each thread holds, what is left of its program, and whether it is parked. -/
structure Locking (L T : Type) where
  held : T → List L := fun _ => []
  rest : T → List (LockOp L) := fun _ => []
  parked : T → Bool := fun _ => false

/-- What happens next: a thread starts a program, or goes on with it, or is woken up. -/
inductive LockEvent (L T : Type) where
  | start (t : T) (program : List (LockOp L))
  | goOn (t : T)
  | wake (t : T)

/-- No thread holds the lock. -/
def Locking.Free (s : Locking L T) (l : L) : Prop := ∀ t, l ∉ s.held t

/-- The thread `t` holds the locks `held` now, and has `rest` left. -/
def Locking.set (s : Locking L T) (t : T) (held : List L) (rest : List (LockOp L))
    (parked : Bool := false) : Locking L T where
  held := Function.update s.held t held
  rest := Function.update s.rest t rest
  parked := Function.update s.parked t parked

/-- A step of the threads, each of which runs its programs. -/
inductive LockNext (programs : T → List (LockOp L) → Prop) (s : Locking L T) :
    LockEvent L T → Locking L T → Prop
  | start {t : T} {program : List (LockOp L)} : s.rest t = [] → programs t program →
      LockNext programs s (.start t program) (s.set t (s.held t) program)
  | acquire {t : T} {locks : List L} {rest : List (LockOp L)} :
      s.rest t = .acquire locks :: rest → s.parked t = false → (∀ l ∈ locks, s.Free l) →
      LockNext programs s (.goOn t) (s.set t (s.held t ++ locks) rest)
  | release {t : T} {locks : List L} {rest : List (LockOp L)} :
      s.rest t = .release locks :: rest →
      LockNext programs s (.goOn t) (s.set t ((s.held t).filter (· ∉ locks)) rest)
  | access {t : T} {lock : L} {write : Bool} {rest : List (LockOp L)} :
      s.rest t = .access lock write :: rest →
      LockNext programs s (.goOn t) (s.set t (s.held t) rest)
  | park {t : T} {locks : List L} {rest : List (LockOp L)} :
      s.rest t = .park locks :: rest →
      LockNext programs s (.goOn t)
        (s.set t ((s.held t).filter (· ∉ locks)) (.acquire locks :: rest) true)
  | wake {t : T} : s.parked t = true →
      LockNext programs s (.wake t) (s.set t (s.held t) (s.rest t))

/-- The thread can go on with its program. A parked thread cannot. -/
def Enabled (programs : T → List (LockOp L) → Prop) (s : Locking L T) (t : T) : Prop :=
  ∃ s', LockNext programs s (.goOn t) s'

variable {programs : T → List (LockOp L) → Prop} {s s' : Locking L T} {t u : T}
  {e : LockEvent L T} {events : List (LockEvent L T)}

/-- The thread has given back the locks that it waits with in one of its programs, and has to take
    them before it goes on. -/
def Waits (programs : T → List (LockOp L) → Prop) (t : T) (rest : List (LockOp L)) : Prop :=
  ∃ p locks after, programs t p ∧ .park locks ∈ p ∧ rest = .acquire locks :: after

/-- What is left of the program of a thread takes its locks in order, and gives all of them back. A
    parked thread holds no lock. -/
structure InPlace (rank : L → ℕ) (programs : T → List (LockOp L) → Prop) (t : T) (held : List L)
    (rest : List (LockOp L)) (parked : Bool) : Prop where
  ordered : Ordered rank held rest []
  parks : ∀ locks, .park locks ∈ rest → ∃ p, programs t p ∧ .park locks ∈ p
  parked : parked = true → held = [] ∧ Waits programs t rest

/-- Every thread keeps to this. -/
def Disciplined (rank : L → ℕ) (programs : T → List (LockOp L) → Prop) (s : Locking L T) : Prop :=
  ∀ t, InPlace rank programs t (s.held t) (s.rest t) (s.parked t)

theorem Disciplined.set {rest : List (LockOp L)} {parked : Bool} (h : Disciplined rank programs s)
    (hplace : InPlace rank programs t held rest parked) :
    Disciplined rank programs (s.set t held rest parked) := by
  intro u
  unfold Locking.set
  by_cases hu : u = t
  · subst hu
    simp only [Function.update_self]
    exact hplace
  · simp only [Function.update_of_ne hu]
    exact h u

omit [DecidableEq T] in
/-- A thread that is not parked. -/
theorem InPlace.awake {rest : List (LockOp L)} (hrest : Ordered rank held rest [])
    (hparks : ∀ locks, .park locks ∈ rest → ∃ p, programs t p ∧ .park locks ∈ p) :
    InPlace rank programs t held rest false :=
  ⟨hrest, hparks, fun hfalse => absurd hfalse Bool.false_ne_true⟩

omit [DecidableEq T] in
theorem InPlace.tail {held' : List L} {op : LockOp L} {rest : List (LockOp L)} {parked : Bool}
    (h : InPlace rank programs t held (op :: rest) parked) (hrest : Ordered rank held' rest []) :
    InPlace rank programs t held' rest false :=
  .awake hrest fun locks hlocks => h.parks locks (List.mem_cons_of_mem _ hlocks)

omit [DecidableEq T] in
/-- A thread is parked, and holds no lock until it has taken those again that it waits with. -/
theorem InPlace.park {locks : List L} {rest : List (LockOp L)} {parked : Bool}
    (h : InPlace rank programs t held (.park locks :: rest) parked) :
    InPlace rank programs t (held.filter (· ∉ locks)) (.acquire locks :: rest) true := by
  obtain ⟨hnone, hafter⟩ := h.ordered
  obtain ⟨p, hp, hpark⟩ := h.parks locks List.mem_cons_self
  rw [hnone]
  refine ⟨⟨fun _ _ _ hm => absurd hm List.not_mem_nil, hafter⟩, fun more hmore => ?_,
    fun _ => ⟨rfl, p, locks, rest, hp, hpark, rfl⟩⟩
  rcases List.mem_cons.mp hmore with hacquire | hmore
  · cases hacquire
  · exact h.parks more (List.mem_cons_of_mem _ hmore)

/-- One step keeps the discipline. -/
theorem disciplined_next (hprograms : ∀ t p, programs t p → Ordered rank [] p [])
    (h : Disciplined rank programs s) (hnext : LockNext programs s e s') :
    Disciplined rank programs s' := by
  cases hnext with
  | @start t program hrest hprogram =>
    have hnone : s.held t = [] := by
      have hend := (h t).ordered
      rw [hrest] at hend
      exact hend
    rw [hnone]
    refine h.set (.awake (hprograms t program hprogram) fun locks hlocks => ?_)
    exact ⟨program, hprogram, hlocks⟩
  | @acquire t locks rest hrest hawake hfree =>
    have hhere := h t
    rw [hrest] at hhere
    exact h.set (hhere.tail hhere.ordered.2)
  | @release t locks rest hrest =>
    have hhere := h t
    rw [hrest] at hhere
    exact h.set (hhere.tail hhere.ordered)
  | @access t lock write rest hrest =>
    have hhere := h t
    rw [hrest] at hhere
    exact h.set (hhere.tail hhere.ordered)
  | @park t locks rest hrest =>
    have hhere := h t
    rw [hrest] at hhere
    exact h.set hhere.park
  | @wake t hparked => exact h.set (.awake (h t).ordered (h t).parks)

/-- In every run all threads keep the discipline. -/
theorem disciplined_run (hprograms : ∀ t p, programs t p → Ordered rank [] p [])
    (h : Run (LockNext programs) {} events s) : Disciplined rank programs s := by
  refine h.invariant (I := Disciplined rank programs) (fun _ => ?_) ?_
  · exact .awake rfl fun locks hlocks => absurd hlocks List.not_mem_nil
  · exact fun _ _ _ hs hnext => disciplined_next hprograms hs hnext

/-! ## Waiting -/

/-- The thread `t` is not parked, and is about to take a lock that the thread `u` holds. -/
def WaitsFor (s : Locking L T) (t u : T) : Prop :=
  s.parked t = false ∧ ∃ locks rest, s.rest t = .acquire locks :: rest ∧ ∃ l ∈ locks, l ∈ s.held u

/-- From `t` to `u` in `n` steps, each from a thread to one that it waits for. -/
inductive WaitsThrough (s : Locking L T) : ℕ → T → T → Prop
  | here {t : T} : WaitsThrough s 0 t t
  | next {n : ℕ} {t u v : T} : WaitsFor s t u → WaitsThrough s n u v →
      WaitsThrough s (n + 1) t v

/-- A thread that cannot go on is parked, or waits for one that holds a lock. -/
theorem enabled_or_waits (hrest : s.rest t ≠ []) (hawake : s.parked t = false) :
    Enabled programs s t ∨ ∃ u, WaitsFor s t u := by
  cases hcase : s.rest t with
  | nil => exact absurd hcase hrest
  | cons op rest =>
    cases op with
    | release locks => exact .inl ⟨_, .release hcase⟩
    | access lock write => exact .inl ⟨_, .access hcase⟩
    | park locks => exact .inl ⟨_, .park hcase⟩
    | acquire locks =>
      by_cases hfree : ∀ l ∈ locks, s.Free l
      · exact .inl ⟨_, .acquire hcase hawake hfree⟩
      · right
        unfold Locking.Free at hfree
        push Not at hfree
        obtain ⟨l, hl, u, hu⟩ := hfree
        exact ⟨u, hawake, locks, rest, hcase, l, hl, hu⟩

omit [DecidableEq T] in
theorem Disciplined.awake (h : Disciplined rank programs s) {l : L} (hl : l ∈ s.held t) :
    s.parked t = false := by
  by_contra hparked
  rw [Bool.not_eq_false] at hparked
  rw [((h t).parked hparked).1] at hl
  exact absurd hl List.not_mem_nil

/-- A thread that holds a lock can go on, or waits for one that can. The ranks of the locks
    that are waited for increase from thread to thread. -/
theorem exists_enabled_of_held {bound : ℕ} (hbound : ∀ l, rank l ≤ bound)
    (h : Disciplined rank programs s) {l : L} (hl : l ∈ s.held t) :
    ∃ n u, n ≤ bound - rank l ∧ WaitsThrough s n t u ∧ Enabled programs s u := by
  induction hn : bound - rank l using Nat.strongRecOn generalizing t l with
  | _ n ih =>
    have hcases : Enabled programs s t ∨ _ :=
      enabled_or_waits ((h t).ordered.ne_nil hl) (h.awake hl)
    rcases hcases with henabled | ⟨u, hu⟩
    · exact ⟨0, t, Nat.zero_le n, .here, henabled⟩
    · obtain ⟨-, locks, rest, hrest, k, hk, hheld⟩ := id hu
      have hhere := (h t).ordered
      rw [hrest] at hhere
      have hless : rank l < rank k := hhere.1 k hk l hl
      have hk' := hbound k
      obtain ⟨m, v, hm, hthrough, henabled⟩ := ih (bound - rank k) (by omega) hheld rfl
      exact ⟨m + 1, v, by omega, .next hu hthrough, henabled⟩

/-- No deadlock: a thread that is in a program and is not parked can go on, or it waits, through a
    number of other threads that the ranks bound, for one that can. -/
theorem exists_enabled {bound : ℕ} (hbound : ∀ l, rank l ≤ bound)
    (hprograms : ∀ t p, programs t p → Ordered rank [] p [])
    (h : Run (LockNext programs) {} events s) (ht : s.rest t ≠ []) (hawake : s.parked t = false) :
    ∃ n u, n ≤ bound + 1 ∧ WaitsThrough s n t u ∧ Enabled programs s u := by
  have hcases : Enabled programs s t ∨ _ := enabled_or_waits ht hawake
  rcases hcases with henabled | ⟨u, hu⟩
  · exact ⟨0, t, Nat.zero_le _, .here, henabled⟩
  · obtain ⟨-, locks, rest, -, l, -, hheld⟩ := id hu
    obtain ⟨m, v, hm, hthrough, henabled⟩ :=
      exists_enabled_of_held hbound (disciplined_run hprograms h) hheld
    exact ⟨m + 1, v, by omega, .next hu hthrough, henabled⟩

end EndlessPeak.Lib
