import Mathlib.Data.List.Basic
import EndlessPeak.Lib.LockOrder

/-!
# Data races

Two threads race for the data of a lock when both are about to use them and one of them is
about to change them. A thread that holds the lock of the data excludes all others that hold it,
but nobody has to hold it.

* `accesses`: the accesses of a program, each with the locks that are held at it.
* `exclusive_run`: no lock is held by two threads.
* `Race.exists_accesses`: a race is between accesses of two programs that hold no lock in common.
-/

namespace EndlessPeak.Lib

variable {L T : Type} [DecidableEq L] [DecidableEq T]

/-! ## Programs -/

/-- A use of the data of a lock, with the locks that the thread holds then. -/
structure AccessUnder (L : Type) where
  held : List L
  lock : L
  write : Bool

/-- The accesses of a program that starts with the locks `held`. -/
def accesses : List L → List (LockOp L) → List (AccessUnder L)
  | _, [] => []
  | held, .acquire locks :: rest => accesses (held ++ locks) rest
  | held, .release locks :: rest => accesses (held.filter (· ∉ locks)) rest
  | held, .access lock write :: rest => ⟨held, lock, write⟩ :: accesses held rest
  | _, .park locks :: rest => accesses locks rest

variable {rank : L → ℕ} {held after : List L} {p q : List (LockOp L)}

theorem accesses_append (hp : Ordered rank held p after) :
    accesses held (p ++ q) = accesses held p ++ accesses after q := by
  induction p generalizing held with
  | nil =>
    obtain rfl : held = after := hp
    rfl
  | cons op p ih =>
    cases op with
    | acquire locks => exact ih hp.2
    | release locks => exact ih hp
    | access lock write => exact congrArg (_ :: ·) (ih hp)
    | park locks => exact ih hp.2

theorem accesses_map (locks : List L) (write : Bool) (rest : List (LockOp L)) :
    accesses held (locks.map (fun l => .access l write) ++ rest) =
      locks.map (fun l => ⟨held, l, write⟩) ++ accesses held rest := by
  induction locks with
  | nil => rfl
  | cons l locks ih => exact congrArg (_ :: ·) ih

/-- The operation does not give the lock back. -/
def LockOp.Keeps (l : L) : LockOp L → Prop
  | .release locks => l ∉ locks
  | .park _ => False
  | .acquire _ | .access _ _ => True

omit [DecidableEq T] in
/-- A lock that is not given back is held at every access. -/
theorem held_of_keeps {l : L} (hl : l ∈ held) (h : ∀ op ∈ p, op.Keeps l) :
    ∀ a ∈ accesses held p, l ∈ a.held := by
  induction p generalizing held with
  | nil => simp [accesses]
  | cons op p ih =>
    rw [List.forall_mem_cons] at h
    cases op with
    | acquire locks => exact ih (List.mem_append_left _ hl) h.2
    | release locks => exact ih (List.mem_filter.mpr ⟨hl, by simpa [LockOp.Keeps] using h.1⟩) h.2
    | access lock write => exact List.forall_mem_cons.mpr ⟨hl, ih hl h.2⟩
    | park locks => exact absurd h.1 id

/-! ## Threads -/

variable {programs : T → List (LockOp L) → Prop} {s s' : Locking L T} {t u : T} {l : L}
  {e : LockEvent L T} {events : List (LockEvent L T)}

/-- No lock is held by two threads. -/
def Exclusive (s : Locking L T) : Prop := ∀ t u l, t ≠ u → l ∈ s.held t → l ∉ s.held u

omit [DecidableEq L] in
theorem Exclusive.set {rest : List (LockOp L)} {parked : Bool} (h : Exclusive s)
    (hheld : ∀ l ∈ held, l ∈ s.held t ∨ s.Free l) : Exclusive (s.set t held rest parked) := by
  have hother : ∀ u l, u ≠ t → l ∈ held → l ∉ s.held u := by
    intro u l hu hl
    rcases hheld l hl with hl | hfree
    · exact h t u l (Ne.symm hu) hl
    · exact hfree u
  intro u v l huv hu hv
  simp only [Locking.set] at hu hv
  by_cases hut : u = t
  · subst hut
    rw [Function.update_self] at hu
    rw [Function.update_of_ne (Ne.symm huv)] at hv
    exact hother v l (Ne.symm huv) hu hv
  · rw [Function.update_of_ne hut] at hu
    by_cases hvt : v = t
    · subst hvt
      rw [Function.update_self] at hv
      exact hother u l hut hv hu
    · rw [Function.update_of_ne hvt] at hv
      exact h u v l huv hu hv

theorem exclusive_next (h : Exclusive s) (hnext : LockNext programs s e s') : Exclusive s' := by
  cases hnext with
  | start | access | wake => exact h.set fun l hl => .inl hl
  | acquire hrest hawake hfree =>
    refine h.set fun l hl => ?_
    rcases List.mem_append.mp hl with hl | hl
    · exact .inl hl
    · exact .inr (hfree l hl)
  | release | park => exact h.set fun l hl => .inl (List.mem_of_mem_filter hl)

theorem exclusive_run (h : Run (LockNext programs) {} events s) : Exclusive s := by
  refine h.invariant (I := Exclusive) (fun _ _ _ _ hl => absurd hl List.not_mem_nil) ?_
  exact fun _ _ _ hs hnext => exclusive_next hs hnext

/-- What is left of a program are accesses of a program of the thread. -/
def Underway (programs : T → List (LockOp L) → Prop) (s : Locking L T) : Prop :=
  ∀ t, ∀ a ∈ accesses (s.held t) (s.rest t), ∃ p, programs t p ∧ a ∈ accesses [] p

theorem Underway.set {rest : List (LockOp L)} {parked : Bool} (h : Underway programs s)
    (hrest : ∀ a ∈ accesses held rest, ∃ p, programs t p ∧ a ∈ accesses [] p) :
    Underway programs (s.set t held rest parked) := by
  intro u
  unfold Locking.set
  by_cases hu : u = t
  · subst hu
    simp only [Function.update_self]
    exact hrest
  · simp only [Function.update_of_ne hu]
    exact h u

theorem underway_next (hdisciplined : Disciplined rank programs s) (h : Underway programs s)
    (hnext : LockNext programs s e s') : Underway programs s' := by
  cases hnext with
  | @start t program hrest hprogram =>
    have hnone : s.held t = [] := by
      have hend := (hdisciplined t).ordered
      rw [hrest] at hend
      exact hend
    rw [hnone]
    exact h.set fun a ha => ⟨program, hprogram, ha⟩
  | @acquire t locks rest hrest hawake hfree =>
    have hhere := h t
    rw [hrest] at hhere
    exact h.set hhere
  | @release t locks rest hrest =>
    have hhere := h t
    rw [hrest] at hhere
    exact h.set hhere
  | @access t lock write rest hrest =>
    have hhere := h t
    rw [hrest] at hhere
    exact h.set fun a ha => hhere a (List.mem_cons_of_mem _ ha)
  | @park t locks rest hrest =>
    have hhere := h t
    have hordered := (hdisciplined t).ordered
    rw [hrest] at hhere hordered
    rw [hordered.1]
    exact h.set hhere
  | @wake t hparked => exact h.set (h t)

theorem underway_run (hprograms : ∀ t p, programs t p → Ordered rank [] p [])
    (h : Run (LockNext programs) {} events s) : Underway programs s := by
  have hboth : Disciplined rank programs s ∧ Underway programs s := by
    refine h.invariant (I := fun s => Disciplined rank programs s ∧ Underway programs s) ?_ ?_
    · exact ⟨disciplined_run hprograms .nil, fun _ _ ha => absurd ha List.not_mem_nil⟩
    · rintro s e s' ⟨hdisciplined, hs⟩ hnext
      exact ⟨disciplined_next hprograms hdisciplined hnext, underway_next hdisciplined hs hnext⟩
  exact hboth.2

/-! ## Races -/

/-- The thread is about to use the data of the lock. -/
def Locking.About (s : Locking L T) (t : T) (l : L) (write : Bool) : Prop :=
  ∃ rest, s.rest t = .access l write :: rest

/-- The thread `t` is about to change the data of the lock, and `u` to use them. -/
def Race (s : Locking L T) (t u : T) (l : L) : Prop :=
  t ≠ u ∧ s.About t l true ∧ ∃ write, s.About u l write

/-- Two accesses that no lock keeps apart. -/
structure Unordered (l : L) (a b : AccessUnder L) : Prop where
  left : a.lock = l
  right : b.lock = l
  write : a.write = true
  disjoint : ∀ m ∈ a.held, m ∉ b.held

omit [DecidableEq T] in
theorem Locking.About.exists_access {write : Bool} (h : s.About t l write)
    (hunderway : Underway programs s) :
    ∃ p, programs t p ∧ ⟨s.held t, l, write⟩ ∈ accesses [] p := by
  obtain ⟨rest, hrest⟩ := h
  have hhere := hunderway t
  rw [hrest] at hhere
  exact hhere _ List.mem_cons_self

/-- In every run, a race is between accesses that hold no lock in common. -/
theorem Race.exists_accesses (hrace : Race s t u l)
    (hprograms : ∀ t p, programs t p → Ordered rank [] p [])
    (h : Run (LockNext programs) {} events s) :
    ∃ p q, programs t p ∧ programs u q ∧
      ∃ a ∈ accesses [] p, ∃ b ∈ accesses [] q, Unordered l a b := by
  obtain ⟨hne, hwrites, write, huses⟩ := hrace
  have hunderway := underway_run hprograms h
  obtain ⟨p, hp, ha⟩ := hwrites.exists_access hunderway
  obtain ⟨q, hq, hb⟩ := huses.exists_access hunderway
  exact ⟨p, q, hp, hq, _, ha, _, hb, rfl, rfl, rfl, fun m => exclusive_run h t u m hne⟩

/-! ## How a race comes about -/

/-- The locks that a program takes. -/
def taken : List (LockOp L) → List L
  | [] => []
  | .acquire locks :: rest | .park locks :: rest => locks ++ taken rest
  | .release _ :: rest | .access _ _ :: rest => taken rest

omit [DecidableEq L] in
theorem Locking.set_set (s : Locking L T) (t : T) (held held' : List L)
    (rest rest' : List (LockOp L)) (parked parked' : Bool) :
    (s.set t held rest parked).set t held' rest' parked' = s.set t held' rest' parked' := by
  unfold Locking.set
  rw [Function.update_idem, Function.update_idem, Function.update_idem]

theorem run_acquire {locks : List L} {rest : List (LockOp L)}
    (hrest : s.rest t = .acquire locks :: rest) (hawake : s.parked t = false)
    (hnone : ∀ m ∈ locks, m ∉ s.held t) (hfree : ∀ m ∈ locks, ∀ u, u ≠ t → m ∉ s.held u) :
    LockNext programs s (.goOn t) (s.set t (s.held t ++ locks) rest) := by
  refine .acquire hrest hawake fun m hm u => ?_
  by_cases hut : u = t
  · subst hut
    exact hnone m hm
  · exact hfree m hm u hut

/-- The thread gives its locks back and is parked, is woken up, and takes them again. -/
theorem run_park {locks : List L} {rest : List (LockOp L)} (hrest : s.rest t = .park locks :: rest)
    (hnone : (s.held t).filter (· ∉ locks) = [])
    (hfree : ∀ m ∈ locks, ∀ u, u ≠ t → m ∉ s.held u) :
    ∃ events, Run (LockNext programs) s events (s.set t locks rest) := by
  have hpark : LockNext programs s (.goOn t) (s.set t [] (.acquire locks :: rest) true) := by
    rw [← hnone]
    exact .park hrest
  have hwake : LockNext programs (s.set t [] (.acquire locks :: rest) true) (.wake t)
      (s.set t [] (.acquire locks :: rest)) := by
    have hnext : LockNext programs (s.set t [] (.acquire locks :: rest) true) (.wake t) _ :=
      .wake (Function.update_self ..)
    rw [Locking.set_set] at hnext
    simpa only [Locking.set, Function.update_self] using hnext
  have hacquire : LockNext programs (s.set t [] (.acquire locks :: rest)) (.goOn t)
      (s.set t locks rest) := by
    have hheld : (s.set t [] (.acquire locks :: rest)).held t = [] := Function.update_self ..
    have hnext : LockNext programs (s.set t [] (.acquire locks :: rest)) (.goOn t) _ :=
      run_acquire (Function.update_self ..) (Function.update_self ..)
        (fun m _ => by
          rw [hheld]
          exact List.not_mem_nil)
        fun m hm u hu => by
          show m ∉ Function.update s.held t [] u
          rw [Function.update_of_ne hu]
          exact hfree m hm u hu
    rwa [Locking.set_set, hheld, List.nil_append] at hnext
  exact ⟨_, ((Run.single hpark).snoc hwake).snoc hacquire⟩

/-- A thread goes through the first part of its program while no other thread does anything, if
    nobody else holds the locks that it takes. -/
theorem run_alone (hp : Ordered rank (s.held t) p after) (hrest : s.rest t = p ++ q)
    (hawake : s.parked t = false) (hfree : ∀ m ∈ taken p, ∀ u, u ≠ t → m ∉ s.held u) :
    ∃ events, Run (LockNext programs) s events (s.set t after q) := by
  induction p generalizing s with
  | nil =>
    obtain rfl : s.held t = after := hp
    have hsame : s.set t (s.held t) q = s := by
      rw [show q = s.rest t from hrest.symm]
      unfold Locking.set
      rw [← hawake, Function.update_eq_self, Function.update_eq_self, Function.update_eq_self]
    rw [hsame]
    exact ⟨[], .nil⟩
  | cons op p ih =>
    -- the first operation, and the rest of the part
    have hgoOn : ∀ held' events, Run (LockNext programs) s events (s.set t held' (p ++ q)) →
        Ordered rank held' p after → (∀ m ∈ taken p, m ∈ taken (op :: p)) →
        ∃ events, Run (LockNext programs) s events (s.set t after q) := by
      intro held' events hfirst hordered htaken
      have hheld : (s.set t held' (p ++ q)).held t = held' := Function.update_self ..
      obtain ⟨events', hrun⟩ := ih (s := s.set t held' (p ++ q)) (hheld.symm ▸ hordered)
        (Function.update_self ..) (Function.update_self ..) fun m hm u hu => by
          show m ∉ Function.update s.held t held' u
          rw [Function.update_of_ne hu]
          exact hfree m (htaken m hm) u hu
      rw [Locking.set_set] at hrun
      exact ⟨_, hfirst.trans hrun⟩
    cases op with
    | acquire locks =>
      refine hgoOn _ _ (.single (run_acquire hrest hawake (fun m hm hheld => ?_) fun m hm =>
        hfree m (List.mem_append_left _ hm))) hp.2 fun m hm => List.mem_append_right _ hm
      exact Nat.lt_irrefl _ (hp.1 m hm m hheld)
    | release locks => exact hgoOn _ _ (.single (.release hrest)) hp fun m hm => hm
    | access lock write => exact hgoOn _ _ (.single (.access hrest)) hp fun m hm => hm
    | park locks =>
      have hpark : ∃ events, Run (LockNext programs) s events (s.set t locks (p ++ q)) :=
        run_park hrest hp.1 fun m hm => hfree m (List.mem_append_left _ hm)
      obtain ⟨events, hpark⟩ := hpark
      exact hgoOn _ _ hpark hp.2 fun m hm => List.mem_append_right _ hm

/-- A thread that is in no program starts one, and goes through its first part. -/
theorem run_from_start (hprogram : programs t (p ++ q)) (hrest : s.rest t = [])
    (hheld : s.held t = []) (hordered : Ordered rank [] p after)
    (hfree : ∀ m ∈ taken p, ∀ u, u ≠ t → m ∉ s.held u) :
    ∃ events, Run (LockNext programs) s events (s.set t after q) := by
  have hstart : LockNext programs s (.start t (p ++ q)) (s.set t (s.held t) (p ++ q)) :=
    .start hrest hprogram
  have hnone : (s.set t (s.held t) (p ++ q)).held t = [] := by
    rw [hheld]
    exact Function.update_self ..
  obtain ⟨events, hrun⟩ := run_alone (hnone.symm ▸ hordered) (Function.update_self ..)
    (Function.update_self ..) fun m hm u hu => by
      show m ∉ Function.update s.held t (s.held t) u
      rw [Function.update_of_ne hu]
      exact hfree m hm u hu
  rw [Locking.set_set] at hrun
  exact ⟨_, (Run.single hstart).trans hrun⟩

/-- Two programs come to a race if the second one, on its way to its access, takes none of the
    locks that the first one holds at its own. -/
theorem exists_race {p' q' : List (LockOp L)} {a b : List L} {write : Bool} (hne : t ≠ u)
    (hp : programs t (p ++ .access l true :: p')) (hq : programs u (q ++ .access l write :: q'))
    (hfirst : Ordered rank [] p a) (hsecond : Ordered rank [] q b) (hfree : ∀ m ∈ a, m ∉ taken q) :
    ∃ events s, Run (LockNext programs) {} events s ∧ Race s t u l := by
  obtain ⟨ls, hrun⟩ := run_from_start (s := {}) hp rfl rfl hfirst
    fun m _ v _ => List.not_mem_nil
  obtain ⟨ls', hrun'⟩ := run_from_start (s := Locking.set {} t a (.access l true :: p')) hq
    (Function.update_of_ne hne.symm ..) (Function.update_of_ne hne.symm ..) hsecond
    fun m hm v _ => by
      show m ∉ Function.update (fun _ => []) t a v
      by_cases hv : v = t
      · rw [hv, Function.update_self]
        exact fun hmem => hfree m hmem hm
      · rw [Function.update_of_ne hv]
        exact List.not_mem_nil
  refine ⟨_, _, hrun.trans hrun', hne, ⟨p', ?_⟩, write, q', Function.update_self ..⟩
  show Function.update (Function.update _ t _) u _ t = _
  rw [Function.update_of_ne hne, Function.update_self]

end EndlessPeak.Lib
