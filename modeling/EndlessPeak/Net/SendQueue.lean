import Mathlib.Logic.Function.Basic
import EndlessPeak.Lib.Run

/-!
# The outbound queue of a session

Model of `Session::PushToSend`, `Session::Send` and the completion handler of its
write (`net/session/session.cpp`, lines 162–214), run by any number of threads. A
step is one operation on `out_queue_`, `sending_` or `state_`, or the start of a
write; every write succeeds, and the session stays connected.

`Send` looks whether the queue is empty, then takes the flag, then pops. Another
thread can drain the queue in between; `TryPop` then returns nothing, and `Send`
returns with the flag set.

* `SendSide.step_cases`: the ways a step can go.
* `Owned`: who has the duty to clear the flag, as long as this has not happened.
* `Pops`: every `TryPop` finds a buffer; `Fed`: the orders of steps for which this
  is so (`pops_iff_fed`).
* `neverStalls_iff`: for these orders, and no others, the queue never stalls.
* `drained_before_start_stalls`: one sender thread and one handler suffice to stall.
-/

namespace EndlessPeak

open Lib

/-! ## Model -/

/-- `enum class Session::State`. -/
inductive SessionState where
  | connecting
  | connected
  | disconnecting
  | disconnected
  | user
  deriving DecidableEq, Repr

/-- `std::vector<std::uint8_t>`, what a `SendBuffer` points to. -/
abbrev Buffer := List UInt8

/-- Where a thread is: outside, or before one of the operations of `Send` or of the
    completion handler. -/
inductive Pc where
  | idle
  /-- `Send`, before `IsConnected()`. -/
  | isConnected
  /-- `Send`, before `out_queue_.Empty()`. -/
  | empty
  /-- `Send`, before `StartSending()`. -/
  | startSending
  /-- `Send`, before `out_queue_.TryPop()`. -/
  | tryPop
  /-- `Send`, before `socket_->async_write`. -/
  | asyncWrite (buf : Buffer)
  /-- The handler, before `sending_.clear()`. -/
  | clear
  /-- The handler, before `out_queue_.Empty()`. -/
  | checkEmpty
  deriving DecidableEq, Repr

/-- The send side of a session. Threads are numbered; `outstanding` counts the writes
    that have been started and whose completion no thread has taken up yet, and
    `written` lists the buffers passed to `async_write`. -/
structure SendSide where
  pc : ℕ → Pc := fun _ => .idle
  queue : List Buffer := []
  sending : Bool := false
  outstanding : ℕ := 0
  written : List Buffer := []
  state : SessionState := .connected

/-- What can happen next. -/
inductive SendEvent where
  /-- A thread calls `PushToSend`: it pushes the buffer and enters `Send`. -/
  | push (t : ℕ) (buf : Buffer)
  /-- A write has succeeded, and a thread runs its completion handler. -/
  | complete (t : ℕ)
  /-- A thread inside `Send` or the handler executes its next operation. -/
  | step (t : ℕ)
  deriving DecidableEq, Repr

namespace SendSide

/-- Thread `t` is at `pc` next. -/
def goto (σ : SendSide) (t : ℕ) (pc : Pc) : SendSide :=
  { σ with pc := Function.update σ.pc t pc }

/-- The next operation of thread `t`. -/
def exec (σ : SendSide) (t : ℕ) : Option SendSide :=
  match σ.pc t with
  | .idle => none
  | .isConnected => some (σ.goto t (if σ.state ≠ .disconnected then .empty else .idle))
  | .empty => some (σ.goto t (if σ.queue = [] then .idle else .startSending))
  | .startSending =>
    some { σ.goto t (if σ.sending then .idle else .tryPop) with sending := true }
  | .tryPop =>
    match σ.queue with
    | [] => some (σ.goto t .idle) -- "This check should never pass"
    | buf :: rest => some { σ.goto t (.asyncWrite buf) with queue := rest }
  | .asyncWrite buf =>
    some { σ.goto t .idle with
      outstanding := σ.outstanding + 1
      written := σ.written ++ [buf] }
  | .clear => some { σ.goto t .checkEmpty with sending := false }
  | .checkEmpty => some (σ.goto t (if σ.queue = [] then .idle else .isConnected))

/-- One atomic step. -/
def step (σ : SendSide) : SendEvent → Option SendSide
  | .push t buf =>
    if σ.pc t = .idle then some { σ.goto t .isConnected with queue := σ.queue ++ [buf] }
    else none
  | .complete t =>
    if σ.pc t = .idle ∧ 0 < σ.outstanding then
      some { σ.goto t .clear with outstanding := σ.outstanding - 1 }
    else none
  | .step t => σ.exec t

end SendSide

/-- What an event pushes to the queue. -/
def SendEvent.pushed : SendEvent → List Buffer
  | .push _ buf => [buf]
  | _ => []

/-- The events can happen in this order after the session has connected, and lead to
    the last argument. -/
def SendRun : List SendEvent → SendSide → Prop := Run (stepRel SendSide.step) {}

/-! ## Invariant -/

/-- A thread there has set the flag, or has taken over the duty to clear it, and has
    not passed it on. -/
def Pc.Holds : Pc → Prop
  | .tryPop | .asyncWrite _ | .clear => True
  | _ => False

/-- A thread there still looks at the queue and at the flag, in this order. -/
def Pc.Attends : Pc → Prop
  | .isConnected | .empty | .startSending | .checkEmpty => True
  | _ => False

/-- Who has the duty to clear the flag. -/
inductive Owner where
  | nobody
  | thread (t : ℕ)
  | write
  deriving DecidableEq, Repr

/-- `owner` has the duty to clear the flag, and nobody else. -/
structure Owned (σ : SendSide) (owner : Owner) : Prop where
  sending : σ.sending = true ↔ owner ≠ .nobody
  holds : ∀ t, (σ.pc t).Holds ↔ owner = .thread t
  outstanding : σ.outstanding = if owner = .write then 1 else 0

/-- The buffer that a thread there has popped and not written yet. -/
def Pc.hand : Pc → List Buffer
  | .asyncWrite buf => [buf]
  | _ => []

/-- The buffer that the owner of the duty has in hand. -/
def Owner.hand (σ : SendSide) : Owner → List Buffer
  | .thread t => (σ.pc t).hand
  | _ => []

/-- The buffers on their way, oldest first. -/
def SendSide.buffers (σ : SendSide) (owner : Owner) : List Buffer :=
  σ.written ++ owner.hand σ ++ σ.queue

/-- The flag is set exactly if somebody has the duty to clear it, and a buffer that
    waits while the flag is clear is attended to. -/
structure SendSide.Inv (σ : SendSide) : Prop where
  connected : σ.state = .connected
  owned : ∃ owner, Owned σ owner
  attended : σ.queue ≠ [] → σ.sending = false → ∃ t, (σ.pc t).Attends

namespace SendSide

variable {σ σ' : SendSide} {t : ℕ} {pc : Pc} {owner owner' : Owner} {e : SendEvent}

theorem goto_pc (σ : SendSide) (t u : ℕ) (pc : Pc) :
    (σ.goto t pc).pc u = if u = t then pc else σ.pc u := by
  simp [goto, Function.update_apply]

@[simp] theorem goto_queue : (σ.goto t pc).queue = σ.queue := rfl
@[simp] theorem goto_sending : (σ.goto t pc).sending = σ.sending := rfl
@[simp] theorem goto_outstanding : (σ.goto t pc).outstanding = σ.outstanding := rfl
@[simp] theorem goto_state : (σ.goto t pc).state = σ.state := rfl

theorem holds_goto (h : Owned σ owner) (ht : pc.Holds ↔ owner' = .thread t)
    (hothers : ∀ u, u ≠ t → (owner = .thread u ↔ owner' = .thread u)) (u : ℕ) :
    ((σ.goto t pc).pc u).Holds ↔ owner' = .thread u := by
  rw [goto_pc]
  split_ifs with hu
  · rw [hu, ht]
  · rw [h.holds u, hothers u hu]

/-- A thread without the duty moves to a place without it. -/
theorem owned_goto (h : Owned σ owner) (ht : ¬ (σ.pc t).Holds) (hpc : ¬ pc.Holds) :
    Owned (σ.goto t pc) owner where
  sending := h.sending
  holds := by
    refine holds_goto h ?_ fun _ _ => Iff.rfl
    rw [← h.holds t]
    exact iff_of_false hpc ht
  outstanding := h.outstanding

@[simp] theorem goto_written : (σ.goto t pc).written = σ.written := rfl

theorem buffers_goto (h : Owned σ owner) (ht : ¬ (σ.pc t).Holds) :
    (σ.goto t pc).buffers owner = σ.buffers owner := by
  cases owner with
  | nobody | write => rfl
  | thread u =>
    have hu : u ≠ t := by
      rintro rfl
      exact ht ((h.holds u).mpr rfl)
    simp [buffers, Owner.hand, goto_pc, hu]

/-! ## What a step does -/

/-- The steps of the system, one constructor for each way a step can go. -/
inductive Step (σ : SendSide) : SendEvent → SendSide → Prop
  | push (t : ℕ) (buf : Buffer) (hpc : σ.pc t = .idle) :
      Step σ (.push t buf) { σ.goto t .isConnected with queue := σ.queue ++ [buf] }
  | complete (t : ℕ) (hpc : σ.pc t = .idle) (hpos : 0 < σ.outstanding) :
      Step σ (.complete t) { σ.goto t .clear with outstanding := σ.outstanding - 1 }
  | look (t : ℕ) (pc : Pc) (hpc : (σ.pc t).Attends)
      (hnext : pc.Attends ∨ pc = .idle ∧ (σ.queue = [] ∨ σ.state = .disconnected)) :
      Step σ (.step t) (σ.goto t pc)
  | busy (t : ℕ) (hpc : σ.pc t = .startSending) (hflag : σ.sending = true) :
      Step σ (.step t) (σ.goto t .idle)
  | take (t : ℕ) (hpc : σ.pc t = .startSending) (hflag : σ.sending = false) :
      Step σ (.step t) { σ.goto t .tryPop with sending := true }
  | popNothing (t : ℕ) (hpc : σ.pc t = .tryPop) (hqueue : σ.queue = []) :
      Step σ (.step t) (σ.goto t .idle)
  | pop (t : ℕ) (buf : Buffer) (rest : List Buffer) (hpc : σ.pc t = .tryPop)
      (hqueue : σ.queue = buf :: rest) :
      Step σ (.step t) { σ.goto t (.asyncWrite buf) with queue := rest }
  | write (t : ℕ) (buf : Buffer) (hpc : σ.pc t = .asyncWrite buf) :
      Step σ (.step t) { σ.goto t .idle with
        outstanding := σ.outstanding + 1
        written := σ.written ++ [buf] }
  | clear (t : ℕ) (hpc : σ.pc t = .clear) :
      Step σ (.step t) { σ.goto t .checkEmpty with sending := false }

theorem step_cases (hstep : σ.step e = some σ') : Step σ e σ' := by
  cases e with
  | push t buf =>
    simp only [step, Option.ite_none_right_eq_some, Option.some_inj] at hstep
    obtain ⟨hpc, rfl⟩ := hstep
    exact .push t buf hpc
  | complete t =>
    simp only [step, Option.ite_none_right_eq_some, Option.some_inj] at hstep
    obtain ⟨⟨hpc, hpos⟩, rfl⟩ := hstep
    exact .complete t hpc hpos
  | step t =>
    simp only [step, exec] at hstep
    cases hpc : σ.pc t with
    | idle => simp [hpc] at hstep
    | isConnected =>
      simp only [hpc, Option.some_inj] at hstep
      subst hstep
      apply Step.look t _ (by simp [hpc, Pc.Attends])
      split_ifs with hstate
      · exact .inl trivial
      · exact .inr ⟨rfl, .inr (not_not.mp hstate)⟩
    | empty | checkEmpty =>
      simp only [hpc, Option.some_inj] at hstep
      subst hstep
      apply Step.look t _ (by simp [hpc, Pc.Attends])
      split_ifs with hqueue
      · exact .inr ⟨rfl, .inl hqueue⟩
      · exact .inl trivial
    | startSending =>
      simp only [hpc, Option.some_inj] at hstep
      subst hstep
      cases hflag : σ.sending with
      | true =>
        have hsame : ({ σ.goto t .idle with sending := true } : SendSide) = σ.goto t .idle := by
          rw [← hflag]
          rfl
        rw [if_pos rfl, hsame]
        exact .busy t hpc hflag
      | false => exact .take t hpc hflag
    | tryPop =>
      cases hqueue : σ.queue with
      | nil =>
        simp only [hpc, hqueue, Option.some_inj] at hstep
        subst hstep
        exact .popNothing t hpc hqueue
      | cons buf rest =>
        simp only [hpc, hqueue, Option.some_inj] at hstep
        subst hstep
        exact .pop t buf rest hpc hqueue
    | asyncWrite buf =>
      simp only [hpc, Option.some_inj] at hstep
      subst hstep
      exact .write t buf hpc
    | clear =>
      simp only [hpc, Option.some_inj] at hstep
      subst hstep
      exact .clear t hpc

/-! ## The invariant is kept -/

/-- A thread that still looks at the queue has no duty yet. -/
theorem not_holds_of_attends (h : pc.Attends) : ¬ pc.Holds := by
  cases pc <;> simp_all [Pc.Attends, Pc.Holds]

/-- Where a thread that looks at the queue goes next it has no duty either. -/
theorem not_holds_of_look (h : pc.Attends ∨ pc = .idle ∧ (σ.queue = [] ∨ σ.state = .disconnected)) :
    ¬ pc.Holds := by
  rcases h with h | ⟨rfl, -⟩
  · exact not_holds_of_attends h
  · exact id

theorem eq_write_of_pos (h : Owned σ owner) (hpos : 0 < σ.outstanding) : owner = .write := by
  by_contra hcon
  rw [h.outstanding, if_neg hcon] at hpos
  exact absurd hpos (Nat.lt_irrefl 0)

theorem holds_take (h : Owned σ owner) (hpc : pc.Holds) (howner : ∀ u, owner ≠ .thread u)
    (u : ℕ) : ((σ.goto t pc).pc u).Holds ↔ Owner.thread t = .thread u := by
  refine holds_goto h (by simp [hpc]) ?_ u
  intro u hu
  simpa [howner u] using Ne.symm hu

theorem holds_give (h : Owned σ (.thread t)) (hpc : ¬ pc.Holds) (howner : ∀ u, owner' ≠ .thread u)
    (u : ℕ) : ((σ.goto t pc).pc u).Holds ↔ owner' = .thread u := by
  refine holds_goto h (iff_of_false hpc (howner t)) ?_ u
  intro u hu
  simpa [howner u] using Ne.symm hu

/-- A step keeps track of who has the duty and of the buffers on their way, provided
    that `TryPop` finds a buffer. -/
theorem owned_step (h : Owned σ owner) (hstep : σ.step e = some σ')
    (hpop : ∀ t, e = .step t → σ.pc t = .tryPop → σ.queue ≠ []) :
    ∃ owner', Owned σ' owner' ∧ σ'.buffers owner' = σ.buffers owner ++ e.pushed := by
  cases step_cases hstep with
  | push t buf hpc =>
    have hnot : ¬ (σ.pc t).Holds := by simp [hpc, Pc.Holds]
    have hmoved : Owned (σ.goto t .isConnected) owner := owned_goto h hnot id
    refine ⟨owner, ⟨hmoved.sending, hmoved.holds, hmoved.outstanding⟩, ?_⟩
    have hbuffers : (σ.goto t .isConnected).buffers owner = σ.buffers owner :=
      buffers_goto h hnot
    show _ ++ _ ++ (σ.queue ++ [buf]) = _ ++ [buf]
    rw [← List.append_assoc]
    exact congrArg (· ++ [buf]) hbuffers
  | complete t hpc hpos =>
    -- the duty passes from the write to the thread
    obtain rfl := eq_write_of_pos h hpos
    refine ⟨.thread t, ⟨?_, holds_take h trivial (by simp), ?_⟩, ?_⟩
    · simpa using h.sending
    · show σ.outstanding - 1 = 0
      rw [h.outstanding, if_pos rfl]
    · simp [buffers, Owner.hand, Pc.hand, goto, SendEvent.pushed]
  | look t pc hpc hnext =>
    have hnot := not_holds_of_attends hpc
    refine ⟨owner, owned_goto h hnot (not_holds_of_look hnext), ?_⟩
    simp [buffers_goto h hnot, SendEvent.pushed]
  | busy t hpc hflag =>
    have hnot : ¬ (σ.pc t).Holds := by simp [hpc, Pc.Holds]
    refine ⟨owner, owned_goto h hnot id, ?_⟩
    simp [buffers_goto h hnot, SendEvent.pushed]
  | take t hpc hflag =>
    -- nobody had the duty; now the thread has it
    have hnobody : owner = .nobody := by
      by_contra hcon
      simp [h.sending.mpr hcon] at hflag
    subst hnobody
    refine ⟨.thread t, ⟨by simp, holds_take h trivial (by simp), h.outstanding⟩, ?_⟩
    simp [buffers, Owner.hand, Pc.hand, goto, SendEvent.pushed]
  | popNothing t hpc hqueue => exact absurd hqueue (hpop t rfl hpc)
  | pop t buf rest hpc hqueue =>
    obtain rfl := (h.holds t).mp (by simp [hpc, Pc.Holds])
    refine ⟨.thread t, ⟨h.sending, holds_goto h (by simp [Pc.Holds]) fun _ _ => Iff.rfl,
      h.outstanding⟩, ?_⟩
    simp [buffers, Owner.hand, Pc.hand, goto, SendEvent.pushed, hpc, hqueue]
  | write t buf hpc =>
    obtain rfl := (h.holds t).mp (by simp [hpc, Pc.Holds])
    refine ⟨.write, ⟨?_, holds_give h id (by simp), ?_⟩, ?_⟩
    · simpa using h.sending
    · show σ.outstanding + 1 = 1
      rw [h.outstanding, if_neg (by simp)]
    · simp [buffers, Owner.hand, Pc.hand, goto, SendEvent.pushed, hpc]
  | clear t hpc =>
    obtain rfl := (h.holds t).mp (by simp [hpc, Pc.Holds])
    refine ⟨.nobody, ⟨by simp, holds_give h id (by simp), ?_⟩, ?_⟩
    · simpa using h.outstanding
    · simp [buffers, Owner.hand, Pc.hand, goto, SendEvent.pushed, hpc]

/-- Only a thread's own steps take the duty from it; until then it stays where it is,
    and the queue only grows. -/
theorem owned_step_other (h : Owned σ (.thread t)) (hstep : σ.step e = some σ')
    (hne : e ≠ .step t) :
    Owned σ' (.thread t) ∧ σ'.pc t = σ.pc t ∧ σ'.queue = σ.queue ++ e.pushed := by
  have hsending : σ.sending = true := h.sending.mpr (by simp)
  have ht : (σ.pc t).Holds := (h.holds t).mpr rfl
  have hpct : ∀ u pc, u ≠ t → (σ.goto u pc).pc t = σ.pc t := by
    intro u pc hu
    rw [goto_pc, if_neg (Ne.symm hu)]
  have hstep_ne : ∀ u, SendEvent.step u ≠ .step t → u ≠ t := by
    rintro u hu rfl
    exact hu rfl
  have hother : ∀ u, u ≠ t → ¬ (σ.pc u).Holds := by
    intro u hu hcon
    exact hu (Owner.thread.inj ((h.holds u).mp hcon)).symm
  cases step_cases hstep with
  | push u buf hpc =>
    have hu : u ≠ t := by
      rintro rfl
      simp [hpc, Pc.Holds] at ht
    have hmoved : Owned (σ.goto u .isConnected) (.thread t) := owned_goto h (hother u hu) id
    exact ⟨⟨hmoved.sending, hmoved.holds, hmoved.outstanding⟩, hpct u _ hu, rfl⟩
  | complete u hpc hpos => exact absurd (eq_write_of_pos h hpos) (by simp)
  | look u pc hpc hnext =>
    exact ⟨owned_goto h (not_holds_of_attends hpc) (not_holds_of_look hnext),
      hpct u _ (hstep_ne u hne), (List.append_nil _).symm⟩
  | busy u hpc hflag =>
    have hu := hstep_ne u hne
    exact ⟨owned_goto h (hother u hu) id, hpct u _ hu, (List.append_nil _).symm⟩
  | take u hpc hflag => simp [hsending] at hflag
  | popNothing u hpc _ | pop u buf rest hpc _ | write u buf hpc | clear u hpc =>
    have hu := hother u (hstep_ne u hne)
    simp [hpc, Pc.Holds] at hu

theorem state_step (hstep : σ.step e = some σ') : σ'.state = σ.state := by
  cases step_cases hstep <;> rfl

theorem attends_goto (h : pc.Attends) : ∃ u, ((σ.goto t pc).pc u).Attends :=
  ⟨t, by rwa [goto_pc, if_pos rfl]⟩

/-- A step leaves no buffer behind that waits while the flag is clear and that nobody
    attends to. -/
theorem attended_step (h : σ.Inv) (hstep : σ.step e = some σ') (hqueue : σ'.queue ≠ [])
    (hflag : σ'.sending = false) : ∃ t, (σ'.pc t).Attends := by
  obtain ⟨owner, howned⟩ := h.owned
  -- a thread that has the duty finds the flag set
  have hset : ∀ t, (σ.pc t).Holds → σ.sending = true := by
    intro t ht
    rw [howned.sending, (howned.holds t).mp ht]
    simp
  cases step_cases hstep with
  | push t buf hpc => exact attends_goto (σ := σ) (t := t) trivial
  | complete t hpc hpos =>
    have hsending : σ.sending = true := by
      rw [howned.sending, eq_write_of_pos howned hpos]
      simp
    simp [hsending] at hflag
  | look t pc hpc hnext =>
    rcases hnext with hnext | ⟨-, hnil | hstate⟩
    · exact attends_goto hnext
    · exact absurd hnil hqueue
    · simp [h.connected] at hstate
  | busy t hpc hbusy => simp [hbusy] at hflag
  | take t hpc hfree => simp at hflag
  | popNothing t hpc _ | pop t buf rest hpc _ | write t buf hpc =>
    simp [hset t (by simp [hpc, Pc.Holds])] at hflag
  | clear t hpc => exact attends_goto (σ := σ) (t := t) trivial

theorem inv_init : Inv {} where
  connected := rfl
  owned := ⟨.nobody, by simp, by simp [Pc.Holds], rfl⟩
  attended h := absurd rfl h

theorem inv_step (h : σ.Inv) (hstep : σ.step e = some σ')
    (hpop : ∀ t, e = .step t → σ.pc t = .tryPop → σ.queue ≠ []) : σ'.Inv := by
  obtain ⟨owner, howned⟩ := h.owned
  obtain ⟨owner', howned', -⟩ := owned_step howned hstep hpop
  exact ⟨(state_step hstep).trans h.connected, ⟨owner', howned'⟩, attended_step h hstep⟩

theorem enter_tryPop (hstep : σ.step e = some σ') (hbefore : σ.pc t ≠ .tryPop)
    (hafter : σ'.pc t = .tryPop) :
    e = .step t ∧ σ.pc t = .startSending ∧ σ.sending = false := by
  -- a move of another thread, or one to another place, cannot do this
  have hmove : ∀ u pc, (σ.goto u pc).pc t = .tryPop → u = t ∧ pc = .tryPop := by
    intro u pc h
    rw [goto_pc] at h
    split_ifs at h with hu
    · exact ⟨hu.symm, h⟩
    · exact absurd h hbefore
  cases step_cases hstep with
  | take u hpc hflag =>
    obtain ⟨rfl, -⟩ := hmove u _ hafter
    exact ⟨rfl, hpc, hflag⟩
  | look u pc hpc hnext =>
    have htry := (hmove u _ hafter).2
    exact absurd (by simp [htry, Pc.Holds] : pc.Holds) (not_holds_of_look hnext)
  | push u | complete u | busy u | popNothing u | pop u | write u | clear u =>
    exact absurd (hmove u _ hafter).2 (by simp)

/-- `TryPop` is not repeated. -/
theorem leave_tryPop (hstep : σ.step (.step t) = some σ') (hpc : σ.pc t = .tryPop) :
    σ'.pc t ≠ .tryPop := by
  simp only [step, exec, hpc] at hstep
  split at hstep <;> cases hstep <;> simp [goto]

theorem owned_run {events : List SendEvent} (h : Owned σ (.thread t))
    (hrun : Run (stepRel step) σ events σ') (hnot : .step t ∉ events) :
    Owned σ' (.thread t) ∧ σ'.pc t = σ.pc t ∧
      σ'.queue = σ.queue ++ events.flatMap SendEvent.pushed := by
  induction hrun with
  | nil => exact ⟨h, rfl, by simp⟩
  | snoc hrun hstep ih =>
    rw [List.mem_append, List.mem_singleton, not_or] at hnot
    obtain ⟨howned, hpc, hqueue⟩ := ih hnot.1
    obtain ⟨howned', hpc', hqueue'⟩ := owned_step_other howned hstep (Ne.symm hnot.2)
    exact ⟨howned', hpc'.trans hpc, by rw [hqueue', hqueue]; simp⟩

end SendSide

/-! ## Which runs stall -/

variable {events : List SendEvent} {σ : SendSide} {t : ℕ}

/-- However far the events have got: `TryPop`, if it is next, finds a buffer; the flag
    is set only if a write is outstanding, a handler has yet to clear the flag, or a
    thread is between its successful `StartSending` and its `async_write`; and if
    nothing is going on, the flag is clear and the queue is empty. -/
def NeverStalls (events : List SendEvent) : Prop :=
  ∀ before after, events = before ++ after → ∀ σ, SendRun before σ →
    (∀ t, after.head? = some (.step t) → σ.pc t = .tryPop → σ.queue ≠ []) ∧
    (σ.sending = true → 0 < σ.outstanding ∨ ∃ t, (σ.pc t).Holds) ∧
    ((∀ t, σ.pc t = .idle) → σ.outstanding = 0 → σ.sending = false ∧ σ.queue = [])

/-- Every `TryPop` finds a buffer. -/
def Pops (events : List SendEvent) : Prop :=
  EachAfter (fun before e => ∀ t σ, e = .step t → SendRun before σ → σ.pc t = .tryPop →
    σ.queue ≠ []) events

/-- Whenever a thread takes the flag although the queue has been emptied, another
    thread pushes a buffer before the `TryPop` of the first. -/
def Fed (events : List SendEvent) : Prop :=
  ∀ before mid after t σ σ₁ σ₂, events = before ++ .step t :: (mid ++ .step t :: after) →
    SendRun before σ → σ.pc t = .startSending → σ.sending = false → σ.queue = [] →
      σ.step (.step t) = some σ₁ → Run (stepRel SendSide.step) σ₁ mid σ₂ → .step t ∉ mid →
        ∃ u buf, .push u buf ∈ mid

/-- As long as `TryPop` finds a buffer, the invariant holds. -/
theorem inv_of_pops (hpops : Pops events) (h : SendRun events σ) : σ.Inv := by
  induction h with
  | nil => exact SendSide.inv_init
  | snoc hrun hstep ih =>
    obtain ⟨hpops, hlast⟩ := EachAfter.snoc_iff.mp hpops
    exact SendSide.inv_step (ih hpops) hstep fun t he => hlast t _ he hrun

/-- A thread that is at `TryPop` has taken the flag, and has not stepped since. -/
theorem tryPop_origin (h : SendRun events σ) (hpc : σ.pc t = .tryPop) :
    ∃ before mid σ₀ σ₁, events = before ++ .step t :: mid ∧ .step t ∉ mid ∧
      SendRun before σ₀ ∧ σ₀.pc t = .startSending ∧ σ₀.sending = false ∧
        σ₀.step (.step t) = some σ₁ ∧ Run (stepRel SendSide.step) σ₁ mid σ := by
  induction h with
  | nil => simp at hpc
  | @snoc ls e τ τ' hrun hstep ih =>
    by_cases hbefore : τ.pc t = .tryPop
    · obtain ⟨before, mid, σ₀, σ₁, rfl, hnot, h0, hstart, hflag, h1, hmid⟩ := ih hbefore
      have hne : e ≠ .step t := by
        rintro rfl
        exact SendSide.leave_tryPop hstep hbefore hpc
      refine ⟨before, mid ++ [e], σ₀, σ₁, by simp, ?_, h0, hstart, hflag, h1, hmid.snoc hstep⟩
      rw [List.mem_append, List.mem_singleton, not_or]
      exact ⟨hnot, Ne.symm hne⟩
    · obtain ⟨rfl, hstart, hflag⟩ := SendSide.enter_tryPop hstep hbefore hpc
      exact ⟨ls, [], τ, τ', rfl, by simp, hrun, hstart, hflag, hstep, .nil⟩

theorem neverStalls_iff_pops : NeverStalls events ↔ Pops events := by
  constructor
  · rintro h before e after rfl t σ rfl hrun hpc
    exact (h before (.step t :: after) rfl σ hrun).1 t rfl hpc
  · rintro h before after rfl σ hrun
    have hinv := inv_of_pops (EachAfter.append_iff.mp h).1 hrun
    obtain ⟨owner, howned⟩ := hinv.owned
    refine ⟨?_, ?_, ?_⟩
    · intro t hhead hpc
      obtain ⟨after, rfl⟩ := List.head?_eq_some_iff.mp hhead
      exact h before (.step t) after rfl t σ rfl hrun hpc
    · intro hsending
      cases owner with
      | nobody => exact absurd rfl (howned.sending.mp hsending)
      | thread t => exact .inr ⟨t, (howned.holds t).mpr rfl⟩
      | write =>
        left
        rw [howned.outstanding]
        decide
    · intro hidle hzero
      have hflag : σ.sending = false := by
        rw [Bool.eq_false_iff, Ne, howned.sending, not_not]
        cases owner with
        | nobody => rfl
        | thread t =>
          have ht := (howned.holds t).mpr rfl
          simp [hidle t, Pc.Holds] at ht
        | write => simp [howned.outstanding] at hzero
      refine ⟨hflag, ?_⟩
      by_contra hqueue
      obtain ⟨t, ht⟩ := hinv.attended hqueue hflag
      simp [hidle t, Pc.Attends] at ht

theorem flatMap_pushed_ne_nil :
    events.flatMap SendEvent.pushed ≠ [] ↔ ∃ u buf, .push u buf ∈ events := by
  rw [Ne, List.flatMap_eq_nil_iff]
  push Not
  constructor
  · rintro ⟨e, he, hne⟩
    cases e with
    | push u buf => exact ⟨u, buf, he⟩
    | complete u | step u => exact absurd rfl hne
  · rintro ⟨u, buf, he⟩
    exact ⟨_, he, by simp [SendEvent.pushed]⟩

/-- The queue at the `TryPop` of a thread: what was there when it took the flag, and
    what has been pushed since. -/
theorem queue_at_tryPop {mid : List SendEvent} {σ₁ σ₂ : SendSide} (hinv : σ.Inv)
    (hstart : σ.pc t = .startSending) (hflag : σ.sending = false)
    (hstep : σ.step (.step t) = some σ₁) (hrun : Run (stepRel SendSide.step) σ₁ mid σ₂)
    (hnot : .step t ∉ mid) :
    σ₂.pc t = .tryPop ∧ σ₂.queue = σ.queue ++ mid.flatMap SendEvent.pushed := by
  have hinv₁ : σ₁.Inv := by
    apply SendSide.inv_step hinv hstep
    rintro u he hpc
    obtain rfl := SendEvent.step.inj he
    simp [hstart] at hpc
  simp only [SendSide.step, SendSide.exec, hstart, hflag, Option.some_inj] at hstep
  have hpc : σ₁.pc t = .tryPop := by simp [← hstep, SendSide.goto]
  have hqueue : σ₁.queue = σ.queue := by simp [← hstep]
  obtain ⟨owner, howned⟩ := hinv₁.owned
  obtain rfl := (howned.holds t).mp (by simp [hpc, Pc.Holds])
  obtain ⟨-, hpc', hqueue'⟩ := SendSide.owned_run howned hrun hnot
  exact ⟨hpc'.trans hpc, by rw [hqueue', hqueue]⟩

theorem pops_iff_fed : Pops events ↔ Fed events := by
  constructor
  · rintro hpops before mid after t σ σ₁ σ₂ rfl h hstart hflag hempty hstep hmid hnot
    have hinv := inv_of_pops (EachAfter.append_iff.mp hpops).1 h
    obtain ⟨hpc, hqueue⟩ := queue_at_tryPop hinv hstart hflag hstep hmid hnot
    have hrun : SendRun (before ++ [.step t] ++ mid) σ₂ := (h.snoc hstep).trans hmid
    have hne := hpops (before ++ [.step t] ++ mid) (.step t) after (by simp) t σ₂ rfl hrun hpc
    rw [hqueue, hempty, List.nil_append] at hne
    exact flatMap_pushed_ne_nil.mp hne
  · intro hfed
    induction events using List.reverseRecOn with
    | nil => exact EachAfter.nil
    | append_singleton ls e ih =>
      have hpops : Pops ls := by
        apply ih
        rintro before mid after t σ σ₁ σ₂ rfl
        exact hfed before mid (after ++ [e]) t σ σ₁ σ₂ (by simp)
      refine EachAfter.snoc_iff.mpr ⟨hpops, ?_⟩
      rintro t σ rfl hrun hpc
      obtain ⟨before, mid, σ₀, σ₁, rfl, hnot, h0, hstart, hflag, hstep, hmid⟩ :=
        tryPop_origin hrun hpc
      have hinv := inv_of_pops (EachAfter.append_iff.mp hpops).1 h0
      rw [(queue_at_tryPop hinv hstart hflag hstep hmid hnot).2]
      intro hnil
      obtain ⟨hempty, hnone⟩ := List.append_eq_nil_iff.mp hnil
      exact flatMap_pushed_ne_nil.mpr (hfed before mid [] t σ₀ σ₁ σ (by simp) h0 hstart hflag
        hempty hstep hmid hnot) hnone

/-- The queue never stalls exactly if every thread that takes the flag over an empty
    queue is fed before its `TryPop`. -/
theorem neverStalls_iff (events : List SendEvent) : NeverStalls events ↔ Fed events :=
  neverStalls_iff_pops.trans pops_iff_fed

/-- The sender thread `0` sends a buffer, pushes another one and finds the queue not
    empty; the handler on thread `1` sends that one too and clears the flag. Then
    thread `0` takes the flag and pops nothing. -/
def drainedEvents : List SendEvent :=
  [.push 0 [1], .step 0, .step 0, .step 0, .step 0, .step 0, .push 0 [2], .step 0, .step 0,
    .complete 1, .step 1, .step 1, .step 1, .step 1, .step 1, .step 1, .step 1,
    .complete 1, .step 1, .step 1, .step 0]

/-- After these events the next step of thread `0` is a `TryPop` on an empty queue. -/
theorem drained_before_start_stalls : ¬ ∀ events, NeverStalls events := by
  intro hclaim
  have heval : (drainedEvents.foldlM SendSide.step {}).map (fun σ => (σ.pc 0, σ.queue)) =
      some (.tryPop, []) := by decide
  obtain ⟨σ, hrun, hout⟩ := Option.map_eq_some_iff.mp heval
  obtain ⟨hpc, hqueue⟩ := Prod.mk.inj hout
  exact (hclaim (drainedEvents ++ [.step 0]) drainedEvents [.step 0] rfl σ
    (run_iff_foldlM.mpr hrun)).1 0 rfl hpc hqueue

end EndlessPeak
