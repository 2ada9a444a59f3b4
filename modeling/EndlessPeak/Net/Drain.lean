import Mathlib.Data.FinEnum
import EndlessPeak.Lib.Potential
import EndlessPeak.Net.Wire

/-!
# When nothing new comes

The senders and the sessions, from any moment on, when the world pushes no more packets, no
client connects, and no client sends anything. Operations may still fail.

* `Wire.work`: what the program has still to do, a potential that every step makes smaller.
* `hub_attended`: a buffer that waits while the flag is clear is attended to, or its session has
  been disconnected.
* `network_drains`: all these runs are bounded, they can be led to a state in which nobody has
  anything to do, and there everything has been delivered, but to the sessions that are
  disconnected or stalled; or a sender has met a session that is missing.
-/

namespace EndlessPeak

open Lib

/-! ## What is left to do -/

/-- How many operations a thread there has to do before it is idle, for itself and for the write
    that it starts. -/
def Pc.work : Pc → ℕ
  | .idle => 0
  | .tryPop => 1
  | .startSending => 2
  | .empty => 3
  | .isConnected => 4
  | .checkEmpty => 5
  | .clear => 6
  | .asyncWrite _ => 8

/-- How many operations a handler there has to do, outside `Send`, before it is idle. -/
def Place.work (state : SessionState) : Place → ℕ
  | .idle => 0
  | .setDisconnected => 1
  | .pushRemove => 2
  | .eraseSession => 3
  | .close => 4
  | .getState => if state = .connected then 11 else 5
  | .setDisconnecting => 6
  -- the read that is started can fail
  | .readNext => 8
  | .pushCreate => 9
  | .insertSession => 10
  | .setConnected => 12
  | .pushPackets packets => packets.length + 9

/-- The threads `0` to `n`, the buffers that wait and the writes that are outstanding. -/
def SendSide.work (n : ℕ) (σ : SendSide) : ℕ :=
  8 * σ.queue.length + 7 * σ.outstanding + ∑ u ∈ Finset.range (n + 1), (σ.pc u).work

/-- The send side and the handler of a session, and the reads that can fail. -/
def Endpoint.work (n : ℕ) (e : Endpoint) : ℕ :=
  e.handler.work e.send.state + 7 * e.reads + e.send.work n

instance (e : Endpoint) : Decidable e.Joining := inferInstanceAs (Decidable (_ ∨ _ ∧ _ ∨ _))

/-- What is left to do on a packet, with these sessions to call. A call is worth the buffer that
    it pushes and the `Send` that follows. -/
def Job.work (ids : Finset UInt64) (job : Job) : ℕ :=
  13 * (ids.filter (· ∉ job.visited)).card + 1

/-- A sender that has these sessions to call, or waits for a packet. -/
def jobWork (ids : Finset UInt64) : Option Job → ℕ
  | some job => job.work ids
  | none => 0

/-- The packets in the out queue and in the hands of `n` senders, which have these sessions to
    call. -/
def Pool.work (n : ℕ) (ids : Finset UInt64) (s : Pool) : ℕ :=
  s.outQueue.length * (13 * ids.card + 2) +
    ∑ t ∈ Finset.range n, jobWork ids (s.jobs t)

/-- The sessions that are in `sessions_` or about to be. -/
def Hub.present (σ : Hub) : Finset UInt64 :=
  Finset.univ.filter fun id => σ.sessions id = true ∨ (σ.endpoint id).Joining

def Hub.work (n : ℕ) (σ : Hub) : ℕ := ∑ id, (σ.endpoint id).work n

/-- What `n` senders and the sessions have to do. -/
def Wire.work (n : ℕ) (w : Wire) : ℕ := w.pool.work n w.hub.present + w.hub.work n

/-! ## The send side -/

namespace SendSide

variable {σ σ' : SendSide} {e : SendEvent} {n t u : ℕ}

theorem work_goto (ht : t ≤ n) (pc : Pc) {k l : ℕ} (h : pc.work + k ≤ (σ.pc t).work + l) :
    ∑ u ∈ Finset.range (n + 1), ((σ.goto t pc).pc u).work + k ≤
      ∑ u ∈ Finset.range (n + 1), (σ.pc u).work + l :=
  sum_update_add_le Pc.work σ.pc (Finset.mem_range.mpr (Nat.lt_succ_of_le ht)) pc h

theorem work_push {buf : Buffer} (ht : t ≤ n) (hstep : σ.step (.push t buf) = some σ') :
    σ'.work n ≤ σ.work n + 12 := by
  simp only [step, Option.ite_none_right_eq_some, Option.some_inj] at hstep
  obtain ⟨hpc, rfl⟩ := hstep
  have hmove := work_goto (σ := σ) (k := 0) (l := 4) ht .isConnected (by simp [hpc, Pc.work])
  simp only [work, List.length_append, List.length_singleton, goto_outstanding]
  omega

theorem work_complete (ht : t ≤ n) (hstep : σ.step (.complete t) = some σ') :
    σ'.work n < σ.work n := by
  simp only [step, Option.ite_none_right_eq_some, Option.some_inj] at hstep
  obtain ⟨⟨hpc, hpos⟩, rfl⟩ := hstep
  have hmove := work_goto (σ := σ) (k := 0) (l := 6) ht .clear (by simp [hpc, Pc.work])
  simp only [work, goto_queue]
  omega

theorem work_exec (ht : t ≤ n) (hstep : σ.step (.step t) = some σ') : σ'.work n < σ.work n := by
  -- where a thread goes without taking a buffer it has less to do
  have hgoto : ∀ pc sending, pc.work < (σ.pc t).work →
      ({ σ.goto t pc with sending } : SendSide).work n < σ.work n := by
    intro pc sending hless
    have hmove := work_goto (σ := σ) (k := 1) (l := 0) ht pc (by omega)
    simp only [work, goto_queue, goto_outstanding]
    omega
  simp only [step, exec] at hstep
  cases hpc : σ.pc t with
  | idle => simp [hpc] at hstep
  | isConnected =>
    simp only [hpc, Option.some_inj] at hstep
    subst hstep
    apply hgoto _ σ.sending
    rw [hpc]
    split_ifs <;> decide
  | empty | checkEmpty =>
    simp only [hpc, Option.some_inj] at hstep
    subst hstep
    apply hgoto _ σ.sending
    rw [hpc]
    split_ifs <;> decide
  | startSending =>
    simp only [hpc, Option.some_inj] at hstep
    subst hstep
    apply hgoto
    rw [hpc]
    split_ifs <;> decide
  | tryPop =>
    cases hqueue : σ.queue with
    | nil =>
      simp only [hpc, hqueue, Option.some_inj] at hstep
      subst hstep
      apply hgoto _ σ.sending
      rw [hpc]
      decide
    | cons buf rest =>
      simp only [hpc, hqueue, Option.some_inj] at hstep
      subst hstep
      have hmove := work_goto (σ := σ) (k := 0) (l := 7) ht (.asyncWrite buf)
        (by simp [hpc, Pc.work])
      simp only [work, goto_outstanding, hqueue, List.length_cons]
      omega
  | asyncWrite buf =>
    simp only [hpc, Option.some_inj] at hstep
    subst hstep
    have hmove := work_goto (σ := σ) (k := 8) (l := 0) ht .idle (by simp [hpc, Pc.work])
    simp only [work, goto_queue]
    omega
  | clear =>
    simp only [hpc, Option.some_inj] at hstep
    subst hstep
    apply hgoto
    rw [hpc]
    decide

/-- A thread that is idle stays so, unless it calls `PushToSend` or runs the handler of a
    write. -/
theorem idle_step (hstep : σ.step e = some σ') (hidle : σ.pc u = .idle)
    (hpush : ∀ buf, e ≠ .push u buf) (hcomplete : e ≠ .complete u) : σ'.pc u = .idle := by
  have hmove : ∀ t pc, (u = t → pc = .idle) → (σ.goto t pc).pc u = .idle := by
    intro t pc hpc
    rw [goto_pc]
    split_ifs with hu
    · exact hpc hu
    · exact hidle
  cases step_cases hstep with
  | push t buf =>
    refine hmove t _ ?_
    rintro rfl
    exact absurd rfl (hpush buf)
  | complete t =>
    refine hmove t _ ?_
    rintro rfl
    exact absurd rfl hcomplete
  | look t pc hpc =>
    refine hmove t pc ?_
    rintro rfl
    simp [hidle, Pc.Attends] at hpc
  | busy t | popNothing t | write t => exact hmove t _ fun _ => rfl
  | take t hpc | pop t _ _ hpc | clear t hpc =>
    refine hmove t _ ?_
    rintro rfl
    simp [hidle] at hpc

/-- A step leaves no buffer behind that waits while the flag is clear and that nobody attends
    to, unless the session is disconnected. -/
theorem attended_step_any {pushed : List Buffer} (h : Serial σ pushed) (hstep : σ.step e = some σ')
    (hqueue : σ'.queue ≠ []) (hflag : σ'.sending = false) :
    σ.state = .disconnected ∨ ∃ t, (σ'.pc t).Attends := by
  -- a thread that has the duty finds the flag set, and so does the handler of a write
  have hset : ((∃ t, (σ.pc t).Holds) ∨ 0 < σ.outstanding) → σ.sending = true := by
    intro hduty
    cases h with
    | owned owner howned =>
      rw [howned.sending]
      rcases hduty with ⟨t, ht⟩ | hpos
      · rw [(howned.holds t).mp ht]
        simp
      · rw [eq_write_of_pos howned hpos]
        simp
    | lost hlost => exact hlost.sending
  cases step_cases hstep with
  | push t buf hpc => exact .inr (attends_goto (σ := σ) (t := t) trivial)
  | complete t hpc hpos => simp [hset (.inr hpos)] at hflag
  | look t pc hpc hnext =>
    rcases hnext with hnext | ⟨-, hnil | hstate⟩
    · exact .inr (attends_goto hnext)
    · exact absurd hnil hqueue
    · exact .inl hstate
  | busy t hpc hbusy => simp [hbusy] at hflag
  | take t hpc hfree => simp at hflag
  | popNothing t hpc _ | pop t buf rest hpc _ | write t buf hpc =>
    simp [hset (.inl ⟨t, by simp [hpc, Pc.Holds]⟩)] at hflag
  | clear t hpc => exact .inr (attends_goto (σ := σ) (t := t) trivial)

end SendSide

/-! ## The sessions -/

/-- A client connects, or sends something. -/
def EndpointEvent.FromOutside : EndpointEvent → Prop
  | .accepted _ | .readDone (some _) => True
  | _ => False

/-- A handler or a thread goes on, or a write succeeds. -/
def EndpointEvent.IsWork : EndpointEvent → Prop
  | .handle | .send _ | .written true => True
  | _ => False

namespace Endpoint

variable {e e' : Endpoint} {id : UInt64} {live live' : Bool} {out : List Entry}
  {event : EndpointEvent} {n : ℕ}

theorem work_send (h : e.handle id live = some (e', live', out)) :
    e'.send.work n = e.send.work n := by
  obtain ⟨⟨state, hsend⟩, -⟩ := handle_send h
  rw [hsend]
  rfl

/-- An operation of the handler outside `Send`. -/
theorem work_handle (h : e.handle id live = some (e', live', out)) : e'.work n < e.work n := by
  have hsend := work_send (n := n) h
  unfold work
  rw [hsend]
  unfold handle store at h
  cases hplace : e.handler with
  | idle => simp [hplace] at h
  | getState =>
    simp only [hplace] at h
    split at h
    case h_1 hstate =>
      cases h
      simp [Place.work, hstate]
    case h_2 hstate =>
      cases h
      simp [Place.work, hstate]
    case h_3 =>
      cases h
      simp only [Place.work]
      split_ifs <;> omega
  | eraseSession =>
    simp only [hplace] at h
    split_ifs at h <;> cases h <;> simp [Place.work]
  | pushPackets packets =>
    cases packets <;> simp only [hplace] at h <;> cases h <;> simp [Place.work]
  | readNext =>
    simp only [hplace] at h
    cases h
    simp only [Place.work]
    omega
  | setConnected | setDisconnecting | insertSession | pushCreate | close | pushRemove
  | setDisconnected =>
    simp only [hplace] at h
    cases h
    simp [Place.work]

theorem present_handle (h : e.handle id live = some (e', live', out))
    (hafter : live' = true ∨ e'.Joining) : live = true ∨ e.Joining := by
  unfold handle store at h
  cases hplace : e.handler with
  | idle => simp [hplace] at h
  | getState =>
    simp only [hplace] at h
    split at h
    case h_1 hstate => exact .inr (.inr (.inl ⟨hplace, hstate⟩))
    all_goals
      cases h
      exact .inl (by simpa [Joining] using hafter)
  | setConnected => exact .inr (.inl hplace)
  | insertSession => exact .inr (.inr (.inr hplace))
  | eraseSession =>
    simp only [hplace] at h
    split_ifs at h <;> cases h <;> simp [Joining] at hafter
  | pushPackets packets =>
    cases packets <;> simp only [hplace] at h <;> cases h <;>
      exact .inl (by simpa [Joining] using hafter)
  | setDisconnecting | readNext | pushCreate | close | pushRemove | setDisconnected =>
    simp only [hplace] at h
    cases h
    exact .inl (by simpa [Joining] using hafter)

/-- What the steps from inside have in common. -/
theorem work_step (hstep : e.step id live event = some (e', live', out))
    (hinside : ¬ event.FromOutside) (hpush : ∀ t buf, event ≠ .push t buf)
    (hidle : ∀ u, n < u → e.send.pc u = .idle) :
    e'.work n < e.work n ∧ (live' = true ∨ e'.Joining → live = true ∨ e.Joining) := by
  cases step_cases hstep with
  | accepted | refused | read => exact absurd trivial hinside
  | readFailed hpos hfree =>
    refine ⟨?_, fun h => .inl (by simpa [fail, Joining] using h)⟩
    simp only [work, fail, hfree.1, Place.work]
    omega
  | written send hstill hsend =>
    have hless := SendSide.work_complete (Nat.zero_le n) hsend
    have hstate := SendSide.state_step hsend
    refine ⟨?_, fun h => by simpa [Joining, hstate] using h⟩
    simp only [work, hstate]
    omega
  | writeFailed hpos hfree =>
    refine ⟨?_, fun h => .inl (by simpa [fail, Joining] using h)⟩
    simp only [work, SendSide.work, fail, hfree.1, Place.work]
    omega
  | handle hhandle => exact ⟨work_handle hhandle, present_handle hhandle⟩
  | push t buf => exact absurd rfl (hpush t buf)
  | send u send hsend =>
    have hu : u ≤ n := by
      by_contra hlt
      simp [SendSide.step, SendSide.exec, hidle u (by omega)] at hsend
    have hless := SendSide.work_exec hu hsend
    have hstate := SendSide.state_step hsend
    have hsame : (e.sent u send).handler = e.handler ∧ (e.sent u send).reads = e.reads := by
      unfold sent
      split <;> exact ⟨rfl, rfl⟩
    refine ⟨?_, fun h => ?_⟩
    · simp only [work, sent_send, hsame.1, hsame.2, hstate]
      omega
    · simpa [Joining, hsame.1, hstate] using h

theorem work_push {t : ℕ} {buf : Buffer} (ht : t + 1 ≤ n)
    (hstep : e.step id live (.push t buf) = some (e', live', out)) :
    e'.work n ≤ e.work n + 12 ∧ (live' = true ∨ e'.Joining → live = true ∨ e.Joining) := by
  cases step_cases hstep with
  | push _ _ send hsend =>
    have hmore := SendSide.work_push ht hsend
    have hstate := SendSide.state_step hsend
    refine ⟨?_, fun h => by simpa [Joining, hstate] using h⟩
    simp only [work, hstate]
    omega

/-- A thread that is neither the handler nor in this `PushToSend` stays idle. -/
theorem idle_step {u : ℕ} (hstep : e.step id live event = some (e', live', out)) (hu : 0 < u)
    (hpush : ∀ t buf, event = .push t buf → t + 1 ≠ u) (hidle : e.send.pc u = .idle) :
    e'.send.pc u = .idle := by
  cases step_cases hstep with
  | accepted | refused | readFailed | read | writeFailed => exact hidle
  | written send hstill hsend =>
    refine SendSide.idle_step hsend hidle (by simp) ?_
    intro heq
    exact absurd (SendEvent.complete.inj heq) (by omega)
  | handle hhandle =>
    obtain ⟨⟨state, hsame⟩, -⟩ := handle_send hhandle
    rw [hsame]
    exact hidle
  | push t buf send hsend =>
    refine SendSide.idle_step hsend hidle ?_ (by simp)
    intro buf' heq
    exact absurd (SendEvent.push.inj heq).1 (hpush t buf rfl)
  | send v send hsend =>
    rw [sent_send]
    exact SendSide.idle_step hsend hidle (by simp) (by simp)

end Endpoint

/-! ## The senders -/

namespace Pool

variable {n t : ℕ} {s s' : Pool} {id : UInt64} {ids ids' : Finset UInt64}

theorem work_mono (h : ids' ⊆ ids) (s : Pool) : s.work n ids' ≤ s.work n ids := by
  have hcard := Finset.card_le_card h
  have hjobs : ∀ job : Option Job, jobWork ids' job ≤ jobWork ids job := by
    intro job
    cases job with
    | none => exact le_refl 0
    | some job =>
      have hfilter := Finset.card_le_card (Finset.filter_subset_filter (· ∉ job.visited) h)
      simp only [jobWork, Job.work]
      omega
  have hqueue : s.outQueue.length * (13 * ids'.card + 2) ≤
      s.outQueue.length * (13 * ids.card + 2) := Nat.mul_le_mul_left _ (by omega)
  exact Nat.add_le_add hqueue (Finset.sum_le_sum fun t _ => hjobs (s.jobs t))

theorem work_push {packet : ServerPacket} (hstep : s.step n (.push packet) = some s') :
    s'.work n ids = s.work n ids + (13 * ids.card + 2) := by
  cases step_cases hstep with
  | push packet =>
    simp only [work, List.length_append, List.length_singleton]
    ring

theorem work_pop (hstep : s.step n (.pop t) = some s') : s'.work n ids < s.work n ids := by
  cases step_cases hstep with
  | pop _ packet rest ht hjob hqueue =>
    have hsum := sum_update_add_le (k := 0) (l := 13 * ids.card + 1) (jobWork ids) s.jobs
      (Finset.mem_range.mpr ht) (some { packet })
      (by simp [hjob, jobWork, Job.work])
    have hlength : s.outQueue.length * (13 * ids.card + 2) =
        rest.length * (13 * ids.card + 2) + (13 * ids.card + 2) := by
      rw [hqueue, List.length_cons, Nat.succ_mul]
    simp only [work]
    omega

theorem work_deliver (ht : t < n) (hid : id ∈ ids)
    (hstep : s.step n (.deliver t id) = some s') : s'.work n ids + 13 ≤ s.work n ids := by
  cases step_cases hstep with
  | deliver _ _ job hjob haddressed hnew =>
    have hless : (ids.filter (· ∉ job.visited ++ [id])).card + 1 =
        (ids.filter (· ∉ job.visited)).card := by
      have hmem : id ∈ ids.filter (· ∉ job.visited) := Finset.mem_filter.mpr ⟨hid, hnew⟩
      have herase : ids.filter (· ∉ job.visited ++ [id]) =
          (ids.filter (· ∉ job.visited)).erase id := by
        ext j
        simp only [Finset.mem_filter, Finset.mem_erase, List.mem_append, List.mem_singleton]
        tauto
      rw [herase, Finset.card_erase_add_one hmem]
    have hsum := sum_update_add_le (k := 13) (l := 0) (jobWork ids) s.jobs
      (Finset.mem_range.mpr ht) (some { job with visited := job.visited ++ [id] })
      (by simp only [hjob, jobWork, Job.work]; omega)
    simp only [work]
    omega

theorem work_finish (ht : t < n) (hstep : s.step n (.finish t) = some s') :
    s'.work n ids < s.work n ids := by
  cases step_cases hstep with
  | finish _ job hjob hdone =>
    have hsum := sum_update_add_le (k := 1) (l := 0) (jobWork ids) s.jobs
      (Finset.mem_range.mpr ht) none (by simp only [hjob, jobWork, Job.work]; omega)
    simp only [work]
    omega

theorem jobs_membership {before after : Bool}
    (h : Run (stepRel (step n)) s (membership id before after).toList s') :
    s'.jobs = s.jobs ∧ s'.outQueue = s.outQueue := by
  cases before with
  | false =>
    cases after with
    | false =>
      obtain rfl := Run.nil_iff.mp h
      exact ⟨rfl, rfl⟩
    | true =>
      obtain ⟨v, hstep, hnil⟩ := Run.cons_iff.mp h
      obtain rfl := Run.nil_iff.mp hnil
      cases step_cases hstep with
      | join => exact ⟨rfl, rfl⟩
  | true =>
    cases after with
    | false =>
      obtain ⟨v, hstep, hnil⟩ := Run.cons_iff.mp h
      obtain rfl := Run.nil_iff.mp hnil
      cases step_cases hstep with
      | leave => exact ⟨rfl, rfl⟩
    | true =>
      obtain rfl := Run.nil_iff.mp h
      exact ⟨rfl, rfl⟩

end Pool

/-! ## Steps from inside -/

namespace Hub

variable {σ σ' : Hub} {id : UInt64} {event : EndpointEvent} {n k l : ℕ}

theorem work_le (hstep : σ.step (id, event) = some σ')
    (h : (σ'.endpoint id).work n + k ≤ (σ.endpoint id).work n + l) :
    σ'.work n + k ≤ σ.work n + l := by
  have hupdate : σ'.endpoint = Function.update σ.endpoint id (σ'.endpoint id) := by
    funext j
    by_cases hj : j = id
    · rw [hj, Function.update_self]
    · rw [Function.update_of_ne hj, (step_other hstep hj).1]
  unfold work
  rw [hupdate]
  exact sum_update_add_le (Endpoint.work n) σ.endpoint (Finset.mem_univ id) _ h

theorem present_subset (hstep : σ.step (id, event) = some σ')
    (h : σ'.sessions id = true ∨ (σ'.endpoint id).Joining →
      σ.sessions id = true ∨ (σ.endpoint id).Joining) : σ'.present ⊆ σ.present := by
  intro j hmem
  rw [present, Finset.mem_filter] at hmem ⊢
  refine ⟨Finset.mem_univ j, ?_⟩
  by_cases hj : j = id
  · subst hj
    exact h hmem.2
  · obtain ⟨hendpoint, hsessions, -⟩ := step_other hstep hj
    rw [← hendpoint, ← hsessions]
    exact hmem.2

/-- A thread stays idle, unless the step is its own or a `PushToSend` of it. -/
theorem idle_step {u : ℕ} (hstep : σ.step (id, event) = some σ') (hu : 0 < u)
    (hpush : ∀ t buf, event = .push t buf → t + 1 ≠ u) {j : UInt64}
    (hidle : (σ.endpoint j).send.pc u = .idle) : (σ'.endpoint j).send.pc u = .idle := by
  by_cases hj : j = id
  · subst hj
    obtain ⟨out, hself, -⟩ := step_self hstep
    exact Endpoint.idle_step hself hu hpush hidle
  · rw [(step_other hstep hj).1]
    exact hidle

end Hub

/-- The world pushes a packet, a client connects, or sends something. -/
def WireEvent.FromOutside : WireEvent → Prop
  | .push _ => True
  | .session _ event => event.FromOutside
  | _ => False

/-- A sender, a handler or a thread goes on, or a write succeeds. -/
def WireEvent.IsWork : WireEvent → Prop
  | .push _ => False
  | .session _ event => event.IsWork
  | _ => True

namespace Wire

variable {n : ℕ} {w w' : Wire} {e : WireEvent}

/-- The senders from `n` on and the threads after theirs do nothing. -/
structure Within (n : ℕ) (w : Wire) : Prop where
  jobs : ∀ t, n ≤ t → w.pool.jobs t = none
  threads : ∀ id u, n < u → (w.hub.endpoint id).send.pc u = .idle

theorem Within.sender (h : w.Within n) {t : ℕ} {job : Job} (hjob : w.pool.jobs t = some job) :
    t < n := by
  by_contra hle
  rw [h.jobs t (by omega)] at hjob
  cases hjob

theorem within_step (h : w.Within n) (hstep : w.step n e = some w') : w'.Within n := by
  cases step_cases hstep with
  | push packet pool hpool =>
    cases hpool
    exact ⟨h.jobs, h.threads⟩
  | pop t pool hpool =>
    cases Pool.step_cases hpool with
    | pop _ packet rest ht hjob hqueue =>
      refine ⟨fun u hu => ?_, h.threads⟩
      show Function.update w.pool.jobs t _ u = none
      rw [Function.update_of_ne (by omega)]
      exact h.jobs u hu
  | finish t pool hpool =>
    cases Pool.step_cases hpool with
    | finish _ job hjob hdone =>
      refine ⟨fun u hu => ?_, h.threads⟩
      show Function.update w.pool.jobs t none u = none
      have ht := h.sender hjob
      rw [Function.update_of_ne (by omega)]
      exact h.jobs u hu
  | call t id job pool hub hjob hpool hhub =>
    have ht := h.sender hjob
    refine ⟨fun u hu => ?_, fun j u hu => ?_⟩
    · cases Pool.step_cases hpool with
      | deliver =>
        show Function.update w.pool.jobs t _ u = none
        rw [Function.update_of_ne (by omega)]
        exact h.jobs u hu
    · refine Hub.idle_step hhub (by omega) ?_ (h.threads j u hu)
      rintro _ _ ⟨⟩
      omega
  | session id event pool hub hevent hhub hpool =>
    refine ⟨fun u hu => ?_, fun j u hu => ?_⟩
    · show pool.jobs u = none
      rw [(Pool.jobs_membership hpool).1]
      exact h.jobs u hu
    · exact Hub.idle_step hhub (by omega) (fun t buf heq => absurd heq (hevent t buf))
        (h.threads j u hu)

theorem within_run {events : List WireEvent} (h : WireRun n events w) : w.Within n :=
  h.invariant ⟨fun _ _ => rfl, fun _ _ _ => rfl⟩ fun _ _ _ h hstep => within_step h hstep

/-- A step while nothing comes from outside. -/
def InsideNext (n : ℕ) (w : Wire) (e : WireEvent) (w' : Wire) : Prop :=
  ¬ e.FromOutside ∧ w.step n e = some w'

theorem present_step (h : w.Within n) (hstep : InsideNext n w e w') :
    w'.hub.present ⊆ w.hub.present := by
  obtain ⟨hinside, hstep⟩ := hstep
  cases step_cases hstep with
  | push => exact absurd trivial hinside
  | pop | finish => exact Finset.Subset.refl _
  | call t id job pool hub hjob hpool hhub =>
    obtain ⟨out, hself, -⟩ := Hub.step_self hhub
    exact Hub.present_subset hhub (Endpoint.work_push (h.sender hjob) hself).2
  | session id event pool hub hevent hhub hpool =>
    obtain ⟨out, hself, -⟩ := Hub.step_self hhub
    exact Hub.present_subset hhub (Endpoint.work_step hself hinside hevent (h.threads id)).2

/-- Every step from inside leaves less to do. -/
theorem work_step {events : List WireEvent} (h : WireRun n events w)
    (hnext : InsideNext n w e w') : w'.work n < w.work n := by
  have hwithin := within_run h
  have hpresent := present_step hwithin hnext
  obtain ⟨hinside, hstep⟩ := hnext
  cases step_cases hstep with
  | push => exact absurd trivial hinside
  | pop t pool hpool =>
    have hless : pool.work n w.hub.present < w.pool.work n w.hub.present :=
      Pool.work_pop hpool
    show pool.work n w.hub.present + w.hub.work n < _
    unfold work
    omega
  | finish t pool hpool =>
    have hless : pool.work n w.hub.present < w.pool.work n w.hub.present := by
      cases Pool.step_cases hpool with
      | finish _ job hjob => exact Pool.work_finish (hwithin.sender hjob) hpool
    show pool.work n w.hub.present + w.hub.work n < _
    unfold work
    omega
  | call t id job pool hub hjob hpool hhub =>
    have ht := hwithin.sender hjob
    obtain ⟨_, _, -, -, hcoupled, -, -⟩ := wire_run h
    have hlive := (hcoupled.live id).mp (Pool.live_of_deliver hpool)
    have hid : id ∈ w.hub.present := Finset.mem_filter.mpr ⟨Finset.mem_univ id, .inl hlive⟩
    obtain ⟨out, hself, -⟩ := Hub.step_self hhub
    have hhubWork := Hub.work_le (k := 0) (l := 12) hhub (Endpoint.work_push ht hself).1
    have hpoolWork := Pool.work_deliver ht hid hpool
    have hmono : pool.work n hub.present ≤ pool.work n w.hub.present :=
      Pool.work_mono hpresent pool
    show pool.work n hub.present + hub.work n < _
    unfold work
    omega
  | session id event pool hub hevent hhub hpool =>
    obtain ⟨out, hself, -⟩ := Hub.step_self hhub
    have hless := (Endpoint.work_step hself hinside hevent (hwithin.threads id)).1
    have hhubWork := Hub.work_le (k := 1) (l := 0) hhub hless
    have hmono : w.pool.work n hub.present ≤ w.pool.work n w.hub.present :=
      Pool.work_mono hpresent w.pool
    have hsame : pool.work n hub.present = w.pool.work n hub.present := by
      obtain ⟨hjobs, hqueue⟩ := Pool.jobs_membership hpool
      rw [Pool.work, Pool.work, hjobs, hqueue]
    show pool.work n hub.present + hub.work n < _
    unfold work
    omega

theorem work_push {packet : ServerPacket} (hstep : w.step n (.push packet) = some w') :
    w'.hub = w.hub ∧ w'.work n = w.work n + (13 * w.hub.present.card + 2) := by
  cases step_cases hstep with
  | push packet pool hpool =>
    refine ⟨rfl, ?_⟩
    show pool.work n w.hub.present + w.hub.work n = _
    rw [Pool.work_push hpool, work]
    omega

theorem decreases_work (n : ℕ) :
    Decreases (InsideNext n) (fun w => ∃ events, WireRun n events w) (work n) where
  keeps w e w' := by
    rintro ⟨events, h⟩ hstep
    exact ⟨events ++ [e], h.snoc hstep.2⟩
  less w e w' := by
    rintro ⟨events, h⟩ hstep
    exact work_step h hstep

end Wire

/-! ## Buffers that wait -/

namespace Endpoint

variable {e e' : Endpoint} {id : UInt64} {live live' : Bool} {out : List Entry}
  {event : EndpointEvent}

/-- A buffer that waits while the flag is clear is attended to, or the session has been
    disconnected. -/
structure Attended (e : Endpoint) : Prop where
  ever : e.send.state = .disconnected → e.everDisconnected = true
  attended : e.send.queue ≠ [] → e.send.sending = false →
    e.everDisconnected = true ∨ ∃ t, (e.send.pc t).Attends

theorem ever_handle (h : e.handle id live = some (e', live', out)) :
    (e.everDisconnected = true → e'.everDisconnected = true) ∧
      (e'.send.state = .disconnected →
        e.send.state = .disconnected ∨ e'.everDisconnected = true) := by
  unfold handle store at h
  split at h
  case h_1 => simp at h
  case h_4 => split at h <;> cases h <;> exact ⟨fun h => h, .inl⟩
  case h_11 => split_ifs at h <;> cases h <;> exact ⟨fun h => h, .inl⟩
  case h_2 | h_3 =>
    cases h
    simp
  case h_13 =>
    cases h
    simp
  all_goals
    cases h
    exact ⟨fun h => h, .inl⟩

theorem Attended.of_send {send : SendSide} {sendEvent : SendEvent} (h : e.Attended)
    (hserial : e.send.Serial e.pushed) (hsend : e.send.step sendEvent = some send)
    (he : e'.send = send) (hever : e'.everDisconnected = e.everDisconnected) : e'.Attended := by
  subst he
  refine ⟨fun hstate => ?_, fun hqueue hflag => ?_⟩
  · rw [hever]
    exact h.ever ((SendSide.state_step hsend).symm.trans hstate)
  · rw [hever]
    exact (SendSide.attended_step_any hserial hsend hqueue hflag).imp_left h.ever

theorem attended_endpoint (h : e.Attended) (hserial : e.send.Serial e.pushed)
    (hstep : e.step id live event = some (e', live', out)) : e'.Attended := by
  cases step_cases hstep with
  | accepted | refused | readFailed | read | writeFailed => exact ⟨h.ever, h.attended⟩
  | written send hstill hsend => exact h.of_send hserial hsend rfl rfl
  | handle hhandle =>
    obtain ⟨hkeeps, hstate⟩ := ever_handle hhandle
    obtain ⟨⟨state, hsend⟩, -⟩ := handle_send hhandle
    refine ⟨fun hdisconnected => ?_, ?_⟩
    · rcases hstate hdisconnected with hbefore | hnow
      · exact hkeeps (h.ever hbefore)
      · exact hnow
    · rw [hsend]
      exact fun hqueue hflag => (h.attended hqueue hflag).imp_left hkeeps
  | push t buf send hsend => exact h.of_send hserial hsend rfl rfl
  | send u send hsend =>
    refine h.of_send hserial hsend sent_send ?_
    unfold sent
    split <;> rfl

end Endpoint

theorem hub_attended {events : List (UInt64 × EndpointEvent)} {σ : Hub} (h : HubRun events σ)
    (id : UInt64) : (σ.endpoint id).Attended := by
  induction h with
  | nil => exact ⟨by simp, by simp⟩
  | @snoc events event σ σ' hrun hstep ih =>
    obtain ⟨j, event⟩ := event
    by_cases hj : id = j
    · subst hj
      obtain ⟨out, hself, -⟩ := Hub.step_self hstep
      exact Endpoint.attended_endpoint ih (hub_serial hrun id) hself
    · rw [(Hub.step_other hstep hj).1]
      exact ih

/-! ## At rest -/

theorem SendSide.exists_step {σ : SendSide} {u : ℕ} (h : σ.pc u ≠ .idle) :
    ∃ σ', σ.step (.step u) = some σ' := by
  show ∃ σ', σ.exec u = some σ'
  unfold exec
  cases hpc : σ.pc u with
  | idle => exact absurd hpc h
  | tryPop =>
    simp only
    split <;> exact ⟨_, rfl⟩
  | isConnected | empty | startSending | asyncWrite | clear | checkEmpty => exact ⟨_, rfl⟩

theorem Endpoint.exists_handle {e : Endpoint} (id : UInt64) (live : Bool) (h : e.handler ≠ .idle) :
    ∃ result, e.handle id live = some result := by
  unfold handle
  cases hplace : e.handler with
  | idle => exact absurd hplace h
  | getState =>
    simp only
    split <;> exact ⟨_, rfl⟩
  | eraseSession =>
    simp only
    split_ifs <;> exact ⟨_, rfl⟩
  | pushPackets packets => cases packets <;> exact ⟨_, rfl⟩
  | setConnected | setDisconnecting | insertSession | pushCreate | readNext | close | pushRemove
  | setDisconnected => exact ⟨_, rfl⟩

/-- Nobody is at work on the send side: the flag is clear, or stays set. -/
theorem SendSide.Serial.rest {σ : SendSide} {pushed : List Buffer} (h : σ.Serial pushed)
    (hidle : ∀ u, σ.pc u = .idle) (hout : σ.outstanding = 0) : σ.Lost ∨ σ.sending = false := by
  cases h with
  | lost hlost => exact .inl hlost
  | owned owner howned =>
    right
    cases owner with
    | nobody =>
      rw [Bool.eq_false_iff, Ne, howned.sending]
      exact fun h => h rfl
    | thread t =>
      have hholds := (howned.holds t).mpr rfl
      rw [hidle t] at hholds
      exact absurd hholds id
    | write =>
      have hone := howned.outstanding
      rw [hout, if_pos rfl] at hone
      cases hone

namespace Wire

variable {n : ℕ} {w w' : Wire} {id : UInt64} {event : EndpointEvent}

/-- A sender, a handler or a thread takes a step, or a write succeeds. -/
def WorkNext (n : ℕ) (w : Wire) (e : WireEvent) (w' : Wire) : Prop :=
  e.IsWork ∧ w.step n e = some w'

theorem WorkNext.inside {e : WireEvent} (h : WorkNext n w e w') : InsideNext n w e w' := by
  refine ⟨?_, h.2⟩
  have hwork := h.1
  cases e with
  | push packet => exact absurd hwork id
  | pop | call | finish => exact id
  | session id event =>
    cases event with
    | accepted => exact absurd hwork fun h => h
    | readDone result => exact absurd hwork fun h => h
    | written | handle | push | send => exact fun h => h

/-- A sender has a packet for one session, which is not there. -/
def Blocked (w : Wire) : Prop :=
  ∃ t job, w.pool.jobs t = some job ∧ job.packet.type = .rpc ∧
    w.hub.sessions job.packet.id = false

/-- What a session can do it can do among the others, but for coming and going while a sender
    has a packet in hand. -/
theorem exists_step_session (hevent : ∀ t buf, event ≠ .push t buf) {result : EndpointResult}
    (h : (w.hub.endpoint id).step id (w.hub.sessions id) event = some result)
    (hidle : w.pool.Idle n ∨ result.2.1 = w.hub.sessions id) :
    ∃ w', w.step n (.session id event) = some w' := by
  obtain ⟨hub, hhub, hlive⟩ : ∃ hub,
      w.hub.step (id, event) = some hub ∧ hub.sessions id = result.2.1 := by
    simp only [Hub.step, h]
    exact ⟨_, rfl, Function.update_self ..⟩
  have hpool : ∃ pool, (membership id (w.hub.sessions id) (hub.sessions id)).toList.foldlM
      (Pool.step n) w.pool = some pool := by
    rcases hidle with hidle | hsame
    · cases w.hub.sessions id <;> cases hub.sessions id <;>
        simp [membership, Pool.step, hidle]
    · rw [hlive, hsame]
      cases w.hub.sessions id <;> exact ⟨_, rfl⟩
  obtain ⟨pool, hfold⟩ := hpool
  refine ⟨{ w with pool, hub }, ?_⟩
  rw [step_session hevent, hhub, Option.bind_some, hfold]
  rfl

/-- Nobody can go on: no thread is in a `Send`. -/
theorem still_threads (h : Still (WorkNext n) w) (id : UInt64) (u : ℕ) :
    (w.hub.endpoint id).send.pc u = .idle := by
  by_contra hpc
  obtain ⟨send, hsend⟩ := SendSide.exists_step hpc
  have hresult : (w.hub.endpoint id).step id (w.hub.sessions id) (.send u) =
      some ((w.hub.endpoint id).sent u send, w.hub.sessions id, []) := by
    simp [Endpoint.step, hsend]
  obtain ⟨w', hstep⟩ := exists_step_session (n := n) (by simp) hresult (.inr rfl)
  exact h (.session id (.send u)) w' ⟨trivial, hstep⟩

/-- Nobody can go on, and no sender has a packet: the handlers are idle, and no write is
    outstanding. -/
theorem still_sessions (h : Still (WorkNext n) w) (hjobs : ∀ t, w.pool.jobs t = none)
    (id : UInt64) :
    (w.hub.endpoint id).send.outstanding = 0 ∧ (w.hub.endpoint id).handler = .idle := by
  have hnot : ∀ event, event.IsWork → (∀ t buf, event ≠ .push t buf) →
      (w.hub.endpoint id).step id (w.hub.sessions id) event = none := by
    intro event hwork hevent
    by_contra hsome
    obtain ⟨result, hresult⟩ := Option.ne_none_iff_exists'.mp hsome
    obtain ⟨w', hstep⟩ :=
      exists_step_session (n := n) hevent hresult (.inl fun t _ => hjobs t)
    exact h (.session id event) w' ⟨hwork, hstep⟩
  have hhandler : (w.hub.endpoint id).handler = .idle := by
    by_contra hplace
    obtain ⟨result, hresult⟩ := Endpoint.exists_handle id (w.hub.sessions id) hplace
    have hnone := hnot .handle trivial (by simp)
    rw [Endpoint.step, hresult] at hnone
    cases hnone
  refine ⟨?_, hhandler⟩
  by_contra hout
  have hnone := hnot (.written true) trivial (by simp)
  simp [Endpoint.step, hhandler, SendSide.step, still_threads h id 0,
    Nat.pos_of_ne_zero hout] at hnone

/-- Nobody can go on: the senders have called all sessions they had to call. -/
theorem still_called (h : Still (WorkNext n) w) {t : ℕ} {job : Job}
    (hjob : w.pool.jobs t = some job) (id : UInt64) (hid : id ∈ w.pool.live)
    (haddressed : job.packet.AddressedTo id) : id ∈ job.visited := by
  by_contra hnew
  have hreturned : w.Returned t := fun id _ => still_threads h id (t + 1)
  have hdeliver : ∃ pool, w.pool.step n (.deliver t id) = some pool := by
    simp [Pool.step, hjob, hid, haddressed, hnew]
  have hpush : ∃ hub,
      w.hub.step (id, .push t job.packet.getNetPacket.makeBuffer) = some hub := by
    simp [Hub.step, Endpoint.step, SendSide.step, still_threads h id (t + 1)]
  obtain ⟨pool, hpool⟩ := hdeliver
  obtain ⟨hub, hhub⟩ := hpush
  refine h (.call t id) { pool, hub, calling := Function.update w.calling t (some id) }
    ⟨trivial, ?_⟩
  rw [step, if_pos hreturned, hjob, Option.bind_some, hpool, Option.bind_some, hhub,
    Option.map_some]

/-- Nobody can go on: a sender that has a packet has it for a session that is not there. -/
theorem still_job (h : Still (WorkNext n) w)
    (hlive : ∀ id, id ∈ w.pool.live ↔ w.hub.sessions id = true) {t : ℕ} {job : Job}
    (hjob : w.pool.jobs t = some job) : w.Blocked := by
  have hreturned : w.Returned t := fun id _ => still_threads h id (t + 1)
  by_contra hblocked
  have hdone : w.pool.Done job := by
    refine ⟨fun hrpc => ?_, fun id => still_called h hjob id⟩
    by_cases hthere : w.hub.sessions job.packet.id = true
    · refine still_called h hjob _ ((hlive _).mpr hthere) ?_
      rw [ServerPacket.AddressedTo, hrpc]
    · exact absurd ⟨t, job, hjob, hrpc, Bool.eq_false_iff.mpr hthere⟩ hblocked
  have hfinish : ∃ pool, w.pool.step n (.finish t) = some pool := by
    simp [Pool.step, hjob, hdone]
  obtain ⟨pool, hpool⟩ := hfinish
  refine h (.finish t) { w with pool } ⟨trivial, ?_⟩
  rw [step, if_pos hreturned, hpool, Option.map_some]

theorem still_jobs (h : Still (WorkNext n) w)
    (hlive : ∀ id, id ∈ w.pool.live ↔ w.hub.sessions id = true) (hblocked : ¬ w.Blocked) (t : ℕ) :
    w.pool.jobs t = none := by
  cases hjob : w.pool.jobs t with
  | none => rfl
  | some job => exact absurd (still_job h hlive hjob) hblocked

/-- Nobody can go on, and no sender has a packet: there is no packet left. -/
theorem still_queue (h : Still (WorkNext n) w) (hn : 0 < n)
    (hjobs : ∀ t, w.pool.jobs t = none) : w.pool.outQueue = [] := by
  cases hqueue : w.pool.outQueue with
  | nil => rfl
  | cons packet rest =>
    have hpop : ∃ pool, w.pool.step n (.pop 0) = some pool := by
      simp [Pool.step, hjobs 0, hqueue, hn]
    obtain ⟨pool, hpool⟩ := hpop
    refine absurd ⟨trivial, ?_⟩ (h (.pop 0) { w with pool })
    rw [step, hpool, Option.map_some]

end Wire

variable {n : ℕ} {events : List WireEvent} {w : Wire}

/-- When nobody can go on, a sender is blocked, or there is no packet left but in the queues of
    sessions that have been disconnected or whose flag stays set. -/
theorem Wire.drained_of_still (hn : 0 < n) (h : WireRun n events w)
    (hstill : Still (Wire.WorkNext n) w) : w.Blocked ∨ ∀ id, w.Drained id ∨
      (w.hub.endpoint id).everDisconnected = true ∨ (w.hub.endpoint id).send.Lost := by
  obtain ⟨_, hubEvents, -, hhubs, hcoupled, -, -⟩ := wire_run h
  by_cases hblocked : w.Blocked
  · exact .inl hblocked
  · right
    intro id
    have hjobs := still_jobs hstill hcoupled.live hblocked
    have hqueue := still_queue hstill hn hjobs
    have hidle := still_threads hstill id
    obtain ⟨hout, -⟩ := still_sessions hstill hjobs id
    rcases (hub_serial hhubs.hubRun id).rest hidle hout with hlost | hflag
    · exact .inr (.inr hlost)
    · by_cases hempty : (w.hub.endpoint id).send.queue = []
      · refine .inl ⟨hqueue, hjobs, hempty, fun u => ?_⟩
        rw [hidle u]
        rfl
      · rcases (hub_attended hhubs.hubRun id).attended hempty hflag with hever | ⟨t, ht⟩
        · exact .inr (.inl hever)
        · rw [hidle t] at ht
          exact absurd ht fun h => h

/-- From every reachable state, whatever the threads do and whatever operations fail: as long as
    nothing comes from outside, the program makes a bounded number of steps. It can always come
    to rest. When it has, then either a sender has met a session that is missing, or there is no
    packet left in the program, but in the queues of sessions that have been disconnected or
    whose flag stays set. -/
theorem network_drains (hn : 0 < n) (h : WireRun n events w) :
    (∃ bound, ∀ more w', Run (Wire.InsideNext n) w more w' → more.length ≤ bound) ∧
      (∃ more w', Run (Wire.WorkNext n) w more w' ∧ Still (Wire.WorkNext n) w') ∧
      ∀ more w', Run (Wire.InsideNext n) w more w' → Still (Wire.WorkNext n) w' →
        w'.Blocked ∨ ∀ id, w'.Drained id ∨ (w'.hub.endpoint id).everDisconnected = true ∨
          (w'.hub.endpoint id).send.Lost := by
  have hdecreases := Wire.decreases_work n
  refine ⟨⟨w.work n, fun more w' hrun => ?_⟩, ?_, fun more w' hrun hstill => ?_⟩
  · exact (Nat.le_add_right _ _).trans (hdecreases.length_add_le ⟨events, h⟩ hrun).2
  · exact (hdecreases.mono fun _ _ _ hstep => hstep.inside).exists_still ⟨events, h⟩
  · obtain ⟨events', h'⟩ := (hdecreases.length_add_le ⟨events, h⟩ hrun).1
    exact Wire.drained_of_still hn h' hstill

/-- Two senders are at work: the first in the `Send` of a session, the second on a packet for a
    session that is about to be added. -/
def underWay : List WireEvent :=
  connects 0 ++ [.push ghostMove, .push ghostRemoval, .pop 0, .call 0 0, .pop 1] ++
    (.session 1 (.accepted true) :: List.replicate 2 (.session 1 .handle))

theorem network_drains_underWay : ∃ w, WireRun 2 underWay w ∧
    (∃ bound, ∀ more w', Run (Wire.InsideNext 2) w more w' → more.length ≤ bound) ∧
      (∃ more w', Run (Wire.WorkNext 2) w more w' ∧ Still (Wire.WorkNext 2) w') ∧
      ∀ more w', Run (Wire.InsideNext 2) w more w' → Still (Wire.WorkNext 2) w' →
        w'.Blocked ∨ ∀ id, w'.Drained id ∨ (w'.hub.endpoint id).everDisconnected = true ∨
          (w'.hub.endpoint id).send.Lost := by
  have heval : (underWay.foldlM (Wire.step 2) {}).isSome = true := by decide +kernel
  obtain ⟨w, hw⟩ := Option.isSome_iff_exists.mp heval
  have hrun : WireRun 2 underWay w := run_iff_foldlM.mpr hw
  exact ⟨w, hrun, network_drains (by decide) hrun⟩

end EndlessPeak
