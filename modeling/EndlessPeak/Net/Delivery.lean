import Mathlib.Algebra.Order.Group.Multiset
import Mathlib.Data.List.Perm.Subperm
import Mathlib.Tactic.Abel
import EndlessPeak.Lib.Potential
import EndlessPeak.Net.SenderPool

/-!
# Every packet reaches a session at most once

Several senders can swap packets, but they neither lose one nor send one twice. The packets
of the world are in the out queue, in the hands of a sender, or done with, and what a session
has received is counted against the buffers that are addressed to it.

* `Pool.Balance`: the account of a session, kept by every step (`balance_step`).
* `senders_conserve`: with any number of senders a session receives nothing twice, and one
  that stays receives everything.
-/

namespace EndlessPeak

open Lib

/-- The buffers of these packets for `id`, in no order. -/
def owed (id : UInt64) (packets : List ServerPacket) : Multiset Buffer := buffersFor id packets

theorem owed_append (id : UInt64) (packets packets' : List ServerPacket) :
    owed id (packets ++ packets') = owed id packets + owed id packets' := by
  rw [owed, buffersFor_append]
  rfl

theorem owed_nil (id : UInt64) : owed id [] = 0 := rfl

namespace Pool

variable {n : ℕ} {s s' : Pool} {e : PoolEvent} {id : UInt64} {pushed : List ServerPacket}
  {missed : Multiset Buffer}

/-- What the packet in the hands of a sender is to bring to the session. -/
def pendingFor (id : UInt64) (job : Option Job) : Multiset Buffer :=
  owed id (job.map Job.packet).toList

/-- What it has brought to the session. -/
def givenTo (id : UInt64) : Option Job → Multiset Buffer
  | some job => if id ∈ job.visited then {job.packet.packet.makeBuffer} else 0
  | none => 0

/-- What the sender `t` of a pool of `n` can have in hand, and whom it has called so far. -/
structure JobOf (n : ℕ) (id : UInt64) (t : ℕ) (job : Option Job) : Prop where
  sender : n ≤ t → job = none
  visited : ∀ j ∈ job, id ∈ j.visited → j.packet.AddressedTo id

/-- The account of the session `id`, with `missed` the buffers that no sender has brought to
    it, and none will: the world has pushed these, what it has got from the packets that are
    done with, what the senders have in hand, and what is in the queue. -/
structure Balance (n : ℕ) (id : UInt64) (pushed : List ServerPacket) (missed : Multiset Buffer)
    (s : Pool) : Prop where
  jobs : ∀ t, JobOf n id t (s.jobs t)
  account : ∃ done : Multiset Buffer,
    owed id pushed = missed + done + ∑ t ∈ Finset.range n, pendingFor id (s.jobs t) +
      owed id s.outQueue ∧
    (s.received id : Multiset Buffer) = done + ∑ t ∈ Finset.range n, givenTo id (s.jobs t)

/-- A packet reaches the session at most once, and only if it is addressed to it. -/
theorem JobOf.givenTo_le {t : ℕ} {job : Option Job} (h : JobOf n id t job) :
    givenTo id job ≤ pendingFor id job := by
  cases job with
  | none => exact le_refl _
  | some job =>
    show (if id ∈ job.visited then {job.packet.packet.makeBuffer} else 0) ≤ owed id [job.packet]
    rw [owed, buffersFor_singleton]
    split_ifs with hmem haddressed
    · exact le_refl _
    · exact absurd (h.visited job rfl hmem) haddressed
    · exact Multiset.zero_le _
    · exact Multiset.zero_le _

/-- A sender that is done has brought the packet to a session that is there. -/
theorem givenTo_of_done (hlive : id ∈ s.live) {t : ℕ} {job : Job}
    (hof : JobOf n id t (some job)) (hdone : s.Done job) :
    givenTo id (some job) = pendingFor id (some job) := by
  show (if id ∈ job.visited then {job.packet.packet.makeBuffer} else 0) = owed id [job.packet]
  rw [owed, buffersFor_singleton]
  by_cases haddressed : job.packet.AddressedTo id
  · have hmem := hdone.2 id hlive haddressed
    rw [if_pos hmem, if_pos haddressed]
    rfl
  · rw [if_neg fun hmem => haddressed (hof.visited job rfl hmem), if_neg haddressed]
    rfl

theorem live_step (hlive : id ∈ s.live) (hstep : s.step n e = some s') (hstay : e ≠ .leave id) :
    id ∈ s'.live := by
  cases step_cases hstep with
  | push | pop | deliver | finish => exact hlive
  | join j => exact List.mem_cons_of_mem _ hlive
  | leave j =>
    have hj : id ≠ j := fun heq => hstay (by rw [heq])
    exact List.mem_filter.mpr ⟨hlive, by simpa using hj⟩

/-! ## What the steps do to the account -/

variable {packet : ServerPacket} {rest : List ServerPacket} {t : ℕ} {job : Job}

theorem Balance.pop (h : Balance n id pushed missed s) (ht : t < n) (hjob : s.jobs t = none)
    (hqueue : s.outQueue = packet :: rest) : Balance n id pushed missed { s with
      outQueue := rest
      jobs := Function.update s.jobs t (some { packet }) } := by
  obtain ⟨done, hpushed, hreceived⟩ := h.account
  have hpending := sum_update (pendingFor id) s.jobs (Finset.mem_range.mpr ht)
    (some { packet })
  have hgiven := sum_update (givenTo id) s.jobs (Finset.mem_range.mpr ht)
    (some { packet })
  rw [hjob] at hpending hgiven
  refine ⟨(Function.forall_update_iff s.jobs _).mpr ⟨⟨fun hle => by omega, ?_⟩,
    fun u _ => h.jobs u⟩, done, ?_, ?_⟩
  · rintro job ⟨⟩ hmem
    exact absurd hmem List.not_mem_nil
  · show owed id pushed = missed + done + ∑ u ∈ Finset.range n, pendingFor id
      (Function.update s.jobs t (some { packet }) u) + owed id rest
    have hsplit : owed id s.outQueue = owed id [packet] + owed id rest := by
      rw [hqueue, ← List.singleton_append, owed_append]
    have hmoved : ∑ u ∈ Finset.range n, pendingFor id
        (Function.update s.jobs t (some { packet }) u) =
        ∑ u ∈ Finset.range n, pendingFor id (s.jobs u) + owed id [packet] := by
      rw [← add_zero (∑ u ∈ Finset.range n, pendingFor id (Function.update s.jobs t _ u))]
      exact hpending
    rw [hpushed, hmoved, hsplit]
    abel
  · show (s.received id : Multiset Buffer) = done + ∑ u ∈ Finset.range n, givenTo id
      (Function.update s.jobs t (some { packet }) u)
    rw [hreceived, add_right_inj]
    exact (add_zero _).symm.trans (hgiven.symm.trans (add_zero _))

/-- A sender calls a session that it has not called for its packet. -/
theorem Balance.deliver (h : Balance n id pushed missed s) {j : UInt64}
    (hjob : s.jobs t = some job) (haddressed : job.packet.AddressedTo j)
    (hnew : j ∉ job.visited) : Balance n id pushed missed { s with
      jobs := Function.update s.jobs t (some { job with visited := job.visited ++ [j] })
      received :=
        Function.update s.received j (s.received j ++ [job.packet.packet.makeBuffer]) } := by
  obtain ⟨done, hpushed, hreceived⟩ := h.account
  have ht : t < n := by
    by_contra hge
    have hnone := (h.jobs t).sender (by omega)
    rw [hjob] at hnone
    cases hnone
  have hpending := sum_update (pendingFor id) s.jobs (Finset.mem_range.mpr ht)
    (some { job with visited := job.visited ++ [j] })
  have hgiven := sum_update (givenTo id) s.jobs (Finset.mem_range.mpr ht)
    (some { job with visited := job.visited ++ [j] })
  rw [hjob] at hpending hgiven
  refine ⟨(Function.forall_update_iff s.jobs _).mpr ⟨⟨fun hle => by omega, ?_⟩,
    fun u _ => h.jobs u⟩, done, ?_, ?_⟩
  · rintro job' ⟨⟩ hmem
    rcases List.mem_append.mp hmem with hmem | hmem
    · exact (h.jobs t).visited job hjob hmem
    · rw [List.mem_singleton.mp hmem]
      exact haddressed
  · show owed id pushed = missed + done + ∑ u ∈ Finset.range n, pendingFor id
      (Function.update s.jobs t (some { job with visited := job.visited ++ [j] }) u) +
        owed id s.outQueue
    rw [add_right_cancel hpending]
    exact hpushed
  · show ((Function.update s.received j (s.received j ++ [job.packet.packet.makeBuffer]) id :
        List Buffer) : Multiset Buffer) = done + ∑ u ∈ Finset.range n, givenTo id
      (Function.update s.jobs t (some { job with visited := job.visited ++ [j] }) u)
    by_cases hj : id = j
    · subst hj
      have hbefore : givenTo id (some job) = 0 := if_neg hnew
      have hafter : givenTo id (some { job with visited := job.visited ++ [id] }) =
          {job.packet.packet.makeBuffer} := if_pos (by simp)
      rw [hbefore, hafter, add_zero] at hgiven
      rw [hgiven, Function.update_self, ← Multiset.coe_add, hreceived, add_assoc]
      rfl
    · have hkeep : givenTo id (some { job with visited := job.visited ++ [j] }) =
          givenTo id (some job) := by simp [givenTo, hj]
      rw [hkeep] at hgiven
      rw [add_right_cancel hgiven, Function.update_of_ne hj]
      exact hreceived

theorem Balance.finish (h : Balance n id pushed missed s) (hjob : s.jobs t = some job)
    (hdone : s.Done job) : ∃ missed', Balance n id pushed missed' { s with
      jobs := Function.update s.jobs t none } ∧ (id ∈ s.live → missed' = missed) := by
  obtain ⟨done, hpushed, hreceived⟩ := h.account
  have ht : t < n := by
    by_contra hge
    have hnone := (h.jobs t).sender (by omega)
    rw [hjob] at hnone
    cases hnone
  have hpending := sum_update (pendingFor id) s.jobs (Finset.mem_range.mpr ht) none
  have hgiven := sum_update (givenTo id) s.jobs (Finset.mem_range.mpr ht) none
  rw [hjob] at hpending hgiven
  have hof : JobOf n id t (some job) := hjob ▸ h.jobs t
  obtain ⟨lacks, hlacks⟩ := Multiset.le_iff_exists_add.mp hof.givenTo_le
  refine ⟨missed + lacks, ⟨?_, done + givenTo id (some job), ?_, ?_⟩, fun hlive => ?_⟩
  · exact (Function.forall_update_iff s.jobs _).mpr ⟨⟨fun _ => rfl, by simp⟩, fun u _ => h.jobs u⟩
  · show owed id pushed = missed + lacks + (done + givenTo id (some job)) +
      ∑ u ∈ Finset.range n, pendingFor id (Function.update s.jobs t none u) + owed id s.outQueue
    have hmoved : ∑ u ∈ Finset.range n, pendingFor id (s.jobs u) =
        ∑ u ∈ Finset.range n, pendingFor id (Function.update s.jobs t none u) +
          (givenTo id (some job) + lacks) := by
      rw [← hlacks, hpending]
      exact (add_zero _).symm
    rw [hpushed, hmoved]
    abel
  · show (s.received id : Multiset Buffer) = done + givenTo id (some job) +
      ∑ u ∈ Finset.range n, givenTo id (Function.update s.jobs t none u)
    have hmoved : ∑ u ∈ Finset.range n, givenTo id (s.jobs u) =
        ∑ u ∈ Finset.range n, givenTo id (Function.update s.jobs t none u) +
          givenTo id (some job) := by
      rw [hgiven]
      exact (add_zero _).symm
    rw [hreceived, hmoved]
    abel
  · have hall := givenTo_of_done hlive hof hdone
    rw [hall, left_eq_add] at hlacks
    rw [hlacks, add_zero]

theorem balance_step (h : Balance n id pushed missed s) (hstep : s.step n e = some s') :
    ∃ missed', Balance n id (pushed ++ e.pushed.toList) missed' s' ∧
      (id ∈ s.live → missed' = missed) := by
  obtain ⟨done, hpushed, hreceived⟩ := h.account
  cases step_cases hstep with
  | push packet =>
    refine ⟨missed, ⟨h.jobs, done, ?_, hreceived⟩, fun _ => rfl⟩
    show owed id (pushed ++ [packet]) = _ + owed id (s.outQueue ++ [packet])
    rw [owed_append, owed_append, hpushed, add_assoc]
  | join j =>
    rw [show pushed ++ (PoolEvent.join j).pushed.toList = pushed from List.append_nil _]
    exact ⟨missed, ⟨h.jobs, done, hpushed, hreceived⟩, fun _ => rfl⟩
  | leave j =>
    rw [show pushed ++ (PoolEvent.leave j).pushed.toList = pushed from List.append_nil _]
    exact ⟨missed, ⟨h.jobs, done, hpushed, hreceived⟩, fun _ => rfl⟩
  | pop t packet rest ht hjob hqueue =>
    rw [show pushed ++ (PoolEvent.pop t).pushed.toList = pushed from List.append_nil _]
    exact ⟨missed, h.pop ht hjob hqueue, fun _ => rfl⟩
  | deliver t j job hjob haddressed hnew =>
    rw [show pushed ++ (PoolEvent.deliver t j).pushed.toList = pushed from List.append_nil _]
    exact ⟨missed, h.deliver hjob haddressed hnew, fun _ => rfl⟩
  | finish t job hjob hdone =>
    rw [show pushed ++ (PoolEvent.finish t).pushed.toList = pushed from List.append_nil _]
    exact h.finish hjob hdone

end Pool

/-! ## In every run -/

variable {n : ℕ} {live : List UInt64} {events : List PoolEvent} {s : Pool}

/-- The account of a session in every run; one that stays has missed nothing. -/
theorem balance_run (h : PoolRun n live events s) (id : UInt64) :
    ∃ missed, Pool.Balance n id (worldOrder events) missed s ∧
      (id ∈ live → .leave id ∉ events → id ∈ s.live ∧ missed = 0) := by
  induction h with
  | nil =>
    refine ⟨0, ⟨fun _ => ⟨fun _ => rfl, by simp⟩, 0, ?_, ?_⟩, fun hlive _ => ⟨hlive, rfl⟩⟩
    · simp [worldOrder, owed_nil, Pool.pendingFor]
    · simp [Pool.givenTo]
  | @snoc ls e s s' hrun hstep ih =>
    obtain ⟨missed, hbalance, hstays⟩ := ih
    obtain ⟨missed', hbalance', hkeep⟩ := Pool.balance_step hbalance hstep
    rw [← worldOrder_snoc] at hbalance'
    refine ⟨missed', hbalance', fun hlive hstay => ?_⟩
    rw [List.mem_append, List.mem_singleton, not_or] at hstay
    obtain ⟨hthere, hzero⟩ := hstays hlive hstay.1
    exact ⟨Pool.live_step hthere hstep (Ne.symm hstay.2), (hkeep hthere).trans hzero⟩

/-- What a session has received is among what the world has addressed to it, each buffer at
    most as often. -/
theorem received_subperm (h : PoolRun n live events s) (id : UInt64) :
    (s.received id).Subperm (buffersFor id (worldOrder events)) := by
  obtain ⟨missed, hbalance, -⟩ := balance_run h id
  obtain ⟨done, hpushed, hreceived⟩ := hbalance.account
  rw [← Multiset.coe_le, hreceived]
  show _ ≤ owed id (worldOrder events)
  have hgiven : ∑ t ∈ Finset.range n, Pool.givenTo id (s.jobs t) ≤
      ∑ t ∈ Finset.range n, Pool.pendingFor id (s.jobs t) :=
    Finset.sum_le_sum fun t _ => (hbalance.jobs t).givenTo_le
  calc done + ∑ t ∈ Finset.range n, Pool.givenTo id (s.jobs t)
      ≤ done + ∑ t ∈ Finset.range n, Pool.pendingFor id (s.jobs t) := by gcongr
    _ ≤ missed + (done + ∑ t ∈ Finset.range n, Pool.pendingFor id (s.jobs t)) :=
        Multiset.le_add_left _ _
    _ ≤ missed + (done + ∑ t ∈ Finset.range n, Pool.pendingFor id (s.jobs t)) +
        owed id s.outQueue := Multiset.le_add_right _ _
    _ = owed id (worldOrder events) := by rw [hpushed, add_assoc missed done]

/-- With any number of senders, in every run: a session that is there from the start and does
    not leave has received everything that the world has addressed to it, each buffer exactly
    as often, when no packet is on its way any more; and nothing else or more often before. -/
theorem senders_conserve (h : PoolRun n live events s) (id : UInt64) :
    (s.received id).Subperm (buffersFor id (worldOrder events)) ∧
      (id ∈ live → .leave id ∉ events → s.outQueue = [] → (∀ t, s.jobs t = none) →
        (s.received id).Perm (buffersFor id (worldOrder events))) := by
  refine ⟨received_subperm h id, fun hlive hstay hqueue hidle => ?_⟩
  obtain ⟨missed, hbalance, hstays⟩ := balance_run h id
  obtain ⟨done, hpushed, hreceived⟩ := hbalance.account
  obtain ⟨-, hzero⟩ := hstays hlive hstay
  rw [← Multiset.coe_eq_coe, hreceived]
  show _ = owed id (worldOrder events)
  rw [hpushed, hzero, hqueue, owed_nil]
  simp [hidle, Pool.givenTo, Pool.pendingFor, owed_nil]

/-- Two senders swap two packets, and session `0` receives both, each once. -/
theorem senders_conserve_overtaken : ∃ s, PoolRun 2 [0] overtaken s ∧
    (s.received 0).Perm (buffersFor 0 (worldOrder overtaken)) := by
  have heval : (overtaken.foldlM (Pool.step 2) { live := [0] }).any (fun s =>
      s.outQueue = [] ∧ s.jobs 0 = none ∧ s.jobs 1 = none) = true := by
    decide +kernel
  simp only [Option.any_eq_true, decide_eq_true_eq] at heval
  obtain ⟨s, hs, hqueue, hzero, hone⟩ := heval
  have hrun : PoolRun 2 [0] overtaken s := run_iff_foldlM.mpr hs
  obtain ⟨missed, hbalance, -⟩ := balance_run hrun 0
  have hidle : ∀ t, s.jobs t = none := by
    intro t
    by_cases ht : 2 ≤ t
    · exact (hbalance.jobs t).sender ht
    · rcases (by omega : t = 0 ∨ t = 1) with rfl | rfl
      · exact hzero
      · exact hone
  exact ⟨s, hrun, (senders_conserve hrun 0).2 (by simp) (by simp [overtaken]) hqueue hidle⟩

/-! ## One sender, and sessions that come and go -/

/-- No session is added twice: `Server::Run` gives every session its own id. -/
def JoinsOnce : List PoolEvent → Prop :=
  EachAfter fun before e => ∀ id, e = .join id → .join id ∉ before

namespace Pool

variable {s s' : Pool} {e : PoolEvent} {id : UInt64} {pushed sent : List ServerPacket}

/-- What the only sender has done: the packets before the current one and those in the queue
    are done with, and it has called the session only if its packet is for it. -/
structure Queued (id : UInt64) (pushed sent : List ServerPacket) (s : Pool) : Prop where
  others : ∀ t, t ≠ 0 → s.jobs t = none
  order : pushed = sent ++ s.current ++ s.outQueue
  visited : ∀ job ∈ s.jobs 0, id ∈ job.visited → job.packet.AddressedTo id

/-- The packet is for this session alone. -/
def Private (id : UInt64) (packet : ServerPacket) : Prop := packet.type = .rpc ∧ packet.id = id

/-- What the session `id` has received. It misses no packet that is for it alone: `Sender`
    dereferences a null pointer if it does not find the session. -/
inductive Heard (id : UInt64) (events : List PoolEvent) (sent : List ServerPacket) (s : Pool) : Prop
  /-- It has not been added. -/
  | before (hjoin : .join id ∉ events) (hlive : id ∉ s.live) (hreceived : s.received id = [])
      (hvisited : ∀ job ∈ s.jobs 0, id ∉ job.visited) (hmissed : ∀ p ∈ sent, ¬ Private id p)
  /-- It is there, and hears every packet that is popped from now on. -/
  | during (missed heard : List ServerPacket) (hjoin : .join id ∈ events) (hlive : id ∈ s.live)
      (hsent : sent = missed ++ heard)
      (hreceived : s.received id = buffersFor id heard ++ s.given id)
      (hmissed : ∀ p ∈ missed, ¬ Private id p)
  /-- It has gone. -/
  | after (missed heard rest : List ServerPacket) (hjoin : .join id ∈ events) (hlive : id ∉ s.live)
      (hpushed : worldOrder events = missed ++ heard ++ rest)
      (hreceived : s.received id = buffersFor id heard)

/-- The packets that a sender is done with after the event. -/
def sentBy (s : Pool) : PoolEvent → List ServerPacket
  | .finish _ => s.current
  | _ => []

theorem Queued.sender_zero (h : Queued id pushed sent s) {t : ℕ} {job : Job}
    (hjob : s.jobs t = some job) : t = 0 := by
  by_contra ht
  rw [h.others t ht] at hjob
  cases hjob

/-- The session has got the current packet, or nothing of it. -/
theorem Queued.given_cases (h : Queued id pushed sent s) :
    s.given id = [] ∨ s.given id = buffersFor id s.current := by
  unfold given current
  cases hjob : s.jobs 0 with
  | none => exact .inl rfl
  | some job =>
    show (if id ∈ job.visited then [job.packet.packet.makeBuffer] else []) = [] ∨
      (if id ∈ job.visited then [job.packet.packet.makeBuffer] else []) = buffersFor id [job.packet]
    by_cases hmem : id ∈ job.visited
    · right
      rw [if_pos hmem, buffersFor_singleton, if_pos (h.visited job hjob hmem)]
    · exact .inl (if_neg hmem)

theorem Queued.given_of_done (h : Queued id pushed sent s) {job : Job} (hjob : s.jobs 0 = some job)
    (hlive : id ∈ s.live) (hdone : s.Done job) : s.given id = buffersFor id s.current := by
  rw [given, current, hjob]
  show (if id ∈ job.visited then [job.packet.packet.makeBuffer] else []) =
    buffersFor id [job.packet]
  rw [buffersFor_singleton]
  by_cases haddressed : job.packet.AddressedTo id
  · rw [if_pos (hdone.2 id hlive haddressed), if_pos haddressed]
  · rw [if_neg fun hmem => haddressed (h.visited job hjob hmem), if_neg haddressed]

theorem live_of_deliver {n t : ℕ} (h : s.step n (.deliver t id) = some s') : id ∈ s.live := by
  unfold step at h
  cases hjob : s.jobs t with
  | none => simp [hjob] at h
  | some job =>
    simp only [hjob, Option.ite_none_right_eq_some] at h
    exact h.1.1

theorem queued_step (h : Queued id pushed sent s) (hstep : s.step 1 e = some s') :
    Queued id (pushed ++ e.pushed.toList) (sent ++ s.sentBy e) s' := by
  have ⟨hothers, horder, hvisited⟩ := h
  cases step_cases hstep with
  | push packet =>
    refine ⟨hothers, ?_, hvisited⟩
    rw [horder]
    simp [PoolEvent.pushed, current, sentBy]
  | join j =>
    refine ⟨hothers, ?_, hvisited⟩
    rw [horder]
    simp [PoolEvent.pushed, current, sentBy]
  | leave j =>
    refine ⟨hothers, ?_, hvisited⟩
    rw [horder]
    simp [PoolEvent.pushed, current, sentBy]
  | pop t packet rest ht hjob hqueue =>
    obtain rfl : t = 0 := by omega
    refine ⟨?_, ?_, ?_⟩
    · intro u hu
      simpa [hu] using hothers u hu
    · rw [horder]
      simp [PoolEvent.pushed, current, sentBy, hjob, hqueue]
    · show ∀ job ∈ (Function.update s.jobs 0 _ : ℕ → Option Job) 0, _
      rw [Function.update_self]
      rintro job ⟨⟩ hmem
      exact absurd hmem List.not_mem_nil
  | deliver t j job hjob haddressed hnew =>
    obtain rfl := h.sender_zero hjob
    refine ⟨?_, ?_, ?_⟩
    · intro u hu
      simpa [hu] using hothers u hu
    · rw [horder]
      simp [PoolEvent.pushed, current, sentBy, hjob]
    · show ∀ job ∈ (Function.update s.jobs 0 _ : ℕ → Option Job) 0, _
      rw [Function.update_self]
      rintro job' ⟨⟩ hmem
      rcases List.mem_append.mp hmem with hmem | hmem
      · exact hvisited job hjob hmem
      · rw [List.mem_singleton.mp hmem]
        exact haddressed
  | finish t job hjob hdone =>
    obtain rfl := h.sender_zero hjob
    refine ⟨?_, ?_, by simp⟩
    · intro u hu
      simpa [hu] using hothers u hu
    · rw [horder]
      simp [PoolEvent.pushed, current, sentBy, hjob]

/-! ### One step of each phase -/

variable {events : List PoolEvent}

theorem not_private_of_done {job : Job} (hdone : s.Done job) (hnot : id ∉ job.visited) :
    ¬ Private id job.packet := by
  rintro ⟨htype, rfl⟩
  exact hnot (hdone.1 htype)

theorem heard_step_before (hqueued : Queued id (worldOrder events) sent s)
    (hjoin : .join id ∉ events) (hlive : id ∉ s.live) (hreceived : s.received id = [])
    (hvisited : ∀ job ∈ s.jobs 0, id ∉ job.visited) (hmissed : ∀ p ∈ sent, ¬ Private id p)
    (hstep : s.step 1 e = some s') : Heard id (events ++ [e]) (sent ++ s.sentBy e) s' := by
  have hnotMem : e ≠ .join id → .join id ∉ events ++ [e] := by
    intro he
    rw [List.mem_append, List.mem_singleton, not_or]
    exact ⟨hjoin, he.symm⟩
  cases step_cases hstep with
  | push packet =>
    rw [show sent ++ s.sentBy (.push packet) = sent from List.append_nil _]
    exact .before (hnotMem (by simp)) hlive hreceived hvisited hmissed
  | join j hidle =>
    rw [show sent ++ s.sentBy (.join j) = sent from List.append_nil _]
    by_cases hj : id = j
    · subst hj
      have hgiven : s.given id = [] := by simp [given, hidle 0 Nat.one_pos]
      refine .during sent [] (by simp) List.mem_cons_self (by simp) ?_ hmissed
      exact hreceived.trans hgiven.symm
    · refine .before (hnotMem (by simpa using Ne.symm hj)) ?_ hreceived hvisited hmissed
      exact List.not_mem_cons_of_ne_of_not_mem hj hlive
  | leave j =>
    rw [show sent ++ s.sentBy (.leave j) = sent from List.append_nil _]
    exact .before (hnotMem (by simp)) (fun hmem => hlive (List.mem_filter.mp hmem).1) hreceived
      hvisited hmissed
  | pop t packet rest ht hjob hqueue =>
    obtain rfl : t = 0 := by omega
    rw [show sent ++ s.sentBy (.pop 0) = sent from List.append_nil _]
    exact .before (hnotMem (by simp)) hlive hreceived (by simp) hmissed
  | deliver t j job hjob haddressed hnew =>
    obtain rfl := hqueued.sender_zero hjob
    have hj : id ≠ j := fun heq => hlive (heq ▸ live_of_deliver hstep)
    rw [show sent ++ s.sentBy (.deliver 0 j) = sent from List.append_nil _]
    refine .before (hnotMem (by simp)) hlive ?_ ?_ hmissed
    · simpa [hj] using hreceived
    · simpa [hj] using hvisited job hjob
  | finish t job hjob hdone =>
    obtain rfl := hqueued.sender_zero hjob
    refine .before (hnotMem (by simp)) hlive hreceived (by simp) ?_
    have hcurrent : s.sentBy (.finish 0) = [job.packet] := by simp [sentBy, current, hjob]
    rw [hcurrent, List.forall_mem_append, List.forall_mem_singleton]
    exact ⟨hmissed, not_private_of_done hdone (hvisited job hjob)⟩

theorem heard_step_during (hqueued : Queued id (worldOrder events) sent s)
    {missed heard : List ServerPacket} (hjoin : .join id ∈ events) (hlive : id ∈ s.live)
    (hsent : sent = missed ++ heard) (hreceived : s.received id = buffersFor id heard ++ s.given id)
    (hmissed : ∀ p ∈ missed, ¬ Private id p) (hstep : s.step 1 e = some s') :
    Heard id (events ++ [e]) (sent ++ s.sentBy e) s' := by
  have hjoin' : .join id ∈ events ++ [e] := List.mem_append_left _ hjoin
  cases step_cases hstep with
  | push packet =>
    rw [show sent ++ s.sentBy (.push packet) = sent from List.append_nil _]
    exact .during missed heard hjoin' hlive hsent hreceived hmissed
  | join j =>
    rw [show sent ++ s.sentBy (.join j) = sent from List.append_nil _]
    exact .during missed heard hjoin' (List.mem_cons_of_mem _ hlive) hsent hreceived hmissed
  | leave j hidle =>
    rw [show sent ++ s.sentBy (.leave j) = sent from List.append_nil _]
    by_cases hj : id = j
    · subst hj
      have hgone : id ∉ s.live.filter (· ≠ id) := by simp
      have hworld : worldOrder (events ++ [.leave id]) = worldOrder events := by
        rw [worldOrder_snoc]
        exact List.append_nil _
      have hgiven : s.given id = [] := by simp [given, hidle 0 Nat.one_pos]
      refine .after missed heard (s.current ++ s.outQueue) hjoin' hgone ?_ ?_
      · rw [hworld, hqueued.order, hsent, List.append_assoc]
      · show s.received id = _
        rw [hreceived, hgiven, List.append_nil]
    · refine .during missed heard hjoin' ?_ hsent hreceived hmissed
      exact List.mem_filter.mpr ⟨hlive, by simpa using hj⟩
  | pop t packet rest ht hjob hqueue =>
    obtain rfl : t = 0 := by omega
    rw [show sent ++ s.sentBy (.pop 0) = sent from List.append_nil _]
    refine .during missed heard hjoin' hlive hsent ?_ hmissed
    show s.received id = _
    rw [hreceived]
    simp [given, hjob]
  | deliver t j job hjob haddressed hnew =>
    obtain rfl := hqueued.sender_zero hjob
    rw [show sent ++ s.sentBy (.deliver 0 j) = sent from List.append_nil _]
    refine .during missed heard hjoin' hlive hsent ?_ hmissed
    by_cases hj : id = j
    · subst hj
      simp [hreceived, given, hjob, hnew]
    · simp [hreceived, given, hjob, hj]
  | finish t job hjob hdone =>
    obtain rfl := hqueued.sender_zero hjob
    have hnone : ({ s with jobs := Function.update s.jobs 0 none } : Pool).given id = [] := by
      simp [given]
    have hgiven := hqueued.given_of_done hjob hlive hdone
    refine .during missed (heard ++ s.current) hjoin' hlive ?_ ?_ hmissed
    · rw [hsent, List.append_assoc]
      rfl
    · rw [hnone, List.append_nil, buffersFor_append, ← hgiven]
      exact hreceived

theorem heard_step_after {missed heard rest : List ServerPacket} (hjoin : .join id ∈ events)
    (hlive : id ∉ s.live) (hpushed : worldOrder events = missed ++ heard ++ rest)
    (hreceived : s.received id = buffersFor id heard) (he : e ≠ .join id)
    (hstep : s.step 1 e = some s') : Heard id (events ++ [e]) (sent ++ s.sentBy e) s' := by
  have hworld : worldOrder (events ++ [e]) = missed ++ heard ++ (rest ++ e.pushed.toList) := by
    rw [worldOrder_snoc, hpushed, List.append_assoc _ rest]
  have hjoin' : .join id ∈ events ++ [e] := List.mem_append_left _ hjoin
  cases step_cases hstep with
  | push | pop | finish => exact .after missed heard _ hjoin' hlive hworld hreceived
  | join j =>
    have hj : id ≠ j := fun heq => he (by rw [heq])
    exact .after missed heard _ hjoin' (List.not_mem_cons_of_ne_of_not_mem hj hlive) hworld
      hreceived
  | leave j =>
    exact .after missed heard _ hjoin' (fun hmem => hlive (List.mem_filter.mp hmem).1) hworld
      hreceived
  | deliver t j job hjob haddressed hnew =>
    have hj : id ≠ j := fun heq => hlive (heq ▸ live_of_deliver hstep)
    refine .after missed heard _ hjoin' hlive hworld ?_
    simpa [hj] using hreceived

end Pool

/-- With one sender, in every run from the start of the server. -/
theorem heard_run {events : List PoolEvent} {s : Pool} (h : PoolRun 1 [] events s)
    (honce : JoinsOnce events) (id : UInt64) :
    ∃ sent, Pool.Queued id (worldOrder events) sent s ∧ Pool.Heard id events sent s := by
  induction h with
  | nil =>
    exact ⟨[], ⟨fun _ _ => rfl, rfl, by simp⟩,
      .before List.not_mem_nil List.not_mem_nil rfl (by simp) (by simp)⟩
  | @snoc ls e s s' hrun hstep ih =>
    obtain ⟨honce, hlast⟩ := EachAfter.snoc_iff.mp honce
    obtain ⟨sent, hqueued, hheard⟩ := ih honce
    refine ⟨sent ++ s.sentBy e, ?_, ?_⟩
    · rw [worldOrder_snoc]
      exact Pool.queued_step hqueued hstep
    · cases hheard with
      | before hjoin hlive hreceived hvisited hmissed =>
        exact Pool.heard_step_before hqueued hjoin hlive hreceived hvisited hmissed hstep
      | during missed heard hjoin hlive hsent hreceived hmissed =>
        exact Pool.heard_step_during hqueued hjoin hlive hsent hreceived hmissed hstep
      | after missed heard rest hjoin hlive hpushed hreceived =>
        exact Pool.heard_step_after hjoin hlive hpushed hreceived
          (fun he => hlast id he hjoin) hstep

/-- With one sender a session that is there has got, or is still to get, everything that is
    addressed to it from some packet on, and none of the packets before is for it alone. -/
theorem received_tail {events : List PoolEvent} {s : Pool} (h : PoolRun 1 [] events s)
    (honce : JoinsOnce events) {id : UInt64} (hlive : id ∈ s.live) :
    ∃ missed tail waiting, worldOrder events = missed ++ tail ∧
      (∀ p ∈ missed, ¬ Pool.Private id p) ∧ s.received id ++ waiting = buffersFor id tail ∧
      (s.outQueue = [] → (∀ t, s.jobs t = none) → waiting = []) := by
  obtain ⟨sent, hqueued, hheard⟩ := heard_run h honce id
  cases hheard with
  | before hjoin hnot hreceived hvisited hmissed => exact absurd hlive hnot
  | after missed heard rest hjoin hnot hpushed hreceived => exact absurd hlive hnot
  | during missed heard hjoin hlive hsent hreceived hmissed =>
    have horder : worldOrder events = missed ++ (heard ++ s.current ++ s.outQueue) := by
      rw [hqueued.order, hsent]
      simp only [List.append_assoc]
    -- what the current packet is still to bring
    obtain ⟨rest, hrest, hidle⟩ : ∃ rest, s.given id ++ rest = buffersFor id s.current ∧
        ((∀ t, s.jobs t = none) → rest = []) := by
      rcases hqueued.given_cases with hgiven | hgiven
      · refine ⟨buffersFor id s.current, by rw [hgiven, List.nil_append], fun hjobs => ?_⟩
        rw [show s.current = [] by simp [Pool.current, hjobs 0]]
        rfl
      · exact ⟨[], by rw [hgiven, List.append_nil], fun _ => rfl⟩
    refine ⟨missed, _, rest ++ buffersFor id s.outQueue, horder, hmissed, ?_, ?_⟩
    · rw [hreceived, buffersFor_append, buffersFor_append, ← hrest]
      simp only [List.append_assoc]
    · intro hqueue hjobs
      rw [hidle hjobs, hqueue]
      rfl

/-- With one sender a session hears, without a gap, a stretch of what the world says to it; one
    that is there hears all of it up to the end. -/
theorem received_stretch {events : List PoolEvent} {s : Pool} (h : PoolRun 1 [] events s)
    (honce : JoinsOnce events) (id : UInt64) :
    s.received id <:+: buffersFor id (worldOrder events) ∧
      (id ∈ s.live → s.outQueue = [] → (∀ t, s.jobs t = none) →
        s.received id <:+ buffersFor id (worldOrder events)) := by
  by_cases hlive : id ∈ s.live
  · obtain ⟨missed, tail, waiting, horder, -, hreceived, hidle⟩ := received_tail h honce hlive
    rw [horder, buffersFor_append, ← hreceived]
    refine ⟨⟨buffersFor id missed, waiting, List.append_assoc _ _ _⟩, fun _ hqueue hjobs => ?_⟩
    rw [hidle hqueue hjobs, List.append_nil]
    exact List.suffix_append _ _
  · refine ⟨?_, fun hmem => absurd hmem hlive⟩
    obtain ⟨sent, hqueued, hheard⟩ := heard_run h honce id
    cases hheard with
    | before hjoin hnot hreceived hvisited hmissed =>
      rw [hreceived]
      exact List.nil_infix
    | during missed heard hjoin hthere => exact absurd hthere hlive
    | after missed heard rest hjoin hnot hpushed hreceived =>
      refine ⟨buffersFor id missed, buffersFor id rest, ?_⟩
      rw [hreceived, hpushed, buffersFor_append, buffersFor_append]

end EndlessPeak
