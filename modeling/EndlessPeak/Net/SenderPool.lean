import EndlessPeak.Net.SendQueue
import EndlessPeak.Net.Server

/-!
# Several sender threads

`main` starts `net_threads` threads that all run `Server::Sender` on one out queue. A
sender pops a packet in one step and pushes it to the sessions one by one, in a loop
over `sessions_`; the steps of several senders and of the world are interleaved in any way.

`Sender` does not take `sessions_mutex_`. A session that is added inside the loop can make it
call another one twice or not at all, if the hash table grows, and one that is closed can
leave it on a node that has been freed. These runs are not in the model: sessions come and go
only while no sender has a packet in hand.

* `Pool.step_cases`: the ways a step can go.
* `Pool.SingleInv`: with one sender, what each session has received (`singleInv_step`).
* `inWorldOrder_iff`: the order of the world is kept in every run exactly if there is only
  one sender; `inWorldOrder_poolSize` says which configurations that are.
* `sender_received`: what one sender does is what `Server.sender` does, packet by packet.
-/

namespace EndlessPeak

open Lib

/-! ## The model -/

/-- The packet a sender has popped, and the sessions that its loop has called so far. -/
structure Job where
  packet : ServerPacket
  visited : List UInt64 := []

/-- The network out queue, the ids in `sessions_`, what each sender is doing, and what has
    been pushed to the out queue of each session. -/
structure Pool where
  outQueue : List ServerPacket := []
  live : List UInt64 := []
  jobs : ℕ → Option Job := fun _ => none
  received : UInt64 → List Buffer := fun _ => []

/-- What can happen next. -/
inductive PoolEvent where
  /-- The world pushes a packet. -/
  | push (packet : ServerPacket)
  /-- A session is added. -/
  | join (id : UInt64)
  /-- A session is closed. -/
  | leave (id : UInt64)
  /-- `WaitAndPop` of the sender `t` returns. -/
  | pop (t : ℕ)
  /-- The sender `t` calls `PushToSend` of a session. -/
  | deliver (t : ℕ) (id : UInt64)
  /-- The sender `t` has called all sessions. -/
  | finish (t : ℕ)

namespace Pool

/-- A sender has called every session it has to call: its packet's own, which it would
    dereference a null pointer for if it is not there, or those of its loop. -/
def Done (s : Pool) (job : Job) : Prop :=
  (job.packet.type = .rpc → job.packet.id ∈ job.visited) ∧
    ∀ id ∈ s.live, job.packet.AddressedTo id → id ∈ job.visited

instance (s : Pool) (job : Job) : Decidable (s.Done job) :=
  @instDecidableAnd _ _ inferInstance (List.decidableBAll _ s.live)

/-- No sender has a packet in hand. -/
def Idle (n : ℕ) (s : Pool) : Prop := ∀ t < n, s.jobs t = none

instance (n : ℕ) (s : Pool) : Decidable (s.Idle n) :=
  inferInstanceAs (Decidable (∀ t < n, s.jobs t = none))

/-- One step of a pool of `n` senders. -/
def step (n : ℕ) (s : Pool) : PoolEvent → Option Pool
  | .push packet => some { s with outQueue := s.outQueue ++ [packet] }
  | .join id => if s.Idle n then some { s with live := id :: s.live } else none
  | .leave id => if s.Idle n then some { s with live := s.live.filter (· ≠ id) } else none
  | .pop t =>
    match s.jobs t, s.outQueue with
    | none, packet :: rest =>
      if t < n then
        some { s with
          outQueue := rest
          jobs := Function.update s.jobs t (some { packet }) }
      else none
    | _, _ => none
  | .deliver t id =>
    match s.jobs t with
    | some job =>
      if id ∈ s.live ∧ job.packet.AddressedTo id ∧ id ∉ job.visited then
        let buf := job.packet.getNetPacket.makeBuffer
        some { s with
          jobs := Function.update s.jobs t (some { job with visited := job.visited ++ [id] })
          received := Function.update s.received id (s.received id ++ [buf]) }
      else none
    | none => none
  | .finish t =>
    match s.jobs t with
    | some job => if s.Done job then some { s with jobs := Function.update s.jobs t none } else none
    | none => none

end Pool

/-- The events can happen in this order with `n` senders, from a moment when the sessions
    `live` are there and no packet is on its way, and lead to the last argument. -/
def PoolRun (n : ℕ) (live : List UInt64) : List PoolEvent → Pool → Prop :=
  Run (stepRel (Pool.step n)) { live }

/-- The packet that an event pushes to the network out queue. -/
def PoolEvent.pushed : PoolEvent → Option ServerPacket
  | .push packet => some packet
  | _ => none

/-- The packets the world has pushed, in order. -/
def worldOrder (events : List PoolEvent) : List ServerPacket := events.filterMap PoolEvent.pushed

/-- The buffers of the packets that are addressed to `id`, in order. -/
def buffersFor (id : UInt64) (packets : List ServerPacket) : List Buffer :=
  (packets.filter fun p => p.AddressedTo id).map fun p => p.packet.makeBuffer

/-- With `n` senders, in every run, every session that is there from the start and does not
    leave has received a prefix of what is addressed to it, in the order of the world, and
    all of it when no packet is on its way any more. -/
def InWorldOrder (n : ℕ) : Prop :=
  ∀ live events s, PoolRun n live events s → ∀ id ∈ live, .leave id ∉ events →
    s.received id <+: buffersFor id (worldOrder events) ∧
      (s.outQueue = [] → (∀ t, s.jobs t = none) →
        s.received id = buffersFor id (worldOrder events))

theorem worldOrder_snoc (events : List PoolEvent) (e : PoolEvent) :
    worldOrder (events ++ [e]) = worldOrder events ++ e.pushed.toList :=
  filterMap_snoc PoolEvent.pushed events e

theorem buffersFor_append (id : UInt64) (packets packets' : List ServerPacket) :
    buffersFor id (packets ++ packets') = buffersFor id packets ++ buffersFor id packets' := by
  simp [buffersFor]

theorem buffersFor_singleton (id : UInt64) (packet : ServerPacket) :
    buffersFor id [packet] = if packet.AddressedTo id then [packet.packet.makeBuffer] else [] := by
  by_cases h : packet.AddressedTo id
  · simp [buffersFor, h]
  · simp [buffersFor, h]

/-! ## One sender -/

namespace Pool

variable {n : ℕ} {s s' : Pool} {e : PoolEvent} {id : UInt64} {pushed : List ServerPacket}

/-- The steps of a pool, one constructor for each event. -/
inductive Moves (n : ℕ) (s : Pool) : PoolEvent → Pool → Prop
  | push (packet : ServerPacket) :
      Moves n s (.push packet) { s with outQueue := s.outQueue ++ [packet] }
  | join (id : UInt64) (hidle : s.Idle n) : Moves n s (.join id) { s with live := id :: s.live }
  | leave (id : UInt64) (hidle : s.Idle n) :
      Moves n s (.leave id) { s with live := s.live.filter (· ≠ id) }
  | pop (t : ℕ) (packet : ServerPacket) (rest : List ServerPacket) (ht : t < n)
      (hjob : s.jobs t = none) (hqueue : s.outQueue = packet :: rest) :
      Moves n s (.pop t) { s with
        outQueue := rest
        jobs := Function.update s.jobs t (some { packet }) }
  | deliver (t : ℕ) (id : UInt64) (job : Job) (hjob : s.jobs t = some job)
      (haddressed : job.packet.AddressedTo id) (hnew : id ∉ job.visited) :
      Moves n s (.deliver t id) { s with
        jobs := Function.update s.jobs t (some { job with visited := job.visited ++ [id] })
        received :=
          Function.update s.received id (s.received id ++ [job.packet.packet.makeBuffer]) }
  | finish (t : ℕ) (job : Job) (hjob : s.jobs t = some job) (hdone : s.Done job) :
      Moves n s (.finish t) { s with jobs := Function.update s.jobs t none }

theorem step_cases (h : s.step n e = some s') : Moves n s e s' := by
  cases e with
  | push packet =>
    cases h
    exact .push packet
  | join id =>
    simp only [step, Option.ite_none_right_eq_some, Option.some_inj] at h
    obtain ⟨hidle, rfl⟩ := h
    exact .join id hidle
  | leave id =>
    simp only [step, Option.ite_none_right_eq_some, Option.some_inj] at h
    obtain ⟨hidle, rfl⟩ := h
    exact .leave id hidle
  | pop t =>
    unfold step at h
    cases hjob : s.jobs t with
    | some job => simp [hjob] at h
    | none =>
      cases hqueue : s.outQueue with
      | nil => simp [hjob, hqueue] at h
      | cons packet rest =>
        simp only [hjob, hqueue, Option.ite_none_right_eq_some, Option.some_inj] at h
        obtain ⟨ht, rfl⟩ := h
        exact .pop t packet rest ht hjob hqueue
  | deliver t id =>
    unfold step at h
    cases hjob : s.jobs t with
    | none => simp [hjob] at h
    | some job =>
      simp only [hjob, Option.ite_none_right_eq_some, Option.some_inj] at h
      obtain ⟨⟨-, haddressed, hnew⟩, rfl⟩ := h
      rw [ServerPacket.getNetPacket_eq]
      exact .deliver t id job hjob haddressed hnew
  | finish t =>
    unfold step at h
    cases hjob : s.jobs t with
    | none => simp [hjob] at h
    | some job =>
      simp only [hjob, Option.ite_none_right_eq_some, Option.some_inj] at h
      obtain ⟨hdone, rfl⟩ := h
      exact .finish t job hjob hdone

/-- The packet that the only sender is working on. -/
def current (s : Pool) : List ServerPacket := ((s.jobs 0).map Job.packet).toList

/-- What the session `id` has received of it. -/
def given (s : Pool) (id : UInt64) : List Buffer :=
  match s.jobs 0 with
  | some job => if id ∈ job.visited then [job.packet.packet.makeBuffer] else []
  | none => []

/-- The invariant of a pool with one sender, for a session `id` that stays: the packets of
    the world are sent, in the works or in the queue, in this order, and the session has
    received what was addressed to it of those sent, and possibly the current one. -/
structure SingleInv (id : UInt64) (pushed : List ServerPacket) (s : Pool) : Prop where
  live : id ∈ s.live
  others : ∀ t, t ≠ 0 → s.jobs t = none
  order : ∃ sent, pushed = sent ++ s.current ++ s.outQueue ∧
    s.received id = buffersFor id sent ++ s.given id
  visited : ∀ job, s.jobs 0 = some job → id ∈ job.visited → job.packet.AddressedTo id

theorem SingleInv.sender_zero (h : SingleInv id pushed s) {t : ℕ} {job : Job}
    (hjob : s.jobs t = some job) : t = 0 := by
  by_contra ht
  rw [h.others t ht] at hjob
  cases hjob

theorem given_of_done (h : SingleInv id pushed s) {job : Job} (hjob : s.jobs 0 = some job)
    (hdone : s.Done job) : s.given id = buffersFor id [job.packet] := by
  rw [buffersFor_singleton, given, hjob]
  by_cases haddressed : job.packet.AddressedTo id
  · have hvisited := hdone.2 id h.live haddressed
    simp [haddressed, hvisited]
  · have hnot : id ∉ job.visited := fun hmem => haddressed (h.visited job hjob hmem)
    simp [haddressed, hnot]

/-- The session has received the current packet at most once, and only if it is addressed
    to it. -/
theorem given_isPrefix (h : SingleInv id pushed s) : s.given id <+: buffersFor id s.current := by
  unfold given current
  cases hjob : s.jobs 0 with
  | none => exact List.nil_prefix
  | some job =>
    show (if id ∈ job.visited then [job.packet.packet.makeBuffer] else []) <+:
      buffersFor id [job.packet]
    rw [buffersFor_singleton]
    split_ifs with hmem haddressed
    · exact List.prefix_refl _
    · exact absurd (h.visited job hjob hmem) haddressed
    · exact List.nil_prefix
    · exact List.nil_prefix

/-- With one sender every step keeps the order. -/
theorem singleInv_step (h : SingleInv id pushed s) (hstep : s.step 1 e = some s')
    (hstay : e ≠ .leave id) : SingleInv id (pushed ++ e.pushed.toList) s' := by
  obtain ⟨sent, hpushed, hreceived⟩ := h.order
  cases step_cases hstep with
  | push packet =>
    refine ⟨h.live, h.others, ⟨sent, ?_, hreceived⟩, h.visited⟩
    rw [hpushed]
    simp [PoolEvent.pushed, current]
  | join j hidle =>
    refine ⟨List.mem_cons_of_mem _ h.live, h.others, ⟨sent, ?_, hreceived⟩, h.visited⟩
    rw [hpushed]
    simp [PoolEvent.pushed, current]
  | leave j hidle =>
    have hj : id ≠ j := fun heq => hstay (by rw [heq])
    refine ⟨?_, h.others, ⟨sent, ?_, hreceived⟩, h.visited⟩
    · exact List.mem_filter.mpr ⟨h.live, by simpa using hj⟩
    · rw [hpushed]
      simp [PoolEvent.pushed, current]
  | pop t packet rest ht hjob hqueue =>
    obtain rfl : t = 0 := by omega
    have hnone : s.given id = [] := by simp [given, hjob]
    refine ⟨h.live, ?_, ⟨sent, ?_, ?_⟩, ?_⟩
    · intro u hu
      simpa [hu] using h.others u hu
    · rw [hpushed]
      simp [PoolEvent.pushed, current, hjob, hqueue]
    · show s.received id = _
      rw [hreceived, hnone]
      simp [given]
    · rintro job hnew hmem
      simp only [Function.update_self, Option.some_inj] at hnew
      subst hnew
      simp at hmem
  | deliver t j job hjob haddressed hnew =>
    obtain rfl := h.sender_zero hjob
    refine ⟨h.live, ?_, ⟨sent, ?_, ?_⟩, ?_⟩
    · intro u hu
      simpa [hu] using h.others u hu
    · rw [hpushed]
      simp [PoolEvent.pushed, current, hjob]
    · by_cases hj : id = j
      · subst hj
        simp [hreceived, given, hjob, hnew]
      · simp [hreceived, given, hjob, hj]
    · rintro job' heq hmem
      simp only [Function.update_self, Option.some_inj] at heq
      subst heq
      rcases List.mem_append.mp hmem with hmem | hmem
      · exact h.visited job hjob hmem
      · rw [List.mem_singleton.mp hmem]
        exact haddressed
  | finish t job hjob hdone =>
    obtain rfl := h.sender_zero hjob
    have hgiven := given_of_done h hjob hdone
    refine ⟨h.live, ?_, ⟨sent ++ [job.packet], ?_, ?_⟩, ?_⟩
    · intro u hu
      simpa [hu] using h.others u hu
    · rw [hpushed]
      simp [PoolEvent.pushed, current, hjob]
    · show s.received id = _
      rw [hreceived, hgiven, buffersFor_append]
      simp [given]
    · rintro job' heq
      simp at heq

end Pool

/-- With one sender, the sessions receive what the world has pushed, in its order. -/
theorem inWorldOrder_one : InWorldOrder 1 := by
  intro live events s hrun id hid hstay
  have hinv : Pool.SingleInv id (worldOrder events) s := by
    have hinit : Pool.SingleInv id [] { live } :=
      ⟨hid, fun _ _ => rfl, ⟨[], rfl, rfl⟩, by simp⟩
    have hall : .leave id ∉ events → Pool.SingleInv id (worldOrder events) s := by
      refine hrun.invariant_trace (I := fun events s =>
        .leave id ∉ events → Pool.SingleInv id (worldOrder events) s) (fun _ => hinit) ?_
      intro events s e s' hs hstep hstay
      rw [List.mem_append, List.mem_singleton, not_or] at hstay
      rw [worldOrder_snoc]
      exact Pool.singleInv_step (hs hstay.1) hstep (Ne.symm hstay.2)
    exact hall hstay
  obtain ⟨sent, hpushed, hreceived⟩ := hinv.order
  constructor
  · rw [hreceived, hpushed, buffersFor_append, buffersFor_append, List.append_assoc]
    apply (List.prefix_append_right_inj _).mpr
    exact (Pool.given_isPrefix hinv).trans (List.prefix_append _ _)
  · intro hqueue hidle
    have hcurrent : s.current = [] := by simp [Pool.current, hidle 0]
    have hgiven : s.given id = [] := by simp [Pool.given, hidle 0]
    rw [hreceived, hpushed, hcurrent, hgiven, hqueue, List.append_nil, List.append_nil,
      List.append_nil]

/-! ## Two senders -/

theorem Pool.jobs_step {n : ℕ} {s s' : Pool} {e : PoolEvent} (h : s.step n e = some s')
    (hjobs : ∀ t, n ≤ t → s.jobs t = none) : ∀ t, n ≤ t → s'.jobs t = none := by
  intro u hu
  cases step_cases h with
  | push | join | leave => exact hjobs u hu
  | pop t packet rest ht =>
    have hne : u ≠ t := by omega
    simpa [hne] using hjobs u hu
  | deliver t id job hjob =>
    have hne : u ≠ t := by
      rintro rfl
      rw [hjobs u hu] at hjob
      cases hjob
    simpa [hne] using hjobs u hu
  | finish t =>
    show Function.update s.jobs t none u = none
    rw [Function.update_apply]
    split_ifs
    · rfl
    · exact hjobs u hu

theorem PoolRun.jobs {n : ℕ} {live : List UInt64} {events : List PoolEvent} {s : Pool}
    (h : PoolRun n live events s) : ∀ t, n ≤ t → s.jobs t = none :=
  h.invariant (I := fun s => ∀ t, n ≤ t → s.jobs t = none) (fun _ _ => rfl)
    fun _ _ _ hjobs hstep => Pool.jobs_step hstep hjobs

/-- A larger pool can do what a smaller one can. -/
theorem PoolRun.mono {n m : ℕ} (hle : n ≤ m) {live : List UInt64} {events : List PoolEvent}
    {s : Pool} (h : PoolRun n live events s) : PoolRun m live events s := by
  induction h with
  | nil => exact .nil
  | @snoc ls e s s' hrun hstep ih =>
    have hidle : s.Idle n → s.Idle m := by
      intro hidle t _
      by_cases ht : t < n
      · exact hidle t ht
      · exact PoolRun.jobs hrun t (by omega)
    refine ih.snoc ?_
    cases e with
    | pop t =>
      cases Pool.step_cases hstep with
      | pop t packet rest ht hjob hqueue =>
        simp [stepRel, Pool.step, hjob, hqueue, ht.trans_le hle]
    | join id =>
      cases Pool.step_cases hstep with
      | join id hnone => simp [stepRel, Pool.step, hidle hnone]
    | leave id =>
      cases Pool.step_cases hstep with
      | leave id hnone => simp [stepRel, Pool.step, hidle hnone]
    | push | deliver | finish => exact hstep

/-- The last `MovePlayer` about a player `1`. -/
def ghostMove : ServerPacket := { packet := movePlayerPacket 1 0 0, id := 1 }

/-- The `RemovePlayer` that follows. -/
def ghostRemoval : ServerPacket := { packet := removePlayerPacket 1, id := 1 }

/-- The world pushes the last `MovePlayer` and then the `RemovePlayer` of player `1`. Two
    senders pop one each, and the second one is faster: the client of session `0` is left
    with a player that has gone. -/
def overtaken : List PoolEvent :=
  [.push ghostMove, .push ghostRemoval, .pop 0, .pop 1, .deliver 1 0, .finish 1, .deliver 0 0,
    .finish 0]

theorem not_inWorldOrder {n : ℕ} (hn : 2 ≤ n) : ¬ InWorldOrder n := by
  intro hclaim
  have heval : (overtaken.foldlM (Pool.step 2) { live := [0] }).any (fun s =>
      s.received 0 = [ghostRemoval.packet.makeBuffer, ghostMove.packet.makeBuffer]) = true := by
    decide +kernel
  simp only [Option.any_eq_true, decide_eq_true_eq] at heval
  obtain ⟨s, hs, hreceived⟩ := heval
  have hrun : PoolRun n [0] overtaken s := PoolRun.mono hn (run_iff_foldlM.mpr hs)
  have hprefix := (hclaim [0] overtaken s hrun 0 (by simp) (by simp [overtaken])).1
  rw [hreceived] at hprefix
  revert hprefix
  decide +kernel

/-- For every number of senders: every session that stays receives the packets addressed
    to it in the order of the world, each once, exactly if there is only one sender. -/
theorem inWorldOrder_iff {n : ℕ} (hn : 1 ≤ n) : InWorldOrder n ↔ n = 1 := by
  constructor
  · intro hclaim
    by_contra hne
    exact not_inWorldOrder (by omega) hclaim
  · rintro rfl
    exact inWorldOrder_one

theorem inWorldOrder_iff_two : InWorldOrder 2 ↔ 2 = 1 := inWorldOrder_iff (by decide)

/-- Not every size of the pool keeps the order. -/
theorem second_sender_overtakes : ¬ ∀ n, 1 ≤ n → InWorldOrder n :=
  fun hclaim => not_inWorldOrder (le_refl 2) (hclaim 2 (by decide))

/-- `std::max<int>(1, config->net_config_.net_threads_)` in `main`. -/
def poolSize (netThreads : UInt8) : ℕ := max 1 netThreads.toNat

/-- The configurations that keep the order of the world. -/
theorem inWorldOrder_poolSize (netThreads : UInt8) :
    InWorldOrder (poolSize netThreads) ↔ netThreads.toNat ≤ 1 := by
  unfold poolSize
  by_cases h : netThreads.toNat ≤ 1
  · rw [max_eq_left h]
    exact iff_of_true inWorldOrder_one h
  · exact iff_of_false (not_inWorldOrder (by omega)) h

/-! ## Packet by packet -/

/-- One sender that is not interrupted: the packets go through `Server.sender` one after
    the other. A session that is there gets what is addressed to it, in order. -/
theorem sender_received {platform : Platform} {packets : List ServerPacket}
    {server server' : Server} {id : UInt64} (hsound : server.Sound) (hid : id ∈ server.sessions)
    (h : packets.foldlM (Server.sender platform) server = some server') :
    server'.received id = server.received id ++ buffersFor id packets := by
  induction packets generalizing server with
  | nil =>
    cases h
    simp [buffersFor]
  | cons packet packets ih =>
    rw [List.foldlM_cons, Option.bind_eq_bind, Option.bind_eq_some_iff] at h
    obtain ⟨mid, hmid, hrest⟩ := h
    have hfirst : mid.received id = server.received id ++ buffersFor id [packet] := by
      rw [Server.received_sender hsound hmid, buffersFor_singleton]
      simp only [hid, true_and]
    have hmem : id ∈ mid.sessions := by rwa [Server.sender_sessions hsound hmid]
    rw [ih (Server.sound_sender hsound hmid) hmem hrest, hfirst, List.append_assoc,
      ← buffersFor_append, List.singleton_append]

end EndlessPeak
