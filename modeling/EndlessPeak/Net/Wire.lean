import EndlessPeak.Net.Delivery
import EndlessPeak.Net.Teardown

/-!
# From the world to the sockets

The senders of `Pool` and the sessions of `Hub` together: `PushToSend`, which a sender calls
for each of its targets, is the operation of the session, step by step, and a sender goes on
only when the call has returned. What a session does to `sessions_` is what the senders find
there; as in `Pool`, a session does so only while no sender has a packet in hand.

* `wire_run`: every run is at once a run of the pool and a run of the sessions, which agree
  on the sessions that are there and on what has been pushed to them.
* `sockets_conserve`: with any number of senders, nothing is written to a socket twice, and
  nothing that the world has not addressed to its client.
* `socket_in_world_order`: with one sender, what is written is a stretch of what the world
  says to the client, in its order and without a gap.
-/

namespace EndlessPeak

open Lib

/-! ## The model -/

/-- The out queue and the senders, the sessions, and the session whose `PushToSend` each
    sender has called last. -/
structure Wire where
  pool : Pool := {}
  hub : Hub := {}
  calling : ℕ → Option UInt64 := fun _ => none

/-- What can happen next. -/
inductive WireEvent where
  /-- The world pushes a packet. -/
  | push (packet : ServerPacket)
  /-- `WaitAndPop` of the sender `t` returns. -/
  | pop (t : ℕ)
  /-- The sender `t` calls `PushToSend` of a session. -/
  | call (t : ℕ) (id : UInt64)
  /-- The sender `t` has called all sessions. -/
  | finish (t : ℕ)
  /-- A session goes on: one of its operations completes, or its handler or a thread in its
      `Send` takes a step. -/
  | session (id : UInt64) (event : EndpointEvent)

/-- The packet that an event pushes to the network out queue. -/
def WireEvent.pushed : WireEvent → Option ServerPacket
  | .push packet => some packet
  | _ => none

/-- The packets the world has pushed, in order. -/
def said (events : List WireEvent) : List ServerPacket := events.filterMap WireEvent.pushed

/-- What the senders see of a step of the session `id`, by whether it is in `sessions_` before
    and after. -/
def membership (id : UInt64) : Bool → Bool → Option PoolEvent
  | false, true => some (.join id)
  | true, false => some (.leave id)
  | _, _ => none

namespace Wire

/-- The last `PushToSend` of the sender `t` has returned. -/
def Returned (w : Wire) (t : ℕ) : Prop :=
  ∀ id ∈ w.calling t, (w.hub.endpoint id).send.pc (t + 1) = .idle

instance (w : Wire) (t : ℕ) : Decidable (w.Returned t) :=
  Option.decidableForallMem (w.calling t)

/-- One step, with `n` senders. -/
def step (n : ℕ) (w : Wire) : WireEvent → Option Wire
  | .push packet => (w.pool.step n (.push packet)).map fun pool => { w with pool }
  | .pop t => (w.pool.step n (.pop t)).map fun pool => { w with pool }
  | .call t id =>
    if w.Returned t then
      (w.pool.jobs t).bind fun job =>
        (w.pool.step n (.deliver t id)).bind fun pool =>
          (w.hub.step (id, .push t job.packet.getNetPacket.makeBuffer)).map fun hub =>
            { pool, hub, calling := Function.update w.calling t (some id) }
    else none
  | .finish t =>
    if w.Returned t then (w.pool.step n (.finish t)).map fun pool => { w with pool } else none
  | .session _ (.push _ _) => none -- only a sender calls `PushToSend`
  | .session id event =>
    (w.hub.step (id, event)).bind fun hub =>
      ((membership id (w.hub.sessions id) (hub.sessions id)).toList.foldlM (Pool.step n)
        w.pool).map fun pool => { w with pool, hub }

end Wire

/-- The events can happen in this order with `n` senders from the start of the server, and lead
    to the last argument. -/
def WireRun (n : ℕ) : List WireEvent → Wire → Prop := Run (stepRel (Wire.step n)) {}

/-! ## One step of a session -/

namespace Endpoint

variable {e e' : Endpoint} {id : UInt64} {live live' : Bool} {log out : List Entry}
  {event : EndpointEvent}

/-- Only `PushToSend` adds to the queue of a session. -/
theorem pushed_step (hstep : e.step id live event = some (e', live', out))
    (hevent : ∀ t buf, event ≠ .push t buf) : e'.pushed = e.pushed := by
  cases step_cases hstep with
  | accepted | refused | readFailed | read | written | writeFailed => rfl
  | handle hhandle => exact (handle_send hhandle).2
  | push t buf send hsend => exact absurd rfl (hevent t buf)
  | send u send hsend => exact sent_pushed

theorem added_step (hstep : e.step id live event = some (e', live', out))
    (hadded : e.added = true) : e'.added = true := by
  cases step_cases hstep with
  | accepted | refused | readFailed | read | written | writeFailed | push => exact hadded
  | handle hhandle =>
    by_contra hnot
    rw [handle_added hhandle (by simpa using hnot)] at hadded
    cases hadded
  | send u send hsend =>
    unfold sent
    split <;> exact hadded

theorem live_push {t : ℕ} {buf : Buffer}
    (hstep : e.step id live (.push t buf) = some (e', live', out)) :
    live' = live ∧ e'.pushed = e.pushed ++ [buf] := by
  cases step_cases hstep with
  | push t buf send hsend => exact ⟨rfl, rfl⟩

theorem Phase.added_of_live (h : Phase id e true log) : e.added = true := by
  cases h with
  | adding _ hadded | joined _ hadded | failing _ hadded => exact hadded

/-- A session gets into `sessions_` once. -/
theorem Phase.of_join (h : Phase id e false log)
    (hstep : e.step id false event = some (e', true, out)) :
    e.added = false ∧ e'.added = true := by
  cases step_cases hstep with
  | handle hhandle =>
    unfold handle at hhandle
    split at hhandle
    case h_5 hplace =>
      cases hhandle
      refine ⟨?_, rfl⟩
      cases h with
      | waiting _ hadded | joining _ hadded => exact hadded
      | refused _ hadded => exact hadded
      | removing _ _ _ hp =>
        rw [hplace] at hp
        cases hp
      | removed _ _ _ hp =>
        simp [Failing, hplace, Place.Quiet] at hp
    case h_4 => split at hhandle <;> simp at hhandle
    all_goals simp at hhandle

end Endpoint

/-! ## The pool and the sessions agree -/

namespace Wire

variable {n : ℕ} {w w' : Wire} {e : WireEvent} {poolEvents : List PoolEvent}

/-- The steps, one constructor for each event. -/
inductive Moves (n : ℕ) (w : Wire) : WireEvent → Wire → Prop
  | push (packet : ServerPacket) (pool : Pool)
      (hpool : w.pool.step n (.push packet) = some pool) :
      Moves n w (.push packet) { w with pool }
  | pop (t : ℕ) (pool : Pool) (hpool : w.pool.step n (.pop t) = some pool) :
      Moves n w (.pop t) { w with pool }
  | call (t : ℕ) (id : UInt64) (job : Job) (pool : Pool) (hub : Hub)
      (hjob : w.pool.jobs t = some job) (hpool : w.pool.step n (.deliver t id) = some pool)
      (hhub : w.hub.step (id, .push t job.packet.packet.makeBuffer) = some hub) :
      Moves n w (.call t id)
        { pool, hub, calling := Function.update w.calling t (some id) }
  | finish (t : ℕ) (pool : Pool) (hpool : w.pool.step n (.finish t) = some pool) :
      Moves n w (.finish t) { w with pool }
  | session (id : UInt64) (event : EndpointEvent) (pool : Pool) (hub : Hub)
      (hevent : ∀ t buf, event ≠ .push t buf) (hhub : w.hub.step (id, event) = some hub)
      (hpool : Run (stepRel (Pool.step n)) w.pool
        (membership id (w.hub.sessions id) (hub.sessions id)).toList pool) :
      Moves n w (.session id event) { w with pool, hub }

/-- A step of a session, which is no `PushToSend`. -/
theorem step_session {id : UInt64} {event : EndpointEvent}
    (hevent : ∀ t buf, event ≠ .push t buf) : w.step n (.session id event) =
      (w.hub.step (id, event)).bind fun hub =>
        ((membership id (w.hub.sessions id) (hub.sessions id)).toList.foldlM (Pool.step n)
          w.pool).map fun pool => { w with pool, hub } := by
  cases event with
  | push t buf => exact absurd rfl (hevent t buf)
  | accepted | readDone | written | handle | send => rfl

theorem step_cases (h : w.step n e = some w') : Moves n w e w' := by
  cases e with
  | push packet =>
    simp only [step, Option.map_eq_some_iff] at h
    obtain ⟨pool, hpool, rfl⟩ := h
    exact .push packet pool hpool
  | pop t =>
    simp only [step, Option.map_eq_some_iff] at h
    obtain ⟨pool, hpool, rfl⟩ := h
    exact .pop t pool hpool
  | call t id =>
    simp only [step, Option.ite_none_right_eq_some, Option.bind_eq_some_iff,
      Option.map_eq_some_iff, ServerPacket.getNetPacket_eq] at h
    obtain ⟨-, job, hjob, pool, hpool, hub, hhub, rfl⟩ := h
    exact .call t id job pool hub hjob hpool hhub
  | finish t =>
    simp only [step, Option.ite_none_right_eq_some, Option.map_eq_some_iff] at h
    obtain ⟨-, pool, hpool, rfl⟩ := h
    exact .finish t pool hpool
  | session id event =>
    have hevent : ∀ t buf, event ≠ .push t buf := by
      rintro t buf rfl
      cases h
    rw [step_session hevent, Option.bind_eq_some_iff] at h
    obtain ⟨hub, hhub, h⟩ := h
    obtain ⟨pool, hpool, rfl⟩ := Option.map_eq_some_iff.mp h
    exact .session id event pool hub hevent hhub (run_iff_foldlM.mpr hpool)

/-- The senders find the sessions that are in `sessions_`, and what they have pushed to a
    session is what it has got. A session that has been added has been marked so. -/
structure Coupled (poolEvents : List PoolEvent) (w : Wire) : Prop where
  live : ∀ id, id ∈ w.pool.live ↔ w.hub.sessions id = true
  received : ∀ id, w.pool.received id = (w.hub.endpoint id).pushed
  joined : ∀ id, .join id ∈ poolEvents → (w.hub.endpoint id).added = true

/-- What a step of a session means to the pool: it gets into `sessions_`, it leaves them, or
    nothing. -/
theorem coupled_session (h : Coupled poolEvents w) {id : UInt64} {event : EndpointEvent}
    {pool : Pool} {hub : Hub} (hphase : Endpoint.Inv w.hub id)
    (hevent : ∀ t buf, event ≠ .push t buf) (hhub : w.hub.step (id, event) = some hub)
    (hpool : Run (stepRel (Pool.step n)) w.pool
      (membership id (w.hub.sessions id) (hub.sessions id)).toList pool)
    (honce : JoinsOnce poolEvents) :
    ∃ more, Run (stepRel (Pool.step n)) w.pool more pool ∧ worldOrder more = [] ∧
      JoinsOnce (poolEvents ++ more) ∧ Coupled (poolEvents ++ more) { w with pool, hub } := by
  obtain ⟨out, hself, -⟩ := Hub.step_self hhub
  have hother := fun j (hj : j ≠ id) => Hub.step_other hhub hj
  have hreceived : ∀ j, w.pool.received j = (hub.endpoint j).pushed := by
    intro j
    by_cases hj : j = id
    · subst hj
      rw [Endpoint.pushed_step hself hevent]
      exact h.received j
    · rw [(hother j hj).1]
      exact h.received j
  have hjoined : ∀ j, .join j ∈ poolEvents → (hub.endpoint j).added = true := by
    intro j hmem
    by_cases hj : j = id
    · subst hj
      exact Endpoint.added_step hself (h.joined j hmem)
    · rw [(hother j hj).1]
      exact h.joined j hmem
  have hlive : ∀ j, j ≠ id → (j ∈ w.pool.live ↔ hub.sessions j = true) := by
    intro j hj
    rw [(hother j hj).2.1]
    exact h.live j
  have hid := h.live id
  have hphase := hphase.phase
  refine ⟨_, hpool, ?_⟩
  cases hbefore : w.hub.sessions id <;> cases hafter : hub.sessions id <;>
    rw [hbefore, hafter] at hself hpool <;> rw [hbefore] at hid hphase
  case false.true =>
    obtain ⟨hfresh, hadded⟩ := hphase.of_join hself
    obtain ⟨v, hstep, hnil⟩ := Run.cons_iff.mp hpool
    obtain rfl := Run.nil_iff.mp hnil
    cases Pool.step_cases hstep with
    | join j =>
      refine ⟨rfl, ?_, ?_, hreceived, ?_⟩
      · refine EachAfter.snoc_iff.mpr ⟨honce, ?_⟩
        rintro j ⟨⟩ hmem
        rw [h.joined id hmem] at hfresh
        cases hfresh
      · intro j
        by_cases hj : j = id
        · subst hj
          exact iff_of_true List.mem_cons_self hafter
        · rw [← hlive j hj]
          exact List.mem_cons.trans (or_iff_right hj)
      · intro j hmem
        rcases List.mem_append.mp hmem with hmem | hmem
        · exact hjoined j hmem
        · cases List.mem_singleton.mp hmem
          exact hadded
  case true.false =>
    obtain ⟨v, hstep, hnil⟩ := Run.cons_iff.mp hpool
    obtain rfl := Run.nil_iff.mp hnil
    cases Pool.step_cases hstep with
    | leave j =>
      refine ⟨rfl, ?_, ?_, hreceived, ?_⟩
      · refine EachAfter.snoc_iff.mpr ⟨honce, ?_⟩
        rintro j ⟨⟩
      · intro j
        by_cases hj : j = id
        · subst hj
          simp [hafter]
        · rw [← hlive j hj]
          simp [hj]
      · intro j hmem
        rcases List.mem_append.mp hmem with hmem | hmem
        · exact hjoined j hmem
        · cases List.mem_singleton.mp hmem
  all_goals
    obtain rfl := Run.nil_iff.mp hpool
    rw [show (membership id _ _).toList = [] from rfl, List.append_nil]
    refine ⟨rfl, honce, fun j => ?_, hreceived, hjoined⟩
    by_cases hj : j = id
    · subst hj
      rw [hid, hafter]
    · exact hlive j hj

/-- A step of a sender on its own, or of the world. -/
theorem coupled_pool (h : Coupled poolEvents w) {e : PoolEvent} {pool : Pool}
    (hstep : w.pool.step n e = some pool) (honce : JoinsOnce poolEvents)
    (he : (∀ id, e ≠ .join id) ∧ (∀ id, e ≠ .leave id) ∧ ∀ t id, e ≠ .deliver t id) :
    Coupled (poolEvents ++ [e]) { w with pool } ∧ JoinsOnce (poolEvents ++ [e]) := by
  obtain ⟨hjoin, hleave, hdeliver⟩ := he
  have hjoined : ∀ id, .join id ∈ poolEvents ++ [e] → (w.hub.endpoint id).added = true := by
    intro id hmem
    rw [List.mem_append, List.mem_singleton] at hmem
    exact h.joined id (hmem.resolve_right (hjoin id).symm)
  refine ⟨?_, EachAfter.snoc_iff.mpr ⟨honce, fun id heq => absurd heq (hjoin id)⟩⟩
  cases Pool.step_cases hstep with
  | push | pop | finish => exact ⟨h.live, h.received, hjoined⟩
  | join j => exact absurd rfl (hjoin j)
  | leave j => exact absurd rfl (hleave j)
  | deliver t j => exact absurd rfl (hdeliver t j)

/-- A sender calls `PushToSend`. -/
theorem coupled_call (h : Coupled poolEvents w) {t : ℕ} {id : UInt64} {job : Job} {pool : Pool}
    {hub : Hub} (hjob : w.pool.jobs t = some job)
    (hpool : w.pool.step n (.deliver t id) = some pool)
    (hhub : w.hub.step (id, .push t job.packet.packet.makeBuffer) = some hub) :
    Coupled (poolEvents ++ [.deliver t id])
      { pool, hub, calling := Function.update w.calling t (some id) } := by
  obtain ⟨out, hself, -⟩ := Hub.step_self hhub
  obtain ⟨hlive, hpushed⟩ := Endpoint.live_push hself
  have hother := fun j (hj : j ≠ id) => Hub.step_other hhub hj
  cases Pool.step_cases hpool with
  | deliver t j job' hjob' haddressed hnew =>
    obtain rfl : job = job' := by
      rw [hjob] at hjob'
      exact Option.some.inj hjob'
    refine ⟨fun j => ?_, fun j => ?_, fun j hmem => ?_⟩
    · by_cases hj : j = id
      · subst hj
        rw [hlive]
        exact h.live j
      · rw [(hother j hj).2.1]
        exact h.live j
    · show Function.update w.pool.received id _ j = _
      by_cases hj : j = id
      · subst hj
        rw [hpushed, Function.update_self, h.received j]
      · rw [(hother j hj).1, Function.update_of_ne hj]
        exact h.received j
    · rw [List.mem_append, List.mem_singleton] at hmem
      have hadded := h.joined j (hmem.resolve_right (by simp))
      by_cases hj : j = id
      · subst hj
        exact Endpoint.added_step hself hadded
      · rw [(hother j hj).1]
        exact hadded

end Wire

/-! ## In every run -/

variable {n : ℕ} {events : List WireEvent} {w : Wire}

/-- The senders call only sessions that have been added. -/
theorem admitted_of_ne_push {σ : Hub} {id : UInt64} {event : EndpointEvent}
    (h : ∀ t buf, event ≠ .push t buf) : Admitted σ (id, event) := by
  cases event with
  | push t buf => exact absurd rfl (h t buf)
  | accepted | readDone | written | handle | send => trivial

/-- Every run is at once a run of the pool and a run of the sessions, which agree. -/
theorem wire_run (h : WireRun n events w) : ∃ poolEvents hubEvents,
    PoolRun n [] poolEvents w.pool ∧ TeardownRun hubEvents w.hub ∧
      Wire.Coupled poolEvents w ∧ worldOrder poolEvents = said events ∧ JoinsOnce poolEvents := by
  induction h with
  | nil =>
    exact ⟨[], [], .nil, .nil, ⟨by simp, fun _ => rfl, by simp⟩, rfl, EachAfter.nil⟩
  | @snoc ls e w w' hrun hstep ih =>
    obtain ⟨poolEvents, hubEvents, hpools, hhubs, hcoupled, hworld, honce⟩ := ih
    have hsaid : said (ls ++ [e]) = said ls ++ e.pushed.toList := filterMap_snoc _ ls e
    cases Wire.step_cases hstep with
    | push packet pool hpool =>
      obtain ⟨hcoupled', honce'⟩ := Wire.coupled_pool hcoupled hpool honce (by simp)
      refine ⟨_, _, hpools.snoc hpool, hhubs, hcoupled', ?_, honce'⟩
      rw [worldOrder_snoc, hworld, hsaid]
      rfl
    | pop t pool hpool =>
      obtain ⟨hcoupled', honce'⟩ := Wire.coupled_pool hcoupled hpool honce (by simp)
      refine ⟨_, _, hpools.snoc hpool, hhubs, hcoupled', ?_, honce'⟩
      rw [worldOrder_snoc, hworld, hsaid]
      rfl
    | finish t pool hpool =>
      obtain ⟨hcoupled', honce'⟩ := Wire.coupled_pool hcoupled hpool honce (by simp)
      refine ⟨_, _, hpools.snoc hpool, hhubs, hcoupled', ?_, honce'⟩
      rw [worldOrder_snoc, hworld, hsaid]
      rfl
    | call t id job pool hub hjob hpool hhub =>
      have hlive : w.hub.sessions id = true :=
        (hcoupled.live id).mp (Pool.live_of_deliver hpool)
      have hphase := (teardown_inv hhubs id).phase
      rw [hlive] at hphase
      have hadmitted : Admitted w.hub (id, .push t job.packet.packet.makeBuffer) :=
        hphase.added_of_live
      refine ⟨_, _, hpools.snoc hpool, hhubs.snoc (admittedStep_eq_some.mpr ⟨hadmitted, hhub⟩),
        Wire.coupled_call hcoupled hjob hpool hhub, ?_, ?_⟩
      · rw [worldOrder_snoc, hworld, hsaid]
        rfl
      · exact EachAfter.snoc_iff.mpr ⟨honce, by simp⟩
    | session id event pool hub hevent hhub hpool =>
      obtain ⟨more, hmore, hnothing, honce', hcoupled'⟩ :=
        Wire.coupled_session hcoupled (teardown_inv hhubs id) hevent hhub hpool honce
      have hstep' := admittedStep_eq_some.mpr ⟨admitted_of_ne_push hevent, hhub⟩
      refine ⟨_, _, hpools.trans hmore, hhubs.snoc hstep', hcoupled', ?_, honce'⟩
      have hsplit : worldOrder (poolEvents ++ more) = worldOrder poolEvents ++ worldOrder more :=
        List.filterMap_append
      rw [hsplit, hnothing, hworld, hsaid]
      rfl

/-! ## The sockets -/

/-- The buffers that have been passed to `async_write` of the session `id`. -/
def Wire.written (w : Wire) (id : UInt64) : List Buffer := (w.hub.endpoint id).send.written

/-- Nothing is on its way to the session any more: no packet waits, no sender is at work, and
    the session has neither a buffer in its queue nor in the hands of a thread. -/
structure Wire.Drained (w : Wire) (id : UInt64) : Prop where
  outQueue : w.pool.outQueue = []
  idle : ∀ t, w.pool.jobs t = none
  queue : (w.hub.endpoint id).send.queue = []
  hands : ∀ u, ((w.hub.endpoint id).send.pc u).hand = []

/-- A session writes what has been pushed to it, and has written all of it in the end. -/
theorem written_of_serial {σ : SendSide} {pushed : List Buffer} (h : σ.Serial pushed) :
    σ.written <+: pushed ∧ (σ.queue = [] → (∀ u, (σ.pc u).hand = []) → σ.written = pushed) := by
  cases h with
  | owned owner howned hbuffers =>
    rw [SendSide.buffers, List.append_assoc] at hbuffers
    refine ⟨⟨_, hbuffers⟩, fun hqueue hhands => ?_⟩
    have hnone : owner.hand σ = [] := by
      cases owner with
      | nobody => rfl
      | thread t => exact hhands t
      | write => rfl
    rw [← hbuffers, hnone, hqueue]
    simp
  | lost hlost hbuffers =>
    refine ⟨⟨_, hbuffers⟩, fun hqueue _ => ?_⟩
    rw [← hbuffers, hqueue, List.append_nil]

/-- With any number of senders, in every run, whatever the threads and the clients do and
    whatever operations fail: what is written to a socket is among what the world has
    addressed to its client, and no buffer is written more often than it has been addressed. -/
theorem sockets_conserve (h : WireRun n events w) (id : UInt64) :
    (w.written id).Subperm (buffersFor id (said events)) := by
  obtain ⟨poolEvents, hubEvents, hpools, hhubs, hcoupled, hworld, -⟩ := wire_run h
  have hserial := (written_of_serial (hub_serial hhubs.hubRun id)).1
  have hreceived := received_subperm hpools id
  rw [hcoupled.received id, hworld] at hreceived
  exact hserial.sublist.subperm.trans hreceived

/-- With one sender, the session has missed a part of what the world has said, in which there is
    nothing for it alone, and what is addressed to it of the rest it has written, or it is on
    its way to it. -/
theorem socket_tail (h : WireRun 1 events w) {id : UInt64} (hlive : w.hub.sessions id = true) :
    ∃ missed tail pending, said events = missed ++ tail ∧ (∀ p ∈ missed, ¬ Pool.Private id p) ∧
      w.written id ++ pending = buffersFor id tail ∧ (w.Drained id → pending = []) := by
  obtain ⟨poolEvents, hubEvents, hpools, hhubs, hcoupled, hworld, honce⟩ := wire_run h
  obtain ⟨⟨rest, hrest⟩, hall⟩ := written_of_serial (hub_serial hhubs.hubRun id)
  obtain ⟨missed, tail, waiting, horder, hmissed, hreceived, hidle⟩ :=
    received_tail hpools honce ((hcoupled.live id).mpr hlive)
  rw [hcoupled.received id] at hreceived
  refine ⟨missed, tail, rest ++ waiting, hworld ▸ horder, hmissed, ?_, fun hdrained => ?_⟩
  · rw [← hreceived, ← hrest, List.append_assoc]
    rfl
  · rw [hall hdrained.queue hdrained.hands, List.append_right_eq_self] at hrest
    rw [hrest, hidle hdrained.outQueue hdrained.idle]
    rfl

/-- A session that connects, with the read that follows. -/
def connects (id : UInt64) : List WireEvent :=
  .session id (.accepted true) :: List.replicate 5 (.session id .handle)

/-- With one sender, in every run: what is written to a socket is a stretch of what the world
    has addressed to its client, in the order of the world and without a gap. If the session is
    there and nothing is on its way any more, the stretch goes up to the end. -/
theorem socket_in_world_order (h : WireRun 1 events w) (id : UInt64) :
    w.written id <:+: buffersFor id (said events) ∧
      (w.hub.sessions id = true → w.Drained id →
        w.written id <:+ buffersFor id (said events)) := by
  obtain ⟨poolEvents, hubEvents, hpools, hhubs, hcoupled, hworld, honce⟩ := wire_run h
  obtain ⟨hinitial, hall⟩ := written_of_serial (hub_serial hhubs.hubRun id)
  obtain ⟨hstretch, hend⟩ := received_stretch hpools honce id
  rw [hcoupled.received id, hworld] at hstretch hend
  refine ⟨hinitial.isInfix.trans hstretch, fun hlive hdrained => ?_⟩
  rw [show w.written id = (w.hub.endpoint id).pushed from hall hdrained.queue hdrained.hands]
  exact hend ((hcoupled.live id).mpr hlive) hdrained.outQueue hdrained.idle

/-- A session is added when the sender has sent the first of two packets; the second one is
    written. -/
def addedLate : List WireEvent :=
  connects 0 ++ [.push ghostMove, .push ghostRemoval, .pop 0, .call 0 0] ++
    List.replicate 5 (.session 0 (.send 1)) ++ [.finish 0] ++ connects 1 ++
    [.pop 0, .call 0 1] ++ List.replicate 5 (.session 1 (.send 1))

theorem socket_in_world_order_addedLate : ∃ w, WireRun 1 addedLate w ∧
    w.written 1 = [ghostRemoval.packet.makeBuffer] ∧
      w.written 1 <:+: buffersFor 1 (said addedLate) := by
  have heval : (addedLate.foldlM (Wire.step 1) {}).map (fun w =>
      decide (w.written 1 = [ghostRemoval.packet.makeBuffer])) = some true := by decide +kernel
  obtain ⟨w, hw, hwritten⟩ := Option.map_eq_some_iff.mp heval
  have hrun : WireRun 1 addedLate w := run_iff_foldlM.mpr hw
  exact ⟨w, hrun, of_decide_eq_true hwritten, (socket_in_world_order hrun 1).1⟩

end EndlessPeak
