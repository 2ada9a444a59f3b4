import EndlessPeak.Game.Candidates
import EndlessPeak.Net.Program

/-!
# When nothing fails

The program dereferences a null pointer if a packet steers a player that is not there, or if
a packet for one session is sent after the session has gone. Neither happens while no read
and no write fails and no client sends a `RemovePlayer`, with any number of senders and
sessions and however their steps interleave.

* `Calmed`: in such a run every session that has been added stays, and a client is heard of
  only after its `CreatePlayer` (`calmed_run`).
* `rpc_run`: the world answers only those that it has created.
* `calm_run_safe`: the next tick meets no null pointer and comes to its end, unless it hangs in
  the loops of a sweep, as it can on some maps; and no sender meets a null pointer.
-/

namespace EndlessPeak

open Lib

/-! ## Runs without failures -/

/-- A read or a write fails. -/
def EndpointEvent.Fails : EndpointEvent → Prop
  | .readDone none | .written false => True
  | _ => False

/-- The same for a step of the program. -/
def ProgramEvent.Fails : ProgramEvent → Prop
  | .wire (.session _ event) => event.Fails
  | _ => False

instance : DecidablePred EndpointEvent.Fails := fun event => by
  unfold EndpointEvent.Fails
  split <;> infer_instance

instance : DecidablePred ProgramEvent.Fails := fun event => by
  unfold ProgramEvent.Fails
  split <;> infer_instance

/-- No read and no write fails, and no client sends a `RemovePlayer`. -/
structure Calm (events : List ProgramEvent) : Prop where
  succeeds : ∀ e ∈ events, ¬ e.Fails
  stays : ∀ id, ∀ f ∈ parse (chunksOf events id).flatten, f.opcode ≠ toUInt16 .removePlayer

/-! ## The sessions -/

section Session

variable {e e' : Endpoint} {id : UInt64} {live live' : Bool} {log out : List Entry}
  {event : EndpointEvent}

theorem unfailed_step (h : e.accept = some true → e.errors = 0)
    (hphase : e.Phase id live log) (hstep : e.step id live event = some (e', live', out))
    (hok : ¬ event.Fails) : e'.accept = some true → e'.errors = 0 := by
  intro haccept'
  cases Endpoint.step_cases hstep with
  | accepted haccept hfree => exact (Endpoint.waiting_of_accept hphase haccept).2.1.errors
  | refused haccept hfree => cases haccept'
  | readFailed | writeFailed => exact absurd trivial hok
  | read | written | push => exact h haccept'
  | handle hhandle =>
    obtain ⟨haccept, herrors⟩ := Endpoint.handle_keeps hhandle
    rw [herrors]
    exact h (haccept ▸ haccept')
  | send u send hsend =>
    rw [Endpoint.sent_keeps.2]
    exact h (Endpoint.sent_keeps.1 ▸ haccept')

/-- A session whose operations have not failed has not been removed, and is there if its
    player has been created. -/
theorem log_of_unfailed (hphase : e.Phase id live log)
    (h : e.accept = some true → e.errors = 0) :
    log = [] ∨ log = [created id] ∧ live = true := by
  cases hphase with
  | waiting | joining | adding | refused => exact .inl rfl
  | joined => exact .inr ⟨rfl, rfl⟩
  | failing haccept _ herrors | removing haccept _ herrors | removed haccept _ herrors =>
    have hzero := h haccept
    omega

theorem created_of_packets (hphase : e.Phase id live log) (h : e.handler.packets ≠ []) :
    created id ∈ log := by
  have hother : ∀ place, place.packets = [] → e.handler ≠ place := by
    rintro place hnone rfl
    exact h hnone
  have hfailing : ¬ e.Failing := by
    rintro (hp | ⟨hp, -⟩ | hp | hp) <;> exact hother _ rfl hp
  cases hphase with
  | waiting _ _ _ hp | adding _ _ _ hp | removing _ _ _ hp => exact absurd hp (hother _ rfl)
  | joining _ _ _ hp => rcases hp with hp | ⟨hp, -⟩ | hp <;> exact absurd hp (hother _ rfl)
  | refused _ _ _ _ hp =>
    rcases hp with hp | hp | hp
    · exact absurd hp hfailing
    · exact absurd hp (hother _ rfl)
    · exact absurd hp (hother _ rfl)
  | joined => exact List.mem_singleton_self _
  | failing _ _ _ hp => exact absurd hp hfailing
  | removed => exact List.mem_cons_self

end Session

/-- A client is heard of only after its `CreatePlayer`. -/
def Introduced (log : List Entry) : Prop :=
  EachAfter (fun before entry => entry.1 = .client → created entry.2.id ∈ before) log

/-- No operation of an accepted session has failed, and the clients have been introduced. -/
structure Calmed (σ : Hub) : Prop where
  unfailed : ∀ id, (σ.endpoint id).accept = some true → (σ.endpoint id).errors = 0
  introduced : Introduced σ.inQueue

section Hub

variable {σ σ' : Hub} {id : UInt64} {event : EndpointEvent} {chunks : UInt64 → List (List UInt8)}

theorem introduced_step (h : Introduced σ.inQueue) (hphase : (σ.endpoint id).Phase id
    (σ.sessions id) (σ.serverLog id)) (hintake : Intake chunks σ)
    (hstep : σ.step (id, event) = some σ') : Introduced σ'.inQueue := by
  simp only [Hub.step, Option.map_eq_some_iff] at hstep
  obtain ⟨⟨e, live, out⟩, hself, rfl⟩ := hstep
  show Introduced (σ.inQueue ++ out)
  have hserver : ∀ packet, Introduced (σ.inQueue ++ [(.server, packet)]) := by
    intro packet
    refine EachAfter.snoc_iff.mpr ⟨h, ?_⟩
    rintro ⟨⟩
  have hsilent : Introduced (σ.inQueue ++ []) := by
    rw [List.append_nil]
    exact h
  cases Endpoint.step_cases hself with
  | accepted | refused | readFailed | read | written | writeFailed | push | send => exact hsilent
  | handle hhandle =>
    rcases Endpoint.handle_out hhandle with rfl | rfl | rfl | ⟨packet, rfl⟩
    · exact hsilent
    · exact hserver _
    · exact hserver _
    · refine EachAfter.snoc_iff.mpr ⟨h, fun _ => ?_⟩
      -- the packet is the first one that the handler was about to push
      have hpackets := (intake_handle hhandle).2
      have hmem : packet ∈ (σ.endpoint id).handler.packets := by
        rw [← hpackets]
        exact List.mem_cons_self
      have hid : packet.id = id :=
        (accounts_run (hintake id)).ids packet (List.mem_append_right _ hmem)
      have hcreated := created_of_packets hphase (List.ne_nil_of_mem hmem)
      show created packet.id ∈ σ.inQueue
      rw [hid]
      exact (List.mem_filter.mp hcreated).1

theorem calmed_step (h : Calmed σ) (hphase : ∀ id, (σ.endpoint id).Phase id (σ.sessions id)
    (σ.serverLog id)) (hintake : Intake chunks σ) (hstep : σ.step (id, event) = some σ')
    (hok : ¬ event.Fails) : Calmed σ' := by
  refine ⟨fun j => ?_, introduced_step h.introduced (hphase id) hintake hstep⟩
  by_cases hj : j = id
  · subst hj
    obtain ⟨out, hself, -⟩ := Hub.step_self hstep
    exact unfailed_step (h.unfailed j) (hphase j) hself hok
  · rw [(Hub.step_other hstep hj).1]
    exact h.unfailed j

/-- While nothing fails, the server speaks of a session only to create its player, and the
    session is there. -/
theorem Calmed.of_server (h : Calmed σ) (hphase : ∀ id, (σ.endpoint id).Phase id (σ.sessions id)
    (σ.serverLog id)) {packet : ServerPacket} (hmem : (.server, packet) ∈ σ.inQueue) :
    (.server, packet) = created packet.id ∧ σ.sessions packet.id = true := by
  have hlog : (.server, packet) ∈ σ.serverLog packet.id :=
    List.mem_filter.mpr ⟨hmem, by simp⟩
  rcases log_of_unfailed (hphase packet.id) (h.unfailed packet.id) with hnil | ⟨hone, hlive⟩
  · rw [hnil] at hlog
    exact absurd hlog List.not_mem_nil
  · rw [hone] at hlog
    exact ⟨List.mem_singleton.mp hlog, hlive⟩

theorem Calmed.sessions (h : Calmed σ) (hphase : ∀ id, (σ.endpoint id).Phase id (σ.sessions id)
    (σ.serverLog id)) {entry : Entry} (hmem : entry ∈ σ.inQueue) :
    σ.sessions entry.2.id = true := by
  obtain ⟨origin, packet⟩ := entry
  cases origin with
  | server => exact (h.of_server hphase hmem).2
  | client =>
    obtain ⟨before, after, hsplit⟩ := List.append_of_mem hmem
    have hcreated := h.introduced before _ after hsplit rfl
    have hmem' : created packet.id ∈ σ.inQueue := by
      rw [hsplit]
      exact List.mem_append_left _ hcreated
    exact (h.of_server hphase hmem').2

end Hub

/-! ## The packets for one session -/

section World

variable {platform : Platform} {config : GameConfig} {dt : ℚ} {p : ServerPacket} {w w' : World}

/-- From `w` to `w'`, the world pushes packets for one session only to those that it has
    created. -/
def Answers (inputs : List ServerPacket) (out out' : List ServerPacket) : Prop :=
  ∃ new, out' = out ++ new ∧
    ∀ q ∈ new, q.type = .rpc → ∃ p ∈ inputs, p.opcode = some .createPlayer ∧ p.id = q.id

theorem rpc_processInput (h : w.processInput platform config dt p = some w') :
    Answers [p] w.game.outQueue w'.game.outQueue := by
  rcases World.processInput_cases h with
    ⟨ho, hadd⟩ | ⟨ho, rfl⟩ | ⟨o, q, ho, hcommand, -, rfl⟩ | ⟨ho, rfl⟩
  · obtain ⟨-, -, -, -, packet, -, hout⟩ := World.addPlayer_eq_some hadd
    refine ⟨_, by simpa using hout, fun q hq _ => ⟨p, List.mem_singleton_self _, ho, ?_⟩⟩
    simp only [List.mem_cons, List.not_mem_nil, or_false] at hq
    rcases hq with rfl | rfl | rfl <;> rfl
  · refine ⟨[removalPacket p.id], by simp [World.removePlayer, removalPacket], ?_⟩
    intro q hq htype
    rw [List.mem_singleton.mp hq] at htype
    cases htype
  · exact ⟨[], by simp, by simp⟩
  · exact ⟨[], by simp, by simp⟩

theorem rpc_foldlM {batch : List ServerPacket}
    (h : batch.foldlM (World.processInput platform config dt) w = some w') :
    Answers batch w.game.outQueue w'.game.outQueue := by
  refine (run_iff_foldlM.mpr h).invariant_trace
    (I := fun batch v => Answers batch w.game.outQueue v.game.outQueue) ⟨[], by simp, by simp⟩ ?_
  rintro batch v p v' ⟨new, hout, hnew⟩ hstep
  obtain ⟨more, hmore, hrpc⟩ := rpc_processInput hstep
  refine ⟨new ++ more, by rw [hmore, hout, List.append_assoc], ?_⟩
  intro q hq htype
  rcases List.mem_append.mp hq with hq | hq
  · obtain ⟨r, hr, hboth⟩ := hnew q hq htype
    exact ⟨r, List.mem_append_left _ hr, hboth⟩
  · obtain ⟨r, hr, hboth⟩ := hrpc q hq htype
    exact ⟨r, List.mem_append_right _ hr, hboth⟩

theorem rpc_tick {net net' : Subsystem} (hquiet : w.game.outQueue = [])
    (h : w.tick platform config dt net = some (w', net')) :
    Answers net.inQueue net.outQueue net'.outQueue := by
  obtain ⟨w2, w3, hin, hloop, -, rfl⟩ := World.tick_eq_some.mp h
  obtain ⟨w1, hreset, hfold⟩ := World.inputPhase_eq_some.mp hin
  have hstart : w1.game.outQueue = [] := by
    rw [World.forEach_outQueue_of_silent (fun _ => rfl) hreset]
    exact hquiet
  obtain ⟨new, hnew, hrpc⟩ := rpc_foldlM hfold
  obtain ⟨moves, hmoves, hperm⟩ := moves_forEach hloop
  have hall : w3.game.outQueue = new ++ moves := by
    rw [hmoves, hnew]
    simp [hstart]
  refine ⟨new ++ moves, by simp [hall], fun q hq htype => ?_⟩
  rcases List.mem_append.mp hq with hq | hq
  · exact hrpc q hq htype
  · obtain ⟨item, -, hitem⟩ := List.mem_filterMap.mp (hperm.mem_iff.mp hq)
    obtain ⟨player, -, rfl⟩ := Option.map_eq_some_iff.mp hitem
    cases htype

theorem rpc_run {turns : List Turn} {s : World × Subsystem}
    (h : GameRun platform config turns s) :
    Answers (turns.flatMap Turn.inputs) [] s.2.outQueue := by
  induction h with
  | nil => exact ⟨[], rfl, by simp⟩
  | @snoc turns turn s s' hrun hstep ih =>
    obtain ⟨new, hout, hnew⟩ := ih
    obtain ⟨more, hmore, hrpc⟩ := rpc_tick (game_outQueue hrun) hstep
    rw [(game_inQueue hrun).2, List.nil_append] at hrpc
    have hlog : s'.2.outQueue = s.2.outQueue ++ more := hmore
    refine ⟨new ++ more, by rw [hlog, hout, List.append_assoc], ?_⟩
    rw [List.flatMap_append, List.flatMap_singleton]
    intro q hq htype
    rcases List.mem_append.mp hq with hq | hq
    · obtain ⟨r, hr, hboth⟩ := hnew q hq htype
      exact ⟨r, List.mem_append_left _ hr, hboth⟩
    · obtain ⟨r, hr, hboth⟩ := hrpc q hq htype
      exact ⟨r, List.mem_append_right _ hr, hboth⟩

theorem live_of_created {history : List ServerPacket} {id : UInt64}
    (hno : ∀ q ∈ history, q.opcode ≠ some .removePlayer)
    (h : ∃ q ∈ history, q.opcode = some .createPlayer ∧ q.id = id) : Live history id := by
  induction history using List.reverseRecOn with
  | nil =>
    obtain ⟨q, hq, -⟩ := h
    exact absurd hq List.not_mem_nil
  | append_singleton history p ih =>
    rw [List.forall_mem_append, List.forall_mem_singleton] at hno
    obtain ⟨q, hq, hop, hid⟩ := h
    have hbefore : q ∈ history → Live history id := fun hmem => ih hno.1 ⟨q, hmem, hop, hid⟩
    rw [List.mem_append, List.mem_singleton] at hq
    by_cases hp : p.id = id
    · subst hp
      rw [live_snoc_self]
      rcases hq with hq | rfl
      · exact .inr ⟨hno.2, hbefore hq⟩
      · exact .inl hop
    · rw [live_snoc_of_ne hp]
      rcases hq with hq | rfl
      · exact hbefore hq
      · exact absurd hid hp

end World

/-- Whatever a sender has in hand the world has pushed. -/
theorem pushed_of_job {n : ℕ} {live : List UInt64} {events : List PoolEvent} {s : Pool}
    (h : PoolRun n live events s) : (∀ p ∈ s.outQueue, p ∈ worldOrder events) ∧
      ∀ t, ∀ job ∈ s.jobs t, job.packet ∈ worldOrder events := by
  induction h with
  | nil => exact ⟨by simp, by simp⟩
  | @snoc ls e s s' hrun hstep ih =>
    obtain ⟨hqueue, hjobs⟩ := ih
    rw [worldOrder_snoc]
    have hqueue' : ∀ p ∈ s.outQueue, p ∈ worldOrder ls ++ e.pushed.toList :=
      fun p hp => List.mem_append_left _ (hqueue p hp)
    have hjobs' : ∀ t, ∀ job ∈ s.jobs t, job.packet ∈ worldOrder ls ++ e.pushed.toList :=
      fun t job hjob => List.mem_append_left _ (hjobs t job hjob)
    cases Pool.step_cases hstep with
    | push packet =>
      refine ⟨fun p hp => ?_, hjobs'⟩
      rcases List.mem_append.mp hp with hp | hp
      · exact hqueue' p hp
      · exact List.mem_append_right _ hp
    | join | leave => exact ⟨hqueue', hjobs'⟩
    | pop t packet rest ht hjob hout =>
      rw [hout, List.forall_mem_cons] at hqueue'
      refine ⟨hqueue'.2, (Function.forall_update_iff s.jobs fun _ o =>
        ∀ job ∈ o, job.packet ∈ _).mpr ⟨?_, fun u _ => hjobs' u⟩⟩
      rintro job ⟨⟩
      exact hqueue'.1
    | deliver t j job hjob =>
      refine ⟨hqueue', (Function.forall_update_iff s.jobs fun _ o =>
        ∀ job ∈ o, job.packet ∈ _).mpr ⟨?_, fun u _ => hjobs' u⟩⟩
      rintro job' ⟨⟩
      exact hjobs' t job hjob
    | finish t job hjob =>
      refine ⟨hqueue', (Function.forall_update_iff s.jobs fun _ o =>
        ∀ job ∈ o, job.packet ∈ _).mpr ⟨?_, fun u _ => hjobs' u⟩⟩
      rintro job' ⟨⟩

/-! ## The program -/

variable {platform : Platform} {config : GameConfig} {n : ℕ} {events : List ProgramEvent}
  {σ : Program}

theorem Program.Coupled.phase (h : σ.Coupled platform config n events) (id : UInt64) :
    (σ.wire.hub.endpoint id).Phase id (σ.wire.hub.sessions id) (σ.wire.hub.serverLog id) := by
  obtain ⟨wireEvents, hwire, -⟩ := h.wire
  obtain ⟨-, hubEvents, -, hhubs, -⟩ := wire_run hwire
  exact (teardown_inv hhubs id).phase

theorem calmed_wire {w w' : Wire} {e : WireEvent} {chunks : UInt64 → List (List UInt8)}
    (h : Calmed w.hub) (hphase : ∀ id, (w.hub.endpoint id).Phase id (w.hub.sessions id)
      (w.hub.serverLog id)) (hintake : Intake chunks w.hub) (hstep : w.step n e = some w')
    (hok : ¬ (ProgramEvent.wire e).Fails) : Calmed w'.hub := by
  cases Wire.step_cases hstep with
  | push | pop | finish => exact h
  | call t id job pool hub hjob hpool hhub =>
    exact calmed_step h hphase hintake hhub fun hfails => hfails
  | session id event pool hub hevent hhub hpool => exact calmed_step h hphase hintake hhub hok

theorem calmed_run (h : ProgramRun platform config n events σ)
    (hok : ∀ e ∈ events, ¬ e.Fails) : Calmed σ.wire.hub := by
  induction h with
  | nil => exact ⟨fun _ _ => rfl, EachAfter.nil⟩
  | @snoc events e σ σ' hrun hstep ih =>
    rw [List.forall_mem_append, List.forall_mem_singleton] at hok
    have hcalmed := ih hok.1
    have hcoupled := program_run hrun
    cases Program.step_cases hstep with
    | tick => exact hcalmed
    | move packet rest wire hmoving hwire =>
      exact calmed_wire hcalmed hcoupled.phase hcoupled.intake hwire fun hfails => hfails
    | wire event wire hevent hwire =>
      exact calmed_wire hcalmed hcoupled.phase hcoupled.intake hwire hok.2

theorem not_removed (h : σ.Coupled platform config n events) (hcalmed : Calmed σ.wire.hub)
    (hcalm : Calm events) :
    ∀ p ∈ σ.wire.hub.inQueue.map Prod.snd, p.opcode ≠ some .removePlayer := by
  rw [List.forall_mem_map]
  rintro ⟨origin, packet⟩ hmem
  cases origin with
  | server =>
    have hcreated := congrArg Prod.snd (hcalmed.of_server h.phase hmem).1
    show packet.opcode ≠ _
    rw [show packet = .ofOpcode .createPlayer packet.id from hcreated, NetPacket.opcode_ofOpcode]
    simp
  | client =>
    intro hop
    have hclient : packet ∈ clientPackets packet.id σ.wire.hub.inQueue := by
      refine List.mem_filter.mpr ⟨List.mem_map.mpr ⟨(.client, packet), ?_, rfl⟩, by simp⟩
      exact List.mem_filter.mpr ⟨hmem, by simp⟩
    -- it is a frame of the client
    have hframe : (packet.id, packet.packet.frame) ∈
        (parse (chunksOf events packet.id).flatten).map fun f => (packet.id, some f) := by
      rw [← h.intake.frames packet.id]
      exact List.mem_map_of_mem (List.mem_append_left _ hclient)
    obtain ⟨f, hf, heq⟩ := List.mem_map.mp hframe
    have hsome : packet.packet.frame = some f := (congrArg Prod.snd heq).symm
    obtain ⟨body, -, rfl⟩ := Option.map_eq_some_iff.mp hsome
    exact hcalm.stays packet.id _ hf (toOpcode_eq_some_iff.mp hop)

theorem calm_batch (h : σ.Coupled platform config n events) (hcalmed : Calmed σ.wire.hub)
    (hcalm : Calm events) : BatchSafe (σ.processed.map Prod.snd) σ.inQueue := by
  intro before p after hsplit hdangling
  exfalso
  obtain ⟨hlife, hdead⟩ := hdangling
  obtain ⟨early, rest, hdrop, rfl, hrest⟩ := List.map_eq_append_iff.mp hsplit
  obtain ⟨entry, late, rfl, rfl, -⟩ := List.map_eq_cons_iff.mp hrest
  have hqueue : σ.wire.hub.inQueue = σ.processed ++ early ++ entry :: late := by
    rw [List.append_assoc, ← hdrop]
    exact (List.take_append_drop _ _).symm
  have hmem : entry ∈ σ.wire.hub.inQueue := by simp [hqueue]
  obtain ⟨origin, packet⟩ := entry
  cases origin with
  | server =>
    have hcreated := congrArg Prod.snd (hcalmed.of_server h.phase hmem).1
    refine hlife (.inl ?_)
    show packet.opcode = _
    rw [show packet = .ofOpcode .createPlayer packet.id from hcreated, NetPacket.opcode_ofOpcode]
  | client =>
    have hcreated := hcalmed.introduced _ _ late hqueue rfl
    refine hdead (live_of_created ?_ ?_)
    · intro q hq
      refine not_removed h hcalmed hcalm q ?_
      rw [hqueue, List.map_append, List.map_append]
      exact List.mem_append_left _ hq
    · rw [← List.map_append]
      exact ⟨_, List.mem_map_of_mem hcreated, NetPacket.opcode_ofOpcode _ _, rfl⟩

/-- The next tick can be made once the packets of the last one have been moved. -/
theorem calm_tick (h : σ.Coupled platform config n events) (hcalmed : Calmed σ.wire.hub)
    (hcalm : Calm events) (hmoving : σ.moving = []) (dt : ℚ) :
    ∃ σ', σ.step platform config n (.tick dt) = some σ' := by
  obtain ⟨turns, hgame, hinputs⟩ := h.game
  obtain ⟨hagrees, hnull⟩ := game_agrees hgame
  have hsafe := calm_batch h hcalmed hcalm
  rw [← hinputs] at hsafe
  obtain ⟨⟨world, net⟩, htick⟩ := (World.tick_isSome_iff platform config dt
    { inQueue := σ.inQueue } hagrees hnull).mpr hsafe
  simp only [Program.step, if_pos hmoving, htick, Option.map_some]
  exact ⟨_, rfl⟩

/-- The session that a packet is for is there when a sender has the packet in hand. -/
theorem calm_sessions (h : σ.Coupled platform config n events) (hcalmed : Calmed σ.wire.hub)
    {t : ℕ} {job : Job} (hjob : σ.wire.pool.jobs t = some job) (htype : job.packet.type = .rpc) :
    σ.wire.hub.sessions job.packet.id = true := by
  obtain ⟨turns, hgame, hinputs⟩ := h.game
  obtain ⟨wireEvents, hwire, hlog⟩ := h.wire
  obtain ⟨poolEvents, hubEvents, hpools, -, -, hworld, -⟩ := wire_run hwire
  have hpushed := (pushed_of_job hpools).2 t job hjob
  rw [hworld] at hpushed
  -- the packet is in the log of the world, which answers a `CreatePlayer` with it
  obtain ⟨new, hnew, hrpc⟩ := rpc_run hgame
  have hmem : job.packet ∈ new := by
    rw [show new = σ.log from hnew.symm, hlog]
    exact List.mem_append_left _ hpushed
  obtain ⟨p, hp, -, hid⟩ := hrpc _ hmem htype
  rw [hinputs] at hp
  obtain ⟨entry, hentry, rfl⟩ := List.mem_map.mp hp
  rw [← hid]
  exact hcalmed.sessions h.phase (List.mem_of_mem_take hentry)

/-- With any number of senders, in every run without failures, whatever else the clients send
    and whoever comes, on a map that has a column and a number of rows that is no multiple of
    256: the sweeps of the next tick end and read only the map, the tick dereferences no null
    pointer, and every packet for one session that a sender has in hand finds its session in
    `sessions_`. -/
theorem calm_run_safe (hgridX : config.gridX ≠ 0) (hrows : config.gridY.toNat % 256 ≠ 0)
    (h : ProgramRun platform config n events σ) (hcalm : Calm events) :
    config.SweepsEnd platform ∧
      (σ.moving = [] → ∀ dt, ∃ σ', σ.step platform config n (.tick dt) = some σ') ∧
      ∀ t, ∀ job ∈ σ.wire.pool.jobs t, job.packet.type = .rpc →
        σ.wire.hub.sessions job.packet.id = true := by
  have hcoupled := program_run h
  have hcalmed := calmed_run h hcalm.succeeds
  exact ⟨sweepsEnd_of_grid platform hgridX hrows, calm_tick hcoupled hcalmed hcalm,
    fun t job => calm_sessions hcoupled hcalmed⟩

/-- A run without failures in which one client sends a `MoveRight`, and the others nothing. -/
theorem calm_of_walks (hsucceeds : ∀ e ∈ events, ¬ e.Fails)
    (hwalks : (chunksOf events 0).flatten = encodeAll [⟨0x0013, 0, []⟩])
    (hothers : ∀ id, 0 ≠ id → chunksOf events id = []) : Calm events := by
  refine ⟨hsucceeds, fun id => ?_⟩
  by_cases hid : 0 = id
  · subst hid
    rw [hwalks, parse_encodeAll (by simp [Frame.WellFormed])]
    decide
  · rw [hothers id hid, List.flatten_nil, parse_of_length_lt (by decide)]
    exact List.forall_mem_nil _

theorem calm_twoSenders : Calm twoSenders := by
  refine calm_of_walks (by decide) (by decide) fun id hid => ?_
  simp [chunksOf, twoSenders, firstPlayer, connects, swapped, walks, ProgramEvent.chunksFor,
    WireEvent.chunksFor, chunkFor, hid]

theorem calm_run_safe_twoSenders : ∃ σ, ProgramRun .x86 .room 2 twoSenders σ ∧
    GameConfig.room.SweepsEnd .x86 ∧
      (σ.moving = [] → ∀ dt, ∃ σ', σ.step .x86 .room 2 (.tick dt) = some σ') ∧
      ∀ t, ∀ job ∈ σ.wire.pool.jobs t, job.packet.type = .rpc →
        σ.wire.hub.sessions job.packet.id = true := by
  have heval : (twoSenders.foldlM (Program.step .x86 .room 2) {}).isSome = true := by
    decide +kernel
  obtain ⟨σ, hσ⟩ := Option.isSome_iff_exists.mp heval
  have hrun : ProgramRun .x86 .room 2 twoSenders σ := run_iff_foldlM.mpr hσ
  exact ⟨σ, hrun, calm_run_safe (by decide) (by decide) hrun calm_twoSenders⟩

end EndlessPeak
