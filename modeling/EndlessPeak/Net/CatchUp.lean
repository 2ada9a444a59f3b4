import EndlessPeak.Net.Calm
import EndlessPeak.Net.Drain

/-!
# Catching up

The whole program, from any moment of a run without failures on, while the world makes no tick
and the clients send nothing.

* `Program.work`: the packets that have not been moved and the work of the network, a potential.
* `clients_catch_up`: the program comes to rest, and then the clients have what the world has.
* `tick_joins`: after the tick that follows, the players are those whose sessions are there.
* `round_trip`: rest, a tick and rest are enough for what the clients have sent to come back to
  all of them.
-/

namespace EndlessPeak

open Lib

/-! ## Between two ticks -/

/-- A packet is moved, a sender, a handler or a thread goes on, or a write succeeds. -/
def ProgramEvent.IsWork : ProgramEvent → Prop
  | .tick _ => False
  | .move => True
  | .wire event => event.IsWork

/-- What is left to do until the next tick: the packets that have not been moved will be popped
    and sent. -/
def Program.work (n : ℕ) (σ : Program) : ℕ :=
  σ.moving.length * (13 * σ.wire.hub.present.card + 3) + σ.wire.work n

variable {platform : Platform} {config : GameConfig} {n : ℕ} {events more : List ProgramEvent}
  {e : ProgramEvent} {σ σ' : Program}

/-- Nothing fails, and nothing is read. -/
def ProgramEvent.Quiet (e : ProgramEvent) : Prop := ¬ e.Fails ∧ ∀ id, e.chunksFor id = []

theorem ProgramEvent.IsWork.quiet (h : e.IsWork) : e.Quiet := by
  cases e with
  | tick dt => exact absurd h id
  | move => exact ⟨id, fun _ => rfl⟩
  | wire event =>
    cases event with
    | push packet => exact absurd h id
    | pop | call | finish => exact ⟨id, fun _ => rfl⟩
    | session id event =>
      cases event with
      | accepted success | readDone result | push => exact absurd h fun h => h
      | handle | send => exact ⟨fun h => h, fun _ => ite_self []⟩
      | written success =>
        cases success with
        | false => exact absurd h fun h => h
        | true => exact ⟨fun h => h, fun _ => ite_self []⟩

theorem ProgramEvent.quiet_tick (dt : ℚ) : (ProgramEvent.tick dt).Quiet := ⟨id, fun _ => rfl⟩

theorem chunksOf_append (hquiet : ∀ e ∈ more, e.Quiet) (id : UInt64) :
    chunksOf (events ++ more) id = chunksOf events id := by
  have hnone : chunksOf more id = [] :=
    List.flatMap_eq_nil_iff.mpr fun e he => (hquiet e he).2 id
  rw [chunksOf, List.flatMap_append, ← chunksOf, ← chunksOf, hnone, List.append_nil]

theorem Calm.append (h : Calm events) (hquiet : ∀ e ∈ more, e.Quiet) :
    Calm (events ++ more) := by
  refine ⟨?_, fun id => ?_⟩
  · rw [List.forall_mem_append]
    exact ⟨h.succeeds, fun e he => (hquiet e he).1⟩
  · rw [chunksOf_append hquiet]
    exact h.stays id

namespace Program

/-- A step between two ticks, in which nothing fails and nobody sends anything. -/
def WorkNext (platform : Platform) (config : GameConfig) (n : ℕ) (σ : Program) (e : ProgramEvent)
    (σ' : Program) : Prop :=
  e.IsWork ∧ σ.step platform config n e = some σ'

/-- Every such step leaves less to do. -/
theorem work_step (h : ProgramRun platform config n events σ)
    (hnext : WorkNext platform config n σ e σ') : σ'.work n < σ.work n := by
  obtain ⟨wireEvents, hwire, -⟩ := (program_run h).wire
  obtain ⟨hwork, hstep⟩ := hnext
  cases step_cases hstep with
  | tick => exact absurd hwork id
  | move packet rest wire hmoving hpush =>
    have hless := Wire.work_push hpush
    have hlength : σ.moving.length * (13 * σ.wire.hub.present.card + 3) =
        rest.length * (13 * σ.wire.hub.present.card + 3) +
          (13 * σ.wire.hub.present.card + 3) := by
      rw [hmoving, List.length_cons, Nat.succ_mul]
    show rest.length * (13 * wire.hub.present.card + 3) + wire.work n < _
    unfold work
    rw [hless.1]
    omega
  | wire event wire hevent hinner =>
    have hinside : Wire.InsideNext n σ.wire event wire :=
      Wire.WorkNext.inside ⟨hwork, hinner⟩
    have hless := Wire.work_step hwire hinside
    have hcard := Finset.card_le_card (Wire.present_step (Wire.within_run hwire) hinside)
    have hmoving : σ.moving.length * (13 * wire.hub.present.card + 3) ≤
        σ.moving.length * (13 * σ.wire.hub.present.card + 3) := Nat.mul_le_mul_left _ (by omega)
    show σ.moving.length * (13 * wire.hub.present.card + 3) + wire.work n < _
    unfold work
    omega

theorem decreases_work (platform : Platform) (config : GameConfig) (n : ℕ) :
    Decreases (WorkNext platform config n)
      (fun σ => ∃ events, ProgramRun platform config n events σ) (work n) where
  keeps σ e σ' := by
    rintro ⟨events, h⟩ hnext
    exact ⟨events ++ [e], h.snoc hnext.2⟩
  less σ e σ' := by
    rintro ⟨events, h⟩ hnext
    exact work_step h hnext

/-- The steps between two ticks make a run longer, and the world stays as it is. -/
theorem work_run (h : ProgramRun platform config n events σ)
    (hrun : Run (WorkNext platform config n) σ more σ') :
    ProgramRun platform config n (events ++ more) σ' ∧ (∀ e ∈ more, e.Quiet) ∧
      σ'.world = σ.world ∧ σ'.processed = σ.processed := by
  induction hrun with
  | nil => exact ⟨by simpa using h, by simp, rfl, rfl⟩
  | @snoc more e t t' _ hnext ih =>
    obtain ⟨hrun, hquiet, hworld, hprocessed⟩ := ih
    have htaken := (program_run hrun).taken
    have hsame : ∀ wire : Wire, t.wire.hub.inQueue <+: wire.hub.inQueue →
        wire.hub.inQueue.take t.taken = σ.processed := by
      rintro wire ⟨new, hnew⟩
      rw [← hnew, List.take_append_of_le_length htaken]
      exact hprocessed
    refine ⟨?_, ?_, ?_⟩
    · rw [← List.append_assoc]
      exact hrun.snoc hnext.2
    · rw [List.forall_mem_append, List.forall_mem_singleton]
      exact ⟨hquiet, hnext.1.quiet⟩
    · cases step_cases hnext.2 with
      | tick => exact absurd hnext.1 id
      | move packet rest wire hmoving hwire => exact ⟨hworld, hsame wire (Wire.inQueue_step hwire)⟩
      | wire event wire hevent hwire => exact ⟨hworld, hsame wire (Wire.inQueue_step hwire)⟩

/-- Nobody can go on until the next tick: all packets have been moved, and the network is at
    rest. -/
theorem still_parts (h : Still (WorkNext platform config n) σ) :
    σ.moving = [] ∧ Still (Wire.WorkNext n) σ.wire := by
  constructor
  · cases hmoving : σ.moving with
    | nil => rfl
    | cons packet rest =>
      have hpush : ∃ wire, σ.wire.step n (.push packet) = some wire := ⟨_, rfl⟩
      obtain ⟨wire, hwire⟩ := hpush
      refine absurd ⟨trivial, ?_⟩ (h .move { σ with wire, moving := rest })
      simp only [step, hmoving, hwire, Option.map_some]
  · rintro event wire ⟨hwork, hwire⟩
    refine h (.wire event) { σ with wire } ⟨hwork, ?_⟩
    cases event with
    | push packet => exact absurd hwork id
    | pop | call | finish | session => simp only [step, hwire, Option.map_some]

end Program

/-! ## At rest -/

theorem sessions_of_player (h : σ.Coupled platform config n events)
    (hcalmed : Calmed σ.wire.hub) {s : UInt64} (hplayer : s ∈ σ.world.players) :
    σ.wire.hub.sessions s = true := by
  obtain ⟨turns, hgame, hinputs⟩ := h.game
  obtain ⟨hagrees, hnull⟩ := game_agrees hgame
  have hthere : σ.world.player? s ≠ none := by
    obtain ⟨v, hv⟩ := Option.isSome_iff_exists.mp (AList.lookup_isSome.mpr hplayer)
    obtain ⟨player, rfl, -⟩ := game_sound hgame s v hv
    rw [World.player?_eq_some.mpr hv]
    simp
  have hid := mem_ids_of_live ((hagrees s).mp hthere)
  rw [hinputs, List.map_map] at hid
  obtain ⟨entry, hentry, rfl⟩ := List.mem_map.mp hid
  exact hcalmed.sessions h.phase (List.mem_of_mem_take hentry)

/-- A session that is there has been accepted, and has pushed its `CreatePlayer` when its
    handler is idle. -/
theorem Endpoint.Phase.of_live {e : Endpoint} {id : UInt64} {log : List Entry}
    (h : e.Phase id true log) :
    e.accept = some true ∧ (e.handler = .idle → created id ∈ log) := by
  cases h with
  | adding haccept _ _ hplace =>
    refine ⟨haccept, fun hidle => ?_⟩
    rw [hplace] at hidle
    cases hidle
  | joined haccept | failing haccept => exact ⟨haccept, fun _ => List.mem_singleton_self _⟩

theorem ever_of_calmed (h : σ.Coupled platform config n events) (hcalmed : Calmed σ.wire.hub)
    {s : UInt64} (hlive : σ.wire.hub.sessions s = true) :
    (σ.wire.hub.endpoint s).everDisconnected = false := by
  obtain ⟨wireEvents, hwire, -⟩ := h.wire
  obtain ⟨_, hubEvents, -, hhubs, -⟩ := wire_run hwire
  have hphase := h.phase s
  rw [hlive] at hphase
  have herrors := hcalmed.unfailed s hphase.of_live.1
  by_contra hever
  have hpos := (teardown_inv hhubs s).silent.errors (Bool.not_eq_false _ ▸ hever)
  omega

theorem unblocked_of_calmed (h : σ.Coupled platform config n events) (hcalm : Calmed σ.wire.hub) :
    ¬ σ.wire.Blocked := by
  rintro ⟨t, job, hjob, htype, hmissing⟩
  rw [calm_sessions h hcalm hjob htype] at hmissing
  cases hmissing

theorem handler_at_rest (h : ProgramRun platform config n events σ) (hcalm : Calm events)
    (hstill : Still (Program.WorkNext platform config n) σ) (s : UInt64) :
    (σ.wire.hub.endpoint s).handler = .idle := by
  have hcoupled := program_run h
  obtain ⟨-, hquiet⟩ := Program.still_parts hstill
  obtain ⟨wireEvents, hwire, -⟩ := hcoupled.wire
  obtain ⟨_, _, -, -, hlive, -⟩ := wire_run hwire
  have hunblocked := unblocked_of_calmed hcoupled (calmed_run h hcalm.succeeds)
  exact (Wire.still_sessions hquiet (Wire.still_jobs hquiet hlive.live hunblocked) s).2

/-- Once the program has come to rest, a client that replays what its socket has got has what
    the world has, unless the flag of its session stays set. -/
theorem view_at_rest (h : ProgramRun platform config 1 events σ) (hcalm : Calm events)
    (hstill : Still (Program.WorkNext platform config 1) σ) {s : UInt64}
    (hplayer : s ∈ σ.world.players) : (σ.wire.hub.endpoint s).send.Lost ∨
      clientView (σ.wire.written s) = worldView platform s σ.world := by
  have hcoupled := program_run h
  have hcalmed := calmed_run h hcalm.succeeds
  have hlive := sessions_of_player hcoupled hcalmed hplayer
  obtain ⟨hmoving, hquiet⟩ := Program.still_parts hstill
  obtain ⟨wireEvents, hwire, hlog⟩ := hcoupled.wire
  have hunblocked := unblocked_of_calmed hcoupled hcalmed
  have hdrained := (Wire.drained_of_still one_pos hwire hquiet).resolve_left hunblocked s
  rw [ever_of_calmed hcoupled hcalmed hlive] at hdrained
  rcases hdrained with hdrained | hever | hlost
  · obtain ⟨missed, tail, pending, hsaid, hmissed, hwritten, hall⟩ := socket_tail hwire hlive
    right
    rw [hall hdrained, List.append_nil] at hwritten
    rw [hwritten]
    refine view_of_tail hcoupled hplayer ?_ hmissed
    rw [hlog, hmoving, List.append_nil, hsaid]
  · cases hever
  · exact .inl hlost

/-- From every state of a run without failures, with one sender: as long as the world makes no
    tick, nobody sends anything and nothing fails, the program makes a bounded number of steps
    and comes to rest, and when nobody can go on any more, every client that has a player and
    replays what its socket has got has the other players at their places, and nobody else; but
    for a session whose flag stays set. -/
theorem clients_catch_up (h : ProgramRun platform config 1 events σ) (hcalm : Calm events) :
    (∃ bound, ∀ more σ', Run (Program.WorkNext platform config 1) σ more σ' →
        more.length ≤ bound) ∧
      (∃ more σ', Run (Program.WorkNext platform config 1) σ more σ' ∧
        Still (Program.WorkNext platform config 1) σ') ∧
      ∀ more σ', Run (Program.WorkNext platform config 1) σ more σ' →
        Still (Program.WorkNext platform config 1) σ' → σ'.world = σ.world ∧
          ∀ s ∈ σ.world.players, (σ'.wire.hub.endpoint s).send.Lost ∨
            clientView (σ'.wire.written s) = worldView platform s σ.world := by
  have hdecreases := Program.decreases_work platform config 1
  refine ⟨⟨σ.work 1, fun more σ' hrun => ?_⟩, hdecreases.exists_still ⟨events, h⟩,
    fun more σ' hrun hstill => ?_⟩
  · exact (Nat.le_add_right _ _).trans (hdecreases.length_add_le ⟨events, h⟩ hrun).2
  · obtain ⟨hall, hquiet, hworld, -⟩ := Program.work_run h hrun
    refine ⟨hworld, fun s hplayer => ?_⟩
    rw [← hworld] at hplayer ⊢
    exact view_at_rest hall (hcalm.append hquiet) hstill hplayer

theorem calm_followed : Calm followed := by
  refine calm_of_walks (by decide) (by decide) fun id hid => ?_
  simp [chunksOf, followed, firstPlayer, sends, connects, walks, ProgramEvent.chunksFor,
    WireEvent.chunksFor, chunkFor, EndpointEvent.chunk, hid]

theorem clients_catch_up_followed : ∃ σ, ProgramRun .x86 .room 1 followed σ ∧
    (∃ bound, ∀ more σ', Run (Program.WorkNext .x86 .room 1) σ more σ' →
        more.length ≤ bound) ∧
      (∃ more σ', Run (Program.WorkNext .x86 .room 1) σ more σ' ∧
        Still (Program.WorkNext .x86 .room 1) σ') ∧
      ∀ more σ', Run (Program.WorkNext .x86 .room 1) σ more σ' →
        Still (Program.WorkNext .x86 .room 1) σ' → σ'.world = σ.world ∧
          ∀ s ∈ σ.world.players, (σ'.wire.hub.endpoint s).send.Lost ∨
            clientView (σ'.wire.written s) = worldView .x86 s σ.world := by
  have heval : (followed.foldlM (Program.step .x86 .room 1) {}).isSome = true := by
    decide +kernel
  obtain ⟨σ, hσ⟩ := Option.isSome_iff_exists.mp heval
  have hrun : ProgramRun .x86 .room 1 followed σ := run_iff_foldlM.mpr hσ
  exact ⟨σ, hrun, clients_catch_up hrun calm_followed⟩

/-! ## The next tick -/

theorem Program.processed_tick {dt : ℚ} (hstep : σ.step platform config n (.tick dt) = some σ') :
    σ'.wire = σ.wire ∧ σ'.processed = σ.wire.hub.inQueue := by
  cases step_cases hstep with
  | tick => exact ⟨rfl, List.take_length⟩

/-- After a tick at rest, the players are those whose sessions are there: their `CreatePlayer`
    has been in the in queue, and nobody has removed them. -/
theorem players_after_tick (h : ProgramRun platform config n events σ) (hcalm : Calm events)
    (hstill : Still (Program.WorkNext platform config n) σ) {dt : ℚ}
    (hstep : σ.step platform config n (.tick dt) = some σ') (s : UInt64) :
    s ∈ σ'.world.players ↔ σ.wire.hub.sessions s = true := by
  have hcoupled := program_run h
  have hcoupled' := program_run (h.snoc hstep)
  have hcalmed := calmed_run h hcalm.succeeds
  obtain ⟨hwire, hprocessed⟩ := Program.processed_tick hstep
  constructor
  · intro hplayer
    rw [← hwire] at hcalmed ⊢
    exact sessions_of_player hcoupled' hcalmed hplayer
  · intro hlive
    have hphase := hcoupled.phase s
    rw [hlive] at hphase
    have hidle := handler_at_rest h hcalm hstill s
    have hcreated := (List.mem_filter.mp (hphase.of_live.2 hidle)).1
    obtain ⟨turns, hgame, hinputs⟩ := hcoupled'.game
    have hthere : Live (turns.flatMap Turn.inputs) s := by
      rw [hinputs, hprocessed]
      exact live_of_created (not_removed hcoupled hcalmed hcalm)
        ⟨_, List.mem_map_of_mem hcreated, NetPacket.opcode_ofOpcode _ _, rfl⟩
    have hplayer := ((game_agrees hgame).1 s).mpr hthere
    rw [Ne, World.player?] at hplayer
    by_contra hmissing
    rw [AList.lookup_eq_none.mpr hmissing] at hplayer
    exact hplayer rfl

/-- With any number of senders, in every run without failures, on a map that has a column and a
    number of rows that is no multiple of 256: when the program has come to rest, the next tick
    can be made, whatever its length, its sweeps end, and after it the players are exactly
    those whose sessions are in `sessions_`. -/
theorem tick_joins (hgridX : config.gridX ≠ 0) (hrows : config.gridY.toNat % 256 ≠ 0)
    (h : ProgramRun platform config n events σ) (hcalm : Calm events)
    (hstill : Still (Program.WorkNext platform config n) σ) (dt : ℚ) :
    config.SweepsEnd platform ∧ ∃ σ', σ.step platform config n (.tick dt) = some σ' ∧
      ∀ s, s ∈ σ'.world.players ↔ σ.wire.hub.sessions s = true := by
  have hmoving := (Program.still_parts hstill).1
  obtain ⟨σ', hstep⟩ :=
    calm_tick (program_run h) (calmed_run h hcalm.succeeds) hcalm hmoving dt
  exact ⟨sweepsEnd_of_grid platform hgridX hrows, σ', hstep,
    players_after_tick h hcalm hstill hstep⟩

theorem followed_still : ∃ more σ, ProgramRun .x86 .room 1 (followed ++ more) σ ∧
    Calm (followed ++ more) ∧ Still (Program.WorkNext .x86 .room 1) σ := by
  have heval : (followed.foldlM (Program.step .x86 .room 1) {}).isSome = true := by
    decide +kernel
  obtain ⟨σ, hσ⟩ := Option.isSome_iff_exists.mp heval
  have hrun : ProgramRun .x86 .room 1 followed σ := run_iff_foldlM.mpr hσ
  obtain ⟨more, σ', hmore, hstill⟩ :=
    (Program.decreases_work .x86 .room 1).exists_still ⟨followed, hrun⟩
  obtain ⟨hall, hquiet, -, -⟩ := Program.work_run hrun hmore
  exact ⟨more, σ', hall, calm_followed.append hquiet, hstill⟩

theorem tick_joins_followed : ∃ more σ, ProgramRun .x86 .room 1 (followed ++ more) σ ∧
    GameConfig.room.SweepsEnd .x86 ∧ ∃ σ', σ.step .x86 .room 1 (.tick (1 / 10)) = some σ' ∧
      ∀ s, s ∈ σ'.world.players ↔ σ.wire.hub.sessions s = true := by
  obtain ⟨more, σ, hrun, hcalm, hstill⟩ := followed_still
  exact ⟨more, σ, hrun, tick_joins (by decide) (by decide) hrun hcalm hstill (1 / 10)⟩

/-- A round trip, with one sender, in every run without failures: the program comes to rest,
    the world makes a tick, and the program comes to rest again. Then every session that was
    there has a player, the world has got all frames that its client had sent, each once and in
    order, and a client that replays what its socket has got has the other players at the
    places where these frames have brought them, and nobody else; but for a session whose flag
    stays set. -/
theorem round_trip (h : ProgramRun platform config 1 events σ) (hcalm : Calm events)
    (hstill : Still (Program.WorkNext platform config 1) σ) {dt : ℚ} {σ₁ σ₂ : Program}
    (htick : σ.step platform config 1 (.tick dt) = some σ₁)
    (hrun : Run (Program.WorkNext platform config 1) σ₁ more σ₂)
    (hrest : Still (Program.WorkNext platform config 1) σ₂) :
    ∃ turns, GameRun platform config turns (σ₂.world, { outQueue := σ₂.log }) ∧
      turns.flatMap Turn.inputs = σ₂.processed.map Prod.snd ∧
      ∀ s, σ.wire.hub.sessions s = true → s ∈ σ₂.world.players ∧
        (clientPackets s σ₂.processed).map (fun p => p.packet.frame) =
          (parse (chunksOf events s).flatten).map some ∧
        ((σ₂.wire.hub.endpoint s).send.Lost ∨
          clientView (σ₂.wire.written s) = worldView platform s σ₂.world) := by
  have hone : ∀ e ∈ [ProgramEvent.tick dt], e.Quiet := by
    rw [List.forall_mem_singleton]
    exact ProgramEvent.quiet_tick dt
  have hrun₁ := h.snoc htick
  have hcalm₁ := hcalm.append hone
  obtain ⟨hrun₂, hquiet, hworld, hprocessed⟩ := Program.work_run hrun₁ hrun
  obtain ⟨turns, hgame, hinputs⟩ := (program_run hrun₂).game
  refine ⟨turns, hgame, hinputs, fun s hlive => ?_⟩
  have hplayer : s ∈ σ₂.world.players := by
    rw [hworld]
    exact (players_after_tick h hcalm hstill htick s).mpr hlive
  refine ⟨hplayer, ?_, view_at_rest hrun₂ (hcalm₁.append hquiet) hrest hplayer⟩
  -- nothing waits right after the tick: neither in the in queue nor in the hands of a handler
  obtain ⟨hwire, htaken⟩ := Program.processed_tick htick
  obtain ⟨waiting, hframes, hnone⟩ := processed_frames (program_run hrun₁) s
  have hqueue : σ₁.inQueue = [] := by
    cases Program.step_cases htick with
    | tick => simp [Program.inQueue]
  have hpackets : (σ₁.wire.hub.endpoint s).handler.packets = [] := by
    rw [hwire, handler_at_rest h hcalm hstill s]
    rfl
  rw [hnone hqueue hpackets, List.append_nil, chunksOf_append hone] at hframes
  rw [hprocessed]
  exact hframes

theorem round_trip_followed : ∃ events σ σ₁ σ₂ more, ProgramRun .x86 .room 1 events σ ∧
    σ.step .x86 .room 1 (.tick (1 / 10)) = some σ₁ ∧
    Run (Program.WorkNext .x86 .room 1) σ₁ more σ₂ ∧
    ∃ turns, GameRun .x86 .room turns (σ₂.world, { outQueue := σ₂.log }) ∧
      turns.flatMap Turn.inputs = σ₂.processed.map Prod.snd ∧
      ∀ s, σ.wire.hub.sessions s = true → s ∈ σ₂.world.players ∧
        (clientPackets s σ₂.processed).map (fun p => p.packet.frame) =
          (parse (chunksOf events s).flatten).map some ∧
        ((σ₂.wire.hub.endpoint s).send.Lost ∨
          clientView (σ₂.wire.written s) = worldView .x86 s σ₂.world) := by
  obtain ⟨before, σ, hrun, hcalm, hstill⟩ := followed_still
  obtain ⟨σ₁, htick⟩ := calm_tick (program_run hrun) (calmed_run hrun hcalm.succeeds) hcalm
    (Program.still_parts hstill).1 (1 / 10)
  obtain ⟨more, σ₂, hmore, hrest⟩ :=
    (Program.decreases_work .x86 .room 1).exists_still ⟨_, hrun.snoc htick⟩
  exact ⟨_, σ, σ₁, σ₂, more, hrun, htick, hmore,
    round_trip hrun hcalm hstill htick hmore hrest⟩

end EndlessPeak
