import EndlessPeak.Net.Intake
import EndlessPeak.Net.Replica
import EndlessPeak.Net.Wire

/-!
# The program

The threads of `main` in one system: the game loop, the senders, and the I/O threads that run
the handlers of the sessions. A tick begins with the swap of the in queues, works on the
player map alone, and pushes its packets one by one; all other threads go on meanwhile, but that a
session comes or goes only while no sender has a packet in hand (`Pool`).

* `program_run`: every run is at once a run of ticks on what the sessions have pushed, and a
  run of `Wire` on what the ticks have said.
* `program_conserves`: with any number of senders, nothing on the way from a client to the
  world or from the world to a socket is lost, changed or doubled, but for what a session
  misses before it comes and after it goes.
* `clients_follow`: with one sender, a client that replays what has been written to its socket
  is behind the world only by what is still on its way.
-/

namespace EndlessPeak

open Lib

/-! ## The model -/

/-- The world, the senders and the sessions. `taken` counts the packets of the network in queue
    that have been swapped out of it, and `moving` holds the packets of the last tick that
    have not been pushed to the network out queue. `log` records what the ticks have said. -/
structure Program where
  world : World := {}
  wire : Wire := {}
  taken : ℕ := 0
  moving : List ServerPacket := []
  log : List ServerPacket := []

/-- What can happen next. -/
inductive ProgramEvent where
  /-- `World::Tick`, up to the loop that moves the packets to the network. -/
  | tick (dt : ℚ)
  /-- The loop moves a packet. -/
  | move
  /-- A sender or a session takes a step. -/
  | wire (event : WireEvent)

namespace Program

/-- The packets that the world has got. -/
def processed (σ : Program) : List Entry := σ.wire.hub.inQueue.take σ.taken

/-- The network in queue. -/
def inQueue (σ : Program) : List ServerPacket :=
  (σ.wire.hub.inQueue.drop σ.taken).map Prod.snd

/-- One step, with `n` senders. The next tick begins when all packets of the last one have been
    moved. -/
def step (platform : Platform) (config : GameConfig) (n : ℕ) (σ : Program) :
    ProgramEvent → Option Program
  | .tick dt =>
    if σ.moving = [] then
      (σ.world.tick platform config dt { inQueue := σ.inQueue }).map fun (world, net) =>
        { σ with
          world
          taken := σ.wire.hub.inQueue.length
          moving := net.outQueue
          log := σ.log ++ net.outQueue }
    else none
  | .move =>
    match σ.moving with
    | [] => none
    | packet :: rest =>
      (σ.wire.step n (.push packet)).map fun wire => { σ with wire, moving := rest }
  | .wire (.push _) => none -- only the world pushes to the network out queue
  | .wire event => (σ.wire.step n event).map fun wire => { σ with wire }

end Program

/-- The events can happen in this order with `n` senders from the start of the program, and
    lead to the last argument. -/
def ProgramRun (platform : Platform) (config : GameConfig) (n : ℕ) :
    List ProgramEvent → Program → Prop :=
  Run (stepRel (Program.step platform config n)) {}

/-- What the session `id` reads in this event. -/
def WireEvent.chunksFor (id : UInt64) : WireEvent → List (List UInt8)
  | .session j event => chunkFor id j event
  | _ => []

/-- What the session `id` reads in this event. -/
def ProgramEvent.chunksFor (id : UInt64) : ProgramEvent → List (List UInt8)
  | .wire event => event.chunksFor id
  | _ => []

/-- What the session `id` reads, chunk by chunk. -/
def chunksOf (events : List ProgramEvent) (id : UInt64) : List (List UInt8) :=
  events.flatMap (ProgramEvent.chunksFor id)

/-! ## What the steps do -/

variable {platform : Platform} {config : GameConfig} {n : ℕ}

theorem Wire.inQueue_step {w w' : Wire} {e : WireEvent} (h : w.step n e = some w') :
    w.hub.inQueue <+: w'.hub.inQueue := by
  have hhub : ∀ {x : UInt64 × EndpointEvent} {hub : Hub}, w.hub.step x = some hub →
      w.hub.inQueue <+: hub.inQueue := by
    rintro ⟨id, event⟩ hub hstep
    simp only [Hub.step, Option.map_eq_some_iff] at hstep
    obtain ⟨⟨e, live, out⟩, -, rfl⟩ := hstep
    exact List.prefix_append _ _
  cases Wire.step_cases h with
  | push | pop | finish => exact List.prefix_rfl
  | call t id job pool hub hjob hpool hstep => exact hhub hstep
  | session id event pool hub hevent hstep hpool => exact hhub hstep

theorem Wire.intake_step {w w' : Wire} {e : WireEvent} {chunks : UInt64 → List (List UInt8)}
    (hintake : Intake chunks w.hub) (h : w.step n e = some w') :
    Intake (fun id => chunks id ++ e.chunksFor id) w'.hub := by
  have hsame : Intake (fun id => chunks id ++ []) w.hub := by
    intro id
    show Run _ _ (chunks id ++ []) _
    rw [List.append_nil]
    exact hintake id
  cases Wire.step_cases h with
  | push | pop | finish => exact hsame
  | call t id job pool hub hjob hpool hhub =>
    have hnone : ∀ j, chunkFor j id (.push t job.packet.packet.makeBuffer) = [] :=
      fun j => ite_self []
    have hintake' := EndlessPeak.intake_step hintake hhub
    simp only [hnone] at hintake'
    exact hintake'
  | session id event pool hub hevent hhub hpool => exact EndlessPeak.intake_step hintake hhub

/-- What the sessions make of the bytes, the ticks of the packets, and the senders of what the
    ticks say. -/
structure Program.Coupled (platform : Platform) (config : GameConfig) (n : ℕ)
    (events : List ProgramEvent) (σ : Program) : Prop where
  wire : ∃ events, WireRun n events σ.wire ∧ σ.log = said events ++ σ.moving
  game : ∃ turns, GameRun platform config turns (σ.world, { outQueue := σ.log }) ∧
    turns.flatMap Turn.inputs = σ.processed.map Prod.snd
  taken : σ.taken ≤ σ.wire.hub.inQueue.length
  intake : Intake (chunksOf events) σ.wire.hub

namespace Program

variable {σ σ' : Program} {events : List ProgramEvent} {e : ProgramEvent}

theorem chunksOf_snoc (events : List ProgramEvent) (e : ProgramEvent) :
    chunksOf (events ++ [e]) = fun id => chunksOf events id ++ e.chunksFor id := by
  funext id
  rw [chunksOf, List.flatMap_append, List.flatMap_singleton]
  rfl

/-- The steps, one constructor for each event. -/
inductive Moves (platform : Platform) (config : GameConfig) (n : ℕ) (σ : Program) :
    ProgramEvent → Program → Prop
  | tick (dt : ℚ) (world : World) (net : Subsystem) (hmoving : σ.moving = [])
      (htick : σ.world.tick platform config dt { inQueue := σ.inQueue } = some (world, net)) :
      Moves platform config n σ (.tick dt)
        { σ with
          world
          taken := σ.wire.hub.inQueue.length
          moving := net.outQueue
          log := σ.log ++ net.outQueue }
  | move (packet : ServerPacket) (rest : List ServerPacket) (wire : Wire)
      (hmoving : σ.moving = packet :: rest)
      (hwire : σ.wire.step n (.push packet) = some wire) :
      Moves platform config n σ .move { σ with wire, moving := rest }
  | wire (event : WireEvent) (wire : Wire) (hevent : event.pushed = none)
      (hwire : σ.wire.step n event = some wire) :
      Moves platform config n σ (.wire event) { σ with wire }

theorem step_cases (h : σ.step platform config n e = some σ') :
    Moves platform config n σ e σ' := by
  cases e with
  | tick dt =>
    simp only [step, Option.ite_none_right_eq_some, Option.map_eq_some_iff] at h
    obtain ⟨hmoving, ⟨world, net⟩, htick, rfl⟩ := h
    exact .tick dt world net hmoving htick
  | move =>
    cases hmoving : σ.moving with
    | nil => simp [step, hmoving] at h
    | cons packet rest =>
      simp only [step, hmoving, Option.map_eq_some_iff] at h
      obtain ⟨wire, hwire, rfl⟩ := h
      exact .move packet rest wire hmoving hwire
  | wire event =>
    cases event with
    | push packet => cases h
    | pop | call | finish | session =>
      simp only [step, Option.map_eq_some_iff] at h
      obtain ⟨wire, hwire, rfl⟩ := h
      exact .wire _ wire rfl hwire

/-- A step of a sender or of a session, or a packet that is moved. -/
theorem Coupled.wire_step (h : σ.Coupled platform config n events) {wire : Wire}
    {event : WireEvent} {rest : List ServerPacket} (hstep : σ.wire.step n event = some wire)
    (hmoving : σ.moving = event.pushed.toList ++ rest)
    (hchunks : ∀ id, e.chunksFor id = event.chunksFor id) :
    { σ with wire, moving := rest }.Coupled platform config n (events ++ [e]) := by
  obtain ⟨wireEvents, hrun, hlog⟩ := h.wire
  obtain ⟨turns, hgame, hinputs⟩ := h.game
  obtain ⟨more, hmore⟩ := Wire.inQueue_step hstep
  refine ⟨⟨wireEvents ++ [event], hrun.snoc hstep, ?_⟩, ⟨turns, hgame, ?_⟩, ?_, ?_⟩
  · show σ.log = (wireEvents ++ [event]).filterMap WireEvent.pushed ++ rest
    rw [hlog, hmoving, filterMap_snoc, List.append_assoc]
    rfl
  · show _ = (wire.hub.inQueue.take σ.taken).map Prod.snd
    rw [hinputs, processed, ← hmore, List.take_append_of_le_length h.taken]
  · show σ.taken ≤ wire.hub.inQueue.length
    rw [← hmore, List.length_append]
    exact Nat.le_add_right_of_le h.taken
  · rw [chunksOf_snoc]
    simp only [hchunks]
    exact Wire.intake_step h.intake hstep

theorem Coupled.tick (h : σ.Coupled platform config n events) (hmoving : σ.moving = []) {dt : ℚ}
    {world : World} {net : Subsystem}
    (htick : σ.world.tick platform config dt { inQueue := σ.inQueue } = some (world, net)) :
    { σ with
      world
      taken := σ.wire.hub.inQueue.length
      moving := net.outQueue
      log := σ.log ++ net.outQueue }.Coupled platform config n
        (events ++ [ProgramEvent.tick dt]) := by
  obtain ⟨wireEvents, hrun, hlog⟩ := h.wire
  obtain ⟨turns, hgame, hinputs⟩ := h.game
  refine ⟨⟨wireEvents, hrun, ?_⟩, ⟨turns ++ [⟨dt, σ.inQueue⟩], hgame.snoc ?_, ?_⟩, le_refl _, ?_⟩
  · show σ.log ++ net.outQueue = said wireEvents ++ net.outQueue
    rw [hlog, hmoving, List.append_nil]
  · -- the same tick, with the whole log as its out queue
    obtain ⟨w1, w2, hin, hloop, rfl, rfl⟩ := World.tick_eq_some.mp htick
    refine World.tick_eq_some.mpr ⟨w1, w2, hin, hloop, rfl, ?_⟩
    rw [show σ.world.game.inQueue = [] from (game_inQueue hgame).1]
    rfl
  · show _ = (σ.wire.hub.inQueue.take σ.wire.hub.inQueue.length).map Prod.snd
    rw [List.flatMap_append, hinputs, List.take_length, List.flatMap_singleton]
    show σ.processed.map Prod.snd ++ σ.inQueue = _
    rw [processed, inQueue, ← List.map_append, List.take_append_drop]
  · rw [chunksOf_snoc]
    intro id
    show Run _ _ (chunksOf events id ++ []) _
    rw [List.append_nil]
    exact h.intake id

theorem coupled_step (h : σ.Coupled platform config n events)
    (hstep : σ.step platform config n e = some σ') :
    σ'.Coupled platform config n (events ++ [e]) := by
  cases step_cases hstep with
  | tick dt world net hmoving htick => exact h.tick hmoving htick
  | move packet rest wire hmoving hwire => exact h.wire_step hwire hmoving fun _ => rfl
  | wire event wire hevent hwire => exact h.wire_step hwire (by rw [hevent]; rfl) fun _ => rfl

end Program

/-! ## In every run -/

variable {events : List ProgramEvent} {σ : Program}

theorem program_run (h : ProgramRun platform config n events σ) :
    σ.Coupled platform config n events :=
  h.invariant_trace
    ⟨⟨[], .nil, rfl⟩, ⟨[], .nil, rfl⟩, le_refl _, intake_init⟩
    fun _ _ _ _ hσ hstep => Program.coupled_step hσ hstep

/-- What the world has got from a client, and what it is still to get. -/
theorem processed_frames (h : σ.Coupled platform config n events) (id : UInt64) :
    ∃ waiting, (clientPackets id σ.processed).map (fun p => p.packet.frame) ++ waiting =
        (parse (chunksOf events id).flatten).map some ∧
      (σ.inQueue = [] → (σ.wire.hub.endpoint id).handler.packets = [] → waiting = []) := by
  have hframes := congrArg (List.map Prod.snd) (h.intake.frames id)
  rw [List.map_map, List.map_map] at hframes
  have hsplit : clientPackets id σ.wire.hub.inQueue = clientPackets id σ.processed ++
      clientPackets id (σ.wire.hub.inQueue.drop σ.taken) := by
    rw [← clientPackets_append, Program.processed, List.take_append_drop]
  rw [hsplit, List.append_assoc, List.map_append] at hframes
  refine ⟨_, hframes, fun hqueue hpackets => ?_⟩
  rw [List.map_eq_nil_iff.mp hqueue, hpackets]
  rfl

/-- With any number of senders, in every run, whatever the threads do while a tick is at work:
    the world is where ticks take it that have got the packets of the in queue up to the last
    swap, each once and in order; those of a client are the frames of the bytes that it has
    sent, as far as they have come; and a socket gets nothing that these ticks have not said
    to its client, or more often than they have. -/
theorem program_conserves (h : ProgramRun platform config n events σ) :
    ∃ turns, GameRun platform config turns (σ.world, { outQueue := σ.log }) ∧
      turns.flatMap Turn.inputs = σ.processed.map Prod.snd ∧
      ∀ id, (∃ waiting, (clientPackets id σ.processed).map (fun p => p.packet.frame) ++ waiting =
          (parse (chunksOf events id).flatten).map some ∧
        (σ.inQueue = [] → (σ.wire.hub.endpoint id).handler.packets = [] → waiting = [])) ∧
        (σ.wire.written id).Subperm (buffersFor id σ.log) := by
  have hcoupled := program_run h
  obtain ⟨wireEvents, hwire, hlog⟩ := hcoupled.wire
  obtain ⟨turns, hgame, hinputs⟩ := hcoupled.game
  refine ⟨turns, hgame, hinputs, fun id => ⟨processed_frames hcoupled id, ?_⟩⟩
  rw [hlog, buffersFor_append]
  exact (sockets_conserve hwire id).trans (List.sublist_append_left _ _).subperm

/-- A session connects, and the first tick adds its player. -/
def firstPlayer : List ProgramEvent :=
  (connects 0).map .wire ++ .tick (1 / 10) :: List.replicate 4 .move

/-- The client of the session `0` sends a `MoveRight`. -/
def walks : List WireEvent :=
  [.session 0 (.readDone (some [0x00, 0x13, 0, 0, 0, 0])), .session 0 .handle]

/-- Two senders pop a packet each; the second one comes to the session first. -/
def swapped : List WireEvent :=
  [.pop 0, .pop 1, .call 1 0, .session 0 (.send 2), .call 0 0] ++
    List.replicate 4 (.session 0 (.send 2)) ++ [.finish 1]

/-- The client walks while the senders are at work. -/
def twoSenders : List ProgramEvent :=
  firstPlayer ++ (swapped ++ walks).map .wire ++ [.tick (1 / 10), .move]

theorem program_conserves_twoSenders : ∃ σ, ProgramRun .x86 .room 2 twoSenders σ ∧
    ∃ turns, GameRun .x86 .room turns (σ.world, { outQueue := σ.log }) ∧
      turns.flatMap Turn.inputs = σ.processed.map Prod.snd ∧
      ∀ id, (∃ waiting, (clientPackets id σ.processed).map (fun p => p.packet.frame) ++ waiting =
          (parse (chunksOf twoSenders id).flatten).map some ∧
        (σ.inQueue = [] → (σ.wire.hub.endpoint id).handler.packets = [] → waiting = [])) ∧
        (σ.wire.written id).Subperm (buffersFor id σ.log) := by
  have heval : (twoSenders.foldlM (Program.step .x86 .room 2) {}).isSome = true := by
    decide +kernel
  obtain ⟨σ, hσ⟩ := Option.isSome_iff_exists.mp heval
  have hrun : ProgramRun .x86 .room 2 twoSenders σ := run_iff_foldlM.mpr hσ
  exact ⟨σ, hrun, program_conserves hrun⟩

/-! ## The copies of the clients -/

/-- What the log of a run of ticks tells a client whose player is there. -/
theorem observed_run {turns : List Turn} {w : World} {log : List ServerPacket} {s : UInt64}
    (h : GameRun platform config turns (w, { outQueue := log })) (hs : s ∈ w.players) :
    (∀ p ∈ log, Said platform p) ∧ Observed s log (worldView platform s w) := by
  have hall : Tracks platform log w ∧ (∀ p ∈ log, Said platform p) ∧ w.game.outQueue = [] := by
    refine h.invariant (I := fun st => Tracks platform st.2.outQueue st.1 ∧
      (∀ p ∈ st.2.outQueue, Said platform p) ∧ st.1.game.outQueue = []) ?_ ?_
    · exact ⟨⟨by simp [World.All, World.player?], by simp [World.player?]⟩, by simp, rfl⟩
    · rintro ⟨w, net⟩ turn ⟨w', net'⟩ ⟨htracks, hsaid, hquiet⟩ hstep
      have htick : w.tick platform config turn.dt
          { net with inQueue := net.inQueue ++ turn.inputs } = some (w', net') := hstep
      obtain ⟨answers, moves, hout, htold⟩ := told_tick hquiet htick
      refine ⟨tracks_tick { net with inQueue := net.inQueue ++ turn.inputs }
        ⟨htracks.ids, htracks.view⟩ htick, ?_, ?_⟩
      · show ∀ p ∈ net'.outQueue, Said platform p
        rw [hout, List.append_assoc, List.forall_mem_append]
        exact ⟨hsaid, fun p hp => htold.said hp⟩
      · obtain ⟨_, _, -, -, rfl, -⟩ := World.tick_eq_some.mp htick
        rfl
  obtain ⟨htracks, hsaid, hquiet⟩ := hall
  obtain ⟨v, hv⟩ := Option.isSome_iff_exists.mp (AList.lookup_isSome.mpr hs)
  obtain ⟨player, rfl, -⟩ := game_sound h s v hv
  have hthere : w.player? s ≠ none := by
    rw [World.player?_eq_some.mpr hv]
    simp
  have hview := htracks.view s hthere
  rw [hquiet, List.append_nil] at hview
  exact ⟨hsaid, hview⟩

/-- A log in two parts, the first of which has nothing for the session `s` alone: the last
    snapshot is in the second one. -/
theorem clientView_of_tail {s : UInt64} {missed tail : List ServerPacket} {view : View}
    (hsaid : ∀ p ∈ missed ++ tail, Said platform p) (hmissed : ∀ p ∈ missed, ¬ Pool.Private s p)
    (hview : Observed s (missed ++ tail) view) : clientView (buffersFor s tail) = view := by
  obtain ⟨before, spawn, after, hlog, hspawn, hafter, rfl⟩ := hview
  have hprivate : Pool.Private s spawn := by
    have hrpc : spawn.type = .rpc := (hsaid spawn (by simp [hlog])).type_of_spawn hspawn.1
    have haddressed := hspawn.2
    rw [ServerPacket.AddressedTo, hrpc] at haddressed
    exact ⟨hrpc, haddressed.symm⟩
  obtain ⟨mid, rfl⟩ : ∃ mid, tail = mid ++ spawn :: after := by
    rcases List.append_eq_append_iff.mp hlog with ⟨mid, -, htail⟩ | ⟨mid, hsplit, hrest⟩
    · exact ⟨mid, htail⟩
    · cases mid with
      | nil => exact ⟨[], hrest.symm⟩
      | cons p mid =>
        obtain ⟨rfl, -⟩ := List.cons.inj hrest
        exact absurd hprivate (hmissed spawn (by simp [hsplit]))
  have hself : buffersFor s [spawn] = [spawn.packet.makeBuffer] := by
    rw [buffersFor_singleton, if_pos hspawn.2]
  rw [← List.singleton_append, buffersFor_append, buffersFor_append, hself,
    List.singleton_append]
  exact clientView_of_spawn _ (fun p hp => hsaid p (by simp [hp])) hspawn hafter

/-- A session that has missed nothing that is for it alone: what the world has said since is
    enough to know it. -/
theorem view_of_tail (h : σ.Coupled platform config n events) {s : UInt64}
    (hplayer : s ∈ σ.world.players) {missed tail : List ServerPacket}
    (hlog : σ.log = missed ++ tail) (hmissed : ∀ p ∈ missed, ¬ Pool.Private s p) :
    clientView (buffersFor s tail) = worldView platform s σ.world := by
  obtain ⟨turns, hgame, -⟩ := h.game
  obtain ⟨hsaid, hview⟩ := observed_run hgame hplayer
  rw [hlog] at hsaid hview
  exact clientView_of_tail hsaid hmissed hview

/-- With one sender, in every run, whatever the threads and the clients do, whoever comes and
    goes and whatever is written when: what has been written to the socket of a session that is
    there and has a player, together with what is still on its way to it, is the end of what
    the world has said to its client, and a client that replays it has the other players at
    their places, and nobody else. When nothing is on its way any more, what has been written
    is enough. -/
theorem clients_follow (h : ProgramRun platform config 1 events σ) {s : UInt64}
    (hlive : σ.wire.hub.sessions s = true) (hplayer : s ∈ σ.world.players) :
    ∃ pending, σ.wire.written s ++ pending <:+ buffersFor s σ.log ∧
      clientView (σ.wire.written s ++ pending) = worldView platform s σ.world ∧
      (σ.wire.Drained s → σ.moving = [] → pending = []) := by
  have hcoupled := program_run h
  obtain ⟨wireEvents, hwire, hlog⟩ := hcoupled.wire
  obtain ⟨missed, tail, pending, hsaid, hmissed, hwritten, hdrained⟩ := socket_tail hwire hlive
  rw [hsaid, List.append_assoc] at hlog
  -- what is on its way in the network, and what has not been moved
  have hon : σ.wire.written s ++ (pending ++ buffersFor s σ.moving) =
      buffersFor s (tail ++ σ.moving) := by
    rw [buffersFor_append, ← hwritten, List.append_assoc]
  refine ⟨pending ++ buffersFor s σ.moving, ?_, ?_, fun hempty hmoving => ?_⟩
  · rw [hon, hlog, buffersFor_append s missed]
    exact List.suffix_append _ _
  · rw [hon]
    exact view_of_tail hcoupled hplayer hlog hmissed
  · rw [hdrained hempty, hmoving]
    rfl

/-- The only sender takes a packet to the session. -/
def sends : List WireEvent :=
  [.pop 0, .call 0 0] ++ List.replicate 5 (.session 0 (.send 1)) ++ [.finish 0]

/-- The first packet is sent, the client walks, and another client connects. -/
def followed : List ProgramEvent :=
  firstPlayer ++ (sends ++ walks ++ connects 1).map .wire ++ [.tick (1 / 10), .move]

theorem clients_follow_followed : ∃ σ, ProgramRun .x86 .room 1 followed σ ∧
    ∃ pending, σ.wire.written 0 ++ pending <:+ buffersFor 0 σ.log ∧
      clientView (σ.wire.written 0 ++ pending) = worldView .x86 0 σ.world ∧
      (σ.wire.Drained 0 → σ.moving = [] → pending = []) := by
  have heval : (followed.foldlM (Program.step .x86 .room 1) {}).map (fun σ =>
      decide (σ.wire.hub.sessions 0 = true ∧ 0 ∈ σ.world.players)) = some true := by
    decide +kernel
  obtain ⟨σ, hσ, hboth⟩ := Option.map_eq_some_iff.mp heval
  obtain ⟨hlive, hplayer⟩ := of_decide_eq_true hboth
  have hrun : ProgramRun .x86 .room 1 followed σ := run_iff_foldlM.mpr hσ
  exact ⟨σ, hrun, clients_follow hrun hlive hplayer⟩

end EndlessPeak
