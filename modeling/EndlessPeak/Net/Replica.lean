import EndlessPeak.Game.Traffic
import EndlessPeak.Net.Announce
import EndlessPeak.Net.SenderPool

/-!
# What a client makes of its bytes

A client that reads every buffer it gets, in order, keeps a copy of the players: a
`SpawnPlayers` starts it anew, `AddPlayer`, `RemovePlayer` and `MovePlayer` change it.
Its session is there long before its snapshot is made, other sessions come and go, the
clients send what they like, and packets wait in the out queue for `Sender`.

* `clientView`: the copy, read from the bytes alone.
* `foldl_replay`: on what the world says, it is the fold of the packets.
* `received_from_spawn`: from its snapshot on, a live session misses nothing.
* `clientView_converges`: the copy is the world, up to what waits in the out queue.
-/

namespace EndlessPeak

open Lib

/-! ## The copy of a client -/

/-- What a client does with a buffer. -/
def replay (view : View) (buf : Buffer) : View :=
  let body := bufferBody buf
  match bufferOpcode buf with
  | some .spawnPlayers => fun id => (readSpawn body).lookup id
  | some .addPlayer => Function.update view (readId body) (some (readPosition body))
  | some .removePlayer => Function.update view (readId body) none
  | some .movePlayer =>
    if view (readId body) = none then view
    else Function.update view (readId body) (some (readPosition body))
  | _ => view

/-- What a client knows from its buffers: at first, nobody. -/
def clientView (buffers : List Buffer) : View := buffers.foldl replay fun _ => none

section Replay

variable {platform : Platform} {s : UInt64} {view : View} {p spawn : ServerPacket}

/-- A snapshot starts the copy anew. -/
theorem replay_spawn (hbody : p.packet.body ≠ none) (hspawn : IsSpawnFor s p) :
    replay view p.packet.makeBuffer =
      fun id => (readSpawn (p.packet.body.getD [])).lookup id := by
  unfold replay
  rw [bufferOpcode_makeBuffer hbody, bufferBody_makeBuffer hbody, hspawn.1]

theorem replay_makeBuffer (hbody : p.packet.body ≠ none) (haddressed : p.AddressedTo s)
    (hspawn : ¬ IsSpawnFor s p) : replay view p.packet.makeBuffer = observe s view p := by
  unfold replay observe
  rw [bufferOpcode_makeBuffer hbody, bufferBody_makeBuffer hbody, if_pos haddressed]
  rcases ho : p.opcode with _ | o
  · rfl
  · cases o with
    | spawnPlayers => exact absurd ⟨ho, haddressed⟩ hspawn
    | createPlayer | moveLeft | moveRight | jump | movePlayer | addPlayer | removePlayer => rfl

theorem foldl_replay {packets : List ServerPacket} (hbody : ∀ p ∈ packets, p.packet.body ≠ none)
    (hspawn : ∀ p ∈ packets, ¬ IsSpawnFor s p) :
    (buffersFor s packets).foldl replay view = packets.foldl (observe s) view := by
  induction packets generalizing view with
  | nil => rfl
  | cons p packets ih =>
    rw [List.forall_mem_cons] at hbody hspawn
    rw [← List.singleton_append, buffersFor_append, List.foldl_append, buffersFor_singleton,
      List.singleton_append, List.foldl_cons, ih hbody.2 hspawn.2]
    by_cases haddressed : p.AddressedTo s
    · rw [if_pos haddressed, List.foldl_cons, List.foldl_nil,
        replay_makeBuffer hbody.1 haddressed hspawn.1]
    · rw [if_neg haddressed, List.foldl_nil, observe, if_neg haddressed]

theorem clientView_of_spawn {after : List ServerPacket} (earlier : List Buffer)
    (hsaid : ∀ p ∈ spawn :: after, Said platform p) (hspawn : IsSpawnFor s spawn)
    (hafter : ∀ p ∈ after, ¬ IsSpawnFor s p) :
    clientView (earlier ++ spawn.packet.makeBuffer :: buffersFor s after) =
      after.foldl (observe s) fun id =>
        (readSpawn (spawn.packet.body.getD [])).lookup id := by
  rw [List.forall_mem_cons] at hsaid
  rw [clientView, List.foldl_append, List.foldl_cons,
    replay_spawn hsaid.1.body_ne_none hspawn,
    foldl_replay (fun p hp => (hsaid.2 p hp).body_ne_none) hafter]

end Replay

/-! ## What a live session has received -/

namespace Watched

variable {platform : Platform} {config : GameConfig} {events : List Event} {w w' : Watched}
  {e : Event} {s : UInt64}

/-- The packets of a run of pops that all found the session. -/
theorem filter_reaches {pops : List Pop} (h : ∀ pop ∈ pops, s ∈ pop.targets) :
    (pops.filter fun pop => pop.Reaches s).map Pop.buffer =
      buffersFor s (pops.map Pop.packet) := by
  have hfilter : (pops.filter fun pop => pop.Reaches s) =
      pops.filter fun pop => pop.packet.AddressedTo s := by
    apply List.filter_congr
    intro pop hpop
    simp [Pop.Reaches, h pop hpop]
  rw [hfilter, buffersFor, List.filter_map, List.map_map]
  rfl

/-- From its snapshot on, a session that is there has received everything addressed to it,
    but for what waits in the out queue. -/
theorem received_from_spawn (hheard : w.Heard) (hsaid : ∀ p ∈ w.log, Said platform p)
    (hs : s ∈ w.system.server.sessions) {before after : List ServerPacket} {spawn : ServerPacket}
    (hlog : w.log = before ++ spawn :: after) (hspawn : IsSpawnFor s spawn) :
    ∃ earlier, w.system.server.received s ++ buffersFor s w.system.net.outQueue =
      earlier ++ spawn.packet.makeBuffer :: buffersFor s after := by
  have hself : buffersFor s [spawn] = [spawn.packet.makeBuffer] := by
    rw [buffersFor_singleton, if_pos hspawn.2]
  have hsplit : w.pops.map Pop.packet ++ w.system.net.outQueue = before ++ spawn :: after := hlog
  rcases List.append_eq_append_iff.mp hsplit with ⟨mid, -, hqueue⟩ | ⟨mid, hpops, hrest⟩
  · -- the snapshot has not been sent yet
    refine ⟨w.system.server.received s ++ buffersFor s mid, ?_⟩
    rw [hqueue, ← List.singleton_append, buffersFor_append, buffersFor_append, hself]
    simp
  · cases mid with
    | nil =>
      refine ⟨w.system.server.received s, ?_⟩
      rw [show w.system.net.outQueue = [spawn] ++ after from hrest.symm, buffersFor_append, hself]
      rfl
    | cons q mid =>
      obtain ⟨rfl, rfl⟩ := List.cons.inj hrest
      obtain ⟨early, late, hsent, rfl, hlate⟩ := List.map_eq_append_iff.mp hpops
      obtain ⟨pop, late, rfl, rfl, rfl⟩ := List.map_eq_cons_iff.mp hlate
      -- the snapshot has found the session, and so has every packet since
      have hrpc : pop.packet.type = .rpc :=
        (hsaid pop.packet (by simp [hlog])).type_of_spawn hspawn.1
      have hid : s = pop.packet.id := by
        have haddressed := hspawn.2
        rwa [ServerPacket.AddressedTo, hrpc] at haddressed
      have htarget : s ∈ pop.targets := hid ▸ hheard.own pop (by simp [hsent]) hrpc
      have hstays := hheard.stays s hs
      rw [hsent, Stays, ← List.singleton_append, ← List.append_assoc, EachAfter.append_iff]
        at hstays
      have hlater : ∀ q ∈ pop :: late, s ∈ q.targets := by
        rw [List.forall_mem_cons]
        refine ⟨htarget, fun q hq => ?_⟩
        obtain ⟨a, b, hab⟩ := List.append_of_mem hq
        exact hstays.2 a q b hab ⟨pop, by simp, htarget⟩
      refine ⟨(early.filter fun pop => pop.Reaches s).map Pop.buffer, ?_⟩
      rw [hheard.received, hsent, List.filter_append, List.map_append, filter_reaches hlater,
        List.append_assoc, ← buffersFor_append, List.map_cons, List.cons_append,
        ← List.singleton_append, buffersFor_append, hself]
      rfl

/-! ## The invariant of every run -/

/-- What `Sender` has popped has been heard, the log tells every player's client about the
    others, and all that is in it has been said by the world. -/
structure Informs (platform : Platform) (w : Watched) : Prop where
  heard : w.Heard
  tracks : Tracks platform w.log w.system.world
  said : ∀ p ∈ w.log, Said platform p
  quiet : w.system.world.game.outQueue = []

theorem informs_tick {dt : ℚ} (h : w.Informs platform) (hheard : w'.Heard)
    (hstep : w.step platform config (.tick dt) = some w') : w'.Informs platform := by
  obtain ⟨hsystem, hpops⟩ := step_eq_some.mp hstep
  obtain ⟨world, net, htick, hw'⟩ := System.step_tick_eq_some.mp hsystem
  obtain ⟨w1, w2, hin, hloop, rfl, rfl⟩ := World.tick_eq_some.mp htick
  have hlog : w'.log = w.log ++ w2.game.outQueue := by
    rw [log, hpops, hw']
    simp [System.popOf, log]
  -- the same tick, with the whole log as its out queue
  let whole : Subsystem := { w.system.net with outQueue := w.log }
  have hwhole : w.system.world.tick platform config dt whole =
      some ({ w2 with game := { w2.game with outQueue := [] } },
        { inQueue := w.system.world.game.inQueue, outQueue := w.log ++ w2.game.outQueue }) :=
    World.tick_eq_some.mpr ⟨w1, w2, hin, hloop, rfl, rfl⟩
  have htracks := tracks_tick whole h.tracks hwhole
  obtain ⟨answers, moves, hout, htold⟩ := told_tick h.quiet hwhole
  refine ⟨hheard, ?_, ?_, ?_⟩
  · rw [hlog, hw']
    exact htracks
  · have hnew : w'.log = w.log ++ (answers ++ moves) := by
      rw [hlog, ← List.append_assoc]
      exact hout
    rw [hnew, List.forall_mem_append]
    exact ⟨h.said, fun p hp => htold.said hp⟩
  · rw [hw']

theorem informs_step (h : w.Informs platform) (hsound : w.system.Sound)
    (hlogged : w.system.Logged) (hstep : w.step platform config e = some w') :
    w'.Informs platform := by
  have hheard := heard_step h.heard hsound hlogged hstep
  by_cases he : e.IsTick
  · cases e with
    | tick dt => exact informs_tick h hheard hstep
    | addSession | closeSession | receive | send => exact absurd he id
  · obtain ⟨hlog, hworld⟩ := log_step hstep he
    exact ⟨hheard, by rw [hlog, hworld]; exact h.tracks, by rw [hlog]; exact h.said,
      by rw [hworld]; exact h.quiet⟩

theorem informs_run (h : WatchedRun platform config events w) : w.Informs platform := by
  induction h with
  | nil =>
    exact ⟨heard_init, ⟨by simp [World.All, World.player?], by simp [World.player?]⟩,
      by simp [log], rfl⟩
  | snoc hrun hstep ih =>
    have hsystem := system_run hrun
    exact informs_step ih (system_sound hsystem) (system_logged hsystem) hstep

end Watched

/-! ## Convergence -/

section Converges

variable {platform : Platform} {config : GameConfig} {events : List Event} {σ : System}
  {s : UInt64}

/-- In every run, whatever the clients send and whoever comes and goes: a client that is
    connected and has a player, and that replays the bytes it has received and those that
    wait for it in the out queue, has the other players at their places, and nobody else. -/
theorem clientView_converges (h : SystemRun platform config events σ)
    (hs : s ∈ σ.server.sessions) (hplayer : s ∈ σ.world.players) :
    clientView (σ.server.received s ++ buffersFor s σ.net.outQueue) =
      worldView platform s σ.world := by
  obtain ⟨pops, hrun⟩ := Watched.exists_run h
  have hinforms := Watched.informs_run hrun
  have hthere : σ.world.player? s ≠ none := by
    obtain ⟨v, hv⟩ := Option.isSome_iff_exists.mp (AList.lookup_isSome.mpr hplayer)
    have hnull := (system_sound h).not_null s
    rw [hv] at hnull
    rw [World.player?, hv]
    simpa using hnull
  have hobserved := hinforms.tracks.view s hthere
  rw [hinforms.quiet, List.append_nil] at hobserved
  obtain ⟨before, spawn, after, hlog, hspawn, hafter, hview⟩ := hobserved
  obtain ⟨earlier, hreceived⟩ :=
    Watched.received_from_spawn hinforms.heard hinforms.said hs hlog hspawn
  have hsaid : ∀ p ∈ spawn :: after, Said platform p :=
    fun p hp => hinforms.said p (hlog ▸ List.mem_append_right _ hp)
  rw [hreceived, clientView_of_spawn earlier hsaid hspawn hafter, hview]

/-- Two sessions; the second client walks, and some of its moves are still to be sent. -/
theorem clientView_converges_room : ∃ σ, SystemRun .x86 .room
      [.addSession 0, .tick (1 / 10), .addSession 1, .send, .send, .tick (1 / 10),
        .receive 1 [0x00, 0x13, 0, 0, 0, 0], .tick (1 / 10), .send, .send] σ ∧
    clientView (σ.server.received 0 ++ buffersFor 0 σ.net.outQueue) =
      worldView .x86 0 σ.world := by
  have heval : (([.addSession 0, .tick (1 / 10), .addSession 1, .send, .send, .tick (1 / 10),
      .receive 1 [0x00, 0x13, 0, 0, 0, 0], .tick (1 / 10), .send, .send] : List Event).foldlM
        (System.step .x86 .room) {}).map (fun σ =>
          decide (0 ∈ σ.server.sessions ∧ 0 ∈ σ.world.players)) = some true := by decide +kernel
  obtain ⟨σ, hfold, hmem⟩ := Option.map_eq_some_iff.mp heval
  obtain ⟨hs, hplayer⟩ := of_decide_eq_true hmem
  have hrun := run_iff_foldlM.mpr hfold
  exact ⟨σ, hrun, clientView_converges hrun hs hplayer⟩

end Converges

end EndlessPeak
