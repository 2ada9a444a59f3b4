import EndlessPeak.Net.System

/-!
# Who adds and removes players

The server's `CreatePlayer` and `RemovePlayer` travel in the same queue as the
packets of the clients, and `IsValidHeader` lets a client use the same opcodes.

* `Ordered`: what the server itself pushes, in every run (`system_logged`).
* `Quiet`: the client packets that do not meddle with the player map.
* `membership_of_quiet`: as long as the world processes only such client packets,
  the players are those of the sessions that are open by the processed packets, and
  no client packet adds, removes or replaces one.
* `client_removePlayer_breaks_membership`: a client that sends one header of six
  bytes can remove its player while its session stays open.
-/

namespace EndlessPeak

open Lib

/-! ## The log of pushed packets -/

/-- The session `id` is open by the log: its `CreatePlayer` has been pushed, and its
    `RemovePlayer` has not. -/
def Open (log : List Entry) (id : UInt64) : Prop := created id ∈ log ∧ removed id ∉ log

/-- What the server pushes after `log`: the `CreatePlayer` of a session that has not
    been closed, or a `RemovePlayer`. -/
def ServerLaw (log : List Entry) (e : Entry) : Prop :=
  e.1 = .server → ∃ id, e = created id ∧ removed id ∉ log ∨ e = removed id

/-- Every packet of the server in the log keeps to `ServerLaw`. -/
def Ordered (log : List Entry) : Prop := EachAfter ServerLaw log

/-- A client packet that is processed after `log` and leaves the player map alone: it
    is no `CreatePlayer`, and no `RemovePlayer` of a player that is there. -/
def Quiet (log : List Entry) (e : Entry) : Prop :=
  e.1 = .client → e.2.opcode ≠ some .createPlayer ∧
    (e.2.opcode = some .removePlayer → ¬ Live (log.map Prod.snd) e.2.id)

instance (log : List Entry) (e : Entry) : Decidable (Quiet log e) :=
  inferInstanceAs (Decidable (_ → _ ∧ (_ → _)))

theorem open_snoc_client (log : List Entry) (p : ServerPacket) (id : UInt64) :
    Open (log ++ [(.client, p)]) id ↔ Open log id := by
  simp [Open, created, removed]

theorem open_snoc_created {log : List Entry} {i : UInt64} (hi : removed i ∉ log) (id : UInt64) :
    Open (log ++ [created i]) id ↔ id = i ∨ Open log id := by
  have hne : ∀ j k, removed j ≠ created k := fun j k => (created_ne_removed k j).symm
  simp only [Open, List.mem_append, List.mem_singleton, created_inj, hne, or_false]
  constructor
  · rintro ⟨hc | rfl, hr⟩
    · exact .inr ⟨hc, hr⟩
    · exact .inl rfl
  · rintro (rfl | ⟨hc, hr⟩)
    · exact ⟨.inr rfl, hi⟩
    · exact ⟨.inl hc, hr⟩

theorem open_snoc_removed (log : List Entry) (i id : UInt64) :
    Open (log ++ [removed i]) id ↔ id ≠ i ∧ Open log id := by
  simp only [Open, List.mem_append, List.mem_singleton, removed_inj, created_ne_removed, or_false]
  tauto

theorem live_snoc_created (log : List ServerPacket) (i id : UInt64) :
    Live (log ++ [.ofOpcode .createPlayer i]) id ↔ id = i ∨ Live log id := by
  by_cases hid : id = i
  · subst hid
    simp [live_snoc, liveStep]
  · simpa [hid] using live_snoc_of_ne (p := .ofOpcode .createPlayer i) (Ne.symm hid)

theorem live_snoc_removed (log : List ServerPacket) (i id : UInt64) :
    Live (log ++ [.ofOpcode .removePlayer i]) id ↔ id ≠ i ∧ Live log id := by
  by_cases hid : id = i
  · subst hid
    simp [live_snoc, liveStep]
  · simpa [hid] using live_snoc_of_ne (p := .ofOpcode .removePlayer i) (Ne.symm hid)

/-- In a log whose client packets are quiet, the players are those of the open
    sessions. -/
theorem live_iff_open {log : List Entry} (hordered : Ordered log) (hquiet : EachAfter Quiet log)
    (id : UInt64) : Live (log.map Prod.snd) id ↔ Open log id := by
  induction log using List.reverseRecOn generalizing id with
  | nil => simp [Live, Open]
  | append_singleton log e ih =>
    obtain ⟨hordered, hserver⟩ := EachAfter.snoc_iff.mp hordered
    obtain ⟨hquiet, hclient⟩ := EachAfter.snoc_iff.mp hquiet
    have ih := ih hordered hquiet
    rw [List.map_append, List.map_singleton]
    obtain ⟨origin, p⟩ := e
    cases origin with
    | client =>
      rw [open_snoc_client, ← ih]
      obtain ⟨hc, hr⟩ := hclient rfl
      by_cases hid : p.id = id
      · subst hid
        rw [live_snoc_self]
        -- a quiet `RemovePlayer` finds no player
        simp only [hc, false_or, and_iff_right_iff_imp]
        exact fun hlive hop => hr hop hlive
      · exact live_snoc_of_ne hid
    | server =>
      obtain ⟨i, ⟨he, hi⟩ | he⟩ := hserver rfl
      · rw [he, open_snoc_created hi, ← ih]
        exact live_snoc_created _ i id
      · rw [he, open_snoc_removed, ← ih]
        exact live_snoc_removed _ i id

/-! ## What the server pushes in a run -/

namespace System

variable {platform : Platform} {config : GameConfig} {σ σ' : System} {dt : ℚ}

/-- The log is in order, and it shows the sessions that are there. -/
structure Logged (σ : System) : Prop where
  ordered : Ordered σ.history
  created_of_mem : ∀ id, id ∈ σ.server.sessions → created id ∈ σ.history
  created_of_removed : ∀ id, removed id ∈ σ.history → created id ∈ σ.history

theorem logged_addSession {id : UInt64} (h : σ.Logged)
    (hstep : σ.step platform config (.addSession id) = some σ') : σ'.Logged := by
  obtain ⟨hfresh, rfl⟩ := step_addSession_eq_some.mp hstep
  have hlog : System.history (pushIn { σ with server := (σ.server.addSession id).1 } .server
      [.ofOpcode .createPlayer id]) = σ.history ++ [created id] := pushIn_history _ _
  refine ⟨?_, ?_, ?_⟩ <;> rw [hlog]
  · refine EachAfter.snoc_iff.mpr ⟨h.ordered, fun _ => ⟨id, .inl ⟨rfl, ?_⟩⟩⟩
    exact fun hr => hfresh (h.created_of_removed id hr)
  · intro j hj
    rw [List.mem_append, List.mem_singleton, created_inj]
    have hj : j = id ∨ j ∈ σ.server.sessions := by simpa [Server.addSession] using hj
    exact (hj.imp_right (h.created_of_mem j)).symm
  · intro j hj
    rw [List.mem_append, List.mem_singleton] at hj ⊢
    exact .inl (h.created_of_removed j (hj.resolve_right (created_ne_removed id j).symm))

theorem logged_closeSession {id : UInt64} (h : σ.Logged)
    (hstep : σ.step platform config (.closeSession id) = some σ') : σ'.Logged := by
  obtain rfl := step_closeSession_eq_some.mp hstep
  split_ifs with hmem
  · have hlog : System.history (pushIn { σ with server := (σ.server.closeSession id).1 } .server
        [.ofOpcode .removePlayer id]) = σ.history ++ [removed id] := pushIn_history _ _
    have hcreated := h.created_of_mem id hmem
    refine ⟨?_, ?_, ?_⟩ <;> rw [hlog]
    · exact EachAfter.snoc_iff.mpr ⟨h.ordered, fun _ => ⟨id, .inr rfl⟩⟩
    · intro j hj
      have hj : j ∈ σ.server.sessions := by
        simp only [pushIn_server, Server.closeSession, hmem, if_true, AList.mem_erase] at hj
        exact hj.2
      exact List.mem_append_left _ (h.created_of_mem j hj)
    · intro j hj
      rw [List.mem_append, List.mem_singleton, removed_inj] at hj
      rcases hj with hj | rfl
      · exact List.mem_append_left _ (h.created_of_removed j hj)
      · exact List.mem_append_left _ hcreated
  · exact h

theorem logged_receive {id : UInt64} {chunk : List UInt8} (h : σ.Logged)
    (hstep : σ.step platform config (.receive id chunk) = some σ') : σ'.Logged := by
  obtain ⟨-, rfl⟩ := step_receive_eq_some.mp hstep
  refine ⟨?_, ?_, ?_⟩ <;> rw [pushIn_history]
  · refine EachAfter.append_iff.mpr ⟨h.ordered, ?_⟩
    rintro pre ⟨origin, p⟩ post heq rfl
    have hmem : (Origin.server, p) ∈ ((σ.readers id).onRead id chunk).2.map
        fun p => (Origin.client, p) := heq ▸ by simp
    simp at hmem
  · exact fun j hj => List.mem_append_left _ (h.created_of_mem j hj)
  · intro j hj
    rcases List.mem_append.mp hj with hj | hj
    · exact List.mem_append_left _ (h.created_of_removed j hj)
    · simp [removed] at hj

/-- What the server pushes keeps to its law in every run. -/
theorem logged_step {e : Event} (hsound : σ.Sound) (h : σ.Logged)
    (hstep : σ.step platform config e = some σ') : σ'.Logged := by
  cases e with
  | addSession id => exact logged_addSession h hstep
  | closeSession id => exact logged_closeSession h hstep
  | receive id chunk => exact logged_receive h hstep
  | tick dt =>
    obtain ⟨world, net, -, rfl⟩ := step_tick_eq_some.mp hstep
    have hlog : System.history { σ with world, net, processed := σ.history, pending := [] } =
        σ.history := List.append_nil _
    exact ⟨by rw [hlog]; exact h.ordered, by rw [hlog]; exact h.created_of_mem,
      by rw [hlog]; exact h.created_of_removed⟩
  | send =>
    obtain ⟨packet, rest, server, -, hsend, rfl⟩ := step_send_eq_some.mp hstep
    have hsessions := Server.sender_sessions hsound.sessions hsend
    exact { h with created_of_mem := fun j hj => h.created_of_mem j (by rwa [← hsessions]) }

end System

theorem system_logged {platform : Platform} {config : GameConfig} {events : List Event}
    {σ : System} (h : SystemRun platform config events σ) : σ.Logged := by
  have hinit : System.Logged {} := ⟨EachAfter.nil, by simp, by simp [System.history]⟩
  refine (h.invariant (I := fun σ => σ.Sound ∧ σ.Logged) ⟨System.sound_init, hinit⟩ ?_).2
  rintro σ e σ' ⟨hsound, hlogged⟩ hstep
  exact ⟨System.sound_step hsound hstep, System.logged_step hsound hlogged hstep⟩

/-! ## Runs in which the clients keep out of the player map -/

/-- The client packets that the next tick will process are quiet. -/
def System.QuietBatch (σ : System) : Prop :=
  EachAfter (fun pre => Quiet (σ.processed ++ pre)) σ.pending

instance (σ : System) : Decidable σ.QuietBatch := inferInstanceAs (Decidable (EachAfter _ _))

/-- A step that, if it is a tick, processes only quiet client packets. -/
def QuietStep (platform : Platform) (config : GameConfig) (σ : System) (e : Event)
    (σ' : System) : Prop :=
  σ.step platform config e = some σ' ∧ (e.IsTick → σ.QuietBatch)

/-- A step that checks its guard. -/
def quietStep (platform : Platform) (config : GameConfig) (σ : System) (e : Event) :
    Option System :=
  if e.IsTick → σ.QuietBatch then σ.step platform config e else none

theorem quietStep_eq_some {platform : Platform} {config : GameConfig} {σ σ' : System} {e : Event} :
    quietStep platform config σ e = some σ' ↔ QuietStep platform config σ e σ' := by
  unfold quietStep QuietStep
  split_ifs with h
  · exact ⟨fun hstep => ⟨hstep, h⟩, fun hstep => hstep.1⟩
  · simp [h]

/-- From `w` to `w'` no player is added, removed or replaced: the players that are
    there are those that were, at most steered by a command. -/
def World.Keeps (dt : ℚ) (w w' : World) : Prop :=
  ∀ id, w'.player? id = w.player? id ∨
    ∃ o, World.IsCommand o ∧ w'.player? id = (w.player? id).map (World.command dt o)

theorem World.keeps_processInput {platform : Platform} {config : GameConfig} {dt : ℚ}
    {w w' : World} {log : List Entry} {p : ServerPacket} (hquiet : Quiet log (.client, p))
    (hagrees : World.Agrees (log.map Prod.snd) w)
    (h : w.processInput platform config dt p = some w') : World.Keeps dt w w' := by
  obtain ⟨hc, hr⟩ := hquiet rfl
  intro id
  rcases World.processInput_cases h with ⟨ho, -⟩ | ⟨ho, rfl⟩ | ⟨o, q, -, ho, hq, rfl⟩ | ⟨-, rfl⟩
  · exact absurd ho hc
  · left
    have hnone : w.player? p.id = none := by
      by_contra hcon
      exact hr ho ((hagrees p.id).mp hcon)
    rw [World.player?_removePlayer]
    split_ifs with hid
    · rw [hid, hnone]
    · exact World.player?_touch w p.id id
  · by_cases hid : id = p.id
    · right
      exact ⟨o, ho, by rw [World.player?_store, if_pos hid, hid, hq, Option.map_some]⟩
    · left
      rw [World.player?_store, if_neg hid, World.player?_touch]
  · exact .inl (World.player?_touch w p.id id)

/-- In every run in which the world processes only quiet client packets, the players
    are those of the sessions that are open by the packets processed so far; and a
    quiet client packet that is processed next, at any place of the next batch, adds,
    removes and replaces no player. -/
theorem membership_of_quiet {platform : Platform} {config : GameConfig} {events : List Event}
    {σ : System} (h : Run (QuietStep platform config) {} events σ) :
    (∀ id, id ∈ σ.world.players ↔ Open σ.processed id) ∧
      ∀ dt pre p post w w', σ.pending = pre ++ (.client, p) :: post →
        Quiet (σ.processed ++ pre) (.client, p) →
          σ.world.inputPhase platform config dt (pre.map Prod.snd) = some w →
            w.processInput platform config dt p = some w' → World.Keeps dt w w' := by
  have hrun : SystemRun platform config events σ := h.mono fun _ _ _ hstep => hstep.1
  have hsound := system_sound hrun
  have hquiet : EachAfter Quiet σ.processed := by
    apply h.invariant (I := fun σ => EachAfter Quiet σ.processed) EachAfter.nil
    rintro σ e σ' hσ ⟨hstep, htick⟩
    cases e with
    | tick dt =>
      obtain ⟨world, net, -, rfl⟩ := System.step_tick_eq_some.mp hstep
      exact EachAfter.append_iff.mpr ⟨hσ, htick trivial⟩
    | addSession id | closeSession id | receive id chunk | send =>
      rwa [System.processed_step hstep not_false]
  have hordered : Ordered σ.processed := (EachAfter.append_iff.mp (system_logged hrun).ordered).1
  constructor
  · intro id
    rw [← live_iff_open hordered hquiet, ← hsound.agrees id, World.player?]
    have hnull := hsound.not_null id
    rw [← AList.lookup_isSome]
    rcases hv : σ.world.players.lookup id with _ | _ | q
    · simp
    · exact absurd hv hnull
    · simp
  · intro dt pre p post w w' hpending hp hin hstep
    refine World.keeps_processInput hp ?_ hstep
    rw [List.map_append]
    exact World.agrees_inputPhase hsound.agrees hin

/-- Two sessions are added; then client `0` steers and session `1` is closed. -/
theorem membership_of_quiet_room : ∃ σ, Run (QuietStep .x86 .room) {}
      [.addSession 0, .addSession 1, .tick 1, .receive 0 [0x00, 0x12, 0, 0, 0, 0],
        .closeSession 1, .tick 1] σ ∧
    (0 ∈ σ.world.players ∧ 1 ∉ σ.world.players) ∧
    ((∀ id, id ∈ σ.world.players ↔ Open σ.processed id) ∧
      ∀ dt pre p post w w', σ.pending = pre ++ (.client, p) :: post →
        Quiet (σ.processed ++ pre) (.client, p) →
          σ.world.inputPhase .x86 .room dt (pre.map Prod.snd) = some w →
            w.processInput .x86 .room dt p = some w' → World.Keeps dt w w') := by
  have heval : ([Event.addSession 0, .addSession 1, .tick 1, .receive 0 [0x00, 0x12, 0, 0, 0, 0],
      .closeSession 1, .tick 1].foldlM (quietStep .x86 .room) {}).map (fun σ =>
        decide (0 ∈ σ.world.players ∧ 1 ∉ σ.world.players)) = some true := by decide +kernel
  obtain ⟨σ, hfold, hplayers⟩ := Option.map_eq_some_iff.mp heval
  have hrun : Run (QuietStep .x86 .room) {} _ σ :=
    (run_iff_foldlM.mpr hfold).mono fun _ _ _ hstep => quietStep_eq_some.mp hstep
  exact ⟨σ, hrun, of_decide_eq_true hplayers, membership_of_quiet hrun⟩

/-- A client sends the header of a `RemovePlayer` packet: its player is gone after the
    next tick, although its session is open. -/
theorem client_removePlayer_breaks_membership :
    ¬ ∀ events σ, SystemRun .x86 .room events σ →
      ∀ id, id ∈ σ.world.players ↔ Open σ.processed id := by
  intro hclaim
  have heval : ([Event.addSession 0, .tick 1, .receive 0 [0x00, 0x17, 0, 0, 0, 0],
      .tick 1].foldlM (System.step .x86 .room) {}).map (fun σ =>
        decide (0 ∉ σ.world.players ∧ created 0 ∈ σ.processed ∧ removed 0 ∉ σ.processed)) =
      some true := by decide +kernel
  obtain ⟨σ, hrun, hgone⟩ := Option.map_eq_some_iff.mp heval
  obtain ⟨hgone, hopen⟩ := of_decide_eq_true hgone
  exact hgone ((hclaim _ σ (run_iff_foldlM.mpr hrun) 0).mpr hopen)

end EndlessPeak
