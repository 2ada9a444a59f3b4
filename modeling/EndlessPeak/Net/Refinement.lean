import EndlessPeak.Net.Membership
import EndlessPeak.Net.Strand

/-!
# Sessions refine the events of the system

`System` lets sessions be added, closed and read from at any time, as long as an id
is added once and bytes come only from sessions that have been added. The sessions
of `Network`, with their state machine and their completion handlers, do nothing
else: every step of a session is at most one event of the system, whatever the
world and the sender do in between.

* `Network.begun_run`: what a session has started, in every run of the network.
* `Abstracts`: the relation between the two; `abstracts_step` is the simulation, and
  `abstracts_world` says that it outlasts the steps of the world and the sender.
* `network_refines_system`: every run of the network is a run of the system.
* `network_ordered`: so the law of the server's packets holds of the network.
-/

namespace EndlessPeak

open Lib

namespace Network

variable {σ σ' : Network} {id j : UInt64} {e : SessionEvent}

/-! ## What a session has started -/

/-- The server has not heard of a session whose accept is going on, and has heard of one
    that reads; a read that has completed got at most the bytes it asked for. -/
structure Begun (id : UInt64) (σ : Network) : Prop where
  fresh : (σ.session id).accept ≠ .idle → created id ∉ σ.log id
  reading : (σ.session id).read ≠ .idle → created id ∈ σ.log id
  bounded : ∀ chunk, (σ.session id).read = .completed (some chunk) →
    chunk.length ≤ (σ.session id).reader.limit

theorem begun_init (id : UInt64) : Begun id {} where
  fresh := by simp [log]
  reading h := absurd rfl h
  bounded := by simp

theorem Same.begun (hsame : Same j σ σ') (h : Begun j σ) : Begun j σ' := by
  obtain ⟨hsession, -, hlog⟩ := hsame
  exact ⟨hlog.symm ▸ hsession.symm ▸ h.fresh, hlog.symm ▸ hsession.symm ▸ h.reading,
    hsession.symm ▸ h.bounded⟩

theorem created_mem_disconnect : created id ∈ (σ.disconnect id).log id ↔ created id ∈ σ.log id := by
  rw [disconnect_log, List.mem_append]
  split_ifs
  · simp [created_ne_removed]
  · simp

theorem Begun.disconnect (h : Begun id σ) : Begun id (σ.disconnect id) where
  fresh := by
    rw [disconnect_session, created_mem_disconnect]
    exact h.fresh
  reading := by
    rw [disconnect_session, created_mem_disconnect]
    exact h.reading
  bounded := by
    rw [disconnect_session]
    exact h.bounded

/-- A change that leaves the accept and the reads alone, or ends a read. -/
theorem Begun.modify {f : Session → Session} (h : Begun id σ)
    (haccept : (f (σ.session id)).accept = (σ.session id).accept)
    (hread : (f (σ.session id)).read = .idle ∨
      (f (σ.session id)).read = (σ.session id).read ∧
        (f (σ.session id)).reader = (σ.session id).reader) : Begun id (σ.modify id f) := by
  refine ⟨?_, ?_, ?_⟩ <;> simp only [modify_self, modify_log]
  · rw [haccept]
    exact h.fresh
  · rcases hread with hread | ⟨hread, -⟩
    · exact fun hne => absurd hread hne
    · rw [hread]
      exact h.reading
  · rcases hread with hread | ⟨hread, hreader⟩
    · simp [hread]
    · rw [hread, hreader]
      exact h.bounded

theorem begun_step (h : Begun id σ) (hstep : σ.step (id, e) = some σ') : Begun id σ' := by
  cases e with
  | acceptDone success =>
    simp only [step, Option.ite_none_right_eq_some, Option.some_inj] at hstep
    obtain ⟨⟨haccept, -⟩, rfl⟩ := hstep
    exact ⟨fun _ => h.fresh (by simp [haccept]), by simpa using h.reading, by simpa using h.bounded⟩
  | readDone result =>
    simp only [step, Option.ite_none_right_eq_some, Option.some_inj] at hstep
    obtain ⟨⟨hread, hresult⟩, rfl⟩ := hstep
    refine ⟨by simpa using h.fresh, fun _ => h.reading (by simp [hread]), ?_⟩
    intro chunk hchunk
    simp only [modify_self, Op.completed.injEq] at hchunk ⊢
    exact (hresult chunk hchunk).2
  | writeDone success | startWrite =>
    simp only [step, Option.ite_none_right_eq_some, Option.some_inj] at hstep
    obtain ⟨-, rfl⟩ := hstep
    exact h.modify rfl (.inr ⟨rfl, rfl⟩)
  | acceptHandler =>
    obtain ⟨success, haccept, rfl⟩ := step_acceptHandler_eq_some.mp hstep
    unfold onAccept
    cases success with
    | true =>
      rw [processState_connected (by simp)]
      exact ⟨by simp, by simp [addSession_log], by simp⟩
    | false =>
      rw [processState_disconnecting (by simp)]
      refine ⟨by simp, ?_, ?_⟩
      · intro hread
        rw [modify_log, closeSession_log]
        exact List.mem_append_left _ (h.reading (by simpa using hread))
      · simpa using h.bounded
  | readHandler =>
    obtain ⟨result, hread, rfl⟩ := step_readHandler_eq_some.mp hstep
    cases result with
    | none => exact (h.modify rfl (.inl rfl)).disconnect
    | some chunk =>
      have hcreated := h.reading (by simp [hread])
      have haccept : (σ.session id).accept = .idle := by
        by_contra hne
        exact h.fresh hne hcreated
      refine ⟨?_, ?_, ?_⟩
      · simp [onRead, haccept]
      · intro _
        rw [onRead_log]
        exact List.mem_append_left _ hcreated
      · simp [onRead]
  | writeHandler =>
    obtain ⟨success, -, rfl⟩ := step_writeHandler_eq_some.mp hstep
    cases success with
    | true =>
      have hok : σ.onWrite id true =
          σ.modify id fun s => { s with write := .idle, sending := false } := rfl
      exact hok ▸ h.modify rfl (.inr ⟨rfl, rfl⟩)
    | false => exact (h.modify rfl (.inr ⟨rfl, rfl⟩)).disconnect

theorem begun_run {events : List (UInt64 × SessionEvent)} (h : NetworkRun events σ)
    (id : UInt64) : Begun id σ := by
  apply h.invariant (I := Begun id) (begun_init id)
  rintro τ ⟨j, e⟩ τ' hbegun hstep
  by_cases hj : id = j
  · subst hj
    exact begun_step hbegun hstep
  · exact (same_step hj hstep).begun hbegun

end Network

/-! ## The simulation -/

/-- What the session `id` does to the system. -/
def Event.OfSession (id : UInt64) : Event → Prop
  | .addSession j => j = id
  | .closeSession j => j = id
  | .receive j _ => j = id
  | _ => False

/-- The system has the sessions, the pushed packets and the readers of the network. -/
structure Abstracts (σ : Network) (τ : System) : Prop where
  sessions : τ.server.sessions = σ.server.sessions
  history : τ.history = σ.pushed
  readers : ∀ id, τ.readers id = (σ.session id).reader

variable {platform : Platform} {config : GameConfig} {σ σ' : Network} {τ τ' : System}
  {id : UInt64} {e : SessionEvent}

theorem abstracts_init : Abstracts {} {} := ⟨rfl, rfl, fun _ => rfl⟩

theorem created_mem_log : created id ∈ σ.log id ↔ created id ∈ σ.pushed := by
  simp [Network.log, created]

/-- A change that the system does not see. -/
theorem Abstracts.modify (h : Abstracts σ τ) (id : UInt64) (f : Session → Session)
    (hf : (f (σ.session id)).reader = (σ.session id).reader) : Abstracts (σ.modify id f) τ := by
  refine ⟨h.sessions, h.history, fun j => ?_⟩
  rw [h.readers, Network.modify_session]
  split_ifs with hj
  · rw [hj, hf]
  · rfl

section

variable (platform : Platform) (config : GameConfig)

theorem abstracts_addSession (h : Abstracts σ τ) (hfresh : created id ∉ σ.pushed) :
    ∃ τ', τ.step platform config (.addSession id) = some τ' ∧
      Abstracts (σ.addSession id) τ' := by
  refine ⟨_, System.step_addSession_eq_some.mpr ⟨h.history ▸ hfresh, rfl⟩, ?_, ?_, h.readers⟩
  · simp [Server.addSession, Network.addSession, h.sessions]
  · rw [System.pushIn_history]
    exact congrArg (· ++ [created id]) h.history

theorem abstracts_closeSession (h : Abstracts σ τ) (id : UInt64) :
    ∃ τ', τ.step platform config (.closeSession id) = some τ' ∧
      Abstracts (σ.closeSession id) τ' := by
  refine ⟨_, System.step_closeSession_eq_some.mpr rfl, ?_⟩
  by_cases hmem : id ∈ σ.server.sessions
  · have hmem' : id ∈ τ.server.sessions := h.sessions ▸ hmem
    rw [if_pos hmem']
    refine ⟨?_, ?_, h.readers⟩
    · simp [Server.closeSession, Network.closeSession, hmem, h.sessions]
    · have hpushed : (σ.closeSession id).pushed = σ.pushed ++ [removed id] := by
        simp [Network.closeSession, Server.closeSession, hmem, Network.push, removed]
      rw [System.pushIn_history, hpushed]
      exact congrArg (· ++ [removed id]) h.history
  · have hmem' : id ∉ τ.server.sessions := h.sessions ▸ hmem
    have hclose : σ.closeSession id = σ := by
      simp [Network.closeSession, Server.closeSession, hmem, Network.push]
    rw [if_neg hmem', hclose]
    exact h

/-- A session that has failed is closed by one `CloseSession`. -/
theorem abstracts_processState (h : Abstracts σ τ) (id : UInt64)
    (hstate : (σ.session id).state = .disconnecting) :
    ∃ τ', τ.step platform config (.closeSession id) = some τ' ∧
      Abstracts (σ.processState id) τ' := by
  rw [Network.processState_disconnecting hstate]
  obtain ⟨τ', hstep, h'⟩ := abstracts_closeSession platform config
    (h.modify id (fun s => { s with closed := true }) rfl) id
  exact ⟨τ', hstep, h'.modify id _ rfl⟩

theorem abstracts_disconnect (h : Abstracts σ τ) (id : UInt64) :
    ∃ τ', τ.step platform config (.closeSession id) = some τ' ∧
      Abstracts (σ.disconnect id) τ' :=
  abstracts_processState platform config (h.modify id _ rfl) id (by simp)

theorem abstracts_receive {chunk : List UInt8} (h : Abstracts σ τ)
    (hcreated : created id ∈ σ.pushed) (hlength : chunk.length ≤ (σ.session id).reader.limit) :
    ∃ τ', τ.step platform config (.receive id chunk) = some τ' ∧
      Abstracts (σ.onRead id (some chunk)) τ' := by
  have hguard : created id ∈ τ.history ∧ chunk.length ≤ (τ.readers id).limit :=
    ⟨h.history ▸ hcreated, h.readers id ▸ hlength⟩
  refine ⟨_, System.step_receive_eq_some.mpr ⟨hguard, rfl⟩, h.sessions, ?_, fun j => ?_⟩
  · rw [System.pushIn_history, h.readers]
    exact congrArg (· ++ Network.fromClient _) h.history
  · simp only [System.pushIn, Network.onRead, Network.push_session, Network.modify_session,
      Function.update_apply, h.readers]
    split_ifs <;> rfl

/-- A step of a session is one event of the system, or none. -/
theorem abstracts_step (h : Abstracts σ τ) (hbegun : Network.Begun id σ)
    (hstep : σ.step (id, e) = some σ') :
    Abstracts σ' τ ∨ ∃ event τ', event.OfSession id ∧ τ.step platform config event = some τ' ∧
      Abstracts σ' τ' := by
  cases e with
  | acceptDone success | readDone result | writeDone success | startWrite =>
    simp only [Network.step, Option.ite_none_right_eq_some, Option.some_inj] at hstep
    obtain ⟨-, rfl⟩ := hstep
    exact .inl (h.modify id _ rfl)
  | acceptHandler =>
    obtain ⟨success, haccept, rfl⟩ := Network.step_acceptHandler_eq_some.mp hstep
    have hfresh := mt created_mem_log.mpr (hbegun.fresh (by simp [haccept]))
    cases success with
    | true =>
      rw [Network.onAccept, Network.processState_connected (by simp)]
      obtain ⟨τ', hstep', h'⟩ := abstracts_addSession platform config
        (h.modify id (fun s => { s with accept := .idle, state := .connected }) rfl) hfresh
      exact .inr ⟨.addSession id, τ', rfl, hstep', h'.modify id _ rfl⟩
    | false =>
      have hmodify := h.modify id
        (fun s => { s with accept := .idle, state := .disconnecting }) rfl
      obtain ⟨τ', hstep', h'⟩ := abstracts_processState platform config hmodify id (by simp)
      exact .inr ⟨.closeSession id, τ', rfl, hstep', h'⟩
  | readHandler =>
    obtain ⟨result, hread, rfl⟩ := Network.step_readHandler_eq_some.mp hstep
    cases result with
    | none =>
      obtain ⟨τ', hstep', h'⟩ := abstracts_disconnect platform config
        (h.modify id (fun s => { s with read := .idle }) rfl) id
      exact .inr ⟨.closeSession id, τ', rfl, hstep', h'⟩
    | some chunk =>
      have hcreated := created_mem_log.mp (hbegun.reading (by simp [hread]))
      obtain ⟨τ', hstep', h'⟩ := abstracts_receive platform config h hcreated
        (hbegun.bounded chunk hread)
      exact .inr ⟨.receive id chunk, τ', rfl, hstep', h'⟩
  | writeHandler =>
    obtain ⟨success, -, rfl⟩ := Network.step_writeHandler_eq_some.mp hstep
    cases success with
    | true =>
      have hok : σ.onWrite id true =
          σ.modify id fun s => { s with write := .idle, sending := false } := rfl
      exact .inl (hok ▸ h.modify id _ rfl)
    | false =>
      obtain ⟨τ', hstep', h'⟩ := abstracts_disconnect platform config
        (h.modify id (fun s => { s with write := .idle }) rfl) id
      exact .inr ⟨.closeSession id, τ', rfl, hstep', h'⟩

end

/-- The world and the sender leave the sessions alone. -/
theorem abstracts_world (h : Abstracts σ τ) (hsound : τ.Sound) {event : Event}
    (hevent : ∀ id, ¬ event.OfSession id) (hstep : τ.step platform config event = some τ') :
    Abstracts σ τ' := by
  cases event with
  | addSession id | closeSession id | receive id _ => exact absurd rfl (hevent id)
  | tick dt =>
    obtain ⟨world, net, -, rfl⟩ := System.step_tick_eq_some.mp hstep
    exact ⟨h.sessions, (List.append_nil _).trans h.history, h.readers⟩
  | send =>
    obtain ⟨packet, rest, server, -, hsend, rfl⟩ := System.step_send_eq_some.mp hstep
    exact ⟨(Server.sender_sessions hsound.sessions hsend).trans h.sessions, h.history, h.readers⟩

/-- Every run of the network is a run of the system. -/
theorem network_refines_system (platform : Platform) (config : GameConfig)
    {events : List (UInt64 × SessionEvent)} (h : NetworkRun events σ) :
    ∃ systemEvents τ, SystemRun platform config systemEvents τ ∧ Abstracts σ τ := by
  induction h with
  | nil => exact ⟨[], {}, .nil, abstracts_init⟩
  | @snoc ls e σ σ' hrun hstep ih =>
    obtain ⟨systemEvents, τ, hsystem, habs⟩ := ih
    have hbegun := Network.begun_run hrun e.1
    rcases abstracts_step platform config habs hbegun hstep with
      habs' | ⟨event, τ', -, hstep', habs'⟩
    · exact ⟨systemEvents, τ, hsystem, habs'⟩
    · exact ⟨systemEvents ++ [event], τ', hsystem.snoc hstep', habs'⟩

/-- What holds of the packets the server pushes in the system holds in the network. -/
theorem network_ordered {events : List (UInt64 × SessionEvent)} (h : NetworkRun events σ) :
    Ordered σ.pushed := by
  obtain ⟨systemEvents, τ, hrun, habs⟩ := network_refines_system .x86 .room h
  exact habs.history ▸ (system_logged hrun).ordered

end EndlessPeak
