import EndlessPeak.Net.Endpoint

/-!
# The end of a session

A read and a write of one session can both fail, and each failure runs the teardown:
the second one stores `Disconnecting` again in a session that is `Disconnected`, and
`IsConnected` holds again for a while. `CloseSession` finds the session only once, and
in that while the flag is set for good: of the two failures one was that of a write.

Threads call `PushToSend` only on sessions that `AddSession` has stored.

* `Endpoint.Phase`: what the server has pushed about a session, by how far it has come
  (`phase_step`).
* `Endpoint.Silent`: once `Disconnected` has been stored, the flag is stuck whenever the
  state is something else (`silent_step`).
* `teardown_once`: one `CreatePlayer` and one `RemovePlayer` at most, and no write from a
  `Send` that finds the session disconnected once before.
-/

namespace EndlessPeak

open Lib

/-! ## The runs -/

/-- A thread calls `PushToSend` only on a session that has been added. -/
def Admitted (σ : Hub) : UInt64 × EndpointEvent → Prop
  | (id, .push _ _) => (σ.endpoint id).added = true
  | _ => True

instance (σ : Hub) (e : UInt64 × EndpointEvent) : Decidable (Admitted σ e) := by
  obtain ⟨id, event⟩ := e
  cases event <;> unfold Admitted <;> infer_instance

/-- A step that is admitted. -/
def Hub.admittedStep (σ : Hub) (e : UInt64 × EndpointEvent) : Option Hub :=
  if Admitted σ e then σ.step e else none

/-- The events can happen in this order from the start of the server, every `PushToSend`
    on a session that has been added, and lead to the last argument. -/
def TeardownRun : List (UInt64 × EndpointEvent) → Hub → Prop :=
  Run (stepRel Hub.admittedStep) {}

theorem admittedStep_eq_some {σ σ' : Hub} {e : UInt64 × EndpointEvent} :
    σ.admittedStep e = some σ' ↔ Admitted σ e ∧ σ.step e = some σ' :=
  Option.ite_none_right_eq_some

theorem TeardownRun.hubRun {events : List (UInt64 × EndpointEvent)} {σ : Hub}
    (h : TeardownRun events σ) : HubRun events σ :=
  h.mono fun _ _ _ hstep => (admittedStep_eq_some.mp hstep).2

/-- No handler is running, or that of a read or of a write that has succeeded. -/
def Place.Quiet : Place → Prop
  | .idle | .pushPackets _ | .readNext => True
  | _ => False

/-- The handler of a read that has succeeded, or of the accept that has added the
    session, is about to start a read. -/
def Place.Reads : Place → Prop
  | .pushPackets _ | .readNext => True
  | _ => False

/-- A thread there has seen that the session is not disconnected, and goes on. -/
def Pc.Passed : Pc → Prop
  | .empty | .startSending | .tryPop | .asyncWrite _ => True
  | _ => False

namespace Endpoint

variable {e e' : Endpoint} {id : UInt64} {live live' : Bool} {log out : List Entry}
  {event : EndpointEvent}

/-! ## Sessions that have not been added -/

/-- Nobody has called `PushToSend` before the session is added. -/
def Unused (e : Endpoint) : Prop :=
  e.added = false → e.send.outstanding = 0 ∧ ∀ u, e.send.pc u = .idle

theorem handle_added (h : e.handle id live = some (e', live', out)) (hadded : e'.added = false) :
    e.added = false := by
  unfold handle store at h
  split at h
  case h_1 => simp at h
  case h_4 => split at h <;> cases h <;> exact hadded
  case h_5 =>
    cases h
    simp at hadded
  case h_11 => split_ifs at h <;> cases h <;> exact hadded
  all_goals
    cases h
    exact hadded

theorem unused_step (h : e.Unused) (hadmitted : ∀ t buf, event = .push t buf → e.added = true)
    (hstep : e.step id live event = some (e', live', out)) : e'.Unused := by
  intro hadded
  cases step_cases hstep with
  | accepted | refused | readFailed | read => exact h hadded
  | written send hidle hsend =>
    have hzero := (h hadded).1
    cases SendSide.step_cases hsend with
    | complete t hpc hpos => omega
  | writeFailed hpos hfree =>
    have hzero := (h hadded).1
    omega
  | handle hhandle =>
    obtain ⟨⟨state, hsend⟩, -⟩ := handle_send hhandle
    rw [hsend]
    exact h (handle_added hhandle hadded)
  | push t buf send hsend => exact absurd (hadmitted t buf rfl) (by simpa using hadded)
  | send u send hsend =>
    have hsame : e.added = false := by
      unfold sent at hadded
      split at hadded <;> exact hadded
    have hidle := (h hsame).2 u
    simp [SendSide.step, SendSide.exec, hidle] at hsend

/-! ## The phases of a session -/

/-- The handler of a successful accept is on its way to the session map. -/
def Joining (e : Endpoint) : Prop :=
  e.handler = .setConnected ∨ (e.handler = .getState ∧ e.send.state = .connected) ∨
    e.handler = .insertSession

/-- The handler of an operation that has failed is on its way to the session map. -/
def Failing (e : Endpoint) : Prop :=
  e.handler = .setDisconnecting ∨ (e.handler = .getState ∧ e.send.state = .disconnecting) ∨
    e.handler = .close ∨ e.handler = .eraseSession

/-- Nothing has happened yet but the accept. -/
structure New (e : Endpoint) : Prop where
  reads : e.reads = 0
  errors : e.errors = 0
  ever : e.everDisconnected = false

/-- How far a session has come, whether it is in `sessions_`, and what the server has
    pushed about it. -/
inductive Phase (id : UInt64) (e : Endpoint) : Bool → List Entry → Prop
  | waiting (haccept : e.accept = none) (hadded : e.added = false) (hnew : e.New)
      (hplace : e.handler = .idle) : Phase id e false []
  | joining (haccept : e.accept = some true) (hadded : e.added = false) (hnew : e.New)
      (hplace : e.Joining) : Phase id e false []
  | adding (haccept : e.accept = some true) (hadded : e.added = true) (hnew : e.New)
      (hplace : e.handler = .pushCreate) : Phase id e true []
  | joined (haccept : e.accept = some true) (hadded : e.added = true) (herrors : e.errors = 0)
      (hplace : e.handler.Quiet) : Phase id e true [created id]
  | failing (haccept : e.accept = some true) (hadded : e.added = true) (herrors : 0 < e.errors)
      (hplace : e.Failing) : Phase id e true [created id]
  | removing (haccept : e.accept = some true) (hadded : e.added = true) (herrors : 0 < e.errors)
      (hplace : e.handler = .pushRemove) : Phase id e false [created id]
  | removed (haccept : e.accept = some true) (hadded : e.added = true) (herrors : 0 < e.errors)
      (hplace : e.Failing ∨ e.handler = .setDisconnected ∨ e.handler.Quiet) :
      Phase id e false [created id, removed id]
  | refused (haccept : e.accept = some false) (hadded : e.added = false) (hreads : e.reads = 0)
      (herrors : 0 < e.errors)
      (hplace : e.Failing ∨ e.handler = .setDisconnected ∨ e.handler = .idle) :
      Phase id e false []

/-- What a session keeps while its handler is at work. -/
structure SameLife (e e' : Endpoint) : Prop where
  accept : e'.accept = e.accept
  added : e'.added = e.added
  reads : e'.reads = e.reads
  errors : e'.errors = e.errors

/-- The handler of a failed operation goes on, or takes the session out of the map, or
    does not find it there. -/
theorem failing_handle (h : e.Failing) (hstep : e.handle id live = some (e', live', out)) :
    SameLife e e' ∧ out = [] ∧ (e'.Failing ∧ live' = live ∨
      e'.handler = .pushRemove ∧ live = true ∧ live' = false ∨
      e'.handler = .setDisconnected ∧ live = false ∧ live' = false) := by
  rcases h with hplace | ⟨hplace, hstate⟩ | hplace | hplace
  · simp only [handle, hplace] at hstep
    cases hstep
    exact ⟨⟨rfl, rfl, rfl, rfl⟩, rfl, .inl ⟨.inr (.inl ⟨rfl, rfl⟩), rfl⟩⟩
  · simp only [handle, hplace, hstate] at hstep
    cases hstep
    exact ⟨⟨rfl, rfl, rfl, rfl⟩, rfl, .inl ⟨.inr (.inr (.inl rfl)), rfl⟩⟩
  · simp only [handle, hplace] at hstep
    cases hstep
    exact ⟨⟨rfl, rfl, rfl, rfl⟩, rfl, .inl ⟨.inr (.inr (.inr rfl)), rfl⟩⟩
  · cases live with
    | true =>
      simp only [handle, hplace, if_true] at hstep
      cases hstep
      exact ⟨⟨rfl, rfl, rfl, rfl⟩, rfl, .inr (.inl ⟨rfl, rfl, rfl⟩)⟩
    | false =>
      simp only [handle, hplace, Bool.false_eq_true, if_false] at hstep
      cases hstep
      exact ⟨⟨rfl, rfl, rfl, rfl⟩, rfl, .inr (.inr ⟨rfl, rfl, rfl⟩)⟩

theorem failing_handle_gone (h : e.Failing)
    (hstep : e.handle id false = some (e', live', out)) :
    SameLife e e' ∧ out = [] ∧ live' = false ∧
      (e'.Failing ∨ e'.handler = .setDisconnected) := by
  obtain ⟨hsame, hout, ⟨hplace, hlive⟩ | ⟨-, hlive, -⟩ | ⟨hplace, -, hlive⟩⟩ :=
    failing_handle h hstep
  · exact ⟨hsame, hout, hlive, .inl hplace⟩
  · cases hlive
  · exact ⟨hsame, hout, hlive, .inr hplace⟩

/-- The handler of a read or of a write that has succeeded pushes packets of the client
    at most. -/
theorem quiet_handle (h : e.handler.Quiet) (hstep : e.handle id live = some (e', live', out)) :
    e'.handler.Quiet ∧ live' = live ∧ Hub.byServer id out = [] ∧ e'.accept = e.accept ∧
      e'.added = e.added ∧ e'.errors = e.errors := by
  cases hplace : e.handler with
  | idle => simp [handle, hplace] at hstep
  | pushPackets packets =>
    cases packets with
    | nil =>
      simp only [handle, hplace] at hstep
      cases hstep
      exact ⟨trivial, rfl, rfl, rfl, rfl, rfl⟩
    | cons packet packets =>
      simp only [handle, hplace] at hstep
      cases hstep
      exact ⟨trivial, rfl, by simp [Hub.byServer], rfl, rfl, rfl⟩
  | readNext =>
    simp only [handle, hplace] at hstep
    cases hstep
    exact ⟨trivial, rfl, rfl, rfl, rfl, rfl⟩
  | setConnected | setDisconnecting | getState | insertSession | pushCreate | close
  | eraseSession | pushRemove | setDisconnected =>
    rw [hplace] at h
    exact h.elim

/-- A handler goes through the phases in order. -/
theorem phase_handle (h : Phase id e live log)
    (hstep : e.handle id live = some (e', live', out)) :
    Phase id e' live' (log ++ Hub.byServer id out) := by
  cases h with
  | waiting haccept hadded hnew hplace => simp [handle, hplace] at hstep
  | joining haccept hadded hnew hplace =>
    rcases hplace with hplace | ⟨hplace, hstate⟩ | hplace
    · simp only [handle, hplace] at hstep
      cases hstep
      exact .joining haccept hadded ⟨hnew.reads, hnew.errors, hnew.ever⟩
        (.inr (.inl ⟨rfl, rfl⟩))
    · simp only [handle, hplace, hstate] at hstep
      cases hstep
      exact .joining haccept hadded ⟨hnew.reads, hnew.errors, hnew.ever⟩ (.inr (.inr rfl))
    · simp only [handle, hplace] at hstep
      cases hstep
      exact .adding haccept rfl ⟨hnew.reads, hnew.errors, hnew.ever⟩ rfl
  | adding haccept hadded hnew hplace =>
    simp only [handle, hplace] at hstep
    cases hstep
    have hlog : [] ++ Hub.byServer id [created id] = [created id] := by
      simp [Hub.byServer, created]
    rw [hlog]
    exact .joined haccept hadded hnew.errors trivial
  | joined haccept hadded herrors hplace =>
    obtain ⟨hplace', rfl, hout, ha, hadd, herr⟩ := quiet_handle hplace hstep
    rw [hout, List.append_nil]
    exact .joined (ha.trans haccept) (hadd.trans hadded) (herr.trans herrors) hplace'
  | failing haccept hadded herrors hplace =>
    obtain ⟨hsame, rfl, hcase⟩ := failing_handle hplace hstep
    have ha := hsame.accept.trans haccept
    have hadd := hsame.added.trans hadded
    have herr : 0 < e'.errors := hsame.errors ▸ herrors
    rcases hcase with ⟨hplace', rfl⟩ | ⟨hplace', -, rfl⟩ | ⟨-, hlive, -⟩
    · exact .failing ha hadd herr hplace'
    · exact .removing ha hadd herr hplace'
    · cases hlive
  | removing haccept hadded herrors hplace =>
    simp only [handle, hplace] at hstep
    cases hstep
    have hlog : [created id] ++ Hub.byServer id [removed id] =
        [created id, removed id] := by
      simp [Hub.byServer, removed]
    rw [hlog]
    exact .removed haccept hadded herrors (.inr (.inl rfl))
  | removed haccept hadded herrors hplace =>
    rcases hplace with hplace | hplace | hplace
    · obtain ⟨hsame, rfl, rfl, hplace'⟩ := failing_handle_gone hplace hstep
      have ha := hsame.accept.trans haccept
      have hadd := hsame.added.trans hadded
      have herr : 0 < e'.errors := hsame.errors ▸ herrors
      exact .removed ha hadd herr (hplace'.imp_right .inl)
    · simp only [handle, hplace] at hstep
      cases hstep
      exact .removed haccept hadded herrors (.inr (.inr trivial))
    · obtain ⟨hplace', rfl, hout, ha, hadd, herr⟩ := quiet_handle hplace hstep
      rw [hout, List.append_nil]
      exact .removed (ha.trans haccept) (hadd.trans hadded) (herr ▸ herrors) (.inr (.inr hplace'))
  | refused haccept hadded hreads herrors hplace =>
    rcases hplace with hplace | hplace | hplace
    · obtain ⟨hsame, rfl, rfl, hplace'⟩ := failing_handle_gone hplace hstep
      have ha := hsame.accept.trans haccept
      have hadd := hsame.added.trans hadded
      have hread := hsame.reads.trans hreads
      have herr : 0 < e'.errors := hsame.errors ▸ herrors
      exact .refused ha hadd hread herr (hplace'.imp_right .inl)
    · simp only [handle, hplace] at hstep
      cases hstep
      exact .refused haccept hadded hreads herrors (.inr (.inr rfl))
    · simp [handle, hplace] at hstep

theorem phase_congr (h : Phase id e live log) (hsame : SameLife e e')
    (hplace : e'.handler = e.handler) (hstate : e'.send.state = e.send.state)
    (hever : e'.everDisconnected = e.everDisconnected) : Phase id e' live log := by
  have hnew' : e.New → e'.New := fun hnew =>
    ⟨hsame.reads.trans hnew.reads, hsame.errors.trans hnew.errors, hever.trans hnew.ever⟩
  have hjoining : e.Joining → e'.Joining := by
    intro hp
    unfold Joining
    rw [hplace, hstate]
    exact hp
  have hfailing : e.Failing → e'.Failing := by
    intro hp
    unfold Failing
    rw [hplace, hstate]
    exact hp
  have haccept' := hsame.accept
  have hadded' := hsame.added
  have herrors' : 0 < e.errors → 0 < e'.errors := fun herrors => hsame.errors ▸ herrors
  cases h with
  | waiting haccept hadded hnew hp =>
    exact .waiting (haccept'.trans haccept) (hadded'.trans hadded) (hnew' hnew) (hplace.trans hp)
  | joining haccept hadded hnew hp =>
    exact .joining (haccept'.trans haccept) (hadded'.trans hadded) (hnew' hnew) (hjoining hp)
  | adding haccept hadded hnew hp =>
    exact .adding (haccept'.trans haccept) (hadded'.trans hadded) (hnew' hnew) (hplace.trans hp)
  | joined haccept hadded herrors hp =>
    exact .joined (haccept'.trans haccept) (hadded'.trans hadded) (hsame.errors.trans herrors)
      (hplace ▸ hp)
  | failing haccept hadded herrors hp =>
    exact .failing (haccept'.trans haccept) (hadded'.trans hadded) (herrors' herrors)
      (hfailing hp)
  | removing haccept hadded herrors hp =>
    exact .removing (haccept'.trans haccept) (hadded'.trans hadded) (herrors' herrors)
      (hplace.trans hp)
  | removed haccept hadded herrors hp =>
    exact .removed (haccept'.trans haccept) (hadded'.trans hadded) (herrors' herrors)
      (hp.imp hfailing fun hp => hplace ▸ hp)
  | refused haccept hadded hreads herrors hp =>
    exact .refused (haccept'.trans haccept) (hadded'.trans hadded) (hsame.reads.trans hreads)
      (herrors' herrors) (hp.imp hfailing fun hp => hplace ▸ hp)

/-- An accept completes only once, and first. -/
theorem waiting_of_accept (h : Phase id e live log) (haccept : e.accept = none) :
    e.added = false ∧ e.New ∧ live = false ∧ log = [] := by
  cases h with
  | waiting _ hadded hnew => exact ⟨hadded, hnew, rfl, rfl⟩
  | joining ha | adding ha | joined ha | failing ha | removing ha | removed ha | refused ha =>
    rw [ha] at haccept
    cases haccept

/-- Between two handlers an added session is in the map, or it has been removed. -/
theorem joined_or_removed (h : Phase id e live log) (hfree : e.Free) (hadded : e.added = true) :
    e.accept = some true ∧ (live = true ∧ log = [created id] ∧ e.errors = 0 ∨
      live = false ∧ log = [created id, removed id] ∧ 0 < e.errors) := by
  have hidle := hfree.1
  cases h with
  | waiting _ hnot | joining _ hnot | refused _ hnot =>
    rw [hnot] at hadded
    cases hadded
  | adding _ _ _ hp | removing _ _ _ hp =>
    rw [hidle] at hp
    cases hp
  | failing _ _ _ hp => simp [Failing, hidle] at hp
  | joined ha _ herrors _ => exact ⟨ha, .inl ⟨rfl, rfl, herrors⟩⟩
  | removed ha _ herrors _ => exact ⟨ha, .inr ⟨rfl, rfl, herrors⟩⟩

/-- When an operation fails that only an added session has, the teardown starts; it does
    so again if the session has been removed before. -/
theorem phase_fail (h : Phase id e live log) (hfree : e.Free) (hadded : e.added = true)
    (haccept : e'.accept = e.accept) (hadded' : e'.added = e.added) (herrors : 0 < e'.errors)
    (hplace : e'.handler = .setDisconnecting) : Phase id e' live log := by
  obtain ⟨ha, ⟨rfl, rfl, -⟩ | ⟨rfl, rfl, -⟩⟩ := joined_or_removed h hfree hadded
  · exact .failing (haccept.trans ha) (hadded'.trans hadded) herrors (.inl hplace)
  · exact .removed (haccept.trans ha) (hadded'.trans hadded) herrors (.inl (.inl hplace))

/-- Only a session that has been added reads. -/
theorem added_of_reads (h : Phase id e live log) (hpos : 0 < e.reads) : e.added = true := by
  cases h with
  | waiting _ _ hnew | joining _ _ hnew =>
    have hzero := hnew.reads
    omega
  | refused _ _ hzero => omega
  | adding _ hadded | joined _ hadded | failing _ hadded | removing _ hadded
  | removed _ hadded => exact hadded

/-- Every step leads to the same phase or to the next one. -/
theorem phase_step (hunused : e.Unused) (h : Phase id e live log)
    (hstep : e.step id live event = some (e', live', out)) :
    Phase id e' live' (log ++ Hub.byServer id out) := by
  cases step_cases hstep with
  | accepted haccept hfree =>
    obtain ⟨hadded, hnew, rfl, rfl⟩ := waiting_of_accept h haccept
    exact .joining rfl hadded ⟨hnew.reads, hnew.errors, hnew.ever⟩ (.inl rfl)
  | refused haccept hfree =>
    obtain ⟨hadded, hnew, rfl, rfl⟩ := waiting_of_accept h haccept
    exact .refused rfl hadded hnew.reads (Nat.succ_pos _) (.inl (.inl rfl))
  | readFailed hpos hfree =>
    rw [Hub.byServer_nil, List.append_nil]
    exact phase_fail h hfree (added_of_reads h hpos) rfl rfl (Nat.succ_pos _) rfl
  | read chunk hpos hfree =>
    rw [Hub.byServer_nil, List.append_nil]
    have hadded := added_of_reads h hpos
    obtain ⟨ha, ⟨rfl, rfl, herrors⟩ | ⟨rfl, rfl, herrors⟩⟩ := joined_or_removed h hfree hadded
    · exact .joined ha hadded herrors trivial
    · exact .removed ha hadded herrors (.inr (.inr trivial))
  | written send hidle hsend =>
    rw [Hub.byServer_nil, List.append_nil]
    exact phase_congr h ⟨rfl, rfl, rfl, rfl⟩ rfl (SendSide.state_step hsend) rfl
  | writeFailed hpos hfree =>
    rw [Hub.byServer_nil, List.append_nil]
    have hadded : e.added = true := by
      by_contra hnot
      have hzero := (hunused (by simpa using hnot)).1
      omega
    exact phase_fail h hfree hadded rfl rfl (Nat.succ_pos _) rfl
  | handle hhandle => exact phase_handle h hhandle
  | push t buf send hsend =>
    rw [Hub.byServer_nil, List.append_nil]
    exact phase_congr h ⟨rfl, rfl, rfl, rfl⟩ rfl (SendSide.state_step hsend) rfl
  | send u send hsend =>
    rw [Hub.byServer_nil, List.append_nil]
    have hstate : (e.sent u send).send.state = e.send.state := by
      rw [sent_send]
      exact SendSide.state_step hsend
    unfold sent at hstate ⊢
    split <;> exact phase_congr h ⟨rfl, rfl, rfl, rfl⟩ rfl (SendSide.state_step hsend) rfl

/-! ## The flag is stuck -/

/-- Once an operation has failed and the reading goes on, and once `Disconnected` has been
    stored and the state is something else, the flag is set for good; so no `Send` gets
    further that has begun after `Disconnected` was stored. -/
structure Silent (e : Endpoint) : Prop where
  reads : e.reads ≤ 1
  reading : e.handler.Reads → e.reads = 0
  errors : e.everDisconnected = true → 0 < e.errors
  stillReading : 0 < e.errors → 0 < e.reads ∨ e.handler.Reads → e.send.Lost
  again : e.everDisconnected = true → e.handler = .setDisconnecting → e.send.Lost
  window : e.everDisconnected = true → e.send.state ≠ .disconnected → e.send.Lost
  late : ∀ u, e.late u = true → (e.send.pc u).Passed → e.send.Lost
  noLateWrite : e.lateWrite = false

/-- A step of the handler, as far as the reading and the state are concerned. -/
structure Handled (e e' : Endpoint) : Prop where
  errors : e'.errors = e.errors
  late : e'.late = e.late
  lateWrite : e'.lateWrite = e.lateWrite
  again : e'.handler ≠ .setDisconnecting
  reads : e'.reads = e.reads ∨
    e.handler = .readNext ∧ e'.handler = .idle ∧ e'.reads = e.reads + 1
  reading : e'.handler.Reads → (e.handler.Reads ∨ e.handler = .pushCreate) ∧ e'.reads = e.reads
  state : e'.send.state = .disconnected ∨ e'.everDisconnected = e.everDisconnected ∧
    (e'.send.state = e.send.state ∨ e.handler = .setConnected ∨ e.handler = .setDisconnecting)
  ever : e'.everDisconnected = true → e.everDisconnected = true ∨ e.handler = .setDisconnected

theorem handled_of_handle (h : e.handle id live = some (e', live', out)) : Handled e e' := by
  unfold handle store at h
  cases hplace : e.handler with
  | idle => simp [hplace] at h
  | getState =>
    simp only [hplace] at h
    split at h <;> cases h <;> constructor <;> simp +contextual [Place.Reads]
  | eraseSession =>
    simp only [hplace] at h
    split_ifs at h <;> cases h <;> constructor <;> simp +contextual [Place.Reads]
  | pushPackets packets =>
    cases packets <;> simp only [hplace] at h <;> cases h <;> constructor <;>
      simp [hplace, Place.Reads]
  | setConnected | setDisconnecting | insertSession | pushCreate | readNext | close
  | pushRemove | setDisconnected =>
    simp only [hplace] at h
    cases h
    constructor <;> simp [hplace, Place.Reads]

end Endpoint

namespace SendSide

variable {σ σ' : SendSide} {event : SendEvent} {v : ℕ}

/-- A thread gets past the check of the state only there. -/
theorem passed_step (hstep : σ.step event = some σ') (h : (σ'.pc v).Passed) :
    (σ.pc v).Passed ∨ event = .step v ∧ σ.pc v = .isConnected ∧ σ.state ≠ .disconnected := by
  have hmove : ∀ u pc, ((σ.goto u pc).pc v).Passed → v ≠ u → (σ.pc v).Passed := by
    intro u pc hpassed hne
    rwa [goto_pc, if_neg hne] at hpassed
  cases event with
  | push t buf =>
    simp only [step, Option.ite_none_right_eq_some, Option.some_inj] at hstep
    obtain ⟨-, rfl⟩ := hstep
    left
    apply hmove t _ h
    rintro rfl
    simp [goto, Pc.Passed] at h
  | complete t =>
    simp only [step, Option.ite_none_right_eq_some, Option.some_inj] at hstep
    obtain ⟨-, rfl⟩ := hstep
    left
    apply hmove t _ h
    rintro rfl
    simp [goto, Pc.Passed] at h
  | step t =>
    by_cases hv : v = t
    · subst hv
      simp only [step, exec] at hstep
      cases hpc : σ.pc v with
      | idle => simp [hpc] at hstep
      | isConnected =>
        simp only [hpc, Option.some_inj] at hstep
        subst hstep
        refine .inr ⟨rfl, rfl, ?_⟩
        intro hstate
        simp [goto, hstate, Pc.Passed] at h
      | empty | startSending | tryPop | asyncWrite => exact .inl trivial
      | clear =>
        simp only [hpc, Option.some_inj] at hstep
        subst hstep
        simp [goto, Pc.Passed] at h
      | checkEmpty =>
        simp only [hpc, Option.some_inj] at hstep
        subst hstep
        simp only [goto, Function.update_self] at h
        split_ifs at h <;> exact h.elim
    · left
      cases step_cases hstep with
      | look | busy | take | popNothing | pop | write | clear => exact hmove t _ h hv

theorem lost_state (state : SessionState) (h : Lost σ) : Lost { σ with state } :=
  ⟨h.sending, h.holds, h.outstanding⟩

end SendSide

namespace Endpoint

variable {e e' : Endpoint} {id : UInt64} {live live' : Bool} {log out : List Entry}
  {event : EndpointEvent}

/-- Before the first read nothing has failed. -/
theorem new_of_joining (h : Phase id e live log)
    (hplace : e.handler = .setConnected ∨ e.handler = .pushCreate) : e.New := by
  cases h with
  | waiting _ _ hnew | joining _ _ hnew | adding _ _ hnew => exact hnew
  | joined _ _ _ hp => rcases hplace with hplace | hplace <;> simp [hplace, Place.Quiet] at hp
  | failing _ _ _ hp => rcases hplace with hplace | hplace <;> simp [hplace, Failing] at hp
  | removing _ _ _ hp => rcases hplace with hplace | hplace <;> simp [hplace] at hp
  | removed _ _ _ hp =>
    rcases hplace with hplace | hplace <;> simp [hplace, Failing, Place.Quiet] at hp
  | refused _ _ _ _ hp => rcases hplace with hplace | hplace <;> simp [hplace, Failing] at hp

/-- Only the handler of a failed operation stores `Disconnected`. -/
theorem errors_of_setDisconnected (h : Phase id e live log)
    (hplace : e.handler = .setDisconnected) : 0 < e.errors := by
  cases h with
  | removed _ _ herrors | refused _ _ _ herrors | failing _ _ herrors
  | removing _ _ herrors => exact herrors
  | waiting _ _ _ hp | adding _ _ _ hp => simp [hplace] at hp
  | joining _ _ _ hp => simp [hplace, Joining] at hp
  | joined _ _ _ hp => simp [hplace, Place.Quiet] at hp

theorem silent_handle (hphase : Phase id e live log) (h : e.Silent)
    (hstep : e.handle id live = some (e', live', out)) : e'.Silent := by
  have hh := handled_of_handle hstep
  obtain ⟨⟨state, hsend⟩, -⟩ := handle_send hstep
  have hlost : e.send.Lost → e'.send.Lost := by
    intro hlost
    rw [hsend]
    exact SendSide.lost_state state hlost
  have hever : e'.everDisconnected = true → e'.send.state ≠ .disconnected →
      e.everDisconnected = true ∧
        (e'.send.state = e.send.state ∨ e.handler = .setConnected ∨
          e.handler = .setDisconnecting) := by
    intro hev hstate
    rcases hh.state with hdisc | ⟨hsame, hcase⟩
    · exact absurd hdisc hstate
    · exact ⟨hsame ▸ hev, hcase⟩
  constructor
  · rcases hh.reads with hsame | ⟨hnext, -, hsucc⟩
    · rw [hsame]
      exact h.reads
    · rw [hsucc, h.reading (by simp [hnext, Place.Reads])]
  · intro hreads
    obtain ⟨hbefore | hcreate, hsame⟩ := hh.reading hreads
    · rw [hsame]
      exact h.reading hbefore
    · rw [hsame]
      exact (new_of_joining hphase (.inr hcreate)).reads
  · intro hev
    rw [hh.errors]
    rcases hh.ever hev with hev | hplace
    · exact h.errors hev
    · exact errors_of_setDisconnected hphase hplace
  · intro herrors hreading
    rw [hh.errors] at herrors
    have hbefore : 0 < e.reads ∨ e.handler.Reads := by
      rcases hreading with hpos | hreads
      · rcases hh.reads with hsame | ⟨hnext, -, -⟩
        · exact .inl (hsame ▸ hpos)
        · exact .inr (by simp [hnext, Place.Reads])
      · obtain ⟨hbefore | hcreate, -⟩ := hh.reading hreads
        · exact .inr hbefore
        · have hzero := (new_of_joining hphase (.inr hcreate)).errors
          omega
    exact hlost (h.stillReading herrors hbefore)
  · exact fun _ hplace => absurd hplace hh.again
  · intro hev hstate
    obtain ⟨hev', hsame | hconnected | hdisconnecting⟩ := hever hev hstate
    · exact hlost (h.window hev' (hsame ▸ hstate))
    · have hnew := (new_of_joining hphase (.inl hconnected)).ever
      rw [hnew] at hev'
      cases hev'
    · exact hlost (h.again hev' hdisconnecting)
  · intro u hlate hpassed
    rw [hh.late] at hlate
    rw [hsend] at hpassed
    exact hlost (h.late u hlate hpassed)
  · rw [hh.lateWrite]
    exact h.noLateWrite

theorem silent_of_send {event : SendEvent} (h : e.Silent)
    (hsend : e.send.step event = some e'.send) (hreads : e'.reads = e.reads)
    (hplace : e'.handler = e.handler) (herrors : e'.errors = e.errors)
    (hever : e'.everDisconnected = e.everDisconnected)
    (hlate : ∀ u, e'.late u = true → (e'.send.pc u).Passed → e'.send.Lost)
    (hwrite : e'.lateWrite = false) : e'.Silent := by
  have hlost : e.send.Lost → e'.send.Lost := fun hlost => (SendSide.lost_step hlost hsend).1
  constructor
  · rw [hreads]
    exact h.reads
  · rw [hplace, hreads]
    exact h.reading
  · rw [hever, herrors]
    exact h.errors
  · rw [herrors, hreads, hplace]
    exact fun herr hreading => hlost (h.stillReading herr hreading)
  · rw [hever, hplace]
    exact fun hev hp => hlost (h.again hev hp)
  · rw [hever, SendSide.state_step hsend]
    exact fun hev hstate => hlost (h.window hev hstate)
  · exact hlate
  · exact hwrite

theorem silent_sent {u : ℕ} {send : SendSide} (h : e.Silent)
    (hsend : e.send.step (.step u) = some send) : (e.sent u send).Silent := by
  have hlost : e.send.Lost → send.Lost := fun hlost => (SendSide.lost_step hlost hsend).1
  -- a thread that is past the check keeps what it has found there
  have hkept : ∀ v, (send.pc v).Passed → e.send.pc u ≠ .isConnected → e.late v = true →
      send.Lost := by
    intro v hpassed hpc hlate
    rcases SendSide.passed_step hsend hpassed with hbefore | ⟨heq, hcheck, -⟩
    · exact hlost (h.late v hlate hbefore)
    · cases heq
      exact absurd hcheck hpc
  cases hpc : e.send.pc u with
  | isConnected =>
    have heq : e.sent u send =
        { e with send, late := Function.update e.late u e.everDisconnected } := by
      simp [sent, hpc]
    rw [heq]
    refine silent_of_send h hsend rfl rfl rfl rfl ?_ h.noLateWrite
    intro v hlate hpassed
    by_cases hv : v = u
    · subst hv
      simp only [Function.update_self] at hlate
      rcases SendSide.passed_step hsend hpassed with hbefore | ⟨-, -, hstate⟩
      · simp [hpc, Pc.Passed] at hbefore
      · exact hlost (h.window hlate hstate)
    · simp only [Function.update_apply, if_neg hv] at hlate
      rcases SendSide.passed_step hsend hpassed with hbefore | ⟨heq, -, -⟩
      · exact hlost (h.late v hlate hbefore)
      · cases heq
        exact absurd rfl hv
  | asyncWrite buf =>
    have heq : e.sent u send = { e with send, lateWrite := e.lateWrite || e.late u } := by
      simp [sent, hpc]
    have hnot : e.late u = false := by
      by_contra hlate
      have hstuck := h.late u (by simpa using hlate) (by simp [hpc, Pc.Passed])
      exact hstuck.holds u (by simp [hpc, Pc.Holds])
    rw [heq]
    refine silent_of_send h hsend rfl rfl rfl rfl ?_ ?_
    · exact fun v hlate hpassed => hkept v hpassed (by simp [hpc]) hlate
    · simp [h.noLateWrite, hnot]
  | idle | empty | startSending | tryPop | clear | checkEmpty =>
    have heq : e.sent u send = { e with send } := by simp [sent, hpc]
    rw [heq]
    refine silent_of_send h hsend rfl rfl rfl rfl ?_ h.noLateWrite
    exact fun v hlate hpassed => hkept v hpassed (by simp [hpc]) hlate

theorem silent_step (hserial : e.send.Serial e.pushed) (hphase : Phase id e live log)
    (h : e.Silent) (hstep : e.step id live event = some (e', live', out)) : e'.Silent := by
  cases step_cases hstep with
  | accepted haccept hfree =>
    have hnew := (waiting_of_accept hphase haccept).2.1
    exact ⟨h.reads, fun hreads => hreads.elim, h.errors,
      fun herr => absurd hnew.errors (Nat.pos_iff_ne_zero.mp herr), fun _ hp => by simp at hp,
      h.window, h.late, h.noLateWrite⟩
  | refused haccept hfree =>
    have hnew := (waiting_of_accept hphase haccept).2.1
    have hever : e.everDisconnected ≠ true := by simp [hnew.ever]
    exact ⟨h.reads, fun hreads => hreads.elim, fun hev => absurd hev hever,
      fun _ hreading => hreading.elim (fun hpos => absurd hnew.reads (Nat.pos_iff_ne_zero.mp hpos))
        fun hreads => hreads.elim, fun hev => absurd hev hever, h.window, h.late, h.noLateWrite⟩
  | readFailed hpos hfree =>
    -- this was the only read, and no other is started any more
    have hzero : e.reads - 1 = 0 := by
      have hle := h.reads
      omega
    refine ⟨?_, fun hreads => hreads.elim, fun hev => Nat.succ_pos _, ?_, ?_, h.window, h.late,
      h.noLateWrite⟩
    · exact hzero.trans_le (Nat.zero_le _)
    · rintro - (hpos' | hreads)
      · exact absurd hzero (Nat.pos_iff_ne_zero.mp hpos')
      · exact hreads.elim
    · exact fun hev _ => h.stillReading (h.errors hev) (.inl hpos)
  | read chunk hpos hfree =>
    have hzero : e.reads - 1 = 0 := by
      have hle := h.reads
      omega
    exact ⟨hzero.trans_le (Nat.zero_le _), fun _ => hzero, h.errors,
      fun herr _ => h.stillReading herr (.inl hpos), fun _ hp => by simp at hp, h.window, h.late,
      h.noLateWrite⟩
  | writeFailed hpos hfree =>
    have hlost : SendSide.Lost { e.send with outstanding := e.send.outstanding - 1 } := by
      cases hserial with
      | owned owner howned _ => exact (SendSide.lost_of_failed howned hpos).1
      | lost hlost _ =>
        have hzero := hlost.outstanding
        omega
    exact ⟨h.reads, fun hreads => hreads.elim, fun _ => Nat.succ_pos _, fun _ _ => hlost,
      fun _ _ => hlost, fun _ _ => hlost, fun _ _ _ => hlost, h.noLateWrite⟩
  | handle hhandle => exact silent_handle hphase h hhandle
  | written send hidle hsend | push t buf send hsend =>
    refine silent_of_send h hsend rfl rfl rfl rfl ?_ h.noLateWrite
    intro u hlate hpassed
    rcases SendSide.passed_step hsend hpassed with hbefore | ⟨heq, -, -⟩
    · exact (SendSide.lost_step (h.late u hlate hbefore) hsend).1
    · cases heq
  | send u send hsend => exact silent_sent h hsend

end Endpoint

/-! ## Every session, in every run -/

/-- The invariant of a session. -/
structure Endpoint.Inv (σ : Hub) (id : UInt64) : Prop where
  unused : (σ.endpoint id).Unused
  phase : Endpoint.Phase id (σ.endpoint id) (σ.sessions id) (σ.serverLog id)
  silent : (σ.endpoint id).Silent

variable {events : List (UInt64 × EndpointEvent)} {σ σ' : Hub} {id : UInt64}

theorem inv_init (id : UInt64) : Endpoint.Inv {} id where
  unused := fun _ => ⟨rfl, fun _ => rfl⟩
  phase := .waiting rfl rfl ⟨rfl, rfl, rfl⟩ rfl
  silent := ⟨Nat.zero_le _, fun _ => rfl, by simp, by simp, by simp, by simp, by simp, rfl⟩

/-- The invariant holds of each session in every run. -/
theorem teardown_inv (h : TeardownRun events σ) (id : UInt64) : Endpoint.Inv σ id := by
  induction h with
  | nil => exact inv_init id
  | @snoc ls l σ σ' hrun hstep ih =>
    obtain ⟨j, event⟩ := l
    obtain ⟨hadmitted, hstep⟩ := admittedStep_eq_some.mp hstep
    by_cases hj : id = j
    · subst hj
      obtain ⟨out, hself, hlog⟩ := Hub.step_self hstep
      have hserial := hub_serial (TeardownRun.hubRun hrun) id
      refine ⟨Endpoint.unused_step ih.unused ?_ hself, ?_,
        Endpoint.silent_step hserial ih.phase ih.silent hself⟩
      · rintro t buf rfl
        exact hadmitted
      · rw [hlog]
        exact Endpoint.phase_step ih.unused ih.phase hself
    · obtain ⟨hendpoint, hsessions, hlog⟩ := Hub.step_other hstep hj
      refine ⟨?_, ?_, ?_⟩
      · rw [hendpoint]
        exact ih.unused
      · rw [hendpoint, hsessions, hlog]
        exact ih.phase
      · rw [hendpoint]
        exact ih.silent

/-- The server pushes at most one `CreatePlayer` and, after it, at most one `RemovePlayer`
    about the session `id`: the latter exactly if the session has been added and an
    operation of it has failed, once the handlers of the failures have run. Nothing is
    pushed if the accept has failed. No `Send` that has found `Disconnected` stored
    before has started a write. -/
structure TornDownOnce (events : List (UInt64 × EndpointEvent)) (σ : Hub) (id : UInt64) :
    Prop where
  log : σ.serverLog id = [] ∨ σ.serverLog id = [created id] ∨
    σ.serverLog id = [created id, removed id]
  onlyIf : removed id ∈ σ.serverLog id →
    (σ.endpoint id).added = true ∧ 0 < failures id events
  exactly : (σ.endpoint id).Free → (removed id ∈ σ.serverLog id ↔
    (σ.endpoint id).added = true ∧ 0 < failures id events)
  refused : (σ.endpoint id).accept = some false → σ.serverLog id = []
  silent : (σ.endpoint id).lateWrite = false

theorem removed_notMem_created (id : UInt64) : removed id ∉ [created id] := by
  rw [List.mem_singleton]
  exact Ne.symm (created_ne_removed id id)

/-- In every run of any sessions, whatever operations fail and in whatever order: each
    session is torn down at most once, and silent afterwards. -/
theorem teardown_once (h : TeardownRun events σ) (id : UInt64) : TornDownOnce events σ id := by
  have hfailures := errors_eq_failures h.hubRun id
  obtain ⟨-, hphase, hsilent⟩ := teardown_inv h id
  have hnot := removed_notMem_created id
  generalize hlive : σ.sessions id = live at hphase
  generalize hlog : σ.serverLog id = log at hphase
  constructor
  · rw [hlog]
    cases hphase with
    | waiting | joining | adding | refused => exact .inl rfl
    | joined | failing | removing => exact .inr (.inl rfl)
    | removed => exact .inr (.inr rfl)
  · rw [hlog, ← hfailures]
    intro hmem
    cases hphase with
    | waiting | joining | adding | refused => simp at hmem
    | joined | failing | removing => exact absurd hmem hnot
    | removed _ hadded herrors => exact ⟨hadded, herrors⟩
  · rw [hlog, ← hfailures]
    intro hfree
    have hidle := hfree.1
    cases hphase with
    | waiting _ hadded | joining _ hadded | refused _ hadded => simp [hadded]
    | adding _ _ _ hp | removing _ _ _ hp =>
      rw [hidle] at hp
      cases hp
    | failing _ _ _ hp => simp [Endpoint.Failing, hidle] at hp
    | joined _ _ herrors => simp [hnot, herrors]
    | removed _ hadded herrors => simp [hadded, herrors]
  · rw [hlog]
    intro hrefused
    cases hphase with
    | waiting | joining | adding | refused => rfl
    | joined haccept | failing haccept | removing haccept | removed haccept =>
      rw [haccept] at hrefused
      cases hrefused
  · exact hsilent.noLateWrite

/-- A read fails while a write is outstanding, and then the write fails too. A thread that
    calls `PushToSend` in between finds the session connected again, and the flag set. -/
def failedTwice (id : UInt64) : List (UInt64 × EndpointEvent) :=
  connecting id ++ [(id, .push 0 [1]), (id, .push 1 [2])] ++ List.replicate 5 (id, .send 1) ++
    [(id, .readDone none)] ++ List.replicate 6 (id, .handle) ++ [(id, .written false)] ++
    [(id, .handle)] ++ List.replicate 3 (id, .send 2) ++ List.replicate 4 (id, .handle)

theorem teardown_once_failedTwice : ∃ σ, TeardownRun (failedTwice 0) σ ∧
    TornDownOnce (failedTwice 0) σ 0 := by
  have heval : ((failedTwice 0).foldlM Hub.admittedStep {}).isSome = true := by decide +kernel
  obtain ⟨σ, hσ⟩ := Option.isSome_iff_exists.mp heval
  have hrun : TeardownRun (failedTwice 0) σ := run_iff_foldlM.mpr hσ
  exact ⟨σ, hrun, teardown_once hrun 0⟩

end EndlessPeak
