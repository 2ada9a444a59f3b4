import EndlessPeak.Lib.Races
import EndlessPeak.Net.Locks

/-!
# Which data the threads race for

`main` starts a thread for the game, threads that run `Sender`, and threads that run the handlers
of the sessions. `AddSession` and `CloseSession` change `sessions_` under `sessions_mutex_`, but
`Sender` uses it without, and `Tick` uses `players_` without `players_mutex_`.

* `call_accesses`: what each call uses, and under which mutex.
* `races_iff`: which two threads can race, and for what. It is always `sessions_`, and one of them
  is in `Sender`.
-/

namespace EndlessPeak

open Lib

/-! ## What the calls use -/

/-- The access is to the data of a queue, under its mutex. -/
def OnQueue (a : AccessUnder Mutex) : Prop := (∃ q, a.lock = .data q) ∧ a.lock ∈ a.held

/-- The operation uses only maps with `P`. -/
def Operation.OnMaps (P : Mutex → Prop) : Operation → Prop
  | .read map | .write map => P map
  | .lock _ | .unlock _ | .queue _ | .waitAndPop _ _ => True

variable {P Q : Mutex → Prop} {held : List Mutex} {block body body' : Body}

theorem Operation.OnMaps.mono {op : Operation} (h : op.OnMaps P) (hle : ∀ m, P m → Q m) :
    op.OnMaps Q := by
  cases op with
  | read map | write map => exact hle map h
  | lock | unlock | queue | waitAndPop => trivial

/-- `WaitAndPop` holds the mutex of the queue whenever it uses the queue. -/
theorem access_waitAndPop {q : QueueName} {waits : ℕ} {rest : List (LockOp Mutex)}
    {a : AccessUnder Mutex}
    (ha : a ∈ accesses held ((Operation.waitAndPop q waits).locks ++ rest)) :
    OnQueue a ∨ ∃ held', a ∈ accesses held' rest := by
  have hrounds : ∀ held, .data q ∈ held → ∀ a ∈ accesses held
      ((List.replicate waits [.access (.data q) false, .park [.data q]]).flatten ++
        .access (.data q) true :: .release [.data q] :: rest),
      OnQueue a ∨ ∃ held', a ∈ accesses held' rest := by
    clear ha
    induction waits with
    | zero =>
      intro held hheld a ha
      rcases List.mem_cons.mp ha with rfl | ha
      · exact .inl ⟨⟨q, rfl⟩, hheld⟩
      · exact .inr ⟨_, ha⟩
    | succ waits ih =>
      intro held hheld a ha
      rcases List.mem_cons.mp ha with rfl | ha
      · exact .inl ⟨⟨q, rfl⟩, hheld⟩
      · exact ih [.data q] (List.mem_singleton_self _) a ha
  simp only [Operation.locks, List.cons_append, List.append_assoc, List.nil_append] at ha
  exact hrounds _ (List.mem_append_right _ (List.mem_singleton_self _)) a ha

/-- What a body uses are queues, under their mutexes, and its maps. -/
theorem access_cases (h : ∀ op ∈ body, op.OnMaps P) {a : AccessUnder Mutex}
    (ha : a ∈ accesses held body.locks) : OnQueue a ∨ P a.lock := by
  induction body generalizing held with
  | nil => exact absurd ha List.not_mem_nil
  | cons op body ih =>
    rw [List.forall_mem_cons] at h
    rw [Body.locks, List.flatMap_cons, ← Body.locks] at ha
    cases op with
    | lock | unlock => exact ih h.2 ha
    | read | write =>
      rcases List.mem_cons.mp ha with rfl | ha
      · exact .inr h.1
      · exact ih h.2 ha
    | queue call =>
      simp only [Operation.locks, List.cons_append, List.append_assoc] at ha
      rw [accesses, accesses_map, List.mem_append] at ha
      rcases ha with ha | ha
      · obtain ⟨m, hm, rfl⟩ := List.mem_map.mp ha
        obtain ⟨q, -, rfl⟩ := List.mem_map.mp hm
        exact .inl ⟨⟨q, rfl⟩, List.mem_append_right _ hm⟩
      · exact ih h.2 ha
    | waitAndPop q waits =>
      rcases access_waitAndPop ha with ha | ⟨held', ha⟩
      · exact .inl ha
      · exact ih h.2 ha

/-- In a block under the mutex of a map, the mutex is held at every access. -/
theorem held_lockGuard {mutex : Mutex} (hmutex : mutex.rank = 0) (h : ∀ op ∈ block, op.OnData)
    {a : AccessUnder Mutex} (ha : a ∈ accesses [] (lockGuard mutex block).locks) :
    mutex ∈ a.held := by
  have hordered : Ordered Mutex.rank [mutex] (Body.locks block) [mutex] :=
    ordered_flatMap fun op hop => ordered_onData (by simpa using hmutex) (h op hop)
  have hkeeps : ∀ op ∈ Body.locks block, op.Keeps mutex := by
    intro op hop
    obtain ⟨operation, hmem, hop⟩ := List.mem_flatMap.mp hop
    have hdata := h operation hmem
    cases operation with
    | lock | unlock | waitAndPop => exact absurd hdata id
    | read | write =>
      rw [List.mem_singleton.mp hop]
      trivial
    | queue call =>
      simp only [Operation.locks, List.mem_cons, List.mem_append, List.mem_map,
        List.not_mem_nil, or_false] at hop
      rcases hop with rfl | ⟨_, -, rfl⟩ | rfl
      · trivial
      · trivial
      · intro hmem
        obtain ⟨q, -, rfl⟩ := List.mem_map.mp hmem
        cases hmutex
  have hlocks : (lockGuard mutex block).locks =
      .acquire [mutex] :: (Body.locks block ++ [.release [mutex]]) := by
    rw [lockGuard, Body.locks, List.flatMap_cons, List.flatMap_append]
    rfl
  rw [hlocks, accesses, List.nil_append, accesses_append hordered] at ha
  exact held_of_keeps (List.mem_singleton_self _) hkeeps a (by simpa [accesses] using ha)

theorem guarded_of_lockGuard {mutex : Mutex} (hmutex : mutex.rank = 0)
    (h : ∀ op ∈ block, op.OnData) (hmaps : ∀ op ∈ block, op.OnMaps (· = mutex))
    (hrest : ∀ op ∈ body, op.OnMaps fun _ => False) {a : AccessUnder Mutex}
    (ha : a ∈ accesses [] (Body.locks (lockGuard mutex block ++ body))) :
    OnQueue a ∨ a.lock = mutex ∧ mutex ∈ a.held := by
  have hguard : ∀ op ∈ lockGuard mutex block, op.OnMaps (· = mutex) := by
    rw [lockGuard, List.forall_mem_cons, List.forall_mem_append, List.forall_mem_singleton]
    exact ⟨trivial, hmaps, trivial⟩
  rw [Body.locks_append, accesses_append (Body.ordered_lockGuard hmutex h), List.mem_append] at ha
  rcases ha with ha | ha
  · exact (access_cases hguard ha).imp_right fun hlock => ⟨hlock, held_lockGuard hmutex h ha⟩
  · exact (access_cases hrest ha).imp_right False.elim

/-! ### `Session` -/

theorem onMaps_sendBody (id : UInt64) (exit : SendExit) : ∀ op ∈ sendBody id exit, op.OnMaps P := by
  cases exit with
  | isConnected => simp [sendBody]
  | empty | startSending => simp [sendBody, Operation.empty, Operation.OnMaps]
  | tryPop => simp [sendBody, Operation.empty, Operation.tryPop, Operation.OnMaps]

theorem onMaps_pushToSendBody (target : UInt64 × SendExit) :
    ∀ op ∈ pushToSendBody target, op.OnMaps P := by
  rw [pushToSendBody, List.forall_mem_cons]
  exact ⟨trivial, onMaps_sendBody _ _⟩

/-! ### `Server` -/

theorem onMaps_senderBody (waits : ℕ) (recipients : Recipients) :
    ∀ op ∈ senderBody waits recipients, op.OnMaps (· = .sessions) := by
  rw [senderBody, List.forall_mem_cons]
  refine ⟨trivial, ?_⟩
  cases recipients with
  | rpc target =>
    rw [recipientsBody, List.forall_mem_cons]
    exact ⟨rfl, onMaps_pushToSendBody target⟩
  | loop targets =>
    simp only [recipientsBody, List.forall_mem_cons, List.forall_mem_flatMap,
      List.forall_mem_append]
    refine ⟨rfl, fun target _ => ⟨?_, rfl, by simp⟩⟩
    cases target with
    | none => simp
    | some target => exact onMaps_pushToSendBody target

/-! ### `World` -/

theorem onMaps_processInputBody (packet : ServerPacket) :
    ∀ op ∈ processInputBody packet, op.OnMaps (· = .players) := by
  rw [processInputBody, List.forall_mem_cons]
  refine ⟨rfl, ?_⟩
  split
  · simp [addPlayerBody, lockGuard, Operation.push, Operation.OnMaps]
  · simp [removePlayerBody, lockGuard, Operation.push, Operation.OnMaps]
  · simp

theorem onMaps_tickBody (inputs : List ServerPacket) (players outputs : ℕ) :
    ∀ op ∈ tickBody inputs players outputs, op.OnMaps (· = .players) := by
  unfold tickBody inputsBody outputsBody
  simp only [List.forall_mem_append, List.forall_mem_flatMap]
  refine ⟨⟨⟨⟨?_, ?_, ?_⟩, ?_⟩, ?_⟩, ?_, ?_⟩
  · simp [Operation.tsSwap, Operation.size, Operation.OnMaps]
  · refine fun packet _ => ⟨?_, onMaps_processInputBody packet⟩
    simp [Operation.empty, Operation.tryPop, Operation.OnMaps]
  · simp [Operation.empty, Operation.OnMaps]
  · simp [Operation.OnMaps]
  · intro _ _
    simp [Operation.push, Operation.OnMaps]
  · intro _ _
    simp [Operation.empty, Operation.tryPop, Operation.push, Operation.OnMaps]
  · simp [Operation.empty, Operation.OnMaps]

/-! ## The threads of the program -/

/-- The threads that `main` starts. -/
inductive Role where
  | game
  | sender
  | io
  deriving DecidableEq, Repr

/-- What they call. Nobody calls `PlayerNumbers`. -/
def Role.Calls : Role → Call → Prop
  | .game, .tick .. => True
  | .sender, .sender .. => True
  | .io, .addSession | .io, .pushPacket | .io, .closeSession _ | .io, .written .. => True
  | _, _ => False

/-- The map that they use, and whether it is under its mutex. -/
def Role.Uses : Role → AccessUnder Mutex → Prop
  | .game, a => a.lock = .players
  | .sender, a => a.lock = .sessions
  | .io, a => a.lock = .sessions ∧ .sessions ∈ a.held

theorem call_accesses {role : Role} {call : Call} (hcall : role.Calls call)
    {a : AccessUnder Mutex} (ha : a ∈ accesses [] call.body.locks) : OnQueue a ∨ role.Uses a := by
  cases role with
  | game =>
    cases call with
    | tick inputs players outputs => exact access_cases (onMaps_tickBody _ _ _) ha
    | addSession | pushPacket | closeSession | written | sender | playerNumbers =>
      exact absurd hcall id
  | sender =>
    cases call with
    | sender waits recipients => exact access_cases (onMaps_senderBody _ _) ha
    | addSession | pushPacket | closeSession | written | tick | playerNumbers =>
      exact absurd hcall id
  | io =>
    cases call with
    | sender | tick | playerNumbers => exact absurd hcall id
    | addSession =>
      refine guarded_of_lockGuard rfl ?_ ?_ ?_ ha
      · simp [Operation.OnData]
      · simp [Operation.OnMaps]
      · simp [Operation.push, Operation.OnMaps]
    | closeSession found =>
      rw [Call.body, closeSessionBody, ← List.append_nil (lockGuard _ _)] at ha
      refine guarded_of_lockGuard rfl ?_ ?_ (by simp) ha
      · cases found <;> simp [Operation.push, Operation.OnData]
      · cases found <;> simp [Operation.push, Operation.OnMaps]
    | pushPacket =>
      refine (access_cases (P := fun _ => False) ?_ ha).imp_right False.elim
      simp [Call.body, pushPacketBody, Operation.push, Operation.OnMaps]
    | written id again =>
      refine (access_cases (P := fun _ => False) ?_ ha).imp_right False.elim
      rw [Call.body, writtenBody, List.forall_mem_cons]
      cases again with
      | none => exact ⟨trivial, by simp⟩
      | some exit => exact ⟨trivial, onMaps_sendBody id exit⟩

/-! ## Races -/

variable {roles : ℕ → Role} {l : Mutex}

/-- Threads with these roles can do this from the start of the program. -/
def RolesRun (roles : ℕ → Role) : List (LockEvent Mutex ℕ) → Locking Mutex ℕ → Prop :=
  LocksRun fun t => (roles t).Calls

theorem Role.Uses.ne_data {role : Role} {a : AccessUnder Mutex} (h : role.Uses a) (q : QueueName) :
    a.lock ≠ .data q := by
  intro hq
  cases role with
  | game => exact Mutex.noConfusion (hq.symm.trans h)
  | sender => exact Mutex.noConfusion (hq.symm.trans h)
  | io => exact Mutex.noConfusion (hq.symm.trans h.1)

/-- Accesses that no mutex keeps apart are to a map. -/
theorem Lib.Unordered.uses {a b : AccessUnder Mutex} {role role' : Role} (h : Unordered l a b)
    (ha : OnQueue a ∨ role.Uses a) (hb : OnQueue b ∨ role'.Uses b) :
    role.Uses a ∧ role'.Uses b := by
  have hsame : b.lock = a.lock := h.right.trans h.left.symm
  rcases ha with ⟨⟨q, hq⟩, hheld⟩ | ha
  · rcases hb with ⟨-, hheld'⟩ | hb
    · exact absurd (hsame ▸ hheld') (h.disjoint _ hheld)
    · exact absurd (hsame.trans hq) (hb.ne_data q)
  · rcases hb with ⟨⟨q, hq⟩, -⟩ | hb
    · exact absurd (hsame.symm.trans hq) (ha.ne_data q)
    · exact ⟨ha, hb⟩

/-- They are to `sessions_`, and one of them is in `Sender`; or both are of the thread of the
    game. -/
theorem Lib.Unordered.roles_cases {a b : AccessUnder Mutex} {role role' : Role}
    (h : Unordered l a b) (ha : role.Uses a) (hb : role'.Uses b) :
    role = .game ∧ role' = .game ∨ l = .sessions ∧
      (role = .sender ∧ role' ≠ .game ∨ role' = .sender ∧ role ≠ .game) := by
  have hsame : b.lock = a.lock := h.right.trans h.left.symm
  have hmaps : Mutex.players ≠ Mutex.sessions := by decide
  obtain rfl := h.left
  cases role with
  | game =>
    cases role' with
    | game => exact .inl ⟨rfl, rfl⟩
    | sender => exact absurd (ha.symm.trans (hsame.symm.trans hb)) hmaps
    | io => exact absurd (ha.symm.trans (hsame.symm.trans hb.1)) hmaps
  | sender =>
    refine .inr ⟨ha, .inl ⟨rfl, ?_⟩⟩
    rintro rfl
    exact hmaps (hb.symm.trans (hsame.trans ha))
  | io =>
    refine .inr ⟨ha.1, .inr ⟨?_, by simp⟩⟩
    cases role' with
    | game => exact absurd (hb.symm.trans (hsame.trans ha.1)) hmaps
    | sender => rfl
    | io => exact absurd hb.2 (h.disjoint _ ha.2)

theorem race_roles {events : List (LockEvent Mutex ℕ)} {s : Locking Mutex ℕ} {t u : ℕ}
    (hrace : Race s t u l) (hrun : RolesRun roles events s) :
    roles t = .game ∧ roles u = .game ∨ l = .sessions ∧
      (roles t = .sender ∧ roles u ≠ .game ∨ roles u = .sender ∧ roles t ≠ .game) := by
  obtain ⟨_, _, ⟨c, hc, rfl⟩, ⟨d, hd, rfl⟩, a, ha, b, hb, hunordered⟩ :=
    hrace.exists_accesses IsCall.ordered hrun
  obtain ⟨huses, huses'⟩ := hunordered.uses (call_accesses hc ha) (call_accesses hd hb)
  exact hunordered.roles_cases huses huses'

/-- In a round of `Sender`, nothing is held when it looks a session up. -/
theorem sender_access : ∃ before after, (Call.sender 0 (.rpc (0, .isConnected))).body.locks =
    before ++ .access .sessions true :: after ∧ Ordered Mutex.rank [] before [] :=
  ⟨(Operation.waitAndPop .netOut 0).locks, (pushToSendBody (0, .isConnected)).locks, rfl,
    ordered_waitAndPop .netOut 0⟩

/-- `Sender` can come to a race with a thread that is not the thread of the game. -/
theorem exists_race_sender {t u : ℕ} (hne : t ≠ u) (ht : roles t = .sender)
    (hu : roles u ≠ .game) : ∃ events s, RolesRun roles events s ∧ Race s t u .sessions := by
  obtain ⟨before, after, hlocks, hordered⟩ := sender_access
  have hsender : ∀ v, roles v = .sender →
      IsCall (fun t => (roles t).Calls) v (before ++ .access .sessions true :: after) := by
    intro v hv
    refine ⟨.sender 0 (.rpc (0, .isConnected)), ?_, hlocks⟩
    show (roles v).Calls _
    rw [hv]
    trivial
  cases hrole : roles u with
  | game => exact absurd hrole hu
  | sender =>
    exact exists_race hne (hsender t ht) (hsender u hrole) hordered hordered
      fun m hm => absurd hm List.not_mem_nil
  | io =>
    have hadd : IsCall (fun t => (roles t).Calls) u
        ([.acquire [.sessions]] ++ .access .sessions true ::
          .release [.sessions] :: (Operation.push .netIn).locks) := by
      refine ⟨.addSession, ?_, rfl⟩
      show (roles u).Calls _
      rw [hrole]
      trivial
    have hacquire : Ordered Mutex.rank [] [.acquire [.sessions]] [.sessions] := ⟨by simp, rfl⟩
    exact exists_race hne (hsender t ht) hadd hordered hacquire
      fun m hm => absurd hm List.not_mem_nil

/-- With one thread for the game and any number of others, in any interleaving: two threads can
    come to a race for the data of a mutex exactly if the data are `sessions_`, one of these two
    threads is in `Sender`, and the other one is in `Sender` too or runs a handler. -/
theorem races_iff (hgame : ∀ t u, roles t = .game → roles u = .game → t = u) (t u : ℕ) :
    (∃ events s, RolesRun roles events s ∧ (Race s t u l ∨ Race s u t l)) ↔
      l = .sessions ∧ t ≠ u ∧
        (roles t = .sender ∧ roles u ≠ .game ∨ roles u = .sender ∧ roles t ≠ .game) := by
  constructor
  · rintro ⟨events, s, hrun, hrace | hrace⟩
    · have hne := hrace.1
      rcases race_roles hrace hrun with ⟨ht, hu⟩ | ⟨hl, hroles⟩
      · exact absurd (hgame t u ht hu) hne
      · exact ⟨hl, hne, hroles⟩
    · have hne := hrace.1
      rcases race_roles hrace hrun with ⟨hu, ht⟩ | ⟨hl, hroles⟩
      · exact absurd (hgame u t hu ht) hne
      · exact ⟨hl, hne.symm, hroles.symm⟩
  · rintro ⟨rfl, hne, ⟨ht, hu⟩ | ⟨hu, ht⟩⟩
    · obtain ⟨events, s, hrun, hrace⟩ := exists_race_sender hne ht hu
      exact ⟨events, s, hrun, .inl hrace⟩
    · obtain ⟨events, s, hrun, hrace⟩ := exists_race_sender hne.symm hu ht
      exact ⟨events, s, hrun, .inr hrace⟩

/-- Thread `0` runs the game, `1` is a sender, and the others run handlers. -/
def oneSender : ℕ → Role
  | 0 => .game
  | 1 => .sender
  | _ => .io

theorem races_iff_oneSender :
    (∃ events s, RolesRun oneSender events s ∧
        (Race s 2 1 .sessions ∨ Race s 1 2 .sessions)) ∧
      ¬ ∃ events s, RolesRun oneSender events s ∧
        (Race s 2 3 .sessions ∨ Race s 3 2 .sessions) := by
  have hzero : ∀ t, oneSender t = .game → t = 0 := by
    intro t ht
    match t with
    | 0 => rfl
    | 1 => cases ht
    | t + 2 => cases ht
  have hgame : ∀ t u, oneSender t = .game → oneSender u = .game → t = u :=
    fun t u ht hu => (hzero t ht).trans (hzero u hu).symm
  refine ⟨(races_iff hgame 2 1).mpr ⟨rfl, by decide, .inr ⟨rfl, by decide⟩⟩, fun hrace => ?_⟩
  obtain ⟨-, -, ⟨ht, -⟩ | ⟨hu, -⟩⟩ := (races_iff hgame 2 3).mp hrace
  · cases ht
  · cases hu

end EndlessPeak
