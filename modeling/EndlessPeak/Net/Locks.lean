import EndlessPeak.Lib.LockOrder
import EndlessPeak.Net.QueueLocks
import EndlessPeak.Protocol.NetPacket

/-!
# What the threads do with the mutexes and the queues

Every function of the program that uses `sessions_`, `players_` or a queue, as the sequence of
what it does with them and their mutexes: `AddSession`, `CloseSession`, `PushPacket` and `Sender`
of the server, `Send` of a session and the completion handler of its write, and `Tick` of the
world with the functions it calls. What decides between two branches is left open.

`CloseSession` pushes to the inbound queue while it holds `sessions_mutex_`, and `AddPlayer` and
`RemovePlayer` to the out queue of the game while they hold `players_mutex_`. Only `Sender`
waits on a queue, and only `Tick` swaps two.

* `Call.ordered`: every call takes the mutexes of the maps before those of the queues, and waits
  on a queue only while it holds no other mutex.
* `never_deadlocked`: in every run a thread that is in a call can go on, or waits for one
  that can, through at most one other thread; or it is parked in `WaitAndPop`, and holds nothing.
* `calls_lose_no_wakeup`: the calls never leave a parked thread behind.
-/

namespace EndlessPeak

open Lib

/-! ## The mutexes -/

/-- The queues of the program. A session is named by its id. -/
inductive QueueName where
  | netIn
  | netOut
  | gameIn
  | gameOut
  | session (id : UInt64)
  deriving DecidableEq, Repr

/-- `sessions_mutex_`, `players_mutex_`, and the `data_mutex_` of each queue. Each of them is there
    for one piece of data: `sessions_`, `players_`, and the `data_` of the queue. -/
inductive Mutex where
  | sessions
  | players
  | data (queue : QueueName)
  deriving DecidableEq, Repr

/-- The mutexes of the maps come before those of the queues. -/
def Mutex.rank : Mutex → ℕ
  | .sessions | .players => 0
  | .data _ => 1

theorem Mutex.rank_le (m : Mutex) : m.rank ≤ 1 := by
  cases m with
  | sessions => exact Nat.zero_le 1
  | players => exact Nat.zero_le 1
  | data => exact le_refl 1

/-- Whether a call may change the queue. -/
def QueueCall.writes {Q A : Type} : QueueCall Q A → Bool
  | .empty _ | .size _ => false
  | .push _ _ | .tryPop _ | .waitAndPop _ | .tsSwap _ _ => true

/-- The queues whose mutexes a call takes. -/
def QueueCall.queues {Q A : Type} [DecidableEq Q] : QueueCall Q A → List Q
  | .push q _ | .tryPop q | .waitAndPop q | .empty q | .size q => [q]
  | .tsSwap lhs rhs => if lhs = rhs then [] else [lhs, rhs]

/-! ## The bodies of the functions -/

/-- What a function does: it takes or gives back the mutex of a map, uses the map, or calls a
    function of a queue. What is pushed is left out. -/
inductive Operation where
  | lock (mutex : Mutex)
  | unlock (mutex : Mutex)
  /-- It looks for a key, asks for the size, or goes on in a loop over the map. -/
  | read (map : Mutex)
  /-- It calls `operator[]` or `erase`. Both count as changes of an `unordered_map`, `operator[]`
      also when the key is there. -/
  | write (map : Mutex)
  | queue (call : QueueCall QueueName Unit)
  /-- It calls `WaitAndPop`, and finds the queue empty this often. -/
  | waitAndPop (q : QueueName) (waits : ℕ)

/-- What an operation takes, uses and gives back. A function of a queue uses it under its
    mutex, which `WaitAndPop` gives back while it is parked. -/
def Operation.locks : Operation → List (LockOp Mutex)
  | .lock mutex => [.acquire [mutex]]
  | .unlock mutex => [.release [mutex]]
  | .read map => [.access map false]
  | .write map => [.access map true]
  | .queue call =>
    .acquire (call.queues.map .data) ::
      ((call.queues.map .data).map (fun m => .access m call.writes) ++
        [.release (call.queues.map .data)])
  | .waitAndPop q waits =>
    .acquire [.data q] ::
      ((List.replicate waits [.access (.data q) false, .park [.data q]]).flatten ++
        [.access (.data q) true] ++ [.release [.data q]])

abbrev Body := List Operation

/-- `std::lock_guard` on a mutex around a block. -/
def lockGuard (mutex : Mutex) (block : Body) : Body := .lock mutex :: (block ++ [.unlock mutex])

/-- What a body takes, uses and gives back. -/
def Body.locks (body : Body) : List (LockOp Mutex) := body.flatMap Operation.locks

theorem Body.locks_append (body body' : Body) :
    Body.locks (body ++ body') = body.locks ++ body'.locks := List.flatMap_append

namespace Operation

def push (queue : QueueName) : Operation := .queue (.push queue ())
def tryPop (queue : QueueName) : Operation := .queue (.tryPop queue)
def empty (queue : QueueName) : Operation := .queue (.empty queue)
def size (queue : QueueName) : Operation := .queue (.size queue)
def tsSwap (lhs rhs : QueueName) : Operation := .queue (.tsSwap lhs rhs)

end Operation

/-! ### `Session` -/

/-- Where `Send` returns: at `IsConnected()`, at `Empty()`, at `StartSending()`, or at its end
    or after a `TryPop()` that finds nothing. -/
inductive SendExit where
  | isConnected
  | empty
  | startSending
  | tryPop

/-- `Send` of the session `id`. -/
def sendBody (id : UInt64) : SendExit → Body
  | .isConnected => []
  | .empty | .startSending => [.empty (.session id)]
  | .tryPop => [.empty (.session id), .tryPop (.session id)]

/-- `PushToSend`. -/
def pushToSendBody (target : UInt64 × SendExit) : Body :=
  .push (.session target.1) :: sendBody target.1 target.2

/-- The completion handler of a write that has succeeded. It calls `Send` if the queue is not
    empty. -/
def writtenBody (id : UInt64) (again : Option SendExit) : Body :=
  .empty (.session id) :: (again.map (sendBody id)).getD []

/-! ### `Server` -/

/-- `AddSession`. -/
def addSessionBody : Body := lockGuard .sessions [.write .sessions] ++ [.push .netIn]

/-- `PushPacket`. -/
def pushPacketBody : Body := [.push .netIn]

/-- `CloseSession` of a session that is in `sessions_`, or is not. -/
def closeSessionBody (found : Bool) : Body :=
  lockGuard .sessions (.read .sessions :: if found then [.write .sessions, .push .netIn] else [])

/-- The `switch` of `Sender`: a packet for one session, or a loop over the sessions, some of which
    are called. -/
inductive Recipients where
  | rpc (target : UInt64 × SendExit)
  | loop (targets : List (Option (UInt64 × SendExit)))

/-- What `Sender` does with a packet, without a mutex for `sessions_`. -/
def recipientsBody : Recipients → Body
  | .rpc target => .write .sessions :: pushToSendBody target
  | .loop targets =>
    .read .sessions :: targets.flatMap fun target =>
      (target.map pushToSendBody).getD [] ++ [.read .sessions]

/-- One round of `Sender`, which is parked `waits` times before it has a packet. -/
def senderBody (waits : ℕ) (recipients : Recipients) : Body :=
  .waitAndPop .netOut waits :: recipientsBody recipients

/-! ### `World` -/

/-- `AddPlayer`. -/
def addPlayerBody : Body :=
  lockGuard .players
    [.write .players, .push .gameOut, .read .players, .read .players, .push .gameOut] ++
    [.push .gameOut]

/-- `RemovePlayer`. -/
def removePlayerBody : Body := lockGuard .players [.write .players, .push .gameOut]

/-- `PlayerNumbers`. -/
def playerNumbersBody : Body := lockGuard .players [.read .players]

/-- `ProcessInput`, which looks the player up without the mutex. -/
def processInputBody (packet : ServerPacket) : Body :=
  .write .players ::
    match packet.opcode with
    | some .createPlayer => addPlayerBody
    | some .removePlayer => removePlayerBody
    | _ => []

/-- The loop of `Tick` over the inputs. -/
def inputsBody (inputs : List ServerPacket) : Body :=
  (inputs.flatMap fun packet =>
    [.empty .gameIn, .tryPop .gameIn] ++ processInputBody packet) ++ [.empty .gameIn]

/-- The loop of `Tick` over the packets in the out queue of the game. -/
def outputsBody (outputs : ℕ) : Body :=
  (List.range outputs).flatMap (fun _ =>
    [.empty .gameOut, .tryPop .gameOut, .push .netOut]) ++ [.empty .gameOut]

/-- `Tick` with these inputs, for `players` players, with `outputs` packets in the out queue of
    the game at the end. -/
def tickBody (inputs : List ServerPacket) (players outputs : ℕ) : Body :=
  [.tsSwap .gameIn .netIn, .size .gameIn, .read .players, .read .players] ++ inputsBody inputs ++
    -- `Update` pushes a packet for every player
    [.read .players, .read .players] ++
      (List.range players).flatMap (fun _ => [.push .gameOut, .read .players]) ++
    outputsBody outputs

/-! ### All of them -/

/-- What the threads call: the handlers of the sessions the first four, a sender thread
    `sender` for every packet, and the thread of the game `tick`. -/
inductive Call where
  | addSession
  | pushPacket
  | closeSession (found : Bool)
  | written (id : UInt64) (again : Option SendExit)
  | sender (waits : ℕ) (recipients : Recipients)
  | tick (inputs : List ServerPacket) (players outputs : ℕ)
  | playerNumbers

def Call.body : Call → Body
  | .addSession => addSessionBody
  | .pushPacket => pushPacketBody
  | .closeSession found => closeSessionBody found
  | .written id again => writtenBody id again
  | .sender waits recipients => senderBody waits recipients
  | .tick inputs players outputs => tickBody inputs players outputs
  | .playerNumbers => playerNumbersBody

/-- What the thread `t` takes, uses and gives back, if it makes only these calls. -/
def IsCall (calls : ℕ → Call → Prop) (t : ℕ) (program : List (LockOp Mutex)) : Prop :=
  ∃ call, calls t call ∧ call.body.locks = program

/-- Threads that make these calls can do this in this order from the start of the program, and
    come to the last argument. -/
def LocksRun (calls : ℕ → Call → Prop) : List (LockEvent Mutex ℕ) → Locking Mutex ℕ → Prop :=
  Run (LockNext (IsCall calls)) {}

/-! ## The order -/

/-- The operation uses a map, or is a call of a function of a queue that does not wait. -/
def Operation.OnData : Operation → Prop
  | .lock _ | .unlock _ | .waitAndPop _ _ => False
  | .read _ | .write _ | .queue _ => True

/-- The body takes the mutexes in order, and gives back all of them. -/
def Body.Ordered (body : Body) : Prop := Lib.Ordered Mutex.rank [] body.locks []

variable {held mutexes : List Mutex} {block body body' : Body}

/-- What is taken in order and given back at the end. -/
theorem ordered_scoped {inner : List (LockOp Mutex)}
    (horder : ∀ l ∈ mutexes, ∀ m ∈ held, m.rank < l.rank)
    (hinner : Ordered Mutex.rank (held ++ mutexes) inner (held ++ mutexes)) :
    Ordered Mutex.rank held (.acquire mutexes :: (inner ++ [.release mutexes])) held := by
  refine ⟨horder, hinner.append ?_⟩
  show (held ++ mutexes).filter (· ∉ mutexes) = held
  have hheld : held.filter (· ∉ mutexes) = held := by
    rw [List.filter_eq_self]
    intro m hm
    have hnot : m ∉ mutexes := fun hmem => lt_irrefl _ (horder m hmem m hm)
    simpa using hnot
  have hmutexes : mutexes.filter (· ∉ mutexes) = [] := by simp
  rw [List.filter_append, hheld, hmutexes, List.append_nil]

theorem ordered_onData {a : Operation} (hheld : ∀ m ∈ held, m.rank = 0) (h : a.OnData) :
    Ordered Mutex.rank held a.locks held := by
  cases a with
  | lock | unlock | waitAndPop => exact absurd h id
  | read | write => rfl
  | queue call =>
    refine ordered_scoped (fun l hl m hm => ?_) (ordered_accesses _ _)
    obtain ⟨q, -, rfl⟩ := List.mem_map.mp hl
    rw [hheld m hm]
    exact Nat.one_pos

theorem ordered_waitAndPop (queue : QueueName) (waits : ℕ) :
    Ordered Mutex.rank [] (Operation.waitAndPop queue waits).locks [] := by
  have hround : Ordered Mutex.rank [.data queue]
      [.access (.data queue) false, .park [.data queue]] [.data queue] := ⟨by simp, rfl⟩
  refine ordered_scoped (by simp) (Ordered.append ?_ rfl)
  induction waits with
  | zero => rfl
  | succ waits ih =>
    rw [List.replicate_succ, List.flatten_cons]
    exact hround.append ih

namespace Body

theorem Ordered.of_onData (h : ∀ a ∈ body, a.OnData) : body.Ordered :=
  ordered_flatMap fun a ha => ordered_onData (by simp) (h a ha)

theorem Ordered.append (h : body.Ordered) (h' : body'.Ordered) : Body.Ordered (body ++ body') := by
  unfold Body.Ordered
  rw [locks_append]
  exact Lib.Ordered.append h h'

theorem Ordered.flatMap {A : Type} {f : A → Body} {as : List A} (h : ∀ a ∈ as, (f a).Ordered) :
    Body.Ordered (as.flatMap f) := by
  unfold Body.Ordered locks
  rw [List.flatMap_assoc]
  exact ordered_flatMap h

/-- A mutex of a map around operations on the data. -/
theorem ordered_lockGuard {mutex : Mutex} (hmutex : mutex.rank = 0) (h : ∀ a ∈ block, a.OnData) :
    (lockGuard mutex block).Ordered := by
  have hblock : Lib.Ordered Mutex.rank [mutex] block.locks [mutex] :=
    ordered_flatMap fun a ha => ordered_onData (by simpa using hmutex) (h a ha)
  have hscoped : Lib.Ordered Mutex.rank []
      (.acquire [mutex] :: (block.locks ++ [.release [mutex]])) [] :=
    ordered_scoped (by simp) hblock
  unfold Body.Ordered locks lockGuard
  rw [List.flatMap_cons, List.flatMap_append]
  exact hscoped

end Body

theorem ordered_sendBody (id : UInt64) (exit : SendExit) : (sendBody id exit).Ordered := by
  apply Body.Ordered.of_onData
  cases exit with
  | isConnected => simp [sendBody]
  | empty | startSending => simp [sendBody, Operation.empty, Operation.OnData]
  | tryPop => simp [sendBody, Operation.empty, Operation.tryPop, Operation.OnData]

theorem ordered_singleton {a : Operation} (h : a.OnData) : Body.Ordered [a] :=
  Body.Ordered.of_onData (by simpa using h)

theorem Body.Ordered.cons {a : Operation} (ha : a.OnData) (h : body.Ordered) :
    Body.Ordered (a :: body) :=
  (ordered_singleton ha).append h

theorem ordered_pushToSendBody (target : UInt64 × SendExit) : (pushToSendBody target).Ordered :=
  .cons trivial (ordered_sendBody target.1 target.2)

theorem ordered_recipientsBody (recipients : Recipients) :
    (recipientsBody recipients).Ordered := by
  cases recipients with
  | rpc target => exact .cons trivial (ordered_pushToSendBody target)
  | loop targets =>
    refine .cons trivial (Body.Ordered.flatMap fun target _ => ?_)
    refine Body.Ordered.append ?_ (ordered_singleton trivial)
    cases target with
    | none => exact Body.Ordered.of_onData (by simp)
    | some target => exact ordered_pushToSendBody target

theorem ordered_addPlayerBody : addPlayerBody.Ordered :=
  (Body.ordered_lockGuard rfl (by simp [Operation.push, Operation.OnData])).append
    (ordered_singleton trivial)

theorem ordered_removePlayerBody : removePlayerBody.Ordered :=
  Body.ordered_lockGuard rfl (by simp [Operation.push, Operation.OnData])

theorem ordered_processInputBody (packet : ServerPacket) : (processInputBody packet).Ordered := by
  refine .cons trivial ?_
  split
  · exact ordered_addPlayerBody
  · exact ordered_removePlayerBody
  · exact Body.Ordered.of_onData (by simp)

theorem ordered_inputsBody (inputs : List ServerPacket) : (inputsBody inputs).Ordered := by
  refine Body.Ordered.append (Body.Ordered.flatMap fun packet _ => ?_) (ordered_singleton trivial)
  refine Body.Ordered.append (Body.Ordered.of_onData ?_) (ordered_processInputBody packet)
  simp [Operation.empty, Operation.tryPop, Operation.OnData]

theorem ordered_outputsBody (outputs : ℕ) : (outputsBody outputs).Ordered := by
  refine Body.Ordered.append (Body.Ordered.flatMap fun _ _ => ?_) (ordered_singleton trivial)
  apply Body.Ordered.of_onData
  simp [Operation.empty, Operation.tryPop, Operation.push, Operation.OnData]

theorem ordered_tickBody (inputs : List ServerPacket) (players outputs : ℕ) :
    (tickBody inputs players outputs).Ordered := by
  refine .append (.append (.append (.append ?_ (ordered_inputsBody inputs)) ?_)
    (Body.Ordered.flatMap fun _ _ => ?_)) (ordered_outputsBody outputs)
  · apply Body.Ordered.of_onData
    simp [Operation.tsSwap, Operation.size, Operation.OnData]
  · apply Body.Ordered.of_onData
    simp [Operation.OnData]
  · apply Body.Ordered.of_onData
    simp [Operation.push, Operation.OnData]

/-- Every call takes the mutexes of the maps before those of the queues, waits on a queue only
    while it holds no other mutex, and gives back all of them. -/
theorem Call.ordered (call : Call) : call.body.Ordered := by
  cases call with
  | addSession =>
    refine (Body.ordered_lockGuard rfl ?_).append (ordered_singleton trivial)
    simp [Operation.OnData]
  | pushPacket => exact ordered_singleton trivial
  | closeSession found =>
    refine Body.ordered_lockGuard rfl ?_
    cases found <;> simp [Operation.push, Operation.OnData]
  | written id again =>
    refine .cons trivial ?_
    cases again with
    | none => exact Body.Ordered.of_onData (by simp)
    | some exit => exact ordered_sendBody id exit
  | sender waits recipients =>
    exact (ordered_waitAndPop .netOut waits).append (ordered_recipientsBody recipients)
  | tick inputs players outputs => exact ordered_tickBody inputs players outputs
  | playerNumbers => exact Body.ordered_lockGuard rfl (by simp [Operation.OnData])

/-! ## Who waits, and who swaps -/

/-- Only `Sender` waits, on the out queue of the network, and only `Tick` swaps, the two inbound
    queues. -/
def QueueCall.Fits {A : Type} : QueueCall QueueName A → Prop
  | .waitAndPop q => q = .netOut
  | .tsSwap lhs rhs => lhs = .gameIn ∧ rhs = .netIn
  | _ => True

def Operation.Fits : Operation → Prop
  | .queue call => call.Fits
  | .waitAndPop q _ => q = .netOut
  | _ => True

/-- None of these operations waits or swaps. -/
theorem Operation.fits_read (map : Mutex) : (Operation.read map).Fits := trivial
theorem Operation.fits_write (map : Mutex) : (Operation.write map).Fits := trivial
theorem Operation.fits_push (q : QueueName) : (Operation.push q).Fits := trivial
theorem Operation.fits_tryPop (q : QueueName) : (Operation.tryPop q).Fits := trivial
theorem Operation.fits_empty (q : QueueName) : (Operation.empty q).Fits := trivial
theorem Operation.fits_size (q : QueueName) : (Operation.size q).Fits := trivial

theorem fits_lockGuard {mutex : Mutex} (h : ∀ a ∈ block, a.Fits) :
    ∀ a ∈ lockGuard mutex block, a.Fits := by
  unfold lockGuard
  rw [List.forall_mem_cons, List.forall_mem_append]
  exact ⟨trivial, h, by simp [Operation.Fits]⟩

theorem fits_sendBody (id : UInt64) (exit : SendExit) : ∀ a ∈ sendBody id exit, a.Fits := by
  cases exit with
  | isConnected => simp [sendBody]
  | empty | startSending => simp [sendBody, Operation.fits_empty]
  | tryPop => simp [sendBody, Operation.fits_empty, Operation.fits_tryPop]

theorem fits_pushToSendBody (target : UInt64 × SendExit) :
    ∀ a ∈ pushToSendBody target, a.Fits := by
  rw [pushToSendBody, List.forall_mem_cons]
  exact ⟨Operation.fits_push _, fits_sendBody _ _⟩

theorem fits_recipientsBody (recipients : Recipients) :
    ∀ a ∈ recipientsBody recipients, a.Fits := by
  cases recipients with
  | rpc target =>
    rw [recipientsBody, List.forall_mem_cons]
    exact ⟨Operation.fits_write _, fits_pushToSendBody target⟩
  | loop targets =>
    simp only [recipientsBody, List.forall_mem_cons, List.forall_mem_flatMap,
      List.forall_mem_append]
    refine ⟨Operation.fits_read _, fun target _ => ⟨?_, Operation.fits_read _, by simp⟩⟩
    cases target with
    | none => simp
    | some target => exact fits_pushToSendBody target

theorem fits_processInputBody (packet : ServerPacket) : ∀ a ∈ processInputBody packet, a.Fits := by
  rw [processInputBody, List.forall_mem_cons]
  refine ⟨Operation.fits_write _, ?_⟩
  split
  · rw [addPlayerBody, List.forall_mem_append]
    exact ⟨fits_lockGuard (by simp [Operation.fits_push, Operation.fits_read,
      Operation.fits_write]), by simp [Operation.fits_push]⟩
  · exact fits_lockGuard (by simp [Operation.fits_push, Operation.fits_write])
  · simp

theorem fits_tickBody (inputs : List ServerPacket) (players outputs : ℕ) :
    ∀ a ∈ tickBody inputs players outputs, a.Fits := by
  unfold tickBody inputsBody outputsBody
  simp only [List.forall_mem_append, List.forall_mem_flatMap]
  refine ⟨⟨⟨⟨?_, ?_, ?_⟩, ?_⟩, ?_⟩, ?_, ?_⟩
  · rw [List.forall_mem_cons]
    exact ⟨⟨rfl, rfl⟩, by simp [Operation.fits_size, Operation.fits_read]⟩
  · refine fun packet _ => ⟨?_, fits_processInputBody packet⟩
    simp [Operation.fits_empty, Operation.fits_tryPop]
  · simp [Operation.fits_empty]
  · simp [Operation.fits_read]
  · intro _ _
    simp [Operation.fits_push, Operation.fits_read]
  · intro _ _
    simp [Operation.fits_empty, Operation.fits_tryPop, Operation.fits_push]
  · simp [Operation.fits_empty]

theorem Call.fits (call : Call) : ∀ a ∈ call.body, a.Fits := by
  cases call with
  | addSession =>
    rw [Call.body, addSessionBody, List.forall_mem_append]
    exact ⟨fits_lockGuard (by simp [Operation.fits_write]), by simp [Operation.fits_push]⟩
  | pushPacket => simp [Call.body, pushPacketBody, Operation.fits_push]
  | closeSession found =>
    cases found <;> exact fits_lockGuard (by simp [Operation.fits_push, Operation.fits_read,
      Operation.fits_write])
  | written id again =>
    rw [Call.body, writtenBody, List.forall_mem_cons]
    cases again with
    | none => exact ⟨Operation.fits_empty _, by simp⟩
    | some exit => exact ⟨Operation.fits_empty _, fits_sendBody id exit⟩
  | sender waits recipients =>
    rw [Call.body, senderBody, List.forall_mem_cons]
    exact ⟨rfl, fits_recipientsBody recipients⟩
  | tick inputs players outputs => exact fits_tickBody inputs players outputs
  | playerNumbers => exact fits_lockGuard (by simp [Operation.fits_read])

/-! ## No deadlock -/

theorem IsCall.ordered {calls : ℕ → Call → Prop} (t : ℕ) (program : List (LockOp Mutex))
    (h : IsCall calls t program) : Lib.Ordered Mutex.rank [] program [] := by
  obtain ⟨call, -, rfl⟩ := h
  exact call.ordered

/-- Only `WaitAndPop` parks a thread, on the queue that it is called for. -/
theorem Operation.Fits.park {a : Operation} (h : a.Fits) (hpark : .park mutexes ∈ a.locks) :
    mutexes = [.data .netOut] := by
  cases a with
  | lock | unlock | read | write => cases List.mem_singleton.mp hpark
  | queue call => simp [Operation.locks] at hpark
  | waitAndPop queue waits =>
    obtain rfl : queue = .netOut := h
    simp only [Operation.locks, List.mem_cons, List.mem_append, List.mem_flatten,
      List.mem_replicate, List.not_mem_nil, or_false, reduceCtorEq, false_or] at hpark
    obtain ⟨round, ⟨-, rfl⟩, hround⟩ := hpark
    simpa using hround

theorem IsCall.park {calls : ℕ → Call → Prop} {t : ℕ} {program : List (LockOp Mutex)}
    (h : IsCall calls t program) (hpark : .park mutexes ∈ program) :
    mutexes = [.data .netOut] := by
  obtain ⟨call, -, rfl⟩ := h
  obtain ⟨a, ha, hpark⟩ := List.mem_flatMap.mp hpark
  exact (call.fits a ha).park hpark

/-- However many threads there are, whichever of these calls each of them makes, and however
    they are interleaved: a thread that is parked is in `WaitAndPop` on the out queue of the
    network and holds no mutex. A thread that is in a call and is not parked can go on, or waits
    for a mutex that a thread holds which can go on, or which waits for one that can. -/
theorem never_deadlocked {calls : ℕ → Call → Prop} {events : List (LockEvent Mutex ℕ)}
    {s : Locking Mutex ℕ} (h : LocksRun calls events s) (t : ℕ) :
    (s.parked t = true →
      s.held t = [] ∧ ∃ rest, s.rest t = .acquire [.data .netOut] :: rest) ∧
    (s.parked t = false → s.rest t ≠ [] →
      ∃ n u, n ≤ 2 ∧ WaitsThrough s n t u ∧ Enabled (IsCall calls) s u) := by
  constructor
  · intro hparked
    obtain ⟨hnone, p, locks, rest, hp, hpark, hrest⟩ :=
      (disciplined_run IsCall.ordered h t).parked hparked
    obtain rfl := hp.park hpark
    exact ⟨hnone, rest, hrest⟩
  · intro hawake hrest
    exact exists_enabled Mutex.rank_le IsCall.ordered h hrest hawake

/-- Thread `3` is parked in `Sender`. Thread `2` adds a session, and waits for thread `0`, which
    closes one and waits for thread `1`, which pushes a packet. -/
def crowded : List (LockEvent Mutex ℕ) :=
  [.start 3 (Call.sender 1 (.loop [])).body.locks, .goOn 3, .goOn 3, .goOn 3,
    .start 0 (Call.closeSession true).body.locks, .goOn 0, .start 1 Call.pushPacket.body.locks,
    .goOn 1, .start 2 Call.addSession.body.locks]

theorem never_deadlocked_crowded : ∃ s, LocksRun (fun _ _ => True) crowded s ∧ s.held 3 = [] ∧
    ∃ n u, n ≤ 2 ∧ WaitsThrough s n 2 u ∧ Enabled (IsCall fun _ _ => True) s u := by
  have hstart : LocksRun (fun _ _ => True) [] ({} : Locking Mutex ℕ) := .nil
  have hrun := hstart
    |>.snoc (.start (t := 3) rfl ⟨.sender 1 (.loop []), trivial, rfl⟩)
    |>.snoc (.acquire (t := 3) rfl rfl fun _ _ _ => by simp [Locking.set])
    |>.snoc (.access (t := 3) rfl)
    |>.snoc (.park (t := 3) rfl)
    |>.snoc (.start (t := 0) rfl ⟨.closeSession true, trivial, rfl⟩)
    |>.snoc (.acquire (t := 0) rfl rfl fun _ _ _ => by simp [Locking.set])
    |>.snoc (.start (t := 1) rfl ⟨.pushPacket, trivial, rfl⟩)
    |>.snoc (.acquire (t := 1) rfl rfl fun m hm u => by
      obtain rfl : m = .data .netIn := by simpa [QueueCall.queues] using hm
      by_cases hu : u = 0
      · subst hu
        simp [Locking.set]
      · simp [Locking.set, Function.update_apply, hu])
    |>.snoc (.start (t := 2) rfl ⟨.addSession, trivial, rfl⟩)
  exact ⟨_, hrun, ((never_deadlocked hrun 3).1 rfl).1,
    (never_deadlocked hrun 2).2 rfl (List.cons_ne_nil _ _)⟩

/-! ## No lost wakeup -/

/-- A call without the item that it pushes. -/
def QueueCall.erase {Q A : Type} : QueueCall Q A → QueueCall Q Unit
  | .push q _ => .push q ()
  | .tryPop q => .tryPop q
  | .waitAndPop q => .waitAndPop q
  | .empty q => .empty q
  | .size q => .size q
  | .tsSwap lhs rhs => .tsSwap lhs rhs

theorem QueueCall.fits_of_erase {A : Type} {call : QueueCall QueueName A} (h : call.erase.Fits) :
    call.Fits := by
  cases call <;> exact h

section Wakeups

variable {A T : Type} [DecidableEq T] {s s' : QueueName → TSQueue A T} {op : QueueOp QueueName A T}

/-- The function of a queue that an operation calls. -/
def Operation.call : Operation → Option (QueueCall QueueName Unit)
  | .queue call => some call
  | .waitAndPop q _ => some (.waitAndPop q)
  | _ => none

theorem Operation.Fits.call {a : Operation} {call : QueueCall QueueName Unit} (h : a.Fits)
    (hcall : a.call = some call) : call.Fits := by
  cases a with
  | lock | unlock | read | write => cases hcall
  | queue | waitAndPop =>
    cases hcall
    exact h

/-- A step that belongs to a call of the program. -/
def QueueOp.OfCall (op : QueueOp QueueName A T) : Prop :=
  ∀ c ∈ op.call, ∃ call : Call, ∃ a ∈ call.body, a.call = some c.2.erase

omit [DecidableEq T] in
theorem QueueOp.OfCall.fits (h : op.OfCall) : ∀ c ∈ op.call, c.2.Fits := by
  intro c hc
  obtain ⟨call, a, ha, hcall⟩ := h c hc
  exact QueueCall.fits_of_erase ((call.fits a ha).call hcall)

/-- Nobody is parked on a queue other than the out queue of the network. -/
def SendersWait (s : QueueName → TSQueue A T) : Prop :=
  ∀ q, q ≠ .netOut → (s q).dataCond.parked = ∅

omit [DecidableEq T] in
theorem SendersWait.update {q : QueueName} {queue : TSQueue A T} (h : SendersWait s)
    (hqueue : q ≠ .netOut → queue.dataCond.parked = ∅) :
    SendersWait (Function.update s q queue) := by
  intro p hp
  by_cases heq : p = q
  · subst heq
    rw [Function.update_self]
    exact hqueue hp
  · rw [Function.update_of_ne heq]
    exact h p hp

theorem sendersWait_next (h : SendersWait s) (hfits : ∀ c ∈ op.call, c.2.Fits)
    (hnext : QueueNext s op s') : SendersWait s' := by
  cases hnext with
  | @push t q value queue _ hpush =>
    refine h.update fun hq => ?_
    obtain ⟨hnotify⟩ := hpush
    have hnone := h q hq
    cases hnotify with
    | nobody => exact hnone
    | one hparked =>
      rw [hnone] at hparked
      exact absurd hparked (Finset.notMem_empty _)
  | @tryPop t q _ =>
    refine h.update fun hq => ?_
    unfold TSQueue.tryPop
    split <;> exact h q hq
  | @waitAndPop t q hawake => exact h.update fun hq => absurd (hfits _ rfl) hq
  | @wakeUp t q hparked =>
    refine h.update fun hq => ?_
    rw [h q hq] at hparked
    exact absurd hparked (Finset.notMem_empty t)
  | @resume t q hparked hwaiting => exact h.update fun hq => absurd (hfits _ rfl) hq
  | @tsSwap t lhs rhs _ =>
    unfold tsSwap
    split_ifs
    · exact h
    · have hlhs : SendersWait (Function.update s lhs { s lhs with data := (s rhs).data }) :=
        h.update (h lhs)
      exact hlhs.update (h rhs)

omit [DecidableEq T] in
/-- The swaps of `Tick` are of queues that nobody waits on. -/
theorem swapQuiet_of_fits (h : SendersWait s) (hfits : ∀ c ∈ op.call, c.2.Fits) :
    SwapQuiet s op := by
  cases op with
  | tsSwap t lhs rhs =>
    intro _
    obtain ⟨rfl, rfl⟩ := hfits _ rfl
    have hlhs := h .gameIn (by decide)
    have hrhs := h .netIn (by decide)
    constructor
    · intro hparked
      rw [hlhs] at hparked
      exact absurd hparked Finset.not_nonempty_empty
    · intro hparked
      rw [hrhs] at hparked
      exact absurd hparked Finset.not_nonempty_empty
  | push | tryPop | waitAndPop | wakeUp | resume => trivial

/-- In every run of the calls of the program, by any number of threads: a sender that is parked
    on the out queue without a notification leaves no packet behind that no other sender is on
    its way for. -/
theorem calls_lose_no_wakeup {ops : List (QueueOp QueueName A T)}
    (h : Run QueueNext (fun _ => {}) ops s) (hops : ∀ op ∈ ops, op.OfCall) : NoLostWakeup s := by
  have hboth : (∀ op ∈ ops, op.OfCall) → NoLostWakeup s ∧ SendersWait s := by
    refine h.invariant_trace (I := fun ops s =>
      (∀ op ∈ ops, op.OfCall) → NoLostWakeup s ∧ SendersWait s) ?_ ?_
    · exact fun _ => ⟨fun _ => CondVar.covered_zero, fun _ _ => rfl⟩
    · intro ops s op s' ih hnext hall
      rw [List.forall_mem_append, List.forall_mem_singleton] at hall
      obtain ⟨hcovered, hwait⟩ := ih hall.1
      have hfits := hall.2.fits
      exact ⟨queueNext_covered hcovered (swapQuiet_of_fits hwait hfits) hnext,
        sendersWait_next hwait hfits hnext⟩
  exact (hboth hops).1

end Wakeups

/-- A session pushes a packet, the world swaps the inbound queues, a sender waits, and the world
    pushes a packet for it. -/
def wakesSender : List (QueueOp QueueName ℕ ℕ) :=
  [.push 2 .netIn 5, .tsSwap 1 .gameIn .netIn, .waitAndPop 0 .netOut, .push 1 .netOut 7]

theorem calls_lose_no_wakeup_wakesSender :
    ∃ s, Run QueueNext (fun _ => {}) wakesSender s ∧ NoLostWakeup s := by
  have hnobody : ∀ t, t ∉ ({} : CondVar ℕ).waiting := by simp [CondVar.waiting]
  have hrun : ∃ s, Run QueueNext (fun _ => {}) wakesSender s ∧ True := by
    apply Run.exists_cons (.push (fun _ => hnobody 2) (.intro (.nobody rfl)))
    apply Run.exists_cons (.tsSwap fun q => by cases q <;> exact hnobody 1)
    apply Run.exists_cons (.waitAndPop fun q => by cases q <;> exact hnobody 0)
    refine Run.exists_cons (.push (fun q => ?_)
      (.intro (.one (t := 0) (Finset.mem_insert_self 0 ∅)))) ⟨_, .nil, trivial⟩
    cases q with
    | netOut =>
      show 1 ∉ (insert 0 ∅ ∪ ∅ ∪ ∅ : Finset ℕ)
      decide
    | netIn | gameIn | gameOut | session => exact hnobody 1
  obtain ⟨s, hs, -⟩ := hrun
  refine ⟨s, hs, calls_lose_no_wakeup hs ?_⟩
  simp only [wakesSender, List.forall_mem_cons]
  refine ⟨?_, ?_, ?_, ?_, by simp⟩
  · rintro c ⟨⟩
    exact ⟨.pushPacket, .push .netIn, List.mem_singleton.mpr rfl, rfl⟩
  · rintro c ⟨⟩
    exact ⟨.tick [] 0 0, .tsSwap .gameIn .netIn, List.mem_cons_self, rfl⟩
  · rintro c ⟨⟩
    exact ⟨.sender 0 (.loop []), .waitAndPop .netOut 0, List.mem_cons_self, rfl⟩
  · rintro c ⟨⟩
    refine ⟨.tick [] 0 1, .push .netOut, ?_, rfl⟩
    simp [Call.body, tickBody, outputsBody]

end EndlessPeak
