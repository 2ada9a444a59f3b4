import EndlessPeak.Game.Candidates
import EndlessPeak.Game.Tick
import EndlessPeak.Lib.Potential

/-!
# The inbound queues, step by step

Session threads push packets to the network in queue at any time, also while the game
thread is inside `World::Tick`. Here every operation on a queue is a step of its own:
`Push`, `TSSwap`, `Empty` and `TryPop`; a call of `ProcessInput` and each loop over the
players touch nothing but the game thread's own data, and are one step each.

A step is `none` if it cannot be taken, or if the program dereferences a null pointer
in it.

* `Pipeline.Sound`: what is in the queues and in the hands of the game thread
  (`pipeline_sound`).
* `tick_refines`: the steps of a tick do what `World.tick` does at once, whatever is
  pushed in between.
* `inputs_in_order`: packets are processed in the order they were pushed, each once,
  and all that came before a `TSSwap` by the end of its tick. The world is that of the
  ticks on the packets processed, and every tick comes to an end.
-/

namespace EndlessPeak

open Lib

/-! ## The model -/

/-- Where the game thread is in `World::Tick`. -/
inductive Stage where
  /-- Between two ticks. -/
  | idle
  /-- Before the loop that resets the velocities. -/
  | reset (dt : ℚ)
  /-- At `while (!game_subsystem_->in_queue_.Empty())`. -/
  | drain (dt : ℚ)
  /-- Before `in_queue_.TryPop()`. -/
  | pop (dt : ℚ)
  /-- Before `ProcessInput` of a packet that has been popped. -/
  | process (dt : ℚ) (packet : ServerPacket)
  /-- Before the loop that updates the players. -/
  | update (dt : ℚ)
  /-- At `while (!game_subsystem_->out_queue_.Empty())`. -/
  | flush
  /-- Before `out_queue_.TryPop()`. -/
  | flushPop
  /-- Before the push of a packet that has been popped. -/
  | flushPush (packet : ServerPacket)

/-- The game thread and the queues between two steps; `processed` logs the packets that
    `ProcessInput` has processed. -/
structure Pipeline where
  world : World := {}
  net : Subsystem := {}
  stage : Stage := .idle
  processed : List ServerPacket := []

/-- What can happen next. -/
inductive Action where
  /-- A session thread pushes a packet. -/
  | push (thread : ℕ) (packet : ServerPacket)
  /-- The game thread calls `Tick`, which starts with `TSSwap`. -/
  | swap (dt : ℚ)
  /-- The game thread goes on in `Tick`. -/
  | next

/-- The game in queue set to `packets`. -/
def World.setInQueue (w : World) (packets : List ServerPacket) : World :=
  { w with game := { w.game with inQueue := packets } }

/-- The game out queue set to `packets`. -/
def World.setOutQueue (w : World) (packets : List ServerPacket) : World :=
  { w with game := { w.game with outQueue := packets } }

namespace Pipeline

/-- The next step of the game thread in `World::Tick`. -/
def advance (platform : Platform) (config : GameConfig) (s : Pipeline) : Option Pipeline :=
  match s.stage with
  | .idle => none
  | .reset dt =>
    (s.world.forEach platform fun player => (player.setVel 0 player.velY, [])).map fun world =>
      { s with world, stage := .drain dt }
  | .drain dt =>
    some { s with stage := if s.world.game.inQueue.isEmpty then .update dt else .pop dt }
  | .pop dt =>
    match s.world.game.inQueue with
    | [] => some { s with stage := .drain dt }
    | packet :: rest =>
      some { s with world := s.world.setInQueue rest, stage := .process dt packet }
  | .process dt packet =>
    (s.world.processInput platform config dt packet).map fun world =>
      { s with world, stage := .drain dt, processed := s.processed ++ [packet] }
  | .update dt =>
    (s.world.forEach platform (EndlessPeak.update platform config dt)).map fun world =>
      { s with world, stage := .flush }
  | .flush => some { s with stage := if s.world.game.outQueue.isEmpty then .idle else .flushPop }
  | .flushPop =>
    match s.world.game.outQueue with
    | [] => none
    | packet :: rest =>
      some { s with world := s.world.setOutQueue rest, stage := .flushPush packet }
  | .flushPush packet =>
    some { s with net := { s.net with outQueue := s.net.outQueue ++ [packet] }, stage := .flush }

/-- One step. -/
def step (platform : Platform) (config : GameConfig) (s : Pipeline) : Action → Option Pipeline
  | .push _ packet =>
    some { s with net := { s.net with inQueue := s.net.inQueue ++ [packet] } }
  | .swap dt =>
    match s.stage with
    | .idle => some { s with
        world := s.world.setInQueue s.net.inQueue
        net := { s.net with inQueue := s.world.game.inQueue }
        stage := .reset dt }
    | _ => none
  | .next => s.advance platform config

/-- The next step of the game thread dereferences a null pointer. -/
def Faults (platform : Platform) (config : GameConfig) (s : Pipeline) : Prop :=
  match s.stage with
  | .reset _ => s.world.forEach platform (fun player => (player.setVel 0 player.velY, [])) = none
  | .process dt packet => s.world.processInput platform config dt packet = none
  | .update dt => s.world.forEach platform (EndlessPeak.update platform config dt) = none
  | _ => False

end Pipeline

/-- The steps can be taken in this order from the start of the program, and lead to the
    last argument. -/
def PipelineRun (platform : Platform) (config : GameConfig) : List Action → Pipeline → Prop :=
  Run (stepRel (Pipeline.step platform config)) {}

/-- The packet that a step pushes to the network in queue. -/
def Action.pushed : Action → Option ServerPacket
  | .push _ packet => some packet
  | _ => none

/-- The packets pushed to the network in queue, in push order. -/
def pushedIn (actions : List Action) : List ServerPacket := actions.filterMap Action.pushed

theorem pushedIn_snoc (actions : List Action) (a : Action) :
    pushedIn (actions ++ [a]) = pushedIn actions ++ a.pushed.toList :=
  filterMap_snoc Action.pushed actions a

/-- No tick starts in these steps. -/
def NoSwap (actions : List Action) : Prop := ∀ dt, .swap dt ∉ actions

/-! ## Where the packets are -/

/-- The packet that has been popped and not been processed yet. -/
def Stage.inHand : Stage → List ServerPacket
  | .process _ packet => [packet]
  | _ => []

/-- The game thread is past the loop that empties the game in queue. -/
def Stage.Drained : Stage → Prop
  | .reset _ | .drain _ | .pop _ | .process _ _ => False
  | _ => True

namespace Pipeline

variable {platform : Platform} {config : GameConfig} {s s' : Pipeline} {actions : List Action}

/-- The packets that have left the network in queue, oldest first. -/
def taken (s : Pipeline) : List ServerPacket :=
  s.processed ++ s.stage.inHand ++ s.world.game.inQueue

theorem step_swap_eq_some {dt : ℚ} : s.step platform config (.swap dt) = some s' ↔
    s.stage = .idle ∧ s' = { s with
      world := s.world.setInQueue s.net.inQueue
      net := { s.net with inQueue := s.world.game.inQueue }
      stage := .reset dt } := by
  unfold step
  cases h : s.stage <;> simp [eq_comm]

/-- What the next step of the game thread can be. -/
inductive Advance (platform : Platform) (config : GameConfig) (s : Pipeline) : Pipeline → Prop
  | reset {dt : ℚ} {world : World} (hstage : s.stage = .reset dt)
      (hloop : s.world.forEach platform (fun player => (player.setVel 0 player.velY, [])) =
        some world) : Advance platform config s { s with world, stage := .drain dt }
  | empty {dt : ℚ} (hstage : s.stage = .drain dt) (hq : s.world.game.inQueue = []) :
      Advance platform config s { s with stage := .update dt }
  | nonempty {dt : ℚ} (hstage : s.stage = .drain dt) (hq : s.world.game.inQueue ≠ []) :
      Advance platform config s { s with stage := .pop dt }
  | popNone {dt : ℚ} (hstage : s.stage = .pop dt) (hq : s.world.game.inQueue = []) :
      Advance platform config s { s with stage := .drain dt }
  | pop {dt : ℚ} {packet : ServerPacket} {rest : List ServerPacket} (hstage : s.stage = .pop dt)
      (hq : s.world.game.inQueue = packet :: rest) :
      Advance platform config s
        { s with world := s.world.setInQueue rest, stage := .process dt packet }
  | process {dt : ℚ} {packet : ServerPacket} {world : World} (hstage : s.stage = .process dt packet)
      (hinput : s.world.processInput platform config dt packet = some world) :
      Advance platform config s
        { s with world, stage := .drain dt, processed := s.processed ++ [packet] }
  | update {dt : ℚ} {world : World} (hstage : s.stage = .update dt)
      (hloop : s.world.forEach platform (EndlessPeak.update platform config dt) = some world) :
      Advance platform config s { s with world, stage := .flush }
  | flushed (hstage : s.stage = .flush) (hq : s.world.game.outQueue = []) :
      Advance platform config s { s with stage := .idle }
  | flush (hstage : s.stage = .flush) (hq : s.world.game.outQueue ≠ []) :
      Advance platform config s { s with stage := .flushPop }
  | flushPop {packet : ServerPacket} {rest : List ServerPacket} (hstage : s.stage = .flushPop)
      (hq : s.world.game.outQueue = packet :: rest) :
      Advance platform config s
        { s with world := s.world.setOutQueue rest, stage := .flushPush packet }
  | flushPush {packet : ServerPacket} (hstage : s.stage = .flushPush packet) :
      Advance platform config s
        { s with net := { s.net with outQueue := s.net.outQueue ++ [packet] }, stage := .flush }

theorem advance_cases (h : s.advance platform config = some s') :
    Advance platform config s s' := by
  unfold advance at h
  cases hstage : s.stage with
  | idle => simp [hstage] at h
  | reset dt =>
    simp only [hstage, Option.map_eq_some_iff] at h
    obtain ⟨world, hloop, rfl⟩ := h
    exact .reset hstage hloop
  | drain dt =>
    simp only [hstage, Option.some_inj] at h
    subst h
    by_cases hq : s.world.game.inQueue = []
    · simpa [hq] using Advance.empty hstage hq
    · simpa [hq] using Advance.nonempty hstage hq
  | pop dt =>
    simp only [hstage] at h
    cases hq : s.world.game.inQueue with
    | nil =>
      rw [hq, Option.some_inj] at h
      subst h
      exact .popNone hstage hq
    | cons packet rest =>
      rw [hq, Option.some_inj] at h
      subst h
      exact .pop hstage hq
  | process dt packet =>
    simp only [hstage, Option.map_eq_some_iff] at h
    obtain ⟨world, hinput, rfl⟩ := h
    exact .process hstage hinput
  | update dt =>
    simp only [hstage, Option.map_eq_some_iff] at h
    obtain ⟨world, hloop, rfl⟩ := h
    exact .update hstage hloop
  | flush =>
    simp only [hstage, Option.some_inj] at h
    subst h
    by_cases hq : s.world.game.outQueue = []
    · simpa [hq] using Advance.flushed hstage hq
    · simpa [hq] using Advance.flush hstage hq
  | flushPop =>
    simp only [hstage] at h
    cases hq : s.world.game.outQueue with
    | nil => simp [hq] at h
    | cons packet rest =>
      rw [hq, Option.some_inj] at h
      subst h
      exact .flushPop hstage hq
  | flushPush packet =>
    simp only [hstage, Option.some_inj] at h
    subst h
    exact .flushPush hstage

/-- The game thread loses no packet on its way, and leaves the network in queue alone. -/
theorem advance_taken (h : Advance platform config s s') :
    s'.taken = s.taken ∧ s'.net.inQueue = s.net.inQueue := by
  unfold taken
  cases h with
  | reset hstage hloop | update hstage hloop =>
    simp [hstage, Stage.inHand, World.forEach_inQueue hloop]
  | process hstage hinput => simp [hstage, Stage.inHand, World.processInput_inQueue hinput]
  | pop hstage hq => simp [hstage, Stage.inHand, hq, World.setInQueue]
  | empty hstage | nonempty hstage | popNone hstage | flushed hstage | flush hstage
  | flushPush hstage => simp [hstage, Stage.inHand]
  | flushPop hstage => simp [hstage, Stage.inHand, World.setOutQueue]

/-- The game thread leaves its loop only when the game in queue is empty. -/
theorem advance_drained (hs : s.stage.Drained → s.world.game.inQueue = [])
    (h : Advance platform config s s') (hdrained : s'.stage.Drained) :
    s'.world.game.inQueue = [] := by
  cases h with
  | empty hstage hq => exact hq
  | update hstage hloop =>
    rw [World.forEach_inQueue hloop]
    exact hs (by rw [hstage]; trivial)
  | flushed hstage | flush hstage | flushPop hstage | flushPush hstage =>
    exact hs (by rw [hstage]; trivial)
  | reset | nonempty | popNone | pop | process => exact hdrained.elim

/-! ## The order of the packets -/

/-- The invariant of every run: all pushed packets are where they should be, the game in
    queue is empty outside the loop that empties it, and since the last `TSSwap` no
    packet has been added to those taken. -/
structure Sound (actions : List Action) (s : Pipeline) : Prop where
  pushed : s.taken ++ s.net.inQueue = pushedIn actions
  drained : s.stage.Drained → s.world.game.inQueue = []
  swapped : ∀ before dt during, actions = before ++ .swap dt :: during → NoSwap during →
    s.taken = pushedIn before

/-- A step that starts no tick leaves the interval since the last `TSSwap` open. -/
theorem swapped_snoc {a : Action} (hs : Sound actions s) (ha : ∀ dt, a ≠ .swap dt)
    (htaken : s'.taken = s.taken) : ∀ before dt during,
      actions ++ [a] = before ++ .swap dt :: during → NoSwap during →
        s'.taken = pushedIn before := by
  intro before dt during heq hno
  rcases snoc_eq_append_cons.mp heq with ⟨-, hlast, -⟩ | ⟨during', rfl, hinit⟩
  · exact absurd hlast (ha dt)
  · rw [htaken]
    exact hs.swapped before dt during' hinit fun dt' hmem =>
      hno dt' (List.mem_append_left _ hmem)

theorem sound_step {a : Action} (hs : Sound actions s)
    (h : s.step platform config a = some s') : Sound (actions ++ [a]) s' := by
  cases a with
  | push thread packet =>
    simp only [step, Option.some_inj] at h
    subst h
    refine ⟨?_, hs.drained, swapped_snoc hs (by simp) rfl⟩
    rw [pushedIn_snoc, ← hs.pushed]
    simp [Action.pushed, taken]
  | swap dt =>
    obtain ⟨hidle, rfl⟩ := step_swap_eq_some.mp h
    have hempty : s.world.game.inQueue = [] := hs.drained (by rw [hidle]; trivial)
    have hall : s.processed ++ s.net.inQueue = pushedIn actions := by
      have hpushed := hs.pushed
      simpa [taken, hidle, hempty, Stage.inHand] using hpushed
    have htaken : s.processed ++ [] ++ s.net.inQueue = pushedIn actions := by simpa using hall
    refine ⟨?_, fun hd => hd.elim, ?_⟩
    · rw [pushedIn_snoc]
      simpa [taken, Stage.inHand, World.setInQueue, Action.pushed, hempty] using hall
    · intro before dt' during heq hno
      rcases snoc_eq_append_cons.mp heq with ⟨rfl, -, -⟩ | ⟨during', rfl, -⟩
      · exact htaken
      · exact absurd (List.mem_append_right _ List.mem_cons_self) (hno dt)
  | next =>
    have hcases := advance_cases h
    obtain ⟨htaken, hnet⟩ := advance_taken hcases
    refine ⟨?_, advance_drained hs.drained hcases, swapped_snoc hs (by simp) htaken⟩
    rw [pushedIn_snoc, htaken, hnet, hs.pushed]
    simp [Action.pushed]

end Pipeline

variable {platform : Platform} {config : GameConfig} {actions : List Action} {s : Pipeline}

theorem pipeline_sound (h : PipelineRun platform config actions s) : Pipeline.Sound actions s := by
  refine h.invariant_trace ⟨rfl, fun _ => rfl, ?_⟩ fun _ _ _ _ hs hstep =>
    Pipeline.sound_step hs hstep
  intro before dt during heq
  simp at heq

/-! ## A tick as one step -/

/-- How far a tick from the world `w` and the queues `net` has come, by the stage: what
    has been done of `World.tick`, with `done` the packets that have been processed. -/
def InTick (platform : Platform) (config : GameConfig) (dt : ℚ) (w : World) (net : Subsystem)
    (done : List ServerPacket) (world : World) (outQueue : List ServerPacket) : Stage → Prop
  | .reset dt' => dt' = dt ∧ outQueue = net.outQueue ∧ done = [] ∧
      world = w.setInQueue net.inQueue
  | .drain dt' => dt' = dt ∧ outQueue = net.outQueue ∧ Reads []
  | .pop dt' => dt' = dt ∧ outQueue = net.outQueue ∧ Reads []
  | .process dt' packet => dt' = dt ∧ outQueue = net.outQueue ∧ Reads [packet]
  | .update dt' => dt' = dt ∧ outQueue = net.outQueue ∧ done = net.inQueue ∧
      w.inputPhase platform config dt net.inQueue = some world
  | .flush => Writes outQueue
  | .flushPop => Writes outQueue ∧ world.game.outQueue ≠ []
  | .flushPush packet => Writes (outQueue ++ [packet])
  | .idle => done = net.inQueue ∧ w.tick platform config dt net =
      some (world, { inQueue := w.game.inQueue, outQueue := outQueue })
where
  /-- The packets `done` have been processed, the others are in hand and in the queue. -/
  Reads (inHand : List ServerPacket) : Prop :=
    ∃ w1, (w.setInQueue net.inQueue).forEach platform
        (fun player => (player.setVel 0 player.velY, [])) = some w1 ∧
      done ++ inHand ++ world.game.inQueue = net.inQueue ∧
      done.foldlM (World.processInput platform config dt) (w1.setInQueue []) =
        some (world.setInQueue [])
  /-- The players have been updated, and the packets are moved one by one. -/
  Writes (moved : List ServerPacket) : Prop :=
    done = net.inQueue ∧ ∃ w1 w2, w.inputPhase platform config dt net.inQueue = some w1 ∧
      w1.forEach platform (update platform config dt) = some w2 ∧
      world = w2.setOutQueue world.game.outQueue ∧
      moved ++ world.game.outQueue = net.outQueue ++ w2.game.outQueue

namespace World

variable {w : World} {dt : ℚ} {q : List ServerPacket} {p : ServerPacket}

@[simp] theorem setInQueue_inQueue (w : World) (q : List ServerPacket) :
    (w.setInQueue q).game.inQueue = q := rfl
@[simp] theorem setInQueue_setInQueue (w : World) (q q' : List ServerPacket) :
    (w.setInQueue q).setInQueue q' = w.setInQueue q' := rfl
@[simp] theorem setInQueue_player? (w : World) (q : List ServerPacket) (id : UInt64) :
    (w.setInQueue q).player? id = w.player? id := rfl

theorem setInQueue_self (h : w.game.inQueue = q) : w.setInQueue q = w := by
  subst h
  rfl

theorem setInQueue_touch (w : World) (q : List ServerPacket) (id : UInt64) :
    (w.setInQueue q).touch id = (w.touch id).setInQueue q := by
  unfold touch setInQueue
  cases w.players.lookup id <;> rfl

theorem processInput_setInQueue (w : World) (q : List ServerPacket) (p : ServerPacket) :
    (w.setInQueue q).processInput platform config dt p =
      (w.processInput platform config dt p).map fun v => v.setInQueue q := by
  have hadd : ∀ (v : World) player, (v.setInQueue q).addPlayer platform player =
      (v.addPlayer platform player).map fun v => v.setInQueue q := by
    intro v player
    simp only [addPlayer, Option.bind_eq_bind, Option.map_bind, Function.comp_def]
    rfl
  have hmodify : ∀ (v : World) f, (v.setInQueue q).modifyPlayer p.id f =
      (v.modifyPlayer p.id f).map fun v => v.setInQueue q := by
    intro v f
    simp only [modifyPlayer, Option.map_map, Function.comp_def]
    rfl
  rw [processInput_eq, processInput_eq, setInQueue_touch]
  rcases p.opcode with _ | o
  · rfl
  · cases o <;> simp only [hadd, hmodify, Option.map_some] <;> rfl

end World

section Refinement

variable {dt : ℚ} {w : World} {net : Subsystem} {s' : Pipeline}

/-- The game thread does what `World.tick` does, step by step, and the packets that it logs
    as processed are those that `ProcessInput` has been called with. -/
theorem inTick_advance {done : List ServerPacket}
    (h : InTick platform config dt w net done s.world s.net.outQueue s.stage)
    (hnext : Pipeline.Advance platform config s s') : ∃ more,
      s'.processed = s.processed ++ more ∧
      InTick platform config dt w net (done ++ more) s'.world s'.net.outQueue s'.stage := by
  cases hnext with
  | @reset _ world hstage hloop =>
    rw [hstage] at h
    obtain ⟨rfl, hout, rfl, hworld⟩ := h
    rw [hworld] at hloop
    refine ⟨[], by simp, rfl, hout, world, hloop, ?_, rfl⟩
    exact World.forEach_inQueue hloop
  | empty hstage hq =>
    rw [hstage] at h
    obtain ⟨rfl, hout, w1, hreset, hdone, hfold⟩ := h
    rw [hq, List.append_nil, List.append_nil] at hdone
    rw [World.setInQueue_self hq, hdone] at hfold
    refine ⟨[], by simp, rfl, hout, by rw [List.append_nil, hdone], ?_⟩
    exact World.inputPhase_eq_some.mpr ⟨w1, hreset, hfold⟩
  | nonempty hstage | popNone hstage =>
    rw [hstage] at h
    exact ⟨[], by simp, (List.append_nil done).symm ▸ h⟩
  | @pop _ packet rest hstage hq =>
    rw [hstage] at h
    obtain ⟨rfl, hout, w1, hreset, hdone, hfold⟩ := h
    rw [hq] at hdone
    refine ⟨[], by simp, rfl, hout, w1, hreset, ?_, ?_⟩
    · simpa using hdone
    · simpa using hfold
  | @process _ packet world hstage hinput =>
    rw [hstage] at h
    obtain ⟨rfl, hout, w1, hreset, hdone, hfold⟩ := h
    refine ⟨[packet], rfl, rfl, hout, w1, hreset, ?_, ?_⟩
    · rw [World.processInput_inQueue hinput, List.append_nil]
      exact hdone
    · rw [List.foldlM_append, hfold, Option.bind_eq_bind, Option.bind_some, List.foldlM_cons,
        World.processInput_setInQueue, hinput]
      rfl
  | @update _ world hstage hloop =>
    rw [hstage] at h
    obtain ⟨rfl, hout, hdone, hin⟩ := h
    refine ⟨[], by simp, by rw [List.append_nil, hdone], s.world, world, hin, hloop, rfl, ?_⟩
    rw [hout]
  | flushed hstage hq =>
    rw [hstage] at h
    obtain ⟨hdone, w1, w2, hin, hloop, hworld, hmoved⟩ := h
    rw [hq] at hworld hmoved
    rw [List.append_nil] at hmoved
    refine ⟨[], by simp, by rw [List.append_nil, hdone], ?_⟩
    exact World.tick_eq_some.mpr ⟨w1, w2, hin, hloop, hworld, by rw [hmoved]⟩
  | flush hstage hq =>
    rw [hstage] at h
    exact ⟨[], by simp, (List.append_nil done).symm ▸ h, hq⟩
  | @flushPop packet rest hstage hq =>
    rw [hstage] at h
    obtain ⟨⟨hdone, w1, w2, hin, hloop, hworld, hmoved⟩, -⟩ := h
    refine ⟨[], by simp, by rw [List.append_nil, hdone], w1, w2, hin, hloop, ?_, ?_⟩
    · rw [hworld]
      rfl
    · rw [← hmoved, hq]
      simp [World.setOutQueue]
  | flushPush hstage =>
    rw [hstage] at h
    exact ⟨[], by simp, (List.append_nil done).symm ▸ h⟩

/-- From a `TSSwap` to the end of its tick, the steps of the game thread do what
    `World.tick` does at once to the world and the queues it found; what the session
    threads push meanwhile is in the network in queue. -/
theorem tick_refines {during : List Action}
    (h : Run (stepRel (Pipeline.step platform config)) s (.swap dt :: during) s')
    (hno : NoSwap during) (hend : s'.stage = .idle) :
    s.world.tick platform config dt s.net =
        some (s'.world, { inQueue := s.world.game.inQueue, outQueue := s'.net.outQueue }) ∧
      s'.net.inQueue = s.world.game.inQueue ++ pushedIn during := by
  obtain ⟨t, hswap, hrest⟩ := Run.cons_iff.mp h
  obtain ⟨hidle, rfl⟩ := Pipeline.step_swap_eq_some.mp hswap
  have hinv : NoSwap during →
      (∃ done, InTick platform config dt s.world s.net done s'.world s'.net.outQueue s'.stage) ∧
        s'.net.inQueue = s.world.game.inQueue ++ pushedIn during := by
    refine hrest.invariant_trace (I := fun ls u => NoSwap ls →
      (∃ done, InTick platform config dt s.world s.net done u.world u.net.outQueue u.stage) ∧
        u.net.inQueue = s.world.game.inQueue ++ pushedIn ls) ?_ ?_
    · intro _
      exact ⟨⟨[], rfl, rfl, rfl, rfl⟩, by simp [pushedIn]⟩
    · intro ls u a u' hu hstep hno'
      obtain ⟨⟨done, htick⟩, hin⟩ := hu fun dt' hmem => hno' dt' (List.mem_append_left _ hmem)
      cases a with
      | push thread packet =>
        cases hstep
        refine ⟨⟨done, htick⟩, ?_⟩
        rw [pushedIn_snoc, hin]
        simp [Action.pushed]
      | swap dt' => exact absurd (List.mem_append_right _ List.mem_cons_self) (hno' dt')
      | next =>
        have hcases := Pipeline.advance_cases hstep
        obtain ⟨more, -, htick'⟩ := inTick_advance htick hcases
        refine ⟨⟨_, htick'⟩, ?_⟩
        rw [pushedIn_snoc, (Pipeline.advance_taken hcases).2, hin]
        simp [Action.pushed]
  obtain ⟨⟨done, htick⟩, hin⟩ := hinv hno
  rw [hend] at htick
  exact ⟨htick.2, hin⟩

end Refinement

/-! ## What the world has got -/

/-- The world and the network out queue are those of the ticks that are over, and of what has
    been done of the next one; the packets processed are those of these ticks and `done`. -/
inductive Played (platform : Platform) (config : GameConfig) (s : Pipeline) : Prop
  | idle (turns : List Turn) (hstage : s.stage = .idle)
      (hrun : GameRun platform config turns (s.world, { outQueue := s.net.outQueue }))
      (hprocessed : s.processed = turns.flatMap Turn.inputs)
  | inTick (turns : List Turn) (turn : Turn) (w : World) (outQueue : List ServerPacket)
      (done : List ServerPacket) (hstage : s.stage ≠ .idle)
      (hrun : GameRun platform config turns (w, { outQueue }))
      (htick : InTick platform config turn.dt w { inQueue := turn.inputs, outQueue } done s.world
        s.net.outQueue s.stage)
      (hprocessed : s.processed = turns.flatMap Turn.inputs ++ done)

namespace Pipeline

variable {s' : Pipeline}

theorem played_step {a : Action} (h : Played platform config s)
    (hstep : s.step platform config a = some s') : Played platform config s' := by
  cases a with
  | push thread packet =>
    cases hstep
    cases h with
    | idle turns hstage hrun hprocessed => exact .idle turns hstage hrun hprocessed
    | inTick turns turn w outQueue done hstage hrun htick hprocessed =>
      exact .inTick turns turn w outQueue done hstage hrun htick hprocessed
  | swap dt =>
    obtain ⟨hidle, rfl⟩ := step_swap_eq_some.mp hstep
    cases h with
    | inTick turns turn w outQueue done hstage => exact absurd hidle hstage
    | idle turns hstage hrun hprocessed =>
      exact .inTick turns ⟨dt, s.net.inQueue⟩ s.world s.net.outQueue [] (by simp) hrun
        ⟨rfl, rfl, rfl, rfl⟩ (by simpa using hprocessed)
  | next =>
    have hcases := advance_cases hstep
    cases h with
    | idle turns hstage =>
      have hnone : s.advance platform config = none := by simp [advance, hstage]
      rw [step, hnone] at hstep
      cases hstep
    | inTick turns turn w outQueue done hstage hrun htick hprocessed =>
      obtain ⟨more, hmore, htick'⟩ := inTick_advance htick hcases
      have hprocessed' : s'.processed = turns.flatMap Turn.inputs ++ (done ++ more) := by
        rw [hmore, hprocessed, List.append_assoc]
      by_cases hend : s'.stage = .idle
      · -- the tick is over
        rw [hend] at htick'
        obtain ⟨hdone, htick'⟩ := htick'
        have hqueues := game_inQueue hrun
        refine .idle (turns ++ [turn]) hend (hrun.snoc ?_) ?_
        · rw [hqueues.1] at htick'
          exact htick'
        · rw [hprocessed', hdone]
          simp
      · exact .inTick turns turn w outQueue _ hend hrun htick' hprocessed'

theorem goesOn_of_played (h : Played platform config s) (hstage : s.stage ≠ .idle) :
    s.Faults platform config ∨ ∃ s', s.step platform config .next = some s' := by
  have hloop : ∀ (o : Option World) (f : World → Pipeline),
      o = none ∨ ∃ s', o.map f = some s' := by
    intro o f
    cases o with
    | none => exact .inl rfl
    | some world => exact .inr ⟨f world, rfl⟩
  unfold Faults step advance
  cases hs : s.stage with
  | idle => exact absurd hs hstage
  | reset dt | update dt | process dt packet => exact hloop _ _
  | drain dt | flush | flushPush packet => exact .inr ⟨_, rfl⟩
  | pop dt => cases s.world.game.inQueue <;> exact .inr ⟨_, rfl⟩
  | flushPop =>
    cases h with
    | idle _ hidle => exact absurd hidle hstage
    | inTick turns turn w outQueue done _ hrun htick =>
      rw [hs] at htick
      cases hq : s.world.game.outQueue with
      | nil => exact absurd hq htick.2
      | cons packet rest => exact .inr ⟨_, rfl⟩

/-! ### The end of a tick -/

/-- What the steps of the game thread depend on, and what they change. -/
def core (s : Pipeline) : World × Stage := (s.world, s.stage)

/-- How much of the tick is left: first of the loop that reads, then of the one that writes. -/
def left : World × Stage → ℕ × ℕ
  | (world, stage) =>
    let reads := 3 * world.game.inQueue.length
    let writes := 3 * world.game.outQueue.length
    match stage with
    | .reset _ | .process _ _ => (reads + 3, 0)
    | .drain _ => (reads + 2, 0)
    | .pop _ => (if world.game.inQueue = [] then 3 else reads + 1, 0)
    | .update _ => (1, 0)
    | .flush => (0, writes + 2)
    | .flushPop => (0, writes + 1)
    | .flushPush _ => (0, writes + 3)
    | .idle => (0, 0)

theorem left_advance (h : Advance platform config s s') :
    Prod.Lex (· < ·) (· < ·) (left s'.core) (left s.core) := by
  rw [Prod.lex_def]
  cases h with
  | reset hstage hloop => simp [core, left, hstage, World.forEach_inQueue hloop]
  | process hstage hinput => simp [core, left, hstage, World.processInput_inQueue hinput]
  | empty hstage hq | nonempty hstage hq | popNone hstage hq | flushed hstage hq
  | flush hstage hq => simp [core, left, hstage, hq]
  | pop hstage hq =>
    simp only [core, left, hstage, hq, World.setInQueue, List.length_cons]
    exact .inl (by simp; omega)
  | flushPop hstage hq =>
    simp only [core, left, hstage, hq, World.setOutQueue, List.length_cons]
    exact .inr ⟨trivial, by omega⟩
  | update hstage | flushPush hstage => simp [core, left, hstage]

/-- The next step of the game thread, as far as it concerns its core. -/
def advanceCore (platform : Platform) (config : GameConfig) (c : World × Stage) :
    Option (World × Stage) :=
  (({ world := c.1, stage := c.2 } : Pipeline).advance platform config).map core

theorem advance_core : (s.advance platform config).map core =
    advanceCore platform config s.core := by
  unfold advanceCore advance core
  cases s.stage with
  | reset | process | update => simp [Function.comp_def]
  | idle | drain | flush | flushPush => rfl
  | pop => cases s.world.game.inQueue <;> rfl
  | flushPop => cases s.world.game.outQueue <;> rfl

end Pipeline

/-- The game thread goes on. -/
def Action.isNext : Action → Bool
  | .next => true
  | _ => false

/-- A step that starts no tick. -/
def TickStep (platform : Platform) (config : GameConfig) (s : Pipeline) (a : Action)
    (s' : Pipeline) : Prop :=
  (∀ dt, a ≠ .swap dt) ∧ s.step platform config a = some s'

/-- From every state on the game thread makes a bounded number of steps in its tick, whatever
    the session threads push meanwhile. -/
theorem tick_ends (platform : Platform) (config : GameConfig) (s : Pipeline) :
    ∃ bound, ∀ more t, Run (stepRel (Pipeline.step platform config)) s more t → NoSwap more →
      (more.filter Action.isNext).length ≤ bound := by
  have hless : ∀ c c', Pipeline.advanceCore platform config c = some c' →
      Prod.Lex (· < ·) (· < ·) (Pipeline.left c') (Pipeline.left c) := by
    intro c c' h
    obtain ⟨s', hs', rfl⟩ := Option.map_eq_some_iff.mp h
    exact Pipeline.left_advance (Pipeline.advance_cases hs')
  have hown : ∀ s a s', Action.isNext a = true → TickStep platform config s a s' →
      Pipeline.advanceCore platform config s.core = some s'.core := by
    intro s a s' ha hstep
    cases a with
    | push | swap => cases ha
    | next =>
      rw [← Pipeline.advance_core, show s.advance platform config = some s' from hstep.2]
      rfl
  have hother : ∀ s a s', Action.isNext a = false → TickStep platform config s a s' →
      s'.core = s.core := by
    intro s a s' ha hstep
    cases a with
    | push thread packet =>
      cases hstep.2
      rfl
    | swap dt => exact absurd rfl (hstep.1 dt)
    | next => cases ha
  obtain ⟨bound, hbound⟩ :=
    exists_bound_own (InvImage.wf Pipeline.left (wellFounded_lt.prod_lex wellFounded_lt))
      hless hown hother s.core
  refine ⟨bound, fun more t hrun hno => hbound s rfl more t (hrun.mono_of_mem ?_)⟩
  exact fun a ha s s' hstep => ⟨fun dt heq => hno dt (heq ▸ ha), hstep⟩

/-! ## The inputs -/

/-- The packets of all session threads reach the world in order, each once: the logged packets
    are those that the world has been made of. A tick that has begun comes to its end. -/
structure InOrder (platform : Platform) (config : GameConfig) (actions : List Action)
    (s : Pipeline) : Prop where
  isPrefix : s.processed <+: pushedIn actions
  emptyAtSwap : ∀ before dt after, actions = before ++ .swap dt :: after →
    ∃ t, PipelineRun platform config before t ∧ t.world.game.inQueue = []
  caughtUp : ∀ before dt during, actions = before ++ .swap dt :: during → NoSwap during →
    s.stage = .idle → s.processed = pushedIn before
  played : Played platform config s
  goesOn : s.stage ≠ .idle → s.Faults platform config ∨
    ∃ s', s.step platform config .next = some s'
  ends : ∃ bound, ∀ more t, Run (stepRel (Pipeline.step platform config)) s more t →
    NoSwap more → (more.filter Action.isNext).length ≤ bound
  sweepsEnd : config.gridX ≠ 0 → config.gridY.toNat % 256 ≠ 0 → config.SweepsEnd platform

/-- In every run, whatever the session threads push and when: the processed packets are a
    prefix of the pushed ones, the game in queue is empty at each `TSSwap`, and at the
    end of a tick all packets from before its `TSSwap` have been processed. The world is
    that of the ticks on these packets. In a tick the game thread can go on until it is
    over or dereferences a null pointer, and it is over after a bounded number of steps; the
    loops over the tiles, which are part of a step here, end on every map that has a column
    and a number of rows that is no multiple of 256. -/
theorem inputs_in_order (h : PipelineRun platform config actions s) :
    InOrder platform config actions s := by
  have hs := pipeline_sound h
  have hplayed : Played platform config s :=
    h.invariant (.idle [] rfl .nil rfl) fun _ _ _ ht hstep => Pipeline.played_step ht hstep
  refine ⟨?_, ?_, ?_, hplayed, Pipeline.goesOn_of_played hplayed, tick_ends platform config s,
    sweepsEnd_of_grid platform⟩
  · refine ⟨s.stage.inHand ++ s.world.game.inQueue ++ s.net.inQueue, ?_⟩
    rw [← hs.pushed, Pipeline.taken]
    simp only [List.append_assoc]
  · intro before dt after heq
    rw [List.append_cons] at heq
    subst heq
    obtain ⟨u, hu, -⟩ := Run.append_iff.mp h
    obtain ⟨t, ht, hswap⟩ := Run.snoc_iff.mp hu
    obtain ⟨hidle, -⟩ := Pipeline.step_swap_eq_some.mp hswap
    exact ⟨t, ht, (pipeline_sound ht).drained (by rw [hidle]; trivial)⟩
  · intro before dt during heq hno hidle
    have hempty : s.world.game.inQueue = [] := hs.drained (by rw [hidle]; trivial)
    have htaken := hs.swapped before dt during heq hno
    simpa [Pipeline.taken, hidle, hempty, Stage.inHand] using htaken

/-- Two threads push; the second packet comes while the tick is under way. -/
theorem inputs_in_order_room : ∃ s, PipelineRun .x86 .room
      [.push 0 (.ofOpcode .createPlayer 0), .swap (1 / 10), .next,
        .push 1 (.ofOpcode .createPlayer 1), .next, .next, .next, .next, .next] s ∧
    InOrder .x86 .room [.push 0 (.ofOpcode .createPlayer 0), .swap (1 / 10), .next,
        .push 1 (.ofOpcode .createPlayer 1), .next, .next, .next, .next, .next] s := by
  have heval : (([.push 0 (.ofOpcode .createPlayer 0), .swap (1 / 10), .next,
      .push 1 (.ofOpcode .createPlayer 1), .next, .next, .next, .next, .next] :
        List Action).foldlM (Pipeline.step .x86 .room) {}).isSome = true := by decide +kernel
  obtain ⟨s, hs⟩ := Option.isSome_iff_exists.mp heval
  have hrun : PipelineRun .x86 .room _ s := run_iff_foldlM.mpr hs
  exact ⟨s, hrun, inputs_in_order hrun⟩

end EndlessPeak
