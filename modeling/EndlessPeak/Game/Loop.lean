import EndlessPeak.Game.Travel

/-!
# The game loop and the clock

Model of `World::GameLoop` (`game/world/world.cpp`): read the clock, tick with the time
since the last reading, sleep until one tick duration after the reading. The clock is
steady and `sleep_until` does not return early, but it can return as late as it likes,
and a tick can take as long as it likes.

* `simulates_run`: what the loop does is a run of ticks, whose lengths add up to the time
  that has passed.
* `loop_paced`: the ticks do not come faster than configured.
* `loop_travel`: the time on the clock limits how far a player gets.
-/

namespace EndlessPeak

open Lib

/-! ## The model -/

/-- `tick_duration`, in nanoseconds: `1.0 / config_.tick_rate_` seconds, truncated. For a
    tick rate of zero the conversion of the infinite quotient is not defined, and
    `undefinedCast` is its result. -/
def tickDuration (undefinedCast : ℤ) (tickRate : UInt8) : ℤ :=
  if tickRate = 0 then undefinedCast else ⌊(1 / tickRate.toNat : ℚ) * 10 ^ 9⌋

/-- A time in nanoseconds as a number of seconds, `delta.count()`. -/
def seconds (time : ℤ) : ℚ := (time : ℚ) / 10 ^ 9

/-- The state of `GameLoop` before it reads the clock: the world and the network, the last
    reading, and the time until which it sleeps. -/
structure GameLoop where
  game : World × Subsystem := ({}, {})
  last : ℤ
  wake : ℤ := last

/-- One round: the reading `current`, and the packets that have come in since the last
    round. The reading is not before the time until which the loop has slept. -/
def GameLoop.step (platform : Platform) (config : GameConfig) (tickDuration : ℤ) (s : GameLoop) :
    ℤ × List ServerPacket → Option GameLoop
  | (current, inputs) =>
    if s.wake ≤ current then
      (gameStep platform config s.game ⟨seconds (current - s.last), inputs⟩).map fun game =>
        { game, last := current, wake := current + tickDuration }
    else none

/-- The rounds that the loop can make when the clock shows `start` at first. -/
def LoopRun (platform : Platform) (config : GameConfig) (tickDuration start : ℤ) :
    List (ℤ × List ServerPacket) → GameLoop → Prop :=
  Run (stepRel (GameLoop.step platform config tickDuration)) { last := start }

/-- The ticks of these rounds, after the reading `last`. -/
def turnsOf (last : ℤ) : List (ℤ × List ServerPacket) → List Turn
  | [] => []
  | (current, inputs) :: rounds => ⟨seconds (current - last), inputs⟩ :: turnsOf current rounds

/-- The last reading of these rounds. -/
def lastReading (last : ℤ) : List (ℤ × List ServerPacket) → ℤ
  | [] => last
  | (current, _) :: rounds => lastReading current rounds

variable {platform : Platform} {config : GameConfig} {duration start last : ℤ} {s s' : GameLoop}
  {rounds : List (ℤ × List ServerPacket)} {id : UInt64}

theorem GameLoop.step_eq_some {current : ℤ} {inputs : List ServerPacket} :
    s.step platform config duration (current, inputs) = some s' ↔
      s.wake ≤ current ∧ gameStep platform config s.game ⟨seconds (current - s.last), inputs⟩ =
        some s'.game ∧ s'.last = current ∧ s'.wake = current + duration := by
  show (if s.wake ≤ current then _ else none) = some s' ↔ _
  constructor
  · intro h
    rw [Option.ite_none_right_eq_some] at h
    obtain ⟨hwake, hmap⟩ := h
    obtain ⟨game, hgame, rfl⟩ := Option.map_eq_some_iff.mp hmap
    exact ⟨hwake, hgame, rfl, rfl⟩
  · rintro ⟨hwake, hgame, hlast, hnext⟩
    rw [if_pos hwake, hgame, Option.map_some]
    obtain ⟨game, last, wake⟩ := s'
    obtain rfl : last = current := hlast
    obtain rfl : wake = last + duration := hnext
    rfl

theorem tickDuration_pos (undefinedCast : ℤ) {tickRate : UInt8} (h : tickRate ≠ 0) :
    0 < tickDuration undefinedCast tickRate := by
  have hne : tickRate.toNat ≠ 0 := by simpa [UInt8.ext_iff] using h
  have hlt := tickRate.toNat_lt
  have hpos : (0 : ℚ) < tickRate.toNat := by exact_mod_cast Nat.pos_of_ne_zero hne
  have hle : (tickRate.toNat : ℚ) ≤ 10 ^ 9 := by
    have hnat : tickRate.toNat ≤ 10 ^ 9 := by omega
    exact_mod_cast hnat
  rw [tickDuration, if_neg h, Int.floor_pos, div_mul_eq_mul_div, one_mul, le_div_iff₀ hpos]
  linarith

/-! ## The time of the ticks -/

theorem seconds_add (a b : ℤ) : seconds (a + b) = seconds a + seconds b := by
  unfold seconds
  push_cast
  ring

theorem seconds_mono {a b : ℤ} (h : a ≤ b) : seconds a ≤ seconds b := by
  unfold seconds
  have hcast : (a : ℚ) ≤ b := by exact_mod_cast h
  exact div_le_div_of_nonneg_right hcast (by norm_num)

theorem turnsOf_snoc (current : ℤ) (inputs : List ServerPacket) :
    turnsOf last (rounds ++ [(current, inputs)]) =
      turnsOf last rounds ++ [⟨seconds (current - lastReading last rounds), inputs⟩] := by
  induction rounds generalizing last with
  | nil => rfl
  | cons round rounds ih =>
    obtain ⟨reading, packets⟩ := round
    rw [List.cons_append, turnsOf, ih]
    rfl

theorem lastReading_snoc (current : ℤ) (inputs : List ServerPacket) :
    lastReading last (rounds ++ [(current, inputs)]) = current := by
  induction rounds generalizing last with
  | nil => rfl
  | cons round rounds ih => exact ih

/-- The rounds of the loop from any state, as ticks. -/
structure Simulates (platform : Platform) (config : GameConfig) (s : GameLoop)
    (rounds : List (ℤ × List ServerPacket)) (s' : GameLoop) : Prop where
  run : Run (stepRel (gameStep platform config)) s.game (turnsOf s.last rounds) s'.game
  reading : s'.last = lastReading s.last rounds
  elapsed : ((turnsOf s.last rounds).map Turn.dt).sum = seconds (s'.last - s.last)

/-- The loop makes ticks, and their lengths add up to the time that has passed. -/
theorem simulates_run (h : Run (stepRel (GameLoop.step platform config duration)) s rounds s') :
    Simulates platform config s rounds s' := by
  induction h with
  | nil => exact ⟨.nil, rfl, by simp [turnsOf, seconds]⟩
  | @snoc rounds round t t' hrun hround ih =>
    obtain ⟨current, inputs⟩ := round
    obtain ⟨-, hgame, hlast, -⟩ := GameLoop.step_eq_some.mp hround
    refine ⟨?_, ?_, ?_⟩
    · rw [turnsOf_snoc, ← ih.reading]
      exact ih.run.snoc hgame
    · rw [lastReading_snoc, hlast]
    · rw [turnsOf_snoc, List.map_append, List.sum_append, ih.elapsed, ← ih.reading, hlast]
      show seconds (t.last - s.last) + (seconds (current - t.last) + 0) = _
      rw [add_zero, ← seconds_add]
      congr 1
      omega

/-- Every tick of the rounds has this length at least, if the loop has slept that long
    before each of them. -/
theorem turnsOf_ge {δ : ℤ} (hδ : δ ≤ duration) (hstart : s.last + δ ≤ s.wake)
    (h : Run (stepRel (GameLoop.step platform config duration)) s rounds s') :
    (s'.last + δ ≤ s'.wake) ∧ ∀ turn ∈ turnsOf s.last rounds, seconds δ ≤ turn.dt := by
  induction h with
  | nil => exact ⟨hstart, by simp [turnsOf]⟩
  | @snoc rounds round t t' hrun hround ih =>
    obtain ⟨current, inputs⟩ := round
    obtain ⟨hwake, -, hlast, hnext⟩ := GameLoop.step_eq_some.mp hround
    refine ⟨by omega, ?_⟩
    rw [turnsOf_snoc, ← (simulates_run hrun).reading]
    intro turn hturn
    rcases List.mem_append.mp hturn with hturn | hturn
    · exact ih.2 turn hturn
    · rw [List.mem_singleton.mp hturn]
      exact seconds_mono (by omega)

theorem last_ge (hduration : 0 ≤ duration) (h : LoopRun platform config duration start rounds s) :
    start + (rounds.length - 1) * duration ≤ s.last ∧
      start + rounds.length * duration ≤ s.wake := by
  induction h with
  | nil => exact ⟨by simp [hduration], by simp⟩
  | @snoc rounds round t t' hrun hround ih =>
    obtain ⟨current, inputs⟩ := round
    obtain ⟨hwake, -, hlast, hnext⟩ := GameLoop.step_eq_some.mp hround
    rw [List.length_append, List.length_singleton, hlast, hnext]
    push_cast
    constructor
    · linarith [ih.2]
    · linarith [ih.2]

theorem turnsOf_tail_ge
    (h : LoopRun platform config duration start rounds s) :
    ∀ turn ∈ (turnsOf start rounds).tail, seconds duration ≤ turn.dt := by
  cases rounds with
  | nil => simp [turnsOf]
  | cons round rounds =>
    obtain ⟨current, inputs⟩ := round
    obtain ⟨first, hfirst, hrest⟩ := Run.cons_iff.mp h
    obtain ⟨-, -, hlast, hwake⟩ := GameLoop.step_eq_some.mp hfirst
    have hslept : first.last + duration ≤ first.wake := by omega
    have hall := (turnsOf_ge le_rfl hslept hrest).2
    rw [hlast] at hall
    exact hall

/-- The loop runs ticks. Their lengths add up to the time between the first and the last
    reading of the clock, so that no time is lost and none is counted twice; all but the
    first are as long as a tick duration, and `n` ticks take `n - 1` of these, however
    irregular the loop is. -/
theorem loop_paced {undefinedCast : ℤ} {tickRate : UInt8} (hrate : tickRate ≠ 0)
    (h : LoopRun platform config (tickDuration undefinedCast tickRate) start rounds s) :
    GameRun platform config (turnsOf start rounds) s.game ∧
      ((turnsOf start rounds).map Turn.dt).sum = seconds (s.last - start) ∧
      (∀ turn ∈ (turnsOf start rounds).tail,
        seconds (tickDuration undefinedCast tickRate) ≤ turn.dt) ∧
      (rounds.length - 1) * tickDuration undefinedCast tickRate ≤ s.last - start := by
  have hduration := (tickDuration_pos undefinedCast hrate).le
  obtain ⟨hrun, -, helapsed⟩ := simulates_run h
  exact ⟨hrun, helapsed, turnsOf_tail_ge h, by linarith [(last_ge hduration h).1]⟩

/-- Three rounds at 50 Hz; the last one comes late. -/
theorem loop_paced_room : ∃ s, LoopRun .x86 .room (tickDuration 0 50) 7
      [(8, [.ofOpcode .createPlayer 0]), (20000008, []), (90000000, [.ofOpcode .moveLeft 0])] s ∧
    GameRun .x86 .room (turnsOf 7 [(8, [.ofOpcode .createPlayer 0]), (20000008, []),
      (90000000, [.ofOpcode .moveLeft 0])]) s.game ∧
    ((turnsOf 7 [(8, [.ofOpcode .createPlayer 0]), (20000008, []),
      (90000000, [.ofOpcode .moveLeft 0])]).map Turn.dt).sum = seconds (s.last - 7) ∧
    (∀ turn ∈ (turnsOf 7 [(8, [.ofOpcode .createPlayer 0]), (20000008, []),
      (90000000, [.ofOpcode .moveLeft 0])]).tail, seconds (tickDuration 0 50) ≤ turn.dt) ∧
    ((([(8, [.ofOpcode .createPlayer 0]), (20000008, []),
      (90000000, [.ofOpcode .moveLeft 0])] : List (ℤ × List ServerPacket)).length : ℤ) - 1) *
        tickDuration 0 50 ≤ s.last - 7 := by
  let rounds : List (ℤ × List ServerPacket) := [(8, [.ofOpcode .createPlayer 0]),
    (20000008, []), (90000000, [.ofOpcode .moveLeft 0])]
  have heval : (rounds.foldlM (GameLoop.step .x86 .room (tickDuration 0 50))
      { last := 7 }).isSome = true := by decide +kernel
  obtain ⟨s, hs⟩ := Option.isSome_iff_exists.mp heval
  have hrun : LoopRun .x86 .room (tickDuration 0 50) 7 rounds s := run_iff_foldlM.mpr hs
  exact ⟨s, hrun, loop_paced (by decide) hrun⟩

/-- In every run of the loop, between two readings of the clock, a player gets sideways by
    at most `100` for each second, whatever its client and the others send, as long as no
    `CreatePlayer` puts it back to the start. -/
theorem loop_travel {undefinedCast : ℤ} {tickRate : UInt8} (hrate : tickRate ≠ 0)
    {before : List (ℤ × List ServerPacket)} {p p' : Player}
    (hbefore : LoopRun platform config (tickDuration undefinedCast tickRate) start before s)
    (h : Run (stepRel (GameLoop.step platform config (tickDuration undefinedCast tickRate)))
      s rounds s')
    (hc : NeverCreated id (turnsOf s.last rounds)) (hp : s.game.1.player? id = some p)
    (hp' : s'.game.1.player? id = some p') :
    |p'.x - p.x| ≤ 100 * seconds (s'.last - s.last) := by
  have hduration := (tickDuration_pos undefinedCast hrate).le
  have hstart := (turnsOf_ge hduration (by simp) hbefore).1
  have hgame := (simulates_run hbefore).run
  obtain ⟨hrun, -, helapsed⟩ := simulates_run h
  rw [← helapsed]
  refine travel_le hgame hrun ?_ hc hp hp'
  intro turn hturn
  have hdt := (turnsOf_ge hduration hstart h).2 turn hturn
  simpa [seconds] using hdt

/-- At 50 Hz a player walks to the right and back. -/
theorem loop_travel_room : ∃ s s' p p', LoopRun .x86 .room (tickDuration 0 50) 0
      [(0, [.ofOpcode .createPlayer 0])] s ∧
    Run (stepRel (GameLoop.step .x86 .room (tickDuration 0 50))) s
      [(20000000, [.ofOpcode .moveRight 0]), (50000000, [.ofOpcode .moveLeft 0])] s' ∧
    s.game.1.player? 0 = some p ∧ s'.game.1.player? 0 = some p' ∧
    |p'.x - p.x| ≤ 100 * seconds (s'.last - s.last) := by
  let rounds : List (ℤ × List ServerPacket) :=
    [(20000000, [.ofOpcode .moveRight 0]), (50000000, [.ofOpcode .moveLeft 0])]
  have heval : (([(0, [.ofOpcode .createPlayer 0])] : List (ℤ × List ServerPacket)).foldlM
      (GameLoop.step .x86 .room (tickDuration 0 50)) { last := 0 }).bind (fun s =>
        (rounds.foldlM (GameLoop.step .x86 .room (tickDuration 0 50)) s).bind fun s' =>
          (s.game.1.player? 0).bind fun _ => (s'.game.1.player? 0).map fun _ => s.last) =
            some 0 := by decide +kernel
  obtain ⟨s, hs, hrest⟩ := Option.bind_eq_some_iff.mp heval
  obtain ⟨s', hs', hrest⟩ := Option.bind_eq_some_iff.mp hrest
  obtain ⟨p, hp, hrest⟩ := Option.bind_eq_some_iff.mp hrest
  obtain ⟨p', hp', hlast⟩ := Option.map_eq_some_iff.mp hrest
  have hbefore : LoopRun .x86 .room (tickDuration 0 50) 0 _ s := run_iff_foldlM.mpr hs
  have hrun : Run (stepRel (GameLoop.step .x86 .room (tickDuration 0 50))) s rounds s' :=
    run_iff_foldlM.mpr hs'
  have hc : NeverCreated 0 (turnsOf s.last rounds) := by
    rw [hlast]
    unfold NeverCreated
    decide +kernel
  exact ⟨s, s', p, p', hbefore, hrun, hp, hp', loop_travel (by decide) hbefore hrun hc hp hp'⟩

end EndlessPeak
