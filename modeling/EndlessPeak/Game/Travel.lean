import EndlessPeak.Game.Speed

/-!
# How far a player gets in a run

A tick moves a player sideways by at most `100 * dt`. Upwards there is no limit for one
tick: a jump sets a velocity, and the player rises by this velocity tick after tick, less
what gravity takes. What limits the height is what limits it in nature: gravity takes at
least `g * δ` in a tick of at least `δ`, so the player rises by at most `v ^ 2 / (2 * g * δ)`.

* `travel_le`: sideways, the sum of the ticks.
* `moves_soloTick`: one tick, with the vertical velocity.
* `rise_le`: upwards, the squares of the upward velocities that the run has set.
-/

namespace EndlessPeak

open Lib

/-! ## One tick -/

/-- The speed with which a player rises. -/
def Player.rising (p : Player) : ℚ := max 0 (-p.velY)

/-- Some packet of the batch is a `Jump`. -/
def Jumps (inputs : List ServerPacket) : Prop := ∃ q ∈ inputs, q.opcode = some .jump

instance (inputs : List ServerPacket) : Decidable (Jumps inputs) :=
  inferInstanceAs (Decidable (∃ q ∈ inputs, _))

/-- The packets for `id` in these turns do not create it anew. -/
def NeverCreated (id : UInt64) (turns : List Turn) : Prop :=
  ∀ turn ∈ turns, ∀ q ∈ forId id turn.inputs, q.opcode ≠ some .createPlayer

variable {platform : Platform} {config : GameConfig} {dt δ : ℚ} {p p' : Player} {id : UInt64}
  {inputs : List ServerPacket} {turns : List Turn} {s s' : World × Subsystem}

/-- The packets of a tick leave the vertical velocity alone, or one of them is a jump. -/
theorem soloInputs_velY (hc : ∀ q ∈ inputs, q.opcode ≠ some .createPlayer)
    (h : soloInputs config dt (some p) inputs = some p') :
    p'.velY = p.velY ∨ p'.velY = -(400 * dt) ∧ Jumps inputs := by
  suffices hall : ∀ r, inputs.foldl (soloInput config dt) (some (p.setVel 0 p.velY)) = some r →
      r.velY = p.velY ∨ r.velY = -(400 * dt) ∧ Jumps inputs from hall p' h
  clear h
  induction inputs using List.reverseRecOn with
  | nil =>
    intro r hr
    cases hr
    exact .inl rfl
  | append_singleton inputs q ih =>
    intro r hr
    rw [List.foldl_append, List.foldl_cons, List.foldl_nil] at hr
    have hbefore := ih fun q hq => hc q (List.mem_append_left _ hq)
    have hkeep : ∀ r0, inputs.foldl (soloInput config dt) (some (p.setVel 0 p.velY)) = some r0 →
        r.velY = r0.velY → r.velY = p.velY ∨ r.velY = -(400 * dt) ∧ Jumps (inputs ++ [q]) := by
      intro r0 hr0 hsame
      rw [hsame]
      refine (hbefore r0 hr0).imp id (And.imp_right ?_)
      rintro ⟨j, hj, hop⟩
      exact ⟨j, List.mem_append_left _ hj, hop⟩
    unfold soloInput at hr
    rcases ho : q.opcode with _ | o
    · rw [ho] at hr
      exact hkeep r hr rfl
    · rw [ho] at hr
      cases o with
      | createPlayer => exact absurd ho (hc q (by simp))
      | removePlayer => exact absurd hr (by simp)
      | jump =>
        obtain ⟨r0, hr0, rfl⟩ := Option.map_eq_some_iff.mp hr
        by_cases hground : r0.onGround = true
        · right
          refine ⟨?_, q, by simp, ho⟩
          show (if r0.onGround then (r0.setVel r0.velX (-(400 * dt))).setOnGround false
            else r0).velY = _
          rw [if_pos hground]
          rfl
        · refine hkeep r0 hr0 ?_
          show (if r0.onGround then (r0.setVel r0.velX (-(400 * dt))).setOnGround false
            else r0).velY = _
          rw [if_neg hground]
      | moveLeft | moveRight | spawnPlayers | movePlayer | addPlayer =>
        obtain ⟨r0, hr0, rfl⟩ := Option.map_eq_some_iff.mp hr
        exact hkeep r0 hr0 rfl

theorem soloInputs_none (hc : ∀ q ∈ inputs, q.opcode ≠ some .createPlayer) :
    soloInputs config dt none inputs = none := by
  unfold soloInputs
  rw [Option.map_none]
  induction inputs with
  | nil => rfl
  | cons q inputs ih =>
    rw [List.forall_mem_cons] at hc
    have hfirst : soloInput config dt none q = none := by
      unfold soloInput
      rcases ho : q.opcode with _ | o
      · rfl
      · cases o with
        | createPlayer => exact absurd ho hc.1
        | _ => rfl
    rw [List.foldl_cons, hfirst]
    exact ih hc.2

theorem movePlayer_y (platform : Platform) (config : GameConfig) (player : Player) :
    (∃ t, 0 ≤ t ∧ t ≤ 1 ∧ (movePlayer platform config player).y = player.y + player.velY * t) ∧
      ((movePlayer platform config player).velY = player.velY ∨
        (movePlayer platform config player).velY = 0) := by
  constructor
  · obtain ⟨h0, h1⟩ := sweptAxis_entryTime platform
      (moveX platform config player player.velX player.velY).2.toBox config.tile config.gridX
      config.gridY.toUInt8 config.worldMap 0 player.velY
    refine ⟨_, h0, h1, ?_⟩
    unfold movePlayer
    rw [moveY_toBox, moveX_toBox]
    simp only [Box.move, add_zero]
    rfl
  · unfold movePlayer
    rw [moveY_velY]
    split_ifs
    · exact .inr rfl
    · left
      rw [moveX_velY]
      split_ifs
      · rfl
      · rfl

/-- What a tick makes of a player for which no `CreatePlayer` comes. -/
structure Moves (dt : ℚ) (inputs : List ServerPacket) (p p' : Player) : Prop where
  travel : |p'.x - p.x| ≤ 100 * dt
  rise : ∃ v, (v = p.velY ∨ v = -(400 * dt) ∧ Jumps inputs) ∧
    p.y - p'.y ≤ max 0 (-(v + gravity * dt)) ∧ p'.rising ≤ max 0 (-(v + gravity * dt))

theorem moves_soloTick (hdt : 0 ≤ dt) (hc : ∀ q ∈ inputs, q.opcode ≠ some .createPlayer)
    (h : soloTick platform config dt (some p) inputs = some p') : Moves dt inputs p p' := by
  obtain ⟨q, hq, rfl⟩ := Option.map_eq_some_iff.mp h
  obtain ⟨hbox, hvelX⟩ := steered_soloInputs hc hq
  constructor
  · obtain ⟨t, h0, h1, hx⟩ := movePlayer_x platform config (applyGravity dt q)
    have hmoved : (update platform config dt q).1.x = p.x + moveVel dt (lastMove inputs) * t := by
      rw [← hvelX, ← congrArg Box.x hbox]
      exact hx
    rw [hmoved]
    exact (speedBound_of_fraction hdt h0 h1 inputs).limit
  · refine ⟨q.velY, soloInputs_velY hc hq, ?_⟩
    obtain ⟨⟨t, h0, h1, hy⟩, hvelY⟩ := movePlayer_y platform config (applyGravity dt q)
    have hstart : (applyGravity dt q).y = p.y := congrArg Box.y hbox
    have hvel : (applyGravity dt q).velY = q.velY + gravity * dt := rfl
    rw [hstart, hvel] at hy
    rw [hvel] at hvelY
    constructor
    · show p.y - (movePlayer platform config (applyGravity dt q)).y ≤ _
      rw [hy]
      rcases le_total 0 (q.velY + gravity * dt) with hdown | hup
      · exact le_max_of_le_left (by nlinarith)
      · exact le_max_of_le_right (by nlinarith)
    · show max 0 (-(movePlayer platform config (applyGravity dt q)).velY) ≤ _
      rcases hvelY with hvelY | hvelY
      · rw [hvelY]
      · rw [hvelY, neg_zero, max_self]
        exact le_max_left _ _

/-! ## Runs -/

/-- A turn moves a player that is there after it, and was there before it. -/
theorem moves_turn {turn : Turn} (hqueue : s.2.inQueue = []) (hdt : 0 ≤ turn.dt)
    (hc : ∀ q ∈ forId id turn.inputs, q.opcode ≠ some .createPlayer)
    (hstep : gameStep platform config s turn = some s') (hp' : s'.1.player? id = some p') :
    ∃ p, s.1.player? id = some p ∧ Moves turn.dt (forId id turn.inputs) p p' := by
  have hsolo := World.player?_tick hstep id
  simp only [hqueue, List.nil_append] at hsolo
  rw [hp'] at hsolo
  cases hp : s.1.player? id with
  | none =>
    rw [hp, soloTick, soloInputs_none hc] at hsolo
    cases hsolo
  | some p =>
    rw [hp] at hsolo
    exact ⟨p, rfl, moves_soloTick hdt hc hsolo.symm⟩

theorem moves_run {before : List Turn} {I : List Turn → Player → Prop}
    (hbefore : GameRun platform config before s)
    (h : Run (stepRel (gameStep platform config)) s turns s')
    (hdt : ∀ turn ∈ turns, 0 ≤ turn.dt) (hc : NeverCreated id turns)
    (hinit : ∀ p, s.1.player? id = some p → I [] p)
    (hstep : ∀ pre turn p q, turn ∈ turns → I pre p → Moves turn.dt (forId id turn.inputs) p q →
      I (pre ++ [turn]) q) : ∀ p, s'.1.player? id = some p → I turns p := by
  induction h with
  | nil => exact hinit
  | @snoc turns turn t t' hrun hturn ih =>
    intro q hq
    have hqueue := (game_inQueue (hbefore.trans hrun)).2
    obtain ⟨p, hp, hmoves⟩ := moves_turn hqueue (hdt turn (by simp))
      (hc turn (by simp)) hturn hq
    have hinitial := ih (fun turn hmem => hdt turn (List.mem_append_left _ hmem))
      (fun turn hmem => hc turn (List.mem_append_left _ hmem))
      fun pre turn p q hmem => hstep pre turn p q (List.mem_append_left _ hmem)
    exact hstep turns turn p q (by simp) (hinitial p hp) hmoves

/-- In a run without a `CreatePlayer` for it, a player gets sideways by at most `100` times
    the length of the run, whatever else its client and the others send. -/
theorem travel_le {before : List Turn} (hbefore : GameRun platform config before s)
    (h : Run (stepRel (gameStep platform config)) s turns s')
    (hdt : ∀ turn ∈ turns, 0 ≤ turn.dt) (hc : NeverCreated id turns)
    (hp : s.1.player? id = some p) (hp' : s'.1.player? id = some p') :
    |p'.x - p.x| ≤ 100 * (turns.map Turn.dt).sum := by
  refine moves_run (I := fun pre q => |q.x - p.x| ≤ 100 * (pre.map Turn.dt).sum)
    hbefore h hdt hc ?_ ?_ p' hp'
  · intro q hq
    rw [hp, Option.some_inj] at hq
    simp [hq]
  · intro pre turn q r _ hq hmoves
    rw [List.map_append, List.sum_append, List.map_singleton, List.sum_singleton, mul_add]
    calc |r.x - p.x| = |(q.x - p.x) + (r.x - q.x)| := by congr 1; ring
      _ ≤ |q.x - p.x| + |r.x - q.x| := abs_add_le _ _
      _ ≤ _ := add_le_add hq hmoves.travel

/-! ## Upwards -/

/-- The square of the velocity that a `Jump` sets, if there is one for `id` in the turn. -/
def jumpEnergy (id : UInt64) (turn : Turn) : ℚ :=
  if Jumps (forId id turn.inputs) then (400 * turn.dt) ^ 2 else 0

/-- What a tick of at least `δ` gives to the height and to the velocity, gravity takes. -/
theorem energy_fall {v : ℚ} (hδ : 0 < δ) (hdt : δ ≤ dt) :
    2 * (gravity * δ) * max 0 (-(v + gravity * dt)) + max 0 (-(v + gravity * dt)) ^ 2 ≤
      max 0 (-v) ^ 2 := by
  have hg : (0 : ℚ) < gravity := by norm_num [gravity]
  have hless : gravity * δ ≤ gravity * dt := mul_le_mul_of_nonneg_left hdt hg.le
  have hpos : 0 < gravity * δ := mul_pos hg hδ
  rcases le_total 0 (v + gravity * dt) with hdown | hup
  · rw [max_eq_left (by linarith)]
    have hsquare : 0 ≤ max 0 (-v) ^ 2 := sq_nonneg _
    linarith
  · rw [max_eq_right (by linarith), max_eq_right (by linarith)]
    nlinarith

theorem energy_moves {turn : Turn} {q r : Player} {E : ℚ} (hδ : 0 < δ) (hdt : δ ≤ turn.dt)
    (hE : E + q.rising ^ 2 ≤ 0) (hmoves : Moves turn.dt (forId id turn.inputs) q r) :
    E + 2 * (gravity * δ) * (q.y - r.y) + r.rising ^ 2 ≤ jumpEnergy id turn := by
  obtain ⟨v, hv, hrise, hrising⟩ := hmoves.rise
  have hfall := energy_fall (v := v) hδ hdt
  have hpos : 0 < 2 * (gravity * δ) := by
    have hg : (0 : ℚ) < gravity := by norm_num [gravity]
    positivity
  have hheight := mul_le_mul_of_nonneg_left hrise hpos.le
  have hspeed : r.rising ^ 2 ≤ max 0 (-(v + gravity * turn.dt)) ^ 2 :=
    pow_le_pow_left₀ (le_max_left _ _) hrising 2
  have hstart : max 0 (-v) ^ 2 ≤ q.rising ^ 2 + jumpEnergy id turn := by
    rcases hv with rfl | ⟨rfl, hjump⟩
    · have hcost : 0 ≤ jumpEnergy id turn := by
        unfold jumpEnergy
        split_ifs
        · exact sq_nonneg _
        · exact le_rfl
      show q.rising ^ 2 ≤ _
      linarith
    · rw [neg_neg, max_eq_right (by linarith), jumpEnergy, if_pos hjump]
      linarith [sq_nonneg q.rising]
  linarith

/-- In a run of ticks of at least `δ` without a `CreatePlayer` for it, a player gets higher
    by at most what its upward velocity and those of the ticks with a `Jump` for it give, and
    no other packet of anybody gives more. -/
theorem rise_le {before : List Turn} (hbefore : GameRun platform config before s)
    (h : Run (stepRel (gameStep platform config)) s turns s') (hδ : 0 < δ)
    (hdt : ∀ turn ∈ turns, δ ≤ turn.dt) (hc : NeverCreated id turns)
    (hp : s.1.player? id = some p) (hp' : s'.1.player? id = some p') :
    p.y - p'.y ≤
      (p.rising ^ 2 + (turns.map (jumpEnergy id)).sum) / (2 * (gravity * δ)) := by
  have hpos : 0 < 2 * (gravity * δ) := by
    have hg : (0 : ℚ) < gravity := by norm_num [gravity]
    positivity
  have henergy : 2 * (gravity * δ) * (p.y - p'.y) + p'.rising ^ 2 ≤
      p.rising ^ 2 + (turns.map (jumpEnergy id)).sum := by
    refine moves_run (I := fun pre q => 2 * (gravity * δ) * (p.y - q.y) + q.rising ^ 2 ≤
      p.rising ^ 2 + (pre.map (jumpEnergy id)).sum) hbefore h
      (fun turn hmem => hδ.le.trans (hdt turn hmem)) hc ?_ ?_ p' hp'
    · intro q hq
      rw [hp, Option.some_inj] at hq
      simp [hq]
    · intro pre turn q r hmem hq hmoves
      have hstep := energy_moves hδ (hdt turn hmem)
        (E := 2 * (gravity * δ) * (p.y - q.y) - p.rising ^ 2 - (pre.map (jumpEnergy id)).sum)
        (by linarith) hmoves
      rw [List.map_append, List.sum_append, List.map_singleton, List.sum_singleton]
      linarith
  rw [le_div_iff₀ hpos, mul_comm]
  linarith [sq_nonneg p'.rising]

/-- A player on the floor of the room jumps, and goes to the right. -/
theorem rise_le_room : ∃ s p s' p', GameRun .x86 .room
      [⟨1, [.ofOpcode .createPlayer 0]⟩, ⟨1, []⟩] s ∧
    Run (stepRel (gameStep .x86 .room)) s [⟨1 / 100, [.ofOpcode .jump 0]⟩,
      ⟨1 / 50, [.ofOpcode .moveRight 0]⟩] s' ∧
    s.1.player? 0 = some p ∧ s'.1.player? 0 = some p' ∧ p'.y < p.y ∧
    p.y - p'.y ≤ (p.rising ^ 2 + ([⟨1 / 100, [.ofOpcode .jump 0]⟩,
      ⟨1 / 50, [.ofOpcode .moveRight 0]⟩].map (jumpEnergy 0)).sum) /
        (2 * (gravity * (1 / 100))) := by
  let turns : List Turn :=
    [⟨1 / 100, [.ofOpcode .jump 0]⟩, ⟨1 / 50, [.ofOpcode .moveRight 0]⟩]
  have heval : (([⟨1, [.ofOpcode .createPlayer 0]⟩, ⟨1, []⟩] : List Turn).foldlM
      (gameStep .x86 .room) ({}, {})).bind (fun s => (turns.foldlM (gameStep .x86 .room) s).bind
        fun s' => (s.1.player? 0).bind fun p => (s'.1.player? 0).map fun p' =>
          decide (p'.y < p.y)) = some true := by decide +kernel
  obtain ⟨s, hs, hrest⟩ := Option.bind_eq_some_iff.mp heval
  obtain ⟨s', hs', hrest⟩ := Option.bind_eq_some_iff.mp hrest
  obtain ⟨p, hp, hrest⟩ := Option.bind_eq_some_iff.mp hrest
  obtain ⟨p', hp', hrise⟩ := Option.map_eq_some_iff.mp hrest
  have hbefore : GameRun .x86 .room _ s := run_iff_foldlM.mpr hs
  have hrun : Run (stepRel (gameStep .x86 .room)) s turns s' := run_iff_foldlM.mpr hs'
  have hdt : ∀ turn ∈ turns, (1 / 100 : ℚ) ≤ turn.dt := by decide +kernel
  have hc : NeverCreated 0 turns := by
    unfold NeverCreated
    decide +kernel
  exact ⟨s, p, s', p', hbefore, hrun, hp, hp', of_decide_eq_true hrise,
    rise_le hbefore hrun (by norm_num) hdt hc hp hp'⟩

end EndlessPeak
