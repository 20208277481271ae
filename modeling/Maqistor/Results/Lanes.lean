import Maqistor.Results.Loop

/-! The lane controller of the results writer: which of the two lanes has the next turn when both
have rows. It prefers the lane under the higher pressure, once three comparisons in a row agree, and
gives the other lane a turn after 32 turns. Before the first preference it always gives the turn to
completions. -/

namespace Maqistor

structure DirectionStreak where
  direction : Int
  samples : Nat
deriving DecidableEq, Repr

namespace DirectionStreak

/-- `DirectionStreak::default()`. -/
def fresh : DirectionStreak := { direction := 0, samples := 0 }

/-- A sample more, or the first in another direction. -/
def sample (streak : DirectionStreak) (direction : Int) : DirectionStreak :=
  if streak.direction = direction then { streak with samples := min (streak.samples + 1) 255 }
  else { direction := direction, samples := 1 }

/-- `confirm`. -/
def confirm (streak : DirectionStreak) (direction : Int) : DirectionStreak × Bool :=
  if direction = 0 then (fresh, false)
  else if 3 ≤ (streak.sample direction).samples then
    ({ streak.sample direction with samples := 0 }, true)
  else (streak.sample direction, false)

end DirectionStreak

inductive ResultsLaneSelectionReason where
  | onlyActive
  | initialTieBreak
  | preferred
  | starvationOverride
deriving DecidableEq, Repr

/-- `other_lane`. -/
def ResultsLane.other : ResultsLane → ResultsLane
  | .dispatch => .completion
  | .completion => .dispatch

/-- `MAX_RESULTS_PREFERRED_LANE_TURNS`. -/
def maxPreferredTurns : Nat := 32

/-- The controller without its averages: they enter a choice only through the two pressures. -/
structure ResultsLaneController where
  preferred : Option ResultsLane
  directionStreak : DirectionStreak
  preferredTurns : Nat
deriving DecidableEq, Repr

/-- What a call of `select` finds: the rows of the two lanes and their pressures, if they are
known. -/
structure LaneTurn (P : Type) where
  dispatchRows : Nat
  completionRows : Nat
  dispatchPressure : Option P
  completionPressure : Option P
deriving DecidableEq, Repr

namespace LaneTurn

variable {P : Type}

/-- Both lanes have rows. -/
def Contested (turn : LaneTurn P) : Prop := 0 < turn.dispatchRows ∧ 0 < turn.completionRows

instance (turn : LaneTurn P) : Decidable turn.Contested :=
  inferInstanceAs (Decidable (_ ∧ _))

/-- The comparison of the pressures. -/
def direction [LT P] [DecidableLT P] (turn : LaneTurn P) : Int :=
  match turn.dispatchPressure, turn.completionPressure with
  | some dispatch, some completion =>
    if dispatch < completion then 1 else if completion < dispatch then -1 else 0
  | _, _ => 0

end LaneTurn

namespace ResultsLaneController

/-- `ResultsLaneController::new`. -/
def new : ResultsLaneController :=
  { preferred := none, directionStreak := .fresh, preferredTurns := 0 }

/-- A preference, with its turns counted from the start if it is a new one. -/
def setPreferred (controller : ResultsLaneController) (preferred : Option ResultsLane) :
    ResultsLaneController :=
  if preferred = controller.preferred then controller
  else { controller with preferred := preferred, preferredTurns := 0 }

/-- The part of `select` that follows the comparison. -/
def follow (controller : ResultsLaneController) (direction : Int) : ResultsLaneController :=
  let (streak, confirmed) := controller.directionStreak.confirm direction
  let controller := { controller with directionStreak := streak }
  if confirmed then
    controller.setPreferred (if direction = 1 then some .completion
      else if direction = -1 then some .dispatch else controller.preferred)
  else controller

/-- The choice at the end of `select`. -/
def choice (controller : ResultsLaneController) : ResultsLane × ResultsLaneSelectionReason :=
  match controller.preferred with
  | none => (.completion, .initialTieBreak)
  | some preferred =>
    if maxPreferredTurns ≤ controller.preferredTurns then (preferred.other, .starvationOverride)
    else (preferred, .preferred)

section Select

variable {P : Type} [LT P] [DecidableLT P]

def select (controller : ResultsLaneController) (turn : LaneTurn P) :
    ResultsLaneController × Option (ResultsLane × ResultsLaneSelectionReason) :=
  match decide (0 < turn.dispatchRows), decide (0 < turn.completionRows) with
  | false, false => (controller, none)
  | true, false => ({ controller with preferredTurns := 0 }, some (.dispatch, .onlyActive))
  | false, true => ({ controller with preferredTurns := 0 }, some (.completion, .onlyActive))
  | true, true =>
    let controller := controller.follow turn.direction
    (controller, some controller.choice)

/-- `record_turn`. -/
def recordTurn (controller : ResultsLaneController) (lane : ResultsLane) : ResultsLaneController :=
  if controller.preferred = some lane then
    { controller with preferredTurns := controller.preferredTurns + 1 }
  else { controller with preferredTurns := 0 }

/-- A turn: `select`, then `record_turn` of the lane. -/
def takeTurn (controller : ResultsLaneController) (turn : LaneTurn P) :
    ResultsLaneController × Option ResultsLane :=
  match controller.select turn with
  | (controller, none) => (controller, none)
  | (controller, some (lane, _)) => (controller.recordTurn lane, some lane)

/-- Turns one after the other, with the lanes that had them. -/
def takeTurns (controller : ResultsLaneController) :
    List (LaneTurn P) → ResultsLaneController × List ResultsLane
  | [] => (controller, [])
  | turn :: rest =>
    let (controller, lane) := controller.takeTurn turn
    let (controller, lanes) := controller.takeTurns rest
    (controller, lane.toList ++ lanes)

end Select

/-- The lane that a comparison confirms. -/
def confirmation (streak : DirectionStreak) (direction : Int) : Option ResultsLane :=
  if (streak.confirm direction).2 then
    if direction = 1 then some .completion else if direction = -1 then some .dispatch else none
  else none

/-- The lanes that the comparisons of some turns confirm. -/
def confirmations {P : Type} [LT P] [DecidableLT P] (streak : DirectionStreak) :
    List (LaneTurn P) → List (Option ResultsLane)
  | [] => []
  | turn :: rest =>
    confirmation streak turn.direction :: confirmations (streak.confirm turn.direction).1 rest

/-! ### One turn -/

/-- What a turn does when both lanes have rows, with the lane that its comparison confirms. -/
inductive Contest (controller : ResultsLaneController) (after : ResultsLaneController) :
    Option ResultsLane → ResultsLane → Prop
  | tie (hold : controller.preferred = none) (hnew : after.preferred = none)
      (hturns : after.preferredTurns = 0) : Contest controller after none .completion
  | switch {lane : ResultsLane} (hold : controller.preferred ≠ some lane)
      (hnew : after.preferred = some lane) (hturns : after.preferredTurns = 1) :
      Contest controller after (some lane) lane
  | stay {confirmed : Option ResultsLane} {lane : ResultsLane}
      (hconfirmed : confirmed = none ∨ confirmed = some lane)
      (hold : controller.preferred = some lane)
      (hlt : controller.preferredTurns < maxPreferredTurns) (hnew : after.preferred = some lane)
      (hturns : after.preferredTurns = controller.preferredTurns + 1) :
      Contest controller after confirmed lane
  | override {confirmed : Option ResultsLane} {lane : ResultsLane}
      (hconfirmed : confirmed = none ∨ confirmed = some lane)
      (hold : controller.preferred = some lane)
      (hge : maxPreferredTurns ≤ controller.preferredTurns) (hnew : after.preferred = some lane)
      (hturns : after.preferredTurns = 0) :
      Contest controller after confirmed lane.other

section Turn

variable {P : Type} [LT P] [DecidableLT P] {controller : ResultsLaneController} {turn : LaneTurn P}

theorem other_ne (lane : ResultsLane) : lane.other ≠ lane := by
  cases lane <;> decide

/-- The preference follows a confirmed comparison, and a new one has no turns yet. -/
theorem follow_fields (controller : ResultsLaneController) (direction : Int) :
    (controller.follow direction).directionStreak =
        (controller.directionStreak.confirm direction).1 ∧
      (controller.follow direction).preferred =
        (confirmation controller.directionStreak direction).or controller.preferred ∧
      ((controller.follow direction).preferred = controller.preferred →
        (controller.follow direction).preferredTurns = controller.preferredTurns) ∧
      ((controller.follow direction).preferred ≠ controller.preferred →
        (controller.follow direction).preferredTurns = 0) := by
  unfold follow confirmation
  cases hconfirmed : (controller.directionStreak.confirm direction).2 with
  | false => simp [hconfirmed]
  | true =>
    simp only [hconfirmed, if_true, setPreferred]
    split
    · split <;> simp_all
    · split
      · split <;> simp_all
      · simp

theorem takeTurn_contested (h : turn.Contested) :
    controller.takeTurn turn = ((controller.follow turn.direction).recordTurn
      (controller.follow turn.direction).choice.1,
      some (controller.follow turn.direction).choice.1) := by
  have hselect : controller.select turn = (controller.follow turn.direction,
      some (controller.follow turn.direction).choice) := by
    unfold select
    rw [decide_eq_true h.1, decide_eq_true h.2]
  rw [takeTurn, hselect]

/-- The turn of a controller that has a preference. -/
theorem choice_of_preferred {lane : ResultsLane} (h : controller.preferred = some lane) :
    controller.preferredTurns < maxPreferredTurns ∧ controller.choice.1 = lane ∧
        controller.recordTurn controller.choice.1 =
          { controller with preferredTurns := controller.preferredTurns + 1 } ∨
      maxPreferredTurns ≤ controller.preferredTurns ∧ controller.choice.1 = lane.other ∧
        controller.recordTurn controller.choice.1 = { controller with preferredTurns := 0 } := by
  have hother : ¬some lane = some lane.other := fun heq => other_ne lane (Option.some.inj heq).symm
  by_cases hge : maxPreferredTurns ≤ controller.preferredTurns
  · right
    simp [choice, recordTurn, h, hge, hother]
  · left
    simp [choice, recordTurn, h, hge, Nat.lt_of_not_le hge]

/-- A turn when both lanes have rows. -/
theorem takeTurn_contest (controller : ResultsLaneController) (h : turn.Contested) : ∃ lane,
    (controller.takeTurn turn).2 = some lane ∧
    (controller.takeTurn turn).1.directionStreak =
      (controller.directionStreak.confirm turn.direction).1 ∧
    Contest controller (controller.takeTurn turn).1
      (confirmation controller.directionStreak turn.direction) lane := by
  obtain ⟨hstreak, hpreferred, hsame, hnew⟩ := follow_fields controller turn.direction
  rw [takeTurn_contested h]
  generalize controller.follow turn.direction = followed at *
  generalize confirmation controller.directionStreak turn.direction = confirmed at *
  refine ⟨_, rfl, ?_, ?_⟩
  · unfold recordTurn
    split <;> exact hstreak
  · have hkeeps : ∀ {lane}, confirmed = none ∨ confirmed = some lane →
        controller.preferred = some lane → followed.preferred = some lane →
        followed.preferredTurns = controller.preferredTurns →
        Contest controller (followed.recordTurn followed.choice.1) confirmed followed.choice.1 := by
      intro lane hconfirmed hold hnew hturns
      rcases choice_of_preferred hnew with ⟨hlt, hlane, hrecord⟩ | ⟨hge, hlane, hrecord⟩
      · rw [hrecord, hlane]
        exact .stay hconfirmed hold (hturns ▸ hlt) hnew (by rw [hturns])
      · rw [hrecord, hlane]
        exact .override hconfirmed hold (hturns ▸ hge) hnew rfl
    cases confirmed with
    | none =>
      rw [Option.none_or] at hpreferred
      cases hold : controller.preferred with
      | none =>
        rw [hold] at hpreferred
        have hlane : followed.choice.1 = .completion := by simp [choice, hpreferred]
        rw [hlane]
        exact .tie hold (by simp [recordTurn, hpreferred]) (by simp [recordTurn, hpreferred])
      | some lane => exact hkeeps (Or.inl rfl) hold (hpreferred.trans hold) (hsame hpreferred)
    | some lane =>
      rw [Option.some_or] at hpreferred
      by_cases hold : controller.preferred = some lane
      · exact hkeeps (Or.inr rfl) hold hpreferred (hsame (hpreferred.trans hold.symm))
      · have hturns := hnew (hpreferred ▸ Ne.symm hold)
        rcases choice_of_preferred hpreferred with ⟨-, hlane, hrecord⟩ | ⟨hge, -, -⟩
        · rw [hrecord, hlane]
          exact .switch hold hpreferred (by rw [hturns])
        · simp [hturns, maxPreferredTurns] at hge

end Turn

/-! ### Windows -/

/-- Within so many turns the lane has one, if there is a preference: the other lane has at most one
turn out of order and then its 32 turns. -/
def gap (controller : ResultsLaneController) (lane : ResultsLane) : Nat :=
  if controller.preferred = some lane then
    if controller.preferredTurns < maxPreferredTurns then 33 else 34
  else 33 - controller.preferredTurns

section Window

variable {P : Type} [LT P] [DecidableLT P] {controller after : ResultsLaneController}
  {confirmed : Option ResultsLane} {lane chosen : ResultsLane} {window : List (LaneTurn P)}

theorem eq_other_of_ne (h : chosen ≠ lane) : chosen = lane.other := by
  cases chosen <;> cases lane <;> first | rfl | exact absurd rfl h

theorem Contest.capped (h : Contest controller after confirmed chosen) :
    after.preferredTurns ≤ maxPreferredTurns := by
  cases h with
  | tie _ _ hturns => rw [hturns]; exact Nat.zero_le _
  | switch _ _ hturns => rw [hturns]; decide
  | stay _ _ hlt _ hturns => omega
  | override _ _ _ _ hturns => rw [hturns]; exact Nat.zero_le _

theorem Contest.preferred (h : Contest controller after confirmed chosen)
    (hpreferred : controller.preferred ≠ none) : after.preferred ≠ none := by
  cases h with
  | tie hold => exact absurd hold hpreferred
  | switch _ hnew => rw [hnew]; exact Option.some_ne_none _
  | stay _ _ _ hnew => rw [hnew]; exact Option.some_ne_none _
  | override _ _ _ hnew => rw [hnew]; exact Option.some_ne_none _

/-- A turn goes to the lane, or brings its next turn nearer. -/
theorem Contest.gap (h : Contest controller after confirmed chosen)
    (hpreferred : controller.preferred ≠ none)
    (hcap : controller.preferredTurns ≤ maxPreferredTurns) (lane : ResultsLane) :
    chosen = lane ∨ after.gap lane + 1 ≤ controller.gap lane := by
  have hmax : maxPreferredTurns = 32 := rfl
  by_cases hchosen : chosen = lane
  · exact Or.inl hchosen
  · right
    cases h with
    | tie hold => exact absurd hold hpreferred
    | switch hold hnew hturns =>
      -- the preference was the lane's
      have hmine : controller.preferred = some lane := by
        obtain ⟨old, hsome⟩ := Option.ne_none_iff_exists'.mp hpreferred
        rw [hsome] at hold ⊢
        have hne : old ≠ chosen := fun heq => hold (heq ▸ rfl)
        rw [eq_other_of_ne hne, eq_other_of_ne (Ne.symm hchosen)]
      have hother : after.preferred ≠ some lane := by simpa [hnew] using hchosen
      rw [ResultsLaneController.gap, ResultsLaneController.gap, if_neg hother, if_pos hmine, hturns]
      split <;> omega
    | stay _ hold hlt hnew hturns =>
      have hother : after.preferred ≠ some lane := by simpa [hnew] using hchosen
      have hbefore : controller.preferred ≠ some lane := by simpa [hold] using hchosen
      rw [ResultsLaneController.gap, ResultsLaneController.gap, if_neg hother, if_neg hbefore, hturns]
      omega
    | @override _ preferred _ hold hge hnew hturns =>
      have hmine : preferred = lane := by
        cases preferred <;> cases lane <;> first | rfl | exact absurd rfl hchosen
      rw [hmine] at hold hnew
      have hafter : after.gap lane = 33 := (if_pos hnew).trans (if_pos (by omega))
      have hbefore : controller.gap lane = 34 := (if_pos hold).trans (if_neg (Nat.not_lt.mpr hge))
      omega

theorem gap_pos (lane : ResultsLane) (hcap : controller.preferredTurns ≤ maxPreferredTurns) :
    0 < controller.gap lane := by
  have hmax : maxPreferredTurns = 32 := rfl
  unfold ResultsLaneController.gap
  split
  · split <;> omega
  · omega

theorem gap_le : controller.gap lane ≤ 34 := by
  unfold ResultsLaneController.gap
  split
  · split <;> omega
  · omega

theorem takeTurns_cons (turn : LaneTurn P) (rest : List (LaneTurn P)) :
    (controller.takeTurns (turn :: rest)).2 =
      (controller.takeTurn turn).2.toList ++ ((controller.takeTurn turn).1.takeTurns rest).2 := rfl

/-- With a preference, a lane has a turn within its gap. -/
theorem mem_of_gap (hwindow : ∀ turn ∈ window, turn.Contested)
    (hpreferred : controller.preferred ≠ none)
    (hcap : controller.preferredTurns ≤ maxPreferredTurns)
    (hgap : controller.gap lane ≤ window.length) : lane ∈ (controller.takeTurns window).2 := by
  induction window generalizing controller with
  | nil =>
    have hpos := gap_pos lane hcap
    rw [List.length_nil] at hgap
    omega
  | cons turn rest ih =>
    obtain ⟨hturn, hrest⟩ := List.forall_mem_cons.mp hwindow
    obtain ⟨chosen, hchosen, -, hcontest⟩ := takeTurn_contest controller hturn
    rw [takeTurns_cons, hchosen]
    rcases hcontest.gap hpreferred hcap lane with rfl | hnearer
    · simp
    · refine List.mem_append_right _ (ih hrest (hcontest.preferred hpreferred) ?_ ?_)
      · exact hcontest.capped
      · rw [List.length_cons] at hgap
        omega

/-- Where dispatches are not preferred, a comparison that confirms them gives them a turn. -/
theorem dispatch_of_confirmed (hwindow : ∀ turn ∈ window, turn.Contested)
    (hpreferred : controller.preferred ≠ some .dispatch)
    (h : some .dispatch ∈ confirmations controller.directionStreak window) :
    .dispatch ∈ (controller.takeTurns window).2 := by
  induction window generalizing controller with
  | nil => cases h
  | cons turn rest ih =>
    obtain ⟨hturn, hrest⟩ := List.forall_mem_cons.mp hwindow
    obtain ⟨chosen, hchosen, hstreak, hcontest⟩ := takeTurn_contest controller hturn
    rw [takeTurns_cons, hchosen]
    rw [confirmations, ← hstreak] at h
    generalize confirmation controller.directionStreak turn.direction = confirmed at *
    generalize (controller.takeTurn turn).1 = after at *
    by_cases hnow : confirmed = some .dispatch
    · subst hnow
      cases hcontest with
      | switch => simp
      | stay hconfirmed hold => simp_all
      | override hconfirmed hold => simp_all
    · have hlater := (List.mem_cons.mp h).resolve_left (Ne.symm hnow)
      refine List.mem_append_right _ (ih hrest ?_ hlater)
      cases hcontest with
      | tie _ hnew => simp [hnew]
      | switch _ hnew => simpa [hnew] using hnow
      | stay _ hold _ hnew => simpa [hnew, hold] using hpreferred
      | override _ hold _ hnew => simpa [hnew, hold] using hpreferred

/-- Without a comparison that confirms dispatches, completions have all turns: as long as there is
no preference, and then until their 32 turns are over. The first `early` comparisons confirm
nothing. -/
theorem completion_only {early : Nat} (hwindow : ∀ turn ∈ window, turn.Contested)
    (hnone : some .dispatch ∉ confirmations controller.directionStreak window)
    (hroom : controller.preferred = none ∧
        some .completion ∉ (confirmations controller.directionStreak window).take early ∧
        window.length ≤ maxPreferredTurns + early ∨
      controller.preferred = some .completion ∧
        controller.preferredTurns + window.length ≤ maxPreferredTurns) :
    ∀ lane ∈ (controller.takeTurns window).2, lane = .completion := by
  induction window generalizing controller early with
  | nil =>
    intro lane hlane
    cases hlane
  | cons turn rest ih =>
    obtain ⟨hturn, hrest⟩ := List.forall_mem_cons.mp hwindow
    obtain ⟨chosen, hchosen, hstreak, hcontest⟩ := takeTurn_contest controller hturn
    rw [takeTurns_cons, hchosen]
    rw [confirmations, ← hstreak, List.mem_cons, not_or] at hnone
    rw [confirmations, ← hstreak, List.length_cons] at hroom
    generalize confirmation controller.directionStreak turn.direction = confirmed at *
    generalize (controller.takeTurn turn).1 = after at *
    have hhead : chosen = .completion ∧ ∀ lane ∈ (after.takeTurns rest).2, lane = .completion := by
      have hlater := @ih after (early - 1) hrest hnone.2
      cases hcontest with
      | tie hold hnew =>
        refine ⟨rfl, hlater (Or.inl ⟨hnew, ?_⟩)⟩
        rcases hroom with ⟨-, hquiet, hlength⟩ | ⟨hsome, -⟩
        · cases early with
          | zero => exact ⟨by simp, by omega⟩
          | succ early =>
            rw [List.take_succ_cons, List.mem_cons, not_or] at hquiet
            exact ⟨hquiet.2, by omega⟩
        · simp [hold] at hsome
      | switch hold hnew hturns =>
        cases chosen with
        | dispatch => exact absurd rfl hnone.1
        | completion =>
          refine ⟨rfl, hlater (Or.inr ⟨hnew, ?_⟩)⟩
          rcases hroom with ⟨-, hquiet, hlength⟩ | ⟨hsome, -⟩
          · cases early with
            | zero => omega
            | succ early => simp at hquiet
          · exact absurd hsome hold
      | stay _ hold hlt hnew hturns =>
        rcases hroom with ⟨hempty, -⟩ | ⟨hsome, hlength⟩
        · simp [hold] at hempty
        · obtain rfl : chosen = .completion := Option.some.inj (hold.symm.trans hsome)
          exact ⟨rfl, hlater (Or.inr ⟨hnew, by omega⟩)⟩
      | override _ hold hge =>
        rcases hroom with ⟨hempty, -⟩ | ⟨-, hlength⟩
        · simp [hold] at hempty
        · omega
    intro lane hlane
    rcases List.mem_append.mp hlane with hnow | hrest
    · rw [List.mem_singleton.mp hnow]
      exact hhead.1
    · exact hhead.2 lane hrest

theorem takeTurn_capped (hcap : controller.preferredTurns ≤ maxPreferredTurns) (turn : LaneTurn P) :
    (controller.takeTurn turn).1.preferredTurns ≤ maxPreferredTurns := by
  by_cases hboth : turn.Contested
  · obtain ⟨chosen, -, -, hcontest⟩ := takeTurn_contest controller hboth
    exact hcontest.capped
  · have hone : ∀ lane, ({ controller with preferredTurns := 0 }.recordTurn lane).preferredTurns ≤
        maxPreferredTurns := by
      intro lane
      unfold recordTurn
      split
      · exact Nat.le_of_ble_eq_true rfl
      · exact Nat.zero_le _
    unfold takeTurn select
    cases hdispatch : decide (0 < turn.dispatchRows) with
    | false =>
      cases hcompletion : decide (0 < turn.completionRows) with
      | false => exact hcap
      | true => exact hone .completion
    | true =>
      cases hcompletion : decide (0 < turn.completionRows) with
      | false => exact hone .dispatch
      | true => exact absurd ⟨of_decide_eq_true hdispatch, of_decide_eq_true hcompletion⟩ hboth

theorem takeTurns_capped (hcap : controller.preferredTurns ≤ maxPreferredTurns)
    (turns : List (LaneTurn P)) :
    (controller.takeTurns turns).1.preferredTurns ≤ maxPreferredTurns := by
  induction turns generalizing controller with
  | nil => exact hcap
  | cons turn rest ih => exact ih (takeTurn_capped hcap turn)

/-- The first preference, or none. -/
theorem Contest.first (h : Contest controller after confirmed chosen)
    (hnone : controller.preferred = none) :
    confirmed = none ∧ chosen = .completion ∧ after.preferred = none ∨
      confirmed = some chosen ∧ after.preferred = some chosen ∧ after.preferredTurns = 1 := by
  cases h with
  | tie _ hnew => exact Or.inl ⟨rfl, rfl, hnew⟩
  | switch _ hnew hturns => exact Or.inr ⟨rfl, hnew, hturns⟩
  | stay _ hold => simp [hnone] at hold
  | override _ hold => simp [hnone] at hold

/-- After the first turn of a preference the other lane has one within 32 turns. -/
theorem other_within (hwindow : ∀ turn ∈ window, turn.Contested)
    (hpreferred : controller.preferred = some lane) (hturns : controller.preferredTurns = 1)
    (hlength : 32 ≤ window.length) : lane.other ∈ (controller.takeTurns window).2 := by
  have hgap : controller.gap lane.other = 32 := by
    have hne : controller.preferred ≠ some lane.other := by
      rw [hpreferred]
      exact fun heq => other_ne lane (Option.some.inj heq).symm
    rw [gap, if_neg hne, hturns]
  refine mem_of_gap hwindow (by simp [hpreferred]) ?_ (by omega)
  rw [hturns]
  decide

/-- Completions always have a turn. -/
theorem completion_within (hwindow : ∀ turn ∈ window, turn.Contested)
    (hnone : controller.preferred = none) (hlength : 33 ≤ window.length) :
    .completion ∈ (controller.takeTurns window).2 := by
  cases window with
  | nil => simp at hlength
  | cons turn rest =>
    obtain ⟨hturn, hrest⟩ := List.forall_mem_cons.mp hwindow
    obtain ⟨chosen, hchosen, -, hcontest⟩ := takeTurn_contest controller hturn
    rw [takeTurns_cons, hchosen]
    rw [List.length_cons] at hlength
    rcases hcontest.first hnone with ⟨-, rfl, -⟩ | ⟨-, hpreferred, hturns⟩
    · simp
    · cases chosen with
      | completion => simp
      | dispatch =>
        exact List.mem_append_right _ (other_within hrest hpreferred hturns (by omega))

/-- Dispatches have a turn in a window of 34 that starts without a preference, if and only if a
comparison of the window confirms them, or one of the first two confirms completions. -/
theorem dispatch_within_iff (hwindow : ∀ turn ∈ window, turn.Contested)
    (hnone : controller.preferred = none) (hlength : window.length = 34) :
    .dispatch ∈ (controller.takeTurns window).2 ↔
      some .dispatch ∈ confirmations controller.directionStreak window ∨
      some .completion ∈ (confirmations controller.directionStreak window).take 2 := by
  obtain ⟨first, second, rest, rfl, hrest⟩ : ∃ first second rest,
      window = first :: second :: rest ∧ rest.length = 32 := by
    match window, hlength with
    | first :: second :: rest, hlength => exact ⟨first, second, rest, rfl, by simpa using hlength⟩
  obtain ⟨hfirst, hlater⟩ := List.forall_mem_cons.mp hwindow
  obtain ⟨hsecond, hothers⟩ := List.forall_mem_cons.mp hlater
  constructor
  · intro hmem
    by_contra hnot
    rw [not_or] at hnot
    obtain ⟨hdispatch, hcompletion⟩ := hnot
    have hroom : (first :: second :: rest).length ≤ maxPreferredTurns + 2 := Nat.le_of_eq hlength
    cases completion_only hwindow hdispatch (Or.inl ⟨hnone, hcompletion, hroom⟩) _ hmem
  · rintro (hconfirmed | hearly)
    · exact dispatch_of_confirmed hwindow (by simp [hnone]) hconfirmed
    · obtain ⟨lane, hlane, hstreak, hcontest⟩ := takeTurn_contest controller hfirst
      rw [takeTurns_cons, hlane]
      rw [confirmations, confirmations, List.take_succ_cons, List.take_succ_cons, List.take_zero,
        ← hstreak] at hearly
      generalize confirmation controller.directionStreak first.direction = confirmed at *
      generalize (controller.takeTurn first).1 = after at *
      rcases hcontest.first hnone with ⟨rfl, rfl, hafter⟩ | ⟨rfl, hpreferred, hturns⟩
      · -- the second comparison is the one that confirms completions
        obtain ⟨lane', hlane', -, hcontest'⟩ := takeTurn_contest after hsecond
        have hnow : confirmation after.directionStreak second.direction = some .completion := by
          simpa [eq_comm] using hearly
        rw [takeTurns_cons, hlane']
        rw [hnow] at hcontest'
        rcases hcontest'.first hafter with ⟨hnever, -⟩ | ⟨hsame, hpreferred, hturns⟩
        · cases hnever
        · obtain rfl : .completion = lane' := Option.some.inj hsame
          have hmem := other_within hothers hpreferred hturns (by omega)
          exact List.mem_append_right _ (List.mem_append_right _ hmem)
      · cases lane with
        | dispatch => simp
        | completion =>
          have hlength' : 32 ≤ (second :: rest).length := by
            rw [List.length_cons]
            omega
          exact List.mem_append_right _ (other_within hlater hpreferred hturns hlength')

end Window

/-- For every window of 34 turns with rows in both lanes, after any turns of a new controller: both
lanes have a turn in it if and only if there is a preference when it starts, or a comparison of the
window confirms dispatches, or one of its first two confirms completions. -/
theorem lanes_share_window_iff {P : Type} [LT P] [DecidableLT P] (before window : List (LaneTurn P))
    (hlength : window.length = 34) (hwindow : ∀ turn ∈ window, turn.Contested) :
    (.dispatch ∈ ((new.takeTurns before).1.takeTurns window).2 ∧
      .completion ∈ ((new.takeTurns before).1.takeTurns window).2) ↔
    ((new.takeTurns before).1.preferred ≠ none ∨
      some .dispatch ∈ confirmations (new.takeTurns before).1.directionStreak window ∨
      some .completion ∈
        (confirmations (new.takeTurns before).1.directionStreak window).take 2) := by
  have hcap : (new.takeTurns before).1.preferredTurns ≤ maxPreferredTurns :=
    takeTurns_capped (Nat.zero_le _) before
  generalize (new.takeTurns before).1 = controller at *
  by_cases hnone : controller.preferred = none
  · have hcompletion := completion_within hwindow hnone (by omega)
    simp only [hcompletion, and_true, hnone, ne_eq, not_true_eq_false, false_or]
    exact dispatch_within_iff hwindow hnone hlength
  · have hboth : ∀ lane, lane ∈ (controller.takeTurns window).2 :=
      fun lane => mem_of_gap hwindow hnone hcap (hlength ▸ gap_le)
    exact iff_of_true ⟨hboth _, hboth _⟩ (Or.inl hnone)

/-- A window of turns that all find the same pressures. -/
def steadyWindow (dispatchPressure completionPressure : Option Nat) : List (LaneTurn Nat) :=
  List.replicate 34
    { dispatchRows := 1, completionRows := 1, dispatchPressure := dispatchPressure
      completionPressure := completionPressure }

/-- Dispatches are under the higher pressure. -/
theorem lanes_share_window_iff_steady :
    .dispatch ∈ (new.takeTurns (steadyWindow (some 2) (some 1))).2 ∧
      .completion ∈ (new.takeTurns (steadyWindow (some 2) (some 1))).2 :=
  (lanes_share_window_iff [] (steadyWindow (some 2) (some 1)) (by decide) (by decide)).mpr
    (Or.inr (Or.inl (by decide)))

/-- As long as the pressures are not known, completions have every turn. -/
theorem dispatch_starves :
    (steadyWindow none none).length = 34 ∧ (∀ turn ∈ steadyWindow none none, turn.Contested) ∧
      (new.takeTurns (steadyWindow none none)).2 = List.replicate 34 .completion ∧
      ¬.dispatch ∈ (new.takeTurns (steadyWindow none none)).2 := by
  decide

/-- What the controller selects is a choice that the writer's loop allows. -/
theorem select_allowed {P : Type} [LT P] [DecidableLT P] (controller : ResultsLaneController)
    (turn : LaneTurn P) : ∃ preferred, (controller.select turn).2.map Prod.fst =
      ResultsConn.select preferred turn.dispatchRows turn.completionRows := by
  refine ⟨(controller.follow turn.direction).choice.1, ?_⟩
  unfold select ResultsConn.select
  cases decide (0 < turn.dispatchRows) <;> cases decide (0 < turn.completionRows) <;> rfl

end ResultsLaneController

end Maqistor
