import Mathlib.Data.List.Basic

/-! Scripts: statements that are executed one after another, each of them atomic. A statement may
fail, and the process may stop between any two of them. -/

namespace Script

variable {σ ι ε : Type*}

/-- Why a script did not get to its end. -/
inductive Stop (ε : Type*) where
  | crashed
  | failed (error : ε)
deriving DecidableEq, Repr

/-- What a script has done, and how many statements may follow when it got to its end. -/
structure Ran (σ ι ε : Type*) where
  state : σ
  executed : List ι
  outcome : Except (Stop ε) (Option Nat)

/-- The statements in order, up to the first that fails. The process stops after `budget` of them,
if that is a number. -/
def run (exec : ι → σ → Except ε σ) : Option Nat → List ι → σ → Ran σ ι ε
  | budget, [], state => ⟨state, [], .ok budget⟩
  | some 0, _ :: _, state => ⟨state, [], .error .crashed⟩
  | budget, statement :: rest, state =>
    match exec statement state with
    | .error error => ⟨state, [], .error (.failed error)⟩
    | .ok state =>
      let ran := run exec (budget.map Nat.pred) rest state
      { ran with executed := statement :: ran.executed }

/-- All statements, when none of them fails. -/
def execAll (exec : ι → σ → Except ε σ) : List ι → σ → Except ε σ
  | [], state => .ok state
  | statement :: rest, state =>
    match exec statement state with
    | .error error => .error error
    | .ok state => execAll exec rest state

/-- A script that goes on where another one got to its end. -/
def Ran.andThen (ran : Ran σ ι ε) (next : Option Nat → σ → Ran σ ι ε) : Ran σ ι ε :=
  match ran.outcome with
  | .error _ => ran
  | .ok left =>
    let more := next left ran.state
    { more with executed := ran.executed ++ more.executed }

variable {exec : ι → σ → Except ε σ} {budget : Option Nat} {state : σ} {statements : List ι}

theorem run_cons_ok {statement : ι} {rest : List ι} {state' : σ} (hbudget : budget ≠ some 0)
    (hexec : exec statement state = .ok state') :
    run exec budget (statement :: rest) state =
      { run exec (budget.map Nat.pred) rest state' with
        executed := statement :: (run exec (budget.map Nat.pred) rest state').executed } := by
  rcases budget with _ | _ | n
  · simp only [run, hexec]
  · exact absurd rfl hbudget
  · simp only [run, hexec]

theorem run_cons_error {statement : ι} {rest : List ι} {error : ε} (hbudget : budget ≠ some 0)
    (hexec : exec statement state = .error error) :
    run exec budget (statement :: rest) state = ⟨state, [], .error (.failed error)⟩ := by
  rcases budget with _ | _ | n
  · simp only [run, hexec]
  · exact absurd rfl hbudget
  · simp only [run, hexec]

theorem run_append (first second : List ι) :
    run exec budget (first ++ second) state =
      (run exec budget first state).andThen fun left state => run exec left second state := by
  induction first generalizing budget state with
  | nil => rfl
  | cons statement first ih =>
    rw [List.cons_append]
    by_cases hbudget : budget = some 0
    · subst hbudget
      rfl
    · cases hexec : exec statement state with
      | error error =>
        rw [run_cons_error hbudget hexec, run_cons_error hbudget hexec]
        rfl
      | ok state' =>
        rw [run_cons_ok hbudget hexec, run_cons_ok hbudget hexec, ih]
        unfold Ran.andThen
        dsimp only
        split <;> rfl

theorem execAll_append (first second : List ι) :
    execAll exec (first ++ second) state =
      match execAll exec first state with
      | .error error => .error error
      | .ok state => execAll exec second state := by
  induction first generalizing state with
  | nil => rfl
  | cons statement first ih =>
    simp only [List.cons_append, execAll]
    cases exec statement state with
    | error error => rfl
    | ok state' => exact ih

/-- What a script has executed comes first in it, and has brought about its state. -/
theorem run_spec (exec : ι → σ → Except ε σ) (budget : Option Nat) (statements : List ι) (state : σ) :
    ∃ rest, statements = (run exec budget statements state).executed ++ rest ∧
      execAll exec (run exec budget statements state).executed state =
        .ok (run exec budget statements state).state ∧
      match (run exec budget statements state).outcome with
      | .ok left => rest = [] ∧ (budget = none → left = none)
      | .error .crashed => budget ≠ none ∧ rest ≠ []
      | .error (.failed error) => ∃ statement more, rest = statement :: more ∧
          exec statement (run exec budget statements state).state = .error error := by
  induction statements generalizing budget state with
  | nil => exact ⟨[], rfl, rfl, rfl, id⟩
  | cons statement others ih =>
    by_cases hbudget : budget = some 0
    · subst hbudget
      exact ⟨statement :: others, rfl, rfl, Option.some_ne_none 0, List.cons_ne_nil _ _⟩
    · cases hexec : exec statement state with
      | error error =>
        rw [run_cons_error hbudget hexec]
        exact ⟨statement :: others, rfl, rfl, statement, others, rfl, hexec⟩
      | ok state' =>
        rw [run_cons_ok hbudget hexec]
        obtain ⟨rest, hbegins, hstate, houtcome⟩ := ih (budget.map Nat.pred) state'
        refine ⟨rest, congrArg (statement :: ·) hbegins, ?_, ?_⟩
        · simp only [execAll, hexec]
          exact hstate
        · dsimp only
          split
          · next heq =>
            rw [heq] at houtcome
            exact ⟨houtcome.1, fun hnone => houtcome.2 (by rw [hnone]; rfl)⟩
          · next heq =>
            rw [heq] at houtcome
            refine ⟨?_, houtcome.2⟩
            rintro rfl
            exact houtcome.1 rfl
          · next heq =>
            rw [heq] at houtcome
            exact houtcome

/-- A script none of whose statements fails when all are executed gets to its end, or stops
half-way. -/
theorem run_of_execAll (budget : Option Nat) {state' : σ}
    (hall : execAll exec statements state = .ok state') :
    ((run exec budget statements state).executed = statements ∧
        (run exec budget statements state).state = state' ∧
        ∃ left, (run exec budget statements state).outcome = .ok left ∧
          (budget = none → left = none)) ∨
      (run exec budget statements state).outcome = .error .crashed ∧ budget ≠ none := by
  obtain ⟨rest, hbegins, hstate, houtcome⟩ := run_spec exec budget statements state
  generalize run exec budget statements state = ran at *
  split at houtcome
  · next left heq =>
    rw [houtcome.1, List.append_nil] at hbegins
    rw [← hbegins, hall] at hstate
    exact Or.inl ⟨hbegins.symm, (Except.ok.inj hstate).symm, left, heq, houtcome.2⟩
  · next heq => exact Or.inr ⟨heq, houtcome.1⟩
  · obtain ⟨statement, more, rfl, herror⟩ := houtcome
    rw [hbegins, execAll_append, hstate] at hall
    simp [execAll, herror] at hall

end Script
