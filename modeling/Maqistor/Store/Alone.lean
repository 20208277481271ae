import Maqistor.Store.Schema

/-! A call on its own: its steps one after another, with nothing in between. A call never comes back
to a stage, so what each step takes from outside is given by its stage. -/

namespace Maqistor

open ResultsConn IngestConn

/-- A row without its update time. -/
def AcceptedJob.untimed (row : AcceptedJob) : AcceptedJob := { row with updatedAt := 0 }

/-- How many steps a call takes from here, at most. -/
def Stage.remaining : Stage → Nat
  | .upsertResults _ => 1
  | .dispatch claimed _ => claimed.length + 1
  | .undoClaim _ rest _ => rest.length + 1
  | .rependCompleted .complete _ _ => 3
  | .rependCompleted .completeWorkerResult _ _ => 1
  | .readAccepted _ => 2
  | .readExecution _ _ => 1
  | .rependStale _ rest _ => 3 * rest.length + 3
  | .readStaleAccepted _ rest _ => 3 * rest.length + 2
  | .readStaleExecution _ rest _ => 3 * rest.length + 1
  | .abandon _ _ => 2
  | .rependReleased _ _ => 1
  | .cleanupResults _ _ => 1

def Progress.remaining : Progress → Nat
  | .wait stage => stage.remaining
  | .done _ => 0

namespace Store

/-- At most so many steps of a call. -/
def settle (envs : Stage → Env) : Nat → Store × Progress → Store × Progress
  | 0, call => call
  | _ + 1, (store, .done reply) => (store, .done reply)
  | n + 1, (store, .wait stage) => settle envs n (store.advance (envs stage) stage)

/-- A call to its end. -/
def alone (envs : Stage → Env) (call : Store × Progress) : Store × Progress :=
  settle envs call.2.remaining call

section Remaining

variable {envs : Stage → Env}

theorem undoClaims_remaining (error : StoreError) (claimed : List IngestClaimed) :
    (undoClaims error claimed).remaining = claimed.length := by
  cases claimed <;> rfl

theorem recoverItems_remaining (jobs : List Job) (items : List RecoveredStale) :
    (recoverItems jobs items).remaining ≤ 3 * items.length := by
  cases items with
  | nil => exact Nat.le_refl 0
  | cons item rest =>
    rw [recoverItems]
    split <;> simp only [Progress.remaining, Stage.remaining, List.length_cons] <;> omega

/-- Every step brings a call closer to its end. -/
theorem advance_remaining (env : Env) (store : Store) (stage : Stage) :
    (store.advance env stage).2.remaining < stage.remaining := by
  cases stage with
  | upsertResults queue =>
    simp only [advance]
    split <;> exact Nat.one_pos
  | dispatch claimed claimedAt =>
    simp only [advance, dispatch, Stage.remaining]
    split
    · rw [undoClaims_remaining]
      exact Nat.lt_succ_self _
    · exact Nat.succ_pos _
  | undoClaim row rest error =>
    simp only [advance, undoClaims_remaining, Stage.remaining]
    exact Nat.lt_succ_self _
  | rependCompleted submitter jobId dispatchId =>
    cases submitter
    · exact Nat.lt_succ_self 2
    · exact Nat.one_pos
  | readAccepted jobId =>
    simp only [advance, composedJob]
    split
    · exact Nat.two_pos
    · exact Nat.one_lt_two
  | readStaleAccepted item rest jobs =>
    simp only [advance]
    split
    · exact Nat.succ_pos _
    · exact Nat.lt_succ_self _
  | readStaleExecution accepted rest jobs =>
    simp only [advance]
    split
    · exact Nat.succ_pos _
    · exact Nat.lt_succ_of_le (recoverItems_remaining _ rest)
  | _ => simp [advance, Progress.remaining, Stage.remaining]

theorem settle_done (n : Nat) (store : Store) (reply : Reply) :
    settle envs n (store, .done reply) = (store, .done reply) := by
  cases n <;> rfl

/-- Numbers of steps that are enough lead to the same end. -/
theorem settle_congr {n m : Nat} {call : Store × Progress} (hn : call.2.remaining ≤ n)
    (hm : call.2.remaining ≤ m) : settle envs n call = settle envs m call := by
  induction n generalizing m call with
  | zero =>
    obtain ⟨store, stage | reply⟩ := call
    · exact absurd (advance_remaining (envs stage) store stage)
        (Nat.not_lt.mpr (hn.trans (Nat.zero_le _)))
    · rw [settle_done, settle_done]
  | succ n ih =>
    obtain ⟨store, stage | reply⟩ := call
    · have hless := advance_remaining (envs stage) store stage
      have hstage : stage.remaining ≤ n + 1 := hn
      have hstage' : stage.remaining ≤ m := hm
      cases m with
      | zero => omega
      | succ m => exact ih (by omega) (by omega)
    · rw [settle_done, settle_done]

theorem alone_done (store : Store) (reply : Reply) :
    alone envs (store, .done reply) = (store, .done reply) :=
  settle_done _ _ _

theorem alone_wait (store : Store) (stage : Stage) :
    alone envs (store, .wait stage) = alone envs (store.advance (envs stage) stage) := by
  have hless := advance_remaining (envs stage) store stage
  have hfuel : settle envs stage.remaining (store, .wait stage) =
      settle envs (stage.remaining + 1) (store, .wait stage) :=
    settle_congr (Nat.le_refl _) (Nat.le_succ _)
  rw [alone, show (store, Progress.wait stage).2.remaining = stage.remaining from rfl, hfuel, settle]
  exact settle_congr hless.le (Nat.le_refl _)

/-- A call on its own comes to its end. -/
theorem alone_replies (call : Store × Progress) : ∃ reply, (alone envs call).2 = .done reply := by
  obtain ⟨n, hn⟩ : ∃ n, call.2.remaining ≤ n := ⟨_, Nat.le_refl _⟩
  induction n generalizing call with
  | zero =>
    obtain ⟨store, stage | reply⟩ := call
    · exact absurd (advance_remaining (envs stage) store stage)
        (Nat.not_lt.mpr (hn.trans (Nat.zero_le _)))
    · exact ⟨reply, by rw [alone_done]⟩
  | succ n ih =>
    obtain ⟨store, stage | reply⟩ := call
    · have hless := advance_remaining (envs stage) store stage
      have hstage : stage.remaining ≤ n + 1 := hn
      rw [alone_wait]
      exact ih _ (by omega)
    · exact ⟨reply, by rw [alone_done]⟩

end Remaining

/-! ### Loops that repend -/

/-- Whether a row is claimed under a key. -/
def claimedUnder (row : AcceptedJob) (key : Int × String) : Bool :=
  row.id = key.1 ∧ row.dispatchId = some key.2

/-- A rewrite of the accepted rows that takes back the claims under some keys and does nothing else,
up to the update times. -/
def Repends (keys : List (Int × String)) (f : AcceptedJob → AcceptedJob) : Prop :=
  ∀ row, (f row).untimed =
    (if keys.any (claimedUnder row) then { row with dispatchId := none } else row).untimed

namespace Repends

variable {keys : List (Int × String)} {f : AcceptedJob → AcceptedJob}

theorem nil : Repends [] fun row => row := fun _ => rfl

/-- One repend, then others. -/
theorem cons (now : Int) (key : Int × String) (h : Repends keys f) :
    Repends (key :: keys) (f ∘ rependRow now key) := by
  intro row
  rw [Function.comp_apply, h, List.any_cons]
  rcases rependRow_cases now key row with ⟨heq, hno⟩ | ⟨hid, hclaim, heq⟩
  · have hkept : claimedUnder row key = false := by simpa [claimedUnder] using hno
    rw [heq, hkept, Bool.false_or]
  · have htaken : claimedUnder row key = true := by simp [claimedUnder, hid, hclaim]
    have hfree : keys.any (claimedUnder (released now row)) = false := by
      simp [claimedUnder, released]
    rw [heq, hfree, htaken, Bool.true_or, if_neg (by simp), if_pos rfl]
    rfl

theorem id (h : Repends keys f) (row : AcceptedJob) : (f row).id = row.id := by
  have hrow := congrArg AcceptedJob.id (h row)
  split at hrow <;> exact hrow

theorem dispatchId (h : Repends keys f) (row : AcceptedJob) :
    (f row).dispatchId = if keys.any (claimedUnder row) then none else row.dispatchId := by
  have hrow := congrArg AcceptedJob.dispatchId (h row)
  split at hrow
  · next hany => rw [if_pos hany]; exact hrow
  · next hany => rw [if_neg hany]; exact hrow

end Repends

end Store

end Maqistor
