import Maqistor.Lib.Lists
import Maqistor.Sdk.Session

/-! What holds of a session in every run: the writer task writes the frames in the order they were
sent, the results that were sent are those of the jobs that sent one, and a job is only joined when
its result is written. -/

namespace Maqistor.Sdk

variable {P : Type}

/-- What is written stays written. -/
def Keeps (acks acks' : List (Option Bool)) : Prop :=
  ∀ ack : Nat, acks[ack]? = some (some true) → acks'[ack]? = some (some true)

theorem Keeps.refl (acks : List (Option Bool)) : Keeps acks acks := fun _ => id

namespace JobTask

def ids (task : JobTask P) : Int × String := (task.jobId, task.dispatchId)

/-- The slots that the task holds. -/
def slots (task : JobTask P) : Nat :=
  match task.phase with
  | .handling _ | .releasing _ => 1
  | _ => 0

/-- The result of the task is written. -/
def Reported (acks : List (Option Bool)) (task : JobTask P) : Prop :=
  ∃ ack, task.ack = some ack ∧ acks[ack]? = some (some true)

/-- A task has sent nothing before it waits, and ends well only when its result is written. -/
def Consistent (acks : List (Option Bool)) (task : JobTask P) : Prop :=
  match task.phase with
  | .spawned | .acquiring _ | .handling _ | .releasing _ | .reporting _ | .sending _ _ =>
    task.ack = none
  | .awaiting => task.ack ≠ none
  | .finished (.ok ()) => task.Reported acks
  | .finished (.error _) | .panicked | .joined => True

section

variable {task : JobTask P} {acks acks' : List (Option Bool)}

theorem Reported.keeps (h : task.Reported acks) (hkeeps : Keeps acks acks') :
    task.Reported acks' := by
  obtain ⟨ack, hack, hwritten⟩ := h
  exact ⟨ack, hack, hkeeps ack hwritten⟩

theorem Consistent.keeps (h : task.Consistent acks) (hkeeps : Keeps acks acks') :
    task.Consistent acks' := by
  unfold Consistent at h ⊢
  split <;> simp_all
  exact h.keeps hkeeps

end

/-- What a task has sent. -/
def key (task : JobTask P) : Option ((Int × String) × Option Nat) :=
  task.ack.map fun ack => (task.ids, some ack)

end JobTask

/-- What a frame reports. -/
def OutboundFrame.key (frame : OutboundFrame) : Option ((Int × String) × Option Nat) :=
  frame.payload.resultIds.map fun ids => (ids, frame.written)

namespace Session

/-- `serve` has not returned an error. -/
def Unfailed (session : Session P) : Prop := ∀ error, session.serve ≠ .returned (.error error)

/-- The frames that were sent: the first are written, and the others wait in the channel or were
dropped with it. -/
structure Outbox (config : Config P) (session : Session P) : Prop where
  bound : ∀ frame ∈ session.sent, ∀ ack, frame.written = some ack → ack < session.acks.length
  order : (session.sent.filterMap OutboundFrame.written).Pairwise (· < ·)
  flow : ∃ done rest, session.sent = done ++ rest ∧
    session.written = config.register :: done.map OutboundFrame.payload ∧
    (∀ frame ∈ done, ∀ ack, frame.written = some ack → session.acks[ack]? = some (some true)) ∧
    (∀ frame ∈ rest, ∀ ack, frame.written = some ack →
      session.acks[ack]? = some (if session.writing then none else some false)) ∧
    session.channel = if session.writing then rest else []

structure Sound (config : Config P) (session : Session P) : Prop where
  outbox : session.Outbox config
  consistent : ∀ task ∈ session.jobs, task.Consistent session.acks
  reports : (session.sent.filterMap OutboundFrame.key).Perm (session.jobs.filterMap JobTask.key)
  slots : session.permits + (session.jobs.map JobTask.slots).sum = config.concurrency.toNat
  joined : session.Unfailed → ∀ task ∈ session.jobs, task.phase = .joined →
    task.Reported session.acks
  accepted : (session.jobs.map JobTask.ids).Sublist
    (session.received.filterMap WorkerMessage.dispatchIds)
  spawned : session.Unfailed →
    session.jobs.map JobTask.ids = session.received.filterMap WorkerMessage.dispatchIds
  drained : session.state = .draining → WorkerMessage.draining ∈ session.received
  returned : session.serve = .returned (.ok ()) →
    session.state = .draining ∧ ∀ task ∈ session.jobs, task.phase = .joined

section Outbox

variable {config : Config P} {session : Session P}

theorem Outbox.send (h : session.Outbox config) (payload : WorkerMessage) :
    (session.send payload).1.Outbox config := by
  unfold Session.send
  split
  · next hwriting =>
    obtain ⟨done, rest, hsent, hwritten, hdone, hrest, hchannel⟩ := h.flow
    have hold : ∀ {frame : OutboundFrame}, frame ∈ session.sent → ∀ ack, frame.written = some ack →
        (session.acks ++ [none])[ack]? = session.acks[ack]? := fun hmem ack hack =>
      List.getElem?_append_left (h.bound _ hmem ack hack)
    refine ⟨fun frame hframe ack hack => ?_, ?_, done, rest ++ [⟨payload, some session.acks.length⟩],
      by simp [hsent], hwritten, fun frame hframe ack hack => ?_, fun frame hframe ack hack => ?_,
      by simp [hchannel, hwriting]⟩
    · rw [List.length_append, List.length_singleton]
      rcases List.mem_append.mp hframe with hframe | hframe
      · exact Nat.lt_succ_of_lt (h.bound frame hframe ack hack)
      · rw [List.mem_singleton.mp hframe, Option.some.injEq] at hack
        omega
    · rw [List.filterMap_append, List.pairwise_append]
      refine ⟨h.order, by simp, fun ack hack last hlast => ?_⟩
      obtain ⟨frame, hframe, heq⟩ := List.mem_filterMap.mp hack
      obtain rfl : last = session.acks.length := by simpa using hlast
      exact h.bound frame hframe ack heq
    · rw [hold (by rw [hsent]; exact List.mem_append_left _ hframe) ack hack]
      exact hdone frame hframe ack hack
    · rcases List.mem_append.mp hframe with hframe | hframe
      · rw [hold (by rw [hsent]; exact List.mem_append_right _ hframe) ack hack]
        exact hrest frame hframe ack hack
      · rw [List.mem_singleton.mp hframe, Option.some.injEq] at hack
        simp [← hack, hwriting]
  · exact h

theorem Outbox.sendUnacknowledged (h : session.Outbox config) (payload : WorkerMessage) :
    (session.sendUnacknowledged payload).Outbox config := by
  unfold Session.sendUnacknowledged
  split
  · next hwriting =>
    obtain ⟨done, rest, hsent, hwritten, hdone, hrest, hchannel⟩ := h.flow
    refine ⟨fun frame hframe ack hack => ?_, ?_, done, rest ++ [⟨payload, none⟩], by simp [hsent],
      hwritten, hdone, fun frame hframe ack hack => ?_, by simp [hchannel, hwriting]⟩
    · rcases List.mem_append.mp hframe with hframe | hframe
      · exact h.bound frame hframe ack hack
      · rw [List.mem_singleton.mp hframe] at hack
        cases hack
    · simpa using h.order
    · rcases List.mem_append.mp hframe with hframe | hframe
      · exact hrest frame hframe ack hack
      · rw [List.mem_singleton.mp hframe] at hack
        cases hack
  · exact h

theorem length_setAck (acks : List (Option Bool)) (result : Bool) (frame : OutboundFrame) :
    (setAck acks result frame).length = acks.length := by
  unfold setAck
  split
  · rfl
  · exact List.length_set

theorem setAck_other {acks : List (Option Bool)} {result : Bool} {frame : OutboundFrame} {i : Nat}
    (h : frame.written ≠ some i) : (setAck acks result frame)[i]? = acks[i]? := by
  unfold setAck
  split
  · rfl
  · next ack hack =>
    refine List.getElem?_set_ne fun heq => h ?_
    rw [hack, heq]

theorem setAck_self {acks : List (Option Bool)} {result : Bool} {frame : OutboundFrame} {i : Nat}
    (h : frame.written = some i) (hlt : i < acks.length) :
    (setAck acks result frame)[i]? = some (some result) := by
  simp only [setAck, h]
  exact List.getElem?_set_self hlt

theorem length_foldl_setAck (frames : List OutboundFrame) (acks : List (Option Bool)) :
    (frames.foldl (fun acks frame => setAck acks false frame) acks).length = acks.length :=
  Lists.length_foldl (fun acks frame => length_setAck acks false frame) frames acks

theorem foldl_setAck_other {frames : List OutboundFrame} {i : Nat}
    (h : ∀ frame ∈ frames, frame.written ≠ some i) (acks : List (Option Bool)) :
    (frames.foldl (fun acks frame => setAck acks false frame) acks)[i]? = acks[i]? :=
  Lists.getElem?_foldl_of_keep (fun frame hframe _ => setAck_other (h frame hframe)) acks

/-- The frames that are dropped are acknowledged with a failure. -/
theorem foldl_setAck_self {frames : List OutboundFrame} {acks : List (Option Bool)} {i : Nat}
    {frame : OutboundFrame} (hframe : frame ∈ frames) (hack : frame.written = some i)
    (hlt : i < acks.length) :
    (frames.foldl (fun acks frame => setAck acks false frame) acks)[i]? = some (some false) := by
  refine Lists.getElem?_foldl_of_set (fun acks frame => length_setAck acks false frame)
    (fun acks other => ?_) (Or.inr ⟨frame, hframe, fun _ => setAck_self hack⟩) hlt
  by_cases heq : other.written = some i
  · by_cases hin : i < acks.length
    · exact Or.inr (setAck_self heq hin)
    · have hout : acks[i]? = none := List.getElem?_eq_none (Nat.le_of_not_lt hin)
      exact Or.inl ((List.getElem?_eq_none (by rw [length_setAck]; omega)).trans hout.symm)
  · exact Or.inl (setAck_other heq)

/-- The frame at the head of the channel. -/
theorem Outbox.head (h : session.Outbox config) {frame : OutboundFrame} {rest : List OutboundFrame}
    (hwriting : session.writing = true) (hchannel : session.channel = frame :: rest) :
    ∃ done, session.sent = done ++ frame :: rest ∧
      session.written = config.register :: done.map OutboundFrame.payload ∧
      (∀ other ∈ done, ∀ ack, other.written = some ack → session.acks[ack]? = some (some true)) ∧
      (∀ other ∈ frame :: rest, ∀ ack, other.written = some ack →
        session.acks[ack]? = some none) ∧
      ∀ other ∈ rest, ∀ ack, other.written = some ack → frame.written ≠ some ack := by
  obtain ⟨done, waiting, hsent, hwritten, hdone, hwaiting, heq⟩ := h.flow
  simp only [hwriting, ↓reduceIte] at hwaiting heq
  rw [hchannel] at heq
  subst heq
  refine ⟨done, hsent, hwritten, hdone, hwaiting, fun other hother ack hack hsame => ?_⟩
  have horder := h.order
  rw [hsent, List.filterMap_append, List.filterMap_cons_some hsame, List.pairwise_append,
    List.pairwise_cons] at horder
  exact Nat.lt_irrefl _ (horder.2.1.1 ack (List.mem_filterMap.mpr ⟨other, hother, hack⟩))

theorem Outbox.write (h : session.Outbox config) (codec : Codec) {frame : OutboundFrame}
    {rest : List OutboundFrame} (hwriting : session.writing = true)
    (hchannel : session.channel = frame :: rest) (accepted : Bool) :
    (session.writeNext codec frame rest accepted).Outbox config := by
  obtain ⟨done, hsent, hwritten, hdone, hwaiting, hdistinct⟩ := h.head hwriting hchannel
  have hmem : ∀ other ∈ frame :: rest, other ∈ session.sent := by
    intro other hother
    rw [hsent]
    exact List.mem_append_right _ hother
  -- an acknowledged frame is not in the channel
  have hapart : ∀ other ∈ done, ∀ ack, other.written = some ack →
      ∀ later ∈ frame :: rest, later.written ≠ some ack := by
    intro other hother ack hack later hlater hsame
    have hnone := hwaiting later hlater ack hsame
    rw [hdone other hother ack hack] at hnone
    cases hnone
  unfold writeNext
  split
  · refine ⟨fun other hother ack hack => ?_, h.order, done ++ [frame], rest, by simp [hsent],
      by simp [hwritten], fun other hother ack hack => ?_, fun other hother ack hack => ?_,
      by simp [hwriting]⟩
    · rw [length_setAck]
      exact h.bound other hother ack hack
    · rcases List.mem_append.mp hother with hother | hother
      · rw [setAck_other (hapart other hother ack hack frame List.mem_cons_self)]
        exact hdone other hother ack hack
      · rw [List.mem_singleton.mp hother] at hack
        exact setAck_self hack (h.bound frame (hmem frame List.mem_cons_self) ack hack)
    · rw [setAck_other (hdistinct other hother ack hack)]
      simpa [hwriting] using hwaiting other (List.mem_cons_of_mem _ hother) ack hack
  · refine ⟨fun other hother ack hack => ?_, h.order, done, frame :: rest, hsent, hwritten,
      fun other hother ack hack => ?_, fun other hother ack hack => ?_, rfl⟩
    · rw [length_foldl_setAck]
      exact h.bound other hother ack hack
    · rw [foldl_setAck_other (hapart other hother ack hack)]
      exact hdone other hother ack hack
    · exact foldl_setAck_self hother hack
        (h.bound other (hmem other hother) ack hack)

theorem send_keeps (session : Session P) (payload : WorkerMessage) :
    Keeps session.acks (session.send payload).1.acks := by
  intro ack hack
  unfold Session.send
  split
  · exact (List.getElem?_append_left (List.getElem?_eq_some_iff.mp hack).1).trans hack
  · exact hack

theorem Outbox.keeps (h : session.Outbox config) (codec : Codec) {frame : OutboundFrame}
    {rest : List OutboundFrame} (hwriting : session.writing = true)
    (hchannel : session.channel = frame :: rest) (accepted : Bool) :
    Keeps session.acks (session.writeNext codec frame rest accepted).acks := by
  obtain ⟨-, -, -, -, hwaiting, -⟩ := h.head hwriting hchannel
  intro ack hack
  have hapart : ∀ other ∈ frame :: rest, other.written ≠ some ack := by
    intro other hother hsame
    rw [hwaiting other hother ack hsame] at hack
    cases hack
  unfold writeNext
  split
  · exact (setAck_other (hapart frame List.mem_cons_self)).trans hack
  · exact (foldl_setAck_other hapart _).trans hack

end Outbox

/-! ### Every step keeps it -/

section Sound

variable {config : Config P} {codec : Codec} {session session' : Session P} {job : Nat}
  {task task' : JobTask P}

theorem Unfailed.of_eq (h : session'.Unfailed) (hserve : session'.serve = session.serve) :
    session.Unfailed := fun error heq => h error (hserve.trans heq)

theorem unfailed_of_selecting (h : session.serve = .selecting) : session.Unfailed := by
  intro error
  rw [h]
  simp

/-- A session that returns an error keeps its books. -/
theorem Sound.fail (h : session.Sound config) (error : WorkerRunError) :
    (session.fail error).Sound config where
  outbox := ⟨h.outbox.bound, h.outbox.order, h.outbox.flow⟩
  consistent := h.consistent
  reports := h.reports
  slots := h.slots
  joined hunfailed := absurd rfl (hunfailed error)
  accepted := h.accepted
  spawned hunfailed := absurd rfl (hunfailed error)
  drained := h.drained
  returned hok := by cases hok

/-- The head of the loop, in a session that has not failed. -/
theorem Sound.loop (h : session.Sound config) (hunfailed : session.Unfailed) :
    session.loop.Sound config where
  outbox := ⟨h.outbox.bound, h.outbox.order, h.outbox.flow⟩
  consistent := h.consistent
  reports := h.reports
  slots := h.slots
  joined _ := h.joined hunfailed
  accepted := h.accepted
  spawned _ := h.spawned hunfailed
  drained := h.drained
  returned hok := by
    unfold Session.loop at hok
    split at hok
    · next hdone =>
      refine ⟨hdone.1, fun task htask => ?_⟩
      have hjoined := List.all_eq_true.mp hdone.2 task htask
      unfold JobTask.isJoined at hjoined
      split at hjoined
      · assumption
      · cases hjoined
    · cases hok

theorem mem_set {list : List (JobTask P)} (h : task ∈ list.set job task') :
    task = task' ∨ task ∈ list :=
  (List.mem_or_eq_of_mem_set h).symm

/-- A task moves on and sends nothing. -/
theorem Sound.setJob (h : session.Sound config) (htask : session.jobs[job]? = some task)
    (hids : task'.ids = task.ids) (hack : task'.ack = task.ack)
    (hconsistent : task'.Consistent session.acks) {permits : Nat}
    (hslots : permits + task'.slots = session.permits + task.slots)
    (hjoined : session.Unfailed → task'.phase = .joined → task'.Reported session.acks)
    (hlive : session.serve ≠ .returned (.ok ())) :
    Sound config { session.setJob job task' with permits := permits } where
  outbox := ⟨h.outbox.bound, h.outbox.order, h.outbox.flow⟩
  consistent other hother := by
    rcases mem_set hother with rfl | hother
    · exact hconsistent
    · exact h.consistent other hother
  reports := by
    refine h.reports.trans (List.Perm.of_eq (Lists.filterMap_set_self htask ?_).symm)
    rw [JobTask.key, JobTask.key, hack, hids]
  slots := by
    have hsum := Lists.sum_set (f := JobTask.slots) htask task'
    have hbefore := h.slots
    show permits + ((session.jobs.set job task').map JobTask.slots).sum = _
    omega
  joined hunfailed other hother hphase := by
    rcases mem_set hother with rfl | hother
    · exact hjoined hunfailed hphase
    · exact h.joined hunfailed other hother hphase
  accepted := by
    have hsame := Lists.map_set_self htask hids
    exact hsame ▸ h.accepted
  spawned hunfailed := (Lists.map_set_self htask hids).trans (h.spawned hunfailed)
  drained := h.drained
  returned hok := absurd hok hlive

/-- The frames move on, and no result is among those that were added. -/
theorem Sound.of_outbox (h : session.Sound config) (houtbox : session'.Outbox config)
    (hkeeps : Keeps session.acks session'.acks)
    (hsent : session'.sent.filterMap OutboundFrame.key = session.sent.filterMap OutboundFrame.key)
    (hserve : session'.serve = session.serve) (hstate : session'.state = session.state)
    (hjobs : session'.jobs = session.jobs) (hpermits : session'.permits = session.permits)
    (hreceived : session'.received = session.received) : session'.Sound config where
  outbox := houtbox
  consistent := by
    rw [hjobs]
    exact fun task htask => (h.consistent task htask).keeps hkeeps
  reports := by
    rw [hsent, hjobs]
    exact h.reports
  slots := by
    rw [hpermits, hjobs]
    exact h.slots
  joined hunfailed := by
    rw [hjobs]
    exact fun task htask hphase =>
      (h.joined (hunfailed.of_eq hserve) task htask hphase).keeps hkeeps
  accepted := by
    rw [hjobs, hreceived]
    exact h.accepted
  spawned hunfailed := by
    rw [hjobs, hreceived]
    exact h.spawned (hunfailed.of_eq hserve)
  drained := by
    rw [hstate, hreceived]
    exact h.drained
  returned := by
    rw [hserve, hstate, hjobs]
    exact h.returned

/-- A send that is no result. -/
theorem Sound.send (h : session.Sound config) {payload : WorkerMessage}
    (hpayload : payload.resultIds = none) : (session.send payload).1.Sound config := by
  refine h.of_outbox (h.outbox.send payload) (send_keeps session payload) ?_ ?_ ?_ ?_ ?_ ?_
  all_goals
    unfold Session.send
    split <;> simp [OutboundFrame.key, hpayload]

/-- A task sends its result. -/
theorem Sound.report (h : session.Sound config) (htask : session.jobs[job]? = some task)
    (hwriting : session.writing = true) {payload : WorkerMessage}
    (hpayload : payload.resultIds = some task.ids) (hunsent : task.ack = none)
    (hzero : task.slots = 0) (hids : task'.ids = task.ids) (hphase : task'.phase = .awaiting)
    (hack : task'.ack = some session.acks.length) (hlive : session.serve ≠ .returned (.ok ())) :
    ((session.send payload).1.setJob job task').Sound config := by
  have hkeeps := send_keeps session payload
  have houtbox := h.outbox.send payload
  have hsame := Lists.map_set_self htask hids
  have hreports : ((session.jobs.set job task').filterMap JobTask.key).Perm
      ((task.ids, some session.acks.length) :: session.jobs.filterMap JobTask.key) :=
    Lists.filterMap_set_perm htask (by rw [JobTask.key, hunsent]; rfl)
      (by rw [JobTask.key, hack, hids]; rfl)
  have hslots : ((session.jobs.set job task').map JobTask.slots).sum =
      (session.jobs.map JobTask.slots).sum := by
    have hsum := Lists.sum_set (f := JobTask.slots) htask task'
    rw [hzero, JobTask.slots, hphase] at hsum
    exact hsum
  rw [Session.send, if_pos hwriting] at hkeeps houtbox ⊢
  exact {
    outbox := ⟨houtbox.bound, houtbox.order, houtbox.flow⟩
    consistent := fun other hother => by
      rcases mem_set hother with rfl | hother
      · simp [JobTask.Consistent, hphase, hack]
      · exact (h.consistent other hother).keeps hkeeps
    reports := by
      refine List.Perm.trans ?_ hreports.symm
      have hkey : OutboundFrame.key ⟨payload, some session.acks.length⟩ =
          some (task.ids, some session.acks.length) := by
        rw [OutboundFrame.key, hpayload]
        rfl
      simp only [Session.setJob, List.filterMap_append, List.filterMap_cons_some hkey,
        List.filterMap_nil]
      exact (List.perm_append_singleton _ _).trans (h.reports.cons _)
    slots := by
      have hbefore := h.slots
      simp only [Session.setJob, hslots]
      exact hbefore
    joined := fun hunfailed other hother hjoined => by
      rcases mem_set hother with rfl | hother
      · rw [hphase] at hjoined
        cases hjoined
      · exact (h.joined hunfailed other hother hjoined).keeps hkeeps
    accepted := by
      simp only [Session.setJob, hsame]
      exact h.accepted
    spawned := fun hunfailed => hsame.trans (h.spawned hunfailed)
    drained := h.drained
    returned := fun hok => absurd hok hlive }

/-- A step of a task. -/
theorem Sound.jobStep (h : session.Sound config) (htask : session.jobs[job]? = some task)
    (hlive : session.serve ≠ .returned (.ok ())) {action : JobTask.Action}
    (hstep : JobStep config session job task action session') : session'.Sound config := by
  have hconsistent := h.consistent task (List.mem_of_getElem? htask)
  have hmove : ∀ {phase : Phase P} {permits : Nat},
      JobTask.Consistent session.acks { task with phase := phase } →
      permits + JobTask.slots { task with phase := phase } = session.permits + task.slots →
      phase ≠ .joined →
      Sound config { session.setJob job { task with phase := phase } with permits := permits } :=
    fun hconsistent hslots hphase =>
      h.setJob htask (by rfl) (by rfl) hconsistent hslots (fun _ hjoined => absurd hjoined hphase)
        hlive
  cases hstep with
  | parsed hphase | invalid hphase | complete hphase | release hphase | snapshot hphase =>
    simp only [JobTask.Consistent, hphase] at hconsistent
    refine hmove hconsistent ?_ (by simp)
    simp [JobTask.slots, hphase]
  | acquire hphase hfree =>
    simp only [JobTask.Consistent, hphase] at hconsistent
    refine hmove hconsistent ?_ (by simp)
    simp only [JobTask.slots, hphase]
    omega
  | panic hphase | unreported hphase =>
    refine hmove trivial ?_ (by simp)
    simp [JobTask.slots, hphase]
  | report hphase hwriting =>
    simp only [JobTask.Consistent, hphase] at hconsistent
    have hzero : task.slots = 0 := by simp [JobTask.slots, hphase]
    exact h.report htask hwriting rfl hconsistent hzero rfl rfl rfl hlive
  | @resume ack wrote hphase hack hwrote =>
    refine hmove ?_ ?_ (by simp)
    · cases wrote with
      | true => exact ⟨ack, hack, hwrote⟩
      | false => trivial
    · simp [JobTask.slots, hphase]

theorem Sound.sendUnacknowledged (h : session.Sound config) {payload : WorkerMessage}
    (hpayload : payload.resultIds = none) : (session.sendUnacknowledged payload).Sound config := by
  have hkeeps : Keeps session.acks (session.sendUnacknowledged payload).acks := by
    unfold Session.sendUnacknowledged
    split <;> exact Keeps.refl _
  refine h.of_outbox (h.outbox.sendUnacknowledged payload) hkeeps ?_ ?_ ?_ ?_ ?_ ?_
  all_goals
    unfold Session.sendUnacknowledged
    split <;> simp [OutboundFrame.key, hpayload]

theorem Sound.write (h : session.Sound config) (codec : Codec) {frame : OutboundFrame}
    {rest : List OutboundFrame} (hwriting : session.writing = true)
    (hchannel : session.channel = frame :: rest) (accepted : Bool) :
    (session.writeNext codec frame rest accepted).Sound config := by
  refine h.of_outbox (h.outbox.write codec hwriting hchannel accepted)
    (h.outbox.keeps codec hwriting hchannel accepted) ?_ ?_ ?_ ?_ ?_ ?_
  all_goals
    unfold writeNext
    split <;> rfl

/-- A message that is no dispatch is read, and the session moves to `state`. -/
theorem Sound.read (h : session.Sound config) {message : WorkerMessage}
    (hmessage : message.dispatchIds = none) {state : SessionState}
    (hstate : state = .draining → session.state = .draining ∨ message = .draining)
    (hlive : session.serve ≠ .returned (.ok ())) :
    Sound config
      { session with received := session.received ++ [message], state := state } where
  outbox := ⟨h.outbox.bound, h.outbox.order, h.outbox.flow⟩
  consistent := h.consistent
  reports := h.reports
  slots := h.slots
  joined := h.joined
  accepted := by
    simp only [List.filterMap_append, List.filterMap_cons_none hmessage, List.filterMap_nil,
      List.append_nil]
    exact h.accepted
  spawned hunfailed := by
    simp only [List.filterMap_append, List.filterMap_cons_none hmessage, List.filterMap_nil,
      List.append_nil]
    exact h.spawned hunfailed
  drained hdraining := by
    rcases hstate hdraining with hbefore | rfl
    · exact List.mem_append_left _ (h.drained hbefore)
    · exact List.mem_append_right _ List.mem_cons_self
  returned hok := absurd hok hlive

/-- A dispatch is read and its job is spawned. -/
theorem Sound.spawn (h : session.Sound config) (hserve : session.serve = .selecting) (jobId : Int)
    (dispatchId : String) (executionCount : UInt32) (payload : List UInt8) :
    Sound config
      { session with
        received := session.received ++ [.jobDispatch jobId dispatchId executionCount payload]
        jobs := session.jobs ++ [JobTask.spawn jobId dispatchId executionCount payload] } where
  outbox := ⟨h.outbox.bound, h.outbox.order, h.outbox.flow⟩
  consistent task htask := by
    rcases List.mem_append.mp htask with htask | htask
    · exact h.consistent task htask
    · rw [List.mem_singleton.mp htask]
      rfl
  reports := by
    simp only [List.filterMap_append, List.filterMap_nil, List.append_nil,
      List.filterMap_cons_none (f := JobTask.key) (a := JobTask.spawn _ _ _ _) rfl]
    exact h.reports
  slots := by simpa [JobTask.slots, JobTask.spawn] using h.slots
  joined hunfailed task htask hphase := by
    rcases List.mem_append.mp htask with htask | htask
    · exact h.joined hunfailed task htask hphase
    · rw [List.mem_singleton.mp htask] at hphase
      cases hphase
  accepted := by
    simpa [WorkerMessage.dispatchIds, JobTask.ids, JobTask.spawn] using
      h.accepted.append (List.Sublist.refl [(jobId, dispatchId)])
  spawned hunfailed := by
    simpa [WorkerMessage.dispatchIds, JobTask.ids, JobTask.spawn] using h.spawned hunfailed
  drained hdraining := List.mem_append_left _ (h.drained hdraining)
  returned hok := by simp [hserve] at hok

/-- A dispatch is read that the session does not accept. -/
theorem Sound.reject (h : session.Sound config) (message : WorkerMessage) (error : WorkerRunError) :
    ({ session with received := session.received ++ [message] }.fail error).Sound config where
  outbox := ⟨h.outbox.bound, h.outbox.order, h.outbox.flow⟩
  consistent := h.consistent
  reports := h.reports
  slots := h.slots
  joined hunfailed := absurd rfl (hunfailed error)
  accepted := by
    refine h.accepted.trans ?_
    simp [Session.fail]
  spawned hunfailed := absurd rfl (hunfailed error)
  drained hdraining := List.mem_append_left _ (h.drained hdraining)
  returned hok := by cases hok

/-- A message that `serve` reads. -/
theorem Sound.receive (h : session.Sound config) (hserve : session.serve = .selecting)
    (message : WorkerMessage) :
    ({ session with received := session.received ++ [message] }.handle config message).Sound
      config := by
  have hunfailed := unfailed_of_selecting hserve
  have hlive : session.serve ≠ .returned (.ok ()) := by simp [hserve]
  cases message with
  | registered queueName =>
    simp only [handle]
    split
    · exact (h.read rfl Or.inl hlive).loop hunfailed
    · exact h.reject _ _
  | jobDispatch jobId dispatchId executionCount payload =>
    simp only [handle]
    split
    · exact h.reject _ _
    · exact (h.spawn hserve jobId dispatchId executionCount payload).loop hunfailed
  | draining =>
    simp only [handle]
    split
    · exact (h.read rfl (fun _ => Or.inr rfl) hlive).loop hunfailed
    · exact h.reject _ _
  | heartbeat => exact (h.read rfl Or.inl hlive).loop hunfailed
  | error code message => exact h.reject _ _
  | register | jobResult | drain => exact h.reject _ _

theorem initial_sound (config : Config P) : (initial config).Sound config where
  outbox := ⟨by simp [initial], by simp [initial], [], [], rfl, rfl, by simp, by simp, rfl⟩
  consistent := by simp [initial]
  reports := by simp [initial]
  slots := by simp [initial]
  joined := by simp [initial]
  accepted := by simp [initial]
  spawned := by simp [initial]
  drained := by simp [initial]
  returned := by simp [initial]

/-- Every step keeps a session sound. -/
theorem Transition.sound {action : Action} (hinv : session.Sound config)
    (h : Transition config codec session action session') : session'.Sound config := by
  cases h with
  | shutdown hserve hstate hwriting =>
    have hsent : (session.send .drain).1.Sound config := hinv.send rfl
    have hunfailed : (session.send .drain).1.Unfailed :=
      unfailed_of_selecting ((send_serve session .drain).trans hserve)
    exact { hsent with
      outbox := ⟨hsent.outbox.bound, hsent.outbox.order, hsent.outbox.flow⟩
      joined := fun _ => hsent.joined hunfailed
      spawned := fun _ => hsent.spawned hunfailed
      returned := fun hok => by cases hok }
  | drained hserve hack =>
    have hlive : session.serve ≠ .returned (.ok ()) := by simp [hserve]
    have hunfailed : session.Unfailed := by simp [Unfailed, hserve]
    have hawaiting : Sound config { session with state := .awaitingDrain } :=
      { hinv with
        outbox := ⟨hinv.outbox.bound, hinv.outbox.order, hinv.outbox.flow⟩
        drained := fun hdraining => by cases hdraining
        returned := fun hok => absurd hok hlive }
    exact hawaiting.loop hunfailed
  | unsent | undrained | writerStopped | broken => exact hinv.fail _
  | @join job task hserve htask hphase =>
    have hconsistent := hinv.consistent task (List.mem_of_getElem? htask)
    simp only [JobTask.Consistent, hphase] at hconsistent
    have hjoined : (session.setJob job { task with phase := .joined }).Sound config := by
      refine hinv.setJob htask (by rfl) (by rfl) (by trivial) ?_ (fun _ _ => hconsistent) (by simp [hserve])
      simp [JobTask.slots, hphase]
    exact hjoined.loop (unfailed_of_selecting hserve)
  | @joinError job task error hserve htask hphase =>
    have hfailed := hinv.fail error
    have hjoined : ((session.fail error).setJob job { task with phase := .joined }).Sound config := by
      refine hfailed.setJob htask (by rfl) (by rfl) (by trivial) ?_ (fun hunfailed => absurd rfl (hunfailed error))
        (by simp [Session.fail])
      rcases hphase with hphase | hphase <;> simp [JobTask.slots, hphase]
    exact hjoined
  | receive hserve => exact hinv.receive hserve _
  | job htask hlive hstep =>
    refine hinv.jobStep htask (fun hok => ?_) hstep
    simp [Session.returned, hok] at hlive
  | heartbeat => exact hinv.sendUnacknowledged rfl
  | write hserve hwriting hchannel => exact hinv.write codec hwriting hchannel _

theorem reachable_sound {admits : Session P → Action → Prop}
    (h : Runs.Reachable (step config codec) admits (initial config) session) :
    session.Sound config := by
  obtain ⟨events, hrun⟩ := h
  exact hrun.invariant (fun session => session.Sound config) (initial_sound config)
    fun hinv _ hstep => (step_transition hstep).sound hinv

/-! ### One result for each job -/

theorem map_key_fst (frames : List OutboundFrame) :
    (frames.filterMap OutboundFrame.key).map Prod.fst =
      (frames.map OutboundFrame.payload).filterMap WorkerMessage.resultIds := by
  rw [List.map_filterMap, List.filterMap_map]
  congr 1
  funext frame
  simp only [OutboundFrame.key, Option.map_map, Function.comp_apply]
  cases frame.payload.resultIds <;> rfl

/-- The results that were written: those of the first frames. -/
theorem Sound.results_eq (h : session.Sound config) : ∃ done rest, session.sent = done ++ rest ∧
    session.written.filterMap WorkerMessage.resultIds =
      (done.filterMap OutboundFrame.key).map Prod.fst ∧
    ∀ frame ∈ rest, ∀ ack, frame.written = some ack → session.acks[ack]? ≠ some (some true) := by
  obtain ⟨done, rest, hsent, hwritten, -, hrest, -⟩ := h.outbox.flow
  refine ⟨done, rest, hsent, ?_, fun frame hframe ack hack => ?_⟩
  · rw [hwritten, List.filterMap_cons_none rfl, map_key_fst]
  · rw [hrest frame hframe ack hack]
    split <;> simp

theorem keys_sublist (jobs : List (JobTask P)) :
    ((jobs.filterMap JobTask.key).map Prod.fst).Sublist (jobs.map JobTask.ids) := by
  induction jobs with
  | nil => exact List.Sublist.refl _
  | cons task rest ih =>
    cases hack : task.ack with
    | none =>
      rw [List.filterMap_cons_none (by rw [JobTask.key, hack]; rfl)]
      exact ih.cons _
    | some ack =>
      rw [List.filterMap_cons_some (by rw [JobTask.key, hack]; rfl)]
      exact ih.cons_cons _

/-- No job has two results, and no result is for another job. -/
theorem Sound.results_subperm (h : session.Sound config) :
    (session.written.filterMap WorkerMessage.resultIds).Subperm (session.jobs.map JobTask.ids) := by
  obtain ⟨done, rest, hsent, hresults, -⟩ := h.results_eq
  have hfirst : (done.filterMap OutboundFrame.key).Sublist
      (session.sent.filterMap OutboundFrame.key) := by
    rw [hsent, List.filterMap_append]
    exact List.sublist_append_left _ _
  rw [hresults]
  exact (hfirst.map _).subperm.trans
    ((h.reports.map _).subperm.trans (keys_sublist session.jobs).subperm)

/-- When the result of every job is written, each job has one. -/
theorem Sound.results_perm (h : session.Sound config)
    (hall : ∀ task ∈ session.jobs, task.Reported session.acks) :
    (session.written.filterMap WorkerMessage.resultIds).Perm (session.jobs.map JobTask.ids) := by
  obtain ⟨done, rest, hsent, hresults, hrest⟩ := h.results_eq
  have hkeys : session.jobs.filterMap JobTask.key =
      session.jobs.map fun task => (task.ids, task.ack) := by
    rw [← List.filterMap_eq_map]
    refine List.filterMap_congr fun task htask => ?_
    obtain ⟨ack, hack, -⟩ := hall task htask
    rw [JobTask.key, hack, Function.comp_apply, hack]
    rfl
  have hnone : rest.filterMap OutboundFrame.key = [] := by
    rw [List.filterMap_eq_nil_iff]
    intro frame hframe
    cases hkey : frame.key with
    | none => rfl
    | some key =>
      have hmem : key ∈ session.sent.filterMap OutboundFrame.key :=
        List.mem_filterMap.mpr ⟨frame, by rw [hsent]; exact List.mem_append_right _ hframe, hkey⟩
      rw [h.reports.mem_iff, hkeys] at hmem
      obtain ⟨task, htask, rfl⟩ := List.mem_map.mp hmem
      obtain ⟨ack, hack, hwritten⟩ := hall task htask
      obtain ⟨ids, -, heq⟩ := Option.map_eq_some_iff.mp hkey
      have hframeAck : frame.written = some ack := by
        rw [← hack]
        exact congrArg Prod.snd heq
      exact absurd hwritten (hrest frame hframe ack hframeAck)
  have hreports := h.reports
  rw [hsent, List.filterMap_append, hnone, List.append_nil, hkeys] at hreports
  rw [hresults]
  have hmapped := hreports.map Prod.fst
  rwa [List.map_map] at hmapped

end Sound

end Session

end Maqistor.Sdk
