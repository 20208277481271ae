import Maqistor.Lib.Runs
import Mathlib.Data.List.Perm.Basic
import Mathlib.Data.List.Nodup

/-! A single writer behind a channel. The writer takes requests from the channel into three lanes:
the first is served before all else, the second one request at a time, the third in batches that are
filled from its queue and then straight from the channel until the batch is full, its deadline
passes, a request preempts it or the channel is closed. -/

namespace WriterLoop

inductive Lane where
  | first
  | single
  | batched
deriving DecidableEq, Repr

/-- A request with the number of its reply channel. -/
abbrev Ticket (ρ : Type) := Nat × ρ

/-- What the world decides in a step of the loop: the target of a batch that starts, whether the
deadline of an open one has passed, and what the calls on the connection take. -/
structure Tick (τ : Type*) where
  target : Nat
  expired : Bool
  env : τ

/-- The writer's own part: where requests go, which ones preempt a batch, the calls on the
connection, the lane of the next turn, and the lanes that are emptied when the loop ends. -/
structure Spec (ρ σ ω : Type) (τ : Type*) where
  lane : ρ → Lane
  preempts : ρ → Bool
  handle : τ → σ → ρ → σ × ω
  batch : τ → σ → List ρ → σ × List ω
  select : τ → List ρ → List ρ → Option Lane
  drainsSingle : Bool → Bool

inductive Phase (ρ : Type) where
  /-- The top of the loop. -/
  | top
  /-- `try_recv` until the channel is empty. -/
  | drain
  /-- A batch that is being filled up to its target. -/
  | turn (pending : List (Ticket ρ)) (target : Nat)
  /-- After the loop, with whether a batch found the channel closed. -/
  | stop (disconnected : Bool)
  | ended
deriving DecidableEq, Repr

/-- The loop with its channel, and what has happened so far: the requests that arrived and those
taken, in order, the calls on the connection with their requests, and the replies. -/
structure Loop (ρ σ ω : Type) where
  conn : σ
  channel : List (Ticket ρ)
  closed : Bool
  first : List (Ticket ρ)
  single : List (Ticket ρ)
  batched : List (Ticket ρ)
  phase : Phase ρ
  arrived : List (Ticket ρ)
  taken : List (Ticket ρ)
  calls : List (List (Ticket ρ))
  replies : List (Nat × ω)

inductive Action (ρ : Type) (τ : Type*) where
  | arrive (request : ρ)
  | close
  | work (tick : Tick τ)

variable {ρ σ ω : Type} {τ : Type*}

namespace Loop

def initial (conn : σ) : Loop ρ σ ω :=
  { conn := conn, channel := [], closed := false, first := [], single := [], batched := []
    phase := .top, arrived := [], taken := [], calls := [], replies := [] }

/-- The batch that is being filled. -/
def pending (loop : Loop ρ σ ω) : List (Ticket ρ) :=
  match loop.phase with
  | .turn pending _ => pending
  | _ => []

/-- The requests of a lane that have been taken and not executed, oldest first. -/
def waiting (loop : Loop ρ σ ω) : Lane → List (Ticket ρ)
  | .first => loop.first
  | .single => loop.single
  | .batched => loop.pending ++ loop.batched

/-- The request leaves the channel. -/
def take (loop : Loop ρ σ ω) (ticket : Ticket ρ) (rest : List (Ticket ρ)) : Loop ρ σ ω :=
  { loop with channel := rest, taken := loop.taken ++ [ticket] }

/-- A request that was taken enters the queue of its lane. -/
def push (spec : Spec ρ σ ω τ) (loop : Loop ρ σ ω) (ticket : Ticket ρ) : Loop ρ σ ω :=
  match spec.lane ticket.2 with
  | .first => { loop with first := loop.first ++ [ticket] }
  | .single => { loop with single := loop.single ++ [ticket] }
  | .batched => { loop with batched := loop.batched ++ [ticket] }

/-- One request in a call of its own. -/
def handle (spec : Spec ρ σ ω τ) (tick : Tick τ) (loop : Loop ρ σ ω) (ticket : Ticket ρ) :
    Loop ρ σ ω :=
  let (conn, reply) := spec.handle tick.env loop.conn ticket.2
  { loop with
    conn := conn, calls := loop.calls ++ [[ticket]]
    replies := loop.replies ++ [(ticket.1, reply)] }

/-- A batch in one call. -/
def flush (spec : Spec ρ σ ω τ) (tick : Tick τ) (loop : Loop ρ σ ω) (tickets : List (Ticket ρ)) :
    Loop ρ σ ω :=
  let (conn, replies) := spec.batch tick.env loop.conn (tickets.map Prod.snd)
  { loop with
    conn := conn, calls := loop.calls ++ [tickets]
    replies := loop.replies ++ (tickets.map Prod.fst).zip replies }

/-- The choice of the next turn, once the channel is empty. -/
def choose (spec : Spec ρ σ ω τ) (tick : Tick τ) (loop : Loop ρ σ ω) : Loop ρ σ ω :=
  match loop.first with
  | ticket :: rest => { loop.handle spec tick ticket with first := rest, phase := .top }
  | [] =>
    match spec.select tick.env (loop.single.map Prod.snd) (loop.batched.map Prod.snd) with
    | some .single =>
      match loop.single with
      | ticket :: rest => { loop.handle spec tick ticket with single := rest, phase := .top }
      | [] => { loop with phase := .top }
    | some .batched =>
      match loop.batched.take tick.target with
      | [] => { loop with phase := .top }
      | ticket :: rest =>
        { loop with
          batched := loop.batched.drop tick.target
          phase := .turn (ticket :: rest) tick.target }
    | _ => { loop with phase := .top }

/-- What follows the loop: the batched lane in one call, then the other lanes one by one. -/
def shutDown (spec : Spec ρ σ ω τ) (tick : Tick τ) (disconnected : Bool) (loop : Loop ρ σ ω) :
    Loop ρ σ ω :=
  match loop.batched with
  | ticket :: rest => { loop.flush spec tick (ticket :: rest) with batched := [] }
  | [] =>
    match loop.first with
    | ticket :: rest => { loop.handle spec tick ticket with first := rest }
    | [] =>
      match loop.single with
      | ticket :: rest =>
        if spec.drainsSingle disconnected then
          { loop.handle spec tick ticket with single := rest }
        else { loop with phase := .ended }
      | [] => { loop with phase := .ended }

/-- One step of an open batch. -/
def fill (spec : Spec ρ σ ω τ) (tick : Tick τ) (pending : List (Ticket ρ)) (target : Nat)
    (loop : Loop ρ σ ω) : Option (Loop ρ σ ω) :=
  if target ≤ pending.length ∨ tick.expired then
    some { loop.flush spec tick pending with phase := .top }
  else
    match loop.channel with
    | ticket :: rest =>
      if spec.lane ticket.2 = .batched then
        some { loop.take ticket rest with phase := .turn (pending ++ [ticket]) target }
      else if spec.preempts ticket.2 then
        some { ((loop.take ticket rest).push spec ticket).flush spec tick pending with
          phase := .top }
      else some ((loop.take ticket rest).push spec ticket)
    | [] =>
      if loop.closed then some { loop.flush spec tick pending with phase := .stop true }
      else none

/-- The next step of the loop; `none` while it waits for the channel. -/
def work (spec : Spec ρ σ ω τ) (tick : Tick τ) (loop : Loop ρ σ ω) : Option (Loop ρ σ ω) :=
  match loop.phase with
  | .top =>
    if loop.first = [] ∧ loop.single = [] ∧ loop.batched = [] then
      match loop.channel with
      | ticket :: rest => some { (loop.take ticket rest).push spec ticket with phase := .drain }
      | [] => if loop.closed then some { loop with phase := .stop false } else none
    else some { loop with phase := .drain }
  | .drain =>
    match loop.channel with
    | ticket :: rest => some ((loop.take ticket rest).push spec ticket)
    | [] => some (loop.choose spec tick)
  | .turn pending target => loop.fill spec tick pending target
  | .stop disconnected => some (loop.shutDown spec tick disconnected)
  | .ended => none

def step (spec : Spec ρ σ ω τ) (loop : Loop ρ σ ω) : Action ρ τ → Option (Loop ρ σ ω × Unit)
  | .arrive request =>
    if loop.closed then none
    else
      let ticket := (loop.arrived.length, request)
      some ({ loop with
        channel := loop.channel ++ [ticket], arrived := loop.arrived ++ [ticket] }, ())
  | .close => some ({ loop with closed := true }, ())
  | .work tick => (loop.work spec tick).map fun loop => (loop, ())

end Loop

/-! ### The lanes -/

/-- The tickets of a lane. -/
def Spec.ofLane (spec : Spec ρ σ ω τ) (lane : Lane) (tickets : List (Ticket ρ)) :
    List (Ticket ρ) :=
  tickets.filter fun ticket => spec.lane ticket.2 = lane

theorem Spec.ofLane_append (spec : Spec ρ σ ω τ) (lane : Lane) (tickets more : List (Ticket ρ)) :
    spec.ofLane lane (tickets ++ more) = spec.ofLane lane tickets ++ spec.ofLane lane more :=
  List.filter_append ..

@[simp] theorem Spec.ofLane_nil (spec : Spec ρ σ ω τ) (lane : Lane) : spec.ofLane lane [] = [] := rfl

theorem Spec.ofLane_all (spec : Spec ρ σ ω τ) {lane other : Lane} {tickets : List (Ticket ρ)}
    (h : ∀ ticket ∈ tickets, spec.lane ticket.2 = lane) :
    spec.ofLane other tickets = if lane = other then tickets else [] := by
  split
  · next heq =>
    subst heq
    exact List.filter_eq_self.mpr (by simpa using h)
  · next hne =>
    apply List.filter_eq_nil_iff.mpr
    intro ticket hticket
    simpa [h ticket hticket] using hne

theorem Spec.ofLane_lengths (spec : Spec ρ σ ω τ) (tickets : List (Ticket ρ)) :
    (spec.ofLane .first tickets).length + (spec.ofLane .single tickets).length +
      (spec.ofLane .batched tickets).length = tickets.length := by
  induction tickets with
  | nil => rfl
  | cons ticket tickets ih =>
    simp only [Spec.ofLane, List.filter_cons] at ih ⊢
    cases spec.lane ticket.2 <;> simp <;> omega

theorem Spec.perm_of_lanes (spec : Spec ρ σ ω τ) {tickets others : List (Ticket ρ)}
    (h : ∀ lane, spec.ofLane lane tickets = spec.ofLane lane others) : tickets.Perm others := by
  classical
  rw [List.perm_iff_count]
  intro ticket
  have hcount : ∀ list : List (Ticket ρ),
      list.count ticket = (spec.ofLane (spec.lane ticket.2) list).count ticket := by
    intro list
    rw [Spec.ofLane, List.count_filter (by simp)]
  rw [hcount tickets, hcount others, h]

/-! ### What a step does -/

/-- What the loop relies on: a batch call answers each of its requests, a turn goes to a lane that
has requests, there is one while any are queued, and the loop empties the second lane when a batch
found the channel closed. `accepts` says which requests arrive. -/
structure Spec.Sound (spec : Spec ρ σ ω τ) (accepts : ρ → Prop) : Prop where
  batch_length : ∀ env conn {batch}, (∀ request ∈ batch, spec.lane request = .batched) →
    (spec.batch env conn batch).2.length = batch.length
  select_some : ∀ {env single batched},
    (∀ request ∈ single, accepts request ∧ spec.lane request = .single) →
    (single ≠ [] ∨ batched ≠ []) → spec.select env single batched = some .single ∧ single ≠ [] ∨
      spec.select env single batched = some .batched ∧ batched ≠ []
  drains : spec.drainsSingle true = true

/-- The place of a phase in a round. -/
def Phase.rank : Phase ρ → Nat
  | .top => 4
  | .drain => 3
  | .turn _ _ => 2
  | .stop _ => 1
  | .ended => 0

theorem Phase.rank_le (phase : Phase ρ) : phase.rank ≤ 4 := by
  cases phase <;> simp [Phase.rank]

namespace Loop

/-- A step takes `new` from the channel and executes `done`, each lane from its front; a step that
does neither moves on within the round. -/
structure Effect (spec : Spec ρ σ ω τ) (loop loop' : Loop ρ σ ω) (new done : List (Ticket ρ)) :
    Prop where
  arrived : loop'.arrived = loop.arrived
  closed : loop'.closed = loop.closed
  channel : loop.channel = new ++ loop'.channel
  taken : loop'.taken = loop.taken ++ new
  waiting : ∀ lane, loop.waiting lane ++ spec.ofLane lane new =
    spec.ofLane lane done ++ loop'.waiting lane
  calls : loop'.calls.flatten = loop.calls.flatten ++ done
  replies : loop'.replies.map Prod.fst = loop.replies.map Prod.fst ++ done.map Prod.fst
  moves : new ++ done ≠ [] ∨ loop'.phase.rank < loop.phase.rank

/-- Every request that was taken has been executed or waits in its lane, in order, and every
request that was executed has been answered. -/
structure Books (spec : Spec ρ σ ω τ) (loop : Loop ρ σ ω) : Prop where
  channel : loop.taken ++ loop.channel = loop.arrived
  numbers : loop.arrived.map Prod.fst = List.range loop.arrived.length
  lanes : ∀ lane, spec.ofLane lane loop.calls.flatten ++ loop.waiting lane =
    spec.ofLane lane loop.taken
  replies : loop.replies.map Prod.fst = loop.calls.flatten.map Prod.fst

/-- What holds in each phase: the round goes on only with requests to serve, a batch that is not
full has emptied its queue, and the loop stops on a closed, empty channel. -/
def Ready (loop : Loop ρ σ ω) : Prop :=
  match loop.phase with
  | .top => True
  | .drain => loop.first ≠ [] ∨ loop.single ≠ [] ∨ loop.batched ≠ []
  | .turn pending target => pending ≠ [] ∧ (pending.length < target → loop.batched = [])
  | .stop true => loop.closed = true ∧ loop.channel = []
  | .stop false => loop.closed = true ∧ loop.channel = [] ∧ loop.single = []
  | .ended => loop.closed = true ∧ loop.channel = [] ∧
      loop.first = [] ∧ loop.single = [] ∧ loop.batched = []

theorem Books.mem_lane {spec : Spec ρ σ ω τ} {loop : Loop ρ σ ω} (h : loop.Books spec)
    {lane : Lane} {ticket : Ticket ρ} (hmem : ticket ∈ loop.waiting lane) :
    ticket ∈ loop.taken ∧ spec.lane ticket.2 = lane := by
  have hlane : ticket ∈ spec.ofLane lane loop.taken := by
    rw [← h.lanes]
    exact List.mem_append_right _ hmem
  simpa [Spec.ofLane] using hlane

/-- A step keeps the books. -/
theorem Effect.books {spec : Spec ρ σ ω τ} {loop loop' : Loop ρ σ ω} {new done : List (Ticket ρ)}
    (heffect : Effect spec loop loop' new done) (h : loop.Books spec) : loop'.Books spec := by
  constructor
  · rw [heffect.taken, heffect.arrived, ← h.channel, heffect.channel, List.append_assoc]
  · rw [heffect.arrived]
    exact h.numbers
  · intro lane
    rw [heffect.calls, Spec.ofLane_append, List.append_assoc, ← heffect.waiting, ← List.append_assoc,
      h.lanes, heffect.taken, Spec.ofLane_append]
  · rw [heffect.replies, heffect.calls, h.replies, List.map_append]

/-- The requests that have been taken and not executed. -/
def load (loop : Loop ρ σ ω) : Nat :=
  (loop.waiting .first).length + (loop.waiting .single).length + (loop.waiting .batched).length

/-- A bound on the steps that are left until the channel must be waited for. -/
def measure (loop : Loop ρ σ ω) : Nat :=
  5 * (2 * loop.channel.length + loop.load) + loop.phase.rank

theorem Effect.measure_lt {spec : Spec ρ σ ω τ} {loop loop' : Loop ρ σ ω}
    {new done : List (Ticket ρ)} (h : Effect spec loop loop' new done) :
    loop'.measure < loop.measure := by
  have hchannel := congrArg List.length h.channel
  have hlane : ∀ lane, (loop.waiting lane).length + (spec.ofLane lane new).length =
      (spec.ofLane lane done).length + (loop'.waiting lane).length := by
    intro lane
    rw [← List.length_append, h.waiting, List.length_append]
  have hfirst := hlane .first
  have hsingle := hlane .single
  have hbatched := hlane .batched
  have hnew := spec.ofLane_lengths new
  have hdone := spec.ofLane_lengths done
  have hrank := loop'.phase.rank_le
  rw [List.length_append] at hchannel
  simp only [measure, load]
  rcases h.moves with hmoves | hmoves
  · have hpos : 0 < new.length + done.length := by
      rw [← List.length_append]
      exact List.length_pos_of_ne_nil hmoves
    omega
  · omega

/-! ### Each step has such an effect -/

section Push

variable (spec : Spec ρ σ ω τ) (loop : Loop ρ σ ω) (ticket : Ticket ρ)

@[simp] theorem push_arrived : (loop.push spec ticket).arrived = loop.arrived := by
  unfold push; split <;> rfl

@[simp] theorem push_closed : (loop.push spec ticket).closed = loop.closed := by
  unfold push; split <;> rfl

@[simp] theorem push_channel : (loop.push spec ticket).channel = loop.channel := by
  unfold push; split <;> rfl

@[simp] theorem push_taken : (loop.push spec ticket).taken = loop.taken := by
  unfold push; split <;> rfl

@[simp] theorem push_calls : (loop.push spec ticket).calls = loop.calls := by
  unfold push; split <;> rfl

@[simp] theorem push_conn : (loop.push spec ticket).conn = loop.conn := by
  unfold push; split <;> rfl

@[simp] theorem push_replies : (loop.push spec ticket).replies = loop.replies := by
  unfold push; split <;> rfl

@[simp] theorem push_phase : (loop.push spec ticket).phase = loop.phase := by
  unfold push; split <;> rfl

theorem push_waiting (lane : Lane) :
    (loop.push spec ticket).waiting lane = loop.waiting lane ++ spec.ofLane lane [ticket] := by
  unfold push
  split <;> next hlane => cases lane <;> simp [waiting, pending, Spec.ofLane, hlane]

theorem push_ne_nil : (loop.push spec ticket).first ≠ [] ∨ (loop.push spec ticket).single ≠ [] ∨
    (loop.push spec ticket).batched ≠ [] := by
  unfold push
  split <;> simp

theorem push_batched (h : spec.lane ticket.2 ≠ .batched) :
    (loop.push spec ticket).batched = loop.batched := by
  unfold push
  split
  · rfl
  · rfl
  · next hlane => exact absurd hlane h

end Push

section Step

variable {spec : Spec ρ σ ω τ} {loop loop' loop'' : Loop ρ σ ω}

theorem Effect.trans {new done new' done' : List (Ticket ρ)} (h : Effect spec loop loop' new done)
    (h' : Effect spec loop' loop'' new' done') (hmoves : new ≠ []) :
    Effect spec loop loop'' (new ++ new') (done ++ done') := by
  constructor
  · rw [h'.arrived, h.arrived]
  · rw [h'.closed, h.closed]
  · rw [h.channel, h'.channel, List.append_assoc]
  · rw [h'.taken, h.taken, List.append_assoc]
  · intro lane
    rw [Spec.ofLane_append, Spec.ofLane_append, ← List.append_assoc, h.waiting, List.append_assoc,
      h'.waiting, List.append_assoc]
  · rw [h'.calls, h.calls, List.append_assoc]
  · rw [h'.replies, h.replies, List.map_append, List.append_assoc]
  · exact Or.inl (by simp [hmoves])

/-- Two phases with the same open batch have the same requests waiting. -/
theorem waiting_phase {phase : Phase ρ} (h : { loop with phase := phase }.pending = loop.pending)
    (lane : Lane) : { loop with phase := phase }.waiting lane = loop.waiting lane := by
  cases lane with
  | first => rfl
  | single => rfl
  | batched => exact congrArg (· ++ loop.batched) h

/-- A phase that only passes on. -/
theorem effect_phase {phase : Phase ρ} (hpending : { loop with phase := phase }.pending =
    loop.pending) (hrank : phase.rank < loop.phase.rank) :
    Effect spec loop { loop with phase := phase } [] [] :=
  ⟨rfl, rfl, rfl, by simp, fun lane => by simp [waiting_phase hpending], by simp, by simp,
    Or.inr hrank⟩

/-- A request moves from the channel to the end of its lane. -/
theorem effect_take {ticket : Ticket ρ} {rest : List (Ticket ρ)}
    (hchannel : loop.channel = ticket :: rest) :
    Effect spec loop ((loop.take ticket rest).push spec ticket) [ticket] [] := by
  refine ⟨?_, ?_, ?_, ?_, fun lane => (push_waiting spec (loop.take ticket rest) ticket lane).symm,
    ?_, ?_, Or.inl (by simp)⟩ <;> simp [take, hchannel]

/-- The phase may change with a request that is taken. -/
theorem Effect.phase {new done : List (Ticket ρ)} (h : Effect spec loop loop' new done)
    (hnew : new ≠ []) {phase : Phase ρ}
    (hpending : { loop' with phase := phase }.pending = loop'.pending) :
    Effect spec loop { loop' with phase := phase } new done :=
  ⟨h.arrived, h.closed, h.channel, h.taken,
    fun lane => by rw [h.waiting, waiting_phase hpending], h.calls, h.replies,
    Or.inl (by simp [hnew])⟩

/-- Requests at the front of one lane are executed in one call. -/
theorem effect_execute (lane : Lane) {done : List (Ticket ρ)} (hbooks : loop.Books spec)
    (hdone : done ≠ []) (harrived : loop'.arrived = loop.arrived)
    (hclosed : loop'.closed = loop.closed) (hchannel : loop'.channel = loop.channel)
    (htaken : loop'.taken = loop.taken) (hcalls : loop'.calls = loop.calls ++ [done])
    (hreplies : loop'.replies.map Prod.fst = loop.replies.map Prod.fst ++ done.map Prod.fst)
    (hfront : loop.waiting lane = done ++ loop'.waiting lane)
    (hothers : ∀ other, lane ≠ other → loop'.waiting other = loop.waiting other) :
    Effect spec loop loop' [] done := by
  have hlane : ∀ ticket ∈ done, spec.lane ticket.2 = lane := by
    intro ticket hticket
    refine (hbooks.mem_lane (show ticket ∈ loop.waiting lane from ?_)).2
    rw [hfront]
    exact List.mem_append_left _ hticket
  refine ⟨harrived, hclosed, by simp [hchannel], by simp [htaken], fun other => ?_, by simp [hcalls],
    hreplies, Or.inl (by simpa using hdone)⟩
  rw [spec.ofLane_all hlane, Spec.ofLane_nil, List.append_nil]
  split
  · next heq =>
    subst heq
    exact hfront
  · next hne => rw [hothers other hne, List.nil_append]

theorem handle_replies (tick : Tick τ) (ticket : Ticket ρ) :
    (loop.handle spec tick ticket).replies.map Prod.fst =
      loop.replies.map Prod.fst ++ [ticket].map Prod.fst := by
  simp [handle]

theorem flush_replies {accepts : ρ → Prop} (hsound : spec.Sound accepts) (tick : Tick τ)
    {tickets : List (Ticket ρ)} (hbooks : loop.Books spec)
    (htickets : tickets ⊆ loop.waiting .batched) :
    (loop.flush spec tick tickets).replies.map Prod.fst =
      loop.replies.map Prod.fst ++ tickets.map Prod.fst := by
  have hlane : ∀ request ∈ tickets.map Prod.snd, spec.lane request = .batched := by
    intro request hrequest
    obtain ⟨ticket, hticket, rfl⟩ := List.mem_map.mp hrequest
    exact (hbooks.mem_lane (htickets hticket)).2
  have hlength := hsound.batch_length tick.env loop.conn hlane
  rw [List.length_map] at hlength
  simp only [flush, List.map_append]
  rw [List.map_fst_zip (by rw [List.length_map]; exact Nat.le_of_eq hlength.symm)]

theorem choose_effect {accepts : ρ → Prop} (hsound : spec.Sound accepts) {tick : Tick τ}
    (htarget : 1 ≤ tick.target) (hbooks : loop.Books spec)
    (haccepts : ∀ ticket ∈ loop.taken, accepts ticket.2) (hphase : loop.phase = .drain)
    (hready : loop.Ready) :
    ∃ done, Effect spec loop (loop.choose spec tick) [] done ∧ (loop.choose spec tick).Ready := by
  have hbatched : loop.waiting .batched = loop.batched := by simp [waiting, pending, hphase]
  rw [Ready, hphase] at hready
  unfold choose
  split
  · next ticket rest hfirst =>
    refine ⟨[ticket], effect_execute .first hbooks (by simp) rfl rfl rfl rfl rfl
      (handle_replies tick ticket) hfirst fun other hother => ?_, trivial⟩
    cases other with
    | first => exact absurd rfl hother
    | single => rfl
    | batched => exact hbatched.symm
  · next hfirst =>
    have hsingle : ∀ request ∈ loop.single.map Prod.snd,
        accepts request ∧ spec.lane request = .single := by
      intro request hrequest
      obtain ⟨ticket, hticket, rfl⟩ := List.mem_map.mp hrequest
      have hmem := hbooks.mem_lane (show ticket ∈ loop.waiting .single from hticket)
      exact ⟨haccepts ticket hmem.1, hmem.2⟩
    have hqueued : loop.single.map Prod.snd ≠ [] ∨ loop.batched.map Prod.snd ≠ [] := by
      simpa [hfirst] using hready
    rcases hsound.select_some hsingle hqueued with ⟨hselect, hne⟩ | ⟨hselect, hne⟩
    · rw [hselect]
      cases hqueue : loop.single with
      | nil => simp [hqueue] at hne
      | cons ticket rest =>
        refine ⟨[ticket], effect_execute .single hbooks (by simp) rfl rfl rfl rfl rfl
          (handle_replies tick ticket) hqueue fun other hother => ?_, trivial⟩
        cases other with
        | first => rfl
        | single => exact absurd rfl hother
        | batched => exact hbatched.symm
    · rw [hselect]
      cases hqueue : loop.batched.take tick.target with
      | nil =>
        rw [List.take_eq_nil_iff] at hqueue
        rcases hqueue with hzero | hnil
        · omega
        · simp [hnil] at hne
      | cons ticket rest =>
        dsimp only
        refine ⟨[], ⟨rfl, rfl, rfl, by simp, fun lane => ?_, by simp, by simp, Or.inr ?_⟩,
          by simp, fun hlength => ?_⟩
        · cases lane with
          | first => simp [waiting]
          | single => simp [waiting]
          | batched =>
            rw [hbatched]
            simp only [waiting, pending, ← hqueue]
            simp
        · rw [hphase]
          exact Nat.lt_succ_self 2
        · rw [← hqueue, List.length_take] at hlength
          exact List.drop_eq_nil_of_le (by omega)

theorem shutDown_effect {accepts : ρ → Prop} (hsound : spec.Sound accepts) {tick : Tick τ}
    {disconnected : Bool} (hbooks : loop.Books spec) (hphase : loop.phase = .stop disconnected)
    (hready : loop.Ready) : ∃ done, Effect spec loop (loop.shutDown spec tick disconnected) [] done ∧
      (loop.shutDown spec tick disconnected).Ready := by
  have hbatched : loop.waiting .batched = loop.batched := by simp [waiting, pending, hphase]
  have hclosed : loop.closed = true ∧ loop.channel = [] := by
    rw [Ready, hphase] at hready
    cases disconnected with
    | true => exact hready
    | false => exact ⟨hready.1, hready.2.1⟩
  have hdrains : spec.drainsSingle disconnected = true ∨ loop.single = [] := by
    rw [Ready, hphase] at hready
    cases disconnected with
    | true => exact Or.inl hsound.drains
    | false => exact Or.inr hready.2.2
  -- a call keeps the channel and the phase, and puts nothing into the second lane
  have hstays : ∀ {loop' : Loop ρ σ ω}, loop'.phase = loop.phase → loop'.closed = loop.closed →
      loop'.channel = loop.channel → (loop.single = [] → loop'.single = []) → loop'.Ready := by
    intro loop' hphase' hclosed' hchannel' hsingle'
    rw [Ready, hphase] at hready
    rw [Ready, hphase', hphase]
    cases disconnected with
    | true => exact ⟨hclosed'.trans hready.1, hchannel'.trans hready.2⟩
    | false =>
      exact ⟨hclosed'.trans hready.1, hchannel'.trans hready.2.1, hsingle' hready.2.2⟩
  unfold shutDown
  split
  · next ticket rest hqueue =>
    refine ⟨ticket :: rest, effect_execute .batched hbooks (by simp) rfl rfl rfl rfl rfl
      (flush_replies hsound tick hbooks ?_) ?_ fun other hother => ?_, hstays rfl rfl rfl id⟩
    · rw [hbatched, hqueue]
      exact List.Subset.refl _
    · rw [hbatched, hqueue]
      simp [waiting, pending, flush, hphase]
    · cases other with
      | first => rfl
      | single => rfl
      | batched => exact absurd rfl hother
  · next hqueue =>
    split
    · next ticket rest hfirst =>
      refine ⟨[ticket], effect_execute .first hbooks (by simp) rfl rfl rfl rfl rfl
        (handle_replies tick ticket) hfirst fun other hother => ?_, hstays rfl rfl rfl id⟩
      cases other with
      | first => exact absurd rfl hother
      | single => rfl
      | batched => rfl
    · next hfirst =>
      split
      · next ticket rest hsingle =>
        rw [if_pos (hdrains.resolve_right (by simp [hsingle]))]
        refine ⟨[ticket], effect_execute .single hbooks (by simp) rfl rfl rfl rfl rfl
          (handle_replies tick ticket) hsingle fun other hother => ?_,
          hstays rfl rfl rfl fun hnil => by simp [hsingle] at hnil⟩
        cases other with
        | first => rfl
        | single => exact absurd rfl hother
        | batched => rfl
      · next hsingle =>
        refine ⟨[], effect_phase ?_ ?_, hclosed.1, hclosed.2, hfirst, hsingle, hqueue⟩
        · simp [pending, hphase]
        · simp [hphase, Phase.rank]

theorem fill_effect {accepts : ρ → Prop} (hsound : spec.Sound accepts) {tick : Tick τ}
    {pending : List (Ticket ρ)} {target : Nat} (hbooks : loop.Books spec)
    (hphase : loop.phase = .turn pending target) (hready : loop.Ready)
    (h : loop.fill spec tick pending target = some loop') :
    ∃ new done, Effect spec loop loop' new done ∧ loop'.Ready := by
  rw [Ready, hphase] at hready
  obtain ⟨hne, hempty⟩ := hready
  -- the open batch is executed from a loop in the same turn
  have hflush : ∀ {middle : Loop ρ σ ω} {phase : Phase ρ}, middle.Books spec →
      middle.phase = loop.phase → { middle with phase := phase }.pending = [] →
      Effect spec middle { middle.flush spec tick pending with phase := phase } [] pending := by
    intro middle phase hbooks hsame hpending
    refine effect_execute .batched hbooks hne rfl rfl rfl rfl rfl
      (flush_replies hsound tick hbooks ?_) ?_ fun other hother => ?_
    · rw [waiting, Loop.pending, hsame, hphase]
      exact List.subset_append_left _ _
    · simp only [waiting, Loop.pending, flush, hsame, hphase] at hpending ⊢
      rw [hpending, List.nil_append]
    · cases other with
      | first => rfl
      | single => rfl
      | batched => exact absurd rfl hother
  unfold fill at h
  split at h
  · obtain rfl := Option.some.inj h
    exact ⟨[], pending, hflush hbooks rfl rfl, trivial⟩
  · next hopen =>
    have hlength : pending.length < target := by
      by_contra hfull
      exact hopen (Or.inl (Nat.le_of_not_lt hfull))
    split at h
    · next ticket rest hchannel =>
      have htake : Effect spec loop ((loop.take ticket rest).push spec ticket) [ticket] [] :=
        effect_take hchannel
      split at h
      · next hlane =>
        obtain rfl := Option.some.inj h
        refine ⟨[ticket], [], ⟨rfl, rfl, by simp [take, hchannel], rfl, fun lane => ?_, by simp [take],
          by simp [take], Or.inl (by simp)⟩, by simp, fun _ => hempty hlength⟩
        cases lane with
        | first => simp [waiting, take, Spec.ofLane, hlane]
        | single => simp [waiting, take, Spec.ofLane, hlane]
        | batched => simp [waiting, Loop.pending, take, Spec.ofLane, hlane, hphase, hempty hlength]
      · next hlane =>
        split at h
        · obtain rfl := Option.some.inj h
          refine ⟨_, _, htake.trans (hflush (htake.books hbooks) ?_ rfl) (by simp), trivial⟩
          exact push_phase _ _ _
        · obtain rfl := Option.some.inj h
          refine ⟨_, _, htake, ?_⟩
          rw [Ready, push_phase]
          simp only [take, hphase]
          refine ⟨hne, fun _ => ?_⟩
          rw [push_batched _ _ _ hlane]
          exact hempty hlength
    · next hchannel =>
      split at h
      · next hclosed =>
        obtain rfl := Option.some.inj h
        exact ⟨_, _, hflush hbooks rfl rfl, hclosed, hchannel⟩
      · cases h

/-- Every step of the loop keeps the books' order and moves on. -/
theorem work_effect {accepts : ρ → Prop} (hsound : spec.Sound accepts) {tick : Tick τ}
    (htarget : 1 ≤ tick.target) (hbooks : loop.Books spec)
    (haccepts : ∀ ticket ∈ loop.taken, accepts ticket.2) (hready : loop.Ready)
    (h : loop.work spec tick = some loop') :
    ∃ new done, Effect spec loop loop' new done ∧ loop'.Ready := by
  unfold work at h
  split at h
  · next hphase =>
    split at h
    · next hqueues =>
      split at h
      · next ticket rest hchannel =>
        obtain rfl := Option.some.inj h
        refine ⟨_, _, (effect_take hchannel).phase (by simp) ?_, push_ne_nil _ _ _⟩
        simp [pending, take, hphase]
      · next hchannel =>
        split at h
        · next hclosed =>
          obtain rfl := Option.some.inj h
          refine ⟨_, _, effect_phase ?_ ?_, hclosed, hchannel, hqueues.2.1⟩
          · simp [pending, hphase]
          · simp [hphase, Phase.rank]
        · cases h
    · next hqueues =>
      obtain rfl := Option.some.inj h
      refine ⟨_, _, effect_phase ?_ ?_, ?_⟩
      · simp [pending, hphase]
      · simp [hphase, Phase.rank]
      · simp only [Ready]
        tauto
  · next hphase =>
    split at h
    · next ticket rest hchannel =>
      obtain rfl := Option.some.inj h
      refine ⟨_, _, effect_take hchannel, ?_⟩
      rw [Ready, push_phase]
      simp only [take, hphase]
      exact push_ne_nil _ _ _
    · next hchannel =>
      obtain rfl := Option.some.inj h
      obtain ⟨done, heffect, hready⟩ :=
        choose_effect hsound htarget hbooks haccepts hphase hready
      exact ⟨_, done, heffect, hready⟩
  · next pending target hphase => exact fill_effect hsound hbooks hphase hready h
  · next disconnected hphase =>
    obtain rfl := Option.some.inj h
    obtain ⟨done, heffect, hready⟩ := shutDown_effect hsound hbooks hphase hready
    exact ⟨_, done, heffect, hready⟩
  · cases h

end Step

/-! ### Runs -/

section Run

variable {spec : Spec ρ σ ω τ} {accepts : ρ → Prop} {loop loop' : Loop ρ σ ω}

/-- Requests arrive as `accepts` says, and a batch may hold at least one. -/
def Admits (accepts : ρ → Prop) (_ : Loop ρ σ ω) : Action ρ τ → Prop
  | .arrive request => accepts request
  | .close => True
  | .work tick => 1 ≤ tick.target

/-- The loop works while nothing arrives. -/
def Works (_ : Loop ρ σ ω) : Action ρ τ → Prop
  | .work tick => 1 ≤ tick.target
  | _ => False

structure Inv (spec : Spec ρ σ ω τ) (accepts : ρ → Prop) (loop : Loop ρ σ ω) : Prop where
  books : loop.Books spec
  ready : loop.Ready
  accepted : ∀ ticket ∈ loop.arrived, accepts ticket.2

theorem initial_inv (spec : Spec ρ σ ω τ) (accepts : ρ → Prop) (conn : σ) :
    Inv spec accepts (initial conn : Loop ρ σ ω) := by
  refine ⟨⟨rfl, rfl, fun lane => ?_, rfl⟩, trivial, by simp [initial]⟩
  cases lane <;> rfl

theorem Inv.taken (h : Inv spec accepts loop) : ∀ ticket ∈ loop.taken, accepts ticket.2 := by
  intro ticket hticket
  apply h.accepted
  rw [← h.books.channel]
  exact List.mem_append_left _ hticket

theorem work_inv (hsound : spec.Sound accepts) {tick : Tick τ} (htarget : 1 ≤ tick.target)
    (hinv : Inv spec accepts loop) (h : loop.work spec tick = some loop') :
    Inv spec accepts loop' ∧ loop'.measure < loop.measure := by
  obtain ⟨new, done, heffect, hready⟩ :=
    work_effect hsound htarget hinv.books hinv.taken hinv.ready h
  refine ⟨⟨heffect.books hinv.books, hready, ?_⟩, heffect.measure_lt⟩
  rw [heffect.arrived]
  exact hinv.accepted

theorem step_inv (hsound : spec.Sound accepts) {action : Action ρ τ} {event : Unit}
    (hinv : Inv spec accepts loop) (hadmits : Admits accepts loop action)
    (h : loop.step spec action = some (loop', event)) : Inv spec accepts loop' := by
  cases action with
  | arrive request =>
    simp only [step] at h
    split at h
    · cases h
    · next hopen =>
      obtain ⟨rfl, -⟩ := Prod.mk.inj (Option.some.inj h)
      obtain ⟨⟨hchannel, hnumbers, hlanes, hreplies⟩, hready, haccepted⟩ := hinv
      refine ⟨⟨?_, ?_, hlanes, hreplies⟩, ?_, ?_⟩
      · rw [← hchannel, List.append_assoc]
      · simp [hnumbers, List.range_succ]
      · revert hready
        simp only [Ready]
        split <;> simp_all
      · intro ticket hticket
        rcases List.mem_append.mp hticket with hticket | hticket
        · exact haccepted ticket hticket
        · rw [List.mem_singleton.mp hticket]
          exact hadmits
  | close =>
    obtain ⟨rfl, -⟩ := Prod.mk.inj (Option.some.inj h)
    refine ⟨⟨hinv.books.channel, hinv.books.numbers, hinv.books.lanes, hinv.books.replies⟩, ?_,
      hinv.accepted⟩
    have hready := hinv.ready
    revert hready
    simp only [Ready]
    split <;> simp_all
  | work tick =>
    obtain ⟨after, hwork, heq⟩ := Option.map_eq_some_iff.mp h
    obtain ⟨rfl, -⟩ := Prod.mk.inj heq
    exact (work_inv hsound hadmits hinv hwork).1

theorem reachable_inv (hsound : spec.Sound accepts) {conn : σ}
    (h : Runs.Reachable (step spec) (Admits accepts) (initial conn) loop) :
    Inv spec accepts loop := by
  obtain ⟨events, hrun⟩ := h
  exact hrun.invariant (Inv spec accepts) (initial_inv spec accepts conn)
    fun hinv hadmits hstep => step_inv hsound hinv hadmits hstep

/-- The requests that have been taken and not executed, lane by lane. -/
def backlog (loop : Loop ρ σ ω) : List (Ticket ρ) :=
  loop.waiting .first ++ loop.waiting .single ++ loop.waiting .batched

theorem Books.perm (h : loop.Books spec) :
    (loop.calls.flatten ++ loop.backlog).Perm loop.taken := by
  apply spec.perm_of_lanes
  intro lane
  have hlane : ∀ other, spec.ofLane lane (loop.waiting other) =
      if other = lane then loop.waiting other else [] := fun other =>
    spec.ofLane_all fun ticket hticket => (h.mem_lane hticket).2
  rw [Spec.ofLane_append, ← h.lanes lane]
  congr 1
  simp only [backlog, Spec.ofLane_append, hlane]
  cases lane <;> simp

theorem Inv.once (h : Inv spec accepts loop) : (loop.calls.flatten.map Prod.fst).Nodup := by
  have harrived : (loop.arrived.map Prod.fst).Nodup := by
    rw [h.books.numbers]
    exact List.nodup_range
  rw [← h.books.channel, List.map_append] at harrived
  have htaken := (h.books.perm.map Prod.fst).nodup_iff.mpr (List.Nodup.of_append_left harrived)
  rw [List.map_append] at htaken
  exact List.Nodup.of_append_left htaken

/-- With nothing waiting and nothing in the channel, everything has been executed. -/
theorem Inv.all_done (h : Inv spec accepts loop) (hchannel : loop.channel = [])
    (hbacklog : loop.backlog = []) : loop.calls.flatten.Perm loop.arrived := by
  have hperm := h.books.perm
  rw [hbacklog, List.append_nil] at hperm
  rw [← h.books.channel, hchannel, List.append_nil]
  exact hperm

theorem Inv.ended (h : Inv spec accepts loop) (hphase : loop.phase = .ended) :
    loop.calls.flatten.Perm loop.arrived := by
  have hready := h.ready
  rw [Ready, hphase] at hready
  obtain ⟨-, hchannel, hfirst, hsingle, hbatched⟩ := hready
  exact h.all_done hchannel (by simp [backlog, waiting, pending, hphase, hfirst, hsingle, hbatched])

/-- The loop waits only for an open channel that is empty, with no request left in a lane. -/
theorem work_none {tick : Tick τ} (h : loop.work spec tick = none) :
    loop.phase = .ended ∨ loop.closed = false ∧ loop.channel = [] ∧
      (tick.expired = true → loop.backlog = []) := by
  unfold work at h
  split at h
  · next hphase =>
    split at h
    · next hqueues =>
      split at h
      · cases h
      · next hchannel =>
        split at h
        · cases h
        · next hopen =>
          refine Or.inr ⟨by simpa using hopen, hchannel, fun _ => ?_⟩
          simp [backlog, waiting, pending, hphase, hqueues]
    · cases h
  · split at h <;> cases h
  · next pending target hphase =>
    unfold fill at h
    split at h
    · cases h
    · next hopen =>
      split at h
      · split at h
        · cases h
        · split at h <;> cases h
      · next hchannel =>
        split at h
        · cases h
        · next hclosed =>
          refine Or.inr ⟨by simpa using hclosed, hchannel, fun hexpired => ?_⟩
          exact absurd (Or.inr hexpired) hopen
  · cases h
  · next hphase => exact Or.inl hphase

theorem run_bounded (hsound : spec.Sound accepts) {events : List Unit}
    (hinv : Inv spec accepts loop) (h : Runs.Run (step spec) Works loop events loop') :
    Inv spec accepts loop' ∧ events.length + loop'.measure ≤ loop.measure := by
  induction h with
  | refl => exact ⟨hinv, by simp⟩
  | @step _ _ _ action _ _ hworks hstep ih =>
    obtain ⟨hinv', hle⟩ := ih
    cases action with
    | arrive request => exact hworks.elim
    | close => exact hworks.elim
    | work tick =>
      obtain ⟨after, hwork, heq⟩ := Option.map_eq_some_iff.mp hstep
      obtain ⟨rfl, -⟩ := Prod.mk.inj heq
      obtain ⟨hafter, hlt⟩ := work_inv hsound hworks hinv' hwork
      refine ⟨hafter, ?_⟩
      rw [List.length_append, List.length_singleton]
      omega

end Run

end Loop

end WriterLoop
