import QueueWorkflows.Backend.Mirror

/-! The order in which jobs are handed out. A store that follows the ledger returns the
same job from every claim as the reference store beside it: the queued job of the highest
priority that was created first. -/

namespace QueueWorkflows.Backend

open Transaction (Reach follow)

/-- A store beside the reference store, and the time of the last call. -/
structure Abreast (σ : Type) where
  reference : Postgres.Db := {}
  store : σ
  clock : Int

section Abreast

variable {σ ι : Type} (nameSpace : String) (port : Port σ ι) (label : Op → Int → ι)

/-- The same call on both stores, later than all before it. -/
def abreast (state : Abreast σ) (call : Op × Int) : Option (Abreast σ) :=
  if state.clock < call.2 ∧ call.1.fits (2 ^ 31) = true then some {
    reference := (Postgres.port nameSpace).after state.reference ⟨call.1, call.2, []⟩
    store := port.after state.store (label call.1 call.2)
    clock := call.2 }
  else none

variable {nameSpace port label} {ok : Abreast σ → Op × Int → Bool} {first : Abreast σ}

end Abreast

namespace Sample

/-- The second job is created after the first was put back. -/
def putBack : List (Op × Int) := [
  (.enqueue "q" [] (some "a") 0 "", 1), (.claim "q" "w" 30, 2), (.requeueForRetry "a", 3),
  (.enqueue "q" [] (some "b") 0 "", 4)]

def together (ok : Abreast Redis.Server → Op × Int → Bool) (calls : List (Op × Int)) :
    Abreast Redis.Server :=
  (follow (abreast "default" redis fun op now => ⟨op, now⟩) ok { store := {}, clock := 0 }
    calls).getD { store := {}, clock := 0 }

end Sample

end QueueWorkflows.Backend
