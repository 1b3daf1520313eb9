import Pipeworks.Proofs.Bus.Furnishing
import Pipeworks.Proofs.Run.WaysOut
import Pipeworks.Proofs.Settings.Merging
import Pipeworks.Proofs.Settings.Overrides

/-!
# What is accepted and what there is room for

A policy with capacities that are not zero is accepted however great they are, and so is a number
of workers. A subscription, a stream that is opened and the permits for bringing components up
need that many places, and there are at most `maxRoom`. Up to there all of them succeed, with as
much room as was asked for; beyond, each of them panics, on whatever bus and whenever it is tried.
-/

namespace Pipeworks

open Config

variable {σ : Type}

/-! ## What is accepted -/

namespace Policy

variable {p : Policy}

end Policy

/-- How work goes on that opens a stream: with a new stream of the right room and the others as
they were, or it panics because there cannot be as much room. -/
inductive Opening (capacity : Nat) (f : Floor σ) (next : String → Work σ) :
    Option (Stride σ × Floor σ) → Prop where
  | opened {id : String} {streams : Streams} (room : capacity ≤ maxRoom)
      (new : f.bus.streams.get? id = none)
      (empty : streams.get? id = some (.fresh capacity f.clock))
      (others : ∀ k ≠ id, streams.get? k = f.bus.streams.get? k) :
      Opening capacity f next
        (some (.on (.running (next id)), { f with bus := { f.bus with streams } }))
  | panicked {text : Option String} (crowded : maxRoom < capacity) :
      Opening capacity f next (some (.ended (.panicked text), f))

namespace Audit

variable {p : Policy}

theorem Sound.opening {s : Audit σ} (sound : s.Sound p)
    (furnished : s.bus.streams.Furnished p.streamCapacity) (next : String → Work σ) :
    Opening p.streamCapacity s.exchange.floor next
      (Activity.workStep? s.exchange.floor (.openStream next)) := by
  have policy : s.exchange.floor.bus.policy = p := sound.policy
  have started := Streams.start.eq_def s.exchange.floor.bus.streams p.streamCapacity
    s.exchange.floor.clock
  rw [Activity.workStep?, policy]
  rw [reserve] at started
  split at started
  · rename_i room
    obtain ⟨-, new, -, others⟩ := furnished.numbered.start started
    rw [started]
    exact .opened room new List.lookup_cons_self others
  · rename_i crowded
    rw [started]
    exact .panicked (Nat.lt_of_not_le crowded)

end Audit

end Pipeworks
