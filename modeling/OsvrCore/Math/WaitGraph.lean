/-
# Deadlock as a closed set of waiting agents

An agent that is blocked proceeds when one of its releasers acts. A deadlock is
a set of blocked agents that contains every releaser of each of its members.
The set may be a single agent that waits for itself.
-/

import Mathlib.Data.Set.Basic
import Mathlib.Order.WellFounded
import Mathlib.Order.RelClasses

set_option autoImplicit false

namespace OSVR.Math

universe u

variable {α : Type u}

/-- Who is blocked, and who can end the wait of whom. -/
structure WaitGraph (α : Type u) where
  blocked : α → Prop
  releases : α → α → Prop

namespace WaitGraph

/-- Some nonempty set of blocked agents has no releaser outside itself. -/
def Deadlocked (graph : WaitGraph α) : Prop :=
  ∃ agents : Set α, agents.Nonempty ∧
    ∀ waiting ∈ agents, graph.blocked waiting ∧
      ∀ releaser, graph.releases releaser waiting → releaser ∈ agents

/-- If every blocked agent has a releaser of smaller rank, somebody outside any
set of blocked agents can still act. -/
theorem not_deadlocked_of_rank (graph : WaitGraph α) (rank : α → ℕ)
    (hrank : ∀ waiting, graph.blocked waiting →
      ∃ releaser, graph.releases releaser waiting ∧ rank releaser < rank waiting) :
    ¬ graph.Deadlocked := by
  rintro ⟨agents, hnonempty, hclosed⟩
  obtain ⟨waiting, hmem, hleast⟩ :=
    WellFounded.has_min (InvImage.wf rank Nat.lt_wfRel.wf) agents hnonempty
  obtain ⟨releaser, hreleases, hlt⟩ := hrank waiting (hclosed waiting hmem).1
  exact hleast releaser ((hclosed waiting hmem).2 releaser hreleases) hlt

/-- Two agents each of which only the other can release. -/
theorem deadlocked_pair {graph : WaitGraph α} (first second : α)
    (hfirst : graph.blocked first) (hsecond : graph.blocked second)
    (honly_second : ∀ releaser, graph.releases releaser first → releaser = second)
    (honly_first : ∀ releaser, graph.releases releaser second → releaser = first) :
    graph.Deadlocked := by
  refine ⟨{first, second}, ⟨first, Set.mem_insert _ _⟩, ?_⟩
  rintro waiting (rfl | rfl)
  · exact ⟨hfirst, fun releaser h => .inr (honly_second releaser h)⟩
  · exact ⟨hsecond, fun releaser h => .inl (honly_first releaser h)⟩

/-- An agent that only it itself could release. -/
theorem deadlocked_self {graph : WaitGraph α} (agent : α) (hblocked : graph.blocked agent)
    (honly : ∀ releaser, graph.releases releaser agent → releaser = agent) :
    graph.Deadlocked := by
  refine ⟨{agent}, ⟨agent, rfl⟩, ?_⟩
  rintro waiting rfl
  exact ⟨hblocked, honly⟩

end WaitGraph
end OSVR.Math
