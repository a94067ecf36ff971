import TaskOrchestration.Lib.Postorder
import TaskOrchestration.Deps.Cycles

set_option autoImplicit false

/-!
# The topological sort of the dependency graph

`topologicalSort` lists the jobs in the postorder of its own search. It asks about no cycle, and is
right about the order of the jobs from which `validateNoCycles` finds none.

* **`topologicalSort`**; **`topologicalSort_spec`**: on any graph.
-/

namespace TaskOrchestration.DependencyResolver

open CycleSearch Relation

/-- `topologicalSort`. `none` means that the search has not come to an end. -/
def topologicalSort (g : Graph) (jobIds : List JobId) : Option (List JobId) :=
  postorder (successors g) (g.rows.length + 1) jobIds

/-- **The topological sort** of any graph comes to an end. It returns every id that can be reached
from the given ones along the dependencies, once, whether it has a node or not; and where the cycle
search does not throw, each id comes after all its dependencies. -/
theorem topologicalSort_spec (g : Graph) (jobIds : List JobId) :
    ∃ sorted, topologicalSort g jobIds = some sorted ∧ sorted.Nodup ∧
      (∀ id, id ∈ sorted ↔ ∃ start ∈ jobIds, ReflTransGen (Edge (successors g)) start id) ∧
      (¬ ThrowsCycle g jobIds →
        ∀ pre id post, sorted = pre ++ id :: post → ∀ dep ∈ successors g id, dep ∈ pre) := by
  obtain ⟨sorted, hr, hnodup, hmem, horder⟩ := postorder_spec (mem_rows_of_successors g) jobIds
  rw [List.length_map] at hr
  refine ⟨sorted, hr, hnodup, hmem, fun hthrows => horder fun id hid hc => hthrows ?_⟩
  exact (throwsCycle_iff g jobIds).2.mpr ⟨id, hid, hc⟩

/-- The jobs of a diamond, given from the end: the shared one comes first. -/
example : topologicalSort (registerAll emptyGraph [waitingJob "a" [], waitingJob "b" ["a"],
    waitingJob "c" ["a"], waitingJob "d" ["b", "c"]]) ["d", "a", "x"] =
      some ["a", "b", "c", "d", "x"] := by decide

end TaskOrchestration.DependencyResolver
