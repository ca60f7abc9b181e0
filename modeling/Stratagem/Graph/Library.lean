import Stratagem.Graph.Document
import Stratagem.Registry

/-!
# Libraries of rules

A `RuleLibrary` keeps rule graphs under their own ids, one graph an id. Its text is the array of
its graphs in ascending order of their ids; a text is loaded as a whole or not at all, and of
several graphs with one id the last stays.
-/

namespace Stratagem

/-- Rule graphs under their ids. -/
structure RuleLibrary where
  graphs : Registry String RuleGraph
  /-- Every graph stands under its own id. -/
  keyed : ∀ entry ∈ graphs.entries, entry.1 = entry.2.id

namespace RuleLibrary

/-- The library without rules. -/
def empty : RuleLibrary := ⟨.empty, by simp [Registry.empty]⟩

instance : Inhabited RuleLibrary := ⟨empty⟩

/-- The graph of a rule. -/
def graph? (l : RuleLibrary) (rule : String) : Option RuleGraph := l.graphs.find? rule

/-- The ids of the rules, in ascending order. -/
def ruleIds (l : RuleLibrary) : List String := l.graphs.keys.mergeSort fun a b => a ≤ b

def size (l : RuleLibrary) : Nat := l.graphs.size

def isEmpty (l : RuleLibrary) : Bool := l.size = 0

/-- Enter a graph, in place of the one with its id. -/
def insert (l : RuleLibrary) (g : RuleGraph) : RuleLibrary where
  graphs := l.graphs.insert g.id g
  keyed := by
    intro entry h
    rcases Registry.mem_insert h with rfl | h
    · rfl
    · exact l.keyed entry h

/-- Remove the graph of a rule. -/
def remove (l : RuleLibrary) (rule : String) : RuleLibrary where
  graphs := l.graphs.erase rule
  keyed := fun entry h => l.keyed entry (Registry.mem_of_mem_erase h)

/-- Enter graphs one after the other. -/
def ofList (graphs : List RuleGraph) : RuleLibrary := graphs.foldl insert empty

/-- The graphs, in ascending order of their ids. -/
def toList (l : RuleLibrary) : List RuleGraph := l.graphs.values.mergeSort fun a b => a.id ≤ b.id

def toJson (l : RuleLibrary) : Json := .ofList RuleGraph.toJson l.toList

/-- The indented text of a library. -/
def text (l : RuleLibrary) : String := l.toJson.pretty

/-- Read an array of graphs; the first one that fails decides. -/
def ofJson : Json → Except (Json.Fault GraphError) RuleLibrary
  | .array items => (items.mapM RuleGraph.ofJson).map ofList
  | _ => .error .mismatch

/-- Read a library from its text. -/
def ofText (text : String) : Except (Json.Fault GraphError) RuleLibrary :=
  Json.readText ofJson text

end RuleLibrary

end Stratagem
