/-!
# Settings

The settings of rule evaluation and of the search for a match, each with a default.
-/

namespace Stratagem

/-- Settings of rule evaluation. -/
structure WalkSettings where
  /-- How often one path may enter the same node before evaluation is aborted. -/
  maxNodeVisits : UInt32 := 64
  /-- Whether the first Error node ends the whole evaluation. -/
  stopAtFirstError : Bool := false
  /-- Stands for the conspirator's name in messages. -/
  conspiratorToken : String := "\x7bConspirator\x7d"
  /-- Stands for the target's name in messages. -/
  targetToken : String := "\x7bTarget\x7d"
deriving DecidableEq, Repr, Inhabited

/-- Settings of the search for a match. -/
structure SearchSettings where
  /-- Evaluations between two yields; zero counts as one. -/
  batchSize : UInt64 := 4
  /-- A fixed seed for the order in which candidates are tried. -/
  seed : Option UInt64 := none
deriving DecidableEq, Repr, Inhabited

/-- All settings. -/
structure Settings where
  walk : WalkSettings := {}
  search : SearchSettings := {}
deriving DecidableEq, Repr, Inhabited

end Stratagem
