import Stratagem.Arbiter
import Stratagem.Binary64.Basic
import Stratagem.Binary64.Shortest
import Stratagem.Binary64.Text
import Stratagem.Bridge.Basic
import Stratagem.Bridge.Display
import Stratagem.Entity.Basic
import Stratagem.Entity.Document
import Stratagem.Graph.Basic
import Stratagem.Graph.Document
import Stratagem.Graph.Draft
import Stratagem.Graph.Library
import Stratagem.Graph.Node
import Stratagem.Json.Basic
import Stratagem.Json.Lexer
import Stratagem.Json.Parser
import Stratagem.Json.Printer
import Stratagem.Json.Reading
import Stratagem.Matchmaking
import Stratagem.Message
import Stratagem.Registry
import Stratagem.Scheme.Basic
import Stratagem.Scheme.Document
import Stratagem.Settings.Basic
import Stratagem.Settings.Document
import Stratagem.Settings.Toml
import Stratagem.Text.Display
import Stratagem.Text.Unprintable
import Stratagem.Total
import Stratagem.Uuid
import Stratagem.Variable.Basic
import Stratagem.Variable.Display
import Stratagem.Variable.Document
import Stratagem.Variable.Set
import Stratagem.Walk.Event
import Stratagem.Walk.Run
import Stratagem.Walk.Trail
import Stratagem.Walk.Visit
import Stratagem.World.Basic
import Stratagem.World.Document
import Stratagem.Proofs.Walk.Exploration
import Stratagem.Proofs.Walk.Coverage
import Stratagem.Proofs.Walk.Simulation
import Stratagem.Proofs.Walk.Passing
import Stratagem.Proofs.Walk.Bindings
import Stratagem.Proofs.Walk.Guard
import Stratagem.Proofs.Walk.Situation
import Stratagem.Proofs.Walk.Settings
import Stratagem.Proofs.Walk.Rewiring
import Stratagem.Proofs.Walk.Acyclic
import Stratagem.Proofs.Walk.Termination
import Stratagem.Proofs.Walk.Renaming
import Stratagem.Proofs.Walk.Inheritance
import Stratagem.Proofs.Walk.Admission
import Stratagem.Proofs.Walk.Lockstep
import Stratagem.Proofs.Walk.SelfContained
import Stratagem.Proofs.Walk.Wording
import Stratagem.Bridge.Table
import Stratagem.Proofs.Bridge.Providers
import Stratagem.Proofs.Bridge.Signature
import Stratagem.Graph.Assembly
import Stratagem.Proofs.Json.Reading
import Stratagem.Proofs.Uuid
import Stratagem.Proofs.Json.Scalar
import Stratagem.Proofs.Json.Lexing
import Stratagem.Proofs.Json.Parsing
import Stratagem.Proofs.Graph.Assembly
import Stratagem.Proofs.Graph.Document
import Stratagem.Proofs.Graph.Relisting
import Stratagem.Proofs.Graph.Library
import Stratagem.World.Operation
import Stratagem.Proofs.Matchmaking
import Stratagem.Proofs.World.Operation
import Stratagem.Message.Scan
import Stratagem.Proofs.Message.Cut
import Stratagem.Proofs.Message.Untargeted
import Stratagem.Proofs.Binary64.Rounding
import Stratagem.Proofs.Binary64.Shortest
import Stratagem.Proofs.Binary64.Scaling
import Stratagem.Proofs.Json.Numeral
import Stratagem.Proofs.Binary64.Reading
import Stratagem.Proofs.Entity.Document
import Stratagem.Proofs.World.Document
import Stratagem.Proofs.Variable.Edit
import Stratagem.Proofs.World.Saving
import Stratagem.Proofs.Graph.WireOrder
import Stratagem.Proofs.Matchmaking.Pacing
import Stratagem.Proofs.Scheme
import Stratagem.Proofs.World.Kinship
import Stratagem.Proofs.World.Lineage
import Stratagem.Proofs.World.Membership
import Stratagem.Proofs.Variable.History
import Stratagem.Proofs.World.Iteration
import Stratagem.Proofs.Variable.Assignment
import Stratagem.Proofs.Variable.Soundness
import Stratagem.Proofs.World.VariableReading
import Stratagem.Proofs.Walk.Trail
