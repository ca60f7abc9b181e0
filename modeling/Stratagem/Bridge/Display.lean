import Stratagem.Bridge.Basic
import Stratagem.Text.Display

/-!
# Showing the bridge
-/

namespace Stratagem

/-- A bridge as it is shown: the names of its methods and how many of them are answered. -/
def Bridge.display (b : Bridge) : String :=
  Display.record "InvocationBridge" [
    ("methods", Display.list Display.string b.methodNames),
    ("bound", toString b.boundCount)]

/-- A context as it is shown: who and what it is about, by identifier. -/
def Context.display (c : Context) : String :=
  Display.record "InvokeContext" [
    ("rule_id", Display.string c.rule),
    ("scheme", Display.option (fun s => Display.string s.id) c.scheme),
    ("conspirator", Display.id c.conspirator.id),
    ("target", Display.option (fun a => Display.id a.id) c.target)]

end Stratagem
