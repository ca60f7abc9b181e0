import Stratagem.Binary64.Text
import Stratagem.Text.Display
import Stratagem.Variable.Basic

/-!
# Showing variables
-/

namespace Stratagem

/-- A value as it is shown: the name of its kind and its content. -/
def Value.display : Value → String
  | .string s => "String(" ++ Display.string s ++ ")"
  | .integer i => "Integer(" ++ toString i.toInt ++ ")"
  | .float x => "Float(" ++ x.displayText ++ ")"
  | .bool b => "Bool(" ++ Display.bool b ++ ")"
  | .object key => "Object(" ++ Display.option Display.string key ++ ")"
  | .enumeration index options =>
    Display.record "Enum"
      [("index", toString index.toNat), ("options", Display.list Display.string options)]
  | .actor id => "Actor(" ++ Display.option Display.id id ++ ")"
  | .clan id => "Clan(" ++ Display.option Display.id id ++ ")"
  | .family id => "Family(" ++ Display.option Display.id id ++ ")"

/-- A variable as it is shown; of its hook, whether it has one. -/
def Variable.display (v : Variable) : String :=
  Display.record "Variable" [
    ("id", Display.id v.id),
    ("name", Display.string v.name),
    ("value", v.value.display),
    ("has_hook", Display.bool v.watched)]

end Stratagem
