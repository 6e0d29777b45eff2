import Ini.Config.Basic

/-!
# Edits

Every change to a configuration is one of a few edits. `Config.apply` carries
one out; `Config.Reachable` says of a configuration that some edits lead to it
from an empty one, whatever their outcomes were.
-/

namespace Ini

/-- A change to a configuration. -/
inductive Edit where
  | read (source text : Text)
  | load (name : Text) (content : Option ByteArray)
  | addSection (name : Text)
  | removeSection (name : Text)
  | set (name key : Text) (value : Option Text)
  | unset (name key : Text)
  | clear

namespace Config

/-- Carries out an edit. An edit that takes something out answers whether it was
there; the others have no answer. -/
def apply (c : Config) : Edit → Config × Except Fault (Option Bool)
  | .read source text => (c.read source text).map id (·.map fun _ => none)
  | .load name content => (c.load name content).map id (·.map fun _ => none)
  | .addSection name => (c.addSection name).map id (·.map fun _ => none)
  | .removeSection name => (c.removeSection name).map id (.ok ∘ some)
  | .set name key value => (c.set name key value).map id (·.map fun _ => none)
  | .unset name key => (c.unset name key).map id (·.map some)
  | .clear => (c.clear, .ok none)

/-- Carries out edits one after the other, whatever their outcomes. -/
def applyAll (c : Config) (edits : List Edit) : Config :=
  edits.foldl (fun c edit => (c.apply edit).1) c

/-- Some edits lead from an empty configuration to this one. -/
def Reachable (c : Config) : Prop := ∃ d edits, c = (empty d).applyAll edits

end Config

end Ini
