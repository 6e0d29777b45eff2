import Ini.Store
import Ini.Template

/-!
# Resolving values

To resolve a value is to put in place of each reference the resolved value that
it refers to. References may run in circles, and no trace of the way is kept:
what ends a circle is the limit on how deep values may be nested. So the
recursion is on the number of levels left, and a value met when none is left is
a fault.

The pieces of a value are settled from left to right and the first fault is the
fault of the value. A reference to a key without a value contributes nothing.
-/

namespace Ini

namespace Piece

/-- What a piece of the value of `key` in section `name` stands for, given the
text that each reference stands for. -/
def settle (name key : Text) (refer : Text → Text → Except Fault Text) :
    Piece → Except Fault Text
  | literal c => .ok [c]
  | reference target wanted => refer (target.getD name) wanted
  | flaw what => .error (.badReference name key what)

/-- What several pieces stand for, one after the other. -/
def settleAll (name key : Text) (refer : Text → Text → Except Fault Text) :
    List Piece → Except Fault Text
  | [] => .ok []
  | piece :: rest => do
    let text ← piece.settle name key refer
    return text ++ (← settleAll name key refer rest)

end Piece

namespace Store

/-- Resolves a value with so many levels left. The limit is only reported. -/
def resolveWithin (s : Store) (g : Grammar) (limit : Nat) :
    Nat → Text → Text → Text → Except Fault Text
  | 0, name, key, _ => .error (.tooDeep name key limit)
  | levels + 1, name, key, raw =>
    Piece.settleAll name key
      (fun home wanted => do
        match ← s.lookup home wanted with
        | none => return []
        | some value => s.resolveWithin g limit levels home wanted value)
      (g.pieces raw)

/-- Resolves a value met at the given depth, the outermost being at depth one. -/
def resolveAt (d : Dialect) (s : Store) (depth : Nat) (name key raw : Text) : Except Fault Text :=
  match d.interpolation.grammar? with
  | none => .ok raw
  | some g => s.resolveWithin g d.depthLimit (d.depthLimit + 1 - depth) name key raw

/-- Resolves a value met outermost. -/
def resolve (d : Dialect) (s : Store) (name key raw : Text) : Except Fault Text :=
  s.resolveAt d 1 name key raw

end Store

end Ini
