import Ini.Shape.Basic
import Ini.Store
import Ini.Text.Convert
import Ini.Text.Items

/-!
# Reading by shape

A value is read by a shape, and so is a section as a whole. A value is a text or
absent; where a text is asked for, an absent value is the empty text. A section
is a table of values and nothing else, so that only tables and records, and
shapes that take anything, can be read from it.

Entries are visited in their order and the first failure counts. A field that is
missing is noticed only when all entries have been visited.
-/

namespace Ini

/-- What a value is to a shape that cannot use text. -/
def Found.ofValue : Option Text → Found
  | some word => .text word
  | none => .unit

/-- Reads an integer of a type of up to 64 bits. It is read at 64 bits first, so
that a number the type cannot hold is told from a text that is no number. -/
def IntType.read (t : IntType) (text : Text) : Except Fault Int := do
  let n ← text.toInteger { t with bits := 64 }
  if t.holds n then return n else throw (.shape (.outOfRange n t.name))

/-- Reads the name of a variant that carries no value. -/
def Choice.read (c : Choice) (word : Text) : Except Fault Text :=
  match c.variants.find? fun variant => variant.1 = word with
  | none => .error (.shape (.unknownVariant word (c.variants.map Prod.fst)))
  | some (name, carries) =>
    if carries then .error (.shape (.wrongKind .unitVariant "newtype variant")) else .ok name

/-- Reads a value as a scalar. Blanks around a character count as characters.
Neither a character nor an integer of more than 64 bits is made from an absent
value, and the latter is not made from text either. -/
def Scalar.read (s : Scalar) (value : Option Text) : Except Fault Atom :=
  match s with
  | text => .ok (.text (value.getD []))
  | boolean => return .boolean (← (value.getD []).toBoolean)
  | character =>
    match value with
    | some [c] => .ok (.character c)
    | some word => .error (.shape (.invalidText word "a character"))
    | none => .error (.shape (.wrongKind .unit "a character"))
  | integer t =>
    if t.bits ≤ 64 then return .integer (← t.read (value.getD []))
    else .error (.shape (.wrongKind (.ofValue value) t.name))
  | choice c => return .variant (← c.read (value.getD []).trim)

namespace Shape

/-- The numbers from `n` down to zero. -/
def countdownFrom : Nat → List Nat
  | 0 => [0]
  | n + 1 => (n + 1) :: countdownFrom n

/-- Reads several values, one after the other. -/
def readAll (read : Text → Except Fault Value) : List Text → Except Fault (List Value)
  | [] => .ok []
  | item :: rest => do
    let value ← read item
    return value :: (← readAll read rest)

/-- Reads a value. -/
def read : Shape → Option Text → Except Fault Value
  | scalar s, value => return .atom (← s.read value)
  | float f, value => do
    let number ← (value.getD []).toFloat .double
    return .float (BinaryFormat.double.convert f number)
  | ignored, _ => .ok .unit
  | any, some text => .ok (.atom (.text text))
  | any, none | unit, none | unitRecord _, none => .ok .unit
  | optional _, none => .ok .absent
  | optional inner, some text => return .present (← inner.read (some text))
  | list inner, value =>
    return .list (← readAll (fun item => inner.read (some item)) (value.getD []).items)
  | countdown, value => .ok (.counts (countdownFrom (value.getD []).items.length))
  | wrapper _ inner, value => inner.read value
  | shape, value => .error (.shape (.wrongKind (.ofValue value) shape.expectation))

/-- Reads entries into a table. A key met again keeps its place and takes the
later value. -/
def readTable (key : Scalar) (value : Shape) (seen : Table Atom Value) :
    Entries → Except Fault (Table Atom Value)
  | [] => .ok seen
  | (k, v) :: rest => do
    let k ← key.read (some k)
    let v ← value.read v
    readTable key value (seen.put k v) rest

/-- Reads the fields that entries give. -/
def readFields (fields : List (Text × Shape × Option Value)) (closed : Bool) :
    Entries → Except Fault (Table Text Value)
  | [] => .ok []
  | (key, value) :: rest =>
    match fields.find? fun field => field.1 = key with
    | some (_, shape, _) => do
      let value ← shape.read value
      return (key, value) :: (← readFields fields closed rest)
    | none =>
      if closed then .error (.shape (.unknownField key (fields.map Prod.fst)))
      else readFields fields closed rest

/-- All fields in their order, those not given filled in. -/
def completeFields (given : Table Text Value) :
    List (Text × Shape × Option Value) → Except Fault (List (Text × Value))
  | [] => .ok []
  | (name, _, substitute) :: rest =>
    match (given.find? name).or substitute with
    | some value => return (name, value) :: (← completeFields given rest)
    | none => .error (.shape (.missingField name))

/-- Reads a section. -/
def readSection (shape : Shape) (entries : Entries) : Except Fault Value :=
  match shape with
  | ignored => .ok .unit
  | any => return .table (← readTable .text any [] entries)
  | countdown => .ok (.counts (countdownFrom entries.length))
  | table key value => return .table (← readTable key value [] entries)
  | record _ fields closed => do
    let given ← readFields fields closed entries
    return .record (← completeFields given fields)
  | _ => .error (.shape (.wrongKind .table shape.expectation))

end Shape

end Ini
