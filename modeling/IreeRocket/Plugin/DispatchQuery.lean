import Mathlib.Logic.Basic

/-!
# Reading a Rocket dispatch at the flow phase

A flow-phase module is the list of its operations in an order that respects dominance: of each, the
passes read what it is and which values it takes. What matters of a dispatch is the executable it
runs on (`Target`), its operand segments and which operands are tied. The query functions read a
dispatch's geometry from the target config and from the constant push constants its
`runtime_dimensions` list names.
-/

namespace IreeRocket.Plugin

/-- A value: an argument of a function or block, or a result of an operation. -/
inductive Value
  | argument (number : Nat)
  | result (op number : Nat)
  deriving DecidableEq, Repr

/-- What the passes read of an attribute; an array keeps its strings and the places of the rest. -/
inductive Attr
  | integer (value : Int)
  | string (value : String)
  | bool (value : Bool)
  | array (elements : List (Option String))
  deriving DecidableEq, Repr

/-- `DictionaryAttr`. -/
abbrev Config := List (String × Attr)

namespace Config

def get (config : Config) (key : String) : Option Attr := config.lookup key

def stringAttr (config : Config) (key : String) : Option String :=
  match config.get key with
  | some (.string value) => some value
  | _ => none

def integerAttr (config : Config) (key : String) : Option Int :=
  match config.get key with
  | some (.integer value) => some value
  | _ => none

def arrayAttr (config : Config) (key : String) : Option (List (Option String)) :=
  match config.get key with
  | some (.array elements) => some elements
  | _ => none

def arrayLength (config : Config) (key : String) : Nat :=
  match config.arrayAttr key with
  | some elements => elements.length
  | none => 0

def boolFlag (config : Config) (key : String) : Bool :=
  match config.get key with
  | some (.bool value) => value
  | _ => false

/-- Push constants before the bindings. -/
def constantCount (config : Config) : Nat :=
  config.arrayLength "runtime_dimensions" + config.arrayLength "runtime_quantization" +
    if config.boolFlag "runtime_dense_readers" || config.boolFlag "runtime_layout" then 1 else 0

/-- `rocket_plan_precision_e`, of the rungs the transform spec programs. -/
def precisionCode (config : Config) : Option Nat :=
  match config.stringAttr "precision" with
  | some "fp16" => some 0
  | some "int8" => some 6
  | some "int8_accumulator" => some 7
  | _ => none

end Config

/-- The Rocket executable a dispatch runs on, and its target's configuration. -/
structure Target where
  executable : String
  config : Config
  deriving DecidableEq, Repr

/-- `flow.dispatch`. `target` is `rocketTarget`'s answer: none for a dispatch that is not Rocket's or
names more than one entry point. `others` are the dynamic dimensions after the arguments. -/
structure Dispatch where
  target : Option Target
  workload : List Value
  arguments : List Value
  others : List Value
  tied : List Nat
  results : Nat
  deriving DecidableEq, Repr

namespace Dispatch

def operands (d : Dispatch) : List Value := d.workload ++ d.arguments ++ d.others

def isOperandTied (d : Dispatch) (index : Nat) : Bool := d.tied.contains index

end Dispatch

/-- An operation: `flow.tensor.reshape` and `flow.tensor.bitcast`, which have one result and read
their tensor through operand zero; a dispatch; an `arith.constant`, with its value where that is an
integer attribute; anything else. -/
inductive Op
  | metadata (source : Value) (dims : List Value)
  | dispatch (d : Dispatch)
  | constant (value : Option Int)
  | other (operands : List Value)
  deriving DecidableEq, Repr

def Op.operands : Op → List Value
  | .metadata source dims => source :: dims
  | .dispatch d => d.operands
  | .constant _ => []
  | .other operands => operands

/-- A module. `isI32` is the type test on a value; a reshape reads a value defined before it. -/
structure Module where
  ops : List Op
  isI32 : Value → Bool
  dominance : ∀ (o : Nat) (source : Value) (dims : List Value),
    ops[o]? = some (Op.metadata source dims) → ∀ p n, source = Value.result p n → p < o

namespace Module

def definer (m : Module) : Value → Option Op
  | .argument _ => none
  | .result op _ => m.ops[op]?

/-- `getDefiningOp<arith::ConstantOp>()` with an `IntegerAttr`. -/
def constantOf (m : Module) (value : Value) : Option Int :=
  match m.definer value with
  | some (.constant value) => value
  | _ => none

/-- The loop of `dimension` over the listed names, from ordinal `index` on: the first listing of the
name decides. `none` where no entry lists it. -/
def runtimeDimension (m : Module) (arguments : List Value) (name : String) :
    Nat → List (Option String) → Option (Option Int)
  | _, [] => none
  | index, listed :: rest =>
    if listed = some name then some (arguments[index]?.bind m.constantOf)
    else m.runtimeDimension arguments name (index + 1) rest

/-- One dimension of a dispatch: its push constant where the target lists it, else the config's static
value. -/
def dimension (m : Module) (config : Config) (arguments : List Value) (name : String) : Option Int :=
  match (config.arrayAttr "runtime_dimensions").bind (m.runtimeDimension arguments name 0) with
  | some value => value
  | none => config.integerAttr name

/-- The tensor a reshape or a bitcast relays, of its one result. -/
def relayed (m : Module) : Value → Option Value
  | .result op 0 =>
    match m.ops[op]? with
    | some (.metadata source _) => some source
    | _ => none
  | _ => none

/-- `throughReshapes`: a chain visits every operation at most once. -/
def throughReshapesFrom (m : Module) : Nat → Value → Value
  | 0, value => value
  | fuel + 1, value =>
    match m.relayed value with
    | some source => m.throughReshapesFrom fuel source
    | none => value

def throughReshapes (m : Module) (value : Value) : Value :=
  m.throughReshapesFrom m.ops.length value

end Module

end IreeRocket.Plugin
