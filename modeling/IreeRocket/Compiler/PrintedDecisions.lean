import IreeRocket.Compiler.Decisions

/-!
# The printed module

How the records reach the text that is scanned: one array of dictionaries on a function's line,
their keys in order, a location in place or by the name that a line of its own gives it. In a string
a backslash stands as two, and a quote or a byte that is not printable as a backslash and its two
hexadecimal digits.
-/

namespace IreeRocket.Compiler

open ScannedText

/-! ### Strings -/

/-- A printable ASCII character. -/
def printable (c : Char) : Bool := 0x20 ≤ c.toNat && c.toNat ≤ 0x7E

def hexDigit (n : Nat) : Char := Char.ofNat (if n < 10 then 0x30 + n else 0x37 + n)

/-- The two digits of each byte of a character. -/
def hexBytes (c : Char) : List (List Char) :=
  (String.utf8EncodeChar c).map fun byte =>
    [hexDigit (byte.toNat / 16), hexDigit (byte.toNat % 16)]

def escapeChar (c : Char) : Text :=
  if c = '\\' then ['\\', '\\']
  else if printable c ∧ c ≠ '"' then [c]
  else (hexBytes c).flatMap ('\\' :: ·)

def escape (text : Text) : Text := text.flatMap escapeChar

def quoted (text : Text) : Text := '"' :: escape text ++ ['"']

/-! ### Records -/

inductive Location
  | file (name : Text) (line column : Nat)
  | unknown

/-- What a record says of the location. -/
def Location.text : Location → Text
  | .file name line column =>
    name ++ ':' :: (toString line).toList ++ ':' :: (toString column).toList
  | .unknown => "unknown".toList

def Location.print : Location → Text
  | .file name line column =>
    "loc(".toList ++ quoted name ++ ':' :: (toString line).toList ++
      ':' :: (toString column).toList ++ [')']
  | .unknown => "loc(unknown)".toList

/-- The first alias has no number. -/
def aliasName : Nat → Text
  | 0 => "#loc".toList
  | n + 1 => "#loc".toList ++ (toString (n + 1)).toList

/-- What the pass writes for one candidate. The location is printed in place, or by its alias. -/
structure Record where
  kind : Text
  layout : Text
  shape : Text
  precision : Text
  decision : Text
  status : Text
  limit : Text
  detail : Text
  jobs : Int64
  columns : Int64
  location : Location
  aliasIndex : Option Nat

def printInteger (n : Int64) : Text := (toString n.toInt).toList ++ " : i64".toList

/-- The dictionary, its keys in order. -/
def Record.entries (r : Record) : List (String × Text) :=
  [("columns", printInteger r.columns), ("decision", quoted r.decision), ("detail", quoted r.detail),
    ("jobs", printInteger r.jobs), ("kind", quoted r.kind), ("layout", quoted r.layout),
    ("limit", quoted r.limit), ("loc", (r.aliasIndex.map aliasName).getD r.location.print),
    ("precision", quoted r.precision), ("shape", quoted r.shape), ("status", quoted r.status)]

def printEntry (entry : String × Text) : Text := entry.1.toList ++ (" = ".toList ++ entry.2)

def Record.print (r : Record) : Text :=
  '{' :: (", ".toList.intercalate (r.entries.map printEntry) ++ ['}'])

/-- The record as it should be read. -/
def Record.toDecision (function : Text) (r : Record) : Decision where
  function := function
  kind := r.kind
  layout := r.layout
  shape := r.shape
  precision := r.precision
  decision := r.decision
  status := r.status
  limit := r.limit
  detail := r.detail
  jobs := r.jobs
  columns := r.columns
  location := r.location.text

/-! ### Lines -/

/-- A name that needs no quotes. -/
def bareIdentifier : Text → Bool
  | [] => false
  | c :: rest =>
    (c.isAlpha || c == '_') && rest.all fun d => d.isAlphanum || d == '_' || d == '$' || d == '.'

def printSymbol (name : Text) : Text := '@' :: if bareIdentifier name then name else quoted name

/-- A function with candidates. `opening` is the line up to the name, `signature` from the name to
the attribute, and `closing` what follows the attribute. -/
structure PlannedFunction where
  opening : Text
  name : Text
  signature : Text
  records : List Record
  closing : Text
  /-- The pass sets no empty attribute. -/
  planned : records ≠ []
  openingLine : OneLine opening
  openingAt : '@' ∉ opening
  openingHash : (trimStart opening).head? ≠ some '#'
  openingUnmarked : ¬ decisionsAttr <:+: opening
  signatureLine : OneLine signature
  signatureParen : signature.head? = some '('
  signatureUnmarked : ¬ decisionsAttr <:+: signature
  closingLine : OneLine closing

/-- The text between the brackets of the attribute. -/
def printArray (records : List Record) : Text := ", ".toList.intercalate (records.map Record.print)

def PlannedFunction.print (f : PlannedFunction) : Text :=
  f.opening ++ (printSymbol f.name ++ (f.signature ++ (decisionsAttr ++
    ('[' :: (printArray f.records ++ ']' :: f.closing)))))

/-- Any other line: it carries no decisions and names no location. -/
structure OtherLine where
  text : Text
  line : OneLine text
  unmarked : ¬ decisionsAttr <:+: text
  unaliased : locationAlias text = none

inductive Item
  | named (index : Nat) (location : Location)
  | function (f : PlannedFunction)
  | other (line : OtherLine)

def Item.print : Item → Text
  | .named index location => aliasName index ++ (" = ".toList ++ location.print)
  | .function f => f.print
  | .other line => line.text

def Item.decisions : Item → List Decision
  | .function f => f.records.map (Record.toDecision f.name)
  | _ => []

def Item.aliasIndex : Item → Option Nat
  | .named index _ => some index
  | _ => none

/-- A module as it is printed. An alias is defined once, and for the location of the records printed
with it. -/
structure PrintedModule where
  items : List Item
  distinct : (items.filterMap Item.aliasIndex).Nodup
  resolved : ∀ f, Item.function f ∈ items → ∀ r ∈ f.records, ∀ n, r.aliasIndex = some n →
    Item.named n r.location ∈ items

def PrintedModule.print (m : PrintedModule) : Text :=
  m.items.flatMap fun item => item.print ++ ['\n']

/-- The records of the module, in order. -/
def PrintedModule.decisions (m : PrintedModule) : List Decision := m.items.flatMap Item.decisions

end IreeRocket.Compiler
