import IreeRocket.Lib.ScannedText
import Mathlib

/-!
# Reading the decisions back

The scanner that reads the `rocket.plan_decisions` attributes of a printed module: the location
aliases, the array after the attribute's name, its dictionaries, their fields, and the values. Text
is a list of characters, and a slice of it is the characters between its ends.
-/

namespace IreeRocket.Compiler

open ScannedText

abbrev Text := List Char

/-- What the planner decided for one candidate, and why. -/
structure Decision where
  function : Text := []
  kind : Text := []
  layout : Text := []
  shape : Text := []
  precision : Text := []
  decision : Text := []
  status : Text := []
  limit : Text := []
  detail : Text := []
  jobs : Int64 := 0
  columns : Int64 := 0
  location : Text := []
deriving DecidableEq

/-! ### Characters -/

/-- `char::is_alphanumeric`. The table of Unicode is left open past ASCII. -/
structure Alphanumeric where
  holds : Char → Bool
  ascii : ∀ c, c.toNat < 128 → holds c = c.isAlphanum

/-- `char::is_whitespace`, the `White_Space` property. -/
def isWhitespace (c : Char) : Bool :=
  c.toNat ∈ [0x09, 0x0A, 0x0B, 0x0C, 0x0D, 0x20, 0x85, 0xA0, 0x1680, 0x2000, 0x2001, 0x2002, 0x2003,
    0x2004, 0x2005, 0x2006, 0x2007, 0x2008, 0x2009, 0x200A, 0x2028, 0x2029, 0x202F, 0x205F, 0x3000]

def trimStart (text : Text) : Text := text.dropWhile isWhitespace

/-! ### Strings and brackets -/

/-- The flags `in_string` and `escaped` of the scans: an escape is in a string. -/
inductive Quoting
  | outside
  | string
  | escape
deriving DecidableEq

/-- One character of a string literal. -/
def Quoting.inString : Quoting → Char → Quoting
  | .escape, _ => .string
  | _, '\\' => .escape
  | _, '"' => .outside
  | _, _ => .string

/-- The characters before the bracket that brings the depth back to zero. The depth is not zero
where a closing bracket is met: the scan begins at an opening one. -/
def balancedFrom (opening closing : Char) : Nat → Quoting → Text → Option Text
  | _, _, [] => none
  | depth, .outside, c :: rest =>
    if c = '"' then (balancedFrom opening closing depth .string rest).map (c :: ·)
    else if c = opening then (balancedFrom opening closing (depth + 1) .outside rest).map (c :: ·)
    else if c = closing then
      if depth - 1 = 0 then some []
      else (balancedFrom opening closing (depth - 1) .outside rest).map (c :: ·)
    else (balancedFrom opening closing depth .outside rest).map (c :: ·)
  | depth, quoting, c :: rest =>
    (balancedFrom opening closing depth (quoting.inString c) rest).map (c :: ·)

/-- The text between the first `opening` and its matching `closing`. -/
def balanced (text : Text) (opening closing : Char) : Option Text :=
  (balancedFrom opening closing 0 .outside (text.dropWhile (· ≠ opening))).map List.tail

/-- Every group at the top nesting level. The scan resumes past the closing bracket. -/
def topLevelGroups (text : Text) (opening closing : Char) : List Text :=
  match _h : text.dropWhile (· ≠ opening) with
  | [] => []
  | c :: rest =>
    match balanced (c :: rest) opening closing with
    | none => []
    | some group =>
      group :: topLevelGroups ((c :: rest).drop (1 + group.length + 1)) opening closing
termination_by text.length
decreasing_by
  have := (List.dropWhile_suffix (l := text) (· ≠ opening)).length_le
  simp_all only [List.length_cons, List.length_drop]
  omega

/-- A character put before the first part. -/
def beforePart (c : Char) : List Text → List Text
  | [] => [[c]]
  | part :: parts => (c :: part) :: parts

/-- The parts between separators at depth zero, outside of strings. -/
def topLevelSplitFrom (separator : Char) : Nat → Quoting → Text → List Text
  | _, _, [] => [[]]
  | depth, .outside, c :: rest =>
    if c = '"' then beforePart c (topLevelSplitFrom separator depth .string rest)
    else if c = '(' ∨ c = '[' ∨ c = '{' then
      beforePart c (topLevelSplitFrom separator (depth + 1) .outside rest)
    else if c = ')' ∨ c = ']' ∨ c = '}' then
      beforePart c (topLevelSplitFrom separator (depth - 1) .outside rest)
    else if c = separator ∧ depth = 0 then [] :: topLevelSplitFrom separator depth .outside rest
    else beforePart c (topLevelSplitFrom separator depth .outside rest)
  | depth, quoting, c :: rest =>
    beforePart c (topLevelSplitFrom separator depth (quoting.inString c) rest)

def topLevelSplit (text : Text) (separator : Char) : List Text :=
  topLevelSplitFrom separator 0 .outside text

/-! ### Values -/

/-- The string up to its closing quote, with its escapes read. -/
def unquoted : Text → Text
  | [] => []
  | '"' :: _ => []
  | '\\' :: 'n' :: rest => '\n' :: unquoted rest
  | '\\' :: 't' :: rest => '\t' :: unquoted rest
  | '\\' :: other :: rest => other :: unquoted rest
  | ['\\'] => []
  | other :: rest => other :: unquoted rest

def unquote (value : Text) : Text :=
  match value with
  | '"' :: rest => unquoted rest
  | _ => value

/-- `str::parse::<i64>`: digits, after a minus sign or not, of a value in range. -/
def parseI64 (text : Text) : Option Int64 :=
  let negative := text.head? = some '-'
  let digits := if negative then text.tail else text
  let magnitude : Int := Nat.ofDigitChars 10 digits 0
  let value := if negative then -magnitude else magnitude
  if digits ≠ [] ∧ digits.all Char.isDigit ∧ -2 ^ 63 ≤ value ∧ value < 2 ^ 63 then
    some (Int64.ofInt value)
  else none

def leadingInteger (value : Text) : Int64 :=
  (parseI64 (value.takeWhile fun c => c.isDigit || c == '-')).getD 0

/-- `loc("model.mlir":42:7)` is `model.mlir:42:7`. -/
def formatLocation (text : Text) : Text :=
  match splitOnce ['"'] text with
  | none => "unknown".toList
  | some (_, rest) =>
    match splitOnce ['"'] rest with
    | none => "unknown".toList
    | some (file, after) =>
      match trimStart after with
      | ':' :: numbers =>
        let digits := numbers.takeWhile fun c => c.isDigit || c == ':'
        if digits = [] then file else file ++ ':' :: digits
      | _ => file

/-- The first `@name` or `@"name"`, without the `@` or quotes. -/
def symbolName (alphanumeric : Alphanumeric) (text : Text) : Option Text :=
  match splitOnce ['@'] text with
  | none => none
  | some (_, '"' :: quoted) => (splitOnce ['"'] quoted).map Prod.fst
  | some (_, rest) => some (rest.takeWhile fun c => alphanumeric.holds c || c ∈ ['_', '$', '.'])

/-! ### The module -/

/-- The location a line gives a name, with the name. -/
def locationAlias (line : Text) : Option (Text × Text) :=
  match trimStart line with
  | '#' :: rest =>
    match splitOnce " = ".toList rest with
    | none => none
    | some (name, body) =>
      if ¬ "loc".toList <+: name ∨ ¬ "loc(".toList <+: body then none
      else some ('#' :: name, formatLocation body)
  | _ => none

/-- The map of the aliases. The last definition of a name stands, and comes first. -/
def locationAliases (irText : Text) : List (Text × Text) :=
  ((lines irText).filterMap locationAlias).reverse

/-- The value of a known key. Others are skipped. -/
def assignField (aliases : List (Text × Text)) (decision : Decision) (key : String) (value : Text) :
    Decision :=
  match key with
  | "kind" => { decision with kind := unquote value }
  | "layout" => { decision with layout := unquote value }
  | "shape" => { decision with shape := unquote value }
  | "precision" => { decision with precision := unquote value }
  | "decision" => { decision with decision := unquote value }
  | "status" => { decision with status := unquote value }
  | "limit" => { decision with limit := unquote value }
  | "detail" => { decision with detail := unquote value }
  | "jobs" => { decision with jobs := leadingInteger value }
  | "columns" => { decision with columns := leadingInteger value }
  | "loc" =>
    { decision with
      location :=
        if value.head? = some '#' then (aliases.lookup value).getD value
        else formatLocation value }
  | _ => decision

/-- One field of a dictionary, `key = value`. -/
def parseField (aliases : List (Text × Text)) (decision : Decision) (field : Text) : Decision :=
  match splitOnce " = ".toList field with
  | none => decision
  | some (key, value) =>
    assignField aliases decision (String.ofList (trim isWhitespace key)) (trim isWhitespace value)

def parseDecision (function entry : Text) (aliases : List (Text × Text)) : Decision :=
  (topLevelSplit entry ',').foldl (parseField aliases) { function }

def decisionsAttr : Text := "rocket.plan_decisions = ".toList

/-- The dictionaries after the attribute's name in a line, and the text before it. -/
def plannedGroups (line : Text) : Option (Text × List Text) :=
  match splitOnce decisionsAttr line with
  | none => none
  | some (before, after) =>
    match balanced after '[' ']' with
    | none => none
    | some array => some (before, topLevelGroups array '{' '}')

/-- What one line adds to the record. -/
def lineDecisions (alphanumeric : Alphanumeric) (aliases : List (Text × Text)) (line : Text) :
    List Decision :=
  match plannedGroups line with
  | none => []
  | some (before, groups) =>
    groups.map fun entry =>
      parseDecision ((symbolName alphanumeric before).getD []) entry aliases

/-- `DecisionRecord::scan`: every attribute of the text, in order. -/
def scan (alphanumeric : Alphanumeric) (irText : Text) : List Decision :=
  (lines irText).flatMap (lineDecisions alphanumeric (locationAliases irText))

end IreeRocket.Compiler
