import Bailout.Toml.Number

/-!
# Reading TOML

From text to the table it denotes, or nothing if the text is malformed. Loops are bounded by the length
of the text and values nest to a fixed depth, so every reader is total.
-/

namespace Bailout.Toml

/-- A reader takes characters off the front, or fails. -/
abbrev Reader := StateT (List Char) Option

namespace Reader

def fail {α : Type} : Reader α := fun _ => none

def peek? : Reader (Option Char) := fun cs => some (cs.head?, cs)

def next : Reader Char
  | [] => none
  | c :: cs => some (c, cs)

/-- Takes this character. -/
def char (c : Char) : Reader Unit := do
  if (← next) ≠ c then fail

/-- Takes this text if it comes next. -/
def accept (text : String) : Reader Bool := fun cs =>
  if text.toList.isPrefixOf cs then some (true, cs.drop text.length) else some (false, cs)

def takeWhile (p : Char → Bool) : Reader (List Char) := fun cs =>
  some (cs.takeWhile p, cs.dropWhile p)

def isEnd : Reader Bool := fun cs => some (cs.isEmpty, cs)

/-! ## Blanks -/

def isBlank (c : Char) : Bool := c == ' ' || c == '\t'

/-- A control character other than a tab, a line break included. -/
def isControl (c : Char) : Bool := (c.toNat < 32 && c != '\t') || c.toNat == 127

def blanks : Reader Unit := do
  let _ ← takeWhile isBlank

/-- Takes a line break if one comes next. -/
def lineBreak : Reader Bool := do
  if ← accept "\n" then return true
  accept "\x0d\n"

/-- Takes a comment if one comes next, up to the end of the line. -/
def comment : Reader Unit := do
  if ← accept "#" then
    let _ ← takeWhile fun c => !isControl c

/-- The rest of a line: blanks, a comment, then a line break or the end. -/
def endOfLine : Reader Unit := do
  blanks
  comment
  if !(← isEnd) then
    if !(← lineBreak) then fail

/-- Blanks, comments and line breaks. -/
def gaps : Nat → Reader Unit
  | 0 => pure ()
  | fuel + 1 => do
    blanks
    match ← peek? with
    | some '#' =>
      endOfLine
      gaps fuel
    | some '\n' | some '\x0d' =>
      endOfLine
      gaps fuel
    | _ => pure ()

/-! ## Strings -/

/-- The character with this code, unless it is a surrogate or out of range. -/
def scalar (code : Nat) : Reader Char :=
  if h : code.isValidChar then pure (Char.ofNatAux code h) else fail

def hexDigits : Nat → Reader (List Char)
  | 0 => pure []
  | n + 1 => do
    let c ← next
    if isHexDigit c then return c :: (← hexDigits n) else fail

/-- What follows a backslash. -/
def escape : Reader Char := do
  match ← next with
  | 'b' => return '\x08'
  | 't' => return '\t'
  | 'n' => return '\n'
  | 'f' => return '\x0c'
  | 'r' => return '\x0d'
  | '"' => return '"'
  | '\\' => return '\\'
  | 'u' => scalar (runValue 16 (← hexDigits 4))
  | 'U' => scalar (runValue 16 (← hexDigits 8))
  | _ => fail

/-- The rest of a basic string on one line. -/
def basic : Nat → Reader (List Char)
  | 0 => fail
  | fuel + 1 => do
    match ← next with
    | '"' => return []
    | '\\' =>
      let c ← escape
      return c :: (← basic fuel)
    | c => if isControl c then fail else return c :: (← basic fuel)

/-- The rest of a literal string on one line. -/
def literal : Reader (List Char) := do
  let cs ← takeWhile fun c => c != '\'' && !isControl c
  char '\''
  return cs

/-- The quotes at the end of a string over several lines: three close it, one or two more belong to
it. -/
def closing (quote : Char) : Reader (Option (List Char)) := fun cs =>
  let n := (cs.takeWhile (· == quote)).length
  if 3 ≤ n then
    if n ≤ 5 then some (some (List.replicate (n - 3) quote), cs.drop n) else none
  else some (none, cs)

/-- Blanks and line breaks. -/
def blankLines : Nat → Reader Unit
  | 0 => pure ()
  | fuel + 1 => do
    blanks
    if ← lineBreak then blankLines fuel

/-- White space that a backslash at the end of a line swallows. -/
def swallow (fuel : Nat) : Reader Unit := do
  blanks
  if !(← lineBreak) then fail
  blankLines fuel

/-- The rest of a basic string over several lines. -/
def multiBasic : Nat → Reader (List Char)
  | 0 => fail
  | fuel + 1 => do
    if let some quotes ← closing '"' then return quotes
    if ← lineBreak then return '\n' :: (← multiBasic fuel)
    match ← next with
    | '\\' =>
      match ← peek? with
      | some ' ' | some '\t' | some '\n' | some '\x0d' =>
        swallow fuel
        multiBasic fuel
      | _ =>
        let c ← escape
        return c :: (← multiBasic fuel)
    | c => if isControl c then fail else return c :: (← multiBasic fuel)

/-- The rest of a literal string over several lines. -/
def multiLiteral : Nat → Reader (List Char)
  | 0 => fail
  | fuel + 1 => do
    if let some quotes ← closing '\'' then return quotes
    if ← lineBreak then return '\n' :: (← multiLiteral fuel)
    let c ← next
    if isControl c then fail else return c :: (← multiLiteral fuel)

/-- The characters of a quoted string. Three quotes open one over several lines if `multi` allows it; a
line break right after them does not count. -/
def quotedChars (multi : Bool) (fuel : Nat) : Reader (List Char) := fun cs =>
  let afterBreak (body : Reader (List Char)) : Reader (List Char) := do
    let _ ← lineBreak
    body
  match multi, cs with
  | true, '"' :: '"' :: '"' :: rest => afterBreak (multiBasic fuel) rest
  | true, '\'' :: '\'' :: '\'' :: rest => afterBreak (multiLiteral fuel) rest
  | _, '"' :: rest => basic fuel rest
  | _, '\'' :: rest => literal rest
  | _, _ => none

def quoted (multi : Bool) (fuel : Nat) : Reader String := String.ofList <$> quotedChars multi fuel

/-! ## Keys -/

def isBareKey (c : Char) : Bool := c.isAlphanum || c == '_' || c == '-'

def simpleKey (fuel : Nat) : Reader String := do
  match ← peek? with
  | some '"' | some '\'' => quoted false fuel
  | _ =>
    let cs ← takeWhile isBareKey
    if cs.isEmpty then fail else return String.ofList cs

/-- The bound on nesting, which values and the parts of a key stay below. -/
def maxDepth : Nat := 80

/-- Keys with dots between them; blanks around each are ignored. -/
def keyParts : Nat → Reader (List String)
  | 0 => fail
  | fuel + 1 => do
    blanks
    let k ← simpleKey fuel
    blanks
    if ← accept "." then return k :: (← keyParts fuel) else return [k]

/-- A dotted key. Each part but the last nests one table more. -/
def key (fuel : Nat) : Reader (List String) := do
  let parts ← keyParts fuel
  if parts.length < maxDepth then return parts else fail

/-! ## Values -/

/-- Characters of numbers, dates and times. -/
def isTokenChar (c : Char) : Bool :=
  c.isAlphanum || c == '+' || c == '-' || c == '.' || c == '_' || c == ':'

/-- A date may be followed by a blank and a time. -/
def token : Reader (List Char) := do
  let cs ← takeWhile isTokenChar
  fun rest =>
    match isDate cs, rest with
    | true, ' ' :: c :: more =>
      if c.isDigit then
        let time := (c :: more).takeWhile isTokenChar
        some (cs ++ ' ' :: time, (c :: more).dropWhile isTokenChar)
      else some (cs, rest)
    | _, _ => some (cs, rest)

mutual

/-- A value, with `depth` levels of nesting left. -/
def value (fuel depth : Nat) : Reader Toml :=
  match fuel with
  | 0 => fail
  | fuel + 1 => do
    match ← peek? with
    | some '"' | some '\'' => return .str (← quoted true fuel)
    | some '[' =>
      char '['
      if depth ≤ 1 then fail
      return .array (← items fuel (depth - 1))
    | some '{' =>
      char '{'
      if depth ≤ 1 then fail
      blanks
      if ← accept "\x7d" then return .table .inline []
      return .table .inline (← members fuel (depth - 1) [])
    | _ =>
      match scalar? (← token) with
      | some v => return v
      | none => fail

/-- The rest of an array. -/
def items (fuel depth : Nat) : Reader (List Toml) :=
  match fuel with
  | 0 => fail
  | fuel + 1 => do
    gaps fuel
    if ← accept "]" then return []
    let v ← value fuel depth
    gaps fuel
    if ← accept "," then return v :: (← items fuel depth)
    char ']'
    return [v]

/-- The rest of an inline table, after the entries read so far. -/
def members (fuel depth : Nat) (es : Entries) : Reader Entries :=
  match fuel with
  | 0 => fail
  | fuel + 1 => do
    let path ← key fuel
    char '='
    blanks
    let v ← value fuel depth
    blanks
    let es ← StateT.lift (es.insert v false false path)
    if ← accept "," then members fuel depth es
    else
      char '\x7d'
      return es

end

/-! ## Documents -/

/-- The tables so far, and the path of the one that is open. -/
structure Document where
  root : Entries := []
  current : List String := []

/-- A header in single or double brackets. -/
def header (fuel : Nat) (doc : Document) : Reader Document := do
  char '['
  let element ← accept "["
  let path ← key fuel
  char ']'
  if element then char ']'
  endOfLine
  match path.getLast? with
  | none => fail
  | some last =>
    let opened (es : Entries) := if element then es.openElement last else es.openTable last
    let root ← StateT.lift (doc.root.at_ path.dropLast opened)
    return ⟨root, path⟩

/-- A key with its value. -/
def keyValue (fuel : Nat) (doc : Document) : Reader Document := do
  let path ← key fuel
  char '='
  blanks
  let v ← value fuel maxDepth
  endOfLine
  let root ← StateT.lift (doc.root.at_ doc.current fun es => es.insert v false false path)
  return { doc with root }

/-- Line after line, to the end. -/
def lines (fuel : Nat) (doc : Document) : Reader Document :=
  match fuel with
  | 0 => fail
  | fuel + 1 => do
    blanks
    if ← isEnd then return doc
    match ← peek? with
    | some '#' | some '\n' | some '\x0d' =>
      endOfLine
      lines fuel doc
    | some '[' => lines fuel (← header fuel doc)
    | _ => lines fuel (← keyValue fuel doc)

end Reader

/-- The table a text denotes. A byte-order mark at the start is ignored. -/
def parse? (text : String) : Option Entries :=
  let cs := text.toList
  let cs := if cs.head? = some (Char.ofNat 0xFEFF) then cs.tail else cs
  (Reader.lines (cs.length + 2) {} cs).map (·.1.root)

end Bailout.Toml
