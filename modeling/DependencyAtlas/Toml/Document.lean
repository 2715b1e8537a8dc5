import DependencyAtlas.Toml.Error
import DependencyAtlas.Toml.Moment
import DependencyAtlas.Toml.Number
import DependencyAtlas.Toml.Text

/-!
# Documents of TOML

A document is a sequence of lines: blanks, comments, headers of tables, and keys with their values.
Reading one yields the table of its root.
-/

namespace DependencyAtlas.Toml

open Reader

def spaces : Reader Unit := do
  let _ ← takeWhile isSpace

def lineEnd : Reader Unit := fun cs =>
  match cs with
  | [] => .ok ((), [])
  | cs =>
    match newline? cs with
    | some rest => .ok ((), rest)
    | none => stop {} cs

def comment : Reader Unit := do
  mark '#'
  let _ ← takeWhile isPlainChar

/-- Reads the rest of a line, on which only a comment may follow. -/
def restOfLine : Reader Unit := expecting [.newline, .mark "#"] do
  spaces
  let _ ← optional comment
  lineEnd

/-- What follows a character that was come upon is shorter than the whole. -/
theorem length_of_dropWhile_eq {accept : Char → Bool} {cs rest : List Char} {c : Char}
    (h : cs.dropWhile accept = c :: rest) : rest.length < cs.length := by
  have hle := (List.dropWhile_sublist (l := cs) accept).length_le
  simp only [h, List.length_cons] at hle
  omega

/-- Reads spaces, line ends and comments inside a list. A comment ends with its line. -/
def skipBlanks (cs : List Char) : Except Stop (Unit × List Char) :=
  match _h : cs.dropWhile isSpace with
  | '#' :: text =>
    match _h' : text.dropWhile isPlainChar with
    | '\n' :: rest => skipBlanks rest
    | '\r' :: '\n' :: rest => skipBlanks rest
    | rest => stop {} (rest.drop 1)
  | '\n' :: rest => skipBlanks rest
  | '\r' :: '\n' :: rest => skipBlanks rest
  | '\r' :: rest => stop {} rest
  | rest => .ok ((), rest)
termination_by cs.length
decreasing_by
  all_goals
    have := length_of_dropWhile_eq _h
    try have := length_of_dropWhile_eq _h'
    grind

/-- The length of a document. A place in it is told from how much is still ahead. -/
structure Source where
  size : Nat

namespace Source

def place (s : Source) : Reader Nat := do
  return s.size - (← ahead).length

def spanned {α : Type} (s : Source) (r : Reader α) : Reader (α × Span) := do
  let start ← s.place
  let a ← r
  return (a, ⟨start, ← s.place⟩)

def bareKey : Reader (List Char) := do
  let first ← char isKeyChar
  let others ← takeWhile isKeyChar
  return first :: others

def keyPart (s : Source) : Reader Key := do
  spaces
  let (name, span) ← s.spanned (lineText <|> bareKey)
  spaces
  return ⟨String.ofList name, span⟩

/-- Keys and values nest less deeply than this. -/
def depthLimit : Nat := 80

def key (s : Source) : Reader (List Key × Key) :=
  let parts := named .key (separatedOnce s.keyPart (mark '.'))
  check parts fun ks =>
    if depthLimit ≤ ks.length then .error { cause := some .tooDeep }
    else
      match ks.reverse with
      | last :: path => .ok (path.reverse, last)
      | [] => .error {}

def listItem (item : Reader Literal) : Reader Unit := do
  skipBlanks
  let _ ← item
  skipBlanks

def listItems (item : Reader Literal) : Reader Unit := do
  match ← ahead with
  | ']' :: _ => return
  | _ =>
    let items ← separated (listItem item) (mark ',')
    if !items.isEmpty then
      let _ ← optional (mark ',')
    skipBlanks

def list (item : Reader Literal) : Reader Literal := do
  mark '['
  firmly (listItems item)
  firmly (expecting [.mark "]"] (named .list (mark ']')))
  return .list

structure Setting where
  path : List Key
  key : Key
  value : Item

def setting (s : Source) (literal : Reader Literal) : Reader Setting := do
  let (path, k) ← s.key
  firmly do
    expecting [.mark ".", .mark "="] (mark '=')
    spaces
    let (l, span) ← s.spanned literal
    return ⟨path, k, .value l span⟩

/-- Whether settings go together in one inline table. -/
def checkSettings (settings : List Setting) : Except Conflict Unit := do
  let _ ← settings.foldlM (fun table e => table.assign .inlineTable e.path e.key e.value)
    (Item.emptyTable .header none)

def inlineSettings (s : Source) (literal : Reader Literal) : Reader Unit :=
  let settings : Reader (List Setting) := do
    let found ← separated (do let e ← s.setting literal; spaces; return e) (mark ',')
    spaces
    return found
  check settings fun es => (checkSettings es).mapError fun c => { cause := some (.conflict c) }

def inlineTable (s : Source) (literal : Reader Literal) : Reader Literal := do
  mark '\x7b'
  firmly (s.inlineSettings literal)
  firmly (expecting [.mark "\x7d"] (named .inlineTable (mark '\x7d')))
  return .inlineTable

def number : Reader Literal :=
  (do moment; return .moment) <|> Literal.floating <$> float <|> Literal.integer <$> integer

/-- Reads a value that is a word. Any other word is most likely a string without its quotes. -/
def plainWord {α : Type} (r : Reader α) : Reader α :=
  expecting [.mark "\"", .mark "'"] (named .word r)

/-- Reads a value in which values nest, if they may. -/
def literalOver (s : Source) (inner : Option (Reader Literal)) : Reader Literal := do
  let nested (read : Reader Literal → Reader Literal) : Reader Literal :=
    match inner with
    | some inner => read inner
    | none => firmly (stop { cause := some .tooDeep })
  match ← ahead with
  | [] => stop {}
  | c :: _ =>
    if c == '"' || c == '\'' then return .text (String.ofList (← quotedText))
    else if c == '[' then nested list
    else if c == '\x7b' then nested s.inlineTable
    else if c == '+' || c == '-' || c.isDigit then number
    else if c == '_' then expecting [.leadingDigit] (Literal.integer <$> integer)
    else if c == '.' then expecting [.leadingDigit] (Literal.floating <$> float)
    else plainWord do
      match c with
      | 't' => do firmly (word ['t', 'r', 'u', 'e']); return .boolean true
      | 'f' => do firmly (word ['f', 'a', 'l', 's', 'e']); return .boolean false
      | 'i' => do word ['i', 'n', 'f']; return .floating (1.0 / 0.0)
      | 'n' => do word ['n', 'a', 'n']; return .floating (0.0 / 0.0)
      | _ => stop {}

/-- Reads a value, with lists and inline tables up to a depth inside. -/
def literal (s : Source) : Nat → Reader Literal
  | 0 => s.literalOver none
  | depth + 1 => s.literalOver (some (s.literal depth))

/-- What the lines so far have built: the root table, and the header under which keys stand. -/
structure Progress where
  root : Item := .emptyTable .header none
  header : List Key := []

def headerLine (s : Source) (opening closing : List Char) : Reader ((List Key × Key) × Span) := do
  let brackets : Reader (List Key × Key) := do
    word opening
    let k ← s.key
    expecting [.mark ".", .mark (String.ofList closing)] (word closing)
    return k
  let found ← s.spanned brackets
  restOfLine
  return found

def header (s : Source) (p : Progress) : Reader Progress :=
  let enter (line : Reader ((List Key × Key) × Span))
      (change : List Key → Key → Span → Item → Except Conflict Item) : Reader Progress :=
    check line fun ((path, k), span) =>
      match change path k span p.root with
      | .ok root => .ok ⟨root, path ++ [k]⟩
      | .error c => .error { cause := some (.conflict c) }
  named .header do
    match ← ahead with
    | '[' :: '[' :: _ => enter (s.headerLine ['[', '['] [']', ']']) Item.openNextTable
    | ['['] => stop {}
    | _ => enter (s.headerLine ['['] [']']) Item.openTable

def settingLine (s : Source) (p : Progress) : Reader Progress :=
  let line : Reader Setting := do
    let e ← s.setting (s.literal (depthLimit - 1))
    restOfLine
    return e
  check line fun e =>
    match p.root.assignUnder p.header e.path e.key e.value with
    | .ok root => .ok { p with root := root }
    | .error c => .error { cause := some (.conflict c) }

def line (s : Source) (p : Progress) : Reader Progress := do
  match ← ahead with
  | '#' :: _ => do comment; lineEnd; return p
  | '\n' :: _ => do lineEnd; return p
  | '\r' :: _ => do lineEnd; return p
  | '[' :: _ => s.header p
  | _ => s.settingLine p

def lines (s : Source) : Nat → Progress → Reader Item
  | 0, _ => stop {}
  | fuel + 1, p => do
    spaces
    if (← ahead).isEmpty then return p.root
    s.lines fuel (← s.line p)

end Source

/-- A mark that texts may start with. -/
def skipMark : List Char → List Char
  | '\ufeff' :: cs => cs
  | cs => cs

def errorAt (document : List Char) (fault : Fault) (span : Span) : Error :=
  ⟨fault, .of document span⟩

def Stop.toError (document : List Char) (s : Stop) : Error :=
  let start := document.length - s.ahead
  errorAt document s.fault ⟨start, start + 1⟩

/-- The entries of the root table of a document, in the order in which they first appear. -/
def read (document : List Char) : Except Error (List (Key × Item)) :=
  let source : Source := ⟨document.length⟩
  match source.lines (document.length + 1) {} (skipMark document) with
  | .ok (root, _) => .ok root.entries
  | .error stop => .error (stop.toError document)

end DependencyAtlas.Toml
