import DependencyAtlas.Toml.Fault

/-!
# Readers of TOML

A reader takes the characters ahead and yields what it has read and the characters behind it, or it
stops. A stop that is not final leaves it open that the same characters are something else; what has
begun firmly cannot be anything else.
-/

namespace DependencyAtlas.Toml

/-- Where a reader stops, told by how many characters are ahead, and why. -/
structure Stop where
  ahead : Nat
  fault : Fault := {}
  /-- Whether the characters cannot be anything else. -/
  final : Bool := false

/-- Reads from the characters ahead, and tells which of them are left. -/
def Reader (α : Type) : Type :=
  List Char → Except Stop (α × List Char)

namespace Reader

variable {α β : Type}

instance : Monad Reader where
  pure a := fun cs => .ok (a, cs)
  bind r f := fun cs =>
    match r cs with
    | .ok (a, rest) => f a rest
    | .error s => .error s

def stop (fault : Fault) : Reader α := fun cs =>
  .error { ahead := cs.length, fault := fault }

def firmly (r : Reader α) : Reader α := fun cs =>
  (r cs).mapError fun s => { s with final := true }

def named (c : Construct) (r : Reader α) : Reader α := fun cs =>
  (r cs).mapError fun s => { s with fault := s.fault.within c }

def expecting (expected : List Expected) (r : Reader α) : Reader α := fun cs =>
  (r cs).mapError fun s => { s with fault := s.fault.expecting expected }

/-- Checks what was read. What does not pass stops where it begins. -/
def check (r : Reader α) (f : α → Except Fault β) : Reader β := do
  let start ← fun cs => .ok (cs, cs)
  let a ← r
  match f a with
  | .ok b => return b
  | .error fault => fun _ => stop fault start

/-- Checks what was read. What does not pass stops firmly where it begins. -/
def require (r : Reader α) (f : α → Except Fault β) : Reader β := do
  let start ← fun cs => .ok (cs, cs)
  let a ← r
  match f a with
  | .ok b => return b
  | .error fault => fun _ => firmly (stop fault) start

/-- Reads the second where the first stops, unless that is final. -/
def orElse (first second : Reader α) : Reader α := fun cs =>
  match first cs with
  | .ok result => .ok result
  | .error s => if s.final then .error s else second cs

instance : OrElse (Reader α) where
  orElse first second := orElse first (second ())

def optional (r : Reader α) : Reader (Option α) :=
  some <$> r <|> pure none

/-- Reads on as long as a separator and something come. The fuel bounds their number. -/
def separatedRest (r : Reader α) (separator : Reader Unit) :
    Nat → List Char → Except Stop (List α × List Char)
  | 0, cs => .ok ([], cs)
  | fuel + 1, cs =>
    match (do separator; r : Reader α) cs with
    | .ok (a, rest) =>
      (separatedRest r separator fuel rest).map fun result => (a :: result.1, result.2)
    | .error s => if s.final then .error s else .ok ([], cs)

/-- Reads something at least once, and again behind each separator. A separator that nothing
follows is left ahead. -/
def separatedOnce (r : Reader α) (separator : Reader Unit) : Reader (List α) := do
  let first ← r
  let others ← fun cs => separatedRest r separator cs.length cs
  return first :: others

def separated (r : Reader α) (separator : Reader Unit) : Reader (List α) :=
  separatedOnce r separator <|> pure []

def ahead : Reader (List Char) := fun cs => .ok (cs, cs)

def char (accept : Char → Bool) : Reader Char := fun cs =>
  match cs with
  | c :: rest => if accept c then .ok (c, rest) else stop {} cs
  | [] => stop {} cs

def mark (c : Char) : Reader Unit := do
  let _ ← char (· == c)

def word (expected : List Char) : Reader Unit := fun cs =>
  if expected.isPrefixOf cs then .ok ((), cs.drop expected.length) else stop {} cs

def takeWhile (accept : Char → Bool) : Reader (List Char) := fun cs =>
  .ok (cs.takeWhile accept, cs.dropWhile accept)

end Reader

def prepend (c : Char) (result : Except Stop (List Char × List Char)) :
    Except Stop (List Char × List Char) :=
  result.map fun t => (c :: t.1, t.2)

end DependencyAtlas.Toml
