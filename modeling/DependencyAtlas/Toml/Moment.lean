import DependencyAtlas.Toml.Digits
import DependencyAtlas.Toml.Reader

/-!
# Dates and times of TOML

A date, a time of day, or a date with a time, to which an offset from universal time may belong.
Only their form and their ranges count here.
-/

namespace DependencyAtlas.Toml

open Reader

def boundedDigits (count low high : Nat) : Reader Nat :=
  let digits : Reader (List Char) := fun cs =>
    let ds := cs.take count
    if ds.length = count ∧ ds.all Char.isDigit then .ok (ds, cs.drop count) else stop {} cs
  check digits fun ds =>
    let n := numberOfDigits 10 ds
    if low ≤ n ∧ n ≤ high then .ok n else .error { cause := some .outOfRange }

def daysOfMonth (year month : Nat) : Nat :=
  if month = 2 then
    if year % 4 = 0 ∧ (year % 100 ≠ 0 ∨ year % 400 = 0) then 29 else 28
  else if month = 4 ∨ month = 6 ∨ month = 9 ∨ month = 11 then 30
  else 31

/-- Reads a date. A year and a hyphen begin nothing else. -/
def date : Reader Unit := do
  let year ← boundedDigits 4 0 9999
  mark '-'
  firmly do
    let month ← boundedDigits 2 1 12
    mark '-'
    let _ ← boundedDigits 2 1 (daysOfMonth year month)

def secondFraction : Reader Unit := do
  mark '.'
  let _ ← char Char.isDigit
  let _ ← takeWhile Char.isDigit

/-- Reads a time of day. An hour and a colon begin nothing else. -/
def timeOfDay : Reader Unit := do
  let _ ← boundedDigits 2 0 23
  mark ':'
  firmly do
    let _ ← boundedDigits 2 0 59
    mark ':'
    let _ ← boundedDigits 2 0 60
    let _ ← optional secondFraction

def offset : Reader Unit :=
  let universal : Reader Unit := do
    let _ ← char fun c => c == 'Z' || c == 'z'
  let distance : Reader Unit := do
    let _ ← char fun c => c == '+' || c == '-'
    firmly do
      let _ ← boundedDigits 2 0 23
      mark ':'
      let _ ← boundedDigits 2 0 59
  named .offset (universal <|> distance)

def timeOfDate : Reader Unit := do
  let _ ← char fun c => c == 'T' || c == 't' || c == ' '
  timeOfDay
  let _ ← optional offset

def moment : Reader Unit :=
  let dated : Reader Unit := do
    date
    let _ ← optional timeOfDate
  named .date dated <|> named .time timeOfDay

end DependencyAtlas.Toml
