import DBVault.Scheduler.Cron
import DBVault.Text.Words

/-! The text of a cron schedule: five fields, each a list of values, ranges and steps. -/
namespace DBVault.Scheduling
open Text

/-- What Go makes of letters, and its `%q`. -/
structure Lexicon where
  /-- `unicode.ToUpper`. -/
  upper : Char → Char
  quote : List Char → String
  upper_ascii : ∀ c, c.toNat < 128 → upper c = c.toUpper

/-- `strings.Fields`. -/
def splitFields (text : List Char) : List (List Char) := (text.splitOnP isSpace).filter (· ≠ [])

def atoi : List Char → Option Int
  | '+' :: digits =>
    ((Json.natOfDigits digits).map fun (n : Nat) => (n : Int)).filter fun n => decide (Json.IsInt64 n)
  | chars => Json.parseInt chars

/-- A sum of Go's `int`s. -/
def wrap64 (n : Int) : Int := (n + 2 ^ 63) % 2 ^ 64 - 2 ^ 63

inductive CronField where
  | minute | hour | dom | month | dow
  deriving DecidableEq

namespace CronField

/-- `cronBounds`. -/
def bounds : CronField → Int × Int
  | .minute => (0, 59)
  | .hour => (0, 23)
  | .dom => (1, 31)
  | .month => (1, 12)
  | .dow => (0, 7)

def cronMonthNames : List (List Char × Int) :=
  [("JAN", 1), ("FEB", 2), ("MAR", 3), ("APR", 4), ("MAY", 5), ("JUN", 6), ("JUL", 7), ("AUG", 8),
    ("SEP", 9), ("OCT", 10), ("NOV", 11), ("DEC", 12)].map fun (name, n) => (String.toList name, n)

def cronDowNames : List (List Char × Int) :=
  [("SUN", 0), ("MON", 1), ("TUE", 2), ("WED", 3), ("THU", 4), ("FRI", 5), ("SAT", 6)].map
    fun (name, n) => (String.toList name, n)

/-- `cronFieldNames`. -/
def names : CronField → List (List Char × Int)
  | .month => cronMonthNames
  | .dow => cronDowNames
  | _ => []

end CronField

variable (lex : Lexicon)

def cronToken (tok : List Char) (names : List (List Char × Int)) : Option Int :=
  (names.lookup (tok.map lex.upper)).or (atoi tok)

structure CronPart where
  star : Bool
  (first last step : Int)
  deriving DecidableEq

def parseStep (part : List Char) : Result Int :=
  match part.dropWhile (· ≠ '/') with
  | [] => .ok 1
  | _ :: text =>
    match atoi text with
    | some s => if s ≤ 0 then .error (.other ("invalid step " ++ lex.quote part)) else .ok s
    | none => .error (.other ("invalid step " ++ lex.quote part))

/-- What stands before the slash: whether it is starred, and its first and last value. -/
def parseRange (field : CronField) (range : List Char) : Result (Bool × Int × Int) :=
  if range = ['*'] ∨ range = [] then .ok (true, field.bounds)
  else
    match range.dropWhile (· ≠ '-') with
    | _ :: text =>
      match cronToken lex (range.takeWhile (· ≠ '-')) field.names, cronToken lex text field.names with
      | some a, some b => .ok (false, a, b)
      | _, _ => .error (.other ("invalid range " ++ lex.quote range))
    | [] =>
      match cronToken lex range field.names with
      | some v => .ok (false, v, v)
      | none => .error (.other ("invalid value " ++ lex.quote range))

def parsePart (field : CronField) (part : List Char) : Result CronPart := do
  let step ← parseStep lex part
  let range := part.takeWhile (· ≠ '/')
  let (star, first, last) ← parseRange lex field range
  let (lo, hi) := field.bounds
  if first < lo ∨ last > hi ∨ first > last then
    .error (.other ("value " ++ lex.quote range ++ " out of range [" ++ toString lo ++ "," ++
      toString hi ++ "]"))
  else .ok ⟨star, first, last, step⟩

def visit (step last : Int) : Nat → Int → List Int
  | 0, _ => []
  | fuel + 1, v => if v ≤ last then v :: visit step last fuel (wrap64 (v + step)) else []

def CronPart.values (p : CronPart) : List Int := visit p.step p.last 128 p.first

def addNew (out : List Int) (values : List Int) : List Int :=
  values.foldl (fun out v => if v ∈ out then out else out ++ [v]) out

def insertInt (v : Int) : List Int → List Int
  | [] => [v]
  | head :: rest => if v < head then v :: head :: rest else head :: insertInt v rest

def sortInts (vals : List Int) : List Int := vals.foldl (fun sorted v => insertInt v sorted) []

def parseCronField (field : CronField) (text : List Char) : Result (List Int × Bool) := do
  let (out, star) ← (text.splitOn ',').foldlM (fun (out, star) part => do
    let p ← parsePart lex field part
    pure (addNew out p.values, star || p.star)) ([], false)
  if out = [] then .error (.other ("empty field " ++ lex.quote text)) else .ok (sortInts out, star)

def inField (number : Nat) (spec : List Char) {α : Type} : Result α → Result α
  | .ok value => .ok value
  | .error err => .error (.other
      ("cron field " ++ toString number ++ " in " ++ lex.quote spec ++ ": " ++ err.text))

/-- `parseCron`. Sunday is also the seventh day, and starred days are no restriction. -/
def parseCron (spec : List Char) : Result CronExpr :=
  match splitFields (trimSpace (String.ofList spec)).toList with
  | [minute, hour, dom, month, dow] => do
    let (minutes, _) ← inField lex 1 spec (parseCronField lex .minute minute)
    let (hours, _) ← inField lex 2 spec (parseCronField lex .hour hour)
    let (doms, domStar) ← inField lex 3 spec (parseCronField lex .dom dom)
    let (months, _) ← inField lex 4 spec (parseCronField lex .month month)
    let (dows, dowStar) ← inField lex 5 spec (parseCronField lex .dow dow)
    let dows := dows.map fun v => if v = 7 then 0 else v
    .ok ⟨minutes, hours, if domStar then none else some doms, months,
      if dowStar then none else some dows⟩
  | _ => .error (.other ("cron expression " ++ lex.quote spec ++ " must have exactly 5 fields"))

end DBVault.Scheduling
