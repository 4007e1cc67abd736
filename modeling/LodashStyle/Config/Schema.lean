import LodashStyle.Json.Display
import LodashStyle.Text.Class

/-! # Checking values against a schema

A check turns a JSON value into a value of a type or into a list of issues.  Checks of the
members of an object run independently of each other: `both` keeps the issues of both of
its parts, in order.  An issue names the place inside the value, what is wrong there, and
the value that was refused.

Whole numbers are read leniently: from truth values, from floating point numbers without
a fraction, and from numerals in texts. -/

namespace LodashStyle.Schema

/-- One step from a value to a part of it. -/
inductive Step where
  | key (name : Text)
  | index (i : Nat)
  deriving DecidableEq, Repr

/-- The text of a step. -/
def Step.text : Step → Text
  | .key name => name
  | .index i => Text.ofNat i

/-- What is wrong with a value. -/
inductive Problem where
  | missing
  | unknownKey
  | notChoice (choices : List String)
  | notInteger
  | notNumeral
  | fraction
  | notFinite
  | tooLong
  | belowMinimum (minimum : Int)
  | notText
  | notList
  | notObject (what : String)
  | refused (reason : Text)
  deriving DecidableEq, Repr

/-- Choices in quotes, with commas and an `or` before the last. -/
def choiceText (choices : List String) : Text :=
  let quoted := choices.map fun c => Text.quoted (Text.ofString c)
  match quoted.reverse with
  | [] => []
  | [only] => only
  | last :: before => Text.join ", " before.reverse ++ (" or " : Text) ++ last

/-- The code of a problem. -/
def Problem.code : Problem → String
  | .missing => "missing"
  | .unknownKey => "extra_forbidden"
  | .notChoice _ => "enum"
  | .notInteger => "int_type"
  | .notNumeral => "int_parsing"
  | .fraction => "int_from_float"
  | .notFinite => "finite_number"
  | .tooLong => "int_parsing_size"
  | .belowMinimum _ => "greater_than_equal"
  | .notText => "string_type"
  | .notList => "frozen_set_type"
  | .notObject _ => "model_type"
  | .refused _ => "value_error"

/-- The wording of a problem. -/
def Problem.message : Problem → Text
  | .missing => "Field required"
  | .unknownKey => "Extra inputs are not permitted"
  | .notChoice choices => "Input should be " ++ choiceText choices
  | .notInteger => "Input should be a valid integer"
  | .notNumeral => "Input should be a valid integer, unable to parse string as an integer"
  | .fraction => "Input should be a valid integer, got a number with a fractional part"
  | .notFinite => "Input should be a finite number"
  | .tooLong => "Unable to parse input string as an integer, exceeded maximum size"
  | .belowMinimum minimum => "Input should be greater than or equal to " ++ Text.ofInt minimum
  | .notText => "Input should be a valid string"
  | .notList => "Input should be a valid frozenset"
  | .notObject what => "Input should be a valid dictionary or instance of " ++ (what : Text)
  | .refused reason => "Value error, " ++ reason

/-- A problem at a place, with the value found there. -/
structure Issue where
  place : List Step
  problem : Problem
  input : Json
  deriving Repr

/-- The issue as a message shows it, on two lines. -/
def Issue.text (issue : Issue) : Text :=
  Text.join "." (issue.place.map Step.text) ++ ("\n  " : Text) ++ issue.problem.message ++
    (" [type=" : Text) ++ (issue.problem.code : Text) ++ (", input_value=" : Text) ++
    Json.shorten issue.input.display ++ (", input_type=" : Text) ++
    (issue.input.kindWord : Text) ++ ("]" : Text)

/-- The outcome of a check. -/
abbrev Checked (α : Type) := Except (List Issue) α

/-- A single issue with a whole value. -/
def refuse {α : Type} (problem : Problem) (input : Json) : Checked α := .error [⟨[], problem, input⟩]

/-- The outcome of a check of the part of a value behind `step`. -/
def behind {α : Type} (step : Step) (checked : Checked α) : Checked α :=
  checked.mapError fun issues => issues.map fun i => { i with place := step :: i.place }

/-- Both of two outcomes; the issues of both, in order. -/
def both {α β : Type} (a : Checked α) (b : Checked β) : Checked (α × β) :=
  match a, b with
  | .ok x, .ok y => .ok (x, y)
  | .error i, .ok _ => .error i
  | .ok _, .error j => .error j
  | .error i, .error j => .error (i ++ j)

/-- The outcome of checking each item of a list, numbered from `i`. -/
def each {α : Type} (check : Json → Checked α) (i : Nat) : List Json → Checked (List α)
  | [] => .ok []
  | v :: rest => (both (behind (.index i) (check v)) (each check (i + 1) rest)).map fun (x, xs) => x :: xs

/-- The members of an object. -/
def object (what : String) : Json → Checked Json.Members
  | .object members => .ok members
  | v => refuse (.notObject what) v

/-- The member under a key, if it is there. -/
def optional {α : Type} (name : String) (check : Json → Checked α) (members : Json.Members) :
    Checked (Option α) :=
  match members.get? name with
  | none => .ok none
  | some v => behind (.key name) ((check v).map some)

/-- The member under a key that must be there. -/
def required {α : Type} (name : String) (check : Json → Checked α) (members : Json.Members) :
    Checked α :=
  match members.get? name with
  | none => .error [⟨[.key name], .missing, .object members⟩]
  | some v => behind (.key name) (check v)

/-- Refuses the members under keys other than the given ones. -/
def onlyKeys (names : List String) (members : Json.Members) : Checked Unit :=
  let known := names.map Text.ofString
  match members.filter fun (key, _) => !known.contains key with
  | [] => .ok ()
  | unknown => .error (unknown.map fun (key, v) => ⟨[.key key], .unknownKey, v⟩)

/-- A text. -/
def text : Json → Checked Text
  | .string t => .ok t
  | v => refuse .notText v

/-- A text or nothing. -/
def text? : Json → Checked (Option Text)
  | .null => .ok none
  | v => (text v).map some

/-- One of some named choices. -/
def choice {α : Type} (choices : List α) (name : α → String) (v : Json) : Checked α :=
  let found :=
    match v with
    | .string t => choices.find? fun c => decide (Text.ofString (name c) = t)
    | _ => none
  match found with
  | some c => .ok c
  | none => refuse (.notChoice (choices.map name)) v

/-- Digits with single underscores between them; `pending` holds when a digit must come. -/
def groupedDigits? (pending : Bool) (n : Nat) : Text → Option Nat
  | [] => if pending then none else some n
  | p :: rest =>
    match p with
    | .surrogate _ => none
    | .scalar c =>
      if c.isDigit then groupedDigits? false (n * 10 + (c.toNat - '0'.toNat)) rest
      else if c = '_' && !pending then groupedDigits? true n rest
      else none

/-- A numeral without a point and the zeros after it, if there is at least one. -/
def dropZeroFraction (t : Text) : Text :=
  let fraction := t.dropWhile fun p => !p.isChar '.'
  if 1 < fraction.length && fraction.tail.all (·.isChar '0') then
    t.takeWhile fun p => !p.isChar '.'
  else t

/-- White space around a numeral; the ASCII separators do not count. -/
def isBlank (p : CodePoint) : Bool := p.isSpace && !(0x1C ≤ p.val && p.val ≤ 0x1F)

/-- The whole number of a numeral: an optional sign, digits with single underscores between
    them, and an optional point with zeros after it, blanks around being ignored. -/
def numeral? (t : Text) : Option Int :=
  let body := ((t.dropWhile isBlank).reverse.dropWhile isBlank).reverse
  let digits := fun (rest : Text) => groupedDigits? true 0 (dropZeroFraction rest)
  match body with
  | [] => none
  | p :: rest =>
    if p.isChar '-' then (digits rest).map fun n => -(n : Int)
    else if p.isChar '+' then (digits rest).map fun n => (n : Int)
    else (digits body).map fun n => (n : Int)

/-- The whole number that a floating point number is. -/
def ofReal (input : Json) : Real64 → Checked Int
  | .nan => refuse .notFinite input
  | .infinite _ => refuse .notFinite input
  | .finite negative x =>
    let (num, den) := x.ratio
    if num % den ≠ 0 then refuse .fraction input
    else if 0x8000000000000000 ≤ num / den then refuse .tooLong input
    else .ok (if negative then -(num / den : Nat) else (num / den : Nat))

/-- A whole number. -/
def integer : Json → Checked Int
  | .int n => .ok n
  | .bool b => .ok (if b then 1 else 0)
  | .real x => ofReal (.real x) x
  | .string t =>
    if 4300 < t.length then refuse .tooLong (.string t)
    else
      match numeral? t with
      | some n => .ok n
      | none => refuse .notNumeral (.string t)
  | v => refuse .notInteger v

/-- A whole number that is not negative. -/
def natural (minimum : Nat) (v : Json) : Checked { n : Nat // minimum ≤ n } :=
  match integer v with
  | .error issues => .error issues
  | .ok n =>
    if h : minimum ≤ n.toNat ∧ 0 ≤ n then .ok ⟨n.toNat, h.1⟩
    else refuse (.belowMinimum minimum) v

end LodashStyle.Schema
