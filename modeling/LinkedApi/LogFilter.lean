import LinkedApi.Text.Digits
import LinkedApi.Text.Identifier
import LinkedApi.Text.Split
import LinkedApi.Text.Trim

/-!
# Filters of log lines

A filter is a list of directives between commas. Each gives the level from which on lines are
kept, for everything or for one target.
-/

namespace LinkedApi

inductive LogLevel where
  | off
  | error
  | warn
  | info
  | debug
  | trace
  deriving DecidableEq, Repr

namespace LogLevel

def all : List LogLevel := [.off, .error, .warn, .info, .debug, .trace]

def name : LogLevel → String
  | .off => "off"
  | .error => "error"
  | .warn => "warn"
  | .info => "info"
  | .debug => "debug"
  | .trace => "trace"

/-- How much a level lets through; it also names the level. -/
def rank (level : LogLevel) : Nat := all.idxOf level

private def ofNumber? (cs : List Char) : Option LogLevel :=
  let digits :=
    match cs with
    | '+' :: rest => rest
    | _ => cs
  if digits.all Text.isDigit then (Text.numeral? 10 digits).bind (all[·]?) else none

/-- The level of a name, in either case, or of a number. -/
def ofText? (cs : List Char) : Option LogLevel :=
  match ofNumber? cs with
  | some level => some level
  | none => all.find? fun level => level.name.toList == cs.map Char.toLower

end LogLevel

structure LogDirective where
  /-- What the directive is about, if not everything. -/
  target : Option String
  level : LogLevel
  deriving DecidableEq, Repr

namespace LogDirective

private def mayBegin (c : Char) : Bool :=
  Text.isIdentifierChar c && c ≠ '$' || c = '-' || c = ':' || 128 ≤ c.toNat

/-- The level after an equals sign; without one everything is kept. -/
private def levelOf? (cs : List Char) : Option LogLevel :=
  if cs.isEmpty then some .trace else LogLevel.ofText? cs

private def ofWord (cs : List Char) : LogDirective :=
  match LogLevel.ofText? cs with
  | some level => ⟨none, level⟩
  | none => ⟨some (String.ofList cs), .trace⟩

/-- A directive about a span of work, after its opening bracket. -/
private def ofSpan? (target : Option String) (cs : List Char) : Option LogDirective :=
  match Text.splitFirst? ']' cs with
  | some (_, []) => some ⟨target, .trace⟩
  | some (_, '=' :: level) => (levelOf? level).map (⟨target, ·⟩)
  | _ => none

def parse? (cs : List Char) : Option LogDirective :=
  match cs with
  | [] => none
  | '[' :: rest => ofSpan? none rest
  | c :: _ =>
    if mayBegin c then
      let word := cs.takeWhile fun c => c ≠ '=' && c ≠ '['
      match cs.drop word.length with
      | '=' :: level => (levelOf? level).map (⟨some (String.ofList word), ·⟩)
      | _ :: rest => ofSpan? (some (String.ofList word)) rest
      | [] => some (ofWord word)
    else none

end LogDirective

/-- What lines a log keeps. -/
structure LogFilter where
  directives : List LogDirective
  deriving DecidableEq, Repr

namespace LogFilter

/-- Reads a filter; empty directives do not count, and without any only errors are kept. -/
def parse? (text : String) : Option LogFilter := do
  let words := (Text.splitAt ',' text.toList).filter fun word => !word.isEmpty
  let directives ← words.mapM fun word => LogDirective.parse? (Text.trim word)
  return ⟨if directives.isEmpty then [⟨none, .error⟩] else directives⟩

/-- How closely a directive fits a target, if it does. -/
private def fit? (target : String) (d : LogDirective) : Option Nat :=
  match d.target with
  | none => some 0
  | some about => if target.startsWith about then some (about.length + 1) else none

/-- The level of the directive that fits a target most closely; of several the last. -/
def levelFor (f : LogFilter) (target : String) : LogLevel :=
  (f.directives.foldl (fun (best, level) d =>
    match fit? target d with
    | some fit => if best ≤ fit then (fit, d.level) else (best, level)
    | none => (best, level)) (0, LogLevel.off)).2

/-- Whether a line is kept. -/
def keeps (f : LogFilter) (target : String) (level : LogLevel) : Bool :=
  level.rank ≤ (f.levelFor target).rank

end LogFilter

end LinkedApi
