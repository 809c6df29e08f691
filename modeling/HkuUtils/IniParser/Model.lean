import HkuUtils.Fallible
import HkuUtils.Http
import HkuUtils.NestedMap
import HkuUtils.Search
import HkuUtils.Strings.Trim

set_option relaxedAutoImplicit false
set_option autoImplicit false

/-!
# The parser of configuration files

`IniParser` keeps a map from section names to options and adds to it what it reads from a file. A
file is read line by line with the name of the section in force; lines in error are noted with
their numbers, and the exception is thrown when the file has been read.

## Main definitions

* `IniParser.lines` — the lines that `std::getline` gives.
* `IniParser.iteration`, `loop`, `read` — the function `read`.
* `IniParser.classify` — what is on a line, whatever stands before it.

## Main results

* `IniParser.iteration_eq` — an iteration depends on what is on its line and on the section.
-/

open Http (decimal)
open Search (text)
open Strings (trim)

namespace IniParser

/-- `m_sections`, with the sections and the options that it maps them to. -/
abbrev Sections := NestedMap (List UInt8) (List UInt8) (List UInt8)

/-- The errors noted while a file is read: `m_info` of `ParsingError`, line by line. -/
abbrev ParsingError := List (ℕ × List UInt8)

/-- `ParsingError::haveError`. -/
def ParsingError.haveError (es : ParsingError) : Bool := !es.isEmpty

/-- `ParsingError::str`. -/
def ParsingError.str (es : ParsingError) : List UInt8 :=
  es.flatMap fun e => text "\n\t[line " ++ decimal e.1 ++ text "] " ++ e.2

/-- The exceptions of `read`. -/
inductive Fault where
  | invalidArgument (what : List UInt8)
  | logicError (errors : ParsingError)
  | outOfRange
  deriving DecidableEq

/-- The text that a `logic_error` carries. -/
def Fault.what : Fault → List UInt8
  | invalidArgument what => what
  | logicError errors => errors.str
  | outOfRange => text "basic_string::at"

/-- The lines that `std::getline` gives one after another. A text that ends with a line feed has no
further line behind it. -/
def lines : List UInt8 → List (List UInt8)
  | [] => []
  | c :: s =>
    if c = 10 then [] :: lines s
    else match lines s with
      | [] => [[c]]
      | l :: ls => (c :: l) :: ls

/-- The local variables of `read`, and the map that it writes to. -/
structure Reader where
  lineNo : ℕ
  errors : ParsingError
  section_ : List UInt8
  sections : Sections

/-- `parsing_error.append(line_no, line)`. -/
def Reader.append (r : Reader) (line : List UInt8) : Reader :=
  { r with errors := r.errors ++ [(r.lineNo, line)] }

/-- How an iteration of the loop ends. -/
inductive Flow where
  | goOn (r : Reader)
  | stop (r : Reader)
  | raise (r : Reader)

/-- The iteration on a line that begins with `[`. -/
def sectionLine (line : List UInt8) (r : Reader) : Flow :=
  if line.getLast? ≠ some 93 then .goOn (r.append line)
  else
    let name := trim ((line.drop 1).take (line.length - 2))
    let r := { r with section_ := name }
    if name = [] then .goOn (r.append line)
    else .goOn { r with sections := r.sections.enter name }

/-- The iteration on any other line. A line without a key, a value or the sign between them is
noted as an error; one in front of all headers ends the loop. -/
def optionLine (line : List UInt8) (r : Reader) : Flow :=
  if r.section_ = [] then .stop (r.append (text "Missing section header!"))
  else match line.idxOf? 61 with
    | none => .goOn (r.append line)
    | some pos =>
      if pos = line.length - 1 then .goOn (r.append line)
      else
        let key := trim (line.take pos)
        if key = [] then .goOn (r.append line)
        else
          let value := trim (line.drop (pos + 1))
          if value = [] then .goOn (r.append line)
          else .goOn { r with sections := r.sections.assign r.section_ key value }

/-- The content of a line: nothing if it is empty or a comment, else the line without the comment
behind it. -/
def content (line : List UInt8) : Option (List UInt8) :=
  let line := trim line
  if line = [] ∨ line.head? = some 59 then none
  else match line.idxOf? 59 with
    | none => some line
    | some pos => some (trim (line.take pos))

/-- An iteration of the loop of `read`. On a line of which the comment leaves nothing `at(0)`
throws. -/
def iteration (line : List UInt8) (r : Reader) : Flow :=
  let r := { r with lineNo := r.lineNo + 1 }
  match content line with
  | none => .goOn r
  | some [] => .raise r
  | some (c :: s) => if c = 91 then sectionLine (c :: s) r else optionLine (c :: s) r

/-- The loop of `read`; an exception is the result `error`. -/
def loop : List (List UInt8) → Reader → Except Reader Reader
  | [], r => .ok r
  | line :: ls, r =>
    match iteration line r with
    | .goOn r => loop ls r
    | .stop r => .ok r
    | .raise r => .error r

/-- `IniParser::read`, given the bytes of the file if it can be opened. What has been stored before
an exception stays. -/
def read (filename : List UInt8) (inifile : Option (List UInt8)) : Fallible Sections Fault Unit :=
  fun m =>
    match inifile with
    | none => (.error (.invalidArgument (text "Can't read file(" ++ filename ++ text ")!")), m)
    | some bytes =>
      match loop (lines bytes) ⟨0, [], [], m⟩ with
      | .error r => (.error .outOfRange, r.sections)
      | .ok r =>
        if r.errors.haveError then (.error (.logicError r.errors), r.sections)
        else (.ok (), r.sections)

/-! ## What is on a line -/

/-- What is on a line. -/
inductive Item where
  | blank
  | hollow
  | unended (line : List UInt8)
  | unnamed (line : List UInt8)
  | header (name : List UInt8)
  | malformed (line : List UInt8)
  | option (key value : List UInt8)
  deriving DecidableEq

/-- What is on a line that begins with `[`. -/
def classifySection (line : List UInt8) : Item :=
  if line.getLast? ≠ some 93 then .unended line
  else
    let name := trim ((line.drop 1).take (line.length - 2))
    if name = [] then .unnamed line else .header name

/-- What is on any other line. -/
def classifyOption (line : List UInt8) : Item :=
  match line.idxOf? 61 with
  | none => .malformed line
  | some pos =>
    if pos = line.length - 1 then .malformed line
    else if trim (line.take pos) = [] then .malformed line
    else if trim (line.drop (pos + 1)) = [] then .malformed line
    else .option (trim (line.take pos)) (trim (line.drop (pos + 1)))

/-- What is on a line, whatever stands before it. -/
def classify (line : List UInt8) : Item :=
  match content line with
  | none => .blank
  | some [] => .hollow
  | some (c :: s) => if c = 91 then classifySection (c :: s) else classifyOption (c :: s)

/-- The section in force behind a line, if the line is not the last one read. -/
def next (sec : List UInt8) : Item → Option (List UInt8)
  | .blank | .unended _ => some sec
  | .unnamed _ => some []
  | .header name => some name
  | .malformed _ | .option _ _ => if sec = [] then none else some sec
  | .hollow => none

/-- What is noted on a line in error. -/
def noted (sec : List UInt8) : Item → Option (List UInt8)
  | .unended line | .unnamed line => some line
  | .malformed line => if sec = [] then some (text "Missing section header!") else some line
  | .option _ _ => if sec = [] then some (text "Missing section header!") else none
  | .blank | .header _ | .hollow => none

/-- What a line writes to the map. -/
def stored (sec : List UInt8) : Item → List (NestedMap.Write (List UInt8) (List UInt8) (List UInt8))
  | .header name => [.enter name]
  | .option key value => if sec = [] then [] else [.assign sec key value]
  | .blank | .unended _ | .unnamed _ | .malformed _ | .hollow => []

/-- The state behind a line. -/
def Reader.after (r : Reader) (i : Item) : Reader where
  lineNo := r.lineNo + 1
  errors := r.errors ++ ((noted r.section_ i).map fun line => (r.lineNo + 1, line)).toList
  section_ := (next r.section_ i).getD r.section_
  sections := NestedMap.writes (stored r.section_ i) r.sections

/-- **An iteration depends on what is on its line and on the section in force.**

**Proof sketch.** By cases on what is left of the line without its comment, whether it begins with
a bracket, and whether there is a section yet. -/
theorem iteration_eq (line : List UInt8) (r : Reader) :
    iteration line r = if classify line = .hollow then .raise (r.after .hollow)
      else if (next r.section_ (classify line)).isSome then .goOn (r.after (classify line))
      else .stop (r.after (classify line)) := by
  unfold iteration classify
  match content line with
  | none => simp [Reader.after, next, noted, stored]
  | some [] => simp [Reader.after, next, noted, stored]
  | some (c :: s) =>
    by_cases hc : c = 91
    · simp only [hc, if_true, sectionLine, classifySection]
      split_ifs <;> simp_all [Reader.after, Reader.append, next, noted, stored, NestedMap.Write.run]
    · simp only [hc, if_false, optionLine, classifyOption]
      by_cases hsec : r.section_ = []
      · rw [if_pos hsec]
        split <;> (try split_ifs) <;>
          simp_all [Reader.after, Reader.append, next, noted, stored]
      · rw [if_neg hsec]
        split <;> (try split_ifs) <;>
          simp_all [Reader.after, Reader.append, next, noted, stored, NestedMap.Write.run]

end IniParser
