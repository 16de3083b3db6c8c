import SchemaAccessors.CommandLine.Likeness
import SchemaAccessors.Render.Language

/-!
# The command line

Options may stand anywhere among the operands, up to a double dash. A long option is a word behind two dashes,
with its value behind an equals sign or in the next argument. Short options are single characters, several of
them behind one dash; the value of one is the rest of the argument, or the next argument.
-/

namespace SchemaAccessors.CommandLine

inductive OptionName
  | name
  | config
  | language
  | package
  | format
  | force
  | verbose
  | help
deriving DecidableEq, Repr

namespace OptionName

def all : List OptionName := [name, config, language, package, format, force, verbose, help]

def long : OptionName → String
  | name => "--name"
  | config => "--config"
  | language => "--language"
  | package => "--package"
  | format => "--format"
  | force => "--force"
  | verbose => "--verbose"
  | help => "--help"

def short? : OptionName → Option Char
  | name => some 'n'
  | config => some 'c'
  | language => some 'l'
  | package => some 'p'
  | force => some 'f'
  | verbose => some 'v'
  | format | help => none

def takesValue : OptionName → Bool
  | name | config | language | package => true
  | format | force | verbose | help => false

/-- The option of a word, dashes included. -/
def ofLong? (word : String) : Option OptionName :=
  all.find? (·.long = word)

def ofShort? (c : Char) : Option OptionName :=
  all.find? (·.short? = some c)

theorem ofLong?_long (o : OptionName) : ofLong? o.long = some o := by
  cases o <;> decide

theorem long_of_ofLong? {word : String} {o : OptionName} (h : ofLong? word = some o) : o.long = word := by
  simpa using List.find?_some h

end OptionName

/-- A way to give arguments that the command does not admit. -/
inductive UsageError
  | unknownOption (word : String) (similar : List String)
  | missingValue (word : String)
  | unwantedValue (word : String)
  | missingOperand (name : String)
  /-- A path leads to nothing, or to a directory where a file is wanted. -/
  | missingPath (parameter noun path : String)
  | directoryPath (parameter noun path : String)
  | unknownLanguage (word : String)
  | extraOperands (words : List String)

/-- What the arguments say: the options in order, each with its value, and the operands. -/
structure Arguments where
  options : List (OptionName × String)
  operands : List String

/-! ## Reading arguments -/

/-- Reads the short options of one argument. An option that the argument ends with and that takes a value waits
for it. -/
def cluster : List Char → Except UsageError (List (OptionName × String) × Option (String × OptionName))
  | [] => .ok ([], none)
  | c :: rest =>
    let word := String.ofList ['-', c]
    match OptionName.ofShort? c with
    | none => .error (.unknownOption word [])
    | some o =>
      if !o.takesValue then do
        let (options, waiting) ← cluster rest
        return ((o, "") :: options, waiting)
      else if rest.isEmpty then .ok ([], some (word, o))
      else .ok ([(o, String.ofList rest)], none)

/-- The word of an argument before its first equals sign, and the value behind it. -/
def splitValue (arg : String) : String × Option String :=
  match arg.toList.dropWhile (· ≠ '=') with
  | _ :: value => (String.ofList (arg.toList.takeWhile (· ≠ '=')), some (String.ofList value))
  | [] => (arg, none)

/-- Reads the options of one argument. -/
def optionsIn (arg : String) :
    Except UsageError (List (OptionName × String) × Option (String × OptionName)) :=
  match arg.toList with
  | '-' :: '-' :: _ =>
    let (word, value?) := splitValue arg
    match OptionName.ofLong? word, value? with
    | none, _ => .error (.unknownOption word (Likeness.closest word (OptionName.all.map OptionName.long)))
    | some o, none => .ok (if o.takesValue then ([], some (word, o)) else ([(o, "")], none))
    | some o, some value => if o.takesValue then .ok ([(o, value)], none) else .error (.unwantedValue word)
  | chars => cluster chars.tail

/-- Whether an argument holds options. A single dash is an operand. -/
def holdsOptions (arg : String) : Bool :=
  match arg.toList with
  | '-' :: _ :: _ => true
  | _ => false

/-- Reads arguments. -/
def Arguments.read : List String → Except UsageError Arguments
  | [] => .ok ⟨[], []⟩
  | arg :: rest =>
    if arg = "--" then .ok ⟨[], rest⟩
    else if !holdsOptions arg then do
      let others ← read rest
      return { others with operands := arg :: others.operands }
    else do
      let (options, waiting) ← optionsIn arg
      match waiting, rest with
      | none, rest =>
        let others ← read rest
        return { others with options := options ++ others.options }
      | some (word, _), [] => throw (.missingValue word)
      | some (_, o), value :: rest =>
        let others ← read rest
        return { others with options := options ++ [(o, value)] ++ others.options }

namespace Arguments

/-- The options that are given, each once, in the order in which they come up. -/
def given (a : Arguments) : List OptionName :=
  (a.options.map (·.1)).eraseDups

/-- The last value of an option. -/
def value? (a : Arguments) (o : OptionName) : Option String :=
  (a.options.findRev? (·.1 = o)).map (·.2)

def has (a : Arguments) (o : OptionName) : Bool :=
  (a.value? o).isSome

end Arguments

end SchemaAccessors.CommandLine
