import SchemaAccessors.CommandLine.Syntax

/-!
# Usage of the command

What the command says of itself when it is asked, and when its arguments are at fault. Texts are wrapped to
the width of a terminal.
-/

namespace SchemaAccessors.CommandLine

/-- The name of the command. -/
def commandName : String := "json-schema-types"

/-! ## Errors -/

def languageNames : List String :=
  Language.all.map Language.name

namespace UsageError

/-- How an unknown option ends that is like some others. -/
def suggestion : List String → String
  | [] => ""
  | [word] => s!" Did you mean {word}?"
  | words => " (Possible options: " ++ String.intercalate ", " words ++ ")"

def invalid (parameter text : String) : String :=
  s!"Invalid value for {parameter}: {text}"

/-- The wording of an error. -/
def message : UsageError → String
  | unknownOption word similar => s!"No such option: {word}{suggestion similar}"
  | missingValue word => s!"Option {Text.quoted word} requires an argument."
  | unwantedValue word => s!"Option {Text.quoted word} does not take a value."
  | missingOperand name => s!"Missing argument {Text.quoted name}."
  | missingPath parameter noun path => invalid parameter s!"{noun} {Text.quoted path} does not exist."
  | directoryPath parameter noun path => invalid parameter s!"{noun} {Text.quoted path} is a directory."
  | unknownLanguage word =>
    let names := String.intercalate ", " (languageNames.map Text.quoted)
    invalid (Text.quoted "--language" ++ " / " ++ Text.quoted "-l")
      s!"{Text.quoted word} is not one of {names}."
  | extraOperands [word] => s!"Got unexpected extra argument ({word})"
  | extraOperands words => "Got unexpected extra arguments (" ++ String.intercalate " " words ++ ")"

/-- Whether the usage is shown along with the error. It is not where an option has a value too many or too
few. -/
def showsUsage : UsageError → Bool
  | missingValue _ | unwantedValue _ => false
  | _ => true

end UsageError

def usageLine : String :=
  s!"Usage: {commandName} [OPTIONS] PATH OUTPUT\n"

/-- What is shown for an error. -/
def UsageError.report (e : UsageError) : String :=
  let hint := Text.quoted s!"{commandName} --help"
  let usage := if e.showsUsage then usageLine ++ s!"Try {hint} for help.\n\n" else ""
  usage ++ s!"Error: {e.message}\n"

/-! ## Help -/

/-- Columns of a line. -/
def lineWidth : Nat := 80

/-- Fills lines of `width` columns with words; `line` is the line so far. -/
def fillLines (width : Nat) (line : String) : List String → List String
  | [] => [line]
  | word :: rest =>
    if line.isEmpty then fillLines width word rest
    else if line.length + 1 + word.length ≤ width then fillLines width (line ++ " " ++ word) rest
    else line :: fillLines width word rest

def wrap (width : Nat) (text : String) : List String :=
  fillLines width "" ((text.toList.splitOn ' ').map String.ofList)

def spaces (n : Nat) : String :=
  String.ofList (List.replicate n ' ')

namespace OptionName

/-- What stands for the value of an option. -/
def valueMark : OptionName → String
  | name | package => " TEXT"
  | config => " PATH"
  | language => " [" ++ String.intercalate "|" languageNames ++ "]"
  | format | force | verbose | help => ""

def purpose : OptionName → String
  | name => "Output module name (defaults to the schema file name)"
  | config | language => ""
  | package => "Java package of the generated types"
  | format => "Format Python output with black"
  | force => "Overwrite existing output files"
  | verbose => "Log generator decisions"
  | help => "Show this message and exit."

/-- How an option is written. -/
def form (o : OptionName) : String :=
  let short := match o.short? with
    | some c => String.ofList ['-', c] ++ ", "
    | none => ""
  short ++ o.long ++ o.valueMark

end OptionName

/-- The lines for an option, with its purpose from the column `column` on. -/
def optionLines (column : Nat) (o : OptionName) : List String :=
  let form := "  " ++ o.form
  if o.purpose.isEmpty then [form]
  else match wrap (lineWidth - column) o.purpose with
    | first :: rest => (form ++ spaces (column - form.length) ++ first) :: rest.map (spaces column ++ ·)
    | [] => [form]

def paragraphs : List String :=
  ["Generate typed accessor wrappers for the JSON Schema at PATH.",
    "Python output is written to the OUTPUT file; "
      ++ "Java output is written as a source tree below the OUTPUT directory."]

/-- What is shown for a call for help. -/
def helpText : String :=
  let column := ((OptionName.all.map (·.form.length)).foldl max 0) + 4
  let description := paragraphs.flatMap fun p => (wrap (lineWidth - 2) p).map ("  " ++ ·) ++ [""]
  let options := OptionName.all.flatMap (optionLines column)
  usageLine ++ "\n" ++ String.join ((description ++ ["Options:"] ++ options).map (· ++ "\n"))

end SchemaAccessors.CommandLine
