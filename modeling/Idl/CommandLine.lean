import Idl.Compilation
import Idl.Diagnostic.Render
import Idl.Syntax.Dump

/-!
# The command line

What the arguments of the program mean, and what the program prints for them. Options may stand
before, between and after the files; after `--` everything is a file.
-/
namespace Idl.CommandLine

inductive ColourChoice where
  | auto | always | never
deriving DecidableEq, Repr

def ColourChoice.ofText? : String → Option ColourChoice
  | "auto" => some auto
  | "always" => some always
  | "never" => some never
  | _ => none

/-- Whether to paint diagnostics, given whether they go to a terminal. -/
def ColourChoice.enabled (terminal : Bool) : ColourChoice → Bool
  | auto => terminal
  | always => true
  | never => false

structure Options where
  files : List String
  includePaths : List String
  dump : Bool
  verbosity : Nat
  colour : Option ColourChoice
deriving DecidableEq, Repr

def Options.empty : Options :=
  ⟨[], [], false, 0, none⟩

/-- What the program is asked to do. -/
inductive Command where
  | check (options : Options)
  | showVersion
  | showHelp
deriving DecidableEq, Repr

inductive UsageError where
  | unknownOption (name : String)
  | missingValue (option : String)
  | unexpectedValue (option : String)
  | invalidValue (option value : String)
  | repeatedOption (option : String)
  | missingFile
deriving DecidableEq, Repr

def UsageError.text : UsageError → String
  | unknownOption name => "unknown option " ++ name
  | missingValue option => option ++ " needs a value"
  | unexpectedValue option => option ++ " takes no value"
  | invalidValue option value => option ++ " cannot be '" ++ value ++ "'"
  | repeatedOption option => option ++ " can be given only once"
  | missingFile => "no file is given"

namespace Options

def addFile (options : Options) (path : String) : Except UsageError Options :=
  if path = "" then .error (.invalidValue "FILE" path)
  else .ok { options with files := options.files ++ [path] }

def addIncludePath (options : Options) (path : String) : Except UsageError Options :=
  if path = "" then .error (.invalidValue "--include" path)
  else .ok { options with includePaths := options.includePaths ++ [path] }

def setColour (options : Options) (value : String) : Except UsageError Options :=
  match ColourChoice.ofText? value, options.colour with
  | none, _ => .error (.invalidValue "--color" value)
  | some _, some _ => .error (.repeatedOption "--color")
  | some choice, none => .ok { options with colour := some choice }

def setDump (options : Options) : Except UsageError Options :=
  if options.dump then .error (.repeatedOption "--dump") else .ok { options with dump := true }

def moreVerbose (options : Options) : Options :=
  { options with verbosity := options.verbosity + 1 }

end Options

/-- An option that needs a value: its name, and what the value does. -/
structure ValueOption where
  name : String
  apply : Options → String → Except UsageError Options

def includeOption : ValueOption :=
  ⟨"--include", Options.addIncludePath⟩

def colourOption : ValueOption :=
  ⟨"--color", Options.setColour⟩

/-- What comes of one argument. -/
inductive ArgumentOutcome where
  | continue (options : Options)
  | needsValue (options : Options) (option : ValueOption)
  | stop (command : Command)

/-- Reads short options written together. What follows one that needs a value is its value. -/
def shortOptions (options : Options) : List Char → Except UsageError ArgumentOutcome
  | [] => .ok (.continue options)
  | 'v' :: rest => shortOptions options.moreVerbose rest
  | 'V' :: _ => .ok (.stop .showVersion)
  | 'h' :: _ => .ok (.stop .showHelp)
  | ['I'] => .ok (.needsValue options includeOption)
  | 'I' :: '=' :: value => (options.addIncludePath (String.ofList value)).map .continue
  | 'I' :: value => (options.addIncludePath (String.ofList value)).map .continue
  | c :: _ => .error (.unknownOption ("-" ++ String.singleton c))

/-- Reads a long option, with its value if there is one after an equals sign. -/
def longOption (options : Options) (name : String) (value : Option String) :
    Except UsageError ArgumentOutcome :=
  match name, value with
  | "include", some value => (options.addIncludePath value).map .continue
  | "include", none => .ok (.needsValue options includeOption)
  | "color", some value => (options.setColour value).map .continue
  | "color", none => .ok (.needsValue options colourOption)
  | "dump", none => options.setDump.map .continue
  | "verbose", none => .ok (.continue options.moreVerbose)
  | "version", none => .ok (.stop .showVersion)
  | "help", none => .ok (.stop .showHelp)
  | _, some _ => .error (.unexpectedValue ("--" ++ name))
  | _, none => .error (.unknownOption ("--" ++ name))

/-- Reads an argument in front of `--`. A lone `-` is a file. -/
def argument (options : Options) (text : String) : Except UsageError ArgumentOutcome :=
  match text.toList with
  | '-' :: '-' :: cs =>
    let name := cs.takeWhile (· ≠ '=')
    let value := (cs.dropWhile (· ≠ '=')).tail?
    longOption options (String.ofList name) (value.map String.ofList)
  | '-' :: c :: cs => shortOptions options (c :: cs)
  | _ => (options.addFile text).map .continue

/-- An argument that is an option or `--` is no value of an option. -/
def isValue (text : String) : Bool :=
  text == "-" || text.toList.head? != some '-'

def finish (options : Options) : Except UsageError Command :=
  if options.files = [] then .error .missingFile else .ok (.check options)

/-- Reads the arguments from left to right; the first error or request for information ends the
reading. -/
def parse (options : Options) : List String → Except UsageError Command
  | [] => finish options
  | "--" :: rest => do finish (← rest.foldlM Options.addFile options)
  | text :: rest =>
    match argument options text with
    | .error error => .error error
    | .ok (.continue options) => parse options rest
    | .ok (.stop command) => .ok command
    | .ok (.needsValue options option) =>
      match rest with
      | [] => .error (.missingValue option.name)
      | value :: rest =>
        if isValue value then
          match option.apply options value with
          | .error error => .error error
          | .ok options => parse options rest
        else .error (.missingValue option.name)

/-- What the program prints, and its exit code. -/
structure Outcome where
  exitCode : Nat
  output : String
  errors : String
deriving DecidableEq, Repr

def version : String :=
  "tidl 0.1.0\n"

def help : String :=
  "Check schema files and everything they include.\n\n" ++
  "Usage: tidl [OPTIONS] FILE...\n\n" ++
  "  -I, --include DIR    directory to search for includes\n" ++
  "      --dump           print the parse trees\n" ++
  "  -v, --verbose        log more\n" ++
  "      --color WHEN     auto, always or never\n" ++
  "  -h, --help           print this text\n" ++
  "  -V, --version        print the version\n"

/-- The dumps of all trees of a program, each under its path. -/
def dumpProgram (program : Program) : String :=
  String.join <| program.flatten.map fun number =>
    match program.trees[number]? with
    | some tree => "# " ++ tree.source.path ++ "\n" ++ tree.document.dump tree.source
    | none => ""

def failureText (count : Nat) : String :=
  "error: compilation failed with " ++ toString count ++ " error(s)\n"

/-- Checks files one after the other up to the first that fails. -/
def checkFiles (loader : Loader) (options : Options) (terminal : Bool) : List String → Outcome
  | [] => ⟨0, "", ""⟩
  | path :: paths =>
    match compile loader options.includePaths path with
    | .error failure => ⟨1, "", "error: " ++ failure.message ++ "\n"⟩
    | .ok compilation =>
      let dumped := if options.dump then (compilation.program.map dumpProgram).getD "" else ""
      if compilation.succeeded then
        let outcome := checkFiles loader options terminal paths
        { outcome with output := dumped ++ outcome.output }
      else
        let colour := (options.colour.getD .auto).enabled terminal
        ⟨1, dumped, Diagnostic.renderAll colour compilation.diagnostics ++
          failureText compilation.errorCount⟩

/-- Does what the arguments ask for. -/
def run (loader : Loader) (terminal : Bool) (arguments : List String) : Outcome :=
  match parse .empty arguments with
  | .error error => ⟨2, "", "error: " ++ error.text ++ "\n"⟩
  | .ok .showVersion => ⟨0, version, ""⟩
  | .ok .showHelp => ⟨0, help, ""⟩
  | .ok (.check options) => checkFiles loader options terminal options.files

end Idl.CommandLine
