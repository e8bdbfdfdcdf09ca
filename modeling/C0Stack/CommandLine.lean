import C0Stack.Compiler
import C0Stack.Viewer.Basic

/-!
# The command line

A file is compiled and its listing printed, or its tokens are printed, or it is opened in the viewer. What goes to the standard
output is printed only if all went well; messages go to the error output.
-/

namespace C0Stack

/-- The options that the arguments name. -/
structure Flags where
  statements : Bool := false
  tokens : Bool := false
  view : Bool := false
deriving DecidableEq, Repr, Inhabited

/-- What the arguments ask for: a file, and what to do with it. -/
structure Options extends Flags where
  path : String
deriving DecidableEq, Repr, Inhabited

/-- Why the arguments are refused. -/
inductive UsageError where
  | unknownOption (option : String)
  | unexpectedArgument (argument : String)
  | noInput
deriving DecidableEq, Repr, Inhabited

/-- What is wrong with the arguments, in words. -/
def UsageError.message : UsageError → String
  | unknownOption option => "Unknown option '" ++ option ++ "'"
  | unexpectedArgument argument => "Unexpected argument '" ++ argument ++ "'"
  | noInput => "No input file provided"

/-- What a run prints, and its exit code. -/
structure Report where
  stdout : String
  stderr : String
  code : UInt32
deriving DecidableEq, Repr, Inhabited

/-- How a run ends: with a report, or in the viewer after some messages. -/
inductive Outcome where
  | report (r : Report)
  | browse (stderr : String) (v : Viewer)
deriving Repr

namespace Options

/-- Reads the arguments in order. `path` and `flags` are the file and the options named so far. -/
def parseFrom (path : Option String) (flags : Flags) : List String → Except UsageError Options
  | [] =>
    match path with
    | some path => .ok { toFlags := flags, path }
    | none => .error .noInput
  | arg :: args =>
    if arg = "--statements" then parseFrom path { flags with statements := true } args
    else if arg = "--tokens" then parseFrom path { flags with tokens := true } args
    else if arg = "--view" then parseFrom path { flags with view := true } args
    else if arg.startsWith "--" then .error (.unknownOption arg)
    else
      match path with
      | none => parseFrom (some arg) flags args
      | some _ => .error (.unexpectedArgument arg)

/-- What the arguments ask for: exactly one file, and any of the three options. -/
def parse (args : List String) : Except UsageError Options := parseFrom none {} args

/-- How the file is to be read. -/
def mode (o : Options) : Mode := if o.statements then .statements else .program

end Options

namespace CommandLine

/-- The lines of a text, each with its line end. -/
def unlines (lines : List String) : String := String.join (lines.map (· ++ "\n"))

/-- How the program is called. -/
def usage (program : String) : String :=
  unlines
    ["Usage: " ++ program ++ " <file.c0> [--statements] [--tokens] [--view]",
     "",
     "  --statements   compile the file as a statement sequence",
     "  --tokens       print the token stream instead of compiling",
     "  --view         browse the source and listing in a terminal UI"]

/-- A run that failed with the given messages. -/
def failure (stderr : String) : Outcome := .report ⟨"", stderr, 1⟩

/-- What is said of a program that was compiled. -/
def compiledNote (p : Program) : String :=
  "Compiled successfully. Emitted " ++ toString p.size ++ " instructions.\n"

/-- A row of the token listing. -/
def tokenRow (t : Token) : String :=
  Text.alignRight 4 (toString t.start.line) ++ ":" ++ Text.alignLeft 4 (toString t.start.column) ++ " " ++ t.describe

/-- Prints the tokens of the file. -/
def printTokens (path : String) (bytes : List UInt8) : Outcome :=
  let note := "Tokenizing " ++ path ++ "...\n"
  match (Source.ofBytes bytes).tokenize with
  | .ok tokens =>
    .report ⟨unlines (tokens.map tokenRow),
      note ++ "Tokenized successfully. Found " ++ toString tokens.length ++ " tokens.\n", 0⟩
  | .error e => failure (note ++ e.message ++ "\n")

/-- Compiles the file and prints its listing. -/
def printListing (path : String) (mode : Mode) (bytes : List UInt8) : Outcome :=
  let note := "Compiling " ++ path ++ "...\n"
  match compile mode (.ofBytes bytes) with
  | .ok program => .report ⟨program.listing, note ++ compiledNote program, 0⟩
  | .error e => failure (note ++ e.message ++ "\n")

/-- Opens the file in the viewer. The whole file must be UTF-8. -/
def openViewer (path : String) (mode : Mode) (bytes : List UInt8) : Outcome :=
  match Source.decode? bytes with
  | none =>
    failure ("Error: Error \x7b kind: InvalidData, message: \"" ++ ReadError.notUtf8.message ++ "\" \x7d\n")
  | some chars =>
    let text := String.ofList chars
    let note := "Compiling " ++ path ++ "...\n"
    let result := compile mode (.ofString text)
    match result with
    | .ok program => .browse (note ++ compiledNote program) (.ofResult text result)
    | .error e => .browse (note ++ e.message ++ "\nEntering viewer with the error location...\n") (.ofResult text result)

/-- Does what the options ask for with the bytes of the file, or without them if there is no such file. -/
def execute (program : String) (o : Options) (file : Option (List UInt8)) : Outcome :=
  match file with
  | none => failure ("Error: File '" ++ o.path ++ "' not found\n" ++ usage program)
  | some bytes =>
    if o.tokens then printTokens o.path bytes
    else if o.view then openViewer o.path o.mode bytes
    else printListing o.path o.mode bytes

/-- Says what is wrong with the arguments. -/
def refuse (program : String) (e : UsageError) : Outcome :=
  failure ("Error: " ++ e.message ++ "\n\n" ++ usage program)

/-- Runs the program of the given name with the arguments, on the given files. -/
def run (program : String) (args : List String) (files : String → Option (List UInt8)) : Outcome :=
  match Options.parse args with
  | .error e => refuse program e
  | .ok o => execute program o (files o.path)

end CommandLine

end C0Stack
