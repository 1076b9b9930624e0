import Syntree.Parse
import Syntree.Summary
import Syntree.Tree.Outline

/-!
The command line: which file to read, and what to print of it.
-/

namespace Syntree.Command

/-- What to print. Without a choice it is the summary. -/
structure Options where
  file : Option String
  tokens : Bool
  ast : Bool
  summary : Bool
  verbosity : Nat
deriving DecidableEq, Repr

def Options.none : Options := ⟨.none, false, false, false, 0⟩

inductive Request where
  | inspect (file : String) (options : Options)
  | version
  | help
  | misuse
deriving DecidableEq, Repr

/-- Letters after one dash. -/
def readLetters (options : Options) : List Char → Except Request Options
  | [] => .ok options
  | 'v' :: letters => readLetters { options with verbosity := options.verbosity + 1 } letters
  | 'V' :: _ => .error .version
  | 'h' :: _ => .error .help
  | _ => .error .misuse

/-- A word after two dashes. Printing flags may be given once. -/
def readFlag (options : Options) (flag : String) : Except Request Options :=
  match flag with
  | "--tokens" => if options.tokens then .error .misuse else .ok { options with tokens := true }
  | "--ast" => if options.ast then .error .misuse else .ok { options with ast := true }
  | "--summary" => if options.summary then .error .misuse else .ok { options with summary := true }
  | "--verbose" => .ok { options with verbosity := options.verbosity + 1 }
  | "--version" => .error .version
  | "--help" => .error .help
  | _ => .error .misuse

/-- There is one file, and its name is not empty. -/
def readFile (options : Options) (file : String) : Except Request Options :=
  if file.isEmpty || options.file.isSome then .error .misuse
  else .ok { options with file := some file }

/-- Reads arguments from left to right. The first that decides the matter or cannot stand where it
stands ends the reading; after `--` all are file names. -/
def readArgs (options : Options) (onlyFiles : Bool) : List String → Except Request Options
  | [] => .ok options
  | arg :: args => do
    if onlyFiles then
      readArgs (← readFile options arg) true args
    else if arg = "--" then
      readArgs options true args
    else if arg.startsWith "--" then
      readArgs (← readFlag options arg) false args
    else if arg.startsWith "-" && arg ≠ "-" then
      readArgs (← readLetters options (arg.toList.drop 1)) false args
    else
      readArgs (← readFile options arg) false args

def request (args : List String) : Request :=
  match readArgs .none false args with
  | .error decided => decided
  | .ok options =>
    match options.file with
    | some file => .inspect file options
    | none => .misuse

/-- What a run of the program prints, and its exit code. -/
structure Report where
  code : UInt32
  stdout : String
  stderr : String
deriving DecidableEq, Repr

def programName : String := "frontend"

def usage : String := "Usage: " ++ programName ++ " [OPTIONS] <FILE>\n"

def helpText : String :=
  "Lex, parse and inspect a source file\n\n" ++ usage ++
    "\nArguments:\n  <FILE>  Source file to read\n\nOptions:\n" ++
    "      --tokens      Print the token stream\n" ++
    "      --ast         Print the parsed tree\n" ++
    "      --summary     Print every declaration with its position (the default)\n" ++
    "  -v, --verbose...  Increase log output (-v debug, -vv trace)\n" ++
    "  -h, --help        Print help\n" ++
    "  -V, --version     Print version\n"

/-- Why a file could not be read. -/
def unreadable (file reason : String) : Report :=
  ⟨1, "", "Error: failed to read " ++ file ++ "\n\nCaused by:\n    " ++ reason ++ "\n"⟩

/-- The last component of a path, by which positions name the file. -/
def fileName (path : String) : String :=
  let parts := (path.splitOn "/").filter fun part => part ≠ "" ∧ part ≠ "."
  match parts.getLast? with
  | some part => if part = ".." then path else part
  | none => path

def tokenLine (t : Token) : String :=
  Text.padRight 12 t.span.start.shown ++ " " ++ t.shown ++ "\n"

/-- Ends a run that has printed `stdout` with an error. -/
def failed (stdout : String) (e : Error) (source : String) : Report :=
  ⟨1, stdout, (e.diagnostic? source).getD ""⟩

/-- What is printed of the tree. -/
def inspectTree (options : Options) (printed name source : String) : Report :=
  match parse name source with
  | .error e => failed printed e source
  | .ok a =>
    let tree := if options.ast then a.text ++ "\n" else ""
    let summary := if options.summary || !options.ast then a.summaryText else ""
    ⟨0, printed ++ tree ++ summary, ""⟩

/-- Inspects the text of a file. Tokens come first, and alone if nothing else is asked for. -/
def inspect (file : String) (options : Options) (source : String) : Report :=
  let name := fileName file
  if options.tokens then
    match tokenize name source with
    | .error e => failed "" e source
    | .ok tokens =>
      let printed := String.join (tokens.map tokenLine)
      if options.ast || options.summary then inspectTree options printed name source
      else ⟨0, printed, ""⟩
  else inspectTree options "" name source

/-- A whole run, given what reading a file yields: its bytes, or the reason for having none. -/
def run {m : Type → Type} [Monad m] (read : String → m (Except String ByteArray))
    (args : List String) : m Report := do
  match request args with
  | .version => return ⟨0, programName ++ " 0.1.0\n", ""⟩
  | .help => return ⟨0, helpText, ""⟩
  | .misuse => return ⟨2, "", usage⟩
  | .inspect file options =>
    match ← read file with
    | .error reason => return unreadable file reason
    | .ok bytes =>
      match (⟨[bytes], none⟩ : ByteStream).text with
      | .error reason => return unreadable file reason
      | .ok source => return inspect file options source

end Syntree.Command
