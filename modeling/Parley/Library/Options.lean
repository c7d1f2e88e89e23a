import Parley.Text.Digit

/-!
# Command Line Options

The arguments of the verifier: at most one operand, the script directory; `--manifest` and `--token`
with a value each, the latter any number of times; and `--help`. A long option may be shortened to
any beginning that is unambiguous, its value may follow after `=`, and `--` ends the options. A
beginning that is ambiguous is refused before anything is done, even a request for help. The mark `--`
is never a value: where it follows after `=`, the value of the option is left out.
-/

namespace Parley

/-- The settings of a verification. -/
structure VerifyOptions where
  scriptDir : String := "game/data/dialogue"
  /-- The manifest file, if it is not the one beside the scripts. -/
  manifest : Option String := none
  /-- The placeholder tokens that are accepted beside the standard ones, as far as they are not left
  out. -/
  tokens : List (Option String) := []
  deriving DecidableEq, Inhabited

/-- What arguments ask for. -/
inductive Invocation
  | verify (options : VerifyOptions)
  | help
  | misuse
  deriving DecidableEq, Inhabited

namespace Invocation

/-- The description of the arguments. -/
def usage : String :=
  "\n".intercalate
    ["usage: parley [SCRIPT_DIR] [--manifest FILE] [--token NAME]...", "",
      "Checks every dialogue script of a directory (by default game/data/dialogue).", "",
      "  --manifest FILE  the scope manifest (by default scopes.json beside the scripts)",
      "  --token NAME     a placeholder token to accept beside the standard ones"]

/-- The options. -/
inductive Flag
  | help
  | manifest
  | token
  deriving DecidableEq, Inhabited

/-- An argument by its kind. -/
inductive Argument
  /-- The mark after which there are no options. -/
  | endMark
  /-- A value or the operand. -/
  | plain (text : String)
  /-- An option, possibly with a value in the same argument. -/
  | flag (flag : Flag) (value : Option String)
  /-- Something that looks like an option and is none. -/
  | unknown
  /-- A beginning of several options. -/
  | ambiguous
  deriving DecidableEq, Inhabited

/-- The options by their long names. -/
def longFlags : List (String × Flag) :=
  [("--help", .help), ("--manifest", .manifest), ("--token", .token)]

/-- Whether an argument is a negative number, which is no option. A number may end in one line
break. -/
def isNegativeNumber (s : List Char) : Bool :=
  match s with
  | '-' :: rest =>
    let rest := if rest.getLast? = some '\n' then rest.dropLast else rest
    let whole := rest.takeWhile Text.isDecimalDigit
    match rest.dropWhile Text.isDecimalDigit with
    | [] => !whole.isEmpty
    | '.' :: part => !part.isEmpty && part.all Text.isDecimalDigit
    | _ => false
  | _ => false

/-- The option name and the value of an argument that is split at its first `=`. -/
def splitValue (s : List Char) : List Char × Option String :=
  match s.dropWhile (· != '=') with
  | '=' :: value => (s.takeWhile (· != '='), some (String.ofList value))
  | _ => (s, none)

/-- Whether what follows `-h` in one argument leaves a request for help: the request made again, any
number of times, or at least once after `=`. -/
def isHelpCluster (letters : List Char) : Bool :=
  match letters with
  | '=' :: more => !more.isEmpty && more.all (· == 'h')
  | _ => letters.all (· == 'h')

/-- The kind of an argument that stands before the end mark. -/
def classify (arg : String) : Argument :=
  let s := arg.toList
  let (name, value) := splitValue s
  match s with
  | '-' :: '-' :: _ =>
    match longFlags.lookup (String.ofList name),
      longFlags.filter fun f => name.isPrefixOf f.1.toList with
    | some flag, _ => .flag flag value
    | none, [(_, flag)] => .flag flag value
    | none, [] => if s.contains ' ' then .plain arg else .unknown
    | none, _ => .ambiguous
  | '-' :: 'h' :: rest => .flag .help (if isHelpCluster rest then none else some (String.ofList rest))
  | '-' :: _ :: _ => if isNegativeNumber s || s.contains ' ' then .plain arg else .unknown
  | _ => .plain arg

/-- The kinds of arguments. After the end mark all are plain. -/
def classifyAll : List String → List Argument
  | [] => []
  | arg :: rest =>
    if arg = "--" then .endMark :: rest.map .plain else classify arg :: classifyAll rest

/-- What has been found in the arguments so far. -/
structure Progress where
  options : VerifyOptions := {}
  /-- Whether the place of the operand is taken. -/
  hasOperand : Bool := false
  /-- Whether there are arguments that nothing asks for. -/
  hasExtras : Bool := false

/-- The progress after a plain argument. -/
def Progress.operand (p : Progress) (text : String) : Progress :=
  if p.hasOperand then { p with hasExtras := true }
  else { p with hasOperand := true, options := { p.options with scriptDir := text } }

/-- The progress after the end mark, which is in place only before, or right after, the operand. -/
def Progress.mark (p : Progress) (allowed : Bool) : Progress :=
  if allowed then p else { p with hasExtras := true }

/-- The settings with an option set, its value possibly being left out. -/
def Progress.set (p : Progress) (flag : Flag) (value : Option String) : Progress :=
  match flag with
  | .help => p
  | .manifest => { p with options := { p.options with manifest := value } }
  | .token => { p with options := { p.options with tokens := p.options.tokens ++ [value] } }

/-- The value that stands after `=`, unless the end mark stands there. -/
def givenValue (text : String) : Option String :=
  if text = "--" then none else some text

/-- Goes through arguments in order. The first flaw that cannot wait decides, as does a request for
help; arguments that nothing asks for are a flaw at the end. `afterOperand` says that the operand
was the last argument. -/
def follow (p : Progress) (afterOperand : Bool) : List Argument → Invocation
  | [] => if p.hasExtras then .misuse else .verify p.options
  | .plain text :: rest => follow (p.operand text) (!p.hasOperand) rest
  | .endMark :: rest => follow (p.mark (!p.hasOperand || afterOperand)) afterOperand rest
  | .unknown :: rest => follow { p with hasExtras := true } false rest
  | .ambiguous :: _ => .misuse
  | .flag .help none :: _ => .help
  | .flag .help (some _) :: _ => .misuse
  | .flag flag (some value) :: rest => follow (p.set flag (givenValue value)) false rest
  | .flag flag none :: .plain value :: rest => follow (p.set flag (some value)) false rest
  | .flag _ none :: _ => .misuse

/-- What arguments ask for. -/
def ofArguments (args : List String) : Invocation :=
  let arguments := classifyAll args
  if arguments.contains .ambiguous then .misuse else follow {} false arguments

end Invocation

end Parley
