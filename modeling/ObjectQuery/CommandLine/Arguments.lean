/-!
The arguments of the command line. `--config` may stand before or after the command; a command has
options of its own, in any order, and one operand, the query. An option takes its value from the
next argument or from behind an equals sign, no option may be given twice, and after `--` everything
is an operand. The path of a file is never empty.
-/

namespace ObjectQuery.CommandLine

inductive Halt where
  | help
  | version
  | misuse
deriving DecidableEq, Repr

inductive Format where
  | sql
  | json
  | tree
deriving DecidableEq, Repr

inductive Action where
  | compile (format : Format) (trace : Bool)
  | run (data : String)
deriving DecidableEq, Repr

structure Invocation where
  config : Option String
  mapping : String
  dialect : Option String
  action : Action
  query : String
deriving DecidableEq, Repr

def Format.ofName? : String → Option Format
  | "sql" => some .sql
  | "json" => some .json
  | "tree" => some .tree
  | _ => none

inductive Argument where
  | operand
  | operandsFollow
  | long (name : String) (value : Option String)
  | short (first : Char)

def Argument.ofText (arg : String) : Argument :=
  match arg.toList with
  | ['-', '-'] => .operandsFollow
  | '-' :: '-' :: cs =>
    match cs.span (· ≠ '=') with
    | (name, []) => .long (String.ofList name) none
    | (name, _ :: value) => .long (String.ofList name) (some (String.ofList value))
  | '-' :: c :: _ => .short c
  | _ => .operand

def Argument.isOperand : Argument → Bool
  | .operand => true
  | _ => false

structure Grammar where
  valued : List (String × (String → Bool))
  switches : List String

structure Given where
  values : List (String × String)
  switches : List String
  operand : Option String

namespace Given

def empty : Given := ⟨[], [], none⟩

def addValue (given : Given) (g : Grammar) (name value : String) : Except Halt Given :=
  match g.valued.lookup name with
  | some isGood =>
    if isGood value && (given.values.lookup name).isNone then
      .ok { given with values := (name, value) :: given.values }
    else .error .misuse
  | none => .error .misuse

def addSwitch (given : Given) (name : String) : Except Halt Given :=
  if given.switches.contains name then .error .misuse
  else .ok { given with switches := name :: given.switches }

def addOperand (given : Given) (operand : String) : Except Halt Given :=
  match given.operand with
  | some _ => .error .misuse
  | none => .ok { given with operand := some operand }

def addAll (g : Grammar) (given : Given) : List String → Except Halt Given
  | [] => .ok given
  | arg :: rest =>
    match Argument.ofText arg with
    | .operandsFollow => rest.foldlM addOperand given
    | .operand => do addAll g (← given.addOperand arg) rest
    | .short c => .error (if c = 'h' then .help else .misuse)
    | .long name (some value) => do addAll g (← given.addValue g name value) rest
    | .long name none =>
      if name = "help" then .error .help
      else if g.switches.contains name then do addAll g (← given.addSwitch name) rest
      else
        match rest with
        | [] => .error .misuse
        | value :: rest =>
          if (Argument.ofText value).isOperand then do
            addAll g (← given.addValue g name value) rest
          else .error .misuse

def required {α : Type} : Option α → Except Halt α
  | some a => .ok a
  | none => .error .misuse

def invocation (given : Given) (config : Option String) (action : Action) :
    Except Halt Invocation := do
  let mapping ← required (given.values.lookup "mapping")
  let query ← required given.operand
  return { config := (given.values.lookup "config").or config, mapping
           dialect := given.values.lookup "dialect", action, query }

end Given

def anything (_ : String) : Bool := true

def isPath (value : String) : Bool := value ≠ ""

def compileGrammar : Grammar :=
  { valued := [("config", isPath), ("mapping", isPath), ("dialect", anything),
      ("format", fun name => (Format.ofName? name).isSome)]
    switches := ["trace"] }

def runGrammar : Grammar :=
  { valued := [("config", isPath), ("mapping", isPath), ("dialect", anything),
      ("data", isPath)]
    switches := [] }

def compileCommand (config : Option String) (args : List String) : Except Halt Invocation := do
  let given ← Given.empty.addAll compileGrammar args
  let format := ((given.values.lookup "format").bind Format.ofName?).getD .sql
  given.invocation config (.compile format (given.switches.contains "trace"))

def runCommand (config : Option String) (args : List String) : Except Halt Invocation := do
  let given ← Given.empty.addAll runGrammar args
  given.invocation config (.run (← Given.required (given.values.lookup "data")))

def helpCommand : List String → Halt
  | [] => .help
  | [name] => if ["compile", "run", "help"].contains name then .help else .misuse
  | _ => .misuse

def parseFrom (config : Option String) : List String → Except Halt Invocation
  | [] => .error .misuse
  | arg :: rest =>
    match Argument.ofText arg with
    | .operand =>
      match arg with
      | "compile" => compileCommand config rest
      | "run" => runCommand config rest
      | "help" => .error (helpCommand rest)
      | _ => .error .misuse
    | .short c => .error (if c = 'h' then .help else if c = 'V' then .version else .misuse)
    | .long "help" none => .error .help
    | .long "version" none => .error .version
    | .long "config" (some path) =>
      if config.isNone && isPath path then parseFrom (some path) rest else .error .misuse
    | .long "config" none =>
      match rest with
      | [] => .error .misuse
      | path :: rest =>
        if config.isNone && (Argument.ofText path).isOperand && isPath path then
          parseFrom (some path) rest
        else .error .misuse
    | _ => .error .misuse

def parse (args : List String) : Except Halt Invocation := parseFrom none args

end ObjectQuery.CommandLine
