import ObjectQuery.CommandLine.Arguments
import ObjectQuery.Compile
import ObjectQuery.EnvFile
import ObjectQuery.Eval.Client
import ObjectQuery.Language.Lower
import ObjectQuery.Tree.Encode
import ObjectQuery.Tree.Render

/-!
The work that a command line asks for, as a function of the files and variables around it. What can
fail is tried in a fixed order: settings, dialect, mapping, tables, query, compilation, evaluation.
-/

namespace ObjectQuery.CommandLine

structure Surroundings where
  file? : String → Option String
  env? : String → Option String

def Surroundings.variablesFile : String := ".env"

def Surroundings.value? (s : Surroundings) : String → Option String :=
  match s.file? variablesFile with
  | some text => EnvFile.extend s.env? text
  | none => s.env?

structure Output where
  result : String
  notes : List String
deriving DecidableEq, Repr

inductive Failure where
  | settings (e : Settings.Error)
  | unknownDialect (name : String)
  | mapping (path : String) (e : Mapping.Error)
  | data (e : EvalError)
  | language (e : Language.Error)
  | compile (e : CompileError)
  | eval (e : EvalError)

def Failure.message : Failure → String
  | .settings e => e.message
  | .unknownDialect name => "unknown dialect `" ++ name ++ "`"
  | .mapping path e => "loading mapping " ++ path ++ ": " ++ e.message
  | .data e => e.message
  | .language e => e.message
  | .compile e => e.message
  | .eval e => e.message

namespace Invocation

def settings (i : Invocation) (s : Surroundings) : Except Failure Settings := do
  let settings ← (match i.config with
    | some path =>
      match s.file? path with
      | some text => Settings.parse text
      | none => .error (.unreadable path)
    | none => Settings.ofVariables s.value?).mapError .settings
  match i.dialect with
  | none => return settings
  | some name =>
    match Dialect.ofName? name with
    | some dialect => return { settings with dialect }
    | none => throw (.unknownDialect name)

def mappingIn (i : Invocation) (s : Surroundings) : Except Failure Mapping :=
  (match s.file? i.mapping with
    | some text => Mapping.parse text
    | none => .error .unreadable).mapError (.mapping i.mapping)

def context (i : Invocation) (s : Surroundings) : Except Failure Context := do
  let settings ← i.settings s
  let mapping ← i.mappingIn s
  return .ofSettings mapping settings

def compiled (i : Invocation) (ctx : Context) : Except Failure Rewritten := do
  let (e, supply) ← ((Language.query i.query).run ⟨1⟩).mapError .language
  let (r, _) ← ((e.compile ctx).run supply).mapError .compile
  return r

def tablesIn (path : String) (s : Surroundings) : Except Failure Tables :=
  (match s.file? path with
    | some text => Tables.parse text
    | none => .error .badData).mapError .data

def run (i : Invocation) (s : Surroundings) : Except Failure Output := do
  let ctx ← i.context s
  match i.action with
  | .compile format trace =>
    let r ← i.compiled ctx
    let text := match format with
      | .sql => r.tree.render
      | .json | .tree => r.tree.encode.pretty 0
    let notes := if trace then r.passes.map fun p => "transformed: " ++ p.name else []
    return ⟨text ++ "\n", notes⟩
  | .run data =>
    let tables ← tablesIn data s
    let r ← i.compiled ctx
    let value ← (r.tree.execute tables).mapError .eval
    return ⟨value.toJson.pretty 0 ++ "\n", []⟩

def paths (i : Invocation) : List String :=
  let data := match i.action with
    | .run path => [path]
    | .compile .. => []
  Surroundings.variablesFile :: i.mapping :: i.config.toList ++ data

end Invocation

end ObjectQuery.CommandLine
