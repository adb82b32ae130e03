import YaccTables.Grammar.Lowering

/-!
# Building grammars

A grammar is built from text in three steps: the text is read into a description, the description
is checked for problems, and then it is lowered. An error says which step refused.
-/

namespace YaccTables

/-- The step that refused a grammar before it was lowered. -/
inductive Origin
  | parse
  | validation
  /-- A step known only by its number. -/
  | other (code : Int)
  deriving DecidableEq, Repr

namespace Origin

/-- The step with a number. -/
def ofCode : Int → Origin
  | 0 => .parse
  | 1 => .validation
  | code => .other code

/-- The word for a step. -/
def text : Origin → Bytes
  | .parse => utf8 "parse"
  | .validation => utf8 "validation"
  | .other code => utf8 "Origin(" ++ decimalInt code ++ utf8 ")"

/-- The report of an error of a step. -/
def report (origin : Origin) (cause : Bytes) : Bytes := origin.text ++ utf8 " error: " ++ cause

end Origin

/-- Why no grammar was built. -/
inductive BuildError
  | parse (error : ParseError)
  | invalid (problems : List Problem)
  | lowering (error : LoweringError)
  deriving DecidableEq, Repr

/-- The report of a build error. -/
def BuildError.message? : BuildError → Option Bytes
  | .parse error => error.message?.map Origin.parse.report
  | .invalid problems => some (Origin.validation.report (Problem.report problems))
  | .lowering error => some error.message

/-- The complaint of a caller that had taken the description for a good one. -/
def LoweringError.contractMessage (e : LoweringError) : Bytes :=
  utf8 "grammar AST breaks lowering contract: " ++ e.message

/-- Lowers a description that its caller vouches for: an error is the caller's fault and becomes a
complaint. -/
def Description.lowerTrusted (kind : Kind) (a : Description) : Except Bytes Grammar :=
  match a.lower kind with
  | .ok g => .ok g
  | .error e => .error e.contractMessage

namespace Grammar

/-- The grammar of a description without problems. -/
def ofDescription (kind : Kind) (a : Description) : Except BuildError Grammar :=
  if a.problems = [] then
    match a.lower kind with
    | .ok g => .ok g
    | .error e => .error (.lowering e)
  else .error (.invalid a.problems)

/-- The grammar of a source. -/
def ofSource (kind : Kind) (source : Source) : Except BuildError Grammar :=
  match Description.parse source with
  | .ok a => ofDescription kind a
  | .error e => .error (.parse e)

end Grammar

end YaccTables
