import YaccTables.Description
import YaccTables.Numbering
import YaccTables.Outline

/-!
# Problems of a description

`Description.problems` lists everything that keeps a description from being lowered, in a fixed
order: repeated rules, repeated tokens, the start rule, then rule by rule what each production
refers to, then repeated precedences and the implicit tokens.
-/

namespace YaccTables

/-- The sorts of problems. -/
inductive ProblemKind
  | noError
  | noStartRule
  | unknownStartRule
  | emptyRule
  | duplicateRule
  | duplicateToken
  | unknownRule
  | unknownToken
  | unknownPrecedence
  | unknownImplicitToken
  | duplicatePrecedence
  | duplicateImplicitToken
  /-- A sort known only by its number. -/
  | other (code : Int)
  deriving DecidableEq, Repr

namespace ProblemKind

/-- The sort with a number. -/
def ofCode : Int → ProblemKind
  | 0 => .noError
  | 1 => .noStartRule
  | 2 => .unknownStartRule
  | 3 => .emptyRule
  | 4 => .duplicateRule
  | 5 => .duplicateToken
  | 6 => .unknownRule
  | 7 => .unknownToken
  | 8 => .unknownPrecedence
  | 9 => .unknownImplicitToken
  | 10 => .duplicatePrecedence
  | 11 => .duplicateImplicitToken
  | code => .other code

/-- The number of a sort. -/
def code : ProblemKind → Int
  | .noError => 0
  | .noStartRule => 1
  | .unknownStartRule => 2
  | .emptyRule => 3
  | .duplicateRule => 4
  | .duplicateToken => 5
  | .unknownRule => 6
  | .unknownToken => 7
  | .unknownPrecedence => 8
  | .unknownImplicitToken => 9
  | .duplicatePrecedence => 10
  | .duplicateImplicitToken => 11
  | .other code => code

/-- The wording of a sort. -/
def text : ProblemKind → Bytes
  | .noError => utf8 "no error"
  | .noStartRule => utf8 "no start rule"
  | .unknownStartRule => utf8 "unknown start rule"
  | .emptyRule => utf8 "rule without productions"
  | .duplicateRule => utf8 "duplicate rule"
  | .duplicateToken => utf8 "duplicate token"
  | .unknownRule => utf8 "reference to undefined rule"
  | .unknownToken => utf8 "reference to undeclared token"
  | .unknownPrecedence => utf8 "%prec names a symbol without precedence"
  | .unknownImplicitToken => utf8 "implicit token is not a declared token"
  | .duplicatePrecedence => utf8 "duplicate precedence declaration"
  | .duplicateImplicitToken => utf8 "duplicate implicit token"
  | .other code => utf8 "ValidationErrorKind(" ++ decimalInt code ++ utf8 ")"

end ProblemKind

/-- A statement about a name in a rule, either of which may be missing:
`rule(r) - statement 'name'`. -/
def aboutRule (rule : Name) (statement : Bytes) (name : Name) : Bytes :=
  (if rule = [] then [] else utf8 "rule(" ++ rule ++ utf8 ") - ") ++ statement
    ++ (if name = [] then [] else utf8 " '" ++ name ++ utf8 "'")

/-- One problem of a description. -/
structure Problem where
  kind : ProblemKind
  /-- The rule in which it was found, if any. -/
  rule : Name := []
  /-- The name that is at fault, if any. -/
  name : Name := []
  deriving DecidableEq, Repr

/-- The line that reports a problem. -/
def Problem.message (p : Problem) : Bytes := aboutRule p.rule p.kind.text p.name

/-- The report on all problems. -/
def Problem.report (ps : List Problem) : Bytes :=
  utf8 "\n"
    ++ (Outline.node (utf8 "grammar validation failed") (ps.map fun p => .leaf p.message)).print

namespace Description

/-- The names of all rules. -/
def ruleNames (a : Description) : List Name := a.rules.map Rule.name

/-- The problem of the start rule. -/
def startProblems (a : Description) : List Problem :=
  if a.start = [] then [{ kind := .noStartRule }]
  else if a.ruleNames.contains a.start then []
  else [{ kind := .unknownStartRule, name := a.start }]

/-- The problem of a reference in a rule. Only references to rules and tokens are looked at. -/
def refProblems (a : Description) (rule : Name) : SymbolRef → List Problem
  | .rule name => if a.ruleNames.contains name then [] else [⟨.unknownRule, rule, name⟩]
  | .token name => if a.tokens.contains name then [] else [⟨.unknownToken, rule, name⟩]
  | .other _ _ => []

/-- The problems of a production of a rule. -/
def productionProblems (a : Description) (rule : Name) (p : Production) : List Problem :=
  p.symbols.flatMap (a.refProblems rule)
    ++ if p.prec = [] ∨ (a.prec? p.prec).isSome then [] else [⟨.unknownPrecedence, rule, p.prec⟩]

/-- The problems of a rule. -/
def ruleProblems (a : Description) (r : Rule) : List Problem :=
  (if r.productions = [] then [⟨.emptyRule, r.name, []⟩] else [])
    ++ r.productions.flatMap (a.productionProblems r.name)

/-- The problems of implicit tokens, of which some were seen before. -/
def implicitProblems (a : Description) (seen : List Name) : List Name → List Problem
  | [] => []
  | name :: rest =>
    (if a.tokens.contains name then [] else [{ kind := .unknownImplicitToken, name }])
      ++ (if seen.contains name then [{ kind := .duplicateImplicitToken, name }] else [])
      ++ implicitProblems a (name :: seen) rest

/-- All problems of a description. -/
def problems (a : Description) : List Problem :=
  (repeated [] a.ruleNames).map (fun name => { kind := .duplicateRule, name })
    ++ (repeated [] a.tokens).map (fun name => { kind := .duplicateToken, name })
    ++ a.startProblems
    ++ a.rules.flatMap a.ruleProblems
    ++ a.redeclared.map (fun name => { kind := .duplicatePrecedence, name })
    ++ a.implicitProblems [] a.implicitTokens

end Description

end YaccTables
