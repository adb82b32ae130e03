import YaccTables.Precedence
import YaccTables.Token

/-!
# Grammar descriptions

A description is a grammar as a user states it: rules with their alternatives, tokens, precedences
and implicit tokens, all by name. It is built up by operations that keep its lists free of
repetitions, but nothing in its type forces it to make sense; see `Description.problems`.
-/

namespace YaccTables

/-- A reference to a symbol within a production. -/
inductive SymbolRef
  | rule (name : Name)
  | token (name : Name)
  /-- A reference of a sort known only by its number. -/
  | other (code : Int) (name : Name)
  deriving DecidableEq, Repr

namespace SymbolRef

/-- The reference of a numbered sort. -/
def ofCode (code : Int) (name : Name) : SymbolRef :=
  match code with
  | 0 => .rule name
  | 1 => .token name
  | code => .other code name

/-- The name referred to. -/
def name : SymbolRef → Name
  | .rule name => name
  | .token name => name
  | .other _ name => name

/-- The reference in grammar text: a token between quotes, all else bare. -/
def text : SymbolRef → Bytes
  | .token name => utf8 "'" ++ name ++ utf8 "'"
  | ref => ref.name

end SymbolRef

/-- One alternative of a rule. -/
structure Production where
  symbols : List SymbolRef
  /-- The symbol whose precedence the alternative takes, empty if it names none. -/
  prec : Name := []
  deriving DecidableEq, Repr

/-- A name with its alternatives. -/
structure Rule where
  name : Name
  productions : List Production := []
  deriving DecidableEq, Repr

/-- A grammar as its user states it. -/
structure Description where
  /-- The start rule, empty if none is given. -/
  start : Name := []
  /-- The rules in order of first definition. -/
  rules : List Rule := []
  /-- The tokens in order of declaration. -/
  tokens : List Name := []
  /-- The precedences of tokens and precedence symbols. -/
  precs : List (Name × Precedence) := []
  /-- The tokens that may stand anywhere, in order of declaration. -/
  implicitTokens : List Name := []
  /-- The level of the next precedence group. -/
  nextLevel : Nat := 0
  /-- The names given precedence again, in order of redeclaration. -/
  redeclared : List Name := []
  deriving DecidableEq, Repr

namespace Description

/-- The description that says nothing. -/
def empty : Description := {}

/-- The precedence of a name. -/
def prec? (a : Description) (name : Name) : Option Precedence := a.precs.lookup name

/-- The first rule of a name. -/
def rule? (a : Description) (name : Name) : Option Rule := a.rules.find? (·.name == name)

/-- Adds a rule without productions, unless there is one of that name. -/
def addRule (a : Description) (name : Name) : Description :=
  if (a.rule? name).isSome then a else { a with rules := a.rules ++ [{ name := name }] }

/-- Appends a production to the first rule of a name. -/
def appendTo (name : Name) (p : Production) : List Rule → List Rule
  | [] => []
  | r :: rest =>
    if r.name = name then { r with productions := r.productions ++ [p] } :: rest
    else r :: appendTo name p rest

/-- Appends a production to a rule, which is added if need be: repeated definitions of a rule
accumulate. -/
def addProduction (a : Description) (name : Name) (p : Production) : Description :=
  let a := a.addRule name
  { a with rules := appendTo name p a.rules }

/-- Declares a token, unless it is declared. -/
def addToken (a : Description) (name : Name) : Description :=
  if a.tokens.contains name then a else { a with tokens := a.tokens ++ [name] }

/-- Gives a name a precedence, unless it has one; then it is noted as redeclared. -/
def declarePrec (p : Precedence) (a : Description) (name : Name) : Description :=
  match a.prec? name with
  | some _ => { a with redeclared := a.redeclared ++ [name] }
  | none => { a with precs := a.precs ++ [(name, p)] }

/-- Declares a group of names on the next precedence level. The names do not become tokens. -/
def addPrecGroup (a : Description) (assoc : Assoc) (names : List Name) : Description :=
  names.foldl (declarePrec ⟨a.nextLevel, assoc⟩)
    { a with nextLevel := a.nextLevel + 1 }

/-- Sets the precedence of a name, whatever it was. -/
def setPrec (a : Description) (name : Name) (p : Precedence) : Description :=
  { a with precs := a.precs.filter (·.1 != name) ++ [(name, p)] }

/-- Declares a token that may stand between any two tokens. -/
def addImplicitToken (a : Description) (name : Name) : Description :=
  let a := a.addToken name
  if a.implicitTokens.contains name then a
  else { a with implicitTokens := a.implicitTokens ++ [name] }

/-- Declares tokens that may stand between any two tokens. -/
def addImplicitTokens (a : Description) (names : List Name) : Description :=
  names.foldl addImplicitToken a

/-- The precedences in order of name. -/
def sortedPrecs (a : Description) : List (Name × Precedence) :=
  a.precs.mergeSort fun p q => decide (p.1 ≤ q.1)

end Description

end YaccTables
