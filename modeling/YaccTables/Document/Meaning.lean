import YaccTables.Document.Reader

/-!
# What a document describes

A quoted name in a production is a token, and so is a bare name that some declaration before the
first `%%` mentions, precedence groups included; every other bare name refers to a rule. A name
becomes a token where it is declared or first used as one, so that a name used only for its
precedence never does.
-/

namespace YaccTables

namespace Description

/-- What a declaration adds to a description. -/
def declare (a : Description) : Declaration → Description
  | .start rule => { a with start := rule }
  | .tokens names => names.foldl addToken a
  | .precedence assoc names => a.addPrecGroup assoc names
  | .implicit names => a.addImplicitTokens names

/-- The names that a description declares: its tokens and all that has precedence. -/
def declaredNames (a : Description) : List Name := a.tokens ++ a.precs.map Prod.fst

end Description

/-- The reference that a written symbol makes, given the declared names. -/
def Written.resolve (declared : List Name) : Written → SymbolRef
  | .quoted name => .token name
  | .bare name => if declared.contains name then .token name else .rule name

/-- The names of the tokens among some references. -/
def SymbolRef.tokenNames (refs : List SymbolRef) : List Name :=
  refs.filterMap fun
    | .token name => some name
    | _ => none

/-- The production that an alternative stands for. -/
def Alternative.production (declared : List Name) (alt : Alternative) : Production :=
  { symbols := alt.symbols.map (Written.resolve declared), prec := alt.prec.getD [] }

namespace Description

/-- Adds an alternative of a rule together with the tokens that it uses. -/
def addAlternative (declared : List Name) (rule : Name) (a : Description) (alt : Alternative) :
    Description :=
  let p := alt.production declared
  ((SymbolRef.tokenNames p.symbols).foldl addToken a).addProduction rule p

/-- Adds a definition of a rule. -/
def define (declared : List Name) (a : Description) (d : Definition) : Description :=
  d.alternatives.foldl (addAlternative declared d.rule) (a.addRule d.rule)

end Description

/-- The description that a document gives. -/
def Document.description (doc : Document) : Description :=
  let declared := doc.declarations.foldl Description.declare .empty
  doc.definitions.foldl (Description.define declared.declaredNames) declared

/-- Reads grammar text, with the failures of an engine. -/
def Description.parseWith (engine : Scan.Engine) (source : Source) :
    Except ParseError Description :=
  match Document.ofTextWith engine source.text with
  | .ok doc => .ok doc.description
  | .error flaw => .error (.ofFlaw source flaw)

/-- Reads grammar text. -/
def Description.parse (source : Source) : Except ParseError Description :=
  parseWith .standard source

end YaccTables
