import YaccTables.Description.Validation
import YaccTables.Document.Meaning
import YaccTables.Grammar
import YaccTables.Numbering

/-!
# From descriptions to grammars

Lowering numbers the symbols of a description and augments it:

* a start rule `^` gets the user's start rule as its only production;
* a terminal `$` that ends the input gets index 0;
* in an `eco` grammar with implicit tokens, a rule `~` derives any one implicit token or nothing,
  `~` follows every token of every user production, and the grammar starts with `^~ : ~ S`, so that
  implicit tokens may stand first;
* each production gets its precedence.

The markers `^`, `$`, `~` and `^~` are lengthened where a user's name is in the way.
-/

namespace YaccTables

/-! ## Errors -/

/-- Why a description cannot be lowered. -/
inductive LoweringReason
  | undefinedRule
  | undeclaredToken
  | unknownSymbolKind
  | unknownPrecedence
  | noProductions
  | noSuchRule
  | duplicateNonterminal
  | duplicateToken
  /-- A reason in the words of whoever reports it. -/
  | custom (text : Bytes)
  deriving DecidableEq, Repr

/-- The wording of a reason. -/
def LoweringReason.text : LoweringReason → Bytes
  | .undefinedRule => utf8 "reference to undefined rule"
  | .undeclaredToken => utf8 "reference to undeclared token"
  | .unknownSymbolKind => utf8 "unknown symbol kind"
  | .unknownPrecedence => utf8 "%prec names a symbol without precedence"
  | .noProductions => utf8 "rule has no productions"
  | .noSuchRule => utf8 "no such rule"
  | .duplicateNonterminal => utf8 "duplicate nonterminal"
  | .duplicateToken => utf8 "duplicate token"
  | .custom text => text

/-- A description that breaks what lowering relies on. -/
structure LoweringError where
  /-- The rule in which the fault was found, if any. -/
  rule : Name := []
  /-- The name that is at fault, if any. -/
  symbol : Name := []
  reason : LoweringReason
  deriving DecidableEq, Repr

/-- The line that reports the error. -/
def LoweringError.message (e : LoweringError) : Bytes := aboutRule e.rule e.reason.text e.symbol

/-! ## Names of synthetic symbols -/

/-- The names of the rules that weave in implicit tokens. -/
structure ImplicitNames where
  /-- The rule that derives an implicit token or nothing. -/
  implicit : Name
  /-- The rule that puts it before the user's start rule. -/
  implicitStart : Name
  deriving DecidableEq, Repr

/-- The names of the symbols that lowering adds. -/
structure SyntheticNames where
  start : Name
  endName : Name
  /-- Present if implicit tokens are woven in. -/
  woven : Option ImplicitNames
  deriving DecidableEq, Repr

namespace Description

/-- Whether lowering weaves in implicit tokens. -/
def weaves (kind : Kind) (a : Description) : Bool := kind == .eco && !a.implicitTokens.isEmpty

/-- The names of the symbols that lowering adds: the shortest free repetitions of their markers. -/
def syntheticNames (kind : Kind) (a : Description) : SyntheticNames :=
  let taken := a.ruleNames
  let start := freshName (utf8 "^") taken
  let implicit := freshName (utf8 "~") (start :: taken)
  let implicitStart := freshName (utf8 "^~") (implicit :: start :: taken)
  { start
    endName := freshName (utf8 "$") a.tokens
    woven := if a.weaves kind then some { implicit, implicitStart } else none }

end Description

/-- The names of the synthetic nonterminals. -/
def SyntheticNames.nonterminals (names : SyntheticNames) : List Name :=
  names.start :: match names.woven with
    | none => []
    | some woven => [woven.implicit, woven.implicitStart]

/-! ## Productions -/

namespace Lowering

/-- What references are resolved with: the description and the numbered names. -/
structure Scope where
  description : Description
  names : SyntheticNames
  nontermTable : Numbering.Table
  termTable : Numbering.Table

namespace Scope

/-- The names of the nonterminals in order of their numbers. -/
def nonterms (sc : Scope) : List Name := sc.nontermTable.names

/-- The names of the terminals in order of their numbers. -/
def terms (sc : Scope) : List Name := sc.termTable.names

end Scope

/-- The symbols and the precedence of a production whose nonterminal is known. -/
structure Body where
  symbols : List Symbol
  prec : Option Precedence := none
  deriving DecidableEq, Repr

/-- The nonterminal of a name, referred to from a rule. -/
def nonterm (sc : Scope) (rule name : Name) : Except LoweringError Symbol :=
  match sc.nontermTable.number? name with
  | some i => .ok (.nonterminal ⟨i⟩)
  | none => .error { rule, symbol := name, reason := .undefinedRule }

/-- The terminal of a name, referred to from a rule. -/
def term (sc : Scope) (rule name : Name) : Except LoweringError Symbol :=
  match sc.termTable.number? name with
  | some i => .ok (.terminal ⟨i⟩)
  | none => .error { rule, symbol := name, reason := .undeclaredToken }

/-- The symbols that follow every token. -/
def padding (sc : Scope) (rule : Name) : Except LoweringError (List Symbol) :=
  match sc.names.woven with
  | none => .ok []
  | some woven => return [← nonterm sc rule woven.implicit]

/-- The symbols that a reference stands for: itself, and after a token what follows every token. -/
def symbol (sc : Scope) (rule : Name) (pad : List Symbol) :
    SymbolRef → Except LoweringError (List Symbol)
  | .rule name => return [← nonterm sc rule name]
  | .token name => return (← term sc rule name) :: pad
  | .other _ name => .error { rule, symbol := name, reason := .unknownSymbolKind }

/-- The symbols of a user's production. -/
def symbols (sc : Scope) (rule : Name) (p : Production) : Except LoweringError (List Symbol) := do
  let pad ← padding sc rule
  return (← p.symbols.mapM (symbol sc rule pad)).flatten

/-- The precedence of a user's production: that of the symbol it names, else that of its last token.
A last token without precedence leaves the production without, whatever stands before it. -/
def precedence (a : Description) (rule : Name) (p : Production) :
    Except LoweringError (Option Precedence) :=
  if p.prec = [] then
    .ok ((SymbolRef.tokenNames p.symbols).getLast?.bind a.prec?)
  else
    match a.prec? p.prec with
    | some prec => .ok (some prec)
    | none => .error { rule, symbol := p.prec, reason := .unknownPrecedence }

/-- A user's production. -/
def body (sc : Scope) (rule : Name) (p : Production) : Except LoweringError Body := do
  let symbols ← symbols sc rule p
  let prec ← precedence sc.description rule p
  return { symbols, prec }

/-- The production of the start rule. -/
def startBodies (sc : Scope) : Except LoweringError (List Body) := do
  let target := match sc.names.woven with
    | none => sc.description.start
    | some woven => woven.implicitStart
  return [{ symbols := [← nonterm sc sc.names.start target] }]

/-- The production that puts implicit tokens before the user's start rule. -/
def implicitStartBodies (sc : Scope) (woven : ImplicitNames) :
    Except LoweringError (List Body) := do
  let implicit ← nonterm sc woven.implicitStart woven.implicit
  let start ← nonterm sc woven.implicitStart sc.description.start
  return [{ symbols := [implicit, start] }]

/-- The productions that derive an implicit token, in order of declaration, or nothing. -/
def implicitBodies (sc : Scope) (woven : ImplicitNames) : Except LoweringError (List Body) := do
  let tokens ← sc.description.implicitTokens.mapM (term sc woven.implicit)
  return tokens.map (fun t => { symbols := [t] }) ++ [{ symbols := [] }]

/-- The productions of a user's rule. -/
def userBodies (sc : Scope) (name : Name) : Except LoweringError (List Body) :=
  match sc.description.rule? name with
  | none => .error { rule := name, reason := .noSuchRule }
  | some r => r.productions.mapM (body sc name)

/-- The productions of a nonterminal, of which there has to be one. -/
def bodies (sc : Scope) (name : Name) : Except LoweringError (List Body) := do
  let found ←
    if name = sc.names.start then startBodies sc
    else match sc.names.woven with
      | none => userBodies sc name
      | some woven =>
        if name = woven.implicitStart then implicitStartBodies sc woven
        else if name = woven.implicit then implicitBodies sc woven
        else userBodies sc name
  if found = [] then .error { rule := name, reason := .noProductions } else .ok found

/-! ## Assembly -/

/-- Nonterminals whose productions are numbered one after the other. -/
def numberFrom (next : Nat) : List (Name × List Body) → List Nonterminal
  | [] => []
  | (name, bodies) :: rest =>
    ⟨name, (List.range' next bodies.length).map ProdIdx.mk⟩
      :: numberFrom (next + bodies.length) rest

/-- The productions of all nonterminals in order. -/
def assemble (groups : List (List Body)) : List IndexedProduction :=
  groups.zipIdx.flatMap fun (bodies, i) =>
    bodies.map fun b => { rule := ⟨i⟩, symbols := b.symbols, prec := b.prec }

/-- The terminals. The first one ends the input and never has a precedence. -/
def terminals (a : Description) : List Name → List Terminal
  | [] => []
  | endName :: tokens => ⟨endName, none⟩ :: tokens.map fun name => ⟨name, a.prec? name⟩

/-- The numbered names of a description. -/
def scope (fold : Bytes → Bytes) (kind : Kind) (a : Description) : Except LoweringError Scope := do
  let names := a.syntheticNames kind
  let nontermTable ← match Numbering.nontermTable fold (names.nonterminals ++ a.ruleNames) with
    | .ok table => Except.ok table
    | .error name => .error { rule := name, reason := LoweringReason.duplicateNonterminal }
  let termTable ← match Numbering.termTable names.endName a.tokens with
    | .ok table => Except.ok table
    | .error name => .error { symbol := name, reason := LoweringReason.duplicateToken }
  return { description := a, names, nontermTable, termTable }

/-- The grammar of the productions of all nonterminals. -/
def grammar (kind : Kind) (sc : Scope) (groups : List (List Body)) : Grammar :=
  let start := sc.nontermTable.number sc.names.start
  { kind
    nonterminals := numberFrom 0 (sc.nonterms.zip groups)
    terminals := terminals sc.description sc.terms
    productions := assemble groups
    startProd := ⟨(groups.take start).flatten.length⟩
    endTerm := ⟨sc.termTable.number sc.names.endName⟩
    implicitNonterm :=
      sc.names.woven.map fun woven => ⟨sc.nontermTable.number woven.implicit⟩ }

end Lowering

namespace Description

/-- Lowers a description, its nonterminals being ordered by a folding of their names. -/
def lowerWith (fold : Bytes → Bytes) (kind : Kind) (a : Description) :
    Except LoweringError Grammar := do
  let sc ← Lowering.scope fold kind a
  let groups ← sc.nonterms.mapM (Lowering.bodies sc)
  return Lowering.grammar kind sc groups

/-- Lowers a description. It should be free of problems. -/
def lower (kind : Kind) (a : Description) : Except LoweringError Grammar :=
  a.lowerWith Text.foldCase kind

end Description

end YaccTables
