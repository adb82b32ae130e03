import Mathlib.Data.List.Forall2
import YaccTables.Document

/-!
# The form of a document

The grammar of grammar text, over lists of tokens and apart from the reader:

```text
document    = declaration* '%%' definition* (end of input | '%%')
declaration = '%start' identifier
            | ('%token' | '%left' | '%right' | '%nonassoc' | '%implicit_tokens') name+
definition  = identifier ':' alternative ('|' alternative)* ';'
alternative = name* ('%prec' name)?
```

Each form relates tokens to what they say. What comes after the token that ends a document is no
part of it.
-/

namespace YaccTables

/-- The token is a directive with this word. -/
def Token.IsDirective (t : Token) (word : String) : Prop :=
  t.kind = .directive ∧ t.lexeme = utf8 word

/-- The token stands for the name: an identifier for itself, a quoted token for what is between
its quotes, which must be something. -/
inductive NameForm : Token → Name → Prop where
  | identifier {t : Token} (hk : t.kind = .identifier) : NameForm t t.lexeme
  | quoted {t : Token} {first last : UInt8} {name : Name} (hk : t.kind = .quoted)
      (hlexeme : t.lexeme = first :: (name ++ [last])) (hne : name ≠ []) : NameForm t name

/-- One or more names. -/
def NamesForm (ts : List Token) (names : List Name) : Prop :=
  ts ≠ [] ∧ List.Forall₂ NameForm ts names

inductive DeclarationForm : List Token → Declaration → Prop where
  | start {d t : Token} (hd : d.IsDirective "%start") (ht : t.kind = .identifier) :
      DeclarationForm [d, t] (.start t.lexeme)
  | tokens {d : Token} {ts : List Token} {names : List Name} (hd : d.IsDirective "%token")
      (hts : NamesForm ts names) : DeclarationForm (d :: ts) (.tokens names)
  | left {d : Token} {ts : List Token} {names : List Name} (hd : d.IsDirective "%left")
      (hts : NamesForm ts names) : DeclarationForm (d :: ts) (.precedence .left names)
  | right {d : Token} {ts : List Token} {names : List Name} (hd : d.IsDirective "%right")
      (hts : NamesForm ts names) : DeclarationForm (d :: ts) (.precedence .right names)
  | nonassoc {d : Token} {ts : List Token} {names : List Name} (hd : d.IsDirective "%nonassoc")
      (hts : NamesForm ts names) : DeclarationForm (d :: ts) (.precedence .nonassoc names)
  | implicit {d : Token} {ts : List Token} {names : List Name}
      (hd : d.IsDirective "%implicit_tokens") (hts : NamesForm ts names) :
      DeclarationForm (d :: ts) (.implicit names)

/-- The token is a symbol of an alternative. -/
inductive WrittenForm : Token → Written → Prop where
  | bare {t : Token} (hk : t.kind = .identifier) : WrittenForm t (.bare t.lexeme)
  | quoted {t : Token} {name : Name} (hk : t.kind = .quoted) (hname : NameForm t name) :
      WrittenForm t (.quoted name)

inductive AlternativeForm : List Token → Alternative → Prop where
  | plain {ts : List Token} {symbols : List Written}
      (hts : List.Forall₂ WrittenForm ts symbols) : AlternativeForm ts ⟨symbols, none⟩
  | prec {ts : List Token} {symbols : List Written} {d t : Token} {name : Name}
      (hts : List.Forall₂ WrittenForm ts symbols) (hd : d.IsDirective "%prec")
      (ht : NameForm t name) : AlternativeForm (ts ++ [d, t]) ⟨symbols, some name⟩

/-- Alternatives with bars between them, through the semicolon. -/
inductive AlternativesForm : List Token → List Alternative → Prop where
  | last {ts : List Token} {alt : Alternative} {t : Token} (hts : AlternativeForm ts alt)
      (ht : t.kind = .semicolon) : AlternativesForm (ts ++ [t]) [alt]
  | more {ts us : List Token} {alt : Alternative} {alts : List Alternative} {t : Token}
      (hts : AlternativeForm ts alt) (ht : t.kind = .bar) (hus : AlternativesForm us alts) :
      AlternativesForm (ts ++ t :: us) (alt :: alts)

inductive DefinitionForm : List Token → Definition → Prop where
  | mk {t c : Token} {us : List Token} {alts : List Alternative} (ht : t.kind = .identifier)
      (hc : c.kind = .colon) (hus : AlternativesForm us alts) :
      DefinitionForm (t :: c :: us) ⟨t.lexeme, alts⟩

/-- The tokens of a document through the one that ends it. `%start` stands at most once. -/
inductive DocumentForm : List Token → Document → Prop where
  | mk {declared defined : List (List Token)} {mark last : Token}
      {declarations : List Declaration} {definitions : List Definition}
      (hdeclared : List.Forall₂ DeclarationForm declared declarations)
      (hmark : mark.kind = .sections)
      (hdefined : List.Forall₂ DefinitionForm defined definitions)
      (hlast : last.kind = .endOfInput ∨ last.kind = .sections)
      (hstart : declarations.countP Declaration.isStart ≤ 1) :
      DocumentForm (declared.flatten ++ mark :: (defined.flatten ++ [last]))
        ⟨declarations, definitions⟩

/-! ## How forms start and grow -/

/-- A token that stands for a name is a name. -/
theorem NameForm.isName {t : Token} {name : Name} (h : NameForm t name) : t.isName = true := by
  cases h with
  | identifier hk => simp [Token.isName, hk]
  | quoted hk _ _ => simp [Token.isName, hk]

/-- A declaration begins with its directive. -/
theorem DeclarationForm.head {ts : List Token} {decl : Declaration} (h : DeclarationForm ts decl) :
    ∃ d us, ts = d :: us ∧ d.kind = .directive := by
  cases h with
  | start hd _ => exact ⟨_, _, rfl, hd.1⟩
  | tokens hd _ | left hd _ | right hd _ | nonassoc hd _ | implicit hd _ =>
    exact ⟨_, _, rfl, hd.1⟩

/-- A symbol can be put before an alternative. -/
theorem AlternativeForm.cons {t : Token} {ts : List Token} {w : Written} {alt : Alternative}
    (h : AlternativeForm ts alt) (hw : WrittenForm t w) :
    AlternativeForm (t :: ts) { alt with symbols := w :: alt.symbols } := by
  cases h with
  | plain hts => exact .plain (.cons hw hts)
  | prec hts hd ht => exact .prec (.cons hw hts) hd ht

end YaccTables
