/-! The terminals of mykt, in grammar order. -/

namespace Typeahead

/-- A class of lexemes. The order of the constructors is the order in which terminals are listed
wherever several of them are reported. -/
inductive Terminal where
  | kwPackage | kwImport | kwClass | kwFun | kwVal | kwVar | kwIf | kwElse | kwFor | kwIn
  | kwWhile | kwReturn | kwBreak | kwContinue | kwTrue | kwFalse | kwNull | lpar | rpar | lbrace
  | rbrace | comma | colon | semicolon | dot | quest | eqeq | exclEq | equal | le | ge | langle
  | rangle | conj | disj | add | sub | mult | div | mod | excl | name | number | string
  | lineComment | delimitedComment | ws
  deriving DecidableEq, Repr

namespace Terminal

/-- All terminals in grammar order. -/
def all : List Terminal :=
  [.kwPackage, .kwImport, .kwClass, .kwFun, .kwVal, .kwVar, .kwIf, .kwElse, .kwFor, .kwIn,
   .kwWhile, .kwReturn, .kwBreak, .kwContinue, .kwTrue, .kwFalse, .kwNull, .lpar, .rpar, .lbrace,
   .rbrace, .comma, .colon, .semicolon, .dot, .quest, .eqeq, .exclEq, .equal, .le, .ge, .langle,
   .rangle, .conj, .disj, .add, .sub, .mult, .div, .mod, .excl, .name, .number, .string,
   .lineComment, .delimitedComment, .ws]

/-- The name under which a terminal is reported. -/
def label : Terminal → String
  | .kwPackage => "PACKAGE"
  | .kwImport => "IMPORT"
  | .kwClass => "CLASS"
  | .kwFun => "FUN"
  | .kwVal => "VAL"
  | .kwVar => "VAR"
  | .kwIf => "IF"
  | .kwElse => "ELSE"
  | .kwFor => "FOR"
  | .kwIn => "IN"
  | .kwWhile => "WHILE"
  | .kwReturn => "RETURN"
  | .kwBreak => "BREAK"
  | .kwContinue => "CONTINUE"
  | .kwTrue => "TRUE"
  | .kwFalse => "FALSE"
  | .kwNull => "NULL"
  | .lpar => "LPAR"
  | .rpar => "RPAR"
  | .lbrace => "LBRACE"
  | .rbrace => "RBRACE"
  | .comma => "COMMA"
  | .colon => "COLON"
  | .semicolon => "SEMICOLON"
  | .dot => "DOT"
  | .quest => "QUEST"
  | .eqeq => "EQEQ"
  | .exclEq => "EXCL_EQ"
  | .equal => "EQUAL"
  | .le => "LE"
  | .ge => "GE"
  | .langle => "LANGLE"
  | .rangle => "RANGLE"
  | .conj => "CONJ"
  | .disj => "DISJ"
  | .add => "ADD"
  | .sub => "SUB"
  | .mult => "MULT"
  | .div => "DIV"
  | .mod => "MOD"
  | .excl => "EXCL"
  | .name => "NAME"
  | .number => "NUMBER"
  | .string => "STRING"
  | .lineComment => "LINE_COMMENT"
  | .delimitedComment => "DELIMITED_COMMENT"
  | .ws => "WS"

/-- The fixed text of a keyword or punctuation terminal; `none` for one given by a pattern. -/
def literal? : Terminal → Option String
  | .kwPackage => some "package"
  | .kwImport => some "import"
  | .kwClass => some "class"
  | .kwFun => some "fun"
  | .kwVal => some "val"
  | .kwVar => some "var"
  | .kwIf => some "if"
  | .kwElse => some "else"
  | .kwFor => some "for"
  | .kwIn => some "in"
  | .kwWhile => some "while"
  | .kwReturn => some "return"
  | .kwBreak => some "break"
  | .kwContinue => some "continue"
  | .kwTrue => some "true"
  | .kwFalse => some "false"
  | .kwNull => some "null"
  | .lpar => some "("
  | .rpar => some ")"
  | .lbrace => some "\x7b"
  | .rbrace => some "\x7d"
  | .comma => some ","
  | .colon => some ":"
  | .semicolon => some ";"
  | .dot => some "."
  | .quest => some "?"
  | .eqeq => some "=="
  | .exclEq => some "!="
  | .equal => some "="
  | .le => some "<="
  | .ge => some ">="
  | .langle => some "<"
  | .rangle => some ">"
  | .conj => some "&&"
  | .disj => some "||"
  | .add => some "+"
  | .sub => some "-"
  | .mult => some "*"
  | .div => some "/"
  | .mod => some "%"
  | .excl => some "!"
  | _ => none

/-- The terminal reported under a given name. -/
def ofLabel? (s : String) : Option Terminal :=
  all.find? fun t => t.label == s

/-- Keywords: the lexemes of names that are not names. -/
def keywords : List Terminal :=
  [.kwPackage, .kwImport, .kwClass, .kwFun, .kwVal, .kwVar, .kwIf, .kwElse, .kwFor, .kwIn,
   .kwWhile, .kwReturn, .kwBreak, .kwContinue, .kwTrue, .kwFalse, .kwNull]

/-- Punctuation and operators, two-character ones first, so that the longer one is found. -/
def punctuation : List Terminal :=
  [.eqeq, .exclEq, .le, .ge, .conj, .disj, .lpar, .rpar, .lbrace, .rbrace, .comma, .colon,
   .semicolon, .dot, .quest, .equal, .langle, .rangle, .add, .sub, .mult, .div, .mod, .excl]

/-- Blank space and comments: kept in the token stream, never shown to the parser. -/
def hidden : Terminal → Bool
  | .ws | .lineComment | .delimitedComment => true
  | _ => false

/-- The terminals whose literal is a word. -/
def isKeyword (t : Terminal) : Bool :=
  keywords.contains t

theorem mem_all (t : Terminal) : t ∈ all := by
  cases t <;> decide

end Terminal

end Typeahead
