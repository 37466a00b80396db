import Typeahead.Grammar.Rule

/-! The terminals that can follow a rule. They decide when a completed rule is recognised. -/

namespace Typeahead

/-- The terminals that can follow a rule somewhere in a file. -/
def Rule.follow : Rule → List Terminal
  | .file =>
    []
  | .preamble | .importList | .topLevelObject | .fileItems =>
    [.kwClass, .kwFun, .kwVal, .kwVar]
  | .packageHeader | .importHeader | .importItems =>
    [.kwImport, .kwClass, .kwFun, .kwVal, .kwVar]
  | .qualifiedName =>
    [.kwImport, .kwClass, .kwFun, .kwVal, .kwVar, .semicolon]
  | .declaration | .classDeclaration | .classBody =>
    [.kwClass, .kwFun, .kwVal, .kwVar, .semicolon]
  | .classParameters =>
    [.kwClass, .kwFun, .kwVal, .kwVar, .lbrace, .semicolon]
  | .classParameter | .parameter | .classParameterTail | .parameterTail | .argumentTail =>
    [.rpar, .comma]
  | .classMember | .classMembers =>
    [.kwFun, .kwVal, .kwVar, .rbrace]
  | .functionDeclaration | .functionBody | .propertyDeclaration =>
    [.kwClass, .kwFun, .kwVal, .kwVar, .kwIf, .kwFor, .kwWhile, .kwReturn, .kwBreak, .kwContinue,
     .kwTrue, .kwFalse, .kwNull, .lpar, .rbrace, .semicolon, .sub, .excl, .name, .number, .string]
  | .functionParameters =>
    [.kwClass, .kwFun, .kwVal, .kwVar, .kwIf, .kwFor, .kwWhile, .kwReturn, .kwBreak, .kwContinue,
     .kwTrue, .kwFalse, .kwNull, .lpar, .lbrace, .rbrace, .colon, .semicolon, .equal, .sub, .excl,
     .name, .number, .string]
  | .typeReference =>
    [.kwClass, .kwFun, .kwVal, .kwVar, .kwIf, .kwFor, .kwWhile, .kwReturn, .kwBreak, .kwContinue,
     .kwTrue, .kwFalse, .kwNull, .lpar, .rpar, .lbrace, .rbrace, .comma, .semicolon, .equal, .sub,
     .excl, .name, .number, .string]
  | .block | .assignment | .jump | .controlBody | .expression | .disjunction | .conjunction
  | .equality | .comparison | .additive | .multiplicative | .prefixUnary | .postfixUnary
  | .postfixSuffix | .callSuffix | .navigationSuffix | .primary | .parenthesized | .identifier
  | .literal | .stringLiteral | .ifExpression | .disjunctionTail | .conjunctionTail
  | .equalityTail | .comparisonTail | .additiveTail | .multiplicativeTail | .postfixSuffixes =>
    [.kwClass, .kwFun, .kwVal, .kwVar, .kwIf, .kwElse, .kwFor, .kwWhile, .kwReturn, .kwBreak,
     .kwContinue, .kwTrue, .kwFalse, .kwNull, .lpar, .rpar, .rbrace, .comma, .semicolon, .dot,
     .eqeq, .exclEq, .le, .ge, .langle, .rangle, .conj, .disj, .add, .sub, .mult, .div, .mod,
     .excl, .name, .number, .string]
  | .statement | .statements =>
    [.kwFun, .kwVal, .kwVar, .kwIf, .kwFor, .kwWhile, .kwReturn, .kwBreak, .kwContinue, .kwTrue,
     .kwFalse, .kwNull, .lpar, .rbrace, .sub, .excl, .name, .number, .string]
  | .forStatement | .whileStatement =>
    [.kwFun, .kwVal, .kwVar, .kwIf, .kwFor, .kwWhile, .kwReturn, .kwBreak, .kwContinue, .kwTrue,
     .kwFalse, .kwNull, .lpar, .rbrace, .semicolon, .sub, .excl, .name, .number, .string]
  | .semi =>
    [.kwImport, .kwClass, .kwFun, .kwVal, .kwVar, .kwIf, .kwFor, .kwWhile, .kwReturn, .kwBreak,
     .kwContinue, .kwTrue, .kwFalse, .kwNull, .lpar, .rbrace, .sub, .excl, .name, .number, .string]
  | .nameTail =>
    [.kwImport, .kwClass, .kwFun, .kwVal, .kwVar, .kwIf, .kwFor, .kwWhile, .kwReturn, .kwBreak,
     .kwContinue, .kwTrue, .kwFalse, .kwNull, .lpar, .rpar, .lbrace, .rbrace, .comma, .semicolon,
     .dot, .quest, .equal, .sub, .excl, .name, .number, .string]

/-- Whether a rule can stand at the very end of a file. -/
def Rule.endsFile : Rule → Bool
  | .classParameter | .classMember | .parameter | .statement | .forStatement | .whileStatement
  | .classParameterTail | .classMembers | .parameterTail | .statements | .argumentTail => false
  | _ => true

end Typeahead
