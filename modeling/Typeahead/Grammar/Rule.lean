import Typeahead.Grammar.Terminal

/-! The rules of mykt: nonterminals, their alternatives, and how each shapes the tree. -/

namespace Typeahead

/-- A nonterminal. The last fifteen stand for the repeated parts of other rules. -/
inductive Rule where
  | file | preamble | packageHeader | importList | importHeader | qualifiedName | topLevelObject
  | declaration | classDeclaration | classParameters | classParameter | classBody | classMember
  | functionDeclaration | functionParameters | parameter | functionBody | propertyDeclaration
  | typeReference | block | statement | assignment | forStatement | whileStatement | jump
  | controlBody | semi | expression | disjunction | conjunction | equality | comparison | additive
  | multiplicative | prefixUnary | postfixUnary | postfixSuffix | callSuffix | navigationSuffix
  | primary | parenthesized | identifier | literal | stringLiteral | ifExpression | fileItems
  | importItems | nameTail | classParameterTail | classMembers | parameterTail | statements
  | disjunctionTail | conjunctionTail | equalityTail | comparisonTail | additiveTail
  | multiplicativeTail | postfixSuffixes | argumentTail
  deriving DecidableEq, Repr

/-- A symbol in the body of a rule. -/
inductive Symbol where
  | t (terminal : Terminal)
  | r (rule : Rule)
  deriving DecidableEq, Repr

namespace Rule

/-- The name a node of this rule is listed under. -/
def label : Rule → String
  | .file => "kotlin_file"
  | .preamble => "preamble"
  | .packageHeader => "package_header"
  | .importList => "import_list"
  | .importHeader => "import_header"
  | .qualifiedName => "qualified_name"
  | .topLevelObject => "_top_level_object"
  | .declaration => "_declaration"
  | .classDeclaration => "class_declaration"
  | .classParameters => "class_parameters"
  | .classParameter => "class_parameter"
  | .classBody => "class_body"
  | .classMember => "_class_member"
  | .functionDeclaration => "function_declaration"
  | .functionParameters => "function_value_parameters"
  | .parameter => "parameter"
  | .functionBody => "function_body"
  | .propertyDeclaration => "property_declaration"
  | .typeReference => "type_reference"
  | .block => "block"
  | .statement => "_statement"
  | .assignment => "assignment"
  | .forStatement => "for_statement"
  | .whileStatement => "while_statement"
  | .jump => "jump_expression"
  | .controlBody => "control_body"
  | .semi => "_semi"
  | .expression => "expression"
  | .disjunction => "disjunction"
  | .conjunction => "conjunction"
  | .equality => "equality"
  | .comparison => "comparison"
  | .additive => "additive"
  | .multiplicative => "multiplicative"
  | .prefixUnary => "prefix_unary"
  | .postfixUnary => "postfix_unary"
  | .postfixSuffix => "_postfix_suffix"
  | .callSuffix => "call_suffix"
  | .navigationSuffix => "navigation_suffix"
  | .primary => "primary_expression"
  | .parenthesized => "parenthesized_expression"
  | .identifier => "simple_identifier"
  | .literal => "literal_constant"
  | .stringLiteral => "string_literal"
  | .ifExpression => "if_expression"
  | .fileItems => "__kotlin_file_star_0"
  | .importItems => "__import_list_star_1"
  | .nameTail => "__qualified_name_star_2"
  | .classParameterTail => "__class_parameters_star_3"
  | .classMembers => "__class_body_star_4"
  | .parameterTail => "__function_value_parameters_star_5"
  | .statements => "__block_star_6"
  | .disjunctionTail => "__disjunction_star_7"
  | .conjunctionTail => "__conjunction_star_8"
  | .equalityTail => "__equality_star_9"
  | .comparisonTail => "__comparison_star_10"
  | .additiveTail => "__additive_star_11"
  | .multiplicativeTail => "__multiplicative_star_12"
  | .postfixSuffixes => "__postfix_unary_star_13"
  | .argumentTail => "__call_suffix_star_14"

/-- A spliced rule leaves no node of its own in a finished tree: whatever holds it takes over its
children. -/
def spliced : Rule → Bool
  | .topLevelObject | .declaration | .classMember | .statement | .semi | .postfixSuffix
  | .fileItems | .importItems | .nameTail | .classParameterTail | .classMembers | .parameterTail
  | .statements | .disjunctionTail | .conjunctionTail | .equalityTail | .comparisonTail
  | .additiveTail | .multiplicativeTail | .postfixSuffixes | .argumentTail => true
  | _ => false

/-- A node of a collapsing rule with one child is that child. -/
def collapses : Rule → Bool
  | .controlBody | .expression | .disjunction | .conjunction | .equality | .comparison | .additive
  | .multiplicative | .prefixUnary | .postfixUnary | .primary => true
  | _ => false

/-- The bodies of a rule. -/
def alternatives : Rule → List (List Symbol)
  | .file => [[.r .preamble, .r .fileItems], [.r .preamble]]
  | .preamble => [[.r .packageHeader, .r .importList], [.r .importList]]
  | .packageHeader =>
    [[.t .kwPackage, .r .qualifiedName, .r .semi],
     [.t .kwPackage, .r .qualifiedName]]
  | .importList => [[.r .importItems], []]
  | .importHeader =>
    [[.t .kwImport, .r .qualifiedName, .r .semi],
     [.t .kwImport, .r .qualifiedName]]
  | .qualifiedName => [[.t .name, .r .nameTail], [.t .name]]
  | .topLevelObject => [[.r .declaration, .r .semi], [.r .declaration]]
  | .declaration => [[.r .classDeclaration], [.r .functionDeclaration], [.r .propertyDeclaration]]
  | .classDeclaration =>
    [[.t .kwClass, .t .name, .r .classParameters, .r .classBody],
     [.t .kwClass, .t .name, .r .classParameters],
     [.t .kwClass, .t .name, .r .classBody],
     [.t .kwClass, .t .name]]
  | .classParameters =>
    [[.t .lpar, .r .classParameter, .r .classParameterTail, .t .rpar],
     [.t .lpar, .r .classParameter, .t .rpar],
     [.t .lpar, .t .rpar]]
  | .classParameter =>
    [[.t .kwVal, .t .name, .t .colon, .r .typeReference],
     [.t .kwVar, .t .name, .t .colon, .r .typeReference],
     [.t .name, .t .colon, .r .typeReference]]
  | .classBody => [[.t .lbrace, .r .classMembers, .t .rbrace], [.t .lbrace, .t .rbrace]]
  | .classMember =>
    [[.r .functionDeclaration, .r .semi],
     [.r .functionDeclaration],
     [.r .propertyDeclaration, .r .semi],
     [.r .propertyDeclaration]]
  | .functionDeclaration =>
    [[.t .kwFun, .t .name, .r .functionParameters, .t .colon, .r .typeReference, .r .functionBody],
     [.t .kwFun, .t .name, .r .functionParameters, .t .colon, .r .typeReference],
     [.t .kwFun, .t .name, .r .functionParameters, .r .functionBody],
     [.t .kwFun, .t .name, .r .functionParameters]]
  | .functionParameters =>
    [[.t .lpar, .r .parameter, .r .parameterTail, .t .rpar],
     [.t .lpar, .r .parameter, .t .rpar],
     [.t .lpar, .t .rpar]]
  | .parameter => [[.t .name, .t .colon, .r .typeReference]]
  | .functionBody => [[.r .block], [.t .equal, .r .expression]]
  | .propertyDeclaration =>
    [[.t .kwVal, .t .name, .t .colon, .r .typeReference, .t .equal, .r .expression],
     [.t .kwVal, .t .name, .t .colon, .r .typeReference],
     [.t .kwVal, .t .name, .t .equal, .r .expression],
     [.t .kwVal, .t .name],
     [.t .kwVar, .t .name, .t .colon, .r .typeReference, .t .equal, .r .expression],
     [.t .kwVar, .t .name, .t .colon, .r .typeReference],
     [.t .kwVar, .t .name, .t .equal, .r .expression],
     [.t .kwVar, .t .name]]
  | .typeReference =>
    [[.t .name, .r .nameTail, .t .quest],
     [.t .name, .r .nameTail],
     [.t .name, .t .quest],
     [.t .name]]
  | .block => [[.t .lbrace, .r .statements, .t .rbrace], [.t .lbrace, .t .rbrace]]
  | .statement =>
    [[.r .propertyDeclaration, .r .semi],
     [.r .propertyDeclaration],
     [.r .functionDeclaration, .r .semi],
     [.r .functionDeclaration],
     [.r .assignment, .r .semi],
     [.r .assignment],
     [.r .forStatement, .r .semi],
     [.r .forStatement],
     [.r .whileStatement, .r .semi],
     [.r .whileStatement],
     [.r .jump, .r .semi],
     [.r .jump],
     [.r .expression, .r .semi],
     [.r .expression]]
  | .assignment => [[.t .name, .t .equal, .r .expression]]
  | .forStatement =>
    [[.t .kwFor, .t .lpar, .t .name, .t .kwIn, .r .expression, .t .rpar, .r .controlBody]]
  | .whileStatement => [[.t .kwWhile, .t .lpar, .r .expression, .t .rpar, .r .controlBody]]
  | .jump => [[.t .kwReturn, .r .expression], [.t .kwReturn], [.t .kwBreak], [.t .kwContinue]]
  | .controlBody => [[.r .block], [.r .assignment], [.r .jump], [.r .expression]]
  | .semi => [[.t .semicolon]]
  | .expression => [[.r .disjunction]]
  | .disjunction => [[.r .conjunction, .r .disjunctionTail], [.r .conjunction]]
  | .conjunction => [[.r .equality, .r .conjunctionTail], [.r .equality]]
  | .equality => [[.r .comparison, .r .equalityTail], [.r .comparison]]
  | .comparison => [[.r .additive, .r .comparisonTail], [.r .additive]]
  | .additive => [[.r .multiplicative, .r .additiveTail], [.r .multiplicative]]
  | .multiplicative => [[.r .prefixUnary, .r .multiplicativeTail], [.r .prefixUnary]]
  | .prefixUnary => [[.t .sub, .r .prefixUnary], [.t .excl, .r .prefixUnary], [.r .postfixUnary]]
  | .postfixUnary => [[.r .primary, .r .postfixSuffixes], [.r .primary]]
  | .postfixSuffix => [[.r .callSuffix], [.r .navigationSuffix]]
  | .callSuffix =>
    [[.t .lpar, .r .expression, .r .argumentTail, .t .rpar],
     [.t .lpar, .r .expression, .t .rpar],
     [.t .lpar, .t .rpar]]
  | .navigationSuffix => [[.t .dot, .t .name]]
  | .primary =>
    [[.r .parenthesized],
     [.r .identifier],
     [.r .literal],
     [.r .stringLiteral],
     [.r .ifExpression]]
  | .parenthesized => [[.t .lpar, .r .expression, .t .rpar]]
  | .identifier => [[.t .name]]
  | .literal => [[.t .number], [.t .kwTrue], [.t .kwFalse], [.t .kwNull]]
  | .stringLiteral => [[.t .string]]
  | .ifExpression =>
    [[.t .kwIf, .t .lpar, .r .expression, .t .rpar, .r .controlBody, .t .kwElse, .r .controlBody],
     [.t .kwIf, .t .lpar, .r .expression, .t .rpar, .r .controlBody]]
  | .fileItems => [[.r .topLevelObject], [.r .fileItems, .r .topLevelObject]]
  | .importItems => [[.r .importHeader], [.r .importItems, .r .importHeader]]
  | .nameTail => [[.t .dot, .t .name], [.r .nameTail, .t .dot, .t .name]]
  | .classParameterTail =>
    [[.t .comma, .r .classParameter],
     [.r .classParameterTail, .t .comma, .r .classParameter]]
  | .classMembers => [[.r .classMember], [.r .classMembers, .r .classMember]]
  | .parameterTail => [[.t .comma, .r .parameter], [.r .parameterTail, .t .comma, .r .parameter]]
  | .statements => [[.r .statement], [.r .statements, .r .statement]]
  | .disjunctionTail =>
    [[.t .disj, .r .conjunction],
     [.r .disjunctionTail, .t .disj, .r .conjunction]]
  | .conjunctionTail => [[.t .conj, .r .equality], [.r .conjunctionTail, .t .conj, .r .equality]]
  | .equalityTail =>
    [[.t .eqeq, .r .comparison],
     [.t .exclEq, .r .comparison],
     [.r .equalityTail, .t .eqeq, .r .comparison],
     [.r .equalityTail, .t .exclEq, .r .comparison]]
  | .comparisonTail =>
    [[.t .le, .r .additive],
     [.t .ge, .r .additive],
     [.t .langle, .r .additive],
     [.t .rangle, .r .additive],
     [.r .comparisonTail, .t .le, .r .additive],
     [.r .comparisonTail, .t .ge, .r .additive],
     [.r .comparisonTail, .t .langle, .r .additive],
     [.r .comparisonTail, .t .rangle, .r .additive]]
  | .additiveTail =>
    [[.t .add, .r .multiplicative],
     [.t .sub, .r .multiplicative],
     [.r .additiveTail, .t .add, .r .multiplicative],
     [.r .additiveTail, .t .sub, .r .multiplicative]]
  | .multiplicativeTail =>
    [[.t .mult, .r .prefixUnary],
     [.t .div, .r .prefixUnary],
     [.t .mod, .r .prefixUnary],
     [.r .multiplicativeTail, .t .mult, .r .prefixUnary],
     [.r .multiplicativeTail, .t .div, .r .prefixUnary],
     [.r .multiplicativeTail, .t .mod, .r .prefixUnary]]
  | .postfixSuffixes => [[.r .postfixSuffix], [.r .postfixSuffixes, .r .postfixSuffix]]
  | .argumentTail => [[.t .comma, .r .expression], [.r .argumentTail, .t .comma, .r .expression]]

end Rule

/-- A rule together with one of its bodies. -/
structure Production where
  rule : Rule
  body : List Symbol
  deriving DecidableEq, Repr

/-- The production for the alternative with the given number. -/
def Rule.production (r : Rule) (choice : Nat) : Production :=
  ⟨r, (r.alternatives[choice]?).getD []⟩

/-- Whether a symbol's children take its place. -/
def Symbol.spliced : Symbol → Bool
  | .t _ => false
  | .r rule => rule.spliced

end Typeahead
