import Typeahead.Grammar.Rule

/-! The automaton of the grammar as data: where each state goes, and what it has completed. -/

namespace Typeahead.Automaton

/-- A state, by its row in the table. -/
abbrev State := Nat

/-- What the automaton does in one state. -/
structure Row where
  /-- The symbol whose recognition leads here; `none` for the start. -/
  symbol : Option Symbol := none
  /-- Where each terminal leads. -/
  shifts : List (Terminal × State) := []
  /-- Where each rule leads once it has been recognised. -/
  gotos : List (Rule × State) := []
  /-- The production whose body ends here. -/
  complete : Option Production := none
  deriving Repr

/-- The terminals that begin an operand. -/
def operandShifts : List (Terminal × State) :=
  [(.kwIf, 9), (.kwTrue, 17), (.kwFalse, 18), (.kwNull, 19), (.lpar, 22), (.sub, 89), (.excl, 98),
   (.name, 109), (.number, 115), (.string, 116)]

/-- The terminals that begin the body of a loop or a branch. -/
def bodyShifts : List (Terminal × State) :=
  [(.kwIf, 9), (.kwReturn, 14), (.kwBreak, 15), (.kwContinue, 16), (.kwTrue, 17), (.kwFalse, 18),
   (.kwNull, 19), (.lpar, 22), (.lbrace, 41), (.sub, 89), (.excl, 98), (.name, 112),
   (.number, 115), (.string, 116)]

/-- The rules that an operand can turn out to be, from the loosest binding to the tightest. -/
def operandGotos : List (Rule × State) :=
  [(.disjunction, 199), (.conjunction, 200), (.equality, 203), (.comparison, 206),
   (.additive, 211), (.multiplicative, 220), (.prefixUnary, 225), (.postfixUnary, 234),
   (.primary, 239), (.parenthesized, 240), (.identifier, 241), (.literal, 242),
   (.stringLiteral, 243), (.ifExpression, 244)]

/-- The row of the start state. -/
def startRows : List Row := [
  { shifts := [(.kwPackage, 1), (.kwImport, 2)],
    gotos := [(.file, 117), (.preamble, 118), (.packageHeader, 119), (.importList, 120),
      (.importHeader, 122), (.importItems, 246)],
    complete := some (Rule.production .importList 1) }]

/-- States entered by a keyword. -/
def keywordRows : List Row := [
  { symbol := some (.t .kwPackage), shifts := [(.name, 99)], gotos := [(.qualifiedName, 124)] },
  { symbol := some (.t .kwImport), shifts := [(.name, 99)], gotos := [(.qualifiedName, 125)] },
  { symbol := some (.t .kwClass), shifts := [(.name, 100)] },
  { symbol := some (.t .kwFun), shifts := [(.name, 101)] },
  { symbol := some (.t .kwVal), shifts := [(.name, 102)] },
  { symbol := some (.t .kwVal), shifts := [(.name, 110)] },
  { symbol := some (.t .kwVar), shifts := [(.name, 103)] },
  { symbol := some (.t .kwVar), shifts := [(.name, 111)] },
  { symbol := some (.t .kwIf), shifts := [(.lpar, 23)] },
  { symbol := some (.t .kwElse), shifts := bodyShifts,
    gotos := [(.block, 158), (.assignment, 162), (.jump, 166), (.controlBody, 169),
      (.expression, 195)] ++ operandGotos },
  { symbol := some (.t .kwFor), shifts := [(.lpar, 25)] },
  { symbol := some (.t .kwIn), shifts := operandShifts,
    gotos := [(.expression, 197)] ++ operandGotos },
  { symbol := some (.t .kwWhile), shifts := [(.lpar, 26)] },
  { symbol := some (.t .kwReturn), shifts := operandShifts,
    gotos := [(.expression, 188)] ++ operandGotos, complete := some (Rule.production .jump 1) },
  { symbol := some (.t .kwBreak), complete := some (Rule.production .jump 2) },
  { symbol := some (.t .kwContinue), complete := some (Rule.production .jump 3) },
  { symbol := some (.t .kwTrue), complete := some (Rule.production .literal 1) },
  { symbol := some (.t .kwFalse), complete := some (Rule.production .literal 2) },
  { symbol := some (.t .kwNull), complete := some (Rule.production .literal 3) }]

/-- States entered by punctuation or an operator. -/
def punctuationRows : List Row := [
  { symbol := some (.t .lpar), shifts := [(.kwVal, 6), (.kwVar, 8), (.rpar, 27), (.name, 106)],
    gotos := [(.classParameter, 131)] },
  { symbol := some (.t .lpar), shifts := [(.rpar, 28), (.name, 107)],
    gotos := [(.parameter, 142)] },
  { symbol := some (.t .lpar), shifts := operandShifts,
    gotos := [(.expression, 187)] ++ operandGotos },
  { symbol := some (.t .lpar), shifts := operandShifts,
    gotos := [(.expression, 190)] ++ operandGotos },
  { symbol := some (.t .lpar), shifts := [(.rpar, 34)] ++ operandShifts,
    gotos := [(.expression, 191)] ++ operandGotos },
  { symbol := some (.t .lpar), shifts := [(.name, 114)] },
  { symbol := some (.t .lpar), shifts := operandShifts,
    gotos := [(.expression, 193)] ++ operandGotos },
  { symbol := some (.t .rpar), complete := some (Rule.production .classParameters 2) },
  { symbol := some (.t .rpar), complete := some (Rule.production .functionParameters 2) },
  { symbol := some (.t .rpar), complete := some (Rule.production .classParameters 1) },
  { symbol := some (.t .rpar), complete := some (Rule.production .functionParameters 1) },
  { symbol := some (.t .rpar), complete := some (Rule.production .classParameters 0) },
  { symbol := some (.t .rpar), complete := some (Rule.production .functionParameters 0) },
  { symbol := some (.t .rpar), complete := some (Rule.production .parenthesized 0) },
  { symbol := some (.t .rpar), complete := some (Rule.production .callSuffix 2) },
  { symbol := some (.t .rpar), shifts := bodyShifts,
    gotos := [(.block, 158), (.assignment, 162), (.jump, 166), (.controlBody, 167),
      (.expression, 195)] ++ operandGotos },
  { symbol := some (.t .rpar), complete := some (Rule.production .callSuffix 1) },
  { symbol := some (.t .rpar), shifts := bodyShifts,
    gotos := [(.block, 158), (.assignment, 162), (.jump, 166), (.controlBody, 168),
      (.expression, 195)] ++ operandGotos },
  { symbol := some (.t .rpar), complete := some (Rule.production .callSuffix 0) },
  { symbol := some (.t .rpar), shifts := bodyShifts,
    gotos := [(.block, 158), (.assignment, 162), (.jump, 166), (.controlBody, 170),
      (.expression, 195)] ++ operandGotos },
  { symbol := some (.t .lbrace),
    shifts := [(.kwFun, 4), (.kwVal, 5), (.kwVar, 7), (.rbrace, 42)],
    gotos := [(.classMember, 136), (.functionDeclaration, 139), (.propertyDeclaration, 148),
      (.classMembers, 250)] },
  { symbol := some (.t .lbrace),
    shifts := [(.kwFun, 4), (.kwVal, 5), (.kwVar, 7), (.kwIf, 9), (.kwFor, 11), (.kwWhile, 13),
      (.kwReturn, 14), (.kwBreak, 15), (.kwContinue, 16), (.kwTrue, 17), (.kwFalse, 18),
      (.kwNull, 19), (.lpar, 22), (.rbrace, 44), (.sub, 89), (.excl, 98), (.name, 112),
      (.number, 115), (.string, 116)],
    gotos := [(.functionDeclaration, 140), (.propertyDeclaration, 149), (.statement, 159),
      (.assignment, 161), (.forStatement, 163), (.whileStatement, 164), (.jump, 165),
      (.expression, 185), (.statements, 252)] ++ operandGotos },
  { symbol := some (.t .rbrace), complete := some (Rule.production .classBody 1) },
  { symbol := some (.t .rbrace), complete := some (Rule.production .classBody 0) },
  { symbol := some (.t .rbrace), complete := some (Rule.production .block 1) },
  { symbol := some (.t .rbrace), complete := some (Rule.production .block 0) },
  { symbol := some (.t .comma), shifts := [(.kwVal, 6), (.kwVar, 8), (.name, 106)],
    gotos := [(.classParameter, 132)] },
  { symbol := some (.t .comma), shifts := [(.name, 107)], gotos := [(.parameter, 143)] },
  { symbol := some (.t .comma), shifts := [(.kwVal, 6), (.kwVar, 8), (.name, 106)],
    gotos := [(.classParameter, 133)] },
  { symbol := some (.t .comma), shifts := [(.name, 107)], gotos := [(.parameter, 144)] },
  { symbol := some (.t .comma), shifts := operandShifts,
    gotos := [(.expression, 196)] ++ operandGotos },
  { symbol := some (.t .comma), shifts := operandShifts,
    gotos := [(.expression, 198)] ++ operandGotos },
  { symbol := some (.t .colon), shifts := [(.name, 108)], gotos := [(.typeReference, 150)] },
  { symbol := some (.t .colon), shifts := [(.name, 108)], gotos := [(.typeReference, 151)] },
  { symbol := some (.t .colon), shifts := [(.name, 108)], gotos := [(.typeReference, 152)] },
  { symbol := some (.t .colon), shifts := [(.name, 108)], gotos := [(.typeReference, 153)] },
  { symbol := some (.t .colon), shifts := [(.name, 108)], gotos := [(.typeReference, 154)] },
  { symbol := some (.t .colon), shifts := [(.name, 108)], gotos := [(.typeReference, 155)] },
  { symbol := some (.t .colon), shifts := [(.name, 108)], gotos := [(.typeReference, 156)] },
  { symbol := some (.t .semicolon), complete := some (Rule.production .semi 0) },
  { symbol := some (.t .dot), shifts := [(.name, 104)] },
  { symbol := some (.t .dot), shifts := [(.name, 105)] },
  { symbol := some (.t .dot), shifts := [(.name, 113)] },
  { symbol := some (.t .quest), complete := some (Rule.production .typeReference 2) },
  { symbol := some (.t .quest), complete := some (Rule.production .typeReference 0) },
  { symbol := some (.t .eqeq), shifts := operandShifts,
    gotos := [(.comparison, 207)] ++ operandGotos.drop 4 },
  { symbol := some (.t .eqeq), shifts := operandShifts,
    gotos := [(.comparison, 209)] ++ operandGotos.drop 4 },
  { symbol := some (.t .exclEq), shifts := operandShifts,
    gotos := [(.comparison, 208)] ++ operandGotos.drop 4 },
  { symbol := some (.t .exclEq), shifts := operandShifts,
    gotos := [(.comparison, 210)] ++ operandGotos.drop 4 },
  { symbol := some (.t .equal), shifts := operandShifts,
    gotos := [(.expression, 183)] ++ operandGotos },
  { symbol := some (.t .equal), shifts := operandShifts,
    gotos := [(.expression, 184)] ++ operandGotos },
  { symbol := some (.t .equal), shifts := operandShifts,
    gotos := [(.expression, 186)] ++ operandGotos },
  { symbol := some (.t .equal), shifts := operandShifts,
    gotos := [(.expression, 189)] ++ operandGotos },
  { symbol := some (.t .equal), shifts := operandShifts,
    gotos := [(.expression, 192)] ++ operandGotos },
  { symbol := some (.t .equal), shifts := operandShifts,
    gotos := [(.expression, 194)] ++ operandGotos },
  { symbol := some (.t .le), shifts := operandShifts,
    gotos := [(.additive, 212)] ++ operandGotos.drop 5 },
  { symbol := some (.t .le), shifts := operandShifts,
    gotos := [(.additive, 216)] ++ operandGotos.drop 5 },
  { symbol := some (.t .ge), shifts := operandShifts,
    gotos := [(.additive, 213)] ++ operandGotos.drop 5 },
  { symbol := some (.t .ge), shifts := operandShifts,
    gotos := [(.additive, 217)] ++ operandGotos.drop 5 },
  { symbol := some (.t .langle), shifts := operandShifts,
    gotos := [(.additive, 214)] ++ operandGotos.drop 5 },
  { symbol := some (.t .langle), shifts := operandShifts,
    gotos := [(.additive, 218)] ++ operandGotos.drop 5 },
  { symbol := some (.t .rangle), shifts := operandShifts,
    gotos := [(.additive, 215)] ++ operandGotos.drop 5 },
  { symbol := some (.t .rangle), shifts := operandShifts,
    gotos := [(.additive, 219)] ++ operandGotos.drop 5 },
  { symbol := some (.t .conj), shifts := operandShifts,
    gotos := [(.equality, 204)] ++ operandGotos.drop 3 },
  { symbol := some (.t .conj), shifts := operandShifts,
    gotos := [(.equality, 205)] ++ operandGotos.drop 3 },
  { symbol := some (.t .disj), shifts := operandShifts,
    gotos := [(.conjunction, 201)] ++ operandGotos.drop 2 },
  { symbol := some (.t .disj), shifts := operandShifts,
    gotos := [(.conjunction, 202)] ++ operandGotos.drop 2 },
  { symbol := some (.t .add), shifts := operandShifts,
    gotos := [(.multiplicative, 221)] ++ operandGotos.drop 6 },
  { symbol := some (.t .add), shifts := operandShifts,
    gotos := [(.multiplicative, 223)] ++ operandGotos.drop 6 },
  { symbol := some (.t .sub), shifts := operandShifts,
    gotos := [(.prefixUnary, 226)] ++ operandGotos.drop 7 },
  { symbol := some (.t .sub), shifts := operandShifts,
    gotos := [(.multiplicative, 222)] ++ operandGotos.drop 6 },
  { symbol := some (.t .sub), shifts := operandShifts,
    gotos := [(.multiplicative, 224)] ++ operandGotos.drop 6 },
  { symbol := some (.t .mult), shifts := operandShifts,
    gotos := [(.prefixUnary, 228)] ++ operandGotos.drop 7 },
  { symbol := some (.t .mult), shifts := operandShifts,
    gotos := [(.prefixUnary, 231)] ++ operandGotos.drop 7 },
  { symbol := some (.t .div), shifts := operandShifts,
    gotos := [(.prefixUnary, 229)] ++ operandGotos.drop 7 },
  { symbol := some (.t .div), shifts := operandShifts,
    gotos := [(.prefixUnary, 232)] ++ operandGotos.drop 7 },
  { symbol := some (.t .mod), shifts := operandShifts,
    gotos := [(.prefixUnary, 230)] ++ operandGotos.drop 7 },
  { symbol := some (.t .mod), shifts := operandShifts,
    gotos := [(.prefixUnary, 233)] ++ operandGotos.drop 7 },
  { symbol := some (.t .excl), shifts := operandShifts,
    gotos := [(.prefixUnary, 227)] ++ operandGotos.drop 7 }]

/-- States entered by a name, a number or a string. -/
def wordRows : List Row := [
  { symbol := some (.t .name), shifts := [(.dot, 60)], gotos := [(.nameTail, 247)],
    complete := some (Rule.production .qualifiedName 1) },
  { symbol := some (.t .name), shifts := [(.lpar, 20), (.lbrace, 40)],
    gotos := [(.classParameters, 130), (.classBody, 134)],
    complete := some (Rule.production .classDeclaration 3) },
  { symbol := some (.t .name), shifts := [(.lpar, 21)], gotos := [(.functionParameters, 141)] },
  { symbol := some (.t .name), shifts := [(.colon, 52), (.equal, 69)],
    complete := some (Rule.production .propertyDeclaration 3) },
  { symbol := some (.t .name), shifts := [(.colon, 53), (.equal, 70)],
    complete := some (Rule.production .propertyDeclaration 7) },
  { symbol := some (.t .name), complete := some (Rule.production .nameTail 0) },
  { symbol := some (.t .name), complete := some (Rule.production .nameTail 1) },
  { symbol := some (.t .name), shifts := [(.colon, 55)] },
  { symbol := some (.t .name), shifts := [(.colon, 56)] },
  { symbol := some (.t .name), shifts := [(.dot, 60), (.quest, 63)],
    gotos := [(.nameTail, 248)], complete := some (Rule.production .typeReference 3) },
  { symbol := some (.t .name), complete := some (Rule.production .identifier 0) },
  { symbol := some (.t .name), shifts := [(.colon, 57)] },
  { symbol := some (.t .name), shifts := [(.colon, 58)] },
  { symbol := some (.t .name), shifts := [(.equal, 74)],
    complete := some (Rule.production .identifier 0) },
  { symbol := some (.t .name), complete := some (Rule.production .navigationSuffix 0) },
  { symbol := some (.t .name), shifts := [(.kwIn, 12)] },
  { symbol := some (.t .number), complete := some (Rule.production .literal 0) },
  { symbol := some (.t .string), complete := some (Rule.production .stringLiteral 0) }]

/-- States entered by the file, its preamble or a declaration. -/
def declarationRows : List Row := [
  { symbol := some (.r .file) },
  { symbol := some (.r .preamble),
    shifts := [(.kwClass, 3), (.kwFun, 4), (.kwVal, 5), (.kwVar, 7)],
    gotos := [(.topLevelObject, 126), (.declaration, 128), (.classDeclaration, 129),
      (.functionDeclaration, 138), (.propertyDeclaration, 147), (.fileItems, 245)],
    complete := some (Rule.production .file 1) },
  { symbol := some (.r .packageHeader), shifts := [(.kwImport, 2)],
    gotos := [(.importList, 121), (.importHeader, 122), (.importItems, 246)],
    complete := some (Rule.production .importList 1) },
  { symbol := some (.r .importList), complete := some (Rule.production .preamble 1) },
  { symbol := some (.r .importList), complete := some (Rule.production .preamble 0) },
  { symbol := some (.r .importHeader), complete := some (Rule.production .importItems 0) },
  { symbol := some (.r .importHeader), complete := some (Rule.production .importItems 1) },
  { symbol := some (.r .qualifiedName), shifts := [(.semicolon, 59)], gotos := [(.semi, 171)],
    complete := some (Rule.production .packageHeader 1) },
  { symbol := some (.r .qualifiedName), shifts := [(.semicolon, 59)], gotos := [(.semi, 172)],
    complete := some (Rule.production .importHeader 1) },
  { symbol := some (.r .topLevelObject), complete := some (Rule.production .fileItems 0) },
  { symbol := some (.r .topLevelObject), complete := some (Rule.production .fileItems 1) },
  { symbol := some (.r .declaration), shifts := [(.semicolon, 59)], gotos := [(.semi, 173)],
    complete := some (Rule.production .topLevelObject 1) },
  { symbol := some (.r .classDeclaration), complete := some (Rule.production .declaration 0) },
  { symbol := some (.r .classParameters), shifts := [(.lbrace, 40)],
    gotos := [(.classBody, 135)], complete := some (Rule.production .classDeclaration 1) },
  { symbol := some (.r .classParameter), shifts := [(.rpar, 29), (.comma, 46)],
    gotos := [(.classParameterTail, 249)] },
  { symbol := some (.r .classParameter),
    complete := some (Rule.production .classParameterTail 0) },
  { symbol := some (.r .classParameter),
    complete := some (Rule.production .classParameterTail 1) },
  { symbol := some (.r .classBody), complete := some (Rule.production .classDeclaration 2) },
  { symbol := some (.r .classBody), complete := some (Rule.production .classDeclaration 0) },
  { symbol := some (.r .classMember), complete := some (Rule.production .classMembers 0) },
  { symbol := some (.r .classMember), complete := some (Rule.production .classMembers 1) },
  { symbol := some (.r .functionDeclaration),
    complete := some (Rule.production .declaration 1) },
  { symbol := some (.r .functionDeclaration), shifts := [(.semicolon, 59)],
    gotos := [(.semi, 174)], complete := some (Rule.production .classMember 1) },
  { symbol := some (.r .functionDeclaration), shifts := [(.semicolon, 59)],
    gotos := [(.semi, 176)], complete := some (Rule.production .statement 3) },
  { symbol := some (.r .functionParameters),
    shifts := [(.lbrace, 41), (.colon, 54), (.equal, 71)],
    gotos := [(.functionBody, 145), (.block, 157)],
    complete := some (Rule.production .functionDeclaration 3) },
  { symbol := some (.r .parameter), shifts := [(.rpar, 30), (.comma, 47)],
    gotos := [(.parameterTail, 251)] },
  { symbol := some (.r .parameter), complete := some (Rule.production .parameterTail 0) },
  { symbol := some (.r .parameter), complete := some (Rule.production .parameterTail 1) },
  { symbol := some (.r .functionBody),
    complete := some (Rule.production .functionDeclaration 2) },
  { symbol := some (.r .functionBody),
    complete := some (Rule.production .functionDeclaration 0) },
  { symbol := some (.r .propertyDeclaration),
    complete := some (Rule.production .declaration 2) },
  { symbol := some (.r .propertyDeclaration), shifts := [(.semicolon, 59)],
    gotos := [(.semi, 175)], complete := some (Rule.production .classMember 3) },
  { symbol := some (.r .propertyDeclaration), shifts := [(.semicolon, 59)],
    gotos := [(.semi, 177)], complete := some (Rule.production .statement 1) },
  { symbol := some (.r .typeReference), shifts := [(.equal, 72)],
    complete := some (Rule.production .propertyDeclaration 1) },
  { symbol := some (.r .typeReference), shifts := [(.equal, 73)],
    complete := some (Rule.production .propertyDeclaration 5) },
  { symbol := some (.r .typeReference), shifts := [(.lbrace, 41), (.equal, 71)],
    gotos := [(.functionBody, 146), (.block, 157)],
    complete := some (Rule.production .functionDeclaration 1) },
  { symbol := some (.r .typeReference), complete := some (Rule.production .classParameter 2) },
  { symbol := some (.r .typeReference), complete := some (Rule.production .parameter 0) },
  { symbol := some (.r .typeReference), complete := some (Rule.production .classParameter 0) },
  { symbol := some (.r .typeReference), complete := some (Rule.production .classParameter 1) }]

/-- States entered by a statement. -/
def statementRows : List Row := [
  { symbol := some (.r .block), complete := some (Rule.production .functionBody 0) },
  { symbol := some (.r .block), complete := some (Rule.production .controlBody 0) },
  { symbol := some (.r .statement), complete := some (Rule.production .statements 0) },
  { symbol := some (.r .statement), complete := some (Rule.production .statements 1) },
  { symbol := some (.r .assignment), shifts := [(.semicolon, 59)], gotos := [(.semi, 178)],
    complete := some (Rule.production .statement 5) },
  { symbol := some (.r .assignment), complete := some (Rule.production .controlBody 1) },
  { symbol := some (.r .forStatement), shifts := [(.semicolon, 59)], gotos := [(.semi, 179)],
    complete := some (Rule.production .statement 7) },
  { symbol := some (.r .whileStatement), shifts := [(.semicolon, 59)], gotos := [(.semi, 180)],
    complete := some (Rule.production .statement 9) },
  { symbol := some (.r .jump), shifts := [(.semicolon, 59)], gotos := [(.semi, 181)],
    complete := some (Rule.production .statement 11) },
  { symbol := some (.r .jump), complete := some (Rule.production .controlBody 2) },
  { symbol := some (.r .controlBody), shifts := [(.kwElse, 10)],
    complete := some (Rule.production .ifExpression 1) },
  { symbol := some (.r .controlBody), complete := some (Rule.production .whileStatement 0) },
  { symbol := some (.r .controlBody), complete := some (Rule.production .ifExpression 0) },
  { symbol := some (.r .controlBody), complete := some (Rule.production .forStatement 0) },
  { symbol := some (.r .semi), complete := some (Rule.production .packageHeader 0) },
  { symbol := some (.r .semi), complete := some (Rule.production .importHeader 0) },
  { symbol := some (.r .semi), complete := some (Rule.production .topLevelObject 0) },
  { symbol := some (.r .semi), complete := some (Rule.production .classMember 0) },
  { symbol := some (.r .semi), complete := some (Rule.production .classMember 2) },
  { symbol := some (.r .semi), complete := some (Rule.production .statement 2) },
  { symbol := some (.r .semi), complete := some (Rule.production .statement 0) },
  { symbol := some (.r .semi), complete := some (Rule.production .statement 4) },
  { symbol := some (.r .semi), complete := some (Rule.production .statement 6) },
  { symbol := some (.r .semi), complete := some (Rule.production .statement 8) },
  { symbol := some (.r .semi), complete := some (Rule.production .statement 10) },
  { symbol := some (.r .semi), complete := some (Rule.production .statement 12) }]

/-- States entered by an expression. -/
def expressionRows : List Row := [
  { symbol := some (.r .expression), complete := some (Rule.production .propertyDeclaration 2) },
  { symbol := some (.r .expression), complete := some (Rule.production .propertyDeclaration 6) },
  { symbol := some (.r .expression), shifts := [(.semicolon, 59)], gotos := [(.semi, 182)],
    complete := some (Rule.production .statement 13) },
  { symbol := some (.r .expression), complete := some (Rule.production .functionBody 1) },
  { symbol := some (.r .expression), shifts := [(.rpar, 33)] },
  { symbol := some (.r .expression), complete := some (Rule.production .jump 0) },
  { symbol := some (.r .expression), complete := some (Rule.production .propertyDeclaration 0) },
  { symbol := some (.r .expression), shifts := [(.rpar, 35)] },
  { symbol := some (.r .expression), shifts := [(.rpar, 36), (.comma, 50)],
    gotos := [(.argumentTail, 260)] },
  { symbol := some (.r .expression), complete := some (Rule.production .propertyDeclaration 4) },
  { symbol := some (.r .expression), shifts := [(.rpar, 37)] },
  { symbol := some (.r .expression), complete := some (Rule.production .assignment 0) },
  { symbol := some (.r .expression), complete := some (Rule.production .controlBody 3) },
  { symbol := some (.r .expression), complete := some (Rule.production .argumentTail 0) },
  { symbol := some (.r .expression), shifts := [(.rpar, 39)] },
  { symbol := some (.r .expression), complete := some (Rule.production .argumentTail 1) },
  { symbol := some (.r .disjunction), complete := some (Rule.production .expression 0) },
  { symbol := some (.r .conjunction), shifts := [(.disj, 85)],
    gotos := [(.disjunctionTail, 253)], complete := some (Rule.production .disjunction 1) },
  { symbol := some (.r .conjunction), complete := some (Rule.production .disjunctionTail 0) },
  { symbol := some (.r .conjunction), complete := some (Rule.production .disjunctionTail 1) },
  { symbol := some (.r .equality), shifts := [(.conj, 83)], gotos := [(.conjunctionTail, 254)],
    complete := some (Rule.production .conjunction 1) },
  { symbol := some (.r .equality), complete := some (Rule.production .conjunctionTail 0) },
  { symbol := some (.r .equality), complete := some (Rule.production .conjunctionTail 1) },
  { symbol := some (.r .comparison), shifts := [(.eqeq, 65), (.exclEq, 67)],
    gotos := [(.equalityTail, 255)], complete := some (Rule.production .equality 1) },
  { symbol := some (.r .comparison), complete := some (Rule.production .equalityTail 0) },
  { symbol := some (.r .comparison), complete := some (Rule.production .equalityTail 1) },
  { symbol := some (.r .comparison), complete := some (Rule.production .equalityTail 2) },
  { symbol := some (.r .comparison), complete := some (Rule.production .equalityTail 3) },
  { symbol := some (.r .additive),
    shifts := [(.le, 75), (.ge, 77), (.langle, 79), (.rangle, 81)],
    gotos := [(.comparisonTail, 256)], complete := some (Rule.production .comparison 1) },
  { symbol := some (.r .additive), complete := some (Rule.production .comparisonTail 0) },
  { symbol := some (.r .additive), complete := some (Rule.production .comparisonTail 1) },
  { symbol := some (.r .additive), complete := some (Rule.production .comparisonTail 2) },
  { symbol := some (.r .additive), complete := some (Rule.production .comparisonTail 3) },
  { symbol := some (.r .additive), complete := some (Rule.production .comparisonTail 4) },
  { symbol := some (.r .additive), complete := some (Rule.production .comparisonTail 5) },
  { symbol := some (.r .additive), complete := some (Rule.production .comparisonTail 6) },
  { symbol := some (.r .additive), complete := some (Rule.production .comparisonTail 7) },
  { symbol := some (.r .multiplicative), shifts := [(.add, 87), (.sub, 90)],
    gotos := [(.additiveTail, 257)], complete := some (Rule.production .additive 1) },
  { symbol := some (.r .multiplicative), complete := some (Rule.production .additiveTail 0) },
  { symbol := some (.r .multiplicative), complete := some (Rule.production .additiveTail 1) },
  { symbol := some (.r .multiplicative), complete := some (Rule.production .additiveTail 2) },
  { symbol := some (.r .multiplicative), complete := some (Rule.production .additiveTail 3) },
  { symbol := some (.r .prefixUnary), shifts := [(.mult, 92), (.div, 94), (.mod, 96)],
    gotos := [(.multiplicativeTail, 258)],
    complete := some (Rule.production .multiplicative 1) },
  { symbol := some (.r .prefixUnary), complete := some (Rule.production .prefixUnary 0) },
  { symbol := some (.r .prefixUnary), complete := some (Rule.production .prefixUnary 1) },
  { symbol := some (.r .prefixUnary), complete := some (Rule.production .multiplicativeTail 0) },
  { symbol := some (.r .prefixUnary), complete := some (Rule.production .multiplicativeTail 1) },
  { symbol := some (.r .prefixUnary), complete := some (Rule.production .multiplicativeTail 2) },
  { symbol := some (.r .prefixUnary), complete := some (Rule.production .multiplicativeTail 3) },
  { symbol := some (.r .prefixUnary), complete := some (Rule.production .multiplicativeTail 4) },
  { symbol := some (.r .prefixUnary), complete := some (Rule.production .multiplicativeTail 5) },
  { symbol := some (.r .postfixUnary), complete := some (Rule.production .prefixUnary 2) },
  { symbol := some (.r .postfixSuffix), complete := some (Rule.production .postfixSuffixes 0) },
  { symbol := some (.r .postfixSuffix), complete := some (Rule.production .postfixSuffixes 1) },
  { symbol := some (.r .callSuffix), complete := some (Rule.production .postfixSuffix 0) },
  { symbol := some (.r .navigationSuffix), complete := some (Rule.production .postfixSuffix 1) },
  { symbol := some (.r .primary), shifts := [(.lpar, 24), (.dot, 62)],
    gotos := [(.postfixSuffix, 235), (.callSuffix, 237), (.navigationSuffix, 238),
      (.postfixSuffixes, 259)], complete := some (Rule.production .postfixUnary 1) },
  { symbol := some (.r .parenthesized), complete := some (Rule.production .primary 0) },
  { symbol := some (.r .identifier), complete := some (Rule.production .primary 1) },
  { symbol := some (.r .literal), complete := some (Rule.production .primary 2) },
  { symbol := some (.r .stringLiteral), complete := some (Rule.production .primary 3) },
  { symbol := some (.r .ifExpression), complete := some (Rule.production .primary 4) }]

/-- States entered by a repeated part. -/
def repetitionRows : List Row := [
  { symbol := some (.r .fileItems),
    shifts := [(.kwClass, 3), (.kwFun, 4), (.kwVal, 5), (.kwVar, 7)],
    gotos := [(.topLevelObject, 127), (.declaration, 128), (.classDeclaration, 129),
      (.functionDeclaration, 138), (.propertyDeclaration, 147)],
    complete := some (Rule.production .file 0) },
  { symbol := some (.r .importItems), shifts := [(.kwImport, 2)],
    gotos := [(.importHeader, 123)], complete := some (Rule.production .importList 0) },
  { symbol := some (.r .nameTail), shifts := [(.dot, 61)],
    complete := some (Rule.production .qualifiedName 0) },
  { symbol := some (.r .nameTail), shifts := [(.dot, 61), (.quest, 64)],
    complete := some (Rule.production .typeReference 1) },
  { symbol := some (.r .classParameterTail), shifts := [(.rpar, 31), (.comma, 48)] },
  { symbol := some (.r .classMembers),
    shifts := [(.kwFun, 4), (.kwVal, 5), (.kwVar, 7), (.rbrace, 43)],
    gotos := [(.classMember, 137), (.functionDeclaration, 139), (.propertyDeclaration, 148)] },
  { symbol := some (.r .parameterTail), shifts := [(.rpar, 32), (.comma, 49)] },
  { symbol := some (.r .statements),
    shifts := [(.kwFun, 4), (.kwVal, 5), (.kwVar, 7), (.kwIf, 9), (.kwFor, 11), (.kwWhile, 13),
      (.kwReturn, 14), (.kwBreak, 15), (.kwContinue, 16), (.kwTrue, 17), (.kwFalse, 18),
      (.kwNull, 19), (.lpar, 22), (.rbrace, 45), (.sub, 89), (.excl, 98), (.name, 112),
      (.number, 115), (.string, 116)],
    gotos := [(.functionDeclaration, 140), (.propertyDeclaration, 149), (.statement, 160),
      (.assignment, 161), (.forStatement, 163), (.whileStatement, 164), (.jump, 165),
      (.expression, 185)] ++ operandGotos },
  { symbol := some (.r .disjunctionTail), shifts := [(.disj, 86)],
    complete := some (Rule.production .disjunction 0) },
  { symbol := some (.r .conjunctionTail), shifts := [(.conj, 84)],
    complete := some (Rule.production .conjunction 0) },
  { symbol := some (.r .equalityTail), shifts := [(.eqeq, 66), (.exclEq, 68)],
    complete := some (Rule.production .equality 0) },
  { symbol := some (.r .comparisonTail),
    shifts := [(.le, 76), (.ge, 78), (.langle, 80), (.rangle, 82)],
    complete := some (Rule.production .comparison 0) },
  { symbol := some (.r .additiveTail), shifts := [(.add, 88), (.sub, 91)],
    complete := some (Rule.production .additive 0) },
  { symbol := some (.r .multiplicativeTail), shifts := [(.mult, 93), (.div, 95), (.mod, 97)],
    complete := some (Rule.production .multiplicative 0) },
  { symbol := some (.r .postfixSuffixes), shifts := [(.lpar, 24), (.dot, 62)],
    gotos := [(.postfixSuffix, 236), (.callSuffix, 237), (.navigationSuffix, 238)],
    complete := some (Rule.production .postfixUnary 0) },
  { symbol := some (.r .argumentTail), shifts := [(.rpar, 38), (.comma, 51)] }]

/-- The rows of all states, in order. -/
def rows : List Row :=
  startRows ++ keywordRows ++ punctuationRows ++ wordRows ++ declarationRows ++ statementRows ++
    expressionRows ++ repetitionRows

/-- The rows, for access by number. -/
def table : Array Row :=
  rows.toArray

/-- The row of a state. -/
@[irreducible] def row (q : State) : Row :=
  (table[q]?).getD {}

/-- The state before anything has been read. -/
def start : State := 0

/-- The state in which a whole file has been recognised. -/
def accepting : State := 117

end Typeahead.Automaton
