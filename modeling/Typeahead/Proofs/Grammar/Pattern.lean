import Typeahead.Automaton.Table

/-!
The grammar as it is written down: each rule has one pattern, with options and repetitions. The
productions of the automaton are checked against it, so whatever they put together out of generated parts
is generated by their rule.
-/

namespace Typeahead

/-! ## Patterns -/

/-- What a rule stands for. -/
inductive Pattern where
  | empty
  | t (terminal : Terminal)
  | r (rule : Rule)
  | seq (first second : Pattern)
  | alt (one other : Pattern)
  | more (part : Pattern)
  deriving DecidableEq

namespace Pattern

/-- Some patterns one after another. -/
def all (parts : List Pattern) : Pattern :=
  parts.foldr seq empty

/-- One of some patterns. -/
def any (first : Pattern) (others : List Pattern) : Pattern :=
  others.foldl alt first

/-- A pattern or nothing. -/
def opt (part : Pattern) : Pattern :=
  alt part empty

/-- A pattern any number of times. -/
def many (part : Pattern) : Pattern :=
  opt (more part)

end Pattern

open Pattern in
/-- The grammar. The rules that stand for the repeated parts of others come last. -/
def Rule.pattern : Rule → Pattern
  | .file => all [.r .preamble, many (.r .topLevelObject)]
  | .preamble => all [opt (.r .packageHeader), .r .importList]
  | .packageHeader => all [.t .kwPackage, .r .qualifiedName, opt (.r .semi)]
  | .importList => many (.r .importHeader)
  | .importHeader => all [.t .kwImport, .r .qualifiedName, opt (.r .semi)]
  | .qualifiedName => all [.t .name, many (all [.t .dot, .t .name])]
  | .topLevelObject => all [.r .declaration, opt (.r .semi)]
  | .declaration => any (.r .classDeclaration) [.r .functionDeclaration, .r .propertyDeclaration]
  | .classDeclaration =>
    all [.t .kwClass, .t .name, opt (.r .classParameters), opt (.r .classBody)]
  | .classParameters =>
    all [.t .lpar,
      opt (all [.r .classParameter, many (all [.t .comma, .r .classParameter])]), .t .rpar]
  | .classParameter =>
    all [opt (any (.t .kwVal) [.t .kwVar]), .t .name, .t .colon, .r .typeReference]
  | .classBody => all [.t .lbrace, many (.r .classMember), .t .rbrace]
  | .classMember => all [any (.r .functionDeclaration) [.r .propertyDeclaration], opt (.r .semi)]
  | .functionDeclaration =>
    all [.t .kwFun, .t .name, .r .functionParameters, opt (all [.t .colon, .r .typeReference]),
      opt (.r .functionBody)]
  | .functionParameters =>
    all [.t .lpar, opt (all [.r .parameter, many (all [.t .comma, .r .parameter])]), .t .rpar]
  | .parameter => all [.t .name, .t .colon, .r .typeReference]
  | .functionBody => any (.r .block) [all [.t .equal, .r .expression]]
  | .propertyDeclaration =>
    all [any (.t .kwVal) [.t .kwVar], .t .name, opt (all [.t .colon, .r .typeReference]),
      opt (all [.t .equal, .r .expression])]
  | .typeReference => all [.t .name, many (all [.t .dot, .t .name]), opt (.t .quest)]
  | .block => all [.t .lbrace, many (.r .statement), .t .rbrace]
  | .statement =>
    all [any (.r .propertyDeclaration) [.r .functionDeclaration, .r .assignment, .r .forStatement,
      .r .whileStatement, .r .jump, .r .expression], opt (.r .semi)]
  | .assignment => all [.t .name, .t .equal, .r .expression]
  | .forStatement =>
    all [.t .kwFor, .t .lpar, .t .name, .t .kwIn, .r .expression, .t .rpar, .r .controlBody]
  | .whileStatement => all [.t .kwWhile, .t .lpar, .r .expression, .t .rpar, .r .controlBody]
  | .jump => any (all [.t .kwReturn, opt (.r .expression)]) [.t .kwBreak, .t .kwContinue]
  | .controlBody => any (.r .block) [.r .assignment, .r .jump, .r .expression]
  | .semi => .t .semicolon
  | .expression => .r .disjunction
  | .disjunction => all [.r .conjunction, many (all [.t .disj, .r .conjunction])]
  | .conjunction => all [.r .equality, many (all [.t .conj, .r .equality])]
  | .equality => all [.r .comparison, many (all [any (.t .eqeq) [.t .exclEq], .r .comparison])]
  | .comparison =>
    all [.r .additive,
      many (all [any (.t .le) [.t .ge, .t .langle, .t .rangle], .r .additive])]
  | .additive =>
    all [.r .multiplicative, many (all [any (.t .add) [.t .sub], .r .multiplicative])]
  | .multiplicative =>
    all [.r .prefixUnary, many (all [any (.t .mult) [.t .div, .t .mod], .r .prefixUnary])]
  | .prefixUnary => any (all [any (.t .sub) [.t .excl], .r .prefixUnary]) [.r .postfixUnary]
  | .postfixUnary => all [.r .primary, many (.r .postfixSuffix)]
  | .postfixSuffix => any (.r .callSuffix) [.r .navigationSuffix]
  | .callSuffix =>
    all [.t .lpar, opt (all [.r .expression, many (all [.t .comma, .r .expression])]), .t .rpar]
  | .navigationSuffix => all [.t .dot, .t .name]
  | .primary =>
    any (.r .parenthesized) [.r .identifier, .r .literal, .r .stringLiteral, .r .ifExpression]
  | .parenthesized => all [.t .lpar, .r .expression, .t .rpar]
  | .identifier => .t .name
  | .literal => any (.t .number) [.t .kwTrue, .t .kwFalse, .t .kwNull]
  | .stringLiteral => .t .string
  | .ifExpression =>
    all [.t .kwIf, .t .lpar, .r .expression, .t .rpar, .r .controlBody,
      opt (all [.t .kwElse, .r .controlBody])]
  | .fileItems => more (.r .topLevelObject)
  | .importItems => more (.r .importHeader)
  | .nameTail => more (all [.t .dot, .t .name])
  | .classParameterTail => more (all [.t .comma, .r .classParameter])
  | .classMembers => more (.r .classMember)
  | .parameterTail => more (all [.t .comma, .r .parameter])
  | .statements => more (.r .statement)
  | .disjunctionTail => more (all [.t .disj, .r .conjunction])
  | .conjunctionTail => more (all [.t .conj, .r .equality])
  | .equalityTail => more (all [any (.t .eqeq) [.t .exclEq], .r .comparison])
  | .comparisonTail => more (all [any (.t .le) [.t .ge, .t .langle, .t .rangle], .r .additive])
  | .additiveTail => more (all [any (.t .add) [.t .sub], .r .multiplicative])
  | .multiplicativeTail => more (all [any (.t .mult) [.t .div, .t .mod], .r .prefixUnary])
  | .postfixSuffixes => more (.r .postfixSuffix)
  | .argumentTail => more (all [.t .comma, .r .expression])

/-- The terminals that a pattern stands for. -/
inductive Generates : Pattern → List Terminal → Prop
  | empty : Generates .empty []
  | t {t : Terminal} : Generates (.t t) [t]
  | r {rule : Rule} {w : List Terminal} : Generates rule.pattern w → Generates (.r rule) w
  | seq {p q : Pattern} {v w : List Terminal} :
      Generates p v → Generates q w → Generates (.seq p q) (v ++ w)
  | one {p q : Pattern} {w : List Terminal} : Generates p w → Generates (.alt p q) w
  | other {p q : Pattern} {w : List Terminal} : Generates q w → Generates (.alt p q) w
  | last {p : Pattern} {w : List Terminal} : Generates p w → Generates (.more p) w
  | more {p : Pattern} {v w : List Terminal} :
      Generates p v → Generates (.more p) w → Generates (.more p) (v ++ w)

theorem Generates.of_rule {rule : Rule} {w : List Terminal} (h : Generates (.r rule) w) :
    Generates rule.pattern w := by
  cases h with
  | r h => exact h

/-- A repetition can also be continued at its end. -/
theorem Generates.more_append {p : Pattern} {v w : List Terminal} (h : Generates (.more p) v)
    (hw : Generates p w) : Generates (.more p) (v ++ w) := by
  generalize hq : Pattern.more p = q at h
  induction h with
  | last hv _ =>
      cases hq
      exact .more hv (.last hw)
  | more hv _ _ ih =>
      cases hq
      rw [List.append_assoc]
      exact .more hv (ih rfl)
  | _ => cases hq

/-! ## Symbols -/

/-- A symbol as a pattern. -/
def Symbol.pattern : Symbol → Pattern
  | .t terminal => .t terminal
  | .r rule => .r rule

/-- The terminals that some symbols stand for, one after another. -/
inductive GeneratesAll : List Symbol → List Terminal → Prop
  | nil : GeneratesAll [] []
  | cons {s : Symbol} {ss : List Symbol} {v w : List Terminal} :
      Generates s.pattern v → GeneratesAll ss w → GeneratesAll (s :: ss) (v ++ w)

namespace GeneratesAll

variable {s : Symbol} {ss ss' : List Symbol} {v w : List Terminal}

theorem append (h : GeneratesAll ss v) (h' : GeneratesAll ss' w) :
    GeneratesAll (ss ++ ss') (v ++ w) := by
  induction h with
  | nil => exact h'
  | cons hs _ ih =>
      rw [List.append_assoc]
      exact .cons hs ih

theorem of_append (h : GeneratesAll (ss ++ ss') w) :
    ∃ u v, w = u ++ v ∧ GeneratesAll ss u ∧ GeneratesAll ss' v := by
  induction ss generalizing w with
  | nil => exact ⟨[], w, rfl, .nil, h⟩
  | cons s ss ih =>
      cases h with
      | cons hs h =>
          obtain ⟨u, v, rfl, hu, hv⟩ := ih h
          exact ⟨_, v, (List.append_assoc ..).symm, .cons hs hu, hv⟩

theorem single (h : Generates s.pattern w) : GeneratesAll [s] w := by
  simpa using GeneratesAll.cons h .nil

theorem of_single (h : GeneratesAll [s] w) : Generates s.pattern w := by
  cases h with
  | cons hs h =>
      cases h
      simpa using hs

end GeneratesAll

/-! ## Productions -/

/-- What can be left of some symbols after a pattern. A symbol that stands for a repetition can begin
one, or be all of it. -/
def Pattern.rests : Pattern → List Symbol → List (List Symbol)
  | .empty, ss => [ss]
  | .t terminal, ss => if ss.head? = some (.t terminal) then [ss.tail] else []
  | .r rule, ss => if ss.head? = some (.r rule) then [ss.tail] else []
  | .seq p q, ss => (p.rests ss).flatMap q.rests
  | .alt p q, ss => p.rests ss ++ q.rests ss
  | .more p, ss =>
    p.rests ss ++
      match ss with
      | .r rule :: ss' => if rule.pattern = .more p then ss' :: p.rests ss' else []
      | _ => []

theorem Pattern.of_head? {s : Symbol} {ss rest : List Symbol}
    (h : rest ∈ if ss.head? = some s then [ss.tail] else []) :
    ∃ front, ss = front ++ rest ∧ ∀ w, GeneratesAll front w → Generates s.pattern w := by
  split at h
  · rename_i hs
    obtain ⟨ss', rfl⟩ := List.head?_eq_some_iff.mp hs
    rw [List.mem_singleton] at h
    exact ⟨[s], by simp [h], fun w hw => hw.of_single⟩
  · cases h

theorem Pattern.mem_rests_more {p : Pattern} {ss rest : List Symbol}
    (h : rest ∈ (Pattern.more p).rests ss) :
    rest ∈ p.rests ss ∨ ∃ rule ss', ss = .r rule :: ss' ∧ rule.pattern = .more p ∧
      (rest = ss' ∨ rest ∈ p.rests ss') := by
  refine (List.mem_append.mp h).imp id fun h => ?_
  cases ss with
  | nil => cases h
  | cons s ss' =>
      cases s with
      | t terminal => cases h
      | r rule =>
          by_cases hrule : rule.pattern = .more p
          · simp only [hrule, ↓reduceIte, List.mem_cons] at h
            exact ⟨rule, ss', rfl, hrule, h⟩
          · simp only [hrule, ↓reduceIte] at h
            cases h

/-- What a pattern takes off the front of some symbols, it generates if they do. -/
theorem Pattern.generates_of_rests {p : Pattern} {ss rest : List Symbol} (h : rest ∈ p.rests ss) :
    ∃ front, ss = front ++ rest ∧ ∀ w, GeneratesAll front w → Generates p w := by
  induction p generalizing ss rest with
  | empty =>
      simp only [rests, List.mem_singleton] at h
      refine ⟨[], by simp [h], fun w hw => ?_⟩
      cases hw
      exact .empty
  | t terminal => exact of_head? (s := .t terminal) h
  | r rule => exact of_head? (s := .r rule) h
  | seq p q ihp ihq =>
      obtain ⟨mid, hp, hq⟩ := List.mem_flatMap.mp h
      obtain ⟨front, rfl, hfront⟩ := ihp hp
      obtain ⟨front', rfl, hfront'⟩ := ihq hq
      refine ⟨front ++ front', (List.append_assoc ..).symm, fun w hw => ?_⟩
      obtain ⟨u, v, rfl, hu, hv⟩ := hw.of_append
      exact .seq (hfront u hu) (hfront' v hv)
  | alt p q ihp ihq =>
      rcases List.mem_append.mp h with hp | hq
      · obtain ⟨front, rfl, hfront⟩ := ihp hp
        exact ⟨front, rfl, fun w hw => .one (hfront w hw)⟩
      · obtain ⟨front, rfl, hfront⟩ := ihq hq
        exact ⟨front, rfl, fun w hw => .other (hfront w hw)⟩
  | more p ih =>
      rcases mem_rests_more h with hp | ⟨rule, ss', rfl, hrule, rfl | hp⟩
      · obtain ⟨front, rfl, hfront⟩ := ih hp
        exact ⟨front, rfl, fun w hw => .last (hfront w hw)⟩
      · exact ⟨[.r rule], rfl, fun w hw => hrule ▸ hw.of_single.of_rule⟩
      · obtain ⟨front, rfl, hfront⟩ := ih hp
        refine ⟨.r rule :: front, rfl, fun w hw => ?_⟩
        cases hw with
        | cons hr hw => exact (hrule ▸ hr.of_rule).more_append (hfront _ hw)

/-- Every production that the automaton completes is one of the grammar. -/
theorem rests_of_complete : ∀ r ∈ Automaton.rows, ∀ p ∈ r.complete, [] ∈ p.rule.pattern.rests p.body := by
  decide +kernel

theorem generates_of_complete {q : Automaton.Row} (hq : q ∈ Automaton.rows) {p : Production}
    (hp : q.complete = some p) {w : List Terminal} (hw : GeneratesAll p.body w) :
    Generates (.r p.rule) w := by
  obtain ⟨front, hbody, hfront⟩ := Pattern.generates_of_rests (rests_of_complete q hq p hp)
  rw [List.append_nil] at hbody
  exact .r (hfront w (hbody ▸ hw))

end Typeahead
