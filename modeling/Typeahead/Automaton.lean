import Typeahead.Automaton.Table
import Typeahead.Grammar.Follow

/-! Recognition by a stack of states. No tree is built here: which tokens are taken, and by which
reductions, depends on the states alone. -/

namespace Typeahead

/-- What stands before the parser: a token of some terminal, or the end of the text. -/
inductive Lookahead where
  | token (t : Terminal)
  | finish
  deriving DecidableEq, Repr

/-- Whether a rule can be followed by what stands before the parser. -/
def Rule.admits (r : Rule) : Lookahead → Bool
  | .token t => r.follow.contains t
  | .finish => r.endsFile

namespace Automaton

/-- The state on top of a stack, top first. The start state lies under every stack. -/
def top : List State → State
  | [] => start
  | q :: _ => q

/-- The state a terminal leads to. -/
def shift? (q : State) (t : Terminal) : Option State :=
  (row q).shifts.lookup t

/-- The state a recognised rule leads to. -/
def goto? (q : State) (r : Rule) : Option State :=
  (row q).gotos.lookup r

/-- The production recognised in a state before a lookahead. Where a terminal can also be shifted,
it is shifted. -/
def complete? (q : State) (a : Lookahead) : Option Production :=
  match a with
  | .token t => if (shift? q t).isSome then none else (row q).complete.filter (·.rule.admits a)
  | .finish => (row q).complete.filter (·.rule.admits a)

/-- Whether a state has anything to do with a lookahead. -/
def offers (q : State) : Lookahead → Bool
  | .token t => (shift? q t).isSome || (complete? q (.token t)).isSome
  | .finish => (complete? q .finish).isSome

/-- One reduction: the states of the body give way to the state of its rule. -/
def reduce? (qs : List State) (a : Lookahead) : Option (Production × List State) :=
  match complete? (top qs) a with
  | none => none
  | some p =>
    let rest := qs.drop p.body.length
    (goto? (top rest) p.rule).map fun q => (p, q :: rest)

/-- At most `n` reductions. -/
def reduceUpTo (a : Lookahead) : Nat → List State → List Production × List State
  | 0, qs => ([], qs)
  | n + 1, qs =>
    match reduce? qs a with
    | none => ([], qs)
    | some (p, qs') =>
      let (ps, qs'') := reduceUpTo a n qs'
      (p :: ps, qs'')

/-- More reductions than a stack can need before one lookahead: a reduction that does not shorten
the stack makes its top a looser rule, and no chain of looser rules is longer than fourteen. -/
def reductionBound (qs : List State) : Nat :=
  16 * (qs.length + 1)

/-- The reductions made before a lookahead, in order, and the states they leave. -/
def settle (a : Lookahead) (qs : List State) : List Production × List State :=
  reduceUpTo a (reductionBound qs) qs

/-- The reductions made before a lookahead. -/
def reductions (a : Lookahead) (qs : List State) : List Production :=
  (settle a qs).1

/-- The states left by the reductions before a lookahead. -/
def settled (a : Lookahead) (qs : List State) : List State :=
  (settle a qs).2

/-- The states after a terminal has been taken; `none` if it is refused. -/
def feed? (qs : List State) (t : Terminal) : Option (List State) :=
  let qs' := settled (.token t) qs
  (shift? (top qs') t).map (· :: qs')

/-- Whether a terminal would be taken. -/
def accepts (qs : List State) (t : Terminal) : Bool :=
  (feed? qs t).isSome

/-- The terminals that would be taken, in grammar order. -/
def expected (qs : List State) : List Terminal :=
  Terminal.all.filter (accepts qs)

theorem mem_expected {qs : List State} {t : Terminal} : t ∈ expected qs ↔ accepts qs t := by
  simp [expected, Terminal.mem_all]

end Automaton

end Typeahead
