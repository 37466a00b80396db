import Typeahead.Automaton

/-! Mending a text that the grammar refuses: one token is inserted before the refused one, or the
refused one is dropped. Decided on states alone. -/

namespace Typeahead

/-- What became of a token. -/
inductive Repair where
  | taken
  | inserted (missing : Terminal)
  | dropped
  deriving DecidableEq, Repr

namespace Recovery

open Automaton

/-- Inserted before all others: closing brackets finish what is open. -/
def preferred : List Terminal := [.rpar, .rbrace, .name]

/-- The terminals worth inserting in a state, the best first. -/
def candidates (q : State) : List Terminal :=
  preferred.filter (fun t => offers q (.token t)) ++
    Terminal.all.filter fun t => offers q (.token t) && !preferred.contains t

/-- Whether a terminal can be inserted so that the wanted one, if any, is taken after it. -/
def fits (qs : List State) (wanted : Option Terminal) (t : Terminal) : Bool :=
  match feed? qs t, wanted with
  | none, _ => false
  | some _, none => true
  | some qs', some w => accepts qs' w

/-- The terminal to insert. -/
def insertion? (qs : List State) (wanted : Option Terminal) : Option Terminal :=
  (candidates (top qs)).find? (fits qs wanted)

theorem fits_of_insertion? {qs : List State} {wanted : Option Terminal} {t : Terminal}
    (h : insertion? qs wanted = some t) : fits qs wanted t :=
  List.find?_some h

/-- The terminals tried in the search for one to insert, the one found included. -/
def tried (qs : List State) (wanted : Option Terminal) : List Terminal :=
  (candidates (top qs)).takeWhile (fun t => !fits qs wanted t) ++ (insertion? qs wanted).toList

/-- The states after a terminal, mended if need be. A refused terminal leaves the reductions made
before it. -/
def advance (qs : List State) (t : Terminal) : Repair × List State :=
  match feed? qs t with
  | some qs' => (.taken, qs')
  | none =>
    let qs := settled (.token t) qs
    match insertion? qs (some t) with
    | none => (.dropped, qs)
    | some m => (.inserted m, ((feed? qs m).bind (feed? · t)).getD qs)

/-- The states after some terminals. -/
def run (qs : List State) (ts : List Terminal) : List State :=
  ts.foldl (fun qs t => (advance qs t).2) qs

end Recovery

end Typeahead
