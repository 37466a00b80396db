/-! Paths as texts, with `/` between their parts. -/

namespace Typeahead.Path

/-- The parts between slashes. -/
def parts (path : String) : List String :=
  (path.toList.splitOn '/').map String.ofList

/-- Whether a path starts at the root. -/
def isAbsolute (path : String) : Bool :=
  path.toList.head? == some '/'

/-- The slashes at the front that mean something: two are kept apart from one, more count as one. -/
def rootSlashes (path : String) : String :=
  match path.toList with
  | '/' :: '/' :: '/' :: _ => "/"
  | '/' :: '/' :: _ => "//"
  | '/' :: _ => "/"
  | _ => ""

/-- A path continued by another, which wins if it is absolute. -/
def join (base path : String) : String :=
  if isAbsolute path then path
  else if base.isEmpty || base.endsWith "/" then base ++ path
  else base ++ "/" ++ path

/-- Adds one part to the parts before it, last first: `..` takes one away, unless there is none. -/
def resolvePart (rooted : Bool) (before : List String) (part : String) : List String :=
  if part == "" || part == "." then
    before
  else if part == ".." then
    match before with
    | [] => if rooted then [] else [".."]
    | last :: rest => if last == ".." then ".." :: before else rest
  else
    part :: before

/-- A path without empty parts, `.` and `..`. -/
def normalize (path : String) : String :=
  let slashes := rootSlashes path
  let kept := (parts path).foldl (resolvePart (slashes != "")) []
  let text := slashes ++ "/".intercalate kept.reverse
  if text.isEmpty then "." else text

/-- A path without empty parts and `.`; `..` stays. -/
def tidy (path : String) : String :=
  let kept := (parts path).filter fun part => part != "" && part != "."
  let text := rootSlashes path ++ "/".intercalate kept
  if text.isEmpty then "." else text

/-- A path up to and including its last slash; empty if it has none. -/
def parent (path : String) : String :=
  String.ofList (path.toList.reverse.dropWhile (· != '/')).reverse

/-- What follows the last slash holds none. -/
theorem exists_parent_append (path : String) : ∃ name, path = parent path ++ name ∧ '/' ∉ name.toList := by
  have hname := List.all_eq_true.mp (List.all_takeWhile (p := (· != '/')) (l := path.toList.reverse))
  refine ⟨String.ofList (path.toList.reverse.takeWhile (· != '/')).reverse, ?_, ?_⟩
  · rw [parent, ← String.ofList_append, ← List.reverse_append, List.takeWhile_append_dropWhile, List.reverse_reverse,
      String.ofList_toList]
  · rw [String.toList_ofList, List.mem_reverse]
    exact fun hc => absurd (hname '/' hc) (by decide)

/-- A path up to its last slash ends with it, if there is one. -/
theorem parent_cases (path : String) : parent path = "" ∨ ∃ xs, (parent path).toList = xs ++ ['/'] := by
  rw [parent, String.toList_ofList]
  cases h : path.toList.reverse.dropWhile (· != '/') with
  | nil => exact .inl rfl
  | cons c cs =>
      have hc : (c != '/') = false := by
        have hhead := List.head_dropWhile_not (· != '/') (l := path.toList.reverse) (by simp [h])
        simpa only [h, List.head_cons] using hhead
      rw [bne_eq_false_iff_eq] at hc
      exact .inr ⟨cs.reverse, by rw [List.reverse_cons, hc]⟩

end Typeahead.Path
