import OoreBuild.Lib.Run
import OoreBuild.Config
import OoreBuild.Expression

/-!
# Resolving references

Vars and the flavor are substituted while a file is lowered; secret references stay as written.
A resolver keeps the vars it has resolved, by name and flavor scope, and counts its work against
the limits of one file.

`expandText` is the substitution with the treatment of a var left open. The resolver instantiates
it with a cache and a budget (`expandVar`).
-/

namespace OoreBuild

open Text

/-- Longest value a reference may expand to. -/
def maxExpandedBytes : ℕ := 64 * 1024

/-- Most var references one file may expand, across every workflow. -/
def maxVarExpansions : ℕ := 250000

/-- Most text vars may add across one file and every workflow. -/
def maxTotalExpandedBytes : ℕ := 4 * 1024 * 1024

/-- Where a value is resolved. A flavor is told apart by where its text lives. -/
inductive FlavorScope where
  | value (place : ℕ) (flavor : Text)
  | noFlavors
  | outside
  deriving DecidableEq, Repr

/-- The scope vars are validated in; no flavor of the file lives there. -/
def validationScope : FlavorScope := .value 0 "flavor"

/-- Errors that end validation early. -/
def isLimitError (error : Text) : Bool :=
  contains error " through vars" || contains error " in this file"

/-! ## Errors -/

def tooLong (path : Text) : Text :=
  path ++ " expands to more than " ++ ofNat (maxExpandedBytes / 1024) ++ " KiB through vars"

def tooManyExpansions (path : Text) : Text :=
  path ++ ": vars expand more than " ++ ofNat maxVarExpansions ++ " times in this file"

def tooManyBytes (path : Text) : Text :=
  path ++ ": vars expand to more than " ++ ofNat (maxTotalExpandedBytes / (1024 * 1024)) ++
    " MiB in this file"

/-- A var as messages name it. -/
def varName (name : Text) : Text := "vars." ++ name

/-- Text is resolved for a field (`path`), inside the vars of `chain`, the first `base` of which
name the field itself. -/
structure Place where
  scope : FlavorScope
  path : Text
  base : ℕ
  chain : List Text
  deriving DecidableEq, Repr

/-- The place inside one more var. -/
def Place.into (place : Place) (name : Text) : Place :=
  { place with chain := place.chain ++ [name] }

/-- The vars that lead to the place, for messages. -/
def Place.through (place : Place) : Text :=
  let chain := place.chain.drop place.base
  if chain.isEmpty then []
  else " (through " ++ join " -> " (chain.map varName) ++ ")"

/-- An error of the text itself names the var it is in. -/
def Place.parseError (place : Place) (error : Text) : Text :=
  match place.chain.getLast? with
  | some last =>
    if place.base < place.chain.length then varName last ++ " " ++ error
    else place.path ++ " " ++ error
  | none => place.path ++ " " ++ error

/-- The index of the least name. -/
def leastIndex (names : List Text) : ℕ :=
  names.findIdx fun name => names.all (textLe name ·)

/-- A cycle starts at its first name, so that it reads the same wherever it was found. -/
def cycleError (chain : List Text) (name : Text) : Text :=
  let cycle := chain.dropWhile (· ≠ name)
  let cycle := cycle.rotate (leastIndex cycle)
  "vars form a cycle: " ++ join " -> " ((cycle ++ cycle.head?.toList).map varName)

/-- The flavor at the place. -/
def Place.flavor (place : Place) : Except Text Text :=
  match place.scope with
  | .value _ flavor => .ok flavor
  | .noFlavors => .error (place.path ++ " uses $\x7b\x7b flavor \x7d\x7d" ++ place.through ++
      ", but no flavors are configured in app.flavors")
  | .outside => .error (place.path ++ " uses $\x7b\x7b flavor \x7d\x7d" ++ place.through ++
      ", which is only available in a target's build and artifacts")

/-- The value of the var at the place. -/
def Place.lookup (place : Place) (vars : List (Text × Text)) (name : Text) : Except Text Text :=
  if name ∈ place.chain then .error (cycleError place.chain name)
  else match vars.lookup name with
    | some value => .ok value
    | none => .error (place.path ++ " refers to vars." ++ name ++ place.through ++
        ", which is not defined")

/-! ## Substitution -/

section Substitution

variable {σ : Type}

/-- Text written out in the file is not capped, only what vars add. -/
def isTooLong (text out : Text) : Bool :=
  maxExpandedBytes < byteLen out && byteLen text < byteLen out

theorem isTooLong_nil (text : Text) : isTooLong text [] = false := by
  simp [isTooLong]

def ofExcept {α : Type} (result : Except Text α) : Run σ Text α := fun s => (result, s)

/-- What an expression is replaced by. -/
def expandPiece (place : Place) (expandVar : Text → Run σ Text Text) (piece : Piece) :
    Run σ Text Text :=
  match piece.expression with
  | .secret _ => pure piece.raw
  | .flavor => ofExcept place.flavor
  | .var name => expandVar name

/-- Substitute one expression after the other. -/
def expandPieces (place : Place) (expandVar : Text → Run σ Text Text) (text : Text) :
    List Piece → Text → Run σ Text Text
  | [], out => pure out
  | piece :: rest, out => do
    let added ← expandPiece place expandVar piece
    let out := out ++ piece.before ++ added
    if isTooLong text out then Run.fail (tooLong place.path)
    else expandPieces place expandVar text rest out

/-- Append the text after the last expression. -/
def finishText (place : Place) (text tail out : Text) : Run σ Text Text :=
  if isTooLong text (out ++ tail) then Run.fail (tooLong place.path) else pure (out ++ tail)

/-- Substitute the vars and the flavor in a text. -/
def expandText (place : Place) (expandVar : Text → Run σ Text Text) (text : Text) :
    Run σ Text Text :=
  match parseExpressions text with
  | .error error => Run.fail (place.parseError error)
  | .ok (pieces, tail) => do
    let out ← expandPieces place expandVar text pieces []
    finishText place text tail out

end Substitution

/-! ## The resolver -/

/-- A resolved var: its name and the scope it was resolved in. -/
abbrev Key := Text × FlavorScope

/-- Expansion work shared by everything resolved for one file. -/
structure Budget where
  expansions : ℕ
  bytes : ℕ
  deriving DecidableEq, Repr

/-- The budget and the vars resolved so far, the last one first. -/
structure Work where
  budget : Budget
  cache : List (Key × Text)
  deriving DecidableEq, Repr

/-- One expansion more. -/
def Work.spend (s : Work) : Work :=
  { s with budget.expansions := s.budget.expansions + 1 }

/-- The text of a resolved var more. -/
def Work.charge (s : Work) (resolved : Text) : Work :=
  { s with budget.bytes := s.budget.bytes + byteLen resolved }

/-- A resolved var more. -/
def Work.remember (s : Work) (key : Key) (resolved : Text) : Work :=
  { s with cache := (key, resolved) :: s.cache }

/-- Count an expansion. -/
def countExpansion (path : Text) : Run Work Text Unit := fun s =>
  (if maxVarExpansions < s.spend.budget.expansions then .error (tooManyExpansions path)
    else .ok (), s.spend)

/-- Count the text a var added. -/
def countBytes (path resolved : Text) : Run Work Text Text := fun s =>
  (if maxTotalExpandedBytes < (s.charge resolved).budget.bytes then .error (tooManyBytes path)
    else .ok resolved, s.charge resolved)

/-- Replace a var, by what it was resolved to before or by `resolveValue`. -/
def expandVar (vars : List (Text × Text)) (place : Place)
    (resolveValue : Place → Text → Run Work Text Text) (name : Text) : Run Work Text Text := do
  let value ← ofExcept (place.lookup vars name)
  countExpansion place.path
  let cached ← Run.read fun s => s.cache.lookup (name, place.scope)
  match cached with
  | some resolved => countBytes place.path resolved
  | none =>
    let resolved ← resolveValue (place.into name) value
    Run.update (·.remember (name, place.scope) resolved)
    countBytes place.path resolved

/-- Resolve a text. The vars of a chain are distinct, so one more than there are vars is enough
fuel; the value without fuel is never reached. -/
def resolveInner (vars : List (Text × Text)) : ℕ → Place → Text → Run Work Text Text
  | 0, place, _ => Run.fail place.path
  | fuel + 1, place, text =>
    expandText place (expandVar vars place (resolveInner vars fuel)) text

/-- Resolve with `chain` naming the var `path` is itself, for validating vars. -/
def resolveFrom (vars : List (Text × Text)) (text : Text) (scope : FlavorScope) (path : Text)
    (chain : List Text) : Run Work Text Text :=
  resolveInner vars (vars.length + 1) ⟨scope, path, chain.length, chain⟩ text

/-- Substitute vars and the flavor. -/
def resolve (vars : List (Text × Text)) (text : Text) (scope : FlavorScope) (path : Text) :
    Run Work Text Text :=
  resolveFrom vars text scope path []

end OoreBuild
