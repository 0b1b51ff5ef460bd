import BundlePacker.Decimal.Double

/-!
# Similarity of names

How much a mistyped name looks like a known one.  Characters match when they are equal and not too
far apart, each one at most once; the measure falls with the share of characters that have no match
and with the number of matches that come in another order.  It is computed in double precision, so
that equally similar names are told apart exactly where rounding does so.
-/

namespace BundlePacker.Text.Similarity

/-- Take the first unused occurrence of a character between two positions. -/
def takePartner (least greatest : Nat) (character : Char) :
    Nat → List (Char × Bool) → Option (List (Char × Bool))
  | _, [] => none
  | position, (candidate, used) :: rest =>
    if least ≤ position ∧ position ≤ greatest ∧ !used ∧ candidate = character then
      some ((candidate, true) :: rest)
    else
      (takePartner least greatest character (position + 1) rest).map ((candidate, used) :: ·)

/-- Match characters from left to right: those that found a match, and what is used up. -/
def matchFrom (window : Nat) :
    Nat → List Char → List (Char × Bool) → List Char × List (Char × Bool)
  | _, [], candidates => ([], candidates)
  | position, character :: rest, candidates =>
    match takePartner (position - window) (position + window) character 0 candidates with
    | none => matchFrom window (position + 1) rest candidates
    | some remaining =>
      let (matched, last) := matchFrom window (position + 1) rest remaining
      (character :: matched, last)

/-- How far apart two matching characters may be. -/
def window (first second : List Char) : Nat :=
  max first.length second.length / 2 - 1

/-- A quotient in double precision. -/
def quotient (numerator denominator : Nat) : Rat :=
  Decimal.rounded ((numerator : Rat) / (denominator : Rat))

/-- The similarity of two names: one for equal names, zero where nothing matches. -/
def measure (first second : List Char) : Rat :=
  let (matched, candidates) :=
    matchFrom (window first second) 0 first (second.map fun character => (character, false))
  let partners := (candidates.filter fun candidate => candidate.2).map fun candidate => candidate.1
  let swapped := ((matched.zip partners).filter fun pair => pair.1 ≠ pair.2).length / 2
  if matched = [] then
    0
  else
    let shares := Decimal.rounded
      (quotient matched.length first.length + quotient matched.length second.length)
    let total := Decimal.rounded (shares + quotient (matched.length - swapped) matched.length)
    Decimal.rounded (total / 3)

/-- The measure above which a known name is worth mentioning. -/
def threshold : Rat :=
  Decimal.rounded (7 / 10)

/-- The most similar one of some known names, if any is worth mentioning; the last of equals. -/
def closest? (name : List Char) (known : List String) : Option String :=
  let better (best : Option (Rat × String)) (candidate : String) : Option (Rat × String) :=
    let measured := measure name candidate.toList
    match best with
    | none => if threshold < measured then some (measured, candidate) else none
    | some (record, _) => if record ≤ measured then some (measured, candidate) else best
  (known.foldl better none).map fun best => best.2

end BundlePacker.Text.Similarity
