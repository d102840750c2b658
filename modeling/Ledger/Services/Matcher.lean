import Ledger.Data.Tables

/-! # Statement Matcher

    `services/reconciliation_matcher.py`: match a statement line against
    candidate postings.  A date is its proleptic Gregorian ordinal.
-/

namespace Ledger

/-- `timedelta(days=2)`. -/
def MATCH_WINDOW : Int := 2

/-- A posting the matcher may link a statement line to. -/
structure PostingCandidate where
  postingId : UUID
  amount : Int
  effectiveDate : Int
  externalRef : String := ""
  deriving DecidableEq

/-- Either a matched posting id or the reason it could not be matched. -/
structure MatchResult where
  postingId : Option UUID
  exception : Option ExceptionKind
  deriving DecidableEq

/-- The candidate is a hit for the line. -/
def isHit (amount valueDate : Int) (externalRef : String) (c : PostingCandidate) : Bool :=
  c.amount = amount && |c.effectiveDate - valueDate| ≤ MATCH_WINDOW &&
    (externalRef = "" || c.externalRef = "" || c.externalRef = externalRef)

/-- Match one statement line against candidate postings. -/
def matchLine (amount valueDate : Int) (externalRef : String) (candidates : List PostingCandidate) :
    MatchResult :=
  match candidates.filter (isHit amount valueDate externalRef) with
  | [hit] => { postingId := some hit.postingId, exception := none }
  | _ :: _ :: _ => { postingId := none, exception := some .AMBIGUOUS }
  | [] => { postingId := none, exception := some .UNMATCHED }

end Ledger
