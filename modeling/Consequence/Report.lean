/-!
# Reports

A report says how a query stands to some knowledge. Knowledge may entail the query, or its
negation, or neither, and all three leave open that the knowledge has a model. If it entails
both it has none, and that is reported in place of a choice between the two.
-/

namespace Consequence

inductive Report where
  /-- The query is true in every model of the knowledge. -/
  | present
  /-- The query is false in every model of the knowledge. -/
  | absent
  /-- The query is true in some model of the knowledge and false in another. -/
  | undetermined
  /-- The knowledge has no model. -/
  | inconsistent
deriving DecidableEq

namespace Report

/-- The report, given whether the query is entailed and whether its negation is. -/
def ofEntailments : (query negation : Bool) → Report
  | true, false => present
  | false, true => absent
  | false, false => undetermined
  | true, true => inconsistent

/-- Whether the knowledge has a model and settles the query. -/
def isDetermined : Report → Bool
  | present | absent => true
  | undetermined | inconsistent => false

def text : Report → String
  | present => "YES"
  | absent => "NO"
  | undetermined => "MAYBE"
  | inconsistent => "INCONSISTENT"

end Report

end Consequence
