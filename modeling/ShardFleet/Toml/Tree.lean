/-!
# Documents as trees

What a settings document says, whatever format it is written in.
-/

namespace ShardFleet

/-- A value of a document. -/
inductive Tree where
  | text (s : String)
  | integer (n : Int)
  | boolean (b : Bool)
  /-- The value that is not there. -/
  | null
  /-- A value of a kind that no setting has, such as a fraction or a date. -/
  | other
  | list (items : List Tree)
  | table (fields : List (String × Tree))
deriving Repr, Inhabited

namespace Tree

/-- The text of a text. -/
def asText? : Tree → Option String
  | text s => some s
  | _ => none

/-- The number of an integer below `bound`. -/
def asNat? (bound : Nat) : Tree → Option Nat
  | integer n => if 0 ≤ n ∧ n < bound then some n.toNat else none
  | _ => none

/-- The truth value of a boolean. -/
def asBool? : Tree → Option Bool
  | boolean b => some b
  | _ => none

/-- The items of a list. -/
def asList? : Tree → Option (List Tree)
  | list l => some l
  | _ => none

end Tree

end ShardFleet
