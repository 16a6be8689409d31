import ShardFleet.Text.Quoted

/-!
# RESP values

The values that servers and clients exchange, the views a reader takes of them, and the text that
diagnostics show for them.
-/

namespace ShardFleet.Resp

/-- A value of the RESP protocol, version 2. -/
inductive Value where
  /-- A line of text. -/
  | simple (text : String)
  /-- The message of an error reply. -/
  | error (message : String)
  | integer (n : Int64)
  /-- A byte string of announced length. -/
  | bulk (bytes : Bytes)
  /-- The byte string that is not there. -/
  | nullBulk
  | array (items : List Value)
  /-- The array that is not there. -/
  | nullArray
deriving Repr, Inhabited

namespace Value

mutual

/-- Equality of values. -/
def beq : Value → Value → Bool
  | simple s, simple t => s == t
  | error s, error t => s == t
  | integer m, integer n => m == n
  | bulk a, bulk b => a == b
  | nullBulk, nullBulk => true
  | array l, array m => beqAll l m
  | nullArray, nullArray => true
  | _, _ => false

/-- Equality of lists of values. -/
def beqAll : List Value → List Value → Bool
  | [], [] => true
  | v :: l, w :: m => beq v w && beqAll l m
  | _, _ => false

end

mutual

theorem beq_iff : ∀ v w : Value, beq v w = true ↔ v = w
  | simple _, w => by cases w <;> simp [beq]
  | error _, w => by cases w <;> simp [beq]
  | integer _, w => by cases w <;> simp [beq]
  | bulk _, w => by cases w <;> simp [beq]
  | nullBulk, w => by cases w <;> simp [beq]
  | array l, w => by cases w <;> simp [beq, beqAll_iff l]
  | nullArray, w => by cases w <;> simp [beq]

theorem beqAll_iff : ∀ l m : List Value, beqAll l m = true ↔ l = m
  | [], m => by cases m <;> simp [beqAll]
  | v :: l, m => by cases m <;> simp [beqAll, beq_iff v, beqAll_iff l]

end

instance : DecidableEq Value := fun v w => decidable_of_iff _ (beq_iff v w)

/-- The text of a line or of a byte string that is UTF-8. -/
def asText? : Value → Option String
  | simple s => some s
  | bulk b => Utf8.decode? b
  | _ => none

/-- The number of an integer. -/
def asInteger? : Value → Option Int64
  | integer n => some n
  | _ => none

/-- Whether the value says that something is not there. -/
def isNull : Value → Bool
  | nullBulk => true
  | nullArray => true
  | _ => false

mutual

/-- The text that diagnostics show for a value. -/
def inspect : Value → String
  | simple s => "SimpleString(" ++ Text.quoted s ++ ")"
  | error s => "Error(" ++ Text.quoted s ++ ")"
  | integer n => "Integer(" ++ toString n.toInt ++ ")"
  | bulk b => "BulkString(Some(" ++ Text.quotedBytes b ++ "))"
  | nullBulk => "BulkString(None)"
  | array l => "Array(Some([" ++ String.intercalate ", " (inspectAll l) ++ "]))"
  | nullArray => "Array(None)"

/-- The texts that diagnostics show for the items of an array. -/
def inspectAll : List Value → List String
  | [] => []
  | v :: l => inspect v :: inspectAll l

end

end Value

end ShardFleet.Resp
