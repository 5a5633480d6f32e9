import Mathlib.Data.UInt

/-! # JSON documents as trees

Values as a reader sees them that asks for fields and types. A question that does not fit the value
has no answer (`none`). Numbers are integers of any size or have a fraction or an exponent. Of
fields with one name the first one is found. -/

namespace JsonTree

inductive Value where
  | null
  | bool (b : Bool)
  | integer (n : Int)
  | decimal (text : String)
  | string (s : String)
  | array (items : List Value)
  | object (fields : List (String × Value))

namespace Value

def getBool : Value → Option Bool
  | bool b => some b
  | _ => none

def getString : Value → Option String
  | string s => some s
  | _ => none

def getUint64 : Value → Option UInt64
  | integer n => if 0 ≤ n ∧ n < 2 ^ 64 then some (UInt64.ofNat n.toNat) else none
  | _ => none

def getInt64 : Value → Option Int64
  | integer n => if -2 ^ 63 ≤ n ∧ n < 2 ^ 63 then some (Int64.ofInt n) else none
  | _ => none

def getArray : Value → Option (List Value)
  | array items => some items
  | _ => none

def getField (v : Value) (key : String) : Option Value :=
  match v with
  | object fields => (fields.find? (·.1 = key)).map (·.2)
  | _ => none

/-! ## Fields of a type -/

def boolAt (v : Value) (key : String) : Option Bool := (v.getField key).bind getBool

def stringAt (v : Value) (key : String) : Option String := (v.getField key).bind getString

def uint64At (v : Value) (key : String) : Option UInt64 := (v.getField key).bind getUint64

def int64At (v : Value) (key : String) : Option Int64 := (v.getField key).bind getInt64

def arrayAt (v : Value) (key : String) : Option (List Value) := (v.getField key).bind getArray

end Value

end JsonTree
