/-! JSON values. An integer is kept as such inside the range of 64-bit words, signed or unsigned, and
every other number is a finite double. An object is a list of members, which `Json.ofMembers` puts
into increasing order of their keys; lookups take the first member of a key. -/

namespace ItemMetrics

/-- A number of a JSON text. -/
inductive Json.Number where
  | int (value : Int) (lower : -0x8000000000000000 ≤ value)
    (upper : value < 0x10000000000000000)
  | float (value : Float) (finite : value.isFinite = true)
  deriving DecidableEq

inductive Json where
  | null
  | bool (value : Bool)
  | number (value : Json.Number)
  | string (value : String)
  | array (items : List Json)
  | object (members : List (String × Json))
  deriving Inhabited

namespace Json

/-- The members of an object. -/
abbrev Members := List (String × Json)

namespace Number

def ofInt? (n : Int) : Option Number :=
  if h : -0x8000000000000000 ≤ n ∧ n < 0x10000000000000000 then some (.int n h.1 h.2) else none

def ofFloat? (x : Float) : Option Number :=
  if h : x.isFinite = true then some (.float x h) else none

/-- The double nearest to the number. -/
def toFloat : Number → Float
  | .int n _ _ => Float.ofInt n
  | .float x _ => x

/-- The number as a signed 64-bit integer, if it is an integer that fits. -/
def toInt64? : Number → Option Int64
  | .int n _ _ => if n < 0x8000000000000000 then some (Int64.ofInt n) else none
  | .float .. => none

/-- Integers are equal as integers and doubles as doubles; an integer is never equal to a double. -/
def beq : Number → Number → Bool
  | .int n _ _, .int m _ _ => n == m
  | .float x _, .float y _ => x == y
  | _, _ => false

instance : BEq Number := ⟨beq⟩

end Number

mutual
/-- Equality of values, with the members of objects compared in order. -/
def beq : Json → Json → Bool
  | .null, .null => true
  | .bool a, .bool b => a == b
  | .number a, .number b => a == b
  | .string a, .string b => a == b
  | .array xs, .array ys => beqItems xs ys
  | .object ms, .object ns => beqMembers ms ns
  | _, _ => false

def beqItems : List Json → List Json → Bool
  | [], [] => true
  | x :: xs, y :: ys => x.beq y && beqItems xs ys
  | _, _ => false

def beqMembers : List (String × Json) → List (String × Json) → Bool
  | [], [] => true
  | (k, x) :: ms, (l, y) :: ns => k == l && x.beq y && beqMembers ms ns
  | _, _ => false
end

instance : BEq Json := ⟨beq⟩

/-- Numbers by their value as doubles, `true` as one and `false` as zero; all else by `beq`. -/
def agrees : Json → Json → Bool
  | .number a, .number b => a.toFloat == b.toFloat
  | .bool b, .number n => n.toFloat == if b then 1 else 0
  | .number n, .bool b => n.toFloat == if b then 1 else 0
  | a, b => a == b

/-- The value of the first member called `key`. -/
def Members.get? (ms : Members) (key : String) : Option Json :=
  ms.lookup key

/-- Sets `key` in a list of members with increasing keys. -/
def Members.insert : Members → String → Json → Members
  | [], key, value => [(key, value)]
  | (k, v) :: ms, key, value =>
    if key < k then (key, value) :: (k, v) :: ms
    else if key = k then (key, value) :: ms
    else (k, v) :: Members.insert ms key value

/-- The members in increasing order of their keys; of several with one key the last one counts. -/
def Members.ofList (ms : List (String × Json)) : Members :=
  ms.foldl (fun acc m => acc.insert m.1 m.2) []

/-- The object with the given members, in increasing order of their keys. -/
def ofMembers (ms : List (String × Json)) : Json :=
  .object (Members.ofList ms)

/-- The value of a member; only objects have members. -/
def get? : Json → String → Option Json
  | .object ms, key => Members.get? ms key
  | _, _ => none

def isObject : Json → Bool
  | .object _ => true
  | _ => false

def string? : Json → Option String
  | .string s => some s
  | _ => none

def array? : Json → Option (List Json)
  | .array xs => some xs
  | _ => none

/-- What counts as present: anything but null, `false`, zero and what is empty. -/
def isTruthy : Json → Bool
  | .null => false
  | .bool b => b
  | .number n => n.toFloat != 0
  | .string s => !s.isEmpty
  | .array xs => !xs.isEmpty
  | .object ms => !ms.isEmpty

/-- A count as a number; it stops at the largest integer there is. -/
def ofNat (n : Nat) : Json :=
  .number (.int (min n 0xffffffffffffffff) (by omega) (by omega))

def strings (xs : List String) : Json :=
  .array (xs.map .string)

end Json
end ItemMetrics
