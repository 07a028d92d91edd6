import Sulion.Basic
import Sulion.Rust.Text

set_option autoImplicit false

/-! # JSON values

`serde_json::Value` and the accessors the modelled functions use. A number is an integer or
keeps its literal; an object is the list of its members, of which `get` finds the first
under a key.

`textAt` is the Postgres operator `#>>`, which the SQL statements use on the same values; how
Postgres prints a value that is neither a string nor null is its parameter.
-/

namespace Sulion.Rust

/-- `serde_json::Value`. -/
inductive Json
  | null
  | bool (b : Bool)
  | int (n : Int)
  | float (literal : String)
  | str (s : String)
  | arr (items : List Json)
  | obj (fields : List (String × Json))
  deriving Inhabited

namespace Json

/-- `Value::get` with a string index. -/
def get : Json → String → Option Json
  | obj fields, key => fields.lookup key
  | _, _ => none

def asStr : Json → Option String
  | str s => some s
  | _ => none

def asBool : Json → Option Bool
  | bool b => some b
  | _ => none

/-- `Value::as_i64`: integers in the range of the type. -/
def asI64 : Json → Option Int
  | int n => if i64Min ≤ n ∧ n ≤ i64Max then some n else none
  | _ => none

/-- `Value::as_u64`. -/
def asU64 : Json → Option Nat
  | int n => if 0 ≤ n ∧ n < 2 ^ 64 then some n.toNat else none
  | _ => none

def asArray : Json → Option (List Json)
  | arr items => some items
  | _ => none

def isObject : Json → Bool
  | obj _ => true
  | _ => false

/-- The value under a path of keys. -/
def at? (value : Json) : List String → Option Json
  | [] => some value
  | key :: path => (value.get key).bind fun inner => inner.at? path

/-- `string_at`: the string under a path of keys. -/
def stringAt (value : Json) (path : List String) : Option String :=
  (value.at? path).bind asStr

/-- `value #>> path`: null where there is nothing, or a JSON null, under the path. -/
def textAt (jsonbText : Json → String) (value : Json) (path : List String) : Option String :=
  match value.at? path with
  | none | some .null => none
  | some (.str s) => some s
  | some other => some (jsonbText other)

/-- `Map::insert` on the members of an object, which are kept in key order. -/
def insertField (fields : List (String × Json)) (key : String) (value : Json) :
    List (String × Json) :=
  fields.filter (fun f => decide (f.1 < key)) ++ (key, value) ::
    fields.filter (fun f => decide (key < f.1))

/-- `value.get(key).and_then(Value::as_str)`. -/
def strAt (value : Json) (key : String) : Option String := (value.get key).bind asStr

end Json

/-- `codex_record_kind`. -/
def codexRecordKind (value : Json) : Option String :=
  ((value.get "kind").bind Json.asStr).or ((value.get "type").bind Json.asStr)

end Sulion.Rust
