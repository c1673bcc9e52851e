/-! JSON values. Integers and floating-point numbers are told apart, and an object lists its
members by name, upwards, each name once. -/
namespace Pickaxe

inductive Json where
  | null
  | bool (b : Bool)
  | int (n : Int)
  | float (x : Float)
  | text (s : String)
  | array (items : List Json)
  | object (members : List (String × Json))
deriving Inhabited

namespace Json

/-- Puts a member in its place. An earlier member of that name gives way. -/
def insert (name : String) (v : Json) : List (String × Json) → List (String × Json)
  | [] => [(name, v)]
  | m :: rest =>
    if name < m.1 then (name, v) :: m :: rest
    else if name = m.1 then (name, v) :: rest
    else m :: insert name v rest

/-- The object of these members, the last of each name. -/
def ofMembers (members : List (String × Json)) : Json :=
  .object (members.foldl (fun ms m => insert m.1 m.2 ms) [])

/-- The member of that name, and null where there is none. -/
def member (name : String) : Json → Json
  | .object members => ((members.find? (·.1 = name)).map (·.2)).getD .null
  | _ => .null

/-- Puts a value where the names of `path` lead. What is no object stays as it is. -/
def put (v : Json) : (path : List String) → Json → Json
  | [], _ => v
  | name :: path, .object members =>
    .object (insert name (put v path (member name (.object members))) members)
  | _, other => other

/-- The floating-point number, or null in place of one that JSON cannot hold. -/
def ofFloat (x : Float) : Json := if x.isFinite then .float x else .null

end Json

end Pickaxe
