import DeliveryLedger.Binary64
/-!
JSON values.  Integers are unbounded and differ from floating-point numbers: `1` and `1.0`
are two values.  An object is a row of members, as they were written; `Json.collect` keeps its
keys distinct.
-/

namespace DeliveryLedger

inductive Json where
  | null
  | bool (b : Bool)
  | int (i : Int)
  | float (x : Binary64)
  | str (s : String)
  | arr (items : List Json)
  | obj (members : List (String × Json))
deriving Repr, Inhabited, BEq

/-- A row of keyed values with one more: a known key keeps its place and takes the new
value, a new key comes last. -/
def insertMember {α : Type} (key : String) (value : α) : List (String × α) → List (String × α)
  | [] => [(key, value)]
  | (k, v) :: rest =>
    if k = key then (key, value) :: rest else (k, v) :: insertMember key value rest

/-- The value of a key. -/
def member? {α : Type} (key : String) : List (String × α) → Option α
  | [] => none
  | (k, v) :: rest => if k = key then some v else member? key rest

/-- The keyed values without those of one key. -/
def eraseMember {α : Type} (key : String) (members : List (String × α)) : List (String × α) :=
  members.filter (fun m => m.1 ≠ key)

/-- A row of keyed values with each key once: the last value of a key counts. -/
def collectMembers {α : Type} (members : List (String × α)) : List (String × α) :=
  members.foldl (fun known m => insertMember m.1 m.2 known) []

theorem member?_insertMember {α : Type} (key : String) (value : α)
    (members : List (String × α)) (k : String) :
    member? k (insertMember key value members) =
      if k = key then some value else member? k members := by
  fun_induction insertMember key value members <;> grind [member?]

theorem member?_eraseMember {α : Type} (key : String) (members : List (String × α)) (k : String) :
    member? k (eraseMember key members) = if k = key then none else member? k members := by
  induction members with
  | nil => simp [eraseMember, member?]
  | cons m rest ih => grind [eraseMember, member?]

theorem map_fst_insertMember {α : Type} (key : String) (value : α)
    (members : List (String × α)) :
    (insertMember key value members).map (·.1) =
      if key ∈ members.map (·.1) then members.map (·.1) else members.map (·.1) ++ [key] := by
  fun_induction insertMember key value members <;> grind

namespace Json

/-- The value of a member of an object. -/
def get? (j : Json) (key : String) : Option Json :=
  match j with
  | .obj members => member? key members
  | _ => none

def asText? : Json → Option String
  | .str s => some s
  | _ => none

def asInt? : Json → Option Int
  | .int i => some i
  | _ => none

def asBool? : Json → Option Bool
  | .bool b => some b
  | _ => none

def asItems? : Json → Option (List Json)
  | .arr items => some items
  | _ => none

def asMembers? : Json → Option (List (String × Json))
  | .obj members => some members
  | _ => none

mutual

/-- The value with each key once in every object. -/
def collect : Json → Json
  | .arr items => .arr (collectItems items)
  | .obj members => .obj (collectMembers (collectValues members))
  | .null => .null
  | .bool b => .bool b
  | .int i => .int i
  | .float x => .float x
  | .str s => .str s

def collectItems : List Json → List Json
  | [] => []
  | x :: xs => collect x :: collectItems xs

def collectValues : List (String × Json) → List (String × Json)
  | [] => []
  | (k, v) :: ms => (k, collect v) :: collectValues ms

end

mutual

/-- How deep lists and objects lie inside each other; empty ones do not count. -/
def depth : Json → Nat
  | .arr (x :: xs) => max (depth x) (itemsDepth xs) + 1
  | .obj ((_, v) :: ms) => max (depth v) (membersDepth ms) + 1
  | _ => 0

def itemsDepth : List Json → Nat
  | [] => 0
  | x :: xs => max (depth x) (itemsDepth xs)

def membersDepth : List (String × Json) → Nat
  | [] => 0
  | (_, v) :: ms => max (depth v) (membersDepth ms)

end

end Json

end DeliveryLedger
