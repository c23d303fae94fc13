/-!
Linear orders of class hierarchies.

`merge` interleaves orders: the next member is the first head of an order that stands in the
tail of none.  A class comes before its bases, and bases keep the order in which a class
names them; where these demands contradict each other there is no order.
-/

namespace DeliveryLedger.Lineage

variable {α : Type} [DecidableEq α]

/-- A member that stands behind the first place of some order. -/
def isBehind (orders : List (List α)) (a : α) : Bool :=
  orders.any fun order => order.tail.contains a

/-- The first head of an order that stands behind the first place of none. -/
def nextHead? (orders : List (List α)) : Option α :=
  (orders.filterMap List.head?).find? fun a => !isBehind orders a

/-- The orders without `a` at their heads. -/
def dropHead (a : α) (orders : List (List α)) : List (List α) :=
  orders.map fun order => if order.head? = some a then order.tail else order

/-- The total length of the orders. -/
def total (orders : List (List α)) : Nat := orders.flatten.length

/-- The members that orders begin with. -/
def heads (orders : List (List α)) : List α := (orders.filterMap List.head?).eraseDups

/-- The orders interleaved into one, with as many steps as `fuel` allows.  Where that fails, the
members that stand at the heads of what is left contradict each other. -/
def mergeWithin : Nat → List (List α) → Except (List α) (List α)
  | 0, orders => if orders.all List.isEmpty then .ok [] else .error (heads orders)
  | fuel + 1, orders =>
    if orders.all List.isEmpty then .ok []
    else
      match nextHead? orders with
      | none => .error (heads orders)
      | some a => (mergeWithin fuel (dropHead a orders)).map (a :: ·)

/-- The orders interleaved into one. -/
def merge (orders : List (List α)) : Except (List α) (List α) :=
  mergeWithin (total orders) orders

/-- The order of a class from the orders of its bases. -/
def extend (self : α) (bases : List α) (orders : List (List α)) : Except (List α) (List α) :=
  (merge (orders ++ [bases])).map (self :: ·)

end DeliveryLedger.Lineage
