/-!
Module: FlightFit.Keyed
Purpose: Association lists kept in increasing order of their text keys. Inserting under a key that is
  present replaces its value, so each key occurs once and the last value given for it counts.
Main exports: Keyed.insert, Keyed.find?, Keyed.erase, Keyed.ofList
-/

namespace FlightFit.Keyed

variable {α : Type}

/-- Puts a value under a key, at its place in the order. -/
def insert (key : String) (value : α) : List (String × α) → List (String × α)
  | [] => [(key, value)]
  | (k, v) :: rest =>
    if key = k then (key, value) :: rest
    else if key < k then (key, value) :: (k, v) :: rest
    else (k, v) :: insert key value rest

/-- The value under a key. -/
def find? (key : String) : List (String × α) → Option α
  | [] => none
  | (k, v) :: rest => if key = k then some v else find? key rest

/-- The pairs without those under a key. -/
def erase (key : String) (pairs : List (String × α)) : List (String × α) := pairs.filter fun pair => pair.1 != key

/-- Orders a list of pairs by key; of several pairs with one key the last counts. -/
def ofList (pairs : List (String × α)) : List (String × α) :=
  pairs.foldl (fun map pair => insert pair.1 pair.2 map) []

end FlightFit.Keyed
