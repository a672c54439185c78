import OpenwrtMtk.Luci.Characters

/-!
# Lua values

The values that the libraries of LuCI write and read. Numbers are those of the interpreter, which is a
parameter of what uses them. A table is the list of its entries in the order in which `pairs` gives
them; its keys are strings or positive integers, and no entry is nil.
-/

namespace OpenwrtMtk.Luci

open Toolkit

set_option autoImplicit false

universe u

inductive Key where
  | index (n : Nat)
  | name (s : List U8)
  deriving DecidableEq

inductive Value (ν : Type u) where
  | nil
  /-- `luci.json.null`, a function. -/
  | null
  | bool (b : Bool)
  | number (x : ν)
  | string (s : List U8)
  | table (entries : List (Key × Value ν))

namespace Value

variable {ν : Type u}

def isNil : Value ν → Bool
  | .nil => true
  | _ => false

def truthy : Value ν → Bool
  | .nil | .bool false => false
  | _ => true

end Value

section Table

variable {ν : Type u}

/-- `t[k] = v`. -/
def assign (entries : List (Key × Value ν)) (k : Key) (v : Value ν) : List (Key × Value ν) :=
  if v.isNil then entries.filter fun x => x.1 ≠ k
  else if entries.any fun x => x.1 = k then
    entries.map fun x => if x.1 = k then (k, v) else x
  else entries ++ [(k, v)]

/-- Count on from `n` while the next index is there. -/
def borderFrom {α : Type u} (entries : List (Key × α)) : Nat → Nat → Nat
  | 0, n => n
  | fuel + 1, n =>
    if entries.any fun x => x.1 = .index (n + 1) then borderFrom entries fuel (n + 1) else n

/-- `#t`. Where there are holes Lua may give any border; this is the first. -/
def border {α : Type u} (entries : List (Key × α)) : Nat := borderFrom entries entries.length 0

/-- The entries of a dense array whose first index is `i`. -/
def arrayEntries {α : Type u} (i : Nat) : List α → List (Key × α)
  | [] => []
  | v :: vs => (.index i, v) :: arrayEntries (i + 1) vs

end Table

/-- The numbers of the interpreter, with the integers that `tostring` prints exactly. -/
structure LuaNumbers (ν : Type u) where
  tostring : ν → List U8
  tonumber : List U8 → Option ν
  ofInt : Int → ν
  Exact : Int → Prop
  tostring_ofInt : ∀ n, Exact n → tostring (ofInt n) = decimal n
  tonumber_decimal : ∀ n, Exact n → tonumber (decimal n) = some (ofInt n)

end OpenwrtMtk.Luci
