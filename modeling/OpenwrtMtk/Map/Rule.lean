import OpenwrtMtk.Lib.BitString
import OpenwrtMtk.Lib.Checked
import OpenwrtMtk.Lib.Field
import OpenwrtMtk.Luci.Characters
import OpenwrtMtk.Map.PortSets

/-!
# Rules of mapcalc

How a rule is read, a delegated prefix found for it, and an IPv4 address and a PSID taken from the
prefix. Every access of the copies by bits is checked against the arrays, and every shift against its
amount. Addresses are their bytes in memory; `int` and `size_t` have 32 bits and wrap.
-/

namespace OpenwrtMtk.Map

open Toolkit
open Luci (latin)

set_option autoImplicit false

/-- A number as an `int`. -/
def asInt (n : Int) : Int := (n + 2 ^ 31) % 2 ^ 32 - 2 ^ 31

/-- A number as a `size_t`. -/
def sizeT (n : Int) : Nat := (n % 2 ^ 32).toNat

/-- What becomes of the amount of a shift. From 0 to 31 it is taken as it is. -/
structure Shifts where
  amount : Int → Checked Nat
  amount_of_lt : ∀ n : Nat, n < 32 → amount n = .ok n

/-- Any other amount is taken as one that depends on the machine. -/
def Shifts.ofMachine (taken : Int → Nat) (h : ∀ n : Nat, n < 32 → taken n = n) : Shifts where
  amount n := .ok (taken n)
  amount_of_lt n hn := congrArg Except.ok (h n hn)

def Shifts.strict : Shifts where
  amount n := if 0 ≤ n ∧ n < 32 then .ok n.toNat else .error .outside
  amount_of_lt n h := if_pos ⟨Int.natCast_nonneg n, Int.ofNat_lt.mpr h⟩

section Copies

/-- Whether `bmemcmp` returns 0; `memcmp` reads all of both. -/
def bmemcmp (a b : List U8) (size : Nat) : Checked Bool := do
  let bytes := size / 8
  let x ← load a 0 bytes
  let y ← load b 0 bytes
  if x = y ∧ 0 < size % 8 then do
    let last ← loadByte a bytes
    let last' ← loadByte b bytes
    return decide (last >>> (8 - size % 8) = last' >>> (8 - size % 8))
  else return decide (x = y)

/-- `(1 << (8 - bits)) - 1`. -/
def lowMask (size : Nat) : U8 := (1 <<< (8 - size)) - 1

def bmemcpy (a b : List U8) (size : Nat) : Checked (List U8) := do
  let bytes := size / 8
  let src ← load b 0 bytes
  let a ← store a 0 src
  if 0 < size % 8 then
    let mask := lowMask (size % 8)
    let last ← loadByte a bytes
    let last' ← loadByte b bytes
    store a bytes [(last &&& mask) ||| (~~~mask &&& last')]
  else return a

/-- The bytes go through a word of 64 bits. -/
def bmemcpys64 (a b : List U8) (frombits nbits : Nat) : Checked (List U8) := do
  let frombyte := frombits / 8
  let tobyte := (frombits + nbits) % 2 ^ 32 / 8
  let src ← load b frombyte ((sizeSub tobyte frombyte + 1) % 2 ^ 32)
  let buf ← store (List.replicate 8 0) 0 src
  bmemcpy a (beBytes 8 (beWord 64 buf <<< (frombits % 8))) nbits

end Copies

section Options

/-- The functions of the C library. `strtoul` with base 0 has no value where it sets `errno`. -/
structure Libc where
  strtoul : List U8 → Option U32
  pton4 : List U8 → Option (Bytes 4)
  pton6 : List U8 → Option (Bytes 16)

/-- What a rule says. -/
structure Options where
  lw4o6 : Bool
  fmr : Bool
  ealen : Int
  prefix4len : Int
  prefix6len : Int
  ipv4prefix : Bytes 4
  ipv6prefix : Bytes 16
  offset : Int
  psidlen : Int
  psid : Int

def Options.initial : Options where
  lw4o6 := false
  fmr := false
  ealen := -1
  prefix4len := 32
  prefix6len := -1
  ipv4prefix := Bytes.zero 4
  ipv6prefix := Bytes.zero 16
  offset := -1
  psidlen := -1
  psid := -1

/-- A number is read and stored unless it is above `max`. A missing value is read through a null pointer. -/
def number (libc : Libc) (value : Option (List U8)) (max : Int) (o : Options) (set : Int → Options) :
    Option Options := do
  let text ← value
  match libc.strtoul text with
  | none => some o
  | some intval => some (if intval.toInt ≤ max then set intval.toInt else o)

def applyOption (libc : Libc) (o : Options) (name : List U8) (value : Option (List U8)) :
    Option Options :=
  if name = latin "type" then some { o with lw4o6 := decide (value = some (latin "lw4o6")) }
  else if name = latin "fmr" then some { o with fmr := true }
  else if name = latin "ealen" then number libc value 48 o fun n => { o with ealen := n }
  else if name = latin "prefix4len" then number libc value 32 o fun n => { o with prefix4len := n }
  else if name = latin "prefix6len" then number libc value 112 o fun n => { o with prefix6len := n }
  else if name = latin "ipv6prefix" then
    value.map fun text => { o with ipv6prefix := (libc.pton6 text).getD o.ipv6prefix }
  else if name = latin "ipv4prefix" then
    value.map fun text => { o with ipv4prefix := (libc.pton4 text).getD o.ipv4prefix }
  else if name = latin "offset" then number libc value 16 o fun n => { o with offset := n }
  else if name = latin "psidlen" then number libc value 16 o fun n => { o with psidlen := n }
  else if name = latin "psid" then number libc value 65535 o fun n => { o with psid := n }
  else some o

/-- What `getsubopt` finds in the text up to a comma. -/
def getsubopt (text : List U8) : List U8 × Option (List U8) :=
  match splitFirst 0x3d text with
  | none => (text, none)
  | some (name, value) => (name, some value)

/-- `none` is a read through a null pointer. -/
def parseRule (libc : Libc) (rule : List U8) : Option Options :=
  (rule.splitOnP (· = 0x2c)).foldlM
    (fun o text => applyOption libc o (getsubopt text).1 (getsubopt text).2) Options.initial

end Options

section Prefixes

/-- An entry of `ipv6-prefix` with its mask. -/
structure Delegated where
  address : Bytes 16
  mask : Fin 129

/-- An interface of the dump, by its name, with the prefixes that are delegated to it. -/
structure Iface where
  name : List U8
  prefixes : List Delegated

/-- The inner loop, up to its `break`. -/
def findPrefix (o : Options) : List Delegated → Checked (Option Delegated)
  | [] => return none
  | d :: ds =>
    if o.prefix6len ≤ d.mask.val then do
      let same ← bmemcmp d.address.val o.ipv6prefix.val (sizeT o.prefix6len)
      if same then return some d else findPrefix o ds
    else findPrefix o ds

/-- The outer loop, for the interface or `*`. -/
def findPd (o : Options) (arg : List U8) : List Iface → Checked (Option (List U8 × Delegated))
  | [] => return none
  | c :: cs =>
    if arg ≠ latin "*" ∧ arg ≠ c.name then findPd o arg cs
    else do
      match ← findPrefix o c.prefixes with
      | some d => return some (c.name, d)
      | none => findPd o arg cs

end Prefixes

/-- The variables behind the calculation of the address and the PSID. -/
structure Derived where
  ealen : Int
  psidlen : Int
  psid : Int
  psid16 : List U8
  ipv4addr : List U8
  addr4len : Int

section Derive

variable (sh : Shifts) (o : Options)

def derivePsid (pd : Option Delegated) (ealen psidlen psid : Int) : Checked Int := do
  match pd with
  | some d =>
    if psid < 0 ∧ psidlen ≤ 16 ∧ 0 ≤ psidlen ∧ psidlen ≤ ealen then do
      let psid16 ← bmemcpys64 (List.replicate 2 0) d.address.val
        (sizeT (asInt (asInt (o.prefix6len + ealen) - psidlen))) (sizeT psidlen)
      return (beWord 16 psid16).toNat
    else return psid
  | none => return psid

/-- `pd` is all zeros where none is found. -/
def pdAddress (pd : Option Delegated) : List U8 :=
  match pd with
  | some d => d.address.val
  | none => List.replicate 16 0

def deriveAddr (pd : Option Delegated) (ealen psidlen : Int) : Checked (List U8 × Int) := do
  if (pd.isSome ∨ ealen = psidlen) ∧ psidlen ≤ ealen then do
    let ipv4addr ← bmemcpys64 (List.replicate 4 0) (pdAddress pd) (sizeT o.prefix6len)
      (sizeT (asInt (ealen - psidlen)))
    let amount ← sh.amount o.prefix4len
    let ipv4addr := beBytes 4 (beWord 32 ipv4addr >>> amount)
    let ipv4addr ← bmemcpy ipv4addr o.ipv4prefix.val (sizeT o.prefix4len)
    return (ipv4addr, if asInt (o.prefix4len + ealen) < 32 then asInt (o.prefix4len + ealen) else 32)
  else return (List.replicate 4 0, 32)

def ealenOf (pd : Option Delegated) : Int :=
  match pd with
  | some d => if o.ealen < 0 then asInt (d.mask.val - o.prefix6len) else o.ealen
  | none => o.ealen

def psidlenOf (ealen : Int) : Int :=
  if o.psidlen ≤ 0 then asInt (ealen - asInt (32 - o.prefix4len)) else o.psidlen

def derive (pd : Option Delegated) : Checked Derived := do
  let ealen := ealenOf o pd
  let psidlen := psidlenOf o ealen
  let psid := if o.psidlen ≤ 0 then -1 else o.psid
  let psid ← derivePsid o pd ealen psidlen psid
  let amount ← sh.amount (asInt (16 - psidlen))
  let psid16 := beBytes 2 ((BitVec.ofInt 32 psid).sshiftRight amount |>.setWidth 16)
  let (ipv4addr, addr4len) ← deriveAddr sh o pd ealen psidlen
  return ⟨ealen, psidlen, psid, psid16, ipv4addr, addr4len⟩

end Derive

section Output

/-- What is printed for a rule, but for `dmr` and `br`. -/
structure Rule where
  options : Options
  offset : Int
  derived : Derived
  /-- The interface, the delegated prefix, and the IPv6 address. -/
  delegated : Option (List U8 × Delegated × List U8)
  portsets : Option (List PortRange)

def deriveAddr6 (legacy : Bool) (d : Delegated) (r : Derived) : Checked (List U8) := do
  let v4offset := if legacy then 9 else 10
  let ipv6addr ← store (List.replicate 16 0) v4offset r.ipv4addr
  let ipv6addr ← store ipv6addr (v4offset + 4) r.psid16
  bmemcpy ipv6addr d.address.val d.mask.val

def derivePortsets (sh : Shifts) (offset : Int) (r : Derived) : Checked (Option (List PortRange)) := do
  if 0 < r.psidlen ∧ 0 ≤ r.psid then do
    let _ ← sh.amount offset
    let ranges ← (rangeIndices offset.toNat).mapM fun k => do
      let _ ← sh.amount (16 - offset)
      let _ ← sh.amount (asInt (16 - offset - r.psidlen))
      return portRange offset.toNat r.psidlen.toNat r.psid.toNat k
    return some (ranges.filterMap id)
  else return none

/-- `offset` where the rule says nothing about it. -/
def offsetOf (legacy : Bool) (o : Options) : Int :=
  if o.offset < 0 then (if o.lw4o6 then 0 else if legacy then 4 else 6) else o.offset

/-- A turn of the loop over the rules; `none` is a rule that is skipped. -/
def calcRule (sh : Shifts) (legacy : Bool) (arg : List U8) (dump : List Iface) (o : Options) :
    Checked (Option Rule) := do
  let offset := offsetOf legacy o
  let found ← findPd o arg dump
  let r ← derive sh o (found.map (·.2))
  if o.prefix4len < 0 ∨ o.prefix6len < 0 ∨ r.ealen < 0 ∨ r.ealen < r.psidlen then return none
  else
    match found with
    | none =>
      if !o.fmr then return none
      else do
        let portsets ← derivePortsets sh offset r
        return some ⟨o, offset, r, none, portsets⟩
    | some (iface, d) => do
      let ipv6addr ← deriveAddr6 legacy d r
      let portsets ← derivePortsets sh offset r
      return some ⟨o, offset, r, some (iface, d, ipv6addr), portsets⟩

end Output

end OpenwrtMtk.Map
