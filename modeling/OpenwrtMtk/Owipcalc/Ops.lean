import OpenwrtMtk.Luci.Characters

/-!
# Addresses of owipcalc

An address with a prefix, and how one is read from the command line. `s_addr` is kept as it
stands in memory, on a little-endian host. `inet_pton` and `inet_ntop` are parameters.
-/

namespace OpenwrtMtk.Owipcalc

open Toolkit
open Luci (latin isspace hexValue)

set_option autoImplicit false

/-- `s6_addr`. -/
abbrev In6Addr := Vector U8 16

inductive Family where
  | inet | inet6
  deriving DecidableEq

/-- `struct cidr` of one family. -/
structure Cidr (α : Type) where
  addr : α
  prefixLen : U32
  deriving DecidableEq

inductive Entry where
  | inet (a : Cidr U32)
  | inet6 (a : Cidr In6Addr)
  deriving DecidableEq

def Entry.family : Entry → Family
  | .inet _ => .inet
  | .inet6 _ => .inet6

/-- The conversions of `arpa/inet.h`. -/
structure Inet where
  pton4 : List U8 → Option U32
  pton6 : List U8 → Option In6Addr
  ntop4 : U32 → List U8
  ntop6 : In6Addr → List U8

/-- On a little-endian host; its own inverse. -/
def htonl (x : U32) : U32 :=
  (x <<< 24) ||| ((x &&& 0xff00) <<< 8) ||| ((x >>> 8) &&& 0xff00) ||| (x >>> 24)

def ntohl (x : U32) : U32 := htonl x

def isDigit (base : Nat) (c : U8) : Bool := (hexValue c).any (· < base)

/-- The base that `strtoul` takes for a base of 0, and the text behind its sign. -/
def detectBase (s : List U8) : Nat × List U8 :=
  match s with
  | zero :: x :: c :: rest =>
    if zero = 0x30 ∧ (x = 0x78 ∨ x = 0x58) ∧ isDigit 16 c then (16, c :: rest)
    else if zero = 0x30 then (8, s) else (10, s)
  | zero :: _ => if zero = 0x30 then (8, s) else (10, s)
  | [] => (10, [])

/-- `strtoul` of a 32 bit target for a base of 0 or 10, and what it stops at. -/
def strtoul (s : List U8) (base : Nat) : U32 × List U8 :=
  let t := s.dropWhile isspace
  let negative := t.head? = some 0x2d
  let t := if t.head? = some 0x2d ∨ t.head? = some 0x2b then t.tail else t
  let (base, t) := if base = 0 then detectBase t else (base, t)
  let digits := t.takeWhile (isDigit base)
  if digits = [] then (0, s)
  else
    let value := digits.foldl (fun n c => n * base + (hexValue c).getD 0) 0
    let result : U32 :=
      if 2 ^ 32 ≤ value then 0xffffffff
      else if negative then -BitVec.ofNat 32 value else BitVec.ofNat 32 value
    (result, t.dropWhile (isDigit base))

/-- `for (..; mask.s_addr; mask.s_addr >>= 1)`, which ends within 32 turns. -/
def maskBits : Nat → U32 → Nat
  | 0, _ => 0
  | turns + 1, mask => if mask = 0 then 0 else (mask &&& 1).toNat + maskBits turns (mask >>> 1)

/-- A decimal number up to `max` and nothing behind it. -/
def parseLength (p : List U8) (max : U32) : Option U32 :=
  let (n, r) := strtoul p 10
  if r = p ∨ r ≠ [] ∨ max < n then none else some n

def slash : U8 := 0x2f

def cidrParse4 (libc : Inet) (s : List U8) : Option (Cidr U32) :=
  if 33 ≤ s.length then none
  else
    match splitFirst slash s with
    | none => (libc.pton4 s).map fun addr => ⟨addr, 32⟩
    | some (head, p) => do
      let prefixLen ← (if 0x2e ∈ p then
          (libc.pton4 p).map fun mask => BitVec.ofNat 32 (maskBits 32 mask)
        else parseLength p 32)
      let addr ← (if head = [] then some 0 else libc.pton4 head)
      some ⟨addr, prefixLen⟩

def cidrParse6 (libc : Inet) (s : List U8) : Option (Cidr In6Addr) :=
  if 51 ≤ s.length then none
  else
    match splitFirst slash s with
    | none => (libc.pton6 s).map fun addr => ⟨addr, 128⟩
    | some (head, p) => do
      let prefixLen ← parseLength p 128
      let addr ← (if head = [] then some (Vector.replicate 16 0) else libc.pton6 head)
      some ⟨addr, prefixLen⟩

def numberAddr (sum : U32) : In6Addr :=
  Vector.ofFn fun i => if 12 ≤ i.val then (sum >>> (8 * (15 - i.val))).setWidth 8 else 0

def colon : U8 := 0x3a

/-- `cidr_parse`. The error is the code that it exits with for an address of the other family. -/
def cidrParse (libc : Inet) (s : List U8) (hint : Family) : Except Nat (Option Entry) :=
  let (sum, r) := strtoul s 0
  if r.length < s.length ∧ r = [] then
    .ok (some (match hint with
      | .inet => .inet ⟨htonl sum, sum⟩
      | .inet6 => .inet6 ⟨numberAddr sum, sum⟩))
  else
    match (if colon ∈ s then (cidrParse6 libc s).map .inet6 else (cidrParse4 libc s).map .inet) with
    | none => .ok none
    | some a => if a.family = hint then .ok (some a) else .error 4

example : strtoul (latin "0x1f") 0 = (31, []) := by decide

example : strtoul (latin " -1z") 10 = (0xffffffff, latin "z") := by decide

end OpenwrtMtk.Owipcalc

/-!
## The operations of owipcalc

Each works on the entry on top of the stack. A shift by more than 31, an access outside of
`s6_addr` and an empty stack are faults. Messages to stderr are left out.
-/

namespace OpenwrtMtk.Owipcalc

open Toolkit
open Luci (latin digits)

set_option autoImplicit false

inductive Fault where
  | shift (amount : U32)
  | index (at6 : Int)
  | null
  deriving DecidableEq

/-- The global variables, and what was printed. -/
structure Globals where
  stack : List Entry
  quiet : Bool
  printed : Bool
  out : List U8
  deriving DecidableEq

abbrev Act := Globals → Except Fault (Bool × Globals)

/-- `cidr_push` of a clone, as it is in the end. -/
def Globals.push (c : Globals) (n : Entry) : Globals := { c with stack := n :: c.stack }

/-- `qprintf`. -/
def Globals.qprintf (c : Globals) (text : List U8) : Globals :=
  { c with out := if c.quiet then c.out else c.out ++ text, printed := true }

def Globals.answer (c : Globals) (text : List U8) : Globals :=
  (if c.printed then c.qprintf (latin " ") else c).qprintf text

def Globals.answerBool (c : Globals) (b : Bool) : Bool × Globals :=
  (b, c.answer (if b then latin "1" else latin "0"))

/-- `1 << amount`. -/
def shiftOne (amount : U32) : Except Fault U32 :=
  if amount < 32 then .ok (1#32 <<< amount) else .error (.shift amount)

def byteAt (x : In6Addr) (i : Int) : Except Fault U8 :=
  if h : 0 ≤ i ∧ i < 16 then .ok (x.get ⟨i.toNat, by omega⟩) else .error (.index i)

def setByte (x : In6Addr) (i : Int) (b : U8) : Except Fault In6Addr :=
  if h : 0 ≤ i ∧ i < 16 then .ok (x.set i.toNat b (by omega)) else .error (.index i)

section Inet

variable (a b : Cidr U32)

def cidrAdd4 : Act := fun c =>
  let x := ntohl a.addr
  let y := ntohl b.addr
  if x + y < x then .ok (false, c.push (.inet a))
  else .ok (true, c.push (.inet { a with addr := htonl (x + y) }))

def cidrSub4 : Act := fun c =>
  let x := ntohl a.addr
  let y := ntohl b.addr
  if x < x - y then .ok (false, c.push (.inet a))
  else .ok (true, c.push (.inet { a with addr := htonl (x - y) }))

def cidrNetwork4 : Act := fun c => do
  let bit ← shiftOne (32 - a.prefixLen)
  return (true, c.push (.inet ⟨a.addr &&& htonl (~~~(bit - 1)), 32⟩))

def cidrBroadcast4 : Act := fun c => do
  let bit ← shiftOne (32 - a.prefixLen)
  return (true, c.push (.inet ⟨a.addr ||| htonl (bit - 1), 32⟩))

def cidrContains4 : Act := fun c => do
  let bit ← shiftOne (32 - a.prefixLen)
  let net1 := a.addr &&& htonl (~~~(bit - 1))
  let net2 := b.addr &&& htonl (~~~(bit - 1))
  return c.answerBool (decide (a.prefixLen ≤ b.prefixLen) && decide (net1 = net2))

def cidrNetmask4 : Act := fun c => do
  let bit ← shiftOne (32 - a.prefixLen)
  return (true, c.push (.inet ⟨htonl (~~~(bit - 1)), 32⟩))

def cidrPrivate4 : Act := fun c =>
  let x := ntohl a.addr
  .ok (c.answerBool (decide (0x0A000000 ≤ x ∧ x ≤ 0x0AFFFFFF) ||
    decide (0xAC100000 ≤ x ∧ x ≤ 0xAC1FFFFF) || decide (0xC0A80000 ≤ x ∧ x ≤ 0xC0A8FFFF)))

def cidrLinklocal4 : Act := fun c =>
  let x := ntohl a.addr
  .ok (c.answerBool (decide (0xA9FE0000 ≤ x ∧ x ≤ 0xA9FEFFFF)))

/-- The difference is taken in network byte order. -/
def cidrPrev4 : Act := fun c => do
  let bit ← shiftOne (32 - b.prefixLen)
  return (true, c.push (.inet ⟨a.addr - htonl bit, b.prefixLen⟩))

def cidrNext4 : Act := fun c => do
  let bit ← shiftOne (32 - b.prefixLen)
  return (true, c.push (.inet ⟨a.addr + htonl bit, b.prefixLen⟩))

/-- The bytes come from `s_addr` without a conversion. -/
def cidr6to4 : Act := fun c =>
  let x := a.addr
  .ok (true, c.push (.inet6 ⟨#v[0x20, 0x02, (x >>> 24).setWidth 8, (x >>> 16).setWidth 8,
    (x >>> 8).setWidth 8, x.setWidth 8, 0, 0, 0, 0, 0, 0, 0, 0, 0, 0], 48⟩))

end Inet

/-- `cidr_pop`. -/
def cidrPop : Act := fun c =>
  match c.stack with
  | [] => .ok (false, c)
  | _ :: stack => .ok (true, { c with stack := stack })

/-- An address, its prefix when it is shorter than `full`, and a pop. -/
def cidrPrint {α : Type} (ntop : α → List U8) (full : U32) (a : Cidr α) : Act := fun c =>
  let c := c.answer (ntop a.addr)
  let c := if a.prefixLen < full then c.qprintf (latin "/" ++ digits a.prefixLen.toNat) else c
  (cidrPop c).map fun r => (true, r.2)

def cidrPrint4 (libc : Inet) : Cidr U32 → Act := cidrPrint libc.ntop4 32

def cidrPrint6 (libc : Inet) : Cidr In6Addr → Act := cidrPrint libc.ntop6 128

/-- One byte is replaced; the result is the carry out of it and the address. -/
def carryByte (op : Nat → U8 → Bool → Except Fault (Bool × U8)) (idx : Nat) (carry : Bool)
    (x : In6Addr) : Except Fault (Bool × In6Addr) := do
  let old ← byteAt x idx
  let (carry, new) ← op idx old carry
  let x ← setByte x idx new
  return (carry, x)

/-- `do .. while (idx-- > 0)`. -/
def carryLoop (op : Nat → U8 → Bool → Except Fault (Bool × U8)) :
    Nat → Bool → In6Addr → Except Fault (Bool × In6Addr)
  | 0, carry, x => carryByte op 0 carry x
  | idx + 1, carry, x => do
    let (carry, x) ← carryByte op (idx + 1) carry x
    carryLoop op idx carry x

section Inet6

variable (a b : Cidr In6Addr)

/-- What is pushed is changed also where the result does not fit. -/
def cidrAdd6 : Act := fun c => do
  let (carry, x) ← carryLoop (fun idx old carry => do
    let y ← byteAt b.addr idx
    return (decide (256 ≤ old.toNat + y.toNat + carry.toNat), old + (y + BitVec.ofNat 8 carry.toNat)))
    15 false a.addr
  return (!carry, c.push (.inet6 { a with addr := x }))

def cidrSub6 : Act := fun c => do
  let (carry, x) ← carryLoop (fun idx old carry => do
    let y ← byteAt b.addr idx
    return (decide (old.toNat < y.toNat + carry.toNat), old - (y + BitVec.ofNat 8 carry.toNat)))
    15 false a.addr
  return (!carry, c.push (.inet6 { a with addr := x }))

/-- The byte with the last bit of the prefix, an `uint8_t`. -/
def lastByte (prefixLen : U32) : Nat := ((prefixLen - 1) / 8).toNat % 256

/-- One step of the size of `b`'s prefix, by `op`. -/
def stepPrefix6 (op : U8 → Bool → Bool × U8) : Act := fun c => do
  if b.prefixLen = 0 then return (false, c.push (.inet6 a))
  else
    let (carry, x) ← carryLoop (fun _ old carry => .ok (op old carry)) (lastByte b.prefixLen) true
      a.addr
    if carry then return (false, c.push (.inet6 { a with addr := x }))
    else return (true, c.push (.inet6 ⟨x, b.prefixLen⟩))

def cidrPrev6 : Act :=
  stepPrefix6 a b fun old carry =>
    (decide (old.toNat < carry.toNat), old - BitVec.ofNat 8 carry.toNat)

def cidrNext6 : Act :=
  stepPrefix6 a b fun old carry =>
    (decide (256 ≤ old.toNat + carry.toNat), old + BitVec.ofNat 8 carry.toNat)

/-- The last bytes set to zero, so many from the `i`-th on. -/
def clearBytes : Nat → Nat → In6Addr → Except Fault In6Addr
  | 0, _, x => .ok x
  | n + 1, i, x => do
    let x ← setByte x (15 - i) 0
    clearBytes n (i + 1) x

def cidrNetwork6 : Act := fun c => do
  let n := ((128 - a.prefixLen) / 8).toNat
  let x ← clearBytes n 0 a.addr
  if (128 - a.prefixLen) % 8 = 0 then return (true, c.push (.inet6 { a with addr := x }))
  else
    let i := n % 256
    let old ← byteAt x (15 - i)
    let bit ← shiftOne ((128 - a.prefixLen) % 8)
    let x ← setByte x (15 - i) (old &&& (~~~(bit - 1)).setWidth 8)
    return (true, c.push (.inet6 { a with addr := x }))

/-- It leaves its clone on the stack. -/
def cidrContains6 : Act := fun c => do
  let i := ((128 - a.prefixLen) / 8).toNat % 256
  let bit ← shiftOne ((128 - a.prefixLen) % 8)
  let m : U8 := (~~~(bit - 1)).setWidth 8
  let x ← byteAt a.addr (15 - i)
  let y ← byteAt b.addr (15 - i)
  let c := c.push (.inet6 a)
  return c.answerBool (decide (a.prefixLen ≤ b.prefixLen) && decide (x &&& m = y &&& m) &&
    (decide (i = 15) || decide (a.addr.toList.take (15 - i) = b.addr.toList.take (15 - i))))

def cidrLinklocal6 : Act := fun c => do
  let first ← byteAt a.addr 0
  let second ← byteAt a.addr 1
  return c.answerBool (decide (first = 0xFE) && decide (0x80 ≤ second) && decide (second ≤ 0xBF))

def cidrUla6 : Act := fun c => do
  let first ← byteAt a.addr 0
  return c.answerBool (decide (0xFC ≤ first) && decide (first ≤ 0xFD))

end Inet6

section Both

variable {α : Type}

def cidrHowmany (a b : Cidr α) : Act := fun c => do
  if b.prefixLen < a.prefixLen then return (true, c.answer (latin "0"))
  else
    let bit ← shiftOne (b.prefixLen - a.prefixLen)
    return (true, c.answer (digits bit.toNat))

/-- `cidr_prefix`: the entry on top is changed in place. -/
def cidrPrefix (mk : Cidr α → Entry) (a b : Cidr α) : Act := fun c =>
  .ok (true, { c with stack := mk { a with prefixLen := b.prefixLen } :: c.stack.tail })

def cidrQuiet : Act := fun c => .ok (true, { c with quiet := true })

end Both

/-- `struct op`. -/
structure Op where
  name : String
  f4a1 : Option (Cidr U32 → Act) := none
  f4a2 : Option (Cidr U32 → Cidr U32 → Act) := none
  f6a1 : Option (Cidr In6Addr → Act) := none
  f6a2 : Option (Cidr In6Addr → Cidr In6Addr → Act) := none

def ops (libc : Inet) : List Op :=
  [{ name := "add", f4a2 := some cidrAdd4, f6a2 := some cidrAdd6 },
   { name := "sub", f4a2 := some cidrSub4, f6a2 := some cidrSub6 },
   { name := "next", f4a2 := some cidrNext4, f6a2 := some cidrNext6 },
   { name := "prev", f4a2 := some cidrPrev4, f6a2 := some cidrPrev6 },
   { name := "network", f4a1 := some cidrNetwork4, f6a1 := some cidrNetwork6 },
   { name := "broadcast", f4a1 := some cidrBroadcast4 },
   { name := "prefix", f4a2 := some (cidrPrefix .inet), f6a2 := some (cidrPrefix .inet6) },
   { name := "netmask", f4a1 := some cidrNetmask4 },
   { name := "6to4", f4a1 := some cidr6to4 },
   { name := "howmany", f4a2 := some cidrHowmany, f6a2 := some cidrHowmany },
   { name := "contains", f4a2 := some cidrContains4, f6a2 := some cidrContains6 },
   { name := "private", f4a1 := some cidrPrivate4 },
   { name := "linklocal", f4a1 := some cidrLinklocal4, f6a1 := some cidrLinklocal6 },
   { name := "ula", f6a1 := some cidrUla6 },
   { name := "quiet", f4a1 := some fun _ => cidrQuiet, f6a1 := some fun _ => cidrQuiet },
   { name := "pop", f4a1 := some fun _ => cidrPop, f6a1 := some fun _ => cidrPop },
   { name := "print", f4a1 := some (cidrPrint4 libc), f6a1 := some (cidrPrint6 libc) }]

/-- The arguments that are left, the global variables, and the status. -/
structure Machine where
  args : List (List U8)
  globals : Globals
  status : Nat
  deriving DecidableEq

/-- What `runop` returns, with what it leaves; or how the program ends in it. -/
inductive Outcome where
  | more (m : Machine)
  | stop (m : Machine)
  | exited (code : Nat)
  | fault (f : Fault)
  deriving DecidableEq

def called (args : List (List U8)) : Except Fault (Bool × Globals) → Outcome
  | .error f => .fault f
  | .ok (true, c) => .more ⟨args, c, 0⟩
  | .ok (false, c) => .more ⟨args, c, 1⟩

def runop1 (op : Op) (a : Entry) (m : Machine) (args : List (List U8)) : Outcome :=
  match a with
  | .inet a =>
    match op.f4a1 with
    | none => .stop ⟨args, m.globals, 5⟩
    | some f => called args (f a m.globals)
  | .inet6 a =>
    match op.f6a1 with
    | none => .stop ⟨args, m.globals, 5⟩
    | some f => called args (f a m.globals)

def runop2 (op : Op) (a b : Entry) (m : Machine) (args : List (List U8)) : Outcome :=
  match a, b with
  | .inet a, .inet b =>
    match op.f4a2 with
    | none => .stop ⟨args, m.globals, 5⟩
    | some f => called args (f a b m.globals)
  | .inet6 a, .inet6 b =>
    match op.f6a2 with
    | none => .stop ⟨args, m.globals, 5⟩
    | some f => called args (f a b m.globals)
  | _, _ => .exited 4

def runop (libc : Inet) (m : Machine) : Outcome :=
  match m.args with
  | [] => .stop m
  | arg1 :: args =>
    match (ops libc).find? fun op => latin op.name = arg1 with
    | none => .stop m
    | some op =>
      if op.f4a2.isSome ∨ op.f6a2.isSome then
        match args with
        | [] => .stop { m with status := 2 }
        | arg2 :: args =>
          match m.globals.stack with
          | [] => .fault .null
          | a :: _ =>
            match cidrParse libc arg2 a.family with
            | .error code => .exited code
            | .ok none => .stop { m with status := 3 }
            | .ok (some b) => runop2 op a b m args
      else
        match m.globals.stack with
        | [] => .fault .null
        | a :: _ => runop1 op a m args

/-- What `main` starts with; `none` where the base address is none. -/
def start (libc : Inet) (base : List U8) (args : List (List U8)) : Option Machine :=
  (if colon ∈ base then (cidrParse6 libc base).map .inet6 else (cidrParse4 libc base).map .inet).map
    fun a => ⟨args, ⟨[a], false, false, []⟩, 0⟩

/-- A call of `runop` in the loop of `main`. -/
def Turn (libc : Inet) (m m' : Machine) : Prop := runop libc m = .more m'

end OpenwrtMtk.Owipcalc
