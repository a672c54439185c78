import OpenwrtMtk.Luci.LuaNumber

/-!
# Addresses of luci.ip as text

The objects of `luci.ip.cidr`, what `IPv4` and `IPv6` make of a text without a netmask beside it, and
what `cidr.string` prints. Words are numbers of Lua: those that a dotted tail gives need not be
integers.
-/

namespace OpenwrtMtk.Luci.Ip

open Toolkit

set_option autoImplicit false

inductive Family where
  | inet4 | inet6
  deriving DecidableEq

/-- A `luci.ip.cidr` instance. -/
structure Cidr (ν : Type) where
  family : Family
  words : List ν
  prefixLen : ν
  deriving DecidableEq

variable (R : Reals)

/-- `address:match("/(.+)")` and `address:gsub("/.+", "")`. -/
def cutPrefix (address : List U8) : List U8 × Option (List U8) :=
  match splitFirst 0x2f address with
  | some (head, text) => if text = [] then (address, none) else (head, some text)
  | none => (address, none)

/-- `gsub("^%[(.*)%]$", "%1")`. -/
def unbracket : List U8 → List U8
  | [] => []
  | c :: r => if c = 0x5b ∧ r.getLast? = some 0x5d then r.dropLast else c :: r

def upperByte (c : U8) : U8 := if 0x61 ≤ c.toNat ∧ c.toNat ≤ 0x7a then c - 0x20 else c

/-- `gsub("^::FFFF:", "")`. -/
def dropMapped (s : List U8) : List U8 :=
  if latin "::FFFF:" <+: s then s.drop 7 else s

def readPrefix (text : Option (List U8)) (max : Rat) : Option Rat :=
  match text with
  | none => some max
  | some text => do
    let n ← tonumber R text
    if n < 0 ∨ max < n then none else some n

/-- `%d+`. -/
def isNumber (s : List U8) : Bool := s ≠ [] && s.all isdigit

/-- `match("^(%d+)%.(%d+)%.(%d+)%.(%d+)$")`. -/
def matchQuad (s : List U8) : Option (List U8 × List U8 × List U8 × List U8) := do
  let (b1, s) ← splitFirst 0x2e s
  let (b2, s) ← splitFirst 0x2e s
  let (b3, b4) ← splitFirst 0x2e s
  if isNumber b1 && isNumber b2 && isNumber b3 && isNumber b4 then some (b1, b2, b3, b4) else none

def readBlock (text : List U8) : Option Rat := do
  let block ← tonumber R text
  if block ≤ 255 then some block else none

def quadWords (b : List U8 × List U8 × List U8 × List U8) : Option (List Rat) := do
  let b1 ← readBlock R b.1
  let b2 ← readBlock R b.2.1
  let b3 ← readBlock R b.2.2.1
  let b4 ← readBlock R b.2.2.2
  some [b1 * 256 + b2, b3 * 256 + b4]

/-- `IPv4`. -/
def ipv4 (address : List U8) : Option (Cidr Rat) := do
  let (address, text) := cutPrefix address
  let address := dropMapped ((unbracket address).map upperByte)
  let prefixLen ← readPrefix R text 32
  let data ← quadWords R (← matchQuad address)
  some ⟨.inet4, data, prefixLen⟩

/-- A group, or the place of the zero groups, which is counted from 1. -/
def takeGroup (text : List U8) (data : List Rat) (zeroh : Option Nat) :
    Option (List Rat × Option Nat) :=
  match (tonumber16 text).filter (· ≤ 0xffff) with
  | some block => some (data ++ [(block : Rat)], zeroh)
  | none => if zeroh.isSome ∨ 1 < text.length then none else some (data, some (data.length + 1))

/-- The groups that end with a colon, and the text behind them. Each turn takes a colon. -/
def groups : Nat → List U8 → List Rat → Option Nat → Option (List U8 × List Rat × Option Nat)
  | 0, _, _, _ => none
  | turns + 1, address, data, zeroh =>
    match splitFirst 0x3a address with
    | none => some (address, data, zeroh)
    | some (text, rest) => do
      let (data, zeroh) ← takeGroup text data zeroh
      if data.length = 7 then some (rest, data, zeroh) else groups turns rest data zeroh

/-- The four numbers of a dotted tail. What follows a fourth dot is not looked at. -/
def cutQuad (chunk : List U8) : Option (List U8 × List U8 × List U8 × List U8) := do
  let (b1, s) ← splitFirst 0x2e chunk
  let (b2, s) ← splitFirst 0x2e s
  let (b3, s) ← splitFirst 0x2e s
  some (b1, b2, b3, ((splitFirst 0x2e s).map Prod.fst).getD s)

def lastChunk (chunk : List U8) (data : List Rat) : Option (List Rat) :=
  if chunk = [] then some data
  else if chunk.length ≤ 4 then
    ((tonumber16 chunk).filter (· ≤ 0xffff)).map fun (block : Nat) => data ++ [(block : Rat)]
  else if data.length = 7 ∨ 15 < chunk.length then none
  else do some (data ++ (← quadWords R (← cutQuad chunk)))

def fillZeros (data : List Rat) (zeroh : Option Nat) : Option (List Rat) :=
  match zeroh with
  | none => some data
  | some zeroh =>
    if data.length = 8 then none
    else some (data.take (zeroh - 1) ++ List.replicate (8 - data.length) 0 ++
      data.drop (zeroh - 1))

/-- `IPv6`. -/
def ipv6 (address : List U8) : Option (Cidr Rat) := do
  let (address, text) := cutPrefix address
  let address := unbracket address
  let prefixLen ← readPrefix R text 128
  if 45 < address.length then none
  else do
    let start := if address.head? = some 0x3a then address.tail else address
    let (chunk, data, zeroh) ← groups (address.length + 1) start [] none
    let data ← fillZeros (← lastChunk R chunk data) zeroh
    if data.length = 8 then some ⟨.inet6, data, prefixLen⟩ else none

/-- `%X`. -/
def upperHex (n : Nat) : List U8 := (Nat.toDigits 16 n).map fun c => upperByte (charByte c)

def joined (sep : U8) : List (List U8) → List U8
  | [] => []
  | [text] => text
  | text :: rest => text ++ sep :: joined sep rest

/-- The prefix length, which is printed unless it is the greatest one. -/
def prefixText (n max : Int) : List U8 := if n < max then 0x2f :: decimal n else []

/-- `cidr.string`. The words of an address are not negative. -/
def string (self : Cidr Int) : List U8 :=
  match self.family with
  | .inet4 =>
    joined 0x2e (self.words.flatMap fun w =>
      [digits (w.toNat >>> 8), digits (w.toNat &&& 0xff)]) ++ prefixText self.prefixLen 32
  | .inet6 =>
    joined 0x3a (self.words.map fun w => upperHex w.toNat) ++ prefixText self.prefixLen 128

end OpenwrtMtk.Luci.Ip

/-!
## Operations of luci.ip

The arithmetic of `luci.ip.cidr` on words of 16 bits. The operations of `nixio.bit` are those of
numbers that are not negative. An assertion that fails has no result.
-/

namespace OpenwrtMtk.Luci.Ip

open Toolkit

set_option autoImplicit false

def band (x y : Int) : Int := ((x.toNat &&& y.toNat : Nat) : Int)

def bor (x y : Int) : Int := ((x.toNat ||| y.toNat : Nat) : Int)

def lshift (x n : Int) : Int := ((x.toNat <<< n.toNat : Nat) : Int)

def rshift (x n : Int) : Int := ((x.toNat >>> n.toNat : Nat) : Int)

/-- `bit.bnot`, of 52 bits. -/
def bnot (x : Int) : Int := ((x.toNat ^^^ 0xfffffffffffff : Nat) : Int)

/-- `__mask16`. -/
def mask16 (bits : Int) : Int := lshift (rshift 0xffff (16 - bits % 16)) (16 - bits % 16)

/-- `__not16`. -/
def not16 (bits : Int) : Int := band (bnot (mask16 bits)) 0xffff

/-- `__maxlen`. -/
def maxlen : Family → Int
  | .inet4 => 32
  | .inet6 => 128

/-- `__sublen`. -/
def sublen : Family → Int
  | .inet4 => 30
  | .inet6 => 127

/-- The word at the boundary behind the whole words of a prefix, and zeros behind it. -/
def wholeWords (whole : List Int) (len : Nat) (boundary : Int) : List Int :=
  if whole.length < len then whole ++ boundary :: List.replicate (len - whole.length - 1) 0
  else whole

/-- `cidr.network` with a prefix length. -/
def networkOf (self : Cidr Int) (bits : Int) : Cidr Int :=
  let data := self.words.take (bits / 16).toNat
  ⟨self.family, wholeWords data self.words.length
    (band (self.words.getD data.length 0) (mask16 bits)), maxlen self.family⟩

/-- `cidr.network`. -/
def network (self : Cidr Int) : Cidr Int := networkOf self self.prefixLen

/-- `cidr.mask`. -/
def mask (self : Cidr Int) : Cidr Int :=
  ⟨self.family, wholeWords (List.replicate (self.prefixLen / 16).toNat 0xffff) self.words.length
    (mask16 self.prefixLen), maxlen self.family⟩

/-- The host bits of `data` set, as in `broadcast` and `maxhost`; none where the boundary is behind the
last word. -/
def setHost (data : List Int) (prefixLen : Int) : Option (List Int) :=
  let offset := (prefixLen / 16).toNat
  if offset < data.length then
    some (data.take offset ++ bor (data.getD offset 0) (not16 prefixLen) ::
      List.replicate (data.length - offset - 1) 0xffff)
  else none

/-- `cidr.broadcast`. -/
def broadcast (self : Cidr Int) : Option (Cidr Int) :=
  match self.family with
  | .inet4 => (setHost self.words self.prefixLen).map fun data => ⟨.inet4, data, maxlen .inet4⟩
  | .inet6 => none

/-- `cidr.equal`, with its assertion. -/
def equal (self addr : Cidr Int) : Option Bool :=
  if self.family = addr.family then
    some ((List.range self.words.length).all fun i => self.words[i]? == addr.words[i]?)
  else none

/-- `cidr.contains`. -/
def contains (self addr : Cidr Int) : Option Bool :=
  if self.family = addr.family then
    if self.prefixLen ≤ addr.prefixLen then
      equal (network self) (networkOf addr self.prefixLen)
    else some false
  else none

/-- The `while` loop of `cidr.prefix`; none where it does not end. -/
def countBits (word : Int) : Nat → Int → Int → Option Int
  | 0, _, _ => none
  | turns + 1, prefixLen, bitmask =>
    if band word bitmask = bitmask then
      countBits word turns (prefixLen + 1) (lshift 1 (15 - (prefixLen + 1) % 16))
    else some prefixLen

/-- The loop of `cidr.prefix` over the words of a netmask. -/
def prefixWords : List Int → Int → Option Int
  | [], prefixLen => some prefixLen
  | word :: rest, prefixLen =>
    if word = 0xffff then prefixWords rest (prefixLen + 16)
    else countBits word 17 prefixLen (lshift 1 15)

/-- `cidr.prefix` with a netmask that is an object. -/
def prefixOf (mask : Cidr Int) : Option Int := prefixWords mask.words 0

inductive Operand where
  | number (n : Nat)
  | text (s : List U8)
  | object (c : Cidr Int)
  | list (words : List Int)

variable (R : Reals)

def objectOf (s : List U8) : Option (Cidr Rat) := if 0x3a ∈ s then ipv6 R s else ipv4 R s

def integerOf (x : Rat) : Option Int := if x.den = 1 then some x.num else none

/-- `__array16`. -/
def array16 (x : Operand) (family : Family) : Option (List Int) :=
  match x with
  | .number n => some [rshift n 16, band n 0xffff]
  | .text s => do
    let c ← objectOf R s
    if c.family = family then c.words.mapM integerOf else none
  | .object c => if c.family = family then some c.words else none
  | .list words => some words

/-- The loop of `cidr.add`, from the last word on. The carry has been added to the next word. -/
def addWords : List Int → List Int → Int → Option (List Int)
  | [], _, _ => some []
  | d :: data, shorts, carry =>
    let pos := d + carry
    let add := shorts.headD 0
    if 0xffff < pos + add then
      let low := (pos + add) % 0xffff
      if data = [] then none else (addWords data shorts.tail (add - low)).map (low :: ·)
    else (addWords data shorts.tail 0).map ((pos + add) :: ·)

/-- The loop of `cidr.sub`, from the last word on. The borrow has been taken from the next word. -/
def subWords : List Int → List Int → Int → Option (List Int)
  | [], _, _ => some []
  | d :: data, shorts, borrow =>
    let pos := d - borrow
    let sub := shorts.headD 0
    if pos - sub < 0 then
      let low := (sub - pos) % 0xffff
      if data = [] then none else (subWords data shorts.tail (sub + low)).map (low :: ·)
    else (subWords data shorts.tail 0).map ((pos - sub) :: ·)

/-- The result of `add` or `sub`, which may be nil, and the object itself behind the call. -/
def stepBy (loop : List Int → List Int → Int → Option (List Int)) (self : Cidr Int)
    (shorts : List Int) (inplace : Bool) : Option (Cidr Int) × Cidr Int :=
  match loop self.words.reverse shorts.reverse 0 with
  | none => (none, self)
  | some data =>
    let result := { self with words := data.reverse }
    (some result, if inplace then result else self)

/-- `cidr.add`. -/
def add (self : Cidr Int) (amount : Operand) (inplace : Bool) :
    Option (Option (Cidr Int) × Cidr Int) := do
  some (stepBy addWords self (← array16 R amount self.family) inplace)

/-- `cidr.sub`. -/
def sub (self : Cidr Int) (amount : Operand) (inplace : Bool) :
    Option (Option (Cidr Int) × Cidr Int) := do
  some (stepBy subWords self (← array16 R amount self.family) inplace)

/-- `cidr.minhost`, which may be nil. -/
def minhost (self : Cidr Int) : Option (Option (Cidr Int)) :=
  if self.prefixLen ≤ sublen self.family then
    (add R (network self) (.number 1) true).map Prod.fst
  else some none

/-- `cidr.maxhost`, which may be nil. -/
def maxhost (self : Cidr Int) : Option (Option (Cidr Int)) :=
  if self.prefixLen ≤ sublen self.family then do
    let data : Cidr Int :=
      ⟨self.family, ← setHost self.words self.prefixLen, maxlen self.family⟩
    if data.family = .inet4 then (sub R data (.number 1) true).map fun r => some r.2
    else some (some data)
  else some none

end OpenwrtMtk.Luci.Ip
