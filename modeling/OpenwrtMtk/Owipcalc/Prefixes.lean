import Mathlib.Logic.Relation
import OpenwrtMtk.Owipcalc.Ops

/-!
# Prefixes on the stack

A number given as an argument becomes a prefix unchecked, and a prefix of 0 makes the IPv4 masks
shift by 32. As long as the operations that use these get prefixes that they can use, every
prefix on the stack is possible, and no shift and no access is out of range.
-/

namespace OpenwrtMtk.Owipcalc

open Toolkit
open Luci (latin)

set_option autoImplicit false

def Entry.Possible : Entry → Prop
  | .inet a => a.prefixLen ≤ 32
  | .inet6 a => a.prefixLen ≤ 128

def Globals.Sound (g : Globals) : Prop := ∀ e ∈ g.stack, e.Possible

def Needs1 : Entry → List U8 → Prop
  | .inet a, op => op ∈ [latin "network", latin "broadcast", latin "netmask"] → a.prefixLen ≠ 0
  | .inet6 _, _ => True

def Needs2 : Entry → Entry → List U8 → Prop
  | .inet a, .inet b, op =>
    (op = latin "contains" → a.prefixLen ≠ 0) ∧
      (op ∈ [latin "next", latin "prev"] → b.prefixLen ≠ 0) ∧
      (op ∈ [latin "next", latin "prev", latin "prefix"] → b.prefixLen ≤ 32) ∧
      (op = latin "howmany" → b.prefixLen.toNat ≤ a.prefixLen.toNat + 31)
  | .inet6 a, .inet6 b, op =>
    (op = latin "contains" → a.prefixLen ≠ 0) ∧
      (op ∈ [latin "next", latin "prev", latin "prefix"] → b.prefixLen ≤ 128) ∧
      (op = latin "howmany" → b.prefixLen.toNat ≤ a.prefixLen.toNat + 31)
  | _, _, _ => True

def Fits (libc : Inet) (m : Machine) : Prop :=
  ∀ op args a stack, m.args = op :: args → m.globals.stack = a :: stack →
    Needs1 a op ∧ ∀ arg2 ∈ args.head?, ∀ b, cidrParse libc arg2 a.family = .ok (some b) →
      Needs2 a b op

def Fine (r : Except Fault (Bool × Globals)) : Prop := ∃ res g, r = .ok (res, g) ∧ g.Sound

section Checked

variable {x : In6Addr} {i : Int}

theorem shiftOne_ok {amount : U32} (h : amount < 32) : shiftOne amount = .ok (1#32 <<< amount) :=
  if_pos h

theorem byteAt_ok (x : In6Addr) (h : 0 ≤ i ∧ i < 16) : ∃ b, byteAt x i = .ok b :=
  ⟨_, dif_pos h⟩

theorem setByte_ok (x : In6Addr) (b : U8) (h : 0 ≤ i ∧ i < 16) : ∃ x', setByte x i b = .ok x' :=
  ⟨_, dif_pos h⟩

section Carry

variable {op : Nat → U8 → Bool → Except Fault (Bool × U8)}
variable (hop : ∀ idx old carry, idx < 16 → ∃ r, op idx old carry = .ok r)
include hop

theorem carryByte_ok {idx : Nat} (h : idx < 16) (carry : Bool) (x : In6Addr) :
    ∃ r, carryByte op idx carry x = .ok r := by
  obtain ⟨old, hold⟩ := byteAt_ok (i := (idx : Int)) x (by omega)
  obtain ⟨r, hr⟩ := hop idx old carry h
  obtain ⟨x', hx'⟩ := setByte_ok (i := (idx : Int)) x r.2 (by omega)
  refine ⟨(r.1, x'), ?_⟩
  simp only [carryByte, hold, hr, hx', bind, Except.bind]
  rfl

theorem carryLoop_ok : ∀ (idx : Nat) (carry : Bool) (x : In6Addr), idx < 16 →
    ∃ r, carryLoop op idx carry x = .ok r := by
  intro idx
  induction idx with
  | zero => intro carry x h; exact carryByte_ok hop h carry x
  | succ idx ih =>
    intro carry x h
    obtain ⟨r, hr⟩ := carryByte_ok hop h carry x
    obtain ⟨r', hr'⟩ := ih r.1 r.2 (by omega)
    refine ⟨r', ?_⟩
    simp only [carryLoop, hr, bind, Except.bind]
    exact hr'

end Carry

theorem clearBytes_ok : ∀ (n i : Nat) (x : In6Addr), i + n ≤ 16 →
    ∃ x', clearBytes n i x = .ok x' := by
  intro n
  induction n with
  | zero => intro i x _; exact ⟨x, rfl⟩
  | succ n ih =>
    intro i x h
    obtain ⟨x₁, hx₁⟩ := setByte_ok (i := 15 - (i : Int)) x 0 (by omega)
    obtain ⟨x', hx'⟩ := ih (i + 1) x₁ (by omega)
    refine ⟨x', ?_⟩
    simp only [clearBytes, hx₁, bind, Except.bind]
    exact hx'

end Checked

section Stack

variable {g : Globals} {e : Entry} {res : Bool}

theorem Fine.ok (hg : g.Sound) : Fine (.ok (res, g)) := ⟨res, g, rfl, hg⟩

theorem Globals.Sound.push (hg : g.Sound) (he : e.Possible) : (g.push e).Sound :=
  List.forall_mem_cons.mpr ⟨he, hg⟩

theorem Fine.push (hg : g.Sound) (he : e.Possible) : Fine (.ok (res, g.push e)) :=
  Fine.ok (hg.push he)

@[simp] theorem qprintf_stack (g : Globals) (text : List U8) : (g.qprintf text).stack = g.stack := rfl

@[simp] theorem answer_stack (g : Globals) (text : List U8) : (g.answer text).stack = g.stack := by
  unfold Globals.answer
  split <;> rfl

theorem Globals.Sound.answer (hg : g.Sound) (text : List U8) : (g.answer text).Sound := by
  unfold Globals.Sound
  rw [answer_stack]
  exact hg

theorem Fine.answerBool (hg : g.Sound) (b : Bool) : Fine (.ok (g.answerBool b)) :=
  Fine.ok (hg.answer _)

theorem Globals.Sound.tail (hg : g.Sound) (e : Entry) (he : e.Possible) :
    ({ g with stack := e :: g.stack.tail } : Globals).Sound :=
  List.forall_mem_cons.mpr ⟨he, fun x hx => hg x (List.mem_of_mem_tail hx)⟩

end Stack

section Inet

variable {a b : Cidr U32} {g : Globals}

theorem sub_prefixLen {p : U32} (hp : p ≠ 0) (hle : p ≤ 32) : 32 - p < 32 := by
  have hne : p.toNat ≠ 0 := fun h => hp (BitVec.eq_of_toNat_eq h)
  bv_omega

theorem Fine.shift {amount : U32} {k : U32 → Except Fault (Bool × Globals)} (h : amount < 32)
    (hk : ∀ bit, Fine (k bit)) : Fine (shiftOne amount >>= k) := by
  rw [shiftOne_ok h]
  exact hk _

theorem cidrAdd4_fine (hg : g.Sound) (ha : (Entry.inet a).Possible) : Fine (cidrAdd4 a b g) := by
  unfold cidrAdd4
  dsimp only
  split
  · exact Fine.push hg ha
  · exact Fine.push hg ha

theorem cidrSub4_fine (hg : g.Sound) (ha : (Entry.inet a).Possible) : Fine (cidrSub4 a b g) := by
  unfold cidrSub4
  dsimp only
  split
  · exact Fine.push hg ha
  · exact Fine.push hg ha

theorem possible_32 (addr : U32) : (Entry.inet ⟨addr, 32⟩).Possible := BitVec.le_refl 32

theorem cidrNetwork4_fine (hg : g.Sound) (ha : (Entry.inet a).Possible) (hne : a.prefixLen ≠ 0) :
    Fine (cidrNetwork4 a g) :=
  Fine.shift (sub_prefixLen hne ha) fun _ => Fine.push hg (possible_32 _)

theorem cidrBroadcast4_fine (hg : g.Sound) (ha : (Entry.inet a).Possible) (hne : a.prefixLen ≠ 0) :
    Fine (cidrBroadcast4 a g) :=
  Fine.shift (sub_prefixLen hne ha) fun _ => Fine.push hg (possible_32 _)

theorem cidrNetmask4_fine (hg : g.Sound) (ha : (Entry.inet a).Possible) (hne : a.prefixLen ≠ 0) :
    Fine (cidrNetmask4 a g) :=
  Fine.shift (sub_prefixLen hne ha) fun _ => Fine.push hg (possible_32 _)

theorem cidrContains4_fine (hg : g.Sound) (ha : (Entry.inet a).Possible) (hne : a.prefixLen ≠ 0) :
    Fine (cidrContains4 a b g) :=
  Fine.shift (sub_prefixLen hne ha) fun _ => Fine.answerBool hg _

theorem cidrPrev4_fine (hg : g.Sound) (hb : (Entry.inet b).Possible) (hne : b.prefixLen ≠ 0) :
    Fine (cidrPrev4 a b g) :=
  Fine.shift (sub_prefixLen hne hb) fun _ => Fine.push hg hb

theorem cidrNext4_fine (hg : g.Sound) (hb : (Entry.inet b).Possible) (hne : b.prefixLen ≠ 0) :
    Fine (cidrNext4 a b g) :=
  Fine.shift (sub_prefixLen hne hb) fun _ => Fine.push hg hb

theorem cidr6to4_fine (hg : g.Sound) : Fine (cidr6to4 a g) :=
  Fine.push hg (by decide : (48 : U32) ≤ 128)

end Inet

section Both

variable {α : Type} {a b : Cidr α} {g : Globals}

theorem cidrPop_fine (hg : g.Sound) : Fine (cidrPop g) := by
  unfold cidrPop
  split
  · exact Fine.ok hg
  · rename_i e stack hstack
    apply Fine.ok
    intro x hx
    exact hg x (by rw [hstack]; exact List.mem_cons_of_mem e hx)

theorem cidrPrint_fine {ntop : α → List U8} {full : U32} (hg : g.Sound) :
    Fine (cidrPrint ntop full a g) := by
  unfold cidrPrint
  dsimp only
  have hprinted : (if a.prefixLen < full then
      (g.answer (ntop a.addr)).qprintf (latin "/" ++ Luci.digits a.prefixLen.toNat)
      else g.answer (ntop a.addr)).Sound := by
    split
    · exact hg.answer (ntop a.addr)
    · exact hg.answer (ntop a.addr)
  obtain ⟨res, g', hpop, hg'⟩ := cidrPop_fine hprinted
  rw [hpop]
  exact Fine.ok hg'

theorem cidrHowmany_fine (hg : g.Sound) (hle : b.prefixLen.toNat ≤ a.prefixLen.toNat + 31) :
    Fine (cidrHowmany a b g) := by
  unfold cidrHowmany
  split
  · exact Fine.ok (hg.answer _)
  · rename_i hlt
    exact Fine.shift (by bv_omega) fun _ => Fine.ok (hg.answer _)

theorem cidrPrefix_fine {mk : Cidr α → Entry} (hg : g.Sound)
    (hb : (mk { a with prefixLen := b.prefixLen }).Possible) : Fine (cidrPrefix mk a b g) :=
  Fine.ok (hg.tail _ hb)

end Both

section Inet6

variable {a b : Cidr In6Addr} {g : Globals}

theorem Fine.carry {op : Nat → U8 → Bool → Except Fault (Bool × U8)} {idx : Nat} {carry : Bool}
    {x : In6Addr} {k : Bool × In6Addr → Except Fault (Bool × Globals)}
    (hop : ∀ idx old carry, idx < 16 → ∃ r, op idx old carry = .ok r) (h : idx < 16)
    (hk : ∀ r, Fine (k r)) : Fine (carryLoop op idx carry x >>= k) := by
  obtain ⟨r, hr⟩ := carryLoop_ok hop idx carry x h
  rw [hr]
  exact hk r

theorem cidrAdd6_fine (hg : g.Sound) (ha : (Entry.inet6 a).Possible) : Fine (cidrAdd6 a b g) := by
  refine Fine.carry (fun idx old carry h => ?_) (by decide) fun r => ?_
  · obtain ⟨y, hy⟩ := byteAt_ok (i := (idx : Int)) b.addr (by omega)
    rw [hy]
    exact ⟨_, rfl⟩
  · exact Fine.push hg ha

theorem cidrSub6_fine (hg : g.Sound) (ha : (Entry.inet6 a).Possible) : Fine (cidrSub6 a b g) := by
  refine Fine.carry (fun idx old carry h => ?_) (by decide) fun r => ?_
  · obtain ⟨y, hy⟩ := byteAt_ok (i := (idx : Int)) b.addr (by omega)
    rw [hy]
    exact ⟨_, rfl⟩
  · exact Fine.push hg ha

theorem lastByte_lt {p : U32} (hp : p ≠ 0) (hle : p ≤ 128) : lastByte p < 16 := by
  have hne : p.toNat ≠ 0 := fun h => hp (BitVec.eq_of_toNat_eq h)
  have hdiv : ((p - 1) / 8).toNat = (p.toNat - 1) / 8 := by
    rw [BitVec.toNat_udiv]
    have hsub : (p - 1).toNat = p.toNat - 1 := by bv_omega
    rw [hsub]
    rfl
  have hbound : p.toNat ≤ 128 := hle
  rw [lastByte, hdiv]
  omega

theorem stepPrefix6_fine {op : U8 → Bool → Bool × U8} (hg : g.Sound)
    (ha : (Entry.inet6 a).Possible) (hb : (Entry.inet6 b).Possible) :
    Fine (stepPrefix6 a b op g) := by
  unfold stepPrefix6
  split
  · exact Fine.push hg ha
  · rename_i hne
    apply Fine.carry (fun _ _ _ _ => ⟨_, rfl⟩) (lastByte_lt hne hb)
    intro r
    dsimp only
    split
    · exact Fine.push hg ha
    · exact Fine.push hg hb

theorem hostBits {p : U32} (hle : p ≤ 128) : ((128 - p) / 8).toNat = (128 - p.toNat) / 8 ∧
    ((128 - p) % 8).toNat = (128 - p.toNat) % 8 := by
  have hsub : (128 - p).toNat = 128 - p.toNat := by bv_omega
  rw [BitVec.toNat_udiv, BitVec.toNat_umod, hsub]
  exact ⟨rfl, rfl⟩

theorem Fine.byte {x : In6Addr} {i : Int} {k : U8 → Except Fault (Bool × Globals)}
    (h : 0 ≤ i ∧ i < 16) (hk : ∀ b, Fine (k b)) : Fine (byteAt x i >>= k) := by
  obtain ⟨b, hb⟩ := byteAt_ok x h
  rw [hb]
  exact hk b

theorem Fine.setByte {x : In6Addr} {i : Int} {b : U8} {k : In6Addr → Except Fault (Bool × Globals)}
    (h : 0 ≤ i ∧ i < 16) (hk : ∀ x', Fine (k x')) : Fine (setByte x i b >>= k) := by
  obtain ⟨x', hx'⟩ := setByte_ok x b h
  rw [hx']
  exact hk x'

theorem cidrNetwork6_fine (hg : g.Sound) (ha : (Entry.inet6 a).Possible) :
    Fine (cidrNetwork6 a g) := by
  obtain ⟨hbytes, hbits⟩ := hostBits ha
  have hle : a.prefixLen.toNat ≤ 128 := ha
  obtain ⟨x, hx⟩ := clearBytes_ok ((128 - a.prefixLen) / 8).toNat 0 a.addr (by omega)
  unfold cidrNetwork6
  dsimp only
  rw [hx]
  change Fine (if (128 - a.prefixLen) % 8 = 0 then _ else _)
  split
  · exact Fine.push hg ha
  · rename_i hpart
    have hne : ((128 - a.prefixLen) % 8).toNat ≠ 0 := fun h => hpart (BitVec.eq_of_toNat_eq h)
    apply Fine.byte (by omega)
    intro old
    apply Fine.shift (by bv_omega)
    intro bit
    apply Fine.setByte (by omega)
    intro x'
    exact Fine.push hg ha

theorem cidrContains6_fine (hg : g.Sound) (ha : (Entry.inet6 a).Possible) (hne : a.prefixLen ≠ 0) :
    Fine (cidrContains6 a b g) := by
  obtain ⟨hbytes, hbits⟩ := hostBits ha
  have hle : a.prefixLen.toNat ≤ 128 := ha
  have hpos : a.prefixLen.toNat ≠ 0 := fun h => hne (BitVec.eq_of_toNat_eq h)
  unfold cidrContains6
  dsimp only
  apply Fine.shift (by bv_omega)
  intro bit
  apply Fine.byte (by omega)
  intro x
  apply Fine.byte (by omega)
  intro y
  exact Fine.answerBool (hg.push ha) _

theorem cidrLinklocal6_fine (hg : g.Sound) : Fine (cidrLinklocal6 a g) :=
  Fine.byte (by decide) fun _ => Fine.byte (by decide) fun _ => Fine.answerBool hg _

theorem cidrUla6_fine (hg : g.Sound) : Fine (cidrUla6 a g) :=
  Fine.byte (by decide) fun _ => Fine.answerBool hg _

end Inet6

structure OpFine (op : Op) : Prop where
  f4a1 : ∀ f ∈ op.f4a1, ∀ a g, g.Sound → (Entry.inet a).Possible →
    Needs1 (.inet a) (latin op.name) → Fine (f a g)
  f4a2 : ∀ f ∈ op.f4a2, ∀ a b g, g.Sound → (Entry.inet a).Possible →
    Needs2 (.inet a) (.inet b) (latin op.name) → Fine (f a b g)
  f6a1 : ∀ f ∈ op.f6a1, ∀ a g, g.Sound → (Entry.inet6 a).Possible → Fine (f a g)
  f6a2 : ∀ f ∈ op.f6a2, ∀ a b g, g.Sound → (Entry.inet6 a).Possible →
    Needs2 (.inet6 a) (.inet6 b) (latin op.name) → Fine (f a b g)

theorem ops_fine (libc : Inet) : ∀ op ∈ ops libc, OpFine op := by
  intro op hop
  simp only [ops, List.mem_cons, List.not_mem_nil, or_false] at hop
  rcases hop with rfl | rfl | rfl | rfl | rfl | rfl | rfl | rfl | rfl | rfl | rfl | rfl | rfl |
    rfl | rfl | rfl | rfl
  · exact ⟨nofun, fun f hf a b g hg ha _ => by cases hf; exact cidrAdd4_fine hg ha, nofun,
      fun f hf a b g hg ha _ => by cases hf; exact cidrAdd6_fine hg ha⟩
  · exact ⟨nofun, fun f hf a b g hg ha _ => by cases hf; exact cidrSub4_fine hg ha, nofun,
      fun f hf a b g hg ha _ => by cases hf; exact cidrSub6_fine hg ha⟩
  · exact ⟨nofun,
      fun f hf a b g hg _ hn => by cases hf; exact cidrNext4_fine hg (hn.2.2.1 (by decide)) (hn.2.1 (by decide)),
      nofun,
      fun f hf a b g hg ha hn => by cases hf; exact stepPrefix6_fine hg ha (hn.2.1 (by decide))⟩
  · exact ⟨nofun,
      fun f hf a b g hg _ hn => by cases hf; exact cidrPrev4_fine hg (hn.2.2.1 (by decide)) (hn.2.1 (by decide)),
      nofun,
      fun f hf a b g hg ha hn => by cases hf; exact stepPrefix6_fine hg ha (hn.2.1 (by decide))⟩
  · exact ⟨fun f hf a g hg ha hn => by cases hf; exact cidrNetwork4_fine hg ha (hn (by decide)),
      nofun, fun f hf a g hg ha => by cases hf; exact cidrNetwork6_fine hg ha, nofun⟩
  · exact ⟨fun f hf a g hg ha hn => by cases hf; exact cidrBroadcast4_fine hg ha (hn (by decide)),
      nofun, nofun, nofun⟩
  · exact ⟨nofun,
      fun f hf a b g hg _ hn => by cases hf; exact cidrPrefix_fine hg (hn.2.2.1 (by decide)),
      nofun, fun f hf a b g hg _ hn => by cases hf; exact cidrPrefix_fine hg (hn.2.1 (by decide))⟩
  · exact ⟨fun f hf a g hg ha hn => by cases hf; exact cidrNetmask4_fine hg ha (hn (by decide)),
      nofun, nofun, nofun⟩
  · exact ⟨fun f hf a g hg _ _ => by cases hf; exact cidr6to4_fine hg, nofun, nofun, nofun⟩
  · exact ⟨nofun, fun f hf a b g hg _ hn => by cases hf; exact cidrHowmany_fine hg (hn.2.2.2 rfl),
      nofun, fun f hf a b g hg _ hn => by cases hf; exact cidrHowmany_fine hg (hn.2.2 rfl)⟩
  · exact ⟨nofun,
      fun f hf a b g hg ha hn => by cases hf; exact cidrContains4_fine hg ha (hn.1 rfl), nofun,
      fun f hf a b g hg ha hn => by cases hf; exact cidrContains6_fine hg ha (hn.1 rfl)⟩
  · exact ⟨fun f hf a g hg _ _ => by cases hf; exact Fine.answerBool hg _, nofun, nofun, nofun⟩
  · exact ⟨fun f hf a g hg _ _ => by cases hf; exact Fine.answerBool hg _, nofun,
      fun f hf a g hg _ => by cases hf; exact cidrLinklocal6_fine hg, nofun⟩
  · exact ⟨nofun, nofun, fun f hf a g hg _ => by cases hf; exact cidrUla6_fine hg, nofun⟩
  · exact ⟨fun f hf a g hg _ _ => by cases hf; exact Fine.ok hg, nofun,
      fun f hf a g hg _ => by cases hf; exact Fine.ok hg, nofun⟩
  · exact ⟨fun f hf a g hg _ _ => by cases hf; exact cidrPop_fine hg, nofun,
      fun f hf a g hg _ => by cases hf; exact cidrPop_fine hg, nofun⟩
  · exact ⟨fun f hf a g hg _ _ => by cases hf; exact cidrPrint_fine hg, nofun,
      fun f hf a g hg _ => by cases hf; exact cidrPrint_fine hg, nofun⟩

/-- What a call of `runop` leaves, when it does not end the program. -/
def InRange : Outcome → Prop
  | .more m => m.globals.Sound
  | .stop m => m.globals.Sound
  | .exited _ => True
  | .fault f => f = .null

theorem called_inRange {args : List (List U8)} {r : Except Fault (Bool × Globals)} (h : Fine r) :
    InRange (called args r) := by
  obtain ⟨res, g, rfl, hg⟩ := h
  cases res <;> exact hg

theorem runop1_inRange {op : Op} {a : Entry} {m : Machine} {args : List (List U8)} (hop : OpFine op)
    (hm : m.globals.Sound) (ha : a.Possible) (hneeds : Needs1 a (latin op.name)) :
    InRange (runop1 op a m args) := by
  unfold runop1
  cases a with
  | inet a =>
    dsimp only
    cases hf : op.f4a1 with
    | none => exact hm
    | some f => exact called_inRange (hop.f4a1 f hf a _ hm ha hneeds)
  | inet6 a =>
    dsimp only
    cases hf : op.f6a1 with
    | none => exact hm
    | some f => exact called_inRange (hop.f6a1 f hf a _ hm ha)

theorem runop2_inRange {op : Op} {a b : Entry} {m : Machine} {args : List (List U8)}
    (hop : OpFine op) (hm : m.globals.Sound) (ha : a.Possible)
    (hneeds : Needs2 a b (latin op.name)) : InRange (runop2 op a b m args) := by
  unfold runop2
  split
  · split
    · exact hm
    · rename_i f hf
      exact called_inRange (hop.f4a2 f hf _ _ _ hm ha hneeds)
  · split
    · exact hm
    · rename_i f hf
      exact called_inRange (hop.f6a2 f hf _ _ _ hm ha hneeds)
  · trivial

theorem runop_inRange {libc : Inet} {m : Machine} (hm : m.globals.Sound) (hfits : Fits libc m) :
    InRange (runop libc m) := by
  unfold runop
  cases hargs : m.args with
  | nil => exact hm
  | cons arg1 args =>
    dsimp only
    cases hfind : (ops libc).find? fun op => latin op.name = arg1 with
    | none => exact hm
    | some op =>
      have hop := ops_fine libc op (List.mem_of_find?_eq_some hfind)
      obtain rfl : latin op.name = arg1 := by simpa using List.find?_some hfind
      dsimp only
      cases hstack : m.globals.stack with
      | nil =>
        split
        · cases args with
          | nil => exact hm
          | cons arg2 args => rfl
        · rfl
      | cons a stack =>
        have ha : a.Possible := hm a (by rw [hstack]; exact List.mem_cons_self)
        obtain ⟨hneeds, hneeds'⟩ := hfits (latin op.name) args a stack hargs hstack
        split
        · cases args with
          | nil => exact hm
          | cons arg2 args =>
            dsimp only
            cases hparse : cidrParse libc arg2 a.family with
            | error code => trivial
            | ok b =>
              cases b with
              | none => exact hm
              | some b => exact runop2_inRange hop hm ha (hneeds' arg2 rfl b hparse)
        · exact runop1_inRange hop hm ha hneeds

section Base

variable {libc : Inet} {s p : List U8}

theorem parseLength_le {max n : U32} (h : parseLength p max = some n) : n ≤ max := by
  unfold parseLength at h
  dsimp only at h
  split at h
  · cases h
  · rename_i hok
    obtain rfl := Option.some.inj h
    simp only [not_or, BitVec.not_lt] at hok
    exact hok.2.2

theorem maskBits_le : ∀ (turns : Nat) (mask : U32), maskBits turns mask ≤ turns := by
  intro turns
  induction turns with
  | zero => intro mask; exact Nat.le_refl 0
  | succ turns ih =>
    intro mask
    rw [maskBits]
    split
    · omega
    · have hbit : (mask &&& 1).toNat ≤ 1 := by
        rw [BitVec.toNat_and]
        exact Nat.and_le_right
      have hrest := ih (mask >>> 1)
      omega

theorem cidrParse4_possible {a : Cidr U32} (h : cidrParse4 libc s = some a) :
    (Entry.inet a).Possible := by
  unfold cidrParse4 at h
  split at h
  · cases h
  · split at h
    · obtain ⟨addr, -, rfl⟩ := Option.map_eq_some_iff.mp h
      exact possible_32 addr
    · simp only [Option.bind_eq_bind, Option.bind_eq_some_iff, Option.some.injEq] at h
      obtain ⟨n, hn, addr, -, rfl⟩ := h
      change n ≤ 32
      split at hn
      · obtain ⟨mask, -, rfl⟩ := Option.map_eq_some_iff.mp hn
        have hbits := maskBits_le 32 mask
        rw [BitVec.le_def, BitVec.toNat_ofNat]
        exact Nat.le_trans (Nat.mod_le _ _) hbits
      · exact parseLength_le hn

theorem cidrParse6_possible {a : Cidr In6Addr} (h : cidrParse6 libc s = some a) :
    (Entry.inet6 a).Possible := by
  unfold cidrParse6 at h
  split at h
  · cases h
  · split at h
    · obtain ⟨addr, -, rfl⟩ := Option.map_eq_some_iff.mp h
      exact BitVec.le_refl 128
    · simp only [Option.bind_eq_bind, Option.bind_eq_some_iff, Option.some.injEq] at h
      obtain ⟨n, hn, addr, -, rfl⟩ := h
      exact parseLength_le hn

theorem start_sound {args : List (List U8)} {m : Machine} (h : start libc s args = some m) :
    m.globals.Sound := by
  obtain ⟨a, ha, rfl⟩ := Option.map_eq_some_iff.mp h
  have hposs : a.Possible := by
    split at ha
    · obtain ⟨x, hx, rfl⟩ := Option.map_eq_some_iff.mp ha
      exact cidrParse6_possible hx
    · obtain ⟨x, hx, rfl⟩ := Option.map_eq_some_iff.mp ha
      exact cidrParse4_possible hx
  exact List.forall_mem_cons.mpr ⟨hposs, nofun⟩

end Base

/-- Any number of turns, each of which gets prefixes that it can use. -/
theorem prefixes_possible {libc : Inet} {base : List U8} {args : List (List U8)} {m₀ m : Machine}
    (hstart : start libc base args = some m₀)
    (hrun : Relation.ReflTransGen (fun s s' => Fits libc s ∧ Turn libc s s') m₀ m) :
    m.globals.Sound ∧ (Fits libc m → InRange (runop libc m)) := by
  have hsound : m.globals.Sound := by
    induction hrun with
    | refl => exact start_sound hstart
    | tail _ hturn ih =>
      have hrange := runop_inRange ih hturn.1
      rw [hturn.2] at hrange
      exact hrange
  exact ⟨hsound, runop_inRange hsound⟩

def sampleInet : Inet where
  pton4 s := if s = latin "10.0.0.1" then some (htonl 0x0a000001) else none
  pton6 _ := none
  ntop4 _ := latin "10.0.0.1"
  ntop6 _ := latin "::"

theorem prefixes_possible_network :
    ∃ m₀ m, start sampleInet (latin "10.0.0.1/24") [latin "network"] = some m₀ ∧
      runop sampleInet m₀ = .more m ∧ m.globals.Sound := by
  have hstart : start sampleInet (latin "10.0.0.1/24") [latin "network"] =
      some ⟨[latin "network"], ⟨[.inet ⟨htonl 0x0a000001, 24⟩], false, false, []⟩, 0⟩ := by
    decide +kernel
  have hturn : ∃ m, runop sampleInet
      ⟨[latin "network"], ⟨[.inet ⟨htonl 0x0a000001, 24⟩], false, false, []⟩, 0⟩ = .more m :=
    ⟨⟨[], ⟨[.inet ⟨htonl 0x0a000000, 32⟩, .inet ⟨htonl 0x0a000001, 24⟩], false, false, []⟩, 0⟩,
      by decide +kernel⟩
  obtain ⟨m, hturn⟩ := hturn
  refine ⟨_, m, hstart, hturn, ?_⟩
  refine (prefixes_possible hstart (.single ⟨?_, hturn⟩)).1
  intro op args a stack hargs hstack
  cases hargs
  cases hstack
  exact ⟨fun _ => by decide, nofun⟩

/-- A prefix of 64 for an IPv4 address. -/
theorem number_as_prefix :
    ¬ ∀ (libc : Inet) (base : List U8) (args : List (List U8)) (m₀ m : Machine),
      start libc base args = some m₀ → Relation.ReflTransGen (Turn libc) m₀ m →
      m.globals.Sound ∧ InRange (runop libc m) := by
  intro hclaim
  have hstart : start sampleInet (latin "10.0.0.1") [latin "prefix", latin "64"] =
      some ⟨[latin "prefix", latin "64"], ⟨[.inet ⟨htonl 0x0a000001, 32⟩], false, false, []⟩, 0⟩ := by
    decide +kernel
  have hturn : runop sampleInet
      ⟨[latin "prefix", latin "64"], ⟨[.inet ⟨htonl 0x0a000001, 32⟩], false, false, []⟩, 0⟩ =
      .more ⟨[], ⟨[.inet ⟨htonl 0x0a000001, 64⟩], false, false, []⟩, 0⟩ := by
    decide +kernel
  have hsound := (hclaim _ _ _ _ _ hstart (.single hturn)).1
  exact absurd (hsound _ List.mem_cons_self) (by unfold Entry.Possible; decide)

end OpenwrtMtk.Owipcalc
