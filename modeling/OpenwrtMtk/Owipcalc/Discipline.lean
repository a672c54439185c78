import OpenwrtMtk.Owipcalc.Sums

/-!
# What the operations leave on the stack

An operation clones the entry on top and pushes the clone before it knows whether it can be computed.
The IPv4 operations leave the clone as it is when they fail; those for IPv6 have changed it by then, and
`contains` pushes one that it does not need.
-/

namespace OpenwrtMtk.Owipcalc

open Toolkit
open Luci (latin)

set_option autoImplicit false

def answers : List (List U8) :=
  [latin "howmany", latin "contains", latin "private", latin "linklocal", latin "ula", latin "quiet"]

def Keeps (op : List U8) (g : Globals) (failed : Prop) (g' : Globals) : Prop :=
  (failed → g'.stack.head? = g.stack.head?) ∧ (op ∈ answers → g'.stack = g.stack)

/-- What a call of `runop` leaves. -/
def Disciplined (libc : Inet) (m : Machine) : Prop :=
  ∀ op args m', m.args = op :: args → (runop libc m = .more m' ∨ runop libc m = .stop m') →
    Keeps op m.globals (m'.status ≠ 0) m'.globals

/-- The result of an operation on IPv6 addresses is an address, and the operation is not `contains`,
but for the prefixes with which `next`, `prev` and `contains` leave the address. -/
structure Proper6 (op : List U8) (a b : Cidr In6Addr) : Prop where
  add : op = latin "add" → value6 a.addr + value6 b.addr < 2 ^ 128
  sub : op = latin "sub" → value6 b.addr ≤ value6 a.addr
  next : op = latin "next" → b.prefixLen ≠ 0 → lastByte b.prefixLen < 16 →
    front (lastByte b.prefixLen + 1) a.addr + 1 < 256 ^ (lastByte b.prefixLen + 1)
  prev : op = latin "prev" → b.prefixLen ≠ 0 → lastByte b.prefixLen < 16 →
    1 ≤ front (lastByte b.prefixLen + 1) a.addr
  contains : op = latin "contains" → 16 ≤ ((128 - a.prefixLen) / 8).toNat % 256

def Proper (libc : Inet) (m : Machine) : Prop :=
  ∀ op arg2 args a stack b, m.args = op :: arg2 :: args → m.globals.stack = .inet6 a :: stack →
    cidrParse libc arg2 .inet6 = .ok (some (.inet6 b)) → Proper6 op a b

def Leaves (op : List U8) (g : Globals) (r : Except Fault (Bool × Globals)) : Prop :=
  ∀ res g', r = .ok (res, g') → Keeps op g (res = false) g'

section Results

variable {op : List U8} {g g' : Globals} {res : Bool} {e n : Entry}

theorem leaves_error (f : Fault) : Leaves op g (.error f) := by
  intro res g' h
  cases h

theorem leaves_ok : Leaves op g (.ok (res, g')) ↔ Keeps op g (res = false) g' := by
  constructor
  · intro h
    exact h res g' rfl
  · intro h res' g'' heq
    cases heq
    exact h

theorem leaves_same (h : g'.stack = g.stack) : Leaves op g (.ok (res, g')) := by
  apply leaves_ok.mpr
  exact ⟨fun _ => congrArg List.head? h, fun _ => h⟩

theorem leaves_done (h : op ∉ answers) : Leaves op g (.ok (true, g')) := by
  apply leaves_ok.mpr
  exact ⟨fun hfalse => absurd hfalse Bool.true_eq_false_eq_False, fun hop => absurd hop h⟩

theorem leaves_clone (h : op ∉ answers) (htop : g.stack.head? = some e) :
    Leaves op g (.ok (res, g.push e)) := by
  apply leaves_ok.mpr
  exact ⟨fun _ => htop.symm, fun hop => absurd hop h⟩

theorem not_leaves_changed (htop : g.stack.head? = some e) (hne : n ≠ e) :
    ¬Leaves op g (.ok (false, g.push n)) := by
  intro h
  have hkept := (leaves_ok.mp h).1 rfl
  rw [htop] at hkept
  exact hne (Option.some.inj hkept)

theorem leaves_bind {α : Type} {x : Except Fault α} {k : α → Except Fault (Bool × Globals)}
    (h : ∀ v, Leaves op g (k v)) : Leaves op g (x >>= k) := by
  cases x with
  | error f => exact leaves_error f
  | ok v => exact h v

theorem leaves_answer (text : List U8) : Leaves op g (.ok (res, g.answer text)) :=
  leaves_same (answer_stack g text)

theorem leaves_answerBool (b : Bool) : Leaves op g (.ok (g.answerBool b)) := leaves_answer _

end Results

section Inet

variable {op : List U8} {a b : Cidr U32} {g : Globals}

theorem cidrAdd4_leaves (h : op ∉ answers) (htop : g.stack.head? = some (.inet a)) :
    Leaves op g (cidrAdd4 a b g) := by
  unfold cidrAdd4
  dsimp only
  split
  · exact leaves_clone h htop
  · exact leaves_done h

theorem cidrSub4_leaves (h : op ∉ answers) (htop : g.stack.head? = some (.inet a)) :
    Leaves op g (cidrSub4 a b g) := by
  unfold cidrSub4
  dsimp only
  split
  · exact leaves_clone h htop
  · exact leaves_done h

end Inet

section Both

variable {α : Type} {op : List U8} {a b : Cidr α} {g : Globals}

theorem cidrHowmany_leaves : Leaves op g (cidrHowmany a b g) := by
  unfold cidrHowmany
  split
  · exact leaves_answer _
  · apply leaves_bind
    intro bit
    exact leaves_answer _

theorem cidrPop_leaves (h : op ∉ answers) : Leaves op g (cidrPop g) := by
  unfold cidrPop
  split
  · exact leaves_same rfl
  · exact leaves_done h

theorem cidrPrint_leaves {ntop : α → List U8} {full : U32} (h : op ∉ answers) :
    Leaves op g (cidrPrint ntop full a g) := by
  unfold cidrPrint
  dsimp only
  generalize cidrPop _ = r
  cases r with
  | error f => exact leaves_error f
  | ok r => exact leaves_done h

end Both

section Inet6

variable {a b : Cidr In6Addr} {g : Globals} {x : In6Addr} {n idx : Nat}

theorem front_range (hn : n ≤ 16) (x : In6Addr) : 0 ≤ front n x ∧ front n x < 256 ^ n := by
  have hwords : InWords 8 ((bytes6 x).take n) := fun w hw => inWords_bytes6 x w (List.mem_of_mem_take hw)
  have hrange := wordsValue_range hwords
  rw [List.length_take, length_bytes6, Nat.min_eq_left hn, pow_mul] at hrange
  exact hrange

theorem cidrAdd6_leaves (htop : g.stack.head? = some (.inet6 a)) :
    Leaves (latin "add") g (cidrAdd6 a b g) ↔ value6 a.addr + value6 b.addr < 2 ^ 128 := by
  obtain ⟨out, x, hrun, hvalue⟩ := cidrAdd6_value a b g
  have hrange := value6_range x
  have hb := value6_range b.addr
  rw [hrun]
  cases out with
  | true =>
    rw [Bool.toNat_true] at hvalue
    refine iff_of_false (not_leaves_changed htop ?_) (by omega)
    intro heq
    have haddr : x = a.addr := congrArg Cidr.addr (Entry.inet6.inj heq)
    rw [haddr] at hvalue
    omega
  | false =>
    rw [Bool.toNat_false] at hvalue
    exact iff_of_true (leaves_done (by decide)) (by omega)

theorem cidrSub6_leaves (htop : g.stack.head? = some (.inet6 a)) :
    Leaves (latin "sub") g (cidrSub6 a b g) ↔ value6 b.addr ≤ value6 a.addr := by
  obtain ⟨out, x, hrun, hvalue⟩ := cidrSub6_value a b g
  have hrange := value6_range x
  have hb := value6_range b.addr
  rw [hrun]
  cases out with
  | true =>
    rw [Bool.toNat_true] at hvalue
    refine iff_of_false (not_leaves_changed htop ?_) (by omega)
    intro heq
    have haddr : x = a.addr := congrArg Cidr.addr (Entry.inet6.inj heq)
    rw [haddr] at hvalue
    omega
  | false =>
    rw [Bool.toNat_false] at hvalue
    exact iff_of_true (leaves_done (by decide)) (by omega)

theorem byteAt_out (x : In6Addr) (h : 16 ≤ idx) : byteAt x idx = .error (.index idx) :=
  dif_neg (by omega)

theorem carryLoop_out {op : Nat → U8 → Bool → Except Fault (Bool × U8)} (h : 16 ≤ idx) (carry : Bool)
    (x : In6Addr) : carryLoop op idx carry x = .error (.index idx) := by
  cases idx with
  | zero => exact absurd h (by decide)
  | succ idx =>
    rw [carryLoop, carryByte, byteAt_out x h]
    rfl

variable {op : U8 → Bool → Bool × U8} {name : List U8}

theorem stepPrefix6_leaves {s : Int} (hop : Carries s op) (hs : s = 1 ∨ s = -1)
    (hname : name ∉ answers) (htop : g.stack.head? = some (.inet6 a)) :
    Leaves name g (stepPrefix6 a b op g) ↔ (b.prefixLen ≠ 0 → lastByte b.prefixLen < 16 →
      0 ≤ front (lastByte b.prefixLen + 1) a.addr + s ∧
        front (lastByte b.prefixLen + 1) a.addr + s < 256 ^ (lastByte b.prefixLen + 1)) := by
  rw [stepPrefix6]
  by_cases hzero : b.prefixLen = 0
  · rw [if_pos hzero]
    exact iff_of_true (leaves_clone hname htop) (fun hne => absurd hzero hne)
  · rw [if_neg hzero]
    by_cases hlast : lastByte b.prefixLen < 16
    · obtain ⟨out, y, hloop, -, hvalue⟩ := carryLoop_value hop hlast true a.addr
      have hrange := front_range (n := lastByte b.prefixLen + 1) (by omega) y
      have hrange' := front_range (n := lastByte b.prefixLen + 1) (by omega) a.addr
      have hpow : (0 : Int) < 256 ^ (lastByte b.prefixLen + 1) := pow_pos (by decide) _
      rw [hloop]
      rw [Bool.toNat_true, Nat.cast_one, Int.mul_one] at hvalue
      cases out with
      | true =>
        rw [Bool.toNat_true, Nat.cast_one, Int.mul_one] at hvalue
        refine iff_of_false (not_leaves_changed htop ?_) ?_
        · intro heq
          have haddr : y = a.addr := congrArg Cidr.addr (Entry.inet6.inj heq)
          have hlarge : (1 : Int) < 256 ^ (lastByte b.prefixLen + 1) :=
            one_lt_pow₀ (by decide) (Nat.succ_ne_zero _)
          rw [haddr] at hvalue
          rcases hs with rfl | rfl
          · omega
          · omega
        · intro hfits
          have hin := hfits hzero hlast
          rcases hs with rfl | rfl
          · omega
          · omega
      | false =>
        rw [Bool.toNat_false, Nat.cast_zero, Int.mul_zero, Int.add_zero] at hvalue
        refine iff_of_true (leaves_done hname) (fun _ _ => ?_)
        rw [← hvalue]
        exact hrange
    · rw [carryLoop_out (Nat.le_of_not_lt hlast)]
      exact iff_of_true (leaves_error _) (fun _ hlt => absurd hlt hlast)

theorem cidrContains6_leaves :
    Leaves (latin "contains") g (cidrContains6 a b g) ↔
      16 ≤ ((128 - a.prefixLen) / 8).toNat % 256 := by
  have hshift : (128 - a.prefixLen) % 8 < 32 := by
    have hlt : ((128 - a.prefixLen) % 8).toNat < 8 := by
      rw [BitVec.toNat_umod]
      exact Nat.mod_lt _ (by decide)
    rw [BitVec.lt_def]
    exact Nat.lt_trans hlt (by decide)
  rw [cidrContains6, shiftOne_ok hshift]
  generalize ((128 - a.prefixLen) / 8).toNat % 256 = i
  change Leaves _ g (byteAt a.addr _ >>= _) ↔ _
  by_cases hi : i < 16
  · have hindex : (15 - (i : Int)) = ((15 - i : Nat) : Int) := by omega
    rw [hindex, byteAt_eq a.addr (by omega)]
    change Leaves _ g (byteAt b.addr _ >>= _) ↔ _
    rw [byteAt_eq b.addr (by omega)]
    refine iff_of_false ?_ (Nat.not_le_of_lt hi)
    intro h
    have hstack := (leaves_ok.mp h).2 (by decide)
    rw [answer_stack] at hstack
    exact List.cons_ne_self _ _ hstack
  · have hout : byteAt a.addr (15 - (i : Int)) = .error (.index (15 - i)) := dif_neg (by omega)
    rw [hout]
    exact iff_of_true (leaves_error _) (Nat.le_of_not_lt hi)

end Inet6

section Proper

variable {a b : Cidr In6Addr} {op : List U8}

theorem Proper6.other (h : op ∉ [latin "add", latin "sub", latin "next", latin "prev", latin "contains"]) :
    Proper6 op a b where
  add hop := absurd (by rw [hop]; decide) h
  sub hop := absurd (by rw [hop]; decide) h
  next hop := absurd (by rw [hop]; decide) h
  prev hop := absurd (by rw [hop]; decide) h
  contains hop := absurd (by rw [hop]; decide) h

theorem proper6_add :
    Proper6 (latin "add") a b ↔ value6 a.addr + value6 b.addr < 2 ^ 128 := by
  constructor
  · intro h
    exact h.add rfl
  · intro h
    exact ⟨fun _ => h, fun hop => absurd hop (by decide), fun hop => absurd hop (by decide),
      fun hop => absurd hop (by decide), fun hop => absurd hop (by decide)⟩

theorem proper6_sub : Proper6 (latin "sub") a b ↔ value6 b.addr ≤ value6 a.addr := by
  constructor
  · intro h
    exact h.sub rfl
  · intro h
    exact ⟨fun hop => absurd hop (by decide), fun _ => h, fun hop => absurd hop (by decide),
      fun hop => absurd hop (by decide), fun hop => absurd hop (by decide)⟩

theorem proper6_contains :
    Proper6 (latin "contains") a b ↔ 16 ≤ ((128 - a.prefixLen) / 8).toNat % 256 := by
  constructor
  · intro h
    exact h.contains rfl
  · intro h
    exact ⟨fun hop => absurd hop (by decide), fun hop => absurd hop (by decide),
      fun hop => absurd hop (by decide), fun hop => absurd hop (by decide), fun _ => h⟩

theorem cidrNext6_leaves {g : Globals} (htop : g.stack.head? = some (.inet6 a)) :
    Leaves (latin "next") g (cidrNext6 a b g) ↔ Proper6 (latin "next") a b := by
  rw [cidrNext6, stepPrefix6_leaves carries_next (Or.inl rfl) (by decide) htop]
  constructor
  · intro h
    exact ⟨fun hop => absurd hop (by decide), fun hop => absurd hop (by decide),
      fun _ hne hlt => (h hne hlt).2, fun hop => absurd hop (by decide),
      fun hop => absurd hop (by decide)⟩
  · intro h hne hlt
    have hrange := front_range (n := lastByte b.prefixLen + 1) (by omega) a.addr
    exact ⟨by omega, h.next rfl hne hlt⟩

theorem cidrPrev6_leaves {g : Globals} (htop : g.stack.head? = some (.inet6 a)) :
    Leaves (latin "prev") g (cidrPrev6 a b g) ↔ Proper6 (latin "prev") a b := by
  rw [cidrPrev6, stepPrefix6_leaves carries_prev (Or.inr rfl) (by decide) htop]
  constructor
  · intro h
    refine ⟨fun hop => absurd hop (by decide), fun hop => absurd hop (by decide),
      fun hop => absurd hop (by decide), ?_, fun hop => absurd hop (by decide)⟩
    intro _ hne hlt
    have hlow := (h hne hlt).1
    omega
  · intro h hne hlt
    have hrange := front_range (n := lastByte b.prefixLen + 1) (by omega) a.addr
    have hlow := h.prev rfl hne hlt
    exact ⟨by omega, by omega⟩

end Proper

structure OpLeaves (op : Op) : Prop where
  f4a1 : ∀ f ∈ op.f4a1, ∀ a g, g.stack.head? = some (.inet a) → Leaves (latin op.name) g (f a g)
  f4a2 : ∀ f ∈ op.f4a2, ∀ a b g, g.stack.head? = some (.inet a) → Leaves (latin op.name) g (f a b g)
  f6a1 : ∀ f ∈ op.f6a1, ∀ a g, g.stack.head? = some (.inet6 a) → Leaves (latin op.name) g (f a g)
  f6a2 : ∀ f ∈ op.f6a2, ∀ a b g, g.stack.head? = some (.inet6 a) →
    (Leaves (latin op.name) g (f a b g) ↔ Proper6 (latin op.name) a b)
  other : op.f6a2 = none → ∀ a b, Proper6 (latin op.name) a b

theorem leaves_mask {op : List U8} {g : Globals} {amount : U32} {k : U32 → Entry} (h : op ∉ answers) :
    Leaves op g (shiftOne amount >>= fun bit => .ok (true, g.push (k bit))) :=
  leaves_bind fun _ => leaves_done h

theorem cidrNetwork6_leaves {op : List U8} {a : Cidr In6Addr} {g : Globals} (h : op ∉ answers) :
    Leaves op g (cidrNetwork6 a g) := by
  unfold cidrNetwork6
  dsimp only
  apply leaves_bind
  intro x
  split
  · exact leaves_done h
  · apply leaves_bind
    intro old
    apply leaves_bind
    intro bit
    apply leaves_bind
    intro x'
    exact leaves_done h

theorem ops_leave (libc : Inet) : ∀ op ∈ ops libc, OpLeaves op := by
  intro op hop
  simp only [ops, List.mem_cons, List.not_mem_nil, or_false] at hop
  have hempty {β : Type} {P : β → Prop} : ∀ f ∈ (none : Option β), P f := by
    intro f hf
    cases hf
  have hsome {β : Type} {f : β} {P : Prop} (h : some f = none) : P := absurd h (Option.some_ne_none f)
  have hprint : latin "print" ∉ answers := by decide
  have hother : latin "print" ∉
      [latin "add", latin "sub", latin "next", latin "prev", latin "contains"] := by decide
  rcases hop with rfl | rfl | rfl | rfl | rfl | rfl | rfl | rfl | rfl | rfl | rfl | rfl | rfl |
    rfl | rfl | rfl | rfl
  · refine ⟨hempty, ?_, hempty, ?_, hsome⟩
    · rintro f ⟨⟩ a b g htop
      exact cidrAdd4_leaves (by decide) htop
    · rintro f ⟨⟩ a b g htop
      exact (cidrAdd6_leaves htop).trans proper6_add.symm
  · refine ⟨hempty, ?_, hempty, ?_, hsome⟩
    · rintro f ⟨⟩ a b g htop
      exact cidrSub4_leaves (by decide) htop
    · rintro f ⟨⟩ a b g htop
      exact (cidrSub6_leaves htop).trans proper6_sub.symm
  · refine ⟨hempty, ?_, hempty, ?_, hsome⟩
    · rintro f ⟨⟩ a b g htop
      exact leaves_mask (by decide)
    · rintro f ⟨⟩ a b g htop
      exact cidrNext6_leaves htop
  · refine ⟨hempty, ?_, hempty, ?_, hsome⟩
    · rintro f ⟨⟩ a b g htop
      exact leaves_mask (by decide)
    · rintro f ⟨⟩ a b g htop
      exact cidrPrev6_leaves htop
  · refine ⟨?_, hempty, ?_, hempty, fun _ a b => Proper6.other (by decide)⟩
    · rintro f ⟨⟩ a g htop
      exact leaves_mask (by decide)
    · rintro f ⟨⟩ a g htop
      exact cidrNetwork6_leaves (by decide)
  · refine ⟨?_, hempty, hempty, hempty, fun _ a b => Proper6.other (by decide)⟩
    rintro f ⟨⟩ a g htop
    exact leaves_mask (by decide)
  · refine ⟨hempty, ?_, hempty, ?_, hsome⟩
    · rintro f ⟨⟩ a b g htop
      exact leaves_done (by decide)
    · rintro f ⟨⟩ a b g htop
      exact iff_of_true (leaves_done (by decide)) (Proper6.other (by decide))
  · refine ⟨?_, hempty, hempty, hempty, fun _ a b => Proper6.other (by decide)⟩
    rintro f ⟨⟩ a g htop
    exact leaves_mask (by decide)
  · refine ⟨?_, hempty, hempty, hempty, fun _ a b => Proper6.other (by decide)⟩
    rintro f ⟨⟩ a g htop
    exact leaves_done (by decide)
  · refine ⟨hempty, ?_, hempty, ?_, hsome⟩
    · rintro f ⟨⟩ a b g htop
      exact cidrHowmany_leaves
    · rintro f ⟨⟩ a b g htop
      exact iff_of_true cidrHowmany_leaves (Proper6.other (by decide))
  · refine ⟨hempty, ?_, hempty, ?_, hsome⟩
    · rintro f ⟨⟩ a b g htop
      exact leaves_bind fun _ => leaves_answerBool _
    · rintro f ⟨⟩ a b g htop
      exact cidrContains6_leaves.trans proper6_contains.symm
  · refine ⟨?_, hempty, hempty, hempty, fun _ a b => Proper6.other (by decide)⟩
    rintro f ⟨⟩ a g htop
    exact leaves_answerBool _
  · refine ⟨?_, hempty, ?_, hempty, fun _ a b => Proper6.other (by decide)⟩
    · rintro f ⟨⟩ a g htop
      exact leaves_answerBool _
    · rintro f ⟨⟩ a g htop
      exact leaves_bind fun _ => leaves_bind fun _ => leaves_answerBool _
  · refine ⟨hempty, hempty, ?_, hempty, fun _ a b => Proper6.other (by decide)⟩
    rintro f ⟨⟩ a g htop
    exact leaves_bind fun _ => leaves_answerBool _
  · refine ⟨?_, hempty, ?_, hempty, fun _ a b => Proper6.other (by decide)⟩
    · rintro f ⟨⟩ a g htop
      exact leaves_same rfl
    · rintro f ⟨⟩ a g htop
      exact leaves_same rfl
  · refine ⟨?_, hempty, ?_, hempty, fun _ a b => Proper6.other (by decide)⟩
    · rintro f ⟨⟩ a g htop
      exact cidrPop_leaves (by decide)
    · rintro f ⟨⟩ a g htop
      exact cidrPop_leaves (by decide)
  · refine ⟨?_, hempty, ?_, hempty, fun _ a b => Proper6.other hother⟩
    · rintro f ⟨⟩ a g htop
      exact cidrPrint_leaves hprint
    · rintro f ⟨⟩ a g htop
      exact cidrPrint_leaves hprint

section Runop

variable {libc : Inet} {m : Machine} {op : List U8} {args : List (List U8)} {g : Globals}

/-- What is left where the program goes on or stops in `main`. -/
def LeavesOutcome (op : List U8) (g : Globals) (r : Outcome) : Prop :=
  ∀ m', (r = .more m' ∨ r = .stop m') → Keeps op g (m'.status ≠ 0) m'.globals

theorem keeps_same {failed : Prop} {g' : Globals} (h : g'.stack = g.stack) : Keeps op g failed g' :=
  ⟨fun _ => congrArg List.head? h, fun _ => h⟩

theorem leavesOutcome_stop {status : Nat} : LeavesOutcome op g (.stop ⟨args, g, status⟩) := by
  rintro m' (h | h)
  · cases h
  · cases h
    exact keeps_same rfl

theorem leavesOutcome_exited (code : Nat) : LeavesOutcome op g (.exited code) := by
  rintro m' (h | h)
  · cases h
  · cases h

theorem leavesOutcome_fault (f : Fault) : LeavesOutcome op g (.fault f) := by
  rintro m' (h | h)
  · cases h
  · cases h

theorem called_leaves (r : Except Fault (Bool × Globals)) :
    LeavesOutcome op g (called args r) ↔ Leaves op g r := by
  rcases r with f | ⟨res, g'⟩
  · exact iff_of_true (leavesOutcome_fault f) (leaves_error f)
  · rw [leaves_ok]
    cases res with
    | true =>
      constructor
      · intro h
        have hkeeps := h ⟨args, g', 0⟩ (Or.inl rfl)
        exact ⟨fun hfalse => absurd hfalse.symm Bool.false_ne_true, hkeeps.2⟩
      · rintro h m' (hm | hm)
        · cases hm
          exact ⟨fun hne => absurd rfl hne, h.2⟩
        · cases hm
    | false =>
      constructor
      · intro h
        have hkeeps := h ⟨args, g', 1⟩ (Or.inl rfl)
        exact ⟨fun _ => hkeeps.1 Nat.one_ne_zero, hkeeps.2⟩
      · rintro h m' (hm | hm)
        · cases hm
          exact ⟨fun _ => h.1 rfl, h.2⟩
        · cases hm

theorem runop1_leaves {row : Op} {a : Entry} (hrow : OpLeaves row) (htop : m.globals.stack.head? = some a) :
    LeavesOutcome (latin row.name) m.globals (runop1 row a m args) := by
  cases a with
  | inet a =>
    rw [runop1]
    cases hf : row.f4a1 with
    | none => exact leavesOutcome_stop
    | some f => exact (called_leaves _).mpr (hrow.f4a1 f hf a _ htop)
  | inet6 a =>
    rw [runop1]
    cases hf : row.f6a1 with
    | none => exact leavesOutcome_stop
    | some f => exact (called_leaves _).mpr (hrow.f6a1 f hf a _ htop)

theorem runop2_leaves {row : Op} {a b : Entry} (hrow : OpLeaves row)
    (htop : m.globals.stack.head? = some a) :
    LeavesOutcome (latin row.name) m.globals (runop2 row a b m args) ↔
      ∀ a' b', a = .inet6 a' → b = .inet6 b' → Proper6 (latin row.name) a' b' := by
  cases a with
  | inet a =>
    have hvacuous : ∀ a' b', Entry.inet a = .inet6 a' → b = .inet6 b' →
        Proper6 (latin row.name) a' b' := by
      intro a' b' h
      cases h
    cases b with
    | inet b =>
      rw [runop2]
      cases hf : row.f4a2 with
      | none => exact iff_of_true leavesOutcome_stop hvacuous
      | some f => exact iff_of_true ((called_leaves _).mpr (hrow.f4a2 f hf a b _ htop)) hvacuous
    | inet6 b => exact iff_of_true (leavesOutcome_exited 4) hvacuous
  | inet6 a =>
    cases b with
    | inet b =>
      refine iff_of_true (leavesOutcome_exited 4) ?_
      intro a' b' _ h
      cases h
    | inet6 b =>
      have hproper : (∀ a' b', Entry.inet6 a = .inet6 a' → Entry.inet6 b = .inet6 b' →
          Proper6 (latin row.name) a' b') ↔ Proper6 (latin row.name) a b := by
        constructor
        · intro h
          exact h a b rfl rfl
        · rintro h a' b' ⟨⟩ ⟨⟩
          exact h
      rw [hproper, runop2]
      cases hf : row.f6a2 with
      | none => exact iff_of_true leavesOutcome_stop (hrow.other hf a b)
      | some f => exact (called_leaves _).trans (hrow.f6a2 f hf a b _ htop)

theorem proper6_unknown (hfind : ((ops libc).find? fun row => latin row.name = op) = none)
    (a b : Cidr In6Addr) : Proper6 op a b := by
  have hnot : ∀ row ∈ ops libc, latin row.name ≠ op := by
    intro row hrow heq
    have hno := List.find?_eq_none.mp hfind row hrow
    exact hno (decide_eq_true heq)
  constructor
  · intro hop
    exact absurd hop.symm (hnot { name := "add", f4a2 := some cidrAdd4, f6a2 := some cidrAdd6 } (by simp [ops]))
  · intro hop
    exact absurd hop.symm (hnot { name := "sub", f4a2 := some cidrSub4, f6a2 := some cidrSub6 } (by simp [ops]))
  · intro hop
    exact absurd hop.symm (hnot { name := "next", f4a2 := some cidrNext4, f6a2 := some cidrNext6 } (by simp [ops]))
  · intro hop
    exact absurd hop.symm (hnot { name := "prev", f4a2 := some cidrPrev4, f6a2 := some cidrPrev6 } (by simp [ops]))
  · intro hop
    exact absurd hop.symm (hnot { name := "contains", f4a2 := some cidrContains4, f6a2 := some cidrContains6 } (by simp [ops]))

theorem runop_leaves (hargs : m.args = op :: args) :
    LeavesOutcome op m.globals (runop libc m) ↔ ∀ arg2 args' a stack b, args = arg2 :: args' →
      m.globals.stack = .inet6 a :: stack →
      cidrParse libc arg2 .inet6 = .ok (some (.inet6 b)) → Proper6 op a b := by
  unfold runop
  rw [hargs]
  dsimp only
  cases hfind : (ops libc).find? fun row => latin row.name = op with
  | none => exact iff_of_true leavesOutcome_stop fun _ _ a _ b _ _ _ => proper6_unknown hfind a b
  | some row =>
    have hrow := ops_leave libc row (List.mem_of_find?_eq_some hfind)
    obtain rfl : latin row.name = op := by simpa using List.find?_some hfind
    dsimp only
    by_cases htwo : row.f4a2.isSome ∨ row.f6a2.isSome
    · rw [if_pos htwo]
      cases args with
      | nil =>
        refine iff_of_true leavesOutcome_stop ?_
        intro arg2 args' a stack b h
        cases h
      | cons arg2 args =>
        cases hstack : m.globals.stack with
        | nil =>
          refine iff_of_true (leavesOutcome_fault _) ?_
          intro arg2 args' a stack b _ h
          cases h
        | cons a stack =>
          have htop : m.globals.stack.head? = some a := congrArg List.head? hstack
          dsimp only
          cases hparse : cidrParse libc arg2 a.family with
          | error code =>
            refine iff_of_true (leavesOutcome_exited code) ?_
            rintro _ _ a' _ b ⟨⟩ ⟨⟩ h
            cases hparse.symm.trans h
          | ok found =>
            cases found with
            | none =>
              refine iff_of_true leavesOutcome_stop ?_
              rintro _ _ a' _ b ⟨⟩ ⟨⟩ h
              cases hparse.symm.trans h
            | some b =>
              refine (runop2_leaves hrow htop).trans ?_
              constructor
              · rintro h _ _ a' _ b' ⟨⟩ ⟨⟩ hb
                cases hparse.symm.trans hb
                exact h a' b' rfl rfl
              · rintro h a' b' rfl rfl
                exact h arg2 args a' stack b' rfl rfl hparse
    · rw [if_neg htwo]
      have hnone : row.f6a2 = none := by
        cases hf : row.f6a2 with
        | none => rfl
        | some f => exact absurd (Or.inr (by rw [hf]; rfl)) htwo
      have hproper : ∀ a b, Proper6 (latin row.name) a b := hrow.other hnone
      cases hstack : m.globals.stack with
      | nil => exact iff_of_true (leavesOutcome_fault _) fun _ _ a _ b _ _ _ => hproper a b
      | cons a stack =>
        have htop : m.globals.stack.head? = some a := congrArg List.head? hstack
        exact iff_of_true (runop1_leaves hrow htop) fun _ _ a _ b _ _ _ => hproper a b

/-- A failure keeps the entry on top and an answer the stack, unless it is one of `contains`, or of `add`,
`sub`, `next` and `prev` without a result, on IPv6 addresses. -/
theorem disciplined_iff (libc : Inet) (m : Machine) : Disciplined libc m ↔ Proper libc m := by
  constructor
  · intro h op arg2 args a stack b hargs hstack hparse
    have hleaves := (@runop_leaves libc m op _ hargs).mp fun m' hm' => h op _ m' hargs hm'
    exact hleaves arg2 args a stack b rfl hstack hparse
  · intro h op args m' hargs hm'
    refine (runop_leaves hargs).mpr ?_ m' hm'
    rintro arg2 args' a stack b rfl hstack hparse
    exact h op arg2 args' a stack b hargs hstack hparse

/-- `contains`, which leaves its clone behind. -/
theorem contains_leaves_clone : ¬ ∀ (libc : Inet) (m : Machine), Disciplined libc m := by
  intro hclaim
  have hturn : runop sampleInet ⟨[latin "contains", latin "128"],
      ⟨[.inet6 ⟨Vector.replicate 16 0, 128⟩], false, false, []⟩, 0⟩ =
      .more ⟨[], ⟨[.inet6 ⟨Vector.replicate 16 0, 128⟩, .inet6 ⟨Vector.replicate 16 0, 128⟩],
        false, true, latin "0"⟩, 1⟩ := by
    decide +kernel
  have hkeeps := hclaim sampleInet _ _ _ _ rfl (Or.inl hturn)
  exact absurd (hkeeps.2 (by decide)) (List.cons_ne_self _ _)

end Runop

end OpenwrtMtk.Owipcalc
