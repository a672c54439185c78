import OpenwrtMtk.Lib.Field

/-!
# Reading and writing a frame field by field

A reader goes through a buffer of which the first `limit` bytes are the frame. It gives a value and
the next offset, or refuses the frame, or would touch memory that is not its own and has no result.
A writer appends to what has been written, or fails. `Yields` and `Emits` say of a reader and a
writer that they read and write given bytes; both compose, so that a record is read back field by
field.
-/

namespace Toolkit

set_option autoImplicit false

universe u

inductive Outcome (α : Type) where
  | fault
  | refused
  | read (value : α) (next : Nat)
  deriving DecidableEq

def Reader (α : Type) := List U8 → Nat → Nat → Outcome α

namespace Reader

variable {α β : Type}

protected def pure (a : α) : Reader α := fun _ _ off => .read a off

protected def bind (r : Reader α) (k : α → Reader β) : Reader β := fun buf limit off =>
  match r buf limit off with
  | .fault => .fault
  | .refused => .refused
  | .read a next => k a buf limit next

instance : Monad Reader where
  pure := Reader.pure
  bind := Reader.bind

/-- `n` more bytes of the frame, or the frame is refused. -/
def room (n : Nat) : Reader Unit := fun _ limit off =>
  if off + n > limit then .refused else .read () off

def refuse : Reader α := fun _ _ _ => .refused

/-- Refuse the frame unless `p`. -/
def check (p : Prop) [Decidable p] : Reader Unit := if p then pure () else refuse

/-- No result unless `p`. -/
def demand (p : Prop) [Decidable p] : Reader Unit := fun _ _ off =>
  if p then .read () off else .fault

/-- The next `n` bytes, whether they are of the frame or not. -/
def copy (n : Nat) : Reader (List U8) := fun buf _ off => .read (slice buf off n) (off + n)

def peek : Reader U8 := fun buf _ off => .read (byteAt buf off) off

def offset : Reader Nat := fun _ _ off => .read off off

end Reader

def wordBytes (w : U16) : List U8 := [(w >>> 8).setWidth 8, w.setWidth 8]

def wordOf (hi lo : U8) : U16 := hi ++ lo

@[simp] theorem length_wordBytes (w : U16) : (wordBytes w).length = 2 := rfl

theorem wordOf_wordBytes (w : U16) : wordOf ((w >>> 8).setWidth 8) (w.setWidth 8) = w := by
  apply BitVec.eq_of_toNat_eq
  unfold wordOf
  rw [BitVec.toNat_append, BitVec.toNat_setWidth, BitVec.toNat_setWidth, BitVec.toNat_ushiftRight,
    Nat.shiftLeft_eq, Nat.mul_comm, ← Nat.two_pow_add_eq_or_of_lt (Nat.mod_lt _ (by decide)),
    Nat.shiftRight_eq_div_pow]
  have hlt := w.isLt
  omega

section Yields

variable {α β : Type} {r : Reader α} {k : α → Reader β} {off : Nat} {bs cs : List U8} {a : α}
  {b : β}

/-- At `off`, `r` reads the bytes `bs` of a frame as `a`. -/
def Yields (r : Reader α) (off : Nat) (bs : List U8) (a : α) : Prop :=
  ∀ front back limit, front.length = off → off + bs.length ≤ limit →
    r (front ++ (bs ++ back)) limit off = .read a (off + bs.length)

theorem Yields.pure (a : α) : Yields (pure a) off [] a := by
  intro front back limit _ _
  rfl

theorem Yields.bind (hr : Yields r off bs a) (hk : Yields (k a) (off + bs.length) cs b) :
    Yields (r >>= k) off (bs ++ cs) b := by
  intro front back limit hfront hlimit
  rw [List.length_append] at hlimit ⊢
  have hfirst := hr front (cs ++ back) limit hfront (by omega)
  have hsecond := hk (front ++ bs) back limit (by rw [List.length_append, hfront]) (by omega)
  rw [List.append_assoc] at hsecond
  change Reader.bind r k _ _ _ = _
  rw [Reader.bind, List.append_assoc, hfirst]
  simp only
  rw [hsecond, Nat.add_assoc]

theorem Yields.step (hr : Yields r off [] a) (hk : Yields (k a) off bs b) :
    Yields (r >>= k) off bs b := by
  have hboth : Yields (r >>= k) off ([] ++ bs) b := hr.bind hk
  exact hboth

theorem Yields.followed (hr : Yields r off bs a) (hk : Yields (k a) (off + bs.length) [] b) :
    Yields (r >>= k) off bs b := by
  have hboth := hr.bind hk
  rw [List.append_nil] at hboth
  exact hboth

theorem Yields.last {f : α → β} (hr : Yields r off bs a) :
    Yields (r >>= fun x => Pure.pure (f x)) off bs (f a) := hr.followed (.pure _)

theorem Yields.check {p : Prop} [Decidable p] (h : p) : Yields (Reader.check p) off [] () := by
  unfold Reader.check
  rw [if_pos h]
  exact .pure ()

theorem Yields.demand {p : Prop} [Decidable p] (h : p) : Yields (Reader.demand p) off [] () := by
  intro front back limit _ _
  unfold Reader.demand
  rw [if_pos h]
  rfl

theorem Yields.offset : Yields Reader.offset off [] off := by
  intro front back limit _ _
  rfl

theorem Yields.copy (bs : List U8) : Yields (Reader.copy bs.length) off bs bs := by
  rintro front back limit rfl _
  unfold Reader.copy slice
  rw [List.drop_left, List.take_left]

theorem Yields.room {n : Nat} {k : Unit → Reader β} (hn : n ≤ bs.length)
    (hk : Yields (k ()) off bs b) : Yields (Reader.room n >>= k) off bs b := by
  intro front back limit hfront hlimit
  change Reader.bind (Reader.room n) k _ _ _ = _
  rw [Reader.bind, Reader.room, if_neg (by omega)]
  simp only
  exact hk front back limit hfront hlimit

theorem Yields.peek {x : U8} {k : U8 → Reader β} (hk : Yields (k x) off (x :: bs) b) :
    Yields (Reader.peek >>= k) off (x :: bs) b := by
  rintro front back limit rfl hlimit
  have hx : byteAt (front ++ (x :: bs ++ back)) front.length = x := by
    unfold byteAt
    rw [List.getD_eq_getElem?_getD, List.getElem?_append_right (Nat.le_refl _), Nat.sub_self]
    rfl
  change Reader.bind Reader.peek k _ _ _ = _
  rw [Reader.bind, Reader.peek]
  simp only
  rw [hx]
  exact hk front back limit rfl hlimit

end Yields

/-- A writer gets what has been written and appends to it, or fails. -/
abbrev Writer (α : Type) := StateT (List U8) Option α

namespace Writer

/-- Append bytes to a buffer of `cap` bytes. -/
def put (cap : Nat) (bs : List U8) : Writer Unit := fun out =>
  if out.length + bs.length > cap then none else some ((), out ++ bs)

end Writer

section Emits

variable {α : Type} {m : Writer Unit} {k : Unit → Writer α} {cap n : Nat} {out bs cs : List U8}
  {a : α}

/-- `w` writes `bs` behind anything that leaves `cap` bytes enough, and gives `a`. -/
def Emits (cap : Nat) (w : Writer α) (bs : List U8) (a : α) : Prop :=
  ∀ out : List U8, out.length + bs.length ≤ cap → w.run out = some (a, out ++ bs)

theorem Emits.put (h : cap ≤ n) : Emits cap (Writer.put n bs) bs () := by
  intro out hfits
  change Writer.put n bs out = _
  unfold Writer.put
  rw [if_neg (by omega)]

theorem Emits.pure (a : α) : Emits cap (pure a : Writer α) [] a := by
  intro out _
  rw [List.append_nil]
  rfl

theorem Emits.run_bind (hm : Emits cap m bs ()) (hfits : out.length + bs.length ≤ cap) :
    (m >>= k).run out = (k ()).run (out ++ bs) := by
  rw [StateT.run_bind, hm out hfits]
  rfl

theorem Emits.bind (hm : Emits cap m bs ()) (hk : Emits cap (k ()) cs a) :
    Emits cap (m >>= k) (bs ++ cs) a := by
  intro out hfits
  rw [List.length_append] at hfits
  rw [hm.run_bind (by omega), ← List.append_assoc]
  exact hk (out ++ bs) (by rw [List.length_append]; omega)

theorem Emits.guarded {p : Nat → Prop} [DecidablePred p] {w : Writer α}
    (hp : ∀ n, n + bs.length ≤ cap → ¬p n) (hw : Emits cap w bs a) :
    Emits cap (do
      if p (← get).length then failure
      w) bs a := by
  intro out hfits
  have hnot := hp out.length hfits
  change (if p out.length then failure >>= fun _ : Unit => w else w : Writer α).run out = _
  rw [if_neg hnot]
  exact hw out hfits

end Emits

end Toolkit
