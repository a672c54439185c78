import OpenwrtMtk.Lib.Bytes

/-!
# Fixed-width fields

`Bytes n` is a string of exactly `n` bytes. `field` reads one out of a buffer at a fixed offset,
as a C program does that lays a packed struct over a receive buffer; `byteAt` reads one byte. A
buffer is what the sender concatenated, so a read is resolved by walking over the parts in front.
-/

namespace Toolkit

set_option autoImplicit false

/-- A byte string of length `n`. -/
abbrev Bytes (n : Nat) := {bs : List U8 // bs.length = n}

instance decidableMemBytes {n : Nat} (x : Bytes n) (xs : List (Bytes n)) : Decidable (x ∈ xs) :=
  List.instDecidableMemOfLawfulBEq x xs

variable {m n off : Nat} {xs ys : List U8}

/-- The first `n` bytes, filled up with zeros. -/
def padded (n : Nat) (xs : List U8) : Bytes n :=
  ⟨(xs ++ List.replicate n 0).take n, by simp⟩

/-- `n` bytes at `off`; what is behind the buffer reads as zero. -/
def field (xs : List U8) (off n : Nat) : Bytes n := padded n (xs.drop off)

def byteAt (xs : List U8) (off : Nat) : U8 := xs.getD off 0

def Bytes.zero (n : Nat) : Bytes n := padded n []

@[simp] theorem Bytes.length_val (v : Bytes n) : v.val.length = n := v.property

theorem padded_of_le (h : n ≤ xs.length) : (padded n xs).val = xs.take n := by
  unfold padded
  exact List.take_append_of_le_length h

@[simp] theorem padded_append (v : Bytes n) (ys : List U8) : padded n (v.val ++ ys) = v := by
  apply Subtype.ext
  rw [padded_of_le (by simp), List.take_left' v.property]

@[simp] theorem padded_self (v : Bytes n) : padded n v.val = v := by
  simpa using padded_append v []

theorem field_val (h : off + n ≤ xs.length) : (field xs off n).val = slice xs off n := by
  unfold field slice
  exact padded_of_le (by rw [List.length_drop]; omega)

@[simp] theorem field_zero_append (v : Bytes n) (ys : List U8) : field (v.val ++ ys) 0 n = v := by
  simp [field]

@[simp] theorem field_zero_self (v : Bytes n) : field v.val 0 n = v := by simp [field]

@[simp] theorem field_cons (x : U8) (xs : List U8) (off n : Nat) :
    field (x :: xs) (off + 1) n = field xs off n := rfl

theorem field_append_right (ys : List U8) (n : Nat) (h : xs.length ≤ off) :
    field (xs ++ ys) off n = field ys (off - xs.length) n := by
  rw [field, field, List.drop_append, List.drop_eq_nil_of_le h, List.nil_append]

theorem field_append_left (ys : List U8) (h : off + n ≤ xs.length) :
    field (xs ++ ys) off n = field xs off n := by
  apply Subtype.ext
  rw [field_val (by rw [List.length_append]; omega), field_val h, slice, slice,
    List.drop_append_of_le_length (by omega), List.take_append_of_le_length]
  rw [List.length_drop]
  omega

theorem byteAt_append_left (ys : List U8) (h : off < xs.length) :
    byteAt (xs ++ ys) off = byteAt xs off := by
  simp only [byteAt, List.getD_eq_getElem?_getD]
  rw [List.getElem?_append_left h]

theorem field_skip (v : Bytes m) (ys : List U8) (off n : Nat) (h : m ≤ off) :
    field (v.val ++ ys) off n = field ys (off - m) n := by
  rw [field_append_right ys n (by simpa using h), v.property]

@[simp] theorem byteAt_cons_zero (x : U8) (xs : List U8) : byteAt (x :: xs) 0 = x := rfl

@[simp] theorem byteAt_cons_succ (x : U8) (xs : List U8) (off : Nat) :
    byteAt (x :: xs) (off + 1) = byteAt xs off := rfl

theorem byteAt_skip (v : Bytes m) (ys : List U8) (off : Nat) (h : m ≤ off) :
    byteAt (v.val ++ ys) off = byteAt ys (off - m) := by
  simp only [byteAt, List.getD_eq_getElem?_getD]
  rw [List.getElem?_append_right (by simpa using h), v.property]

theorem drop_skip (v : Bytes m) (ys : List U8) (off : Nat) (h : m ≤ off) :
    (v.val ++ ys).drop off = ys.drop (off - m) := by
  rw [List.drop_append, List.drop_eq_nil_of_le (by simpa using h), List.nil_append, v.property]

theorem slice_skip (v : Bytes m) (ys : List U8) (off n : Nat) (h : m ≤ off) :
    slice (v.val ++ ys) off n = slice ys (off - m) n := by
  rw [slice, slice, drop_skip v ys off h]

theorem Bytes.append_inj {v w : Bytes n} (h : v.val ++ xs = w.val ++ ys) : v = w ∧ xs = ys := by
  obtain ⟨hval, hrest⟩ := List.append_inj h (by simp)
  exact ⟨Subtype.ext hval, hrest⟩

end Toolkit

/-!
## Lists of types, lengths and values

An item is a byte for its type, a byte for its length with these two, and its value. A reader
that is given the place of an item gets it back, and the places of the items of a list follow
from the sizes of the items before them.
-/

namespace Toolkit

set_option autoImplicit false

abbrev Item := U8 × List U8

def tlv (a : Item) : List U8 := a.1 :: BitVec.ofNat 8 (2 + a.2.length) :: a.2

def tlvs (as : List Item) : List U8 := as.flatMap tlv

def Short (as : List Item) : Prop := ∀ a ∈ as, a.2.length ≤ 253

/-- The places of the items, the first of which is at `start`. -/
def tlvStarts : Nat → List Item → List Nat
  | _, [] => []
  | start, a :: as => start :: tlvStarts (start + (2 + a.2.length)) as

def tlvLength (buf : List U8) (off : Nat) : Nat := (buf.getD (off + 1) 0).toNat

def tlvAt (buf : List U8) (off : Nat) : Item :=
  (buf.getD off 0, slice buf (off + 2) (tlvLength buf off - 2))

variable {a : Item} {as bs : List Item} {front back : List U8} {start : Nat}

@[simp] theorem length_tlv (a : Item) : (tlv a).length = 2 + a.2.length := by
  simp only [tlv, List.length_cons]
  omega

@[simp] theorem tlvs_nil : tlvs [] = [] := rfl

@[simp] theorem tlvs_cons (a : Item) (as : List Item) : tlvs (a :: as) = tlv a ++ tlvs as := rfl

theorem tlvs_append (as bs : List Item) : tlvs (as ++ bs) = tlvs as ++ tlvs bs :=
  List.flatMap_append

theorem Short.append (ha : Short as) (hb : Short bs) : Short (as ++ bs) := by
  intro a hmem
  rcases List.mem_append.mp hmem with hmem | hmem
  · exact ha a hmem
  · exact hb a hmem

theorem Short.head (h : Short (a :: as)) : a.2.length ≤ 253 := h a List.mem_cons_self

theorem Short.tail (h : Short (a :: as)) : Short as :=
  fun b hb => h b (List.mem_cons_of_mem a hb)

theorem tlvStarts_append (start : Nat) (as bs : List Item) : tlvStarts start (as ++ bs) =
    tlvStarts start as ++ tlvStarts (start + (tlvs as).length) bs := by
  induction as generalizing start with
  | nil => rfl
  | cons a as ih =>
    rw [List.cons_append, tlvStarts, ih, tlvStarts, tlvs_cons, List.length_append, length_tlv,
      Nat.add_assoc start]
    rfl

theorem length_le_tlvs (as : List Item) : 2 * as.length ≤ (tlvs as).length := by
  induction as with
  | nil => exact Nat.le_refl _
  | cons a as ih =>
    rw [tlvs_cons, List.length_append, length_tlv, List.length_cons]
    omega

theorem length_values_le (as : List Item) : (as.flatMap (·.2)).length ≤ (tlvs as).length := by
  induction as with
  | nil => exact Nat.le_refl _
  | cons a as ih =>
    rw [List.flatMap_cons, tlvs_cons, List.length_append, List.length_append, length_tlv]
    omega

theorem tlvLength_at (ha : a.2.length ≤ 253) :
    tlvLength (front ++ tlv a ++ back) front.length = 2 + a.2.length := by
  unfold tlvLength tlv
  rw [List.append_assoc, List.getD_eq_getElem?_getD, List.getElem?_append_right (by omega),
    Nat.add_sub_cancel_left]
  simp only [List.cons_append, List.getElem?_cons_succ, List.getElem?_cons_zero, Option.getD_some,
    BitVec.toNat_ofNat]
  omega

theorem tlvAt_at (ha : a.2.length ≤ 253) :
    tlvAt (front ++ tlv a ++ back) front.length = a := by
  unfold tlvAt
  rw [tlvLength_at ha]
  refine Prod.ext ?_ ?_
  · dsimp only
    rw [List.append_assoc, List.getD_eq_getElem?_getD, List.getElem?_append_right (Nat.le_refl _),
      Nat.sub_self]
    rfl
  · dsimp only
    rw [Nat.add_sub_cancel_left, slice, List.append_assoc, ← List.drop_drop, List.drop_left]
    simp [tlv]

theorem tlvStarts_inside {off : Nat} (front back : List U8) (h : Short as)
    (hoff : off ∈ tlvStarts front.length as) :
    off + tlvLength (front ++ tlvs as ++ back) off ≤ front.length + (tlvs as).length := by
  induction as generalizing front with
  | nil => cases hoff
  | cons a as ih =>
    have hfront : (front ++ tlv a).length = front.length + (2 + a.2.length) := by
      rw [List.length_append, length_tlv]
    rw [tlvs_cons, List.length_append, length_tlv]
    rcases List.mem_cons.mp hoff with rfl | hoff
    · rw [← List.append_assoc, List.append_assoc, tlvLength_at h.head]
      omega
    · rw [← hfront] at hoff
      have hrest := ih _ h.tail hoff
      rw [hfront, List.append_assoc front] at hrest
      omega

theorem map_tlvAt (front back : List U8) (h : Short as) :
    (tlvStarts front.length as).map (tlvAt (front ++ tlvs as ++ back)) = as := by
  induction as generalizing front with
  | nil => rfl
  | cons a as ih =>
    rw [tlvStarts, List.map_cons, tlvs_cons]
    congr 1
    · rw [← List.append_assoc, List.append_assoc]
      exact tlvAt_at h.head
    · have hfront : (front ++ tlv a).length = front.length + (2 + a.2.length) := by
        rw [List.length_append, length_tlv]
      rw [← hfront, ← List.append_assoc front]
      exact ih _ h.tail

end Toolkit
