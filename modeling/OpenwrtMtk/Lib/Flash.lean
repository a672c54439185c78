import OpenwrtMtk.Lib.Bytes

/-!
# Flash memory

Erasing sets the bytes of a block to ones, and programming can only clear bits. The memory is read
block by block.
-/

namespace Toolkit

set_option autoImplicit false

abbrev FlashMemory := Nat → U8

def FlashMemory.erase (mem : FlashMemory) (start size : Nat) : FlashMemory := fun a =>
  if start ≤ a ∧ a < start + size then 0xff else mem a

def FlashMemory.program (mem : FlashMemory) (start : Nat) (data : List U8) : FlashMemory := fun a =>
  if start ≤ a then
    match data[a - start]? with
    | some c => mem a &&& c
    | none => mem a
  else mem a

/-- The block with this number, of `n` bytes. -/
def FlashMemory.block (mem : FlashMemory) (n b : Nat) : List U8 :=
  (List.range n).map fun i => mem (n * b + i)

def blank (n : Nat) : List U8 := List.replicate n 0xff

def masked (old data : List U8) : List U8 := List.zipWith (· &&& ·) old data

section Blocks

variable {mem : FlashMemory} {n : Nat}

@[simp] theorem block_length (mem : FlashMemory) (n b : Nat) : (mem.block n b).length = n := by
  rw [FlashMemory.block, List.length_map, List.length_range]

theorem mem_block_bounds {a b i : Nat} (hi : i < n) (h : n * a ≤ n * b + i)
    (h' : n * b + i < n * a + n) : a = b := by
  have hle : a ≤ b := by
    by_contra hlt
    have hmul : n * (b + 1) ≤ n * a := Nat.mul_le_mul_left n (Nat.lt_of_not_le hlt)
    rw [Nat.mul_succ] at hmul
    omega
  have hge : b ≤ a := by
    by_contra hlt
    have hmul : n * (a + 1) ≤ n * b := Nat.mul_le_mul_left n (Nat.lt_of_not_le hlt)
    rw [Nat.mul_succ] at hmul
    omega
  exact Nat.le_antisymm hle hge

theorem block_erase (mem : FlashMemory) (n g b : Nat) :
    (mem.erase (n * g) n).block n b = if b = g then blank n else mem.block n b := by
  apply List.ext_getElem
  · split <;> simp [blank]
  · intro i hlen _
    have hi : i < n := by simpa using hlen
    by_cases hb : b = g
    · subst hb
      have hout : n ≤ i → mem (n * b + i) = 255#8 := fun hle => absurd hi (Nat.not_lt.mpr hle)
      simpa [FlashMemory.block, FlashMemory.erase, blank] using hout
    · have hout : ¬ (n * g ≤ n * b + i ∧ n * b + i < n * g + n) := fun h =>
        hb (mem_block_bounds hi h.1 h.2).symm
      simp [FlashMemory.block, FlashMemory.erase, hb, hout]

theorem block_program {data : List U8} (hdata : data.length = n) (mem : FlashMemory) (g b : Nat) :
    (mem.program (n * g) data).block n b =
      if b = g then masked (mem.block n b) data else mem.block n b := by
  apply List.ext_getElem
  · split <;> simp [masked, hdata]
  · intro i hlen _
    have hi : i < n := by simpa using hlen
    by_cases hb : b = g
    · subst hb
      have hget : data[i]? = some data[i] := List.getElem?_eq_getElem (hdata ▸ hi)
      simp [FlashMemory.block, FlashMemory.program, masked, hget]
    · have hsame : mem.program (n * g) data (n * b + i) = mem (n * b + i) := by
        rw [FlashMemory.program]
        by_cases hle : n * g ≤ n * b + i
        · have hout : data.length ≤ n * b + i - n * g := by
            by_contra hlt
            exact hb (mem_block_bounds hi hle (by omega)).symm
          rw [if_pos hle, List.getElem?_eq_none hout]
        · rw [if_neg hle]
      simp [FlashMemory.block, hb, hsame]

theorem masked_blank {data : List U8} (hdata : data.length = n) : masked (blank n) data = data := by
  subst hdata
  induction data with
  | nil => rfl
  | cons c data ih =>
    have hc : (0xff : U8) &&& c = c := by
      have hones : (0xff : U8) = BitVec.allOnes 8 := rfl
      rw [hones, BitVec.allOnes_and]
    rw [blank, List.length_cons, List.replicate_succ, masked, List.zipWith_cons_cons, hc]
    exact congrArg (c :: ·) ih

end Blocks

end Toolkit
