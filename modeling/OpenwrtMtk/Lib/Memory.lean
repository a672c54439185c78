import OpenwrtMtk.Lib.Bytes

/-!
# Memory

A memory gives the byte at every address. `put` replaces a range of it, `read` lists one, and
`Holds` says what is in one.
-/

namespace Toolkit

set_option autoImplicit false

abbrev Memory := Nat → U8

namespace Memory

variable {mem mem' : Memory} {off n i m : Nat} {f : Nat → U8} {bytes : List U8}

/-- The `n` bytes at `off` become those of `f`. -/
def put (mem : Memory) (off n : Nat) (f : Nat → U8) : Memory := fun a =>
  if off ≤ a ∧ a < off + n then f (a - off) else mem a

def store (mem : Memory) (off : Nat) (bytes : List U8) : Memory :=
  mem.put off bytes.length fun k => bytes.getD k 0

def read (mem : Memory) (off n : Nat) : List U8 := (List.range n).map fun k => mem (off + k)

theorem put_out {a : Nat} (h : a < off ∨ off + n ≤ a) : mem.put off n f a = mem a :=
  if_neg (by omega)

theorem store_out {a : Nat} (h : a < off ∨ off + bytes.length ≤ a) :
    mem.store off bytes a = mem a := put_out h

@[simp] theorem length_read (mem : Memory) (off n : Nat) : (mem.read off n).length = n := by
  rw [read, List.length_map, List.length_range]

theorem getElem?_read (mem : Memory) (off n k : Nat) :
    (mem.read off n)[k]? = if k < n then some (mem (off + k)) else none := by
  rw [read, List.getElem?_map]
  by_cases hk : k < n
  · rw [if_pos hk, List.getElem?_range hk]
    rfl
  · rw [if_neg hk, List.getElem?_eq_none (by rw [List.length_range]; omega)]
    rfl

theorem read_congr (h : ∀ a, off ≤ a → a < off + n → mem' a = mem a) :
    mem'.read off n = mem.read off n := by
  apply List.map_congr_left
  intro k hk
  have hlt := List.mem_range.mp hk
  exact h _ (by omega) (by omega)

theorem read_store_self (mem : Memory) (off : Nat) (bytes : List U8) :
    (mem.store off bytes).read off bytes.length = bytes := by
  apply List.ext_getElem?
  intro k
  rw [getElem?_read]
  split
  · rename_i hk
    have hin : off ≤ off + k ∧ off + k < off + bytes.length := by omega
    rw [store, put, if_pos hin, Nat.add_sub_cancel_left, List.getD_eq_getElem?_getD,
      List.getElem?_eq_getElem hk]
    rfl
  · rw [List.getElem?_eq_none]
    omega

theorem getD_read {k : Nat} (hk : k < n) (d : U8) : (mem.read off n).getD k d = mem (off + k) := by
  rw [List.getD_eq_getElem?_getD, getElem?_read, if_pos hk]
  rfl

theorem store_read {a : Nat} (h : mem a = mem' a ∨ off ≤ a ∧ a < off + n) :
    mem.store off (mem'.read off n) a = mem' a := by
  by_cases hin : off ≤ a ∧ a < off + n
  · have hrange : off ≤ a ∧ a < off + (mem'.read off n).length := by
      rw [length_read]
      exact hin
    have hk : off + (a - off) = a := by omega
    rw [store, put, if_pos hrange, getD_read (by omega), hk]
  · rw [store_out (by rw [length_read]; omega)]
    exact h.resolve_right hin

@[simp] theorem read_zero (mem : Memory) (off : Nat) : mem.read off 0 = [] := rfl

theorem read_succ (mem : Memory) (off n : Nat) :
    mem.read off (n + 1) = mem off :: mem.read (off + 1) n := by
  rw [read, List.range_succ_eq_map, List.map_cons, List.map_map, Nat.add_zero, read]
  congr 1
  apply List.map_congr_left
  intro k _
  exact congrArg mem (by simp only [Nat.succ_eq_add_one]; omega)

theorem read_add (mem : Memory) (off n m : Nat) :
    mem.read off (n + m) = mem.read off n ++ mem.read (off + n) m := by
  induction n generalizing off with
  | zero => rw [Nat.zero_add, read_zero, List.nil_append, Nat.add_zero]
  | succ n ih => rw [Nat.succ_add, read_succ, ih, read_succ, List.cons_append,
      Nat.add_assoc off, Nat.add_comm 1]

theorem store_nil (mem : Memory) (off : Nat) : mem.store off [] = mem := by
  funext a
  exact store_out (by rw [List.length_nil]; omega)

theorem store_cons (mem : Memory) (off : Nat) (b : U8) (bytes : List U8) :
    mem.store off (b :: bytes) = (mem.put off 1 fun _ => b).store (off + 1) bytes := by
  funext a
  simp only [store, put, List.length_cons]
  by_cases hfirst : a = off
  · subst hfirst
    rw [if_pos (by omega), if_neg (by omega), if_pos (by omega), Nat.sub_self]
    rfl
  · by_cases hin : off + 1 ≤ a ∧ a < off + 1 + bytes.length
    · have hk : a - off = a - (off + 1) + 1 := by omega
      rw [if_pos (by omega), if_pos hin, hk, List.getD_cons_succ]
    · rw [if_neg (by omega), if_neg hin, if_neg (by omega)]

theorem slice_read (h : i + m ≤ n) : slice (mem.read off n) i m = mem.read (off + i) m := by
  apply List.ext_getElem?
  intro k
  rw [getElem?_slice, getElem?_read, getElem?_read]
  by_cases hk : k < m
  · rw [if_pos hk, if_pos hk, if_pos (by omega), Nat.add_assoc]
  · rw [if_neg hk, if_neg hk]

theorem store_append (mem : Memory) (off : Nat) (bytes bytes' : List U8) :
    mem.store off (bytes ++ bytes') = (mem.store off bytes).store (off + bytes.length) bytes' := by
  induction bytes generalizing mem off with
  | nil => rw [List.nil_append, store_nil, List.length_nil, Nat.add_zero]
  | cons b bytes ih => rw [List.cons_append, store_cons, ih, store_cons, List.length_cons,
      Nat.add_assoc, Nat.add_comm 1]

theorem store_store {bytes' : List U8} (h : bytes'.length = bytes.length) :
    (mem.store off bytes).store off bytes' = mem.store off bytes' := by
  funext a
  simp only [store, put, h]
  split
  · rfl
  · rfl

/-- The bytes are in the memory from `off` on. -/
def Holds (mem : Memory) (off : Nat) (bytes : List U8) : Prop :=
  mem.read off bytes.length = bytes

theorem holds_store (mem : Memory) (off : Nat) (bytes : List U8) :
    (mem.store off bytes).Holds off bytes := read_store_self mem off bytes

theorem holds_append {bytes' : List U8} : mem.Holds off (bytes ++ bytes') ↔
    mem.Holds off bytes ∧ mem.Holds (off + bytes.length) bytes' := by
  unfold Holds
  rw [List.length_append, read_add]
  constructor
  · intro h
    exact List.append_inj h (length_read _ _ _)
  · rintro ⟨hfirst, hsecond⟩
    rw [hfirst, hsecond]

theorem Holds.congr (h : mem.Holds off bytes)
    (hsame : ∀ a, off ≤ a → a < off + bytes.length → mem' a = mem a) : mem'.Holds off bytes :=
  (read_congr hsame).trans h

theorem Holds.moved {off' : Nat} (h : mem.Holds off bytes) (hoff : off' = off) :
    mem.Holds off' bytes := hoff ▸ h

theorem Holds.head {b : U8} (h : mem.Holds off (b :: bytes)) : mem off = b := by
  unfold Holds at h
  rw [List.length_cons, read_succ] at h
  exact (List.cons.inj h).1

end Memory

end Toolkit

/-!
## Xor with a stream of bytes

A generator gives a byte and its next state, or nothing. Bytes in memory are replaced one by one
with their xor with the stream; the target may overlap the source from below. A second pass with
the same stream gives the bytes back.
-/

namespace Toolkit

set_option autoImplicit false

section Loops

variable {σ : Type} (next : σ → Option (U8 × σ))

/-- The first `n` bytes of the stream. -/
def stream : Nat → σ → Option (List U8)
  | 0, _ => some []
  | n + 1, s => do
    let (byte, s) ← next s
    let rest ← stream n s
    return byte :: rest

/-- The `n` bytes at `src` go to `dst`. -/
def xorStream : Nat → σ → Nat → Nat → Memory → Option Memory
  | 0, _, _, _, mem => some mem
  | n + 1, s, src, dst, mem => do
    let (byte, s) ← next s
    xorStream n s (src + 1) (dst + 1) (mem.put dst 1 fun _ => mem src ^^^ byte)

end Loops

def xorBytes (bytes mask : List U8) : List U8 := List.zipWith (· ^^^ ·) bytes mask

section Laws

variable {σ : Type} {next : σ → Option (U8 × σ)} {n src dst : Nat} {s : σ}
  {bytes mask : List U8}

theorem length_xorBytes (h : mask.length = bytes.length) :
    (xorBytes bytes mask).length = bytes.length := by
  rw [xorBytes, List.length_zipWith, h, Nat.min_self]

theorem xorBytes_xorBytes (h : mask.length = bytes.length) :
    xorBytes (xorBytes bytes mask) mask = bytes := by
  induction bytes generalizing mask with
  | nil => rfl
  | cons b bytes ih =>
    cases mask with
    | nil => cases h
    | cons m mask =>
      have htail := ih (Nat.succ.inj h)
      change (b ^^^ m ^^^ m) :: xorBytes (xorBytes bytes mask) mask = b :: bytes
      rw [htail, BitVec.xor_assoc, BitVec.xor_self, BitVec.xor_zero]

theorem length_stream (h : stream next n s = some mask) : mask.length = n := by
  induction n generalizing s mask with
  | zero =>
    cases h
    rfl
  | succ n ih =>
    obtain ⟨⟨byte, s'⟩, -, hrest⟩ := Option.bind_eq_some_iff.mp h
    obtain ⟨rest, hstream, hmask⟩ := Option.bind_eq_some_iff.mp hrest
    cases hmask
    rw [List.length_cons, ih hstream]

theorem stream_total (Inv : σ → Prop)
    (hnext : ∀ s, Inv s → ∃ byte s', next s = some (byte, s') ∧ Inv s') (n : Nat) (hs : Inv s) :
    ∃ mask, stream next n s = some mask := by
  induction n generalizing s with
  | zero => exact ⟨[], rfl⟩
  | succ n ih =>
    obtain ⟨byte, s', hbyte, hs'⟩ := hnext s hs
    obtain ⟨rest, hrest⟩ := ih hs'
    refine ⟨byte :: rest, ?_⟩
    rw [stream, hbyte]
    simp [hrest]

/-- The loop reads every byte before the target reaches it. -/
theorem xorStream_eq (h : stream next n s = some mask) (hle : dst ≤ src) (mem : Memory) :
    xorStream next n s src dst mem = some (mem.store dst (xorBytes (mem.read src n) mask)) := by
  induction n generalizing s mask src dst mem with
  | zero =>
    cases h
    rw [xorStream, Memory.read_zero, xorBytes, List.zipWith_nil_left, Memory.store_nil]
  | succ n ih =>
    obtain ⟨⟨byte, s'⟩, hbyte, hrest⟩ := Option.bind_eq_some_iff.mp h
    obtain ⟨rest, hstream, hmask⟩ := Option.bind_eq_some_iff.mp hrest
    cases hmask
    have hahead : (mem.put dst 1 fun _ => mem src ^^^ byte).read (src + 1) n =
        mem.read (src + 1) n := Memory.read_congr fun a _ _ => Memory.put_out (by omega)
    rw [xorStream, hbyte]
    dsimp only [bind, Option.bind]
    rw [ih hstream (Nat.add_le_add_right hle 1), hahead, Memory.read_succ]
    exact congrArg some (Memory.store_cons _ _ _ _).symm

end Laws

end Toolkit
