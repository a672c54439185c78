import Mathlib.Data.Nat.Bitwise
import OpenwrtMtk.Lib.Bytes

/-!
# Writing to the flash

`flash_write`: what does not fill blocks is merged into the block it belongs to, whole blocks are
erased and written. Only the first kind seeks. The kernel's calls succeed or fail as `works` says,
by their number, and `malloc` returns `fresh`.
-/

namespace OpenwrtMtk.Nvram

open Toolkit

set_option autoImplicit false

/-- What MEMGETINFO reports. -/
structure MtdInfo where
  size : Nat
  erasesize : Nat
  shift : Nat
  power : erasesize = 2 ^ shift
  blocks : erasesize ∣ size
  size_lt : size < 2 ^ 32

/-- The device behind a file descriptor, the file offset, and the number of calls so far. -/
structure MtdFile where
  mem : List U8
  pos : Nat
  calls : Nat

section Calls

variable (info : MtdInfo) (works : Nat → Bool)

def MtdFile.lseek (f : MtdFile) (off : Nat) : MtdFile :=
  { f with pos := if off ≤ info.size then off else f.pos }

def MtdFile.read (f : MtdFile) (count : Nat) : Option (List U8 × MtdFile) :=
  if works f.calls then
    let bytes := slice f.mem f.pos count
    some (bytes, { f with pos := f.pos + bytes.length, calls := f.calls + 1 })
  else none

/-- `write` stops at the end of the device. -/
def MtdFile.write (f : MtdFile) (bytes : List U8) : Option (Nat × MtdFile) :=
  if works f.calls then
    let bytes := bytes.take (info.size - f.pos)
    some (bytes.length,
      ⟨overwrite f.mem f.pos bytes, f.pos + bytes.length, f.calls + 1⟩)
  else none

/-- MEMERASE of one block; a start inside a block is refused. -/
def MtdFile.erase (f : MtdFile) (start : Nat) : Option MtdFile :=
  if works f.calls ∧ info.erasesize ∣ start ∧ start + info.erasesize ≤ info.size then
    some { f with
      mem := overwrite f.mem start (List.replicate info.erasesize 0xff), calls := f.calls + 1 }
  else none

end Calls

section Write

variable (info : MtdInfo) (works : Nat → Bool) (fresh : Nat → Option (List U8))

/-- The block that holds `dest` (`to` in the source) is read, changed, erased and written. The result is the number of
bytes taken from `buf`, what `write` returned, and the file; `none` is a return of -1. -/
def writePiece (buf : List U8) (dest : Nat) (f : MtdFile) : Option (Nat × Nat × MtdFile) := do
  let bak ← fresh f.calls
  let bakaddr := dest &&& (2 ^ 32 - 1 - (info.erasesize - 1))
  let (bytes, f) ← (f.lseek info bakaddr).read works info.erasesize
  let piece := dest &&& (info.erasesize - 1)
  let pieceSize := min buf.length (info.erasesize - piece)
  let bak := overwrite (overwrite bak 0 bytes) piece (buf.take pieceSize)
  let f ← f.erase info works bakaddr
  let (ret, f) ← (f.lseek info bakaddr).write info works bak
  some (pieceSize, ret, f)

/-- A block is erased, and the next bytes go where the file offset is. -/
def writeBlock (buf : List U8) (dest : Nat) (f : MtdFile) : Option (Nat × Nat × MtdFile) := do
  let f ← f.erase info works dest
  let (ret, f) ← f.write info works (buf.take info.erasesize)
  some (info.erasesize, ret, f)

def writeTurn (buf : List U8) (dest : Nat) (f : MtdFile) : Option (Nat × Nat × MtdFile) :=
  if buf.length &&& (info.erasesize - 1) ≠ 0 ∨ buf.length < info.erasesize then
    writePiece info works fresh buf dest f
  else writeBlock info works buf dest f

/-- The loop, for so many turns at most. The inner `none` is a return of -1. -/
def flashLoop : Nat → List U8 → Nat → Nat → MtdFile → Option (Option (Nat × List U8))
  | _, [], _, ret, f => some (some (ret, f.mem))
  | 0, _ :: _, _, _, _ => none
  | turns + 1, buf@(_ :: _), dest, _, f =>
    match writeTurn info works fresh buf dest f with
    | none => some none
    | some (n, ret, f) => flashLoop turns (buf.drop n) (dest + n) ret f

/-- `flash_write` on a device that holds `mem`. -/
def flashWrite (mem buf : List U8) (dest : Nat) : Option (Option (Nat × List U8)) :=
  -- `mtd_open` and MEMGETINFO
  if works 0 = false ∨ works 1 = false then some none
  else if info.size < buf.length then some none
  else flashLoop info works fresh buf.length buf dest 0 ⟨mem, 0, 2⟩

end Write

namespace MtdInfo

variable (info : MtdInfo)

theorem erasesize_pos : 0 < info.erasesize := by
  rw [info.power]
  exact Nat.two_pow_pos info.shift

theorem land_low (a : Nat) : a &&& (info.erasesize - 1) = a % info.erasesize := by
  rw [info.power, Nat.and_two_pow_sub_one_eq_mod]

theorem land_high {a : Nat} (ha : a < 2 ^ 32) :
    a &&& (2 ^ 32 - 1 - (info.erasesize - 1)) = a - a % info.erasesize := by
  have hpos := Nat.two_pow_pos info.shift
  have hmask : 2 ^ 32 - 1 - (info.erasesize - 1) = 2 ^ 32 - (2 ^ info.shift - 1 + 1) := by
    rw [info.power]
    omega
  rw [hmask, info.power]
  by_cases hshift : info.shift ≤ 32
  · have hdiv : a - a % 2 ^ info.shift = (a >>> info.shift) <<< info.shift := by
      rw [Nat.shiftRight_eq_div_pow, Nat.shiftLeft_eq, Nat.mul_comm]
      have := Nat.div_add_mod a (2 ^ info.shift)
      omega
    have hlow : 2 ^ info.shift - 1 < 2 ^ 32 := by
      have := Nat.pow_le_pow_right (n := 2) (by decide) hshift
      omega
    rw [hdiv]
    apply Nat.eq_of_testBit_eq
    intro i
    rw [Nat.testBit_and, Nat.testBit_two_pow_sub_succ hlow, Nat.testBit_two_pow_sub_one,
      Nat.testBit_shiftLeft, Nat.testBit_shiftRight]
    by_cases hi : info.shift ≤ i
    · have hbit : a.testBit i = true → i < 32 := by
        intro hbit
        by_contra hge
        have hle := Nat.pow_le_pow_right (n := 2) (by decide) (Nat.le_of_not_lt hge)
        rw [Nat.testBit_lt_two_pow (by omega)] at hbit
        cases hbit
      cases hb : a.testBit i <;> simp_all
    · simp [hi, Nat.lt_of_not_le hi]
  · have hle := Nat.pow_le_pow_right (n := 2) (by decide) (Nat.le_of_lt (Nat.lt_of_not_le hshift))
    rw [Nat.sub_add_cancel hpos, Nat.sub_eq_zero_of_le hle, Nat.and_zero,
      Nat.mod_eq_of_lt (by omega), Nat.sub_self]

end MtdInfo

section Turns

variable {info : MtdInfo} {works : Nat → Bool} {fresh : Nat → Option (List U8)}
variable {buf bytes : List U8} {dest off count k ret : Nat} {f f' : MtdFile}

theorem lseek_inside (h : off ≤ info.size) : f.lseek info off = { f with pos := off } := by
  rw [MtdFile.lseek, if_pos h]

theorem read_some (h : f.read works count = some (bytes, f')) :
    bytes = slice f.mem f.pos count ∧ f'.mem = f.mem := by
  unfold MtdFile.read at h
  split at h
  · obtain ⟨rfl, rfl⟩ := Prod.mk.inj (Option.some.inj h)
    exact ⟨rfl, rfl⟩
  · cases h

theorem write_inside (hpos : f.pos + bytes.length ≤ info.size)
    (h : f.write info works bytes = some (ret, f')) :
    f'.mem = overwrite f.mem f.pos bytes ∧ f'.pos = f.pos + bytes.length := by
  unfold MtdFile.write at h
  rw [List.take_of_length_le (by omega)] at h
  split at h
  · obtain ⟨rfl, rfl⟩ := Prod.mk.inj (Option.some.inj h)
    exact ⟨rfl, rfl⟩
  · cases h

theorem erase_some (h : f.erase info works dest = some f') :
    info.erasesize ∣ dest ∧ dest + info.erasesize ≤ info.size ∧
      f'.mem = overwrite f.mem dest (List.replicate info.erasesize 0xff) ∧ f'.pos = f.pos := by
  unfold MtdFile.erase at h
  split at h
  · rename_i hworks
    obtain rfl := Option.some.inj h
    exact ⟨hworks.2.1, hworks.2.2, rfl, rfl⟩
  · cases h

theorem block_inside (h : dest < info.size) :
    dest - dest % info.erasesize + info.erasesize ≤ info.size := by
  have hpos := info.erasesize_pos
  obtain ⟨c, hc⟩ := info.blocks
  have hlt : dest / info.erasesize < c := by
    rw [hc] at h
    exact Nat.div_lt_of_lt_mul h
  have hle := Nat.mul_le_mul_left info.erasesize hlt
  have hdiv := Nat.div_add_mod dest info.erasesize
  rw [Nat.mul_succ] at hle
  omega

theorem writePiece_some (hfresh : ∀ i, ∀ bak ∈ fresh i, bak.length = info.erasesize)
    (hmem : f.mem.length = info.size) (hend : dest + buf.length ≤ info.size) (hbuf : buf ≠ [])
    (h : writePiece info works fresh buf dest f = some (k, ret, f')) :
    k = min buf.length (info.erasesize - dest % info.erasesize) ∧
      f'.mem = overwrite f.mem dest (buf.take k) ∧
      f'.pos = dest - dest % info.erasesize + info.erasesize := by
  have hlen : 0 < buf.length := List.length_pos_of_ne_nil hbuf
  have hpos := info.erasesize_pos
  have hlow := Nat.mod_lt dest hpos
  have hsub := Nat.mod_le dest info.erasesize
  have hsize := info.size_lt
  have hblock := @block_inside info dest (by omega)
  simp only [writePiece, Option.bind_eq_bind, Option.bind_eq_some_iff, info.land_low,
    info.land_high (by omega : dest < 2 ^ 32)] at h
  obtain ⟨bak, hbak, ⟨bytes, f₁⟩, hread, f₂, herase, ⟨ret', f₃⟩, hwrite, heq⟩ := h
  simp only [Option.some.injEq, Prod.mk.injEq] at heq
  obtain ⟨rfl, rfl, rfl⟩ := heq
  have hbaklen := hfresh _ bak hbak
  rw [lseek_inside (by omega)] at hread
  obtain ⟨rfl, hsame⟩ := read_some hread
  dsimp only at hsame hwrite
  -- all of the buffer is read
  have hold : (slice f.mem (dest - dest % info.erasesize) info.erasesize).length =
      info.erasesize := length_slice (by omega)
  have hfill : overwrite bak 0 (slice f.mem (dest - dest % info.erasesize) info.erasesize) =
      slice f.mem (dest - dest % info.erasesize) info.erasesize := by
    rw [overwrite, hold, List.drop_of_length_le (by omega)]
    simp
  obtain ⟨-, -, hmem₂, -⟩ := erase_some herase
  rw [lseek_inside (by omega), hfill] at hwrite
  have hpiece : dest % info.erasesize +
      (buf.take (min buf.length (info.erasesize - dest % info.erasesize))).length ≤
      info.erasesize := by
    rw [List.length_take]
    omega
  have hnew := length_overwrite (hold.symm ▸ hpiece)
  rw [hold] at hnew
  obtain ⟨hmem₃, hpos₃⟩ := write_inside (by rw [hnew]; exact hblock) hwrite
  refine ⟨rfl, ?_, by rw [hpos₃, hnew]⟩
  rw [hmem₃]
  dsimp only
  rw [hmem₂, hsame, overwrite_overwrite (by rw [List.length_replicate]; omega)
    (by rw [hnew, List.length_replicate]), overwrite_overwrite_slice (by omega) hpiece,
    Nat.sub_add_cancel hsub]

theorem writeBlock_some (hend : dest + buf.length ≤ info.size) (hpos : f.pos ≤ dest)
    (hbuf : info.erasesize ≤ buf.length)
    (h : writeBlock info works buf dest f = some (k, ret, f')) :
    k = info.erasesize ∧ info.erasesize ∣ dest ∧
      f'.mem = overwrite (overwrite f.mem dest (List.replicate info.erasesize 0xff)) f.pos
        (buf.take info.erasesize) ∧
      f'.pos = f.pos + info.erasesize := by
  simp only [writeBlock, Option.bind_eq_bind, Option.bind_eq_some_iff] at h
  obtain ⟨f₁, herase, ⟨ret', f₂⟩, hwrite, heq⟩ := h
  simp only [Option.some.injEq, Prod.mk.injEq] at heq
  obtain ⟨rfl, rfl, rfl⟩ := heq
  obtain ⟨hdvd, -, hmem₁, hpos₁⟩ := erase_some herase
  have hlen : (buf.take info.erasesize).length = info.erasesize := by
    rw [List.length_take, Nat.min_eq_left hbuf]
  obtain ⟨hmem₂, hpos₂⟩ := write_inside (by rw [hlen, hpos₁]; omega) hwrite
  exact ⟨rfl, hdvd, by rw [hmem₂, hmem₁, hpos₁], by rw [hpos₂, hpos₁, hlen]⟩

theorem writeTurn_eq (hbuf : buf ≠ []) : writeTurn info works fresh buf dest f =
    if info.erasesize ∣ buf.length then writeBlock info works buf dest f
    else writePiece info works fresh buf dest f := by
  have hlen : 0 < buf.length := List.length_pos_of_ne_nil hbuf
  rw [writeTurn, info.land_low]
  by_cases hdvd : info.erasesize ∣ buf.length
  · rw [if_pos hdvd, if_neg]
    have hle := Nat.le_of_dvd hlen hdvd
    have hmod := Nat.mod_eq_zero_of_dvd hdvd
    omega
  · rw [if_neg hdvd, if_pos]
    exact Or.inl fun hmod => hdvd (Nat.dvd_of_mod_eq_zero hmod)

theorem writeTurn_advances (hbuf : buf ≠ [])
    (h : writeTurn info works fresh buf dest f = some (k, ret, f')) : 0 < k := by
  have hlen : 0 < buf.length := List.length_pos_of_ne_nil hbuf
  have hpos := info.erasesize_pos
  have hlow := Nat.mod_lt dest hpos
  rw [writeTurn_eq hbuf] at h
  split at h
  · simp only [writeBlock, Option.bind_eq_bind, Option.bind_eq_some_iff] at h
    obtain ⟨_, _, _, _, heq⟩ := h
    simp only [Option.some.injEq, Prod.mk.injEq] at heq
    omega
  · simp only [writePiece, Option.bind_eq_bind, Option.bind_eq_some_iff, info.land_low] at h
    obtain ⟨_, _, _, _, _, _, _, _, heq⟩ := h
    simp only [Option.some.injEq, Prod.mk.injEq] at heq
    omega

theorem writeTurn_right (hfresh : ∀ i, ∀ bak ∈ fresh i, bak.length = info.erasesize)
    (hmem : f.mem.length = info.size) (hend : dest + buf.length ≤ info.size) (hbuf : buf ≠ [])
    (hat : info.erasesize ∣ buf.length → f.pos = dest)
    (h : writeTurn info works fresh buf dest f = some (k, ret, f')) :
    k ≤ buf.length ∧ f'.mem = overwrite f.mem dest (buf.take k) ∧
      (buf.drop k ≠ [] → f'.pos = dest + k) := by
  have hlen : 0 < buf.length := List.length_pos_of_ne_nil hbuf
  have hpos := info.erasesize_pos
  rw [writeTurn_eq hbuf] at h
  split at h
  · rename_i hdvd
    have hblock := Nat.le_of_dvd hlen hdvd
    have hstand := hat hdvd
    obtain ⟨rfl, -, hmem', hpos'⟩ := writeBlock_some hend (Nat.le_of_eq hstand) hblock h
    refine ⟨hblock, ?_, fun _ => by rw [hpos', hstand]⟩
    rw [hmem', hstand, overwrite_overwrite (by rw [List.length_replicate]; omega)]
    rw [List.length_take, List.length_replicate, Nat.min_eq_left hblock]
  · have hlow := Nat.mod_lt dest hpos
    have hsub := Nat.mod_le dest info.erasesize
    obtain ⟨hk, hmem', hpos'⟩ := writePiece_some hfresh hmem hend hbuf h
    refine ⟨by omega, hmem', fun hrest => ?_⟩
    have hmore : k < buf.length := by
      by_contra hge
      exact hrest (List.drop_of_length_le (Nat.le_of_not_lt hge))
    omega

theorem writeBlock_works (buf : List U8) (f : MtdFile) (hworks : ∀ i, works i = true) (hdvd : info.erasesize ∣ dest)
    (hend : dest + info.erasesize ≤ info.size) :
    ∃ ret f', writeBlock info works buf dest f = some (info.erasesize, ret, f') := by
  simp only [writeBlock, MtdFile.erase, MtdFile.write, hworks, hdvd, hend, Option.bind_eq_bind,
    and_self, if_true, Option.bind_some]
  exact ⟨_, _, rfl⟩

end Turns

section Loop

variable {info : MtdInfo} {works : Nat → Bool} {fresh : Nat → Option (List U8)}

theorem flashLoop_cons {turns dest ret : Nat} {buf : List U8} {f : MtdFile} (hbuf : buf ≠ []) :
    flashLoop info works fresh (turns + 1) buf dest ret f =
      match writeTurn info works fresh buf dest f with
      | none => some none
      | some (n, ret, f) => flashLoop info works fresh turns (buf.drop n) (dest + n) ret f := by
  cases buf with
  | nil => exact absurd rfl hbuf
  | cons c buf => rfl

/-- Every turn takes a byte, so the loop ends. -/
theorem flashLoop_ends : ∀ (turns : Nat) (buf : List U8) (dest ret : Nat) (f : MtdFile),
    buf.length ≤ turns → ∃ r, flashLoop info works fresh turns buf dest ret f = some r := by
  intro turns
  induction turns with
  | zero =>
    intro buf dest ret f hlen
    rw [List.eq_nil_of_length_eq_zero (Nat.le_zero.mp hlen)]
    exact ⟨_, rfl⟩
  | succ turns ih =>
    intro buf dest ret f hlen
    by_cases hbuf : buf = []
    · rw [hbuf]
      exact ⟨_, rfl⟩
    · rw [flashLoop_cons hbuf]
      cases hturn : writeTurn info works fresh buf dest f with
      | none => exact ⟨none, rfl⟩
      | some r =>
        obtain ⟨k, ret', f'⟩ := r
        have hk := writeTurn_advances hbuf hturn
        exact ih _ _ _ _ (by rw [List.length_drop]; omega)

theorem flashLoop_right (hfresh : ∀ i, ∀ bak ∈ fresh i, bak.length = info.erasesize) :
    ∀ (turns : Nat) {buf mem' : List U8} {dest ret ret' : Nat} {f : MtdFile},
      f.mem.length = info.size → dest + buf.length ≤ info.size →
      (info.erasesize ∣ buf.length → buf ≠ [] → f.pos = dest) →
      flashLoop info works fresh turns buf dest ret f = some (some (ret', mem')) →
      mem' = overwrite f.mem dest buf := by
  intro turns
  induction turns with
  | zero =>
    intro buf mem' dest ret ret' f _ _ _ h
    cases buf with
    | nil =>
      simp only [flashLoop, Option.some.injEq, Prod.mk.injEq] at h
      simp [overwrite, h.2]
    | cons c buf => cases h
  | succ turns ih =>
    intro buf mem' dest ret ret' f hmem hend hat h
    by_cases hbuf : buf = []
    · subst hbuf
      simp only [flashLoop, Option.some.injEq, Prod.mk.injEq] at h
      simp [overwrite, h.2]
    · rw [flashLoop_cons hbuf] at h
      cases hturn : writeTurn info works fresh buf dest f with
      | none => rw [hturn] at h; cases h
      | some r =>
        obtain ⟨k, ret₁, f₁⟩ := r
        rw [hturn] at h
        dsimp only at h
        obtain ⟨hk, hmem₁, hstand⟩ :=
          writeTurn_right hfresh hmem hend hbuf (fun hdvd => hat hdvd hbuf) hturn
        have htake : (buf.take k).length = k := by rw [List.length_take, Nat.min_eq_left hk]
        have hfit : dest + (buf.take k).length ≤ f.mem.length := by omega
        have hmem' := ih (by rw [hmem₁, length_overwrite hfit, hmem])
          (by rw [List.length_drop]; omega) (fun _ => hstand) h
        have happ := overwrite_append (buf.take k) (buf.drop k)
          (by rw [htake, List.length_drop]; omega : dest + (buf.take k).length +
            (buf.drop k).length ≤ f.mem.length)
        rw [htake, List.take_append_drop] at happ
        rw [hmem', hmem₁, happ]

theorem overwrite_pairs {mem bs cs bs' cs' : List U8} {pos dest : Nat}
    (hapart : pos + bs.length ≤ dest) (hend : dest + cs.length + cs'.length ≤ mem.length)
    (hend' : pos + bs.length + bs'.length ≤ mem.length) :
    overwrite (overwrite (overwrite (overwrite mem dest cs) pos bs) (dest + cs.length) cs')
        (pos + bs.length) bs' =
      overwrite (overwrite mem dest (cs ++ cs')) pos (bs ++ bs') := by
  have hfirst : (overwrite mem dest cs).length = mem.length := length_overwrite (by omega)
  have hcs : dest + (cs ++ cs').length ≤ mem.length := by
    rw [List.length_append]
    omega
  have hswap : overwrite (overwrite (overwrite mem dest cs) pos bs) (dest + cs.length) cs' =
      overwrite (overwrite (overwrite mem dest cs) (dest + cs.length) cs') pos bs :=
    overwrite_comm (by omega) (by omega) (Or.inr (by omega))
  rw [hswap, overwrite_append cs cs' hend,
    overwrite_append bs bs' (by rw [length_overwrite hcs]; exact hend')]

theorem flashLoop_aligned {turns dest ret : Nat} {buf : List U8} {f : MtdFile}
    {r : Nat × List U8} (hbuf : buf ≠ []) (hdvd : info.erasesize ∣ buf.length)
    (h : flashLoop info works fresh turns buf dest ret f = some (some r)) :
    info.erasesize ∣ dest := by
  cases turns with
  | zero =>
    cases buf with
    | nil => exact absurd rfl hbuf
    | cons c buf => cases h
  | succ turns =>
    rw [flashLoop_cons hbuf, writeTurn_eq hbuf, if_pos hdvd, writeBlock] at h
    cases herase : f.erase info works dest with
    | none =>
      rw [herase] at h
      cases h
    | some f' => exact (erase_some herase).1

/-- A loop of whole blocks that does not stand where it is to write: it erases the range behind
and writes the bytes in front. -/
theorem flashLoop_behind : ∀ (turns : Nat) {buf mem' : List U8} {dest ret ret' : Nat} {f : MtdFile},
    f.mem.length = info.size → dest + buf.length ≤ info.size → info.erasesize ∣ buf.length →
    (buf ≠ [] → f.pos + info.erasesize ≤ dest) → f.pos + buf.length ≤ info.size →
    flashLoop info works fresh turns buf dest ret f = some (some (ret', mem')) →
    mem' = overwrite (overwrite f.mem dest (List.replicate buf.length 0xff)) f.pos buf := by
  intro turns
  induction turns with
  | zero =>
    intro buf mem' dest ret ret' f _ _ _ _ _ h
    cases buf with
    | nil =>
      simp only [flashLoop, Option.some.injEq, Prod.mk.injEq] at h
      simp [overwrite, h.2]
    | cons c buf => cases h
  | succ turns ih =>
    intro buf mem' dest ret ret' f hmem hend hdvd hapart hfront h
    by_cases hbuf : buf = []
    · subst hbuf
      simp only [flashLoop, Option.some.injEq, Prod.mk.injEq] at h
      simp [overwrite, h.2]
    · rw [flashLoop_cons hbuf] at h
      cases hturn : writeTurn info works fresh buf dest f with
      | none => rw [hturn] at h; cases h
      | some r =>
        obtain ⟨k, ret₁, f₁⟩ := r
        rw [hturn] at h
        dsimp only at h
        rw [writeTurn_eq hbuf, if_pos hdvd] at hturn
        have hblock := Nat.le_of_dvd (List.length_pos_of_ne_nil hbuf) hdvd
        have hbehind := hapart hbuf
        obtain ⟨rfl, -, hmem₁, hpos₁⟩ := writeBlock_some hend (by omega) hblock hturn
        have htake : (buf.take info.erasesize).length = info.erasesize := by
          rw [List.length_take, Nat.min_eq_left hblock]
        have hdrop : (buf.drop info.erasesize).length = buf.length - info.erasesize :=
          List.length_drop
        have herased : dest + (List.replicate info.erasesize (0xff : U8)).length ≤ f.mem.length := by
          rw [List.length_replicate]
          omega
        have hlen₁ : f₁.mem.length = info.size := by
          rw [hmem₁, length_overwrite (by rw [length_overwrite herased]; omega),
            length_overwrite herased, hmem]
        have hmem' := ih hlen₁ (by omega) (hdrop ▸ Nat.dvd_sub hdvd (Nat.dvd_refl _))
          (fun _ => by omega) (by omega) h
        have hpairs := @overwrite_pairs f.mem (buf.take info.erasesize)
          (List.replicate info.erasesize 0xff) (buf.drop info.erasesize)
          (List.replicate (buf.length - info.erasesize) 0xff) f.pos dest (by omega)
          (by simp only [List.length_replicate]; omega) (by omega)
        rw [htake, List.length_replicate, List.take_append_drop, List.replicate_append_replicate,
          Nat.add_sub_cancel' hblock] at hpairs
        rw [hmem', hmem₁, hpos₁, hdrop, hpairs]

theorem flashLoop_works (hworks : ∀ i, works i = true) :
    ∀ (turns : Nat) {buf : List U8} {dest ret : Nat} {f : MtdFile}, buf.length ≤ turns →
      dest + buf.length ≤ info.size → info.erasesize ∣ buf.length → info.erasesize ∣ dest →
      ∃ ret' mem', flashLoop info works fresh turns buf dest ret f = some (some (ret', mem')) := by
  intro turns
  induction turns with
  | zero =>
    intro buf dest ret f hlen _ _ _
    rw [List.eq_nil_of_length_eq_zero (Nat.le_zero.mp hlen)]
    exact ⟨_, _, rfl⟩
  | succ turns ih =>
    intro buf dest ret f hlen hend hdvd hdest
    by_cases hbuf : buf = []
    · rw [hbuf]
      exact ⟨_, _, rfl⟩
    · have hblock := Nat.le_of_dvd (List.length_pos_of_ne_nil hbuf) hdvd
      have hpos := info.erasesize_pos
      have hdrop : (buf.drop info.erasesize).length = buf.length - info.erasesize :=
        List.length_drop
      obtain ⟨ret', f', hturn⟩ := writeBlock_works buf f hworks hdest (by omega)
      rw [flashLoop_cons hbuf, writeTurn_eq hbuf, if_pos hdvd, hturn]
      exact ih (by omega) (by omega) (hdrop ▸ Nat.dvd_sub hdvd (Nat.dvd_refl _))
        (Nat.dvd_add hdest (Nat.dvd_refl _))

end Loop

/-- The device behind a write of `buf` at `dest`. -/
def WritesRight (info : MtdInfo) (mem buf : List U8) (dest : Nat) : Prop :=
  ∀ (works : Nat → Bool) (fresh : Nat → Option (List U8)),
    (∀ i, ∀ bak ∈ fresh i, bak.length = info.erasesize) →
    ∃ r, flashWrite info works fresh mem buf dest = some r ∧
      ∀ ret mem', r = some (ret, mem') → mem' = overwrite mem dest buf

/-- Writing `buf` to the start of the device and erasing the bytes from `dest` on makes no
difference. -/
structure Coincides (mem buf : List U8) (dest : Nat) : Prop where
  front : ∀ k < buf.length, k < dest → mem[k]? = buf[k]?
  middle : ∀ k < buf.length, dest ≤ k → buf[k]? = buf[k - dest]?
  back : ∀ k < buf.length, buf.length ≤ dest + k → buf[k]? = some 0xff

theorem coincides_iff {mem buf : List U8} {dest : Nat} (hend : dest + buf.length ≤ mem.length) :
    overwrite (overwrite mem dest (List.replicate buf.length 0xff)) 0 buf =
      overwrite mem dest buf ↔ Coincides mem buf dest := by
  have herase : dest + (List.replicate buf.length (0xff : U8)).length ≤ mem.length := by
    rwa [List.length_replicate]
  have hfront : 0 + buf.length ≤
      (overwrite mem dest (List.replicate buf.length (0xff : U8))).length := by
    rw [length_overwrite herase]
    omega
  have hleft := getElem?_overwrite hfront
  have hmid := getElem?_overwrite herase
  have hright := getElem?_overwrite hend
  simp only [List.length_replicate, Nat.zero_add, Nat.zero_le, true_and, Nat.sub_zero,
    List.getElem?_replicate] at hleft hmid
  rw [List.ext_getElem?_iff]
  simp only [hleft, hmid, hright]
  constructor
  · intro h
    refine ⟨fun k hk hdest => ?_, fun k hk hdest => ?_, fun k hk hback => ?_⟩
    · have hbyte := h k
      rw [if_pos hk, if_neg (by omega)] at hbyte
      exact hbyte.symm
    · have hbyte := h k
      rwa [if_pos hk, if_pos (by omega)] at hbyte
    · have hbyte := h (dest + k)
      rw [if_neg (by omega), if_pos (by omega), if_pos (by omega), if_pos (by omega),
        Nat.add_sub_cancel_left] at hbyte
      exact hbyte.symm
  · intro h k
    by_cases hk : k < buf.length
    · rw [if_pos hk]
      by_cases hdest : dest ≤ k
      · rw [if_pos (by omega)]
        exact h.middle k hk hdest
      · rw [if_neg (by omega)]
        exact (h.front k hk (Nat.lt_of_not_le hdest)).symm
    · rw [if_neg hk]
      by_cases hin : dest ≤ k ∧ k < dest + buf.length
      · rw [if_pos hin, if_pos hin, if_pos (by omega)]
        exact (h.back (k - dest) (by omega) (by omega)).symm
      · rw [if_neg hin, if_neg hin]

/-- `flash_write` is right except for whole blocks that go to a block behind the first one. -/
theorem writesRight_iff {info : MtdInfo} {mem buf : List U8} {dest : Nat}
    (hmem : mem.length = info.size) (hend : dest + buf.length ≤ info.size) :
    WritesRight info mem buf dest ↔
      (info.erasesize ∣ buf.length → info.erasesize ∣ dest → dest ≠ 0 →
        Coincides mem buf dest) := by
  have hblock : ∀ {d : Nat}, info.erasesize ∣ d → d ≠ 0 → info.erasesize ≤ d :=
    fun hdvd hne => Nat.le_of_dvd (Nat.pos_of_ne_zero hne) hdvd
  constructor
  · intro h hdvd hdest hne
    obtain ⟨r, hrun, hright⟩ := h (fun _ => true)
      (fun _ => some (List.replicate info.erasesize 0)) (by simp)
    simp only [flashWrite, Bool.true_eq_false, or_self, if_false, if_neg (Nat.not_lt.mpr
      (by omega : buf.length ≤ info.size))] at hrun
    obtain ⟨ret, mem', hloop⟩ := @flashLoop_works info (fun _ => true)
      (fun _ => some (List.replicate info.erasesize 0)) (fun _ => rfl) buf.length buf dest 0
      ⟨mem, 0, 2⟩ (Nat.le_refl _) hend hdvd hdest
    have hbehind := flashLoop_behind buf.length hmem hend hdvd
      (fun _ => by simpa using hblock hdest hne) (by dsimp only; omega) hloop
    rw [← coincides_iff (hmem ▸ hend), ← hbehind]
    exact hright ret mem' (Option.some.inj (hrun.symm.trans hloop))
  · intro h works fresh hfresh
    unfold flashWrite
    split
    · exact ⟨none, rfl, by simp⟩
    · rw [if_neg (by omega)]
      obtain ⟨r, hloop⟩ := @flashLoop_ends info works fresh buf.length buf dest 0 ⟨mem, 0, 2⟩
        (Nat.le_refl _)
      refine ⟨r, hloop, ?_⟩
      rintro ret mem' rfl
      by_cases hright : info.erasesize ∣ buf.length → buf ≠ [] → 0 = dest
      · exact flashLoop_right hfresh buf.length hmem hend hright hloop
      · obtain ⟨hdvd, hbuf, hne⟩ : info.erasesize ∣ buf.length ∧ buf ≠ [] ∧ 0 ≠ dest := by
          simpa only [not_forall, exists_prop] using hright
        have hdest := flashLoop_aligned hbuf hdvd hloop
        have hbehind := flashLoop_behind buf.length hmem hend hdvd
          (fun _ => by simpa using hblock hdest hne.symm) (by dsimp only; omega) hloop
        rw [hbehind]
        exact (coincides_iff (hmem ▸ hend)).mpr (h hdvd hdest hne.symm)

def smallInfo : MtdInfo where
  size := 16
  erasesize := 4
  shift := 2
  power := rfl
  blocks := ⟨4, rfl⟩
  size_lt := by decide

theorem writesRight_two_blocks :
    WritesRight smallInfo (List.replicate 16 0) [1, 2, 3, 4, 5, 6] 3 := by
  refine (writesRight_iff rfl ?_).mpr fun hdvd => ?_
  · decide
  · exact absurd hdvd (by decide)

/-- One block for the second place goes to the first. -/
theorem block_written_in_front :
    ¬ ∀ (info : MtdInfo) (mem buf : List U8) (dest : Nat), mem.length = info.size →
      dest + buf.length ≤ info.size → WritesRight info mem buf dest := by
  intro hclaim
  obtain ⟨r, hrun, hright⟩ := hclaim smallInfo (List.replicate 16 0) [1, 2, 3, 4] 4 rfl (by decide)
    (fun _ => true) (fun _ => some (List.replicate 4 0)) (by simp [smallInfo])
  have hwritten : flashWrite smallInfo (fun _ => true) (fun _ => some (List.replicate 4 0))
      (List.replicate 16 0) [1, 2, 3, 4] 4 =
      some (some (4, [1, 2, 3, 4, 0xff, 0xff, 0xff, 0xff, 0, 0, 0, 0, 0, 0, 0, 0])) := by
    decide +kernel
  rw [hwritten] at hrun
  have hmem := hright _ _ (Option.some.inj hrun).symm
  exact absurd hmem (by decide)

end OpenwrtMtk.Nvram
