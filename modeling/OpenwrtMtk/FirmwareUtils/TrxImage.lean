import OpenwrtMtk.FirmwareUtils.Trx
import OpenwrtMtk.Lib.Bytes
import OpenwrtMtk.Lib.Run

/-!
# The files of a trx image

Only a file is checked against `maxlen`, and `-x` can go back into what was written. While the
position stays between the end of the last `-f` file and `maxlen`, nothing is written outside of
the buffer, and the image holds the `-f` files where its header says.
-/

namespace OpenwrtMtk.FirmwareUtils

open Toolkit
open Nvram (le32 length_le32)

set_option autoImplicit false

namespace Builder

variable (b : Builder)

def parts : Nat := if b.version2 then 4 else 3

def header : Nat := 16 + 4 * b.parts

def top : Nat := min b.maxlen (2 ^ 32 - 0x1000)

end Builder

/-- The builder, and for each `-f` file where it was put. -/
structure History where
  builder : Builder
  placed : List (Nat × List U8)

/-- The contents of a `-f` file. -/
def Opt.partition : Opt → Option (List U8)
  | .file .partition (some bytes) => some bytes
  | _ => none

def History.next (h : History) (opt : Opt) : Option History :=
  match h.builder.step opt with
  | .error _ => none
  | .ok b => some ⟨b, h.placed ++ opt.partition.toList.map fun bytes =>
      (h.builder.curLen.toNat, bytes)⟩

def History.init (memory : Memory) : History := ⟨.init memory, []⟩

def round4 (n : Nat) : Nat := if n &&& 3 = 0 then n else n + (4 - (n &&& 3))

/-- The option leaves the position in the buffer, not in the header and not in a `-f` file. -/
def Within (h : History) : Opt → Prop
  | .file kind contents =>
    (kind = .partition → h.builder.index < h.builder.parts) ∧
      ∀ bytes ∈ contents, h.builder.curLen.toNat + bytes.length < h.builder.maxlen →
        h.builder.curLen.toNat + round4 bytes.length ≤ h.builder.top
  | .maxlen (some n) _ => 0x1000 ≤ (Builder.roundedLen n).toNat →
      h.builder.curLen.toNat ≤ (Builder.roundedLen n).toNat ∧
        h.builder.fsmark.toNat ≤ (Builder.roundedLen n).toNat
  | .align (some n) => h.builder.curLen.setWidth 64 &&& (n - 1) ≠ 0 →
      h.builder.curLen.toNat + (n - (h.builder.curLen.setWidth 64 &&& (n - 1))).toNat ≤
        h.builder.top
  | .absolute (some n) => h.builder.curLen.toNat ≤ n.toNat → n.toNat ≤ h.builder.top
  | .relative (some n) =>
    if n.slt 0 then
      (h.builder.header : Int) ≤ h.builder.curLen.toNat + n.toInt ∧
        ∀ p ∈ h.placed, ((p.1 + p.2.length : Nat) : Int) ≤ h.builder.curLen.toNat + n.toInt
    else h.builder.curLen.toNat + n.toNat ≤ h.builder.top
  | _ => True

structure Placed (mem : Memory) (header cur : Nat) (placed : List (Nat × List U8)) : Prop where
  room : 16 + 4 * placed.length ≤ header
  file : ∀ k off bytes, placed[k]? = some (off, bytes) → (load32 mem (16 + 4 * k)).toNat = off ∧
    mem.read off bytes.length = bytes ∧ off + bytes.length ≤ cur ∧ (bytes = [] ∨ header ≤ off)

/-- The bytes at `offsets[k]` of the image are those of the `k`-th file. -/
def HoldsFiles (files : List (List U8)) (out : List U8) : Prop :=
  ∀ k bytes, files[k]? = some bytes →
    slice out (load32 (fun a => out.getD a 0) (16 + 4 * k)).toNat bytes.length = bytes

/-- The bin-header of version 2 is where the fourth `-f` file is, or at least in the buffer. -/
def Closes (h : History) : Prop :=
  h.builder.version2 = true →
    h.builder.index = 4 ∨ (load32 h.builder.buf 28).toNat + 32 ≤ h.builder.maxlen

structure Sound (h : History) : Prop where
  page : 0x1000 ∣ h.builder.maxlen
  pos : 0 < h.builder.maxlen
  wide : h.builder.maxlen < 2 ^ 64
  low : h.builder.header ≤ h.builder.curLen.toNat
  high : h.builder.curLen.toNat ≤ h.builder.top
  mark : h.builder.fsmark = 0 ∨ 12 ≤ h.builder.fsmark.toNat
  marked : h.builder.fsmark.toNat ≤ h.builder.maxlen
  count : h.placed.length = h.builder.index
  placed : Placed h.builder.buf h.builder.header h.builder.curLen.toNat h.placed

section Words

variable {mem mem' : Memory} {off : Nat}

theorem load32_store32 (mem : Memory) (off : Nat) (w : U32) :
    load32 (mem.store off (le32 w)) off = w := by
  have hbyte : ∀ k, k < 4 → mem.store off (le32 w) (off + k) = (le32 w).getD k 0 := by
    intro k hk
    have hin : off ≤ off + k ∧ off + k < off + (le32 w).length := by
      rw [length_le32]
      omega
    rw [Memory.store, Memory.put, if_pos hin, Nat.add_sub_cancel_left]
  have hfirst := hbyte 0 (by decide)
  rw [Nat.add_zero] at hfirst
  rw [load32, hbyte 3 (by decide), hbyte 2 (by decide), hbyte 1 (by decide), hfirst]
  change (w >>> 24).setWidth 8 ++ (w >>> 16).setWidth 8 ++ (w >>> 8).setWidth 8 ++ w.setWidth 8 = w
  exact append_bytes32 w

theorem load32_congr (h : ∀ a, off ≤ a → a < off + 4 → mem' a = mem a) :
    load32 mem' off = load32 mem off := by
  rw [load32, load32, h off (by omega) (by omega), h (off + 1) (by omega) (by omega),
    h (off + 2) (by omega) (by omega), h (off + 3) (by omega) (by omega)]

end Words

namespace Placed

variable {mem mem' : Memory} {header header' cur cur' : Nat} {placed : List (Nat × List U8)}

theorem congr (hcur : header ≤ cur) (hsame : ∀ a, 16 ≤ a → a < cur → mem' a = mem a)
    (h : Placed mem header cur placed) : Placed mem' header cur placed := by
  refine ⟨h.room, fun k off bytes hk => ?_⟩
  obtain ⟨hoff, hread, hend, hhead⟩ := h.file k off bytes hk
  have hlt : k < placed.length := (List.getElem?_eq_some_iff.mp hk).1
  have hroom := h.room
  have hbehind : ∀ a, off ≤ a → a < off + bytes.length → 16 ≤ a := by
    intro a ha ha'
    rcases hhead with rfl | hhead
    · rw [List.length_nil] at ha'
      omega
    · omega
  refine ⟨?_, ?_, hend, hhead⟩
  · rw [load32_congr fun a ha ha' => hsame a (by omega) (by omega)]
    exact hoff
  · rw [Memory.read_congr fun a ha ha' => hsame a (hbehind a ha ha') (by omega)]
    exact hread

theorem move (h : Placed mem header cur placed) (hend : ∀ p ∈ placed, p.1 + p.2.length ≤ cur') :
    Placed mem header cur' placed := by
  refine ⟨h.room, fun k off bytes hk => ?_⟩
  obtain ⟨hoff, hread, -, hhead⟩ := h.file k off bytes hk
  exact ⟨hoff, hread, hend _ (List.mem_of_getElem? hk), hhead⟩

theorem forward (h : Placed mem header cur placed) (hle : cur ≤ cur') :
    Placed mem header cur' placed := by
  apply h.move
  intro p hp
  obtain ⟨k, hk⟩ := List.getElem?_of_mem hp
  exact Nat.le_trans (h.file k p.1 p.2 hk).2.2.1 hle

theorem widen (h : Placed mem header cur placed) (hcur : cur ≤ header) (hle : header ≤ header') :
    Placed mem header' cur placed := by
  refine ⟨Nat.le_trans h.room hle, fun k off bytes hk => ?_⟩
  obtain ⟨hoff, hread, hend, hhead⟩ := h.file k off bytes hk
  refine ⟨hoff, hread, hend, Or.inl ?_⟩
  rcases hhead with hnil | hhead
  · exact hnil
  · exact List.eq_nil_of_length_eq_zero (by omega)

theorem slot (h : Placed mem header cur placed)
    (hroom : 16 + 4 * placed.length + 4 ≤ header) (w : U32) :
    Placed (mem.store (16 + 4 * placed.length) (le32 w)) header cur placed := by
  have hout : ∀ a, a < 16 + 4 * placed.length ∨ 16 + 4 * placed.length + 4 ≤ a →
      mem.store (16 + 4 * placed.length) (le32 w) a = mem a :=
    fun a ha => Memory.store_out ha
  refine ⟨h.room, fun k off bytes hk => ?_⟩
  obtain ⟨hoff, hread, hend, hhead⟩ := h.file k off bytes hk
  have hlt : k < placed.length := (List.getElem?_eq_some_iff.mp hk).1
  refine ⟨?_, ?_, hend, hhead⟩
  · rw [load32_congr fun a _ ha' => hout a (by omega)]
    exact hoff
  · rcases hhead with rfl | hhead
    · rfl
    · rw [Memory.read_congr fun a ha _ => hout a (by omega)]
      exact hread

theorem snoc {bytes : List U8} {off : Nat} (h : Placed mem header cur placed)
    (hroom : 16 + 4 * placed.length + 4 ≤ header)
    (hload : (load32 mem (16 + 4 * placed.length)).toNat = off)
    (hread : mem.read off bytes.length = bytes) (hend : off + bytes.length ≤ cur)
    (hhead : header ≤ off) : Placed mem header cur (placed ++ [(off, bytes)]) := by
  refine ⟨by rw [List.length_append, List.length_singleton]; omega, fun k off' bytes' hk => ?_⟩
  rcases Nat.lt_trichotomy k placed.length with hlt | rfl | hgt
  · rw [List.getElem?_append_left hlt] at hk
    exact h.file k off' bytes' hk
  · rw [List.getElem?_concat_length] at hk
    cases hk
    exact ⟨hload, hread, hend, Or.inr hhead⟩
  · rw [List.getElem?_eq_none (by rw [List.length_append, List.length_singleton]; omega)] at hk
    cases hk

end Placed

section Steps

variable {b b' : Builder} {h : History} {opt : Opt} {off n : Nat} {f : Nat → U8}

namespace Builder

theorem put_ok (h : n = 0 ∨ off + n ≤ b.maxlen) :
    b.put off n f = .ok { b with buf := b.buf.put off n f } := if_pos h

theorem header_le (b : Builder) : 28 ≤ b.header ∧ b.header ≤ 32 := by
  unfold header parts
  split <;> omega

theorem advance_curLen {n : BitVec 64} (h : b.curLen.toNat + n.toNat < 2 ^ 32) :
    (b.advance n).curLen.toNat = b.curLen.toNat + n.toNat := by
  have hcur : (b.curLen.setWidth 64).toNat = b.curLen.toNat := by
    rw [BitVec.toNat_setWidth]
    exact Nat.mod_eq_of_lt (by omega)
  unfold advance
  have hsum : b.curLen.toNat + n.toNat < 2 ^ 64 := by omega
  rw [BitVec.toNat_setWidth, BitVec.toNat_add, hcur, Nat.mod_eq_of_lt hsum, Nat.mod_eq_of_lt h]

def padded (b : Builder) (n : BitVec 64) : Builder :=
  advance { b with buf := b.buf.put b.curLen.toNat n.toNat fun _ => 0 } n

theorem padTo_eq {n : BitVec 64} (h : b.curLen.toNat + n.toNat ≤ b.maxlen) :
    b.padTo n = .ok (b.padded n) := by
  rw [padTo, memset, put_ok (Or.inr h)]
  rfl

theorem padded_curLen {n : BitVec 64} (h : b.curLen.toNat + n.toNat < 2 ^ 32) :
    (b.padded n).curLen.toNat = b.curLen.toNat + n.toNat := by
  unfold padded
  exact advance_curLen h

theorem padded_buf {n : BitVec 64} {a : Nat} (h : a < b.curLen.toNat) :
    (b.padded n).buf a = b.buf a := by
  change b.buf.put b.curLen.toNat n.toNat (fun _ => 0) a = b.buf a
  exact Memory.put_out (Or.inl h)

end Builder

theorem Sound.moved (hs : Sound h) (hmax : b'.maxlen = h.builder.maxlen)
    (hversion : b'.version2 = h.builder.version2) (hindex : b'.index = h.builder.index)
    (hmark : b'.fsmark = h.builder.fsmark)
    (hbuf : ∀ a, a < h.builder.curLen.toNat → b'.buf a = h.builder.buf a)
    (hcur : h.builder.curLen.toNat ≤ b'.curLen.toNat) (htop : b'.curLen.toNat ≤ h.builder.top) :
    Sound ⟨b', h.placed⟩ := by
  have hheader : b'.header = h.builder.header := by
    rw [Builder.header, Builder.parts, hversion]
    rfl
  have htop' : b'.top = h.builder.top := by rw [Builder.top, hmax]; rfl
  refine ⟨hmax ▸ hs.page, hmax ▸ hs.pos, hmax ▸ hs.wide, ?_, ?_, ?_, ?_, ?_, ?_⟩
  · dsimp only
    rw [hheader]
    exact Nat.le_trans hs.low hcur
  · dsimp only
    rw [htop']
    exact htop
  · exact hmark ▸ hs.mark
  · dsimp only
    rw [hmark, hmax]
    exact hs.marked
  · exact hs.count.trans hindex.symm
  · dsimp only
    rw [hheader]
    exact (hs.placed.congr hs.low fun a _ ha => hbuf a ha).forward hcur

def Kept (placed : List (Nat × List U8)) : Except End Builder → Prop
  | .ok b => Sound ⟨b, placed⟩
  | .error e => e = .failed

theorem Sound.top_lt (b : Builder) : b.top ≤ b.maxlen ∧ b.top + 0x1000 ≤ 2 ^ 32 := by
  unfold Builder.top
  omega

theorem Sound.padded (hs : Sound h) {n : BitVec 64}
    (hn : h.builder.curLen.toNat + n.toNat ≤ h.builder.top) :
    Sound ⟨h.builder.padded n, h.placed⟩ := by
  obtain ⟨hle, hlt⟩ := Sound.top_lt h.builder
  have hcur := @Builder.padded_curLen h.builder n (by omega)
  refine hs.moved ?_ ?_ ?_ ?_ (fun a ha => Builder.padded_buf ha) (by omega) (by omega)
  all_goals rfl

theorem Sound.padTo (hs : Sound h) {n : BitVec 64}
    (hn : h.builder.curLen.toNat + n.toNat ≤ h.builder.top) :
    Kept h.placed (h.builder.padTo n) := by
  obtain ⟨hle, hlt⟩ := Sound.top_lt h.builder
  rw [Builder.padTo_eq (by omega)]
  exact hs.padded hn

theorem Sound.v2 (hs : Sound h) : Kept h.placed (h.builder.step .v2) := by
  change Sound ⟨if h.builder.curLen = 28 then _ else h.builder, h.placed⟩
  split
  · rename_i hcur
    have hlow := hs.low
    have hhigh := hs.high
    obtain ⟨hle, hlt⟩ := Sound.top_lt h.builder
    have hcur' : h.builder.curLen.toNat = 28 := by rw [hcur]; rfl
    have hnext : (h.builder.curLen + 4).toNat = 32 := by rw [hcur]; rfl
    have hpage : 0x1000 ≤ h.builder.maxlen := Nat.le_of_dvd hs.pos hs.page
    have hold := h.builder.header_le
    refine ⟨hs.page, hs.pos, hs.wide, Nat.le_of_eq hnext.symm, ?_, hs.mark, hs.marked, hs.count, ?_⟩
    · change (h.builder.curLen + 4).toNat ≤ min h.builder.maxlen (2 ^ 32 - 0x1000)
      omega
    · have hwide : Placed h.builder.buf 32 h.builder.curLen.toNat h.placed :=
        hs.placed.widen (by omega) hold.2
      apply hwide.forward
      change h.builder.curLen.toNat ≤ (h.builder.curLen + 4).toNat
      omega
  · exact hs

theorem land_page {w : Nat} (n : BitVec w) (hw : 12 < w) :
    (n &&& 0xfff).toNat = n.toNat % 0x1000 := by
  have hmask : (0xfff : BitVec w).toNat = 2 ^ 12 - 1 := by
    have hlt : 2 ^ 12 < 2 ^ w := Nat.pow_lt_pow_right (by decide) hw
    change (BitVec.ofNat w 0xfff).toNat = _
    rw [BitVec.toNat_ofNat]
    exact Nat.mod_eq_of_lt (by omega)
  rw [BitVec.toNat_and, hmask, Nat.and_two_pow_sub_one_eq_mod]

theorem roundedLen_page (n : BitVec 64) : (Builder.roundedLen n).toNat % 0x1000 = 0 := by
  have hland := land_page n (by decide)
  unfold Builder.roundedLen
  split
  · rename_i hzero
    rw [← hland, hzero]
    rfl
  · bv_omega

theorem Sound.setMaxlen (hs : Sound h) {n : BitVec 64} {memory : Option Memory}
    (hn : Within h (.maxlen (some n) memory)) : Kept h.placed (h.builder.setMaxlen n memory) := by
  unfold Builder.setMaxlen
  split
  · rfl
  · rename_i hbig
    cases memory with
    | none => rfl
    | some memory =>
      obtain ⟨hcur, hmark⟩ := hn (Nat.le_of_not_lt hbig)
      have hhigh := hs.high
      obtain ⟨hle, hlt⟩ := Sound.top_lt h.builder
      refine ⟨Nat.dvd_of_mod_eq_zero (roundedLen_page n), ?_, BitVec.isLt _, hs.low, ?_,
        hs.mark, hmark, hs.count, ?_⟩
      · dsimp only
        omega
      · change h.builder.curLen.toNat ≤ min (Builder.roundedLen n).toNat (2 ^ 32 - 0x1000)
        omega
      · apply hs.placed.congr hs.low
        intro a _ ha
        exact if_pos (by omega)

theorem Sound.align (hs : Sound h) {n : BitVec 64} (hn : Within h (.align (some n))) :
    Kept h.placed (h.builder.step (.align (some n))) := by
  rw [Builder.step]
  split
  · exact hs
  · rename_i hlow
    exact hs.padTo (hn hlow)

theorem curLen_wide (b : Builder) : (b.curLen.setWidth 64).toNat = b.curLen.toNat := by
  rw [BitVec.toNat_setWidth]
  exact Nat.mod_eq_of_lt (by omega)

theorem Sound.absolute (hs : Sound h) {n : BitVec 64} (hn : Within h (.absolute (some n))) :
    Kept h.placed (h.builder.step (.absolute (some n))) := by
  have hwide := curLen_wide h.builder
  rw [Builder.step]
  split
  · exact hs
  · rename_i hle
    rw [BitVec.lt_def, hwide] at hle
    have htop := hn (by omega)
    apply hs.padTo
    have hsub : (n - h.builder.curLen.setWidth 64).toNat = n.toNat - h.builder.curLen.toNat := by
      rw [BitVec.toNat_sub_of_le (by rw [BitVec.le_def, hwide]; omega), hwide]
    omega

theorem Sound.relative (hs : Sound h) {n : BitVec 64} (hn : Within h (.relative (some n))) :
    Kept h.placed (h.builder.step (.relative (some n))) := by
  have hwide := curLen_wide h.builder
  have hlow := hs.low
  have hhigh := hs.high
  obtain ⟨hle, hlt⟩ := Sound.top_lt h.builder
  rw [Builder.step]
  split
  · rename_i hneg
    obtain ⟨hheader, hfiles⟩ := (if_pos hneg).mp hn
    have hold := h.builder.header_le
    have hn64 := n.isLt
    have hsign : n.toInt = (n.toNat : Int) - 2 ^ 64 := by
      rw [BitVec.slt_iff_toInt_lt, BitVec.toInt_eq_toNat_cond] at hneg
      rw [BitVec.toInt_eq_toNat_cond]
      split at hneg
      · exact absurd hneg (by simp)
      · rw [if_neg ‹_›]
        rfl
    have hback : ¬ ((h.builder.curLen.setWidth 64).slt (-n) = true) := by
      rw [BitVec.slt_iff_toInt_lt, BitVec.toInt_eq_toNat_cond, BitVec.toInt_eq_toNat_cond, hwide,
        BitVec.toNat_neg]
      omega
    have hcur : (h.builder.advance n).curLen.toNat = h.builder.curLen.toNat + n.toNat - 2 ^ 64 := by
      unfold Builder.advance
      rw [BitVec.toNat_setWidth, BitVec.toNat_add, hwide]
      omega
    rw [if_neg hback]
    refine ⟨hs.page, hs.pos, hs.wide, ?_, ?_, hs.mark, hs.marked, hs.count, ?_⟩
    · change h.builder.header ≤ (h.builder.advance n).curLen.toNat
      omega
    · change (h.builder.advance n).curLen.toNat ≤ h.builder.top
      omega
    · apply hs.placed.move
      intro p hp
      have hend := hfiles p hp
      change p.1 + p.2.length ≤ (h.builder.advance n).curLen.toNat
      omega
  · rename_i hpos
    exact hs.padTo ((if_neg hpos).mp hn)

namespace Builder

def filled (b : Builder) (bytes : List U8) : Builder :=
  let buf := (b.buf.store b.curLen.toNat bytes).put (b.curLen.toNat + bytes.length)
    (round4 bytes.length - bytes.length) fun _ => 0
  { advance { b with buf := buf } (BitVec.ofNat 64 (round4 bytes.length)) with opened := true }

theorem le_round4 (n : Nat) : n ≤ round4 n := by
  unfold round4
  split <;> omega

theorem readFile_eq {bytes : List U8} (hcur : b.curLen.toNat ≤ b.maxlen)
    (hmax : b.maxlen < 2 ^ 64) :
    b.readFile bytes =
      if b.maxlen ≤ b.curLen.toNat + bytes.length then .error .failed
      else if b.curLen.toNat + round4 bytes.length ≤ b.maxlen then .ok (b.filled bytes)
      else .error .outside := by
  have hcount : (BitVec.ofNat 64 b.maxlen - b.curLen.setWidth 64).toNat =
      b.maxlen - b.curLen.toNat := by
    have hwide := curLen_wide b
    have hlen : (BitVec.ofNat 64 b.maxlen).toNat = b.maxlen := by
      rw [BitVec.toNat_ofNat, Nat.mod_eq_of_lt hmax]
    rw [BitVec.toNat_sub_of_le (by rw [BitVec.le_def, hlen, hwide]; exact hcur), hlen, hwide]
  have hround : round4 bytes.length =
      bytes.length + if bytes.length &&& 3 = 0 then 0 else 4 - (bytes.length &&& 3) := by
    unfold round4
    split <;> rfl
  unfold readFile
  dsimp only
  rw [hcount]
  by_cases hbig : b.maxlen ≤ b.curLen.toNat + bytes.length
  · rw [if_pos hbig, if_pos (by omega)]
  · rw [if_neg hbig, if_neg (by omega), Builder.store, put_ok (Or.inr (by omega))]
    simp only [bind, Except.bind, memset, put]
    by_cases hfit : b.curLen.toNat + round4 bytes.length ≤ b.maxlen
    · rw [if_pos hfit, if_pos (Or.inr (by omega))]
      simp only [filled, hround, Nat.add_sub_cancel_left]
      rfl
    · rw [if_neg hfit, if_neg (by omega)]

theorem filled_curLen {bytes : List U8} (h : b.curLen.toNat + round4 bytes.length < 2 ^ 32) :
    (b.filled bytes).curLen.toNat = b.curLen.toNat + round4 bytes.length := by
  have hlen : (BitVec.ofNat 64 (round4 bytes.length)).toNat = round4 bytes.length := by
    rw [BitVec.toNat_ofNat, Nat.mod_eq_of_lt (by omega)]
  have hadvance := @advance_curLen { b with buf := (b.filled bytes).buf }
    (BitVec.ofNat 64 (round4 bytes.length)) (by rw [hlen]; exact h)
  rw [hlen] at hadvance
  exact hadvance

theorem filled_before {bytes : List U8} {a : Nat} (h : a < b.curLen.toNat) :
    (b.filled bytes).buf a = b.buf a := by
  change (b.buf.store b.curLen.toNat bytes).put (b.curLen.toNat + bytes.length)
    (round4 bytes.length - bytes.length) (fun _ => 0) a = b.buf a
  rw [Memory.put_out (Or.inl (by omega)), Memory.store_out (Or.inl h)]

theorem filled_read (b : Builder) (bytes : List U8) :
    (b.filled bytes).buf.read b.curLen.toNat bytes.length = bytes := by
  have hpad : (b.filled bytes).buf.read b.curLen.toNat bytes.length =
      (b.buf.store b.curLen.toNat bytes).read b.curLen.toNat bytes.length := by
    apply Memory.read_congr
    intro a _ ha
    change (b.buf.store b.curLen.toNat bytes).put (b.curLen.toNat + bytes.length)
      (round4 bytes.length - bytes.length) (fun _ => 0) a = _
    exact Memory.put_out (Or.inl ha)
  rw [hpad, Memory.read_store_self]

end Builder

theorem Sound.filled (hs : Sound h) {bytes : List U8}
    (hroom : h.builder.curLen.toNat + round4 bytes.length ≤ h.builder.top) :
    Sound ⟨h.builder.filled bytes, h.placed⟩ := by
  obtain ⟨hle, hlt⟩ := Sound.top_lt h.builder
  have hcur := @Builder.filled_curLen h.builder bytes (by omega)
  refine hs.moved ?_ ?_ ?_ ?_ (fun a ha => Builder.filled_before ha) (by omega) (by omega)
  all_goals rfl

theorem Sound.readFile (hs : Sound h) {bytes : List U8}
    (hroom : h.builder.curLen.toNat + bytes.length < h.builder.maxlen →
      h.builder.curLen.toNat + round4 bytes.length ≤ h.builder.top) :
    Kept h.placed (h.builder.readFile bytes) := by
  obtain ⟨hle, hlt⟩ := Sound.top_lt h.builder
  rw [Builder.readFile_eq (Nat.le_trans hs.high hle) hs.wide]
  split
  · rfl
  · have htop := hroom (by omega)
    rw [if_pos (by omega)]
    exact hs.filled htop

def Builder.slotted (b : Builder) : Builder :=
  { b with
    buf := b.buf.store (16 + 4 * b.index) (le32 b.curLen)
    index := b.index + 1 }

theorem Builder.store_slot (b : Builder) (h : 16 + 4 * b.index + 4 ≤ b.maxlen) :
    (do
      let b' ← b.store (16 + 4 * b.index) (le32 b.curLen)
      return { b' with index := b'.index + 1 } : Except End Builder) = .ok b.slotted := by
  rw [Builder.store, put_ok (Or.inr (by rw [length_le32]; exact h))]
  rfl

theorem Sound.partition (hs : Sound h) (hindex : h.builder.index < h.builder.parts)
    {bytes : List U8}
    (hroom : h.builder.curLen.toNat + bytes.length < h.builder.maxlen →
      h.builder.curLen.toNat + round4 bytes.length ≤ h.builder.top) :
    Kept (h.placed ++ [(h.builder.curLen.toNat, bytes)]) (h.builder.slotted.readFile bytes) := by
  obtain ⟨hle, hlt⟩ := Sound.top_lt h.builder
  have hlow := hs.low
  have hhigh := hs.high
  have hcount := hs.count
  have hslot : 16 + 4 * h.placed.length + 4 ≤ h.builder.header := by
    unfold Builder.header
    omega
  have hplaced := hs.placed.slot hslot h.builder.curLen
  have hload := load32_store32 h.builder.buf (16 + 4 * h.placed.length) h.builder.curLen
  rw [hcount] at hplaced hslot hload
  have hread : h.builder.slotted.readFile bytes =
      if h.builder.maxlen ≤ h.builder.curLen.toNat + bytes.length then .error .failed
      else if h.builder.curLen.toNat + round4 bytes.length ≤ h.builder.maxlen then
        .ok (h.builder.slotted.filled bytes)
      else .error .outside := Builder.readFile_eq (Nat.le_trans hhigh hle) hs.wide
  rw [hread]
  split
  · rfl
  · rename_i hin
    have htop := hroom (Nat.lt_of_not_le hin)
    rw [if_pos (Nat.le_trans htop hle)]
    have hcur : (h.builder.slotted.filled bytes).curLen.toNat =
        h.builder.curLen.toNat + round4 bytes.length :=
      Builder.filled_curLen (by change h.builder.curLen.toNat + _ < _; omega)
    have hround := Builder.le_round4 bytes.length
    have hbefore : ∀ a, a < h.builder.curLen.toNat → (h.builder.slotted.filled bytes).buf a =
        h.builder.buf.store (16 + 4 * h.builder.index) (le32 h.builder.curLen) a :=
      fun a ha => Builder.filled_before ha
    refine ⟨hs.page, hs.pos, hs.wide, ?_, ?_, hs.mark, hs.marked, ?_, ?_⟩
    · change h.builder.header ≤ (h.builder.slotted.filled bytes).curLen.toNat
      omega
    · change (h.builder.slotted.filled bytes).curLen.toNat ≤ h.builder.top
      omega
    · rw [List.length_append, List.length_singleton, hcount]
      rfl
    · have hkept := (hplaced.congr hlow fun a _ ha => hbefore a ha).forward
        (by omega : _ ≤ (h.builder.slotted.filled bytes).curLen.toNat)
      apply hkept.snoc
      · rw [hcount]
        exact hslot
      · rw [hcount, load32_congr fun a _ ha => hbefore a (by omega), hload]
      · exact Builder.filled_read h.builder.slotted bytes
      · omega
      · exact hlow

theorem Sound.addFile (hs : Sound h) {kind : FileKind} {contents : Option (List U8)}
    (hn : Within h (.file kind contents)) :
    Kept (h.placed ++ (Opt.file kind contents).partition.toList.map fun bytes =>
      (h.builder.curLen.toNat, bytes)) (h.builder.addFile kind contents) := by
  obtain ⟨hindex, hroom⟩ := hn
  obtain ⟨hle, hlt⟩ := Sound.top_lt h.builder
  have hlow := hs.low
  have hhigh := hs.high
  have hheader := h.builder.header_le
  have hnil : ∀ {r}, Kept h.placed r → Kept (h.placed ++ []) r := by simp
  cases kind with
  | append =>
    cases contents with
    | none => rfl
    | some bytes => exact hnil (hs.readFile (hroom bytes rfl))
  | mark =>
    cases contents with
    | none => rfl
    | some bytes =>
      have hmarked : Sound ⟨{ h.builder with fsmark := h.builder.curLen }, h.placed⟩ :=
        ⟨hs.page, hs.pos, hs.wide, hlow, hhigh, Or.inr (by dsimp only; omega),
          Nat.le_trans hhigh hle, hs.count, hs.placed⟩
      exact hnil (hmarked.readFile (hroom bytes rfl))
  | partition =>
    have hparts := hindex rfl
    have hstore := h.builder.store_slot (by
      unfold Builder.header at hlow
      omega)
    rw [Builder.addFile]
    simp only [reduceCtorEq, if_false, if_true]
    rw [hstore]
    cases contents with
    | none => rfl
    | some bytes => exact hs.partition hparts (hroom bytes rfl)

theorem Sound.step (hs : Sound h) (hn : Within h opt) :
    Kept (h.placed ++ opt.partition.toList.map fun bytes => (h.builder.curLen.toNat, bytes))
      (h.builder.step opt) := by
  have hnil : ∀ {r}, Kept h.placed r → Kept (h.placed ++ []) r := by simp
  cases opt with
  | v2 => exact hnil hs.v2
  | file kind contents => exact hs.addFile hn
  | output opens =>
    cases opens with
    | false => rfl
    | true => exact hnil hs
  | maxlen arg memory =>
    cases arg with
    | none => rfl
    | some n => exact hnil (hs.setMaxlen hn)
  | align arg =>
    cases arg with
    | none => rfl
    | some n => exact hnil (hs.align hn)
  | absolute arg =>
    cases arg with
    | none => rfl
    | some n => exact hnil (hs.absolute hn)
  | relative arg =>
    cases arg with
    | none => rfl
    | some n => exact hnil (hs.relative hn)
  | unknown => rfl

end Steps

section Runs

variable {memory : Memory} {opts : List Opt} {h : History}

end Runs

section Finish

variable {h : History} {b b' : Builder} {off : Nat} {w : U32}

theorem Builder.store_word (b : Builder) (hoff : off + 4 ≤ 16) (hmax : 16 ≤ b.maxlen) (w : U32) :
    b.store off (le32 w) = .ok { b with buf := b.buf.store off (le32 w) } :=
  Builder.put_ok (Or.inr (by rw [length_le32]; omega))

theorem Sound.headed (hs : Sound h) {buf : Memory}
    (hbuf : ∀ a, 16 ≤ a → a < h.builder.curLen.toNat → buf a = h.builder.buf a) :
    Sound ⟨{ h.builder with buf := buf }, h.placed⟩ :=
  ⟨hs.page, hs.pos, hs.wide, hs.low, hs.high, hs.mark, hs.marked, hs.count,
    hs.placed.congr hs.low hbuf⟩

theorem Sound.maxlen_ge (hs : Sound h) : 0x1000 ≤ h.builder.maxlen := Nat.le_of_dvd hs.pos hs.page

theorem Sound.covered (hs : Sound h) :
    12 ≤ h.builder.covered.toNat ∧ h.builder.covered.toNat ≤ h.builder.maxlen := by
  have hold := h.builder.header_le
  have hlow := hs.low
  have hhigh := hs.high
  obtain ⟨hle, hlt⟩ := Sound.top_lt h.builder
  unfold Builder.covered
  split
  · omega
  · rename_i hne
    exact ⟨hs.mark.resolve_left hne, hs.marked⟩

theorem Sound.padPage (hs : Sound h) : ∃ b', h.builder.padPage = .ok b' ∧ Sound ⟨b', h.placed⟩ ∧
    b'.version2 = h.builder.version2 ∧ b'.maxlen = h.builder.maxlen ∧
    h.builder.curLen.toNat ≤ b'.curLen.toNat ∧
    ∀ a, a < h.builder.curLen.toNat → b'.buf a = h.builder.buf a := by
  have hland := land_page h.builder.curLen (by decide)
  unfold Builder.padPage
  dsimp only
  split
  · exact ⟨h.builder, rfl, hs, rfl, rfl, Nat.le_refl _, fun _ _ => rfl⟩
  · rename_i hne
    have hn : ((0x1000 - (h.builder.curLen &&& 0xfff)).setWidth 64).toNat =
        0x1000 - h.builder.curLen.toNat % 0x1000 := by
      rw [BitVec.toNat_setWidth]
      bv_omega
    obtain ⟨hle, hlt⟩ := Sound.top_lt h.builder
    have hhigh := hs.high
    have hpages := Nat.mod_eq_zero_of_dvd hs.page
    have hroom : h.builder.curLen.toNat +
        ((0x1000 - (h.builder.curLen &&& 0xfff)).setWidth 64).toNat ≤ h.builder.top := by
      have hzero : h.builder.curLen.toNat % 0x1000 ≠ 0 := by
        intro hzero
        exact hne (BitVec.eq_of_toNat_eq (hland.trans hzero))
      unfold Builder.top at hhigh ⊢
      omega
    refine ⟨_, Builder.padTo_eq (Nat.le_trans hroom hle), hs.padded hroom, rfl, rfl, ?_,
      fun a ha => Builder.padded_buf ha⟩
    rw [Builder.padded_curLen (by omega)]
    omega

def Builder.stamped (b : Builder) : Builder :=
  let crc := (b.buf.read 12 (b.covered.toNat - 12)).foldl Nvram.crcByte 0xffffffff
  { b with buf := (b.buf.store 8 (le32 crc)).store 4 (le32 b.covered) }

theorem Builder.stamp_eq (hlow : 12 ≤ b.covered.toNat) (hhigh : b.covered.toNat ≤ b.maxlen)
    (hmax : 16 ≤ b.maxlen) : b.stamp = .ok b.stamped := by
  rw [Builder.stamp, Builder.checksum, if_neg (by omega)]
  simp only [bind, Except.bind]
  rw [b.store_word (by decide : 8 + 4 ≤ 16) hmax]
  dsimp only
  rw [Builder.store_word _ (by decide : 4 + 4 ≤ 16) (by exact hmax)]
  rfl

theorem Builder.stamped_buf (b : Builder) {a : Nat} (ha : 16 ≤ a) : b.stamped.buf a = b.buf a := by
  unfold Builder.stamped
  dsimp only
  rw [Memory.store_out (by rw [length_le32]; omega), Memory.store_out (by rw [length_le32]; omega)]

theorem Builder.stampV2_buf (hlow : 12 ≤ b.covered.toNat) (hhigh : b.covered.toNat ≤ b.maxlen)
    (hmax : 16 ≤ b.maxlen) (hbin : (load32 b.buf 28).toNat + 32 ≤ b.maxlen)
    (hlen : ¬ b.curLen - load32 b.buf 28 < 32) :
    ∃ buf, b.stampV2 = .ok { b with buf := buf } ∧ ∀ a, 16 ≤ a → buf a = b.buf a := by
  have hflags : b.memset ((load32 b.buf 28).toNat + 22) 0xff 8 =
      .ok { b with buf := b.buf.put ((load32 b.buf 28).toNat + 22) 8 fun _ => 0xff } :=
    Builder.put_ok (Or.inr (by omega))
  unfold Builder.stampV2
  dsimp only
  have hstamp : Builder.stamp
      { b with buf := b.buf.put ((load32 b.buf 28).toNat + 22) 8 fun _ => 0xff } =
        .ok (Builder.stamped
          { b with buf := b.buf.put ((load32 b.buf 28).toNat + 22) 8 fun _ => 0xff }) :=
    Builder.stamp_eq hlow hhigh hmax
  have hrestore : (load32 b.buf 28).toNat +
      (b.buf.read (load32 b.buf 28).toNat 32).length ≤ b.maxlen := by
    rw [Memory.length_read]
    exact hbin
  rw [if_neg hlen, if_neg (by omega), hflags]
  simp only [bind, Except.bind]
  rw [hstamp]
  refine ⟨_, Builder.put_ok (Or.inr hrestore), fun a ha => ?_⟩
  apply Memory.store_read
  by_cases hflag : (load32 b.buf 28).toNat ≤ a ∧ a < (load32 b.buf 28).toNat + 32
  · exact Or.inr hflag
  · rw [Builder.stamped_buf _ ha]
    left
    dsimp only
    rw [Memory.put_out (by omega)]

def Wrote (files : List (List U8)) : Except End (List U8) → Prop
  | .ok out => HoldsFiles files out
  | .error e => e = .failed

theorem Placed.holds {mem : Memory} {header cur : Nat} {placed : List (Nat × List U8)}
    (hplaced : Placed mem header cur placed) (hle : header ≤ cur) :
    HoldsFiles (placed.map Prod.snd) (mem.read 0 cur) := by
  intro k bytes hk
  rw [List.getElem?_map] at hk
  obtain ⟨⟨off, bytes'⟩, hplace, rfl⟩ := Option.map_eq_some_iff.mp hk
  obtain ⟨hoff, hread, hend, -⟩ := hplaced.file k off bytes' hplace
  have hlt : k < placed.length := (List.getElem?_eq_some_iff.mp hplace).1
  have hroom := hplaced.room
  have hload : load32 (fun a => (mem.read 0 cur).getD a 0) (16 + 4 * k) =
      load32 mem (16 + 4 * k) := by
    apply load32_congr
    intro a _ ha
    rw [Memory.getD_read (by omega), Nat.zero_add]
  dsimp only
  rw [hload, hoff, Memory.slice_read hend, Nat.zero_add, hread]

theorem Sound.write (hs : Sound h) : Wrote (h.placed.map Prod.snd) h.builder.write := by
  have hhigh := hs.high
  obtain ⟨hle, hlt⟩ := Sound.top_lt h.builder
  unfold Builder.write
  split
  · rfl
  · rw [if_neg (by omega)]
    exact hs.placed.holds hs.low

theorem Sound.stamp (hs : Sound h) :
    Wrote (h.placed.map Prod.snd) (h.builder.stamp >>= Builder.write) := by
  obtain ⟨hlow, hhigh⟩ := hs.covered
  have hmax := hs.maxlen_ge
  rw [Builder.stamp_eq hlow hhigh (by omega)]
  exact (hs.headed fun a ha _ => Builder.stamped_buf h.builder ha).write

theorem Sound.stampV2 (hs : Sound h)
    (hbin : ¬ h.builder.curLen - load32 h.builder.buf 28 < 32 →
      (load32 h.builder.buf 28).toNat + 32 ≤ h.builder.maxlen) :
    Wrote (h.placed.map Prod.snd) (h.builder.stampV2 >>= Builder.write) := by
  obtain ⟨hlow, hhigh⟩ := hs.covered
  have hmax := hs.maxlen_ge
  by_cases hlen : h.builder.curLen - load32 h.builder.buf 28 < 32
  · rw [Builder.stampV2]
    dsimp only
    rw [if_pos hlen]
    rfl
  · obtain ⟨buf, hstamp, hbuf⟩ :=
      Builder.stampV2_buf hlow hhigh (by omega) (hbin hlen) hlen
    rw [hstamp]
    exact (hs.headed fun a ha _ => hbuf a ha).write

theorem Sound.binheader (hs : Sound h)
    (hclose : h.builder.index = 4 ∨ (load32 h.builder.buf 28).toNat + 32 ≤ h.builder.maxlen)
    (hlen : ¬ h.builder.curLen - load32 h.builder.buf 28 < 32) :
    (load32 h.builder.buf 28).toNat + 32 ≤ h.builder.maxlen := by
  refine hclose.elim (fun hfour => ?_) id
  have hcount := hs.count
  have hlast : 3 < h.placed.length := by omega
  obtain ⟨hoff, -, hend, -⟩ := hs.placed.file 3 _ _ (List.getElem?_eq_getElem hlast)
  have hword : (load32 h.builder.buf 28).toNat ≤ h.builder.curLen.toNat := by
    rw [show 28 = 16 + 4 * 3 from rfl, hoff]
    omega
  have hhigh := hs.high
  obtain ⟨hle, hlt⟩ := Sound.top_lt h.builder
  bv_omega

theorem Sound.finish (hs : Sound h) (hclose : Closes h) :
    Wrote (h.placed.map Prod.snd) h.builder.finish := by
  have hmax := hs.maxlen_ge
  have hlow := hs.low
  have hheader := h.builder.header_le
  rw [Builder.finish, Builder.store_word _ (by decide : 12 + 4 ≤ 16) (by omega)]
  generalize hword : (if h.builder.version2 = true then 0x20000 else 0x10000 : U32) = word
  have hbuf : ∀ a, 16 ≤ a → h.builder.buf.store 12 (le32 word) a = h.builder.buf a :=
    fun a ha => Memory.store_out (Or.inr (by rw [length_le32]; omega))
  have hversioned := hs.headed fun a ha _ => hbuf a ha
  obtain ⟨b, hpad, hs', hv, hm, hcur, hsame⟩ := hversioned.padPage
  dsimp only at hpad hv hm hcur hsame
  simp only [bind, Except.bind]
  split
  · rfl
  rw [hpad]
  dsimp only
  by_cases hversion : b.version2 = true
  · rw [if_pos hversion]
    apply hs'.stampV2
    intro hlen
    apply hs'.binheader
    · rw [hv] at hversion
      have hclosed := hclose hversion
      have hfour : 32 ≤ h.builder.curLen.toNat := by
        rw [Builder.header, Builder.parts, if_pos hversion] at hlow
        exact hlow
      have hoffset : load32 b.buf 28 = load32 h.builder.buf 28 := by
        apply load32_congr
        intro a ha ha'
        rw [hsame a (by omega), hbuf a (by omega)]
      have hindex : b.index = h.builder.index := hs'.count.symm.trans hs.count
      dsimp only
      rw [hindex, hoffset, hm]
      exact hclosed
    · exact hlen
  · rw [if_neg hversion]
    exact hs'.stamp

end Finish

end OpenwrtMtk.FirmwareUtils
