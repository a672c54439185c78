import OpenwrtMtk.Mtd.Layout

/-!
# The buffer holds the nodes of one block

The functions of `jffs2.c` do to the buffer and to the written blocks what is done to the nodes, as
long as there are good blocks to write to.
-/

namespace OpenwrtMtk.Mtd

open Toolkit Nvram

set_option autoImplicit false

def Behind (dev : Device) (start written mtdofs : Nat) : Prop :=
  ∃ a ≤ dev.count, mtdofs = dev.erasesize * a ∧ dev.goodFrom a = (dev.goodFrom start).drop written

/-- The buffer and the written blocks are made of these nodes. -/
structure Represents (dev : Device) (start : Nat) (s : Jffs2) (L : Layout) : Prop where
  length : s.buf.length = dev.erasesize
  ofs : s.ofs = L.used
  ofs_lt : s.ofs < dev.erasesize
  buf : s.buf.take s.ofs = encodeNodes L.cur
  out : s.out = L.done.map (blockBytes dev.erasesize)
  behind : Behind dev start L.done.length s.mtdofs
  lastIno : s.lastIno = L.lastIno
  lastVersion : s.lastVersion = L.lastVersion

section Flush

variable {dev : Device} {start : Nat}

theorem skipBadBlocks_eq {turns a g : Nat} {gs : List Nat} {s : Jffs2}
    (hturns : dev.count ≤ turns + a) (hgood : dev.goodFrom a = g :: gs)
    (hs : s.mtdofs = dev.erasesize * a) :
    ∃ pos, skipBadBlocks dev turns s = some { s with mtdofs := dev.erasesize * g, pos } := by
  have hin : a < dev.count := by
    by_contra hout
    rw [goodFrom_end (Nat.not_lt.mp hout)] at hgood
    cases hgood
  induction turns generalizing a s with
  | zero => omega
  | succ turns ih =>
    rw [skipBadBlocks, hs, blockIsBad_block hin]
    rw [goodFrom_step hin] at hgood
    cases hb : dev.bad a with
    | true =>
      rw [hb, if_pos rfl] at hgood
      have hin' : a + 1 < dev.count := by
        by_contra hout
        rw [goodFrom_end (Nat.not_lt.mp hout)] at hgood
        cases hgood
      have hnext : (decide (dev.erasesize * a < dev.mtdsize)) = true :=
        decide_eq_true ((offset_lt dev).mpr hin)
      dsimp only [Option.bind_eq_bind, Option.bind_some]
      rw [hnext, Bool.and_self, if_pos rfl]
      exact ih (by omega) hgood rfl hin'
    | false =>
      rw [hb, if_neg Bool.false_ne_true] at hgood
      cases hgood
      exact ⟨s.pos, by rw [← hs]; rfl⟩

theorem flush_eq {s : Jffs2} {written : Nat} (hbehind : Behind dev start written s.mtdofs)
    (hroom : written < (dev.goodFrom start).length) :
    ∃ mem pos mtdofs, flush dev s = some { s with mem, pos, mtdofs, out := s.out ++ [s.buf] } ∧
      Behind dev start (written + 1) mtdofs := by
  obtain ⟨a, ha, hs, hrest⟩ := hbehind
  have hdrop : (dev.goodFrom start).drop written =
      (dev.goodFrom start)[written] :: (dev.goodFrom start).drop (written + 1) :=
    List.drop_eq_getElem_cons hroom
  rw [hdrop] at hrest
  generalize (dev.goodFrom start)[written] = g at hrest
  have hturns : dev.count ≤ dev.count + 1 + a := by omega
  obtain ⟨pos, hskip⟩ := skipBadBlocks_eq hturns hrest hs
  have hg := mem_goodFrom.mp (hrest ▸ List.mem_cons_self : g ∈ dev.goodFrom a)
  rw [flush, hskip]
  exact ⟨_, _, _, rfl, g + 1, hg.2.1, Nat.mul_succ _ _, (goodFrom_tail hrest).symm⟩

end Flush

section Pad

variable {dev : Device} {start : Nat} {s : Jffs2} {L : Layout}

theorem take_overwrite {buf : List U8} {ofs : Nat} {data : List U8}
    (h : ofs + data.length ≤ buf.length) :
    (overwrite buf ofs data).take (ofs + data.length) = buf.take ofs ++ data := by
  rw [overwrite]
  apply List.take_left'
  rw [List.length_append, List.length_take]
  omega

/-- What is in the buffer after some bytes have been put behind the nodes. -/
structure Filled (dev : Device) (start : Nat) (s : Jffs2) (L : Layout) (bytes : List U8) : Prop where
  length : s.buf.length = dev.erasesize
  ofs : s.ofs = bytes.length
  buf : s.buf.take s.ofs = bytes
  out : s.out = L.done.map (blockBytes dev.erasesize)
  behind : Behind dev start L.done.length s.mtdofs
  lastIno : s.lastIno = L.lastIno
  lastVersion : s.lastVersion = L.lastVersion

theorem Represents.filled (h : Represents dev start s L) :
    Filled dev start s L (encodeNodes L.cur) where
  length := h.length
  ofs := h.ofs
  buf := h.buf
  out := h.out
  behind := h.behind
  lastIno := h.lastIno
  lastVersion := h.lastVersion

theorem Filled.put {bytes : List U8} (h : Filled dev start s L bytes) (data : List U8)
    (hfits : bytes.length + data.length ≤ dev.erasesize) :
    ∃ s', putBytes s data = some s' ∧ Filled dev start s' L (bytes ++ data) := by
  have hroom : s.ofs + data.length ≤ s.buf.length := by
    rw [h.ofs, h.length]
    exact hfits
  refine ⟨_, if_pos hroom, ?_⟩
  constructor
  · exact (length_overwrite hroom).trans h.length
  · rw [List.length_append, ← h.ofs]
  · dsimp only
    rw [take_overwrite hroom, h.buf]
  · exact h.out
  · exact h.behind
  · exact h.lastIno
  · exact h.lastVersion

theorem Filled.represents {nodes : List (List U8)} (h : Filled dev start s L (encodeNodes nodes))
    (hlt : (encodeNodes nodes).length < dev.erasesize) :
    Represents dev start s { L with cur := nodes } where
  length := h.length
  ofs := h.ofs
  ofs_lt := h.ofs ▸ hlt
  buf := h.buf
  out := h.out
  behind := h.behind
  lastIno := h.lastIno
  lastVersion := h.lastVersion

theorem Filled.flush {nodes : List (List U8)}
    (h : Filled dev start s L (blockBytes dev.erasesize nodes))
    (hlen : (encodeNodes nodes).length ≤ dev.erasesize)
    (hroom : L.done.length < (dev.goodFrom start).length) :
    ∃ s', Mtd.flush dev { s with ofs := s.ofs % dev.erasesize } = some s' ∧
      Represents dev start s' { L with cur := nodes }.close := by
  have hfull : s.ofs = dev.erasesize := h.ofs.trans (blockBytes_length hlen)
  have hbuf : s.buf = blockBytes dev.erasesize nodes := by
    rw [← h.buf, hfull, List.take_of_length_le (Nat.le_of_eq h.length)]
  have hwrap : s.ofs % dev.erasesize = 0 := by rw [hfull, Nat.mod_self]
  have hbehind : Behind dev start L.done.length { s with ofs := s.ofs % dev.erasesize }.mtdofs :=
    h.behind
  obtain ⟨mem, pos, mtdofs, hflush, hnext⟩ := flush_eq hbehind hroom
  refine ⟨_, hflush, ?_⟩
  constructor
  · exact h.length
  · exact hwrap
  · exact Nat.lt_of_le_of_lt (Nat.le_of_eq hwrap) dev.erasesize_pos
  · dsimp only
    rw [hwrap]
    rfl
  · dsimp only [Layout.close]
    rw [h.out, hbuf, List.map_append, List.map_singleton]
  · rw [Layout.close, List.length_append]
    exact hnext
  · exact h.lastIno
  · exact h.lastVersion

end Pad

end OpenwrtMtk.Mtd
