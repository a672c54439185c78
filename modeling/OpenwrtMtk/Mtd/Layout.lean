import OpenwrtMtk.Mtd.Blocks
import OpenwrtMtk.Mtd.Jffs2

/-!
# Nodes in erase blocks

What the functions of `jffs2.c` do to the nodes: the blocks that are full, and the nodes of the one
that is being filled.
-/

namespace OpenwrtMtk.Mtd

open Toolkit Nvram

set_option autoImplicit false

def padNode (d : List U8) : List U8 := d ++ List.replicate ((4 - d.length % 4) % 4) 0xff

def encodeNodes (nodes : List (List U8)) : List U8 := nodes.flatMap padNode

def blockBytes (n : Nat) (nodes : List (List U8)) : List U8 :=
  encodeNodes nodes ++ List.replicate (n - (encodeNodes nodes).length) 0xff

structure Layout where
  done : List (List (List U8))
  cur : List (List U8)
  lastIno : U32
  lastVersion : U32

namespace Layout

def used (L : Layout) : Nat := (encodeNodes L.cur).length

def prep (L : Layout) : Layout := if L.used = 0 then { L with cur := [cleanMarker] } else L

def close (L : Layout) : Layout := { L with done := L.done ++ [L.cur], cur := [] }

def put (n : Nat) (L : Layout) (d : List U8) : Layout :=
  let L' := { L with cur := L.cur ++ [d] }
  if L'.used = n then L'.close else L'

def addDirent (n : Nat) (L : Layout) (name : List U8) (type : U8) (parent : U32) : Layout :=
  put n { L.prep with lastIno := L.lastIno + 1 + 1, lastVersion := L.lastVersion + 1 }
    (rawDirent parent L.lastVersion (L.lastIno + 1) type name)

def findRoom (n : Nat) (L : Layout) : Layout := if 128 + 68 < n - L.used then L else L.close.prep

def addFileLoop (n : Nat) (ri : RawInode) : Nat → Layout → Nat → List (List U8) → Layout
  | 0, L, _, _ => L
  | turns + 1, L, fOffset, pieces =>
    let L := L.findRoom n
    let (data, pieces) := readImage (min (n - L.used - 68) 4096) pieces
    if data = [] then L
    else
      let version := L.lastVersion + 1
      let node := { ri with version, offset := BitVec.ofNat 32 fOffset }
      addFileLoop n ri turns (put n { L with lastVersion := version } (node.encode data ++ data)).prep
        (fOffset + data.length) pieces

def addFile (n : Nat) (L : Layout) (file : File) (parent : U32) : Layout :=
  addFileLoop n ⟨L.lastIno + 1, 0, file.mode, file.size, file.atime, file.mtime, file.ctime, 0⟩
    (file.pieces.flatten.length + 1) (L.addDirent n (baseName file.name) 8 parent) 0 file.pieces

end Layout

section Lengths

theorem padNode_length (d : List U8) : 4 ∣ (padNode d).length := by
  rw [padNode, List.length_append, List.length_replicate]
  omega

theorem encodeNodes_append (xs ys : List (List U8)) :
    encodeNodes (xs ++ ys) = encodeNodes xs ++ encodeNodes ys := List.flatMap_append

theorem encodeNodes_singleton (d : List U8) : encodeNodes [d] = padNode d := List.flatMap_singleton _ _

theorem encodeNodes_dvd (nodes : List (List U8)) : 4 ∣ (encodeNodes nodes).length := by
  induction nodes with
  | nil => exact Nat.dvd_zero 4
  | cons d nodes ih =>
    rw [encodeNodes, List.flatMap_cons, List.length_append]
    exact Nat.dvd_add (padNode_length d) ih

theorem blockBytes_length {n : Nat} {nodes : List (List U8)} (h : (encodeNodes nodes).length ≤ n) :
    (blockBytes n nodes).length = n := by
  rw [blockBytes, List.length_append, List.length_replicate]
  omega

end Lengths

section Put

variable {n : Nat} {L : Layout} {d : List U8}

theorem put_full (h : (encodeNodes (L.cur ++ [d])).length = n) :
    L.put n d = { L with cur := L.cur ++ [d] }.close := if_pos h

theorem put_open (h : (encodeNodes (L.cur ++ [d])).length ≠ n) :
    L.put n d = { L with cur := L.cur ++ [d] } := if_neg h

end Put

section Growth

variable (n : Nat) (L : Layout)

end Growth

end OpenwrtMtk.Mtd
