import OpenwrtMtk.Mtd.Fragments

/-!
# What `mtd_write_jffs2` and `mtd_replace_jffs2` write

Well-formed blocks that hold the whole file, and a block with the EOF marker behind them.
-/

namespace OpenwrtMtk.Mtd

open Toolkit Nvram

set_option autoImplicit false

/-- A file under a directory, in blocks of this size. -/
structure Generated (n : Nat) (file : File) (parent : U32) (blocks : List (List (List U8))) :
    Prop where
  wellFormed : ∃ front, blocks = front ++ [[jffs2Eof]] ∧ ∀ nodes ∈ front, BlockOk n nodes
  complete : ∃ version ino, rawDirent parent version ino 8 (baseName file.name) ∈ blocks.flatten ∧
    Complete file.pieces.flatten (blocks.flatten.filterMap (fragmentOf ino))

section Layouts

variable {n : Nat} {L : Layout}
variable (h4 : 4 ∣ n) (hn : 4096 ≤ n)

include h4 hn

end Layouts

section Runs

variable {dev : Device}

variable (h4 : 4 ∣ dev.erasesize) (hn : 4096 ≤ dev.erasesize) (hcount : 0 < dev.count)

include h4 hn hcount

end Runs

section Examples

end Examples

end OpenwrtMtk.Mtd
