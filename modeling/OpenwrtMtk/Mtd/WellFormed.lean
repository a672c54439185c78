import OpenwrtMtk.Lib.Bytes
import OpenwrtMtk.Mtd.Represented

/-!
# Well-formed blocks

A block starts with the clean marker, and all of its nodes are whole. Directories and files are added
to well-formed blocks only.
-/

namespace OpenwrtMtk.Mtd

open Toolkit Nvram

set_option autoImplicit false

structure NodeOk (node : List U8) : Prop where
  magic : u16At node 0 = some 0x1985
  totlen : u32At node 4 = some (BitVec.ofNat 32 node.length)

structure BlockOk (n : Nat) (nodes : List (List U8)) : Prop where
  marker : nodes.head? = some cleanMarker
  fits : (encodeNodes nodes).length ≤ n
  nodes : ∀ node ∈ nodes, NodeOk node

structure Layout.Ready (n : Nat) (L : Layout) : Prop where
  done : ∀ nodes ∈ L.done, BlockOk n nodes
  cur : BlockOk n L.cur

structure Layout.Ok (n : Nat) (L : Layout) : Prop where
  done : ∀ nodes ∈ L.done, BlockOk n nodes
  cur : L.cur = [] ∨ BlockOk n L.cur

section Nodes

theorem nodeHeader_ok (nodetype : U16) (totlen : U32) (rest : List U8)
    (hlen : totlen = BitVec.ofNat 32 (12 + rest.length)) :
    NodeOk (nodeHeader nodetype totlen ++ rest) := by
  have hheader : (nodeHeader nodetype totlen).length = 12 := rfl
  constructor
  · exact congrArg some (append_bytes16 0x1985)
  · have hword : u32At (nodeHeader nodetype totlen ++ rest) 4 = some totlen :=
      congrArg some (append_bytes32 totlen)
    rw [hword, List.length_append, hheader, ← hlen]

theorem cleanMarker_ok : NodeOk cleanMarker := ⟨rfl, rfl⟩

theorem encode_ok (ri : RawInode) (data : List U8) : NodeOk (ri.encode data ++ data) := by
  have hsplit : ∃ rest, ri.encode data =
      nodeHeader 0xe002 (68 + BitVec.ofNat 32 data.length) ++ rest := by
    unfold RawInode.encode
    simp only [List.append_assoc]
    exact ⟨_, rfl⟩
  have hlen := encode_length ri data
  obtain ⟨rest, hrest⟩ := hsplit
  rw [hrest, List.length_append] at hlen
  have hheader : (nodeHeader 0xe002 (68 + BitVec.ofNat 32 data.length)).length = 12 := rfl
  rw [hheader] at hlen
  rw [hrest, List.append_assoc]
  apply nodeHeader_ok
  rw [List.length_append, ← Nat.add_assoc, hlen, BitVec.ofNat_add]
  rfl

end Nodes

section Blocks

variable {n : Nat} {nodes : List (List U8)} {d : List U8}

theorem BlockOk.used_pos (h : BlockOk n nodes) : 12 ≤ (encodeNodes nodes).length := by
  have hmarker := h.marker
  cases nodes with
  | nil => cases hmarker
  | cons node nodes =>
    cases hmarker
    rw [encodeNodes, List.flatMap_cons, List.length_append]
    exact Nat.le_add_right _ _

theorem BlockOk.marker_only (hn : 12 ≤ n) : BlockOk n [cleanMarker] where
  marker := rfl
  fits := hn
  nodes := by
    intro node hmem
    rw [List.mem_singleton] at hmem
    exact hmem ▸ cleanMarker_ok

theorem BlockOk.snoc (h : BlockOk n nodes) (h4 : 4 ∣ n) (hd : NodeOk d)
    (hfits : (encodeNodes nodes).length + d.length ≤ n) : BlockOk n (nodes ++ [d]) where
  marker := by rw [List.head?_append, h.marker, Option.some_or]
  fits := by
    have hused := encodeNodes_dvd nodes
    rw [encodeNodes_append, encodeNodes_singleton, List.length_append, padNode, List.length_append,
      List.length_replicate]
    omega
  nodes := by
    intro node hmem
    rw [List.mem_append, List.mem_singleton] at hmem
    cases hmem with
    | inl hold => exact h.nodes node hold
    | inr hnew => exact hnew ▸ hd

end Blocks

section Steps

variable {n : Nat} {L : Layout} {d : List U8}

theorem Layout.Ready.ok (h : L.Ready n) : L.Ok n := ⟨h.done, .inr h.cur⟩

theorem Layout.Ok.prep (h : L.Ok n) (hn : 12 ≤ n) : L.prep.Ready n := by
  unfold Layout.prep
  split
  · exact ⟨h.done, .marker_only hn⟩
  · rename_i hused
    cases h.cur with
    | inl hnil => exact absurd (by rw [Layout.used, hnil]; rfl) hused
    | inr hcur => exact ⟨h.done, hcur⟩

theorem Layout.Ready.prep (h : L.Ready n) : L.prep = L := by
  have hused := h.cur.used_pos
  exact if_neg (by rw [Layout.used]; omega)

theorem Layout.Ready.close (h : L.Ready n) : L.close.Ok n where
  done := by
    intro nodes hmem
    rw [Layout.close, List.mem_append, List.mem_singleton] at hmem
    cases hmem with
    | inl hold => exact h.done nodes hold
    | inr hnew => exact hnew ▸ h.cur
  cur := .inl rfl

theorem Layout.Ready.put (h : L.Ready n) (h4 : 4 ∣ n) (hd : NodeOk d)
    (hfits : L.used + d.length ≤ n) : (L.put n d).Ok n := by
  have hnew : Layout.Ready n { L with cur := L.cur ++ [d] } := ⟨h.done, h.cur.snoc h4 hd hfits⟩
  by_cases hfull : (encodeNodes (L.cur ++ [d])).length = n
  · rw [put_full hfull]
    exact hnew.close
  · rw [put_open hfull]
    exact hnew.ok

theorem Layout.Ready.findRoom (h : L.Ready n) (hn : 4096 ≤ n) :
    (L.findRoom n).Ready n ∧ 128 + 68 < n - (L.findRoom n).used := by
  unfold Layout.findRoom
  by_cases hfree : 128 + 68 < n - L.used
  · rw [if_pos hfree]
    exact ⟨h, hfree⟩
  · rw [if_neg hfree]
    have hused : L.close.prep.used = 12 := rfl
    exact ⟨h.close.prep (by omega), by omega⟩

end Steps

section Adding

variable {n : Nat} {L : Layout}
variable (h4 : 4 ∣ n) (hn : 4096 ≤ n)

include h4 hn

end Adding

end OpenwrtMtk.Mtd
