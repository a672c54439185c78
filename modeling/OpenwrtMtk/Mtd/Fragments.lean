import OpenwrtMtk.Mtd.WellFormed

/-!
# The data of a file

What the inode nodes of a file say: a version, an offset and data. Adding a file puts its content
there, piece by piece.
-/

namespace OpenwrtMtk.Mtd

open Toolkit Nvram

set_option autoImplicit false

structure Fragment where
  version : U32
  offset : U32
  data : List U8

/-- The fragment in a node, if it is an inode node of this file. -/
def fragmentOf (ino : U32) (node : List U8) : Option Fragment := do
  let nodetype ← u16At node 2
  let nodeIno ← u32At node 12
  if nodetype = 0xe002 ∧ nodeIno = ino then
    let version ← u32At node 16
    let offset ← u32At node 44
    let dsize ← u32At node 52
    some ⟨version, offset, (node.drop 68).take dsize.toNat⟩
  else none

def Follows : U32 → Nat → List Fragment → Prop
  | _, _, [] => True
  | version, offset, frag :: frags =>
    frag.version = version + 1 ∧ frag.offset = BitVec.ofNat 32 offset ∧ frag.data ≠ [] ∧
      Follows frag.version (offset + frag.data.length) frags

/-- In the order in which they are written, the fragments make up the content. -/
structure Complete (content : List U8) (frags : List Fragment) : Prop where
  content : (frags.map Fragment.data).flatten = content
  offsets : ∀ front frag back, frags = front ++ frag :: back →
    frag.offset.toNat = (front.map Fragment.data).flatten.length
  ordered : frags.Pairwise fun a b =>
    a.version.toNat < b.version.toNat ∧ a.offset.toNat < b.offset.toNat

section Decoding

end Decoding

section Order

theorem follows_offsets {version : U32} {offset : Nat} {frags front back : List Fragment}
    {frag : Fragment} (h : Follows version offset frags) (hfrags : frags = front ++ frag :: back) :
    frag.offset = BitVec.ofNat 32 (offset + (front.map Fragment.data).flatten.length) := by
  induction front generalizing version offset frags with
  | nil =>
    subst hfrags
    exact h.2.1
  | cons first front ih =>
    subst hfrags
    rw [ih h.2.2.2 rfl, List.map_cons, List.flatten_cons, List.length_append, Nat.add_assoc]

theorem follows_above {version : U32} {offset : Nat} {frags : List Fragment}
    (h : Follows version offset frags)
    (hversion : version.toNat + (frags.map Fragment.data).flatten.length < 2 ^ 32)
    (hoffset : offset + (frags.map Fragment.data).flatten.length < 2 ^ 32) :
    ∀ frag ∈ frags, version.toNat < frag.version.toNat ∧ offset ≤ frag.offset.toNat := by
  induction frags generalizing version offset with
  | nil => exact fun frag hmem => absurd hmem List.not_mem_nil
  | cons first frags ih =>
    obtain ⟨hfirst, hofs, hne, hrest⟩ := h
    have hpos := List.length_pos_of_ne_nil hne
    rw [List.map_cons, List.flatten_cons, List.length_append] at hversion hoffset
    have hone : (1 : U32).toNat = 1 := rfl
    have hnext : first.version.toNat = version.toNat + 1 := by
      rw [hfirst, BitVec.toNat_add, hone, Nat.mod_eq_of_lt (by omega)]
    have hstart : first.offset.toNat = offset := by
      rw [hofs, BitVec.toNat_ofNat, Nat.mod_eq_of_lt (by omega)]
    intro frag hmem
    cases List.mem_cons.mp hmem with
    | inl heq =>
      subst heq
      omega
    | inr hlater =>
      have habove := ih hrest (by omega) (by omega) frag hlater
      omega

theorem follows_ordered {version : U32} {offset : Nat} {frags : List Fragment}
    (h : Follows version offset frags)
    (hversion : version.toNat + (frags.map Fragment.data).flatten.length < 2 ^ 32)
    (hoffset : offset + (frags.map Fragment.data).flatten.length < 2 ^ 32) :
    frags.Pairwise fun a b =>
      a.version.toNat < b.version.toNat ∧ a.offset.toNat < b.offset.toNat := by
  induction frags generalizing version offset with
  | nil => exact .nil
  | cons first frags ih =>
    obtain ⟨hfirst, hofs, hne, hrest⟩ := h
    have hpos := List.length_pos_of_ne_nil hne
    rw [List.map_cons, List.flatten_cons, List.length_append] at hversion hoffset
    have hone : (1 : U32).toNat = 1 := rfl
    have hnext : first.version.toNat = version.toNat + 1 := by
      rw [hfirst, BitVec.toNat_add, hone, Nat.mod_eq_of_lt (by omega)]
    have hstart : first.offset.toNat = offset := by
      rw [hofs, BitVec.toNat_ofNat, Nat.mod_eq_of_lt (by omega)]
    have hversion₁ : first.version.toNat + (frags.map Fragment.data).flatten.length < 2 ^ 32 := by
      omega
    have hoffset₁ : offset + first.data.length + (frags.map Fragment.data).flatten.length <
        2 ^ 32 := by omega
    apply List.Pairwise.cons
    · intro frag hmem
      have habove := follows_above hrest hversion₁ hoffset₁ frag hmem
      omega
    · exact ih hrest hversion₁ hoffset₁

theorem Follows.complete {version : U32} {content : List U8} {frags : List Fragment}
    (h : Follows version 0 frags) (hcontent : (frags.map Fragment.data).flatten = content)
    (hlen : version.toNat + content.length < 2 ^ 32) : Complete content frags where
  content := hcontent
  offsets := by
    intro front frag back hfrags
    have hall := congrArg List.length hcontent
    rw [hfrags, List.map_append, List.flatten_append, List.length_append] at hall
    rw [follows_offsets h hfrags, Nat.zero_add, BitVec.toNat_ofNat, Nat.mod_eq_of_lt (by omega)]
  ordered := by
    apply follows_ordered h
    · rw [hcontent]
      exact hlen
    · rw [hcontent]
      omega

end Order

namespace Layout

def nodes (L : Layout) : List (List U8) := L.done.flatten ++ L.cur

def Adds (ino : U32) (L L' : Layout) (frags : List Fragment) : Prop :=
  ∃ added, L'.nodes = L.nodes ++ added ∧ added.filterMap (fragmentOf ino) = frags

end Layout

section Adding

variable {n : Nat} {L L' L'' : Layout} {ino : U32}

theorem Layout.Adds.trans {xs ys : List Fragment} (h : L.Adds ino L' xs) (h' : L'.Adds ino L'' ys) :
    L.Adds ino L'' (xs ++ ys) := by
  obtain ⟨added, hnodes, hxs⟩ := h
  obtain ⟨added', hnodes', hys⟩ := h'
  refine ⟨added ++ added', ?_, ?_⟩
  · rw [hnodes', hnodes, List.append_assoc]
  · rw [List.filterMap_append, hxs, hys]

variable (h4 : 4 ∣ n) (hn : 4096 ≤ n)

include h4 hn

end Adding

end OpenwrtMtk.Mtd
