import OpenwrtMtk.Mtd.FisRemap

/-!
# The layout of the new partitions

The space of the old partitions, what of it `fis_remap` sees, and when the new ones lie in it.
-/

namespace OpenwrtMtk.Mtd

open Toolkit Nvram

set_option autoImplicit false

section Bases

def IsLowest (descs : List ImageDesc) (base : U32) : Prop :=
  (∃ desc ∈ descs, desc.flashBase = base) ∧ ∀ desc ∈ descs, base ≤ desc.flashBase

def EndOfSpace (descs olds : List ImageDesc) (limit : U32) : Prop :=
  ∃ top ∈ olds, (∀ desc ∈ olds, desc.flashBase ≤ top.flashBase) ∧
    (NextAbove ImageDesc.flashBase descs top.flashBase limit ∨
      (∀ desc ∈ descs, desc.flashBase ≤ top.flashBase) ∧ limit = top.flashBase + top.size)

def Outer (olds : List ImageDesc) (desc : ImageDesc) : Prop :=
  olds.head? = some desc ∨ olds.getLast? = some desc

def SeenEnd (descs olds : List ImageDesc) (limit : U32) : Prop :=
  ∃ outer, Outer olds outer ∧ (∀ other, Outer olds other → other.flashBase ≤ outer.flashBase) ∧
    (NextAbove ImageDesc.flashBase descs outer.flashBase limit ∨
      (∀ desc ∈ descs, desc.flashBase ≤ outer.flashBase) ∧ limit = outer.flashBase)

variable {descs olds : List ImageDesc} {head last : ImageDesc}

theorem Outer.mem {desc : ImageDesc} (h : Outer olds desc) : desc ∈ olds := by
  rcases h with h | h
  · exact List.mem_of_head? h
  · exact List.mem_of_getLast? h

theorem Outer.cases {desc : ImageDesc} (hhead : olds.head? = some head)
    (hlast : olds.getLast? = some last) (h : Outer olds desc) : desc = head ∨ desc = last := by
  rcases h with h | h
  · exact Or.inl (Option.some.inj (h.symm.trans hhead))
  · exact Or.inr (Option.some.inj (h.symm.trans hlast))

theorem lowerBase_outer (hhead : olds.head? = some head) (hlast : olds.getLast? = some last) :
    ∃ outer, Outer olds outer ∧ outer.flashBase = lowerBase head.flashBase last.flashBase ∧
      ∀ other, Outer olds other → outer.flashBase ≤ other.flashBase := by
  unfold lowerBase
  by_cases hlt : last.flashBase < head.flashBase
  · rw [if_pos hlt]
    refine ⟨last, Or.inr hlast, rfl, fun other hother => ?_⟩
    rcases hother.cases hhead hlast with rfl | rfl
    · exact BitVec.le_of_lt hlt
    · exact BitVec.le_refl _
  · rw [if_neg hlt]
    refine ⟨head, Or.inl hhead, rfl, fun other hother => ?_⟩
    rcases hother.cases hhead hlast with rfl | rfl
    · exact BitVec.le_refl _
    · exact BitVec.not_lt.mp hlt

theorem higherBase_outer (hhead : olds.head? = some head) (hlast : olds.getLast? = some last) :
    ∃ outer, Outer olds outer ∧ outer.flashBase = higherBase head.flashBase last.flashBase ∧
      ∀ other, Outer olds other → other.flashBase ≤ outer.flashBase := by
  unfold higherBase
  by_cases hlt : last.flashBase < head.flashBase
  · rw [if_pos hlt]
    refine ⟨head, Or.inl hhead, rfl, fun other hother => ?_⟩
    rcases hother.cases hhead hlast with rfl | rfl
    · exact BitVec.le_refl _
    · exact BitVec.le_of_lt hlt
  · rw [if_neg hlt]
    refine ⟨last, Or.inr hlast, rfl, fun other hother => ?_⟩
    rcases hother.cases hhead hlast with rfl | rfl
    · exact BitVec.not_lt.mp hlt
    · exact BitVec.le_refl _

theorem isLowest_iff (hhead : olds.head? = some head) (hlast : olds.getLast? = some last) :
    IsLowest olds (lowerBase head.flashBase last.flashBase) ↔
      ∃ outer, Outer olds outer ∧ ∀ desc ∈ olds, outer.flashBase ≤ desc.flashBase := by
  obtain ⟨outer, houter, hbase, hleast⟩ := lowerBase_outer hhead hlast
  constructor
  · rintro ⟨-, hall⟩
    exact ⟨outer, houter, fun desc hmem => hbase ▸ hall desc hmem⟩
  · rintro ⟨outer', houter', hall⟩
    refine ⟨⟨outer, houter.mem, hbase⟩, fun desc hmem => ?_⟩
    rw [← hbase]
    exact BitVec.le_trans (hleast outer' houter') (hall desc hmem)

theorem seenLimit_spec {highest : U32} (hmem : ∃ desc ∈ descs, desc.flashBase = highest) :
    NextAbove ImageDesc.flashBase descs highest (seenLimit descs highest) ∨
      (∀ desc ∈ descs, desc.flashBase ≤ highest) ∧ seenLimit descs highest = highest := by
  obtain ⟨-, hall⟩ := le_largestOf ImageDesc.flashBase descs 0
  by_cases habove : highest < largestOf ImageDesc.flashBase descs 0
  · rcases largestOf_mem ImageDesc.flashBase descs 0 with hzero | hfound
    · rw [hzero] at habove
      exact absurd habove BitVec.not_lt_zero
    · exact Or.inl (nearestOf_largest hfound habove)
  · have hle := BitVec.not_lt.mp habove
    have hnone : ∀ desc ∈ descs, desc.flashBase ≤ highest := fun desc hdesc =>
      BitVec.le_trans (hall desc hdesc) hle
    obtain ⟨desc, hdesc, rfl⟩ := hmem
    refine Or.inr ⟨hnone, ?_⟩
    rw [seenLimit, nearestOf_none _ hnone]
    exact BitVec.le_antisymm hle (hall desc hdesc)

theorem seenEnd_iff (hsub : olds ⊆ descs) (hhead : olds.head? = some head)
    (hlast : olds.getLast? = some last) {limit : U32} :
    SeenEnd descs olds limit ↔
      limit = seenLimit descs (higherBase head.flashBase last.flashBase) := by
  obtain ⟨outer, houter, hbase, hmost⟩ := higherBase_outer hhead hlast
  have hspec := seenLimit_spec ⟨outer, hsub houter.mem, hbase⟩
  rw [← hbase] at hspec ⊢
  constructor
  · rintro ⟨outer', houter', hmost', hend⟩
    rw [BitVec.le_antisymm (hmost outer' houter') (hmost' outer houter)] at hend
    rcases hend with hnext | ⟨hnone, rfl⟩
    · rcases hspec with hnext' | ⟨hnone, -⟩
      · exact hnext.unique hnext'
      · obtain ⟨desc, hmem, rfl⟩ := hnext.mem
        exact absurd hnext.above (BitVec.not_lt.mpr (hnone desc hmem))
    · rcases hspec with hnext' | ⟨-, heq⟩
      · obtain ⟨desc, hmem, heq⟩ := hnext'.mem
        exact absurd hnext'.above (BitVec.not_lt.mpr (heq ▸ hnone desc hmem))
      · exact heq.symm
  · rintro rfl
    exact ⟨outer, houter, hmost, hspec⟩

theorem endOfSpace_exists (hsub : olds ⊆ descs) (hne : olds ≠ []) :
    ∃ limit, EndOfSpace descs olds limit := by
  obtain ⟨desc, hdesc⟩ := List.exists_mem_of_ne_nil olds hne
  obtain ⟨-, hall⟩ := le_largestOf ImageDesc.flashBase olds 0
  have htop : ∃ top ∈ olds, top.flashBase = largestOf ImageDesc.flashBase olds 0 := by
    rcases largestOf_mem ImageDesc.flashBase olds 0 with hzero | htop
    · refine ⟨desc, hdesc, BitVec.le_antisymm (hall desc hdesc) ?_⟩
      rw [hzero]
      exact BitVec.not_lt.mp BitVec.not_lt_zero
    · exact htop
  obtain ⟨top, hmem, htop⟩ := htop
  rw [← htop] at hall
  rcases seenLimit_spec ⟨top, hsub hmem, rfl⟩ with hnext | ⟨hnone, -⟩
  · exact ⟨_, top, hmem, hall, Or.inl hnext⟩
  · exact ⟨_, top, hmem, hall, Or.inr ⟨hnone, rfl⟩⟩

theorem seenEnd_of_top {outer : ImageDesc} (houter : Outer olds outer) {limit : U32}
    (htop : ∀ desc ∈ olds, desc.flashBase ≤ outer.flashBase)
    (hnext : NextAbove ImageDesc.flashBase descs outer.flashBase limit) :
    SeenEnd descs olds limit ∧ EndOfSpace descs olds limit :=
  ⟨⟨outer, houter, fun other hother => htop other hother.mem, Or.inl hnext⟩,
    outer, houter.mem, htop, Or.inl hnext⟩

end Bases

section LaidOut

def TakesRest (parts : List FisPart) : Prop := ∃ part, parts.getLast? = some part ∧ part.size = 0

theorem takesRest_cons {part part' : FisPart} {parts : List FisPart} :
    TakesRest (part :: part' :: parts) ↔ TakesRest (part' :: parts) := by
  rw [TakesRest, List.getLast?_cons_cons]
  rfl

theorem layOut_inj {parts : List FisPart} {base base' limit limit' : U32} (hne : parts ≠ [])
    (hsizes : ∀ part ∈ parts.dropLast, part.size ≠ 0)
    (h : encodeDescs (layOut limit base parts) = encodeDescs (layOut limit' base' parts)) :
    base = base' ∧ (TakesRest parts → limit = limit') := by
  induction parts generalizing base base' with
  | nil => exact absurd rfl hne
  | cons part parts ih =>
    rw [layOut, layOut, encodeDescs_cons, encodeDescs_cons] at h
    obtain ⟨hentry, hrest⟩ := List.append_inj h (by rw [ImageDesc.length_encode,
      ImageDesc.length_encode])
    obtain ⟨hbase, hsize⟩ := ImageDesc.encode_inj hentry
    have hbase : base = base' := hbase
    subst hbase
    refine ⟨rfl, ?_⟩
    cases parts with
    | nil =>
      rintro ⟨part', hlast, hzero⟩
      obtain rfl := Option.some.inj (List.getLast?_singleton.symm.trans hlast)
      have hleft : limit - base = limit' - base := by
        have hsize : (if part.size = 0 then limit - base else part.size) =
          if part.size = 0 then limit' - base else part.size := hsize
        rwa [if_pos hzero, if_pos hzero] at hsize
      rw [← BitVec.sub_add_cancel limit base, hleft, BitVec.sub_add_cancel]
    | cons part' parts =>
      rw [List.dropLast_cons_cons] at hsizes
      have hnonzero := hsizes part List.mem_cons_self
      rw [if_neg hnonzero, if_neg hnonzero] at hrest
      rw [takesRest_cons]
      exact (ih (List.cons_ne_nil _ _) (fun p hp => hsizes p (List.mem_cons_of_mem _ hp)) hrest).2

theorem layOut_congr {parts : List FisPart} {base limit limit' : U32}
    (hsizes : ∀ part ∈ parts.dropLast, part.size ≠ 0) (h : TakesRest parts → limit = limit') :
    layOut limit base parts = layOut limit' base parts := by
  induction parts generalizing base with
  | nil => rfl
  | cons part parts ih =>
    rw [layOut, layOut]
    cases parts with
    | nil =>
      by_cases hzero : part.size = 0
      · rw [h ⟨part, rfl, hzero⟩]
      · rw [if_neg hzero, if_neg hzero]
        rfl
    | cons part' parts =>
      rw [List.dropLast_cons_cons] at hsizes
      have hnonzero := hsizes part List.mem_cons_self
      rw [if_neg hnonzero, if_neg hnonzero,
        ih (fun p hp => hsizes p (List.mem_cons_of_mem _ hp)) fun hrest => h (takesRest_cons.mpr hrest)]

theorem directoryBytes_inj {before descs descs' behind : List ImageDesc} {n : Nat}
    (hlen : descs.length = descs'.length)
    (h : directoryBytes n (before ++ descs ++ behind) = directoryBytes n (before ++ descs' ++ behind)) :
    encodeDescs descs = encodeDescs descs' := by
  rw [directoryBytes, directoryBytes, encodeDescs_append, encodeDescs_append, encodeDescs_append,
    encodeDescs_append] at h
  simp only [List.append_assoc] at h
  have hrest := List.append_cancel_left h
  exact (List.append_inj hrest (by rw [length_encodeDescs, length_encodeDescs, hlen])).1

end LaidOut

section Rightness

variable (old new : List FisPart) (before olds behind : List ImageDesc) (n : Nat)

/-- The new entries stand in place of the old ones, back to back from the lowest old base on, the last
one up to the end of the space if it has no size; the others are as they were. -/
def RemapRight : Prop :=
  ∃ base limit, IsLowest olds base ∧ EndOfSpace (before ++ olds ++ behind) olds limit ∧
    fisRemap old new (directoryBytes n (before ++ olds ++ behind)) =
      .ok (directoryBytes n (before ++ layOut limit base new ++ behind))

/-- There are no fewer new partitions than old ones, the lowest old base is that of the first or of the
last of them, and if the last new one takes the rest the outer ones show where the space ends. -/
structure Remappable : Prop where
  room : olds.length ≤ new.length
  lowest : ∃ outer, Outer olds outer ∧ ∀ desc ∈ olds, outer.flashBase ≤ desc.flashBase
  limit : TakesRest new → ∃ limit, SeenEnd (before ++ olds ++ behind) olds limit ∧
    EndOfSpace (before ++ olds ++ behind) olds limit

variable {old new before olds behind n}

theorem remap_right_iff (h : Contiguous old before olds behind)
    (hsizes : ∀ part ∈ new.dropLast, part.size ≠ 0)
    (hold : sizeofDesc * (before ++ olds ++ behind).length ≤ n)
    (hfits : sizeofDesc * (before.length + new.length + behind.length) ≤ n) (hn : n < 2 ^ 31) :
    RemapRight old new before olds behind n ↔ Remappable new before olds behind := by
  obtain ⟨head, hhead⟩ := Option.ne_none_iff_exists'.mp (List.head?_eq_none_iff.not.mpr h.some_old)
  obtain ⟨last, hlast⟩ :=
    Option.ne_none_iff_exists'.mp (List.getLast?_eq_none_iff.not.mpr h.some_old)
  have hsub : olds ⊆ before ++ olds ++ behind := fun desc hmem =>
    List.mem_append_left _ (List.mem_append_right _ hmem)
  constructor
  · rintro ⟨base, limit, hbase, hend, hremap⟩
    have hroom : olds.length ≤ new.length := by
      by_contra hdown
      exact fisRemap_down h (Nat.not_le.mp hdown) hold hn ⟨_, hremap⟩
    have hne : new ≠ [] := by
      intro hnil
      rw [hnil] at hroom
      exact h.some_old (List.length_eq_zero_iff.mp (Nat.le_zero.mp hroom))
    rw [fisRemap_up h hhead hlast hroom hfits hn] at hremap
    obtain ⟨hlower, hlimit⟩ := layOut_inj hne hsizes (directoryBytes_inj
      (by rw [length_layOut, length_layOut]) (Except.ok.inj hremap))
    refine ⟨hroom, (isLowest_iff hhead hlast).mp (hlower ▸ hbase), fun hrest => ⟨limit, ?_, hend⟩⟩
    exact (seenEnd_iff hsub hhead hlast).mpr (hlimit hrest).symm
  · rintro ⟨hroom, hlowest, hlimit⟩
    have hbase := (isLowest_iff hhead hlast).mpr hlowest
    have hremap := fisRemap_up h hhead hlast hroom hfits hn
    by_cases hrest : TakesRest new
    · obtain ⟨limit, hseen, hend⟩ := hlimit hrest
      rw [← (seenEnd_iff hsub hhead hlast).mp hseen] at hremap
      exact ⟨_, limit, hbase, hend, hremap⟩
    · obtain ⟨limit, hend⟩ := endOfSpace_exists hsub h.some_old
      refine ⟨_, limit, hbase, hend, ?_⟩
      rw [hremap, layOut_congr hsizes fun hzero => absurd hzero hrest]

end Rightness

section Examples

/-- The names `RedBoot`, `kernel`, `rootfs` and `FIS directory`. -/
def redBootName : Vector U8 16 := #v[0x52, 0x65, 0x64, 0x42, 0x6f, 0x6f, 0x74, 0, 0, 0, 0, 0, 0, 0, 0, 0]

def kernelName : Vector U8 16 := #v[0x6b, 0x65, 0x72, 0x6e, 0x65, 0x6c, 0, 0, 0, 0, 0, 0, 0, 0, 0, 0]

def rootfsName : Vector U8 16 := #v[0x72, 0x6f, 0x6f, 0x74, 0x66, 0x73, 0, 0, 0, 0, 0, 0, 0, 0, 0, 0]

def fisName : Vector U8 16 :=
  #v[0x46, 0x49, 0x53, 0x20, 0x64, 0x69, 0x72, 0x65, 0x63, 0x74, 0x6f, 0x72, 0x79, 0, 0, 0]

def redBoot : ImageDesc := .ofPart ⟨redBootName, 0, 0x30000⟩ 0 0x30000

def kernel : ImageDesc := .ofPart ⟨kernelName, 0, 0x100000⟩ 0x30000 0x100000

def rootfs : ImageDesc := .ofPart ⟨rootfsName, 0, 0x6b0000⟩ 0x130000 0x6b0000

def fisDirectory : ImageDesc := .ofPart ⟨fisName, 0, 0x10000⟩ 0x7e0000 0x10000

def oldParts : List FisPart := [⟨kernelName, 0, 0⟩, ⟨rootfsName, 0, 0⟩]

theorem oldParts_contiguous : Contiguous oldParts [redBoot] [kernel, rootfs] [fisDirectory] where
  used := List.forall_mem_cons.mpr ⟨⟨by decide, by decide⟩, List.forall_mem_cons.mpr
    ⟨⟨by decide, by decide⟩, List.forall_mem_cons.mpr ⟨⟨by decide, by decide⟩,
      List.forall_mem_singleton.mpr ⟨by decide, by decide⟩⟩⟩⟩
  some_old := List.cons_ne_nil _ _
  olds := List.forall_mem_cons.mpr ⟨rfl, List.forall_mem_singleton.mpr rfl⟩
  before := List.forall_mem_singleton.mpr rfl
  behind := List.forall_mem_singleton.mpr rfl

/-- A larger kernel, and a root file system in what is left. -/
theorem remap_right_kernel : RemapRight oldParts
    [⟨kernelName, 0, 0x140000⟩, ⟨rootfsName, 0, 0⟩] [redBoot] [kernel, rootfs] [fisDirectory] 4096 := by
  have hnext : NextAbove ImageDesc.flashBase [redBoot, kernel, rootfs, fisDirectory] rootfs.flashBase
      0x7e0000 := by
    refine ⟨⟨fisDirectory, ?_, rfl⟩, by decide, by decide⟩
    exact List.mem_of_getLast? rfl
  have htop : ∀ desc ∈ [kernel, rootfs], desc.flashBase ≤ rootfs.flashBase := by decide
  refine (remap_right_iff oldParts_contiguous ?_ (by decide) (by decide) (by decide)).mpr ⟨?_, ?_, ?_⟩
  · exact List.forall_mem_singleton.mpr (by decide)
  · exact Nat.le_refl 2
  · exact ⟨kernel, Or.inl rfl, by decide⟩
  · exact fun _ => ⟨_, seenEnd_of_top (Or.inr rfl) htop hnext⟩

/-- The two old partitions are not replaced by one. -/
theorem merged_out : Contiguous oldParts [redBoot] [kernel, rootfs] [fisDirectory] ∧
    ¬RemapRight oldParts [⟨kernelName, 0, 0⟩] [redBoot] [kernel, rootfs] [fisDirectory] 4096 := by
  refine ⟨oldParts_contiguous, ?_⟩
  rintro ⟨base, limit, -, -, h⟩
  have hfewer : [(⟨kernelName, 0, 0⟩ : FisPart)].length < [kernel, rootfs].length :=
    Nat.lt_succ_self 1
  exact fisRemap_down oldParts_contiguous hfewer (by decide) (by decide) ⟨_, h⟩

end Examples

end OpenwrtMtk.Mtd
