import OpenwrtMtk.Nvram.ReadOnly

/-!
# The bounds of nvram_commit

The limit of a section is counted from behind its checksum, so texts may run up to four bytes
into the next section, and so may the terminator, which is not checked at all. A section that is
refused leaves those before it in the file. The commit keeps what it promises exactly when every
section has room for its checksum, texts and terminator and no checksum is zero, or when the
first section that is refused stays inside until then and the file holds those before it already.
-/

namespace OpenwrtMtk.Nvram

open Toolkit

set_option autoImplicit false

/-- Where `putSection` stores, and how many bytes: each entry, the terminator, the checksum. -/
def putStores (s : Section) : Nat → List Entry → List (Nat × Nat)
  | p, [] => [(p, 1), (s.offset, 4)]
  | p, e :: es =>
    if s.offset + 4 + s.size ≤ p + e.bytes.length then []
    else (p, e.bytes.length) :: putStores s (p + e.bytes.length) es

def Section.stores (s : Section) : List (Nat × Nat) := putStores s (s.offset + 4) s.entries

def Section.StoresInside (s : Section) : Prop :=
  ∀ w ∈ s.stores, s.offset ≤ w.1 ∧ w.1 + w.2 ≤ s.offset + s.size

def Section.Roomy (s : Section) : Prop := 4 + (serialize s.entries).length < s.size

/-- The size check fails, and the texts stored before stay inside. -/
structure Section.Refused (s : Section) : Prop where
  exceeds : s.size ≤ (serialize s.entries).length
  inside : ∀ es, es <+: s.entries → (serialize es).length < s.size →
    4 + (serialize es).length ≤ s.size

section Stores

variable {s : Section} {buffer : List U8}

theorem putStores_inside : ∀ (es : List Entry) {p : Nat}, s.offset ≤ p → 4 ≤ s.size →
    p < s.offset + 4 + s.size → p ≤ s.offset + s.size →
    ((∀ w ∈ putStores s p es, s.offset ≤ w.1 ∧ w.1 + w.2 ≤ s.offset + s.size) ↔
      (∀ pre, pre <+: es → p + (serialize pre).length < s.offset + 4 + s.size →
        p + (serialize pre).length ≤ s.offset + s.size) ∧
      (p + (serialize es).length < s.offset + 4 + s.size →
        p + (serialize es).length < s.offset + s.size)) := by
  intro es
  induction es with
  | nil =>
    intro p hp hsize hq hend
    simp only [putStores, List.mem_cons, List.not_mem_nil, or_false, forall_eq_or_imp, forall_eq,
      List.prefix_nil, serialize_nil, List.length_nil]
    omega
  | cons e es ih =>
    intro p hp hsize hq hend
    have hlen : (serialize (e :: es)).length = e.bytes.length + (serialize es).length := by
      rw [serialize_cons, List.length_append]
    have hpre : ∀ P : List Entry → Prop,
        (∀ pre, pre <+: e :: es → P pre) ↔ P [] ∧ ∀ pre, pre <+: es → P (e :: pre) := by
      intro P
      constructor
      · intro h
        exact ⟨h [] List.nil_prefix, fun pre hpre => h _ ((List.prefix_cons_inj e).mpr hpre)⟩
      · rintro ⟨hnil, hcons⟩ pre hpre
        rcases List.prefix_cons_iff.mp hpre with rfl | ⟨rest, rfl, hrest⟩
        · exact hnil
        · exact hcons rest hrest
    rw [putStores, hpre fun pre => p + (serialize pre).length < s.offset + 4 + s.size →
      p + (serialize pre).length ≤ s.offset + s.size, hlen]
    simp only [serialize_cons, List.length_append, ← Nat.add_assoc]
    split
    · rename_i hover
      refine iff_of_true (by simp) ⟨⟨fun _ => by simpa using hend, fun pre _ h => ?_⟩, fun h => ?_⟩
      · omega
      · omega
    · rename_i hin
      rw [List.forall_mem_cons]
      by_cases hfirst : p + e.bytes.length ≤ s.offset + s.size
      · rw [ih (by omega) hsize (by omega) hfirst]
        simp only [serialize_nil, List.length_nil, Nat.add_zero]
        exact ⟨fun h => ⟨⟨fun _ => hend, h.2.1⟩, h.2.2⟩, fun h => ⟨⟨hp, hfirst⟩, h.1.2, h.2⟩⟩
      · apply iff_of_false
        · exact fun h => hfirst h.1.2
        · exact fun h => hfirst (h.1.2 [] List.nil_prefix (by simpa using by omega))

theorem storesInside_iff (hsize : 4 ≤ s.size) : s.StoresInside ↔ s.Roomy ∨ s.Refused := by
  have hiff := putStores_inside (s := s) s.entries (p := s.offset + 4) (by omega) hsize (by omega)
    (by omega)
  unfold Section.StoresInside Section.stores
  rw [hiff]
  constructor
  · rintro ⟨hpre, hall⟩
    by_cases hfit : (serialize s.entries).length < s.size
    · have hend := hall (by omega)
      exact Or.inl (by unfold Section.Roomy; omega)
    · refine Or.inr ⟨by omega, fun es hes hlt => ?_⟩
      have hend := hpre es hes (by omega)
      omega
  · rintro (hroom | ⟨hexceeds, hinside⟩)
    · unfold Section.Roomy at hroom
      refine ⟨?_, fun _ => by omega⟩
      rintro pre ⟨rest, hrest⟩ _
      have hlen : (serialize s.entries).length = (serialize pre).length + (serialize rest).length := by
        rw [← hrest, serialize, List.flatMap_append, List.length_append]
        rfl
      omega
    · refine ⟨fun pre hpre hlt => ?_, fun h => by omega⟩
      have hend := hinside pre hpre (by omega)
      omega

theorem putEntries_stores : ∀ (es : List Entry) {buffer : List U8} {p : Nat},
    (∀ w ∈ putStores s p es, w.1 + w.2 ≤ buffer.length) →
    (putEntries (s.offset + 4 + s.size) buffer p es = some none) ∨
    ∃ buffer', putEntries (s.offset + 4 + s.size) buffer p es =
        some (some (buffer', p + (serialize es).length)) ∧
      buffer'.length = buffer.length ∧ p + (serialize es).length + 1 ≤ buffer.length := by
  intro es
  induction es with
  | nil =>
    intro buffer p h
    exact Or.inr ⟨buffer, rfl, rfl, h (p, 1) (by simp [putStores])⟩
  | cons e es ih =>
    intro buffer p h
    rw [putStores] at h
    rw [putEntries]
    split
    · exact Or.inl rfl
    · rename_i hin
      rw [if_neg hin, List.forall_mem_cons] at h
      have hlen := length_overwrite h.1
      rw [put_inside h.1, serialize_cons, List.length_append, ← Nat.add_assoc, ← hlen]
      exact ih (by rw [hlen]; exact h.2)

theorem putSection_inside (hend : s.offset + s.size ≤ buffer.length) (hsize : 4 ≤ s.size)
    (hinside : s.StoresInside) : (putSection buffer s).isSome = true := by
  unfold putSection
  rcases putEntries_stores s.entries fun w hw => Nat.le_trans (hinside w hw).2 hend with
    hput | ⟨mid, hput, hlen, hroom⟩
  · rw [hput]
    rfl
  · have hterm : s.offset + 4 + (serialize s.entries).length + [(0 : U8)].length ≤ mid.length := by
      rw [hlen]
      exact hroom
    have hfilled := length_overwrite hterm
    rw [hput]
    simp only [put_inside hterm]
    rw [if_neg (by omega), put_inside (by rw [length_le32]; omega)]
    rfl

theorem putSection_refused (hend : s.offset + s.size ≤ buffer.length) (hsize : 4 ≤ s.size)
    (hrefused : s.Refused) : putSection buffer s = some none := by
  have hinside := (storesInside_iff hsize).mpr (Or.inr hrefused)
  have hsome := putSection_inside hend hsize hinside
  rcases hput : putSection buffer s with _ | _ | buffer'
  · rw [hput] at hsome
    cases hsome
  · rfl
  · have hcheck := (putSection_some hput).check
    have hover := hrefused.exceeds
    omega

end Stores

def StoresInside : List Section → Prop
  | [] => True
  | s :: rest => s.StoresInside ∧ ((serialize s.entries).length < s.size → StoresInside rest)

/-- The texts are in the section, complete, and its checksum passes the test of `nvram_parse`. -/
structure Stored (file : List U8) (s : Section) : Prop where
  texts : ∃ tail, s.body file = serialize s.entries ++ tail
  crc : slice file s.offset 4 = le32 (crc32 0 (s.body file))
  nonzero : crc32 0 (s.body file) ≠ 0

/-- What a commit is to do. -/
structure CommitContract (fill : List U8) (sections : List Section) (flash : Bool) (d : Device) :
    Prop where
  stores : StoresInside sections
  result : ∃ rc d', nvramCommit fill sections flash d = some (rc, d') ∧
    (rc = .ok → ∀ s ∈ sections, Stored d'.cache s) ∧ (rc = .ng → d'.cache = d.cache)

def FitsOrRefused (fill file : List U8) (sections : List Section) : Prop :=
  (∀ s ∈ sections, s.Roomy ∧ crc32 0 (bodyImage (s.body fill) s.entries) ≠ 0) ∨
    ∃ front s back, sections = front ++ s :: back ∧
      (∀ t ∈ front, t.Roomy ∧ Canonical fill file t) ∧ s.Refused

section Contract

variable {front back sections : List Section} {s : Section} {fill file file' buffer' : List U8}

theorem storesInside_append (hfront : ∀ t ∈ front, (serialize t.entries).length < t.size) :
    StoresInside (front ++ back) ↔ (∀ t ∈ front, t.StoresInside) ∧ StoresInside back := by
  induction front with
  | nil => simp
  | cons t front ih =>
    rw [List.forall_mem_cons] at hfront
    rw [List.cons_append, StoresInside, ih hfront.2, List.forall_mem_cons, and_assoc]
    exact and_congr_right fun _ => ⟨fun h => h hfront.1, fun h _ => h⟩

theorem commitSections_append : ∀ (front : List Section) {buffer file buffer' file' : List U8},
    commitSections front buffer file = some (.ok, buffer', file') →
    commitSections (front ++ back) buffer file = commitSections back buffer' file' := by
  intro front
  induction front with
  | nil =>
    intro buffer file buffer' file' h
    simp only [commitSections, Option.some.injEq, Prod.mk.injEq] at h
    rw [List.nil_append, h.2.1, h.2.2]
  | cons t front ih =>
    intro buffer file buffer' file' h
    rw [commitSections] at h
    rw [List.cons_append, commitSections]
    rcases hput : putSection buffer t with _ | _ | mid
    · simp only [hput, reduceCtorEq] at h
    · simp [hput] at h
    · simp only [hput] at h ⊢
      exact ih h

theorem commitSections_roomy (hapart : sections.Pairwise Section.Apart)
    (hin : ∀ s ∈ sections, s.offset + s.size ≤ fill.length ∧ s.offset + s.size ≤ file.length)
    (hroom : ∀ s ∈ sections, s.Roomy) :
    ∃ buffer' file', commitSections sections fill file = some (.ok, buffer', file') ∧
      buffer'.length = fill.length ∧ Committed sections fill file .ok file' ∧
      ∀ s ∈ sections, Canonical fill file' s := by
  obtain ⟨buffer', file', hrun⟩ := commitSections_total fill file sections fun s hs =>
    ⟨(hin s hs).1, hroom s hs⟩
  have hc := commitSections_committed sections hapart (fun s hs => (hin s hs).2) hrun
  refine ⟨buffer', file', hrun, commitSections_length sections hrun, hc, fun s hs => ?_⟩
  rcases hc.settled s hs with ⟨_, himage⟩ | ⟨hng, _⟩
  · exact himage
  · cases hng

theorem Canonical.split (h : Canonical fill file s) (hsize : 4 ≤ s.size)
    (hend : s.offset + s.size ≤ file.length) :
    slice file s.offset 4 = le32 (crc32 0 (s.body file)) ∧
      s.body file = bodyImage (s.body fill) s.entries := by
  have hcut : s.image file = slice file s.offset 4 ++ s.body file := by
    rw [Section.image, Section.body, ← slice_add, Nat.add_sub_cancel' hsize]
  have hhead : (slice file s.offset 4).length = 4 := length_slice (by omega)
  rw [Canonical, hcut, sectionImage] at h
  obtain ⟨hcrc, hbody⟩ := List.append_inj h (by rw [hhead, length_le32])
  exact ⟨by rw [hcrc, hbody], hbody⟩

theorem Canonical.stored_iff (h : Canonical fill file s) (hroom : s.Roomy)
    (hend : s.offset + s.size ≤ file.length) (hfill : s.offset + s.size ≤ fill.length) :
    Stored file s ↔ crc32 0 (bodyImage (s.body fill) s.entries) ≠ 0 := by
  unfold Section.Roomy at hroom
  obtain ⟨hcrc, hbody⟩ := h.split (by omega) hend
  have hpad : (s.body fill).length = s.size - 4 := length_slice (by omega)
  rw [← hbody]
  refine ⟨Stored.nonzero, fun hne => ⟨?_, hcrc, hne⟩⟩
  rw [hbody, bodyImage, List.take_append, List.take_of_length_le (by omega)]
  exact ⟨_, rfl⟩

/-- A commit that finds every section as it would write it changes nothing. -/
theorem Committed.file_eq (hc : Committed sections fill file .ok file')
    (hfile : ∀ s ∈ sections, Canonical fill file s) : file' = file := by
  apply List.ext_getElem?
  intro k
  by_cases hcov : ∃ s ∈ sections, s.covers k
  · obtain ⟨s, hs, hk⟩ := hcov
    rcases hc.settled s hs with ⟨_, himage⟩ | ⟨hng, _⟩
    · have hbyte := congrArg (fun xs : List U8 => xs[k - s.offset]?)
        (himage.trans (hfile s hs).symm)
      obtain ⟨hlow, hhigh⟩ := hk
      simp only [Section.image, getElem?_slice] at hbyte
      rw [if_pos (by omega), if_pos (by omega), Nat.add_sub_cancel' hlow] at hbyte
      exact hbyte
    · cases hng
  · apply hc.frame
    intro s hs
    by_contra hk
    exact hcov ⟨s, hs, by unfold Section.covers; omega⟩

theorem commitSections_refused (back : List Section) (hapart : front.Pairwise Section.Apart)
    (hin : ∀ t ∈ front, t.offset + t.size ≤ fill.length ∧ t.offset + t.size ≤ file.length)
    (hroom : ∀ t ∈ front, t.Roomy) (hrefused : s.Refused) (hsize : 4 ≤ s.size)
    (hend : s.offset + s.size ≤ fill.length) :
    ∃ buffer' file', commitSections (front ++ s :: back) fill file = some (.ng, buffer', file') ∧
      Committed front fill file .ok file' ∧ ∀ t ∈ front, Canonical fill file' t := by
  obtain ⟨buffer', file', hrun, hlen, hc, hcanonical⟩ := commitSections_roomy hapart hin hroom
  refine ⟨buffer', file', ?_, hc, hcanonical⟩
  rw [commitSections_append front hrun, commitSections,
    putSection_refused (by rw [hlen]; exact hend) hsize hrefused]

theorem exists_first_exceeding (h : ¬ ∀ s ∈ sections, (serialize s.entries).length < s.size) :
    ∃ front s back, sections = front ++ s :: back ∧
      (∀ t ∈ front, (serialize t.entries).length < t.size) ∧
      s.size ≤ (serialize s.entries).length := by
  cases hfind : sections.find? fun s => decide (s.size ≤ (serialize s.entries).length) with
  | none =>
    refine absurd (fun s hs => ?_) h
    simpa using List.find?_eq_none.mp hfind s hs
  | some s =>
    obtain ⟨hs, front, back, hsplit, hfront⟩ := List.find?_eq_some_iff_append.mp hfind
    refine ⟨front, s, back, hsplit, fun t ht => ?_, by simpa using hs⟩
    simpa using hfront t ht

theorem commitContract_iff {flash : Bool} {d : Device}
    (hapart : sections.Pairwise Section.Apart)
    (hin : ∀ s ∈ sections, 4 ≤ s.size ∧ s.offset + s.size ≤ fill.length)
    (hfile : d.cache.length = fill.length) :
    CommitContract fill sections flash d ↔ FitsOrRefused fill d.cache sections := by
  have hbounds : ∀ s ∈ sections,
      s.offset + s.size ≤ fill.length ∧ s.offset + s.size ≤ d.cache.length :=
    fun s hs => ⟨(hin s hs).2, hfile ▸ (hin s hs).2⟩
  constructor
  · rintro ⟨hstores, rc, d', hrun, hok, hng⟩
    by_cases hfits : ∀ s ∈ sections, (serialize s.entries).length < s.size
    · rw [← List.append_nil sections, storesInside_append hfits] at hstores
      have hroom : ∀ s ∈ sections, s.Roomy := by
        intro s hs
        rcases (storesInside_iff (hin s hs).1).mp (hstores.1 s hs) with hroom | hrefused
        · exact hroom
        · exact absurd hrefused.exceeds (Nat.not_le.mpr (hfits s hs))
      obtain ⟨buffer', file', hcommit, -, hc, hcanonical⟩ :=
        commitSections_roomy hapart hbounds hroom
      rw [nvramCommit, hcommit] at hrun
      obtain ⟨rfl, rfl⟩ := Prod.mk.inj (Option.some.inj hrun)
      refine Or.inl fun s hs => ⟨hroom s hs, ?_⟩
      exact ((hcanonical s hs).stored_iff (hroom s hs) (hc.length ▸ (hbounds s hs).2)
        (hbounds s hs).1).mp (hok rfl s hs)
    · obtain ⟨front, s, back, rfl, hfront, hexceeds⟩ := exists_first_exceeding hfits
      rw [List.forall_mem_append, List.forall_mem_cons] at hin hbounds
      rw [storesInside_append hfront] at hstores
      have hroom : ∀ t ∈ front, t.Roomy := by
        intro t ht
        rcases (storesInside_iff (hin.1 t ht).1).mp (hstores.1 t ht) with hroom | hrefused
        · exact hroom
        · exact absurd hrefused.exceeds (Nat.not_le.mpr (hfront t ht))
      have hrefused : s.Refused := by
        rcases (storesInside_iff hin.2.1.1).mp hstores.2.1 with hroom | hrefused
        · unfold Section.Roomy at hroom
          omega
        · exact hrefused
      obtain ⟨buffer', file', hcommit, -, hcanonical⟩ := commitSections_refused back
        (List.pairwise_append.mp hapart).1 hbounds.1 hroom hrefused hin.2.1.1 hin.2.1.2
      rw [nvramCommit, hcommit] at hrun
      obtain ⟨rfl, rfl⟩ := Prod.mk.inj (Option.some.inj hrun)
      have hsame : file' = d.cache := hng rfl
      exact Or.inr ⟨front, s, back, rfl, fun t ht => ⟨hroom t ht, hsame ▸ hcanonical t ht⟩,
        hrefused⟩
  · rintro (hall | ⟨front, s, back, rfl, hfront, hrefused⟩)
    · have hfits : ∀ s ∈ sections, (serialize s.entries).length < s.size := by
        intro s hs
        have hroom := (hall s hs).1
        unfold Section.Roomy at hroom
        omega
      obtain ⟨buffer', file', hcommit, -, hc, hcanonical⟩ :=
        commitSections_roomy hapart hbounds fun s hs => (hall s hs).1
      refine ⟨?_, .ok, _, by rw [nvramCommit, hcommit]; rfl, fun _ s hs => ?_, by simp⟩
      · rw [← List.append_nil sections, storesInside_append hfits]
        exact ⟨fun s hs => (storesInside_iff (hin s hs).1).mpr (Or.inl (hall s hs).1), trivial⟩
      · exact ((hcanonical s hs).stored_iff (hall s hs).1 (hc.length ▸ (hbounds s hs).2)
          (hbounds s hs).1).mpr (hall s hs).2
    · rw [List.forall_mem_append, List.forall_mem_cons] at hin hbounds
      have hfits : ∀ t ∈ front, (serialize t.entries).length < t.size := by
        intro t ht
        have hroom := (hfront t ht).1
        unfold Section.Roomy at hroom
        omega
      obtain ⟨buffer', file', hcommit, hc, -⟩ := commitSections_refused back
        (List.pairwise_append.mp hapart).1 hbounds.1 (fun t ht => (hfront t ht).1) hrefused
        hin.2.1.1 hin.2.1.2
      have hsame : file' = d.cache := hc.file_eq fun t ht => (hfront t ht).2
      refine ⟨?_, .ng, _, by rw [nvramCommit, hcommit]; rfl, by simp, fun _ => hsame⟩
      rw [storesInside_append hfits]
      refine ⟨fun t ht => (storesInside_iff (hin.1 t ht).1).mpr (Or.inl (hfront t ht).1),
        (storesInside_iff hin.2.1.1).mpr (Or.inr hrefused), fun hfit => ?_⟩
      have hexceeds := hrefused.exceeds
      omega

end Contract

/-- `a=b` in the first of two sections that tile the partition. -/
def tiledSections (size size' : Nat) : List Section :=
  [⟨"first", 0, size, 0, 0, some ⟨[0x61], [0x62]⟩ :: List.replicate 499 none⟩,
   ⟨"second", size, size', 0, 0, List.replicate 500 none⟩]

theorem tiledSections_apart (size size' : Nat) :
    (tiledSections size size').Pairwise Section.Apart :=
  List.pairwise_pair.mpr (Or.inl (Nat.le_of_eq (Nat.zero_add size)))

theorem commitContract_tiled :
    CommitContract (List.replicate 24 0) (tiledSections 16 8) false
      ⟨List.replicate 24 0, List.replicate 24 0⟩ := by
  have hin : ∀ s ∈ tiledSections 16 8,
      4 ≤ s.size ∧ s.offset + s.size ≤ (List.replicate 24 (0 : U8)).length := by decide
  refine (commitContract_iff (tiledSections_apart 16 8) hin ?_).mpr (Or.inl ?_)
  · rfl
  · unfold Section.Roomy
    decide +kernel

/-- An entry that fills its section has its terminator stored in the next one. -/
theorem terminator_leaves_section :
    ¬ ∀ (fill : List U8) (sections : List Section) (flash : Bool) (d : Device),
      sections.Pairwise Section.Apart →
      (∀ s ∈ sections, 4 ≤ s.size ∧ s.offset + s.size ≤ fill.length) →
      (∀ k < fill.length, ∃ s ∈ sections, s.covers k) → d.cache.length = fill.length →
      CommitContract fill sections flash d := by
  intro hclaim
  have hcontract := hclaim (List.replicate 16 0) (tiledSections 8 8) false
    ⟨List.replicate 16 0, List.replicate 16 0⟩ (tiledSections_apart 8 8) (by decide)
    (by unfold Section.covers; decide) rfl
  obtain ⟨hfirst, -⟩ := hcontract.stores
  have hstore := hfirst (8, 1) (by decide +kernel)
  exact absurd hstore.2 (by decide)

end OpenwrtMtk.Nvram
