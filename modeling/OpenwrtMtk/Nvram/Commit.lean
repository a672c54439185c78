import OpenwrtMtk.Nvram.Codec

/-!
# What nvram_commit writes

A section of the buffer becomes its entries, a terminator and what the buffer held behind them,
after the checksum of these. The size check lets the entries and the terminator run up to
four bytes into the next section, where only a checksum stands that is written later.
-/

namespace OpenwrtMtk.Nvram

open Toolkit

set_option autoImplicit false

/-- The body with the entries written over `pad`. -/
def bodyImage (pad : List U8) (es : List Entry) : List U8 :=
  (serialize es ++ 0 :: pad.drop ((serialize es).length + 1)).take pad.length

/-- The section with the entries written over `pad`. -/
def sectionImage (pad : List U8) (es : List Entry) : List U8 :=
  le32 (crc32 0 (bodyImage pad es)) ++ bodyImage pad es

theorem bodyImage_clean {pad : List U8} {es : List Entry} (hes : ∀ e ∈ es, Storable e)
    (hcount : es.length ≤ maxEntry) (hfit : (serialize es).length ≤ pad.length) :
    Clean (bodyImage pad es) es where
  split := by
    refine ⟨(0 :: pad.drop ((serialize es).length + 1)).take (pad.length - (serialize es).length),
      ?_, Or.inr ?_⟩
    · rw [bodyImage, List.take_append, List.take_of_length_le hfit]
    · intro c hc
      cases hrest : pad.length - (serialize es).length with
      | zero => simp [hrest] at hc
      | succ k =>
        simp only [hrest, List.take_succ_cons, List.head?_cons, Option.mem_def,
          Option.some.injEq] at hc
        subst hc
        decide
  storable := hes
  count := hcount

section Put

variable {buffer buffer' : List U8} {p p' q : Nat} {bs : List U8}

theorem put_some (h : put buffer p bs = some buffer') :
    p + bs.length ≤ buffer.length ∧ buffer' = overwrite buffer p bs := by
  unfold put at h
  split at h
  · rename_i hle
    exact ⟨hle, by simpa using h.symm⟩
  · cases h

theorem putEntries_some : ∀ (es : List Entry) {buffer buffer' : List U8} {p p' : Nat},
    p ≤ buffer.length → putEntries q buffer p es = some (some (buffer', p')) →
    p + (serialize es).length ≤ buffer.length ∧ (es = [] ∨ p + (serialize es).length < q) ∧
      p' = p + (serialize es).length ∧ buffer' = overwrite buffer p (serialize es) := by
  intro es
  induction es with
  | nil =>
    intro buffer buffer' p p' hp h
    simp only [putEntries, Option.some.injEq, Prod.mk.injEq] at h
    obtain ⟨rfl, rfl⟩ := h
    exact ⟨by simpa using hp, Or.inl rfl, by simp, by simp [overwrite]⟩
  | cons e es ih =>
    intro buffer buffer' p p' hp h
    rw [putEntries] at h
    split at h
    · simp at h
    · rename_i hq
      cases hput : put buffer p e.bytes with
      | none => simp [hput] at h
      | some mid =>
        obtain ⟨hle, rfl⟩ := put_some hput
        simp only [hput] at h
        have hmid : p + e.bytes.length ≤ (overwrite buffer p e.bytes).length := by
          rw [length_overwrite hle]
          exact hle
        obtain ⟨hin, hlt, hp', hbuf⟩ := ih hmid h
        rw [length_overwrite hle] at hin
        rw [serialize_cons, List.length_append]
        refine ⟨by omega, Or.inr ?_, by omega, ?_⟩
        · rcases hlt with rfl | hlt
          · simp only [serialize_nil, List.length_nil]
            omega
          · omega
        · rw [hbuf, overwrite_append e.bytes (serialize es) (by omega)]

theorem putEntries_length : ∀ (es : List Entry) {buffer buffer' : List U8} {p p' : Nat},
    putEntries q buffer p es = some (some (buffer', p')) → buffer'.length = buffer.length := by
  intro es
  induction es with
  | nil =>
    intro buffer buffer' p p' h
    simp only [putEntries, Option.some.injEq, Prod.mk.injEq] at h
    rw [h.1]
  | cons e es ih =>
    intro buffer buffer' p p' h
    rw [putEntries] at h
    split at h
    · simp at h
    · cases hput : put buffer p e.bytes with
      | none => simp [hput] at h
      | some mid =>
        obtain ⟨hle, rfl⟩ := put_some hput
        simp only [hput] at h
        rw [ih h, length_overwrite hle]

theorem putEntries_exceeds : ∀ (es : List Entry) {buffer : List U8} {p : Nat},
    putEntries q buffer p es = some none → q ≤ p + (serialize es).length := by
  intro es
  induction es with
  | nil => intro buffer p h; simp [putEntries] at h
  | cons e es ih =>
    intro buffer p h
    rw [serialize_cons, List.length_append]
    rw [putEntries] at h
    split at h
    · omega
    · cases hput : put buffer p e.bytes with
      | none => simp [hput] at h
      | some mid =>
        simp only [hput] at h
        have hrest := ih h
        omega

end Put

def Section.body (s : Section) (file : List U8) : List U8 := slice file (s.offset + 4) (s.size - 4)

def Section.image (s : Section) (file : List U8) : List U8 := slice file s.offset s.size

def Section.Apart (s t : Section) : Prop :=
  s.offset + s.size ≤ t.offset ∨ t.offset + t.size ≤ s.offset

/-- What a successful `putSection` did to the buffer. -/
structure Written (buffer : List U8) (s : Section) (buffer' : List U8) : Prop where
  length : buffer'.length = buffer.length
  header : 4 ≤ s.size
  inside : s.offset + s.size ≤ buffer.length
  check : (serialize s.entries).length < s.size
  image : s.image buffer' = sectionImage (s.body buffer) s.entries
  frame : ∀ k, k < s.offset ∨ s.offset + 4 + (serialize s.entries).length < k →
    buffer'[k]? = buffer[k]?

theorem written_of_stores {buffer filled : List U8} {s : Section} (hsize : 4 ≤ s.size)
    (hend : s.offset + s.size ≤ buffer.length)
    (hcheck : (serialize s.entries).length < s.size)
    (hin : s.offset + 4 + (serialize s.entries ++ [0]).length ≤ buffer.length)
    (hfilled : filled = overwrite buffer (s.offset + 4) (serialize s.entries ++ [0])) :
    Written buffer s (overwrite filled s.offset (le32 (crc32 0 (s.body filled)))) := by
  have hlen : filled.length = buffer.length := by rw [hfilled, length_overwrite hin]
  have hcrc : s.offset + (le32 (crc32 0 (s.body filled))).length ≤ filled.length := by
    rw [length_le32]
    omega
  have hbody : s.body filled = bodyImage (s.body buffer) s.entries := by
    have hpad : (s.body buffer).length = s.size - 4 := length_slice (by omega)
    rw [bodyImage, hpad, Section.body, hfilled, slice_overwrite_front hin]
    simp [Section.body]
  refine ⟨by rw [length_overwrite hcrc, hlen], hsize, hend, hcheck, ?_, ?_⟩
  · have hcut : s.size = 4 + (s.size - 4) := by omega
    have hhead := slice_overwrite_self hcrc
    rw [length_le32] at hhead
    rw [Section.image, hcut, slice_add, hhead,
      slice_overwrite_disjoint hcrc (by rw [length_le32]; omega), sectionImage, ← hbody]
    rfl
  · intro k hk
    rw [List.length_append, List.length_singleton] at hin
    rw [getElem?_overwrite_out hcrc (by rw [length_le32]; omega), hfilled]
    apply getElem?_overwrite_out
    · rw [List.length_append, List.length_singleton]
      exact hin
    · rw [List.length_append, List.length_singleton]
      omega

theorem putSection_some {buffer buffer' : List U8} {s : Section}
    (h : putSection buffer s = some (some buffer')) : Written buffer s buffer' := by
  unfold putSection at h
  rcases hentries : putEntries (s.offset + 4 + s.size) buffer (s.offset + 4) s.entries with
    _ | _ | ⟨mid, p⟩
  · rw [hentries] at h
    cases h
  · rw [hentries] at h
    cases h
  · rw [hentries] at h
    cases hterm : put mid p [0] with
    | none => simp only [hterm, reduceCtorEq] at h
    | some filled =>
      simp only [hterm] at h
      obtain ⟨hp, hfilled⟩ := put_some hterm
      split at h
      · cases h
      · rename_i hbounds
        obtain ⟨final, hcrc, hfinal⟩ := Option.map_eq_some_iff.mp h
        obtain rfl : final = buffer' := by simpa using hfinal
        obtain ⟨_, rfl⟩ := put_some hcrc
        have hlen : mid.length = buffer.length := putEntries_length s.entries hentries
        have hsame : filled.length = mid.length := by rw [hfilled, length_overwrite hp]
        obtain ⟨_, hlt, rfl, rfl⟩ := putEntries_some s.entries (by omega) hentries
        have hin : s.offset + 4 + (serialize s.entries ++ [0]).length ≤ buffer.length := by
          rw [List.length_append, ← Nat.add_assoc, ← hlen]
          exact hp
        have hcheck : (serialize s.entries).length < s.size := by
          rcases hlt with hnil | hlt
          · rw [hnil, serialize_nil, List.length_nil]
            omega
          · omega
        apply written_of_stores (by omega) (by omega) hcheck hin
        rw [hfilled, overwrite_append (serialize s.entries) [0]
          (by rw [List.length_append] at hin; omega)]

theorem putSection_exceeds {buffer : List U8} {s : Section} (h : putSection buffer s = some none) :
    s.size ≤ (serialize s.entries).length := by
  unfold putSection at h
  rcases hentries : putEntries (s.offset + 4 + s.size) buffer (s.offset + 4) s.entries with
    _ | _ | ⟨mid, p⟩
  · rw [hentries] at h
    cases h
  · have hover := putEntries_exceeds s.entries hentries
    omega
  · rw [hentries] at h
    cases hterm : put mid p [0] with
    | none => simp only [hterm, reduceCtorEq] at h
    | some filled =>
      simp only [hterm] at h
      split at h
      · cases h
      · simp at h

/-- What `commitSections` did to one section of the file: written as an image over the buffer it
started with, or left alone because the size check failed before or at it. -/
def Settled (fill file file' : List U8) (rc : Rc) (s : Section) : Prop :=
  ((serialize s.entries).length < s.size ∧
      s.image file' = sectionImage (s.body fill) s.entries) ∨
    (rc = .ng ∧ s.image file' = s.image file)

/-- What `commitSections` did to the file. -/
structure Committed (sections : List Section) (fill file : List U8) (rc : Rc)
    (file' : List U8) : Prop where
  length : file'.length = file.length
  settled : ∀ s ∈ sections, Settled fill file file' rc s
  refused : rc = .ng → ∃ s ∈ sections, s.size ≤ (serialize s.entries).length
  frame : ∀ k, (∀ s ∈ sections, k < s.offset ∨ s.offset + s.size ≤ k) → file'[k]? = file[k]?

theorem fwriteAt_inside {file bs : List U8} {off : Nat} (h : off ≤ file.length) :
    fwriteAt file off bs = overwrite file off bs := by
  rw [fwriteAt, Nat.sub_eq_zero_of_le h, List.replicate_zero, List.append_nil]

theorem commitSections_committed : ∀ (sections : List Section) {buffer file buffer' file' : List U8}
    {rc : Rc}, sections.Pairwise Section.Apart →
    (∀ s ∈ sections, s.offset + s.size ≤ file.length) →
    commitSections sections buffer file = some (rc, buffer', file') →
    Committed sections buffer file rc file' := by
  intro sections
  induction sections with
  | nil =>
    intro buffer file buffer' file' rc _ _ h
    simp only [commitSections, Option.some.injEq, Prod.mk.injEq] at h
    obtain ⟨rfl, _, rfl⟩ := h
    exact ⟨rfl, by simp, by simp, fun _ _ => rfl⟩
  | cons s rest ih =>
    intro buffer file buffer' file' rc hapart hin h
    obtain ⟨hs, hrest⟩ := List.pairwise_cons.mp hapart
    rcases hput : putSection buffer s with _ | _ | mid
    · simp only [commitSections, hput, reduceCtorEq] at h
    · simp only [commitSections, hput, Option.some.injEq, Prod.mk.injEq] at h
      obtain ⟨rfl, _, rfl⟩ := h
      exact ⟨rfl, fun t _ => Or.inr ⟨rfl, rfl⟩,
        fun _ => ⟨s, List.mem_cons_self, putSection_exceeds hput⟩, fun _ _ => rfl⟩
    · have hw := putSection_some hput
      have himage : (s.image mid).length = s.size := length_slice (by rw [hw.length]; exact hw.inside)
      have hstore : s.offset + (s.image mid).length ≤ file.length := by
        rw [himage]
        exact hin s List.mem_cons_self
      have hwrite : fwriteAt file s.offset (s.image mid) = overwrite file s.offset (s.image mid) :=
        fwriteAt_inside (by omega)
      have hnext : commitSections rest mid (overwrite file s.offset (s.image mid)) =
          some (rc, buffer', file') := by
        rw [← hwrite]
        simp only [commitSections, hput] at h
        exact h
      have hlen := length_overwrite hstore
      have hcommitted := ih hrest
        (fun t ht => by rw [hlen]; exact hin t (List.mem_cons_of_mem s ht)) hnext
      refine ⟨by rw [hcommitted.length, hlen], ?_, ?_, ?_⟩
      · intro t ht
        rcases List.mem_cons.mp ht with rfl | ht
        · -- the sections behind it leave its bytes alone
          refine Or.inl ⟨hw.check, ?_⟩
          rw [← hw.image]
          have hself := slice_overwrite_self hstore
          rw [himage] at hself
          rw [← hself]
          apply slice_eq_of_getElem?
          intro k hk
          apply hcommitted.frame
          intro u hu
          have hd := hs u hu
          unfold Section.Apart at hd
          omega
        · have hd := hs t ht
          have hcheck := hw.check
          unfold Section.Apart at hd
          have hbody : t.body mid = t.body buffer := by
            apply slice_eq_of_getElem?
            intro k hk
            apply hw.frame
            omega
          have hold : t.image (overwrite file s.offset (s.image mid)) = t.image file :=
            slice_overwrite_disjoint hstore (by omega)
          rcases hcommitted.settled t ht with ⟨hfit, himg⟩ | ⟨hng, himg⟩
          · exact Or.inl ⟨hfit, by rw [himg, hbody]⟩
          · exact Or.inr ⟨hng, by rw [himg, hold]⟩
      · intro hng
        obtain ⟨t, ht, hover⟩ := hcommitted.refused hng
        exact ⟨t, List.mem_cons_of_mem s ht, hover⟩
      · intro k hk
        rw [hcommitted.frame k fun u hu => hk u (List.mem_cons_of_mem s hu)]
        apply getElem?_overwrite_out hstore
        rw [himage]
        exact hk s List.mem_cons_self

section Total

variable {buffer bs : List U8} {p q : Nat} {s : Section}

theorem put_inside (h : p + bs.length ≤ buffer.length) :
    put buffer p bs = some (overwrite buffer p bs) := if_pos h

theorem putEntries_total : ∀ (es : List Entry) (buffer : List U8) (p : Nat),
    p + (serialize es).length ≤ buffer.length → p + (serialize es).length < q →
    ∃ buffer', putEntries q buffer p es = some (some (buffer', p + (serialize es).length)) ∧
      buffer'.length = buffer.length := by
  intro es
  induction es with
  | nil => intro buffer p _ _; exact ⟨buffer, rfl, rfl⟩
  | cons e es ih =>
    intro buffer p hin hq
    rw [serialize_cons, List.length_append] at hin hq
    have hfirst : p + e.bytes.length ≤ buffer.length := by omega
    have hlen := length_overwrite hfirst
    obtain ⟨buffer', hput, hlen'⟩ := ih (overwrite buffer p e.bytes)
      (p + e.bytes.length) (by omega) (by omega)
    refine ⟨buffer', ?_, by rw [hlen', hlen]⟩
    rw [putEntries, if_neg (by omega), put_inside hfirst, serialize_cons, List.length_append,
      ← Nat.add_assoc]
    exact hput

theorem putSection_total (hend : s.offset + s.size ≤ buffer.length)
    (hfit : 4 + (serialize s.entries).length < s.size) :
    ∃ buffer', putSection buffer s = some (some buffer') := by
  obtain ⟨mid, hentries, hlen⟩ := @putEntries_total (s.offset + 4 + s.size) s.entries buffer
    (s.offset + 4) (by omega) (by omega)
  have hterm : s.offset + 4 + (serialize s.entries).length + [(0 : U8)].length ≤ mid.length := by
    rw [List.length_singleton]
    omega
  have hfilled := length_overwrite hterm
  unfold putSection
  rw [hentries]
  simp only [put_inside hterm]
  rw [if_neg (by omega), put_inside (by rw [length_le32]; omega)]
  exact ⟨_, rfl⟩

theorem commitSections_total : ∀ (buffer file : List U8) (sections : List Section),
    (∀ s ∈ sections, s.offset + s.size ≤ buffer.length ∧
      4 + (serialize s.entries).length < s.size) →
    ∃ buffer' file', commitSections sections buffer file = some (.ok, buffer', file') := by
  intro buffer file sections
  induction sections generalizing buffer file with
  | nil => intro _; exact ⟨buffer, file, rfl⟩
  | cons s rest ih =>
    intro hall
    obtain ⟨hend, hfit⟩ := hall s List.mem_cons_self
    obtain ⟨mid, hput⟩ := putSection_total hend hfit
    obtain ⟨buffer', file', hrest⟩ := ih mid
      (fwriteAt file s.offset (slice mid s.offset s.size)) (by
        intro t ht
        rw [(putSection_some hput).length]
        exact hall t (List.mem_cons_of_mem s ht))
    refine ⟨buffer', file', ?_⟩
    simp only [commitSections, hput]
    exact hrest

end Total

end OpenwrtMtk.Nvram
