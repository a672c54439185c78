import OpenwrtMtk.Nvram.Commit

/-!
# Read-only sections and the commit

`nvram set`, `del` and `clear` refuse a read-only section, but `nvram_commit` writes every section
of the layout, whatever its flag. A read-only section comes out as it was only when the
file already holds the encoding that the commit gives the entries read from it.
-/

namespace OpenwrtMtk.Nvram

open Toolkit

set_option autoImplicit false

/-- The byte `k` lies in no writable section. -/
def Protected (layout : List LayoutRow) (k : Nat) : Prop :=
  ∀ row ∈ layout, readOnly row.flag = false → k < row.offset ∨ row.offset + row.size ≤ k

def Section.covers (s : Section) (k : Nat) : Prop := s.offset ≤ k ∧ k < s.offset + s.size

/-- The byte `k` lies in no section that may be written. -/
def Untouchable (sections : List Section) (k : Nat) : Prop :=
  ∀ s ∈ sections, s.covers k → readOnly s.flag = true

instance (s : Section) (k : Nat) : Decidable (s.covers k) :=
  inferInstanceAs (Decidable (s.offset ≤ k ∧ k < s.offset + s.size))

instance (sections : List Section) (k : Nat) : Decidable (Untouchable sections k) :=
  inferInstanceAs (Decidable (∀ s ∈ sections, s.covers k → readOnly s.flag = true))

/-- The image of the section is what a commit over `fill` writes there. -/
def Canonical (fill image : List U8) (s : Section) : Prop :=
  s.image image = sectionImage (s.body fill) s.entries

def SparesFile (fill file : List U8) : List Section → Prop
  | [] => True
  | s :: rest => (serialize s.entries).length < s.size →
      (readOnly s.flag = true → Canonical fill file s) ∧ SparesFile fill file rest

/-- The buffer of a commit to flash agrees with the flash outside the writable sections: on
the read-only sections, between the sections, and no text runs out of its own section there. -/
structure SparesFlash (fill flash : List U8) (sections : List Section) : Prop where
  image : ∀ s ∈ sections, readOnly s.flag = true → Canonical fill flash s
  gap : ∀ k < flash.length, (∀ s ∈ sections, ¬ s.covers k) → fill[k]? = flash[k]?
  spill : ∀ k < flash.length, Untouchable sections k → ∀ s ∈ sections, s.offset + s.size ≤ k →
    s.offset + 4 + (serialize s.entries).length < k

def SparesReadOnly (fill : List U8) (sections : List Section) (flash : Bool) (d : Device) : Prop :=
  SparesFile fill d.cache sections ∧
    (flash = true → (∀ s ∈ sections, (serialize s.entries).length < s.size) →
      SparesFlash fill d.flash sections)

section Commit

variable {sections : List Section} {fill fill' file file' : List U8} {k : Nat}

theorem SparesFile.congr : ∀ (sections : List Section),
    (∀ s ∈ sections, s.body fill' = s.body fill ∧ s.image file' = s.image file) →
    SparesFile fill file sections → SparesFile fill' file' sections := by
  intro sections
  induction sections with
  | nil => intro _ _; trivial
  | cons s rest ih =>
    intro hsame h hfit
    obtain ⟨himage, hrest⟩ := h hfit
    obtain ⟨hbody, hfile⟩ := hsame s List.mem_cons_self
    refine ⟨?_, ih (fun t ht => hsame t (List.mem_cons_of_mem s ht)) hrest⟩
    intro hro
    rw [Canonical, hbody, hfile]
    exact himage hro

theorem Written.body_of_apart {buffer buffer' : List U8} {s t : Section}
    (hw : Written buffer s buffer') (hd : s.Apart t) : t.body buffer' = t.body buffer := by
  apply slice_eq_of_getElem?
  intro k hk
  apply hw.frame
  have hcheck := hw.check
  unfold Section.Apart at hd
  omega

theorem commitSections_file : ∀ (sections : List Section) {buffer file buffer' file' : List U8}
    {rc : Rc}, sections.Pairwise Section.Apart →
    (∀ s ∈ sections, s.offset + s.size ≤ file.length) → SparesFile buffer file sections →
    commitSections sections buffer file = some (rc, buffer', file') →
    ∀ k, Untouchable sections k → file'[k]? = file[k]? := by
  intro sections
  induction sections with
  | nil =>
    intro buffer file buffer' file' rc _ _ _ h k _
    simp only [commitSections, Option.some.injEq, Prod.mk.injEq] at h
    rw [h.2.2]
  | cons s rest ih =>
    intro buffer file buffer' file' rc hapart hin hspares h k hk
    obtain ⟨hs, hrest⟩ := List.pairwise_cons.mp hapart
    rcases hput : putSection buffer s with _ | _ | mid
    · simp only [commitSections, hput, reduceCtorEq] at h
    · simp only [commitSections, hput, Option.some.injEq, Prod.mk.injEq] at h
      rw [h.2.2]
    · have hw := putSection_some hput
      obtain ⟨hcanonical, hspares⟩ := hspares hw.check
      have himage : (s.image mid).length = s.size :=
        length_slice (by rw [hw.length]; exact hw.inside)
      have hstore : s.offset + (s.image mid).length ≤ file.length := by
        rw [himage]
        exact hin s List.mem_cons_self
      simp only [commitSections, hput] at h
      rw [fwriteAt_inside (by omega)] at h
      have hnext := ih hrest
        (fun t ht => by rw [length_overwrite hstore]; exact hin t (List.mem_cons_of_mem s ht))
        (SparesFile.congr rest (fun t ht =>
          ⟨hw.body_of_apart (hs t ht), slice_overwrite_disjoint hstore (by
            rw [himage]
            exact (hs t ht).symm)⟩) hspares) h k
        (fun t ht => hk t (List.mem_cons_of_mem s ht))
      rw [hnext]
      by_cases hcov : s.covers k
      · -- a read-only section is written with the bytes it has
        obtain ⟨hlow, hhigh⟩ := hcov
        have hsame : s.image mid = s.image file := by
          rw [hw.image]
          exact (hcanonical (hk s List.mem_cons_self ⟨hlow, hhigh⟩)).symm
        obtain ⟨i, rfl⟩ : ∃ i, k = s.offset + i := ⟨k - s.offset, by omega⟩
        have hget := getElem?_overwrite_in hstore (k := i) (by rw [himage]; omega)
        refine hget.trans ?_
        rw [hsame, Section.image, getElem?_slice, if_pos (by omega)]
      · apply getElem?_overwrite_out hstore
        unfold Section.covers at hcov
        rw [himage]
        omega

theorem commitSections_length : ∀ (sections : List Section) {buffer file buffer' file' : List U8}
    {rc : Rc}, commitSections sections buffer file = some (rc, buffer', file') →
    buffer'.length = buffer.length := by
  intro sections
  induction sections with
  | nil =>
    intro buffer file buffer' file' rc h
    simp only [commitSections, Option.some.injEq, Prod.mk.injEq] at h
    rw [h.2.1]
  | cons s rest ih =>
    intro buffer file buffer' file' rc h
    rcases hput : putSection buffer s with _ | _ | mid
    · simp only [commitSections, hput, reduceCtorEq] at h
    · simp only [commitSections, hput, Option.some.injEq, Prod.mk.injEq] at h
      rw [h.2.1]
    · simp only [commitSections, hput] at h
      rw [ih h, (putSection_some hput).length]

theorem commitSections_buffer : ∀ (sections : List Section)
    {buffer file buffer' file' flash : List U8}, sections.Pairwise Section.Apart →
    (∀ s ∈ sections, readOnly s.flag = true → Canonical buffer flash s) →
    (∀ s ∈ sections, s.offset + s.size ≤ k → s.offset + 4 + (serialize s.entries).length < k) →
    Untouchable sections k → ((∃ s ∈ sections, s.covers k) ∨ buffer[k]? = flash[k]?) →
    commitSections sections buffer file = some (.ok, buffer', file') →
    buffer'[k]? = flash[k]? := by
  intro sections
  induction sections with
  | nil =>
    intro buffer file buffer' file' flash _ _ _ _ hat h
    simp only [commitSections, Option.some.injEq, Prod.mk.injEq] at h
    obtain ⟨_, rfl, _⟩ := h
    rcases hat with ⟨s, hs, _⟩ | hat
    · cases hs
    · exact hat
  | cons s rest ih =>
    intro buffer file buffer' file' flash hapart hcanonical hspill hk hat h
    obtain ⟨hs, hrest⟩ := List.pairwise_cons.mp hapart
    rcases hput : putSection buffer s with _ | _ | mid
    · simp only [commitSections, hput, reduceCtorEq] at h
    · simp [commitSections, hput] at h
    · have hw := putSection_some hput
      simp only [commitSections, hput] at h
      have hmid : (∃ t ∈ rest, t.covers k) ∨ mid[k]? = flash[k]? := by
        by_cases hcov : s.covers k
        · obtain ⟨hlow, hhigh⟩ := hcov
          have hsame : s.image mid = s.image flash := by
            rw [hw.image]
            exact (hcanonical s List.mem_cons_self (hk s List.mem_cons_self ⟨hlow, hhigh⟩)).symm
          have hbyte := congrArg (fun xs : List U8 => xs[k - s.offset]?) hsame
          simp only [Section.image, getElem?_slice] at hbyte
          rw [if_pos (by omega), if_pos (by omega), Nat.add_sub_cancel' hlow] at hbyte
          exact Or.inr hbyte
        · rcases hat with ⟨t, ht, hcov'⟩ | hat
          · rcases List.mem_cons.mp ht with rfl | ht
            · exact absurd hcov' hcov
            · exact Or.inl ⟨t, ht, hcov'⟩
          · right
            rw [hw.frame k, hat]
            unfold Section.covers at hcov
            have hclear := hspill s List.mem_cons_self
            omega
      exact ih hrest
        (fun t ht hro => by
          rw [Canonical, hw.body_of_apart (hs t ht)]
          exact hcanonical t (List.mem_cons_of_mem s ht) hro)
        (fun t ht => hspill t (List.mem_cons_of_mem s ht))
        (fun t ht => hk t (List.mem_cons_of_mem s ht)) hmid h

end Commit

section Shape

variable {layout : List LayoutRow} {sections sections' : List Section} {file : List U8} {k : Nat}

def LayoutRow.extent (r : LayoutRow) : Nat × Nat × Nat := (r.offset, r.size, r.flag)

def Section.extent (s : Section) : Nat × Nat × Nat := (s.offset, s.size, s.flag)

/-- Sections that lie where the layout says, inside a file. -/
structure Placed (layout : List LayoutRow) (sections : List Section) (size : Nat) : Prop where
  extent : sections.map Section.extent = layout.map LayoutRow.extent
  inside : ∀ s ∈ sections, 4 ≤ s.size ∧ s.offset + s.size ≤ size

theorem Placed.apart {size : Nat} (h : Placed layout sections size)
    (hapart : layout.Pairwise LayoutRow.Apart) : sections.Pairwise Section.Apart := by
  let apart (e e' : Nat × Nat × Nat) : Prop := e.1 + e.2.1 ≤ e'.1 ∨ e'.1 + e'.2.1 ≤ e.1
  have hrows : (layout.map LayoutRow.extent).Pairwise apart := by
    rw [List.pairwise_map]
    exact hapart
  rw [← h.extent, List.pairwise_map] at hrows
  exact hrows

theorem Placed.untouchable {size : Nat} (h : Placed layout sections size)
    (hk : Protected layout k) : Untouchable sections k := by
  intro s hs hcov
  have hmem : s.extent ∈ layout.map LayoutRow.extent := by
    rw [← h.extent]
    exact List.mem_map.mpr ⟨s, hs, rfl⟩
  obtain ⟨row, hrow, hextent⟩ := List.mem_map.mp hmem
  simp only [LayoutRow.extent, Section.extent, Prod.mk.injEq] at hextent
  obtain ⟨hoffset, hsize, hflag⟩ := hextent
  unfold Section.covers at hcov
  by_contra hro
  have hout := hk row hrow (by rw [hflag]; simpa using hro)
  omega

theorem Placed.resize {size size' : Nat} (h : Placed layout sections size)
    (h' : Placed layout sections' size') : Placed layout sections size' := by
  refine ⟨h.extent, ?_⟩
  intro s hs
  have hmem : s.extent ∈ sections'.map Section.extent := by
    rw [h'.extent, ← h.extent]
    exact List.mem_map.mpr ⟨s, hs, rfl⟩
  obtain ⟨t, ht, hextent⟩ := List.mem_map.mp hmem
  simp only [Section.extent, Prod.mk.injEq] at hextent
  obtain ⟨hoffset, hsize, _⟩ := hextent
  rw [← hoffset, ← hsize]
  exact h'.inside t ht

theorem parseEntries_length (stop : Nat) : ∀ (n : Nat) {data data' : List U8} {p : Nat}
    {es : List Entry}, parseEntries stop n data p = some (data', es) →
    data'.length = data.length := by
  intro n
  induction n with
  | zero =>
    intro data data' p es h
    simp only [parseEntries, Option.some.injEq, Prod.mk.injEq] at h
    rw [h.1]
  | succ n ih =>
    intro data data' p es h
    rw [parseEntries] at h
    split at h
    · simp only [Option.some.injEq, Prod.mk.injEq] at h
      rw [h.1]
    · split at h
      · cases h
      · split at h
        · simp only [Option.some.injEq, Prod.mk.injEq] at h
          rw [h.1]
        · split at h
          · cases h
          · split at h
            · simp only [Option.some.injEq, Prod.mk.injEq] at h
              rw [h.1]
            · obtain ⟨⟨rest, more⟩, hrest, hresult⟩ := Option.map_eq_some_iff.mp h
              obtain ⟨rfl, _⟩ := Prod.mk.inj hresult
              rw [ih hrest, List.length_set]

theorem parseSections_placed (fresh : Nat → Slots) : ∀ (rows : List LayoutRow) {i : Nat}
    {data : List U8} {sections : List Section},
    parseSections fresh i rows data = some sections → Placed rows sections data.length := by
  intro rows
  induction rows with
  | nil =>
    intro i data sections h
    obtain rfl : sections = [] := by simpa [parseSections] using h.symm
    exact ⟨rfl, by simp⟩
  | cons row rows ih =>
    intro i data sections h
    rw [parseSections] at h
    split at h
    · cases h
    · rename_i hbounds
      split at h
      · cases h
      · rename_i data' es hentries
        obtain ⟨rest, hrest, rfl⟩ := Option.map_eq_some_iff.mp h
        have hplaced := ih hrest
        rw [parseEntries_length _ _ hentries] at hplaced
        refine ⟨?_, ?_⟩
        · rw [List.map_cons, List.map_cons, hplaced.extent]
          rfl
        · intro s hs
          rcases List.mem_cons.mp hs with rfl | hs
          · dsimp only
            omega
          · exact hplaced.inside s hs

theorem nvramParse_placed {fresh : Nat → Slots} (h : nvramParse layout fresh file = some sections) :
    Placed layout sections file.length := parseSections_placed fresh layout h

theorem editSection_placed {size : Nat} {name : String} {edit : Slots → Option Slots}
    (hplaced : Placed layout sections size) (h : editSection sections name edit = some sections') :
    Placed layout sections' size := by
  unfold editSection at h
  split at h
  · cases h
  · rename_i i _
    split at h
    · cases h
    · rename_i s hs
      split at h
      · cases h
      · obtain ⟨slots, _, rfl⟩ := Option.map_eq_some_iff.mp h
        obtain ⟨hi, hget⟩ := List.getElem?_eq_some_iff.mp hs
        refine ⟨?_, ?_⟩
        · have hin : i < (sections.map Section.extent).length := by simpa using hi
          have hextent : ({ s with cache := slots } : Section).extent =
              (sections.map Section.extent)[i] := by
            rw [List.getElem_map, hget]
            rfl
          rw [List.map_set, hextent, List.set_getElem_self, hplaced.extent]
        · intro t ht
          rcases List.mem_or_eq_of_mem_set ht with ht | rfl
          · exact hplaced.inside t ht
          · exact hplaced.inside s (List.mem_of_getElem? hs)

end Shape

/-- One command: the operation and what malloc returns to it. -/
structure Cmd where
  op : Op
  fresh : Nat → Slots
  fill : List U8

/-- One process; the buffer of `nvram_commit` has the size of the partition. -/
def cliStep (layout : List LayoutRow) (d : Device) (c : Cmd) : Option Device :=
  if c.fill.length = d.cache.length then (runOp layout c.fresh c.fill d c.op).map Prod.snd
  else none

/-- The sections that the operation hands to `nvram_commit`, and whether it writes flash; `none`
when it does not get there. -/
def committed (layout : List LayoutRow) (d : Device) (c : Cmd) : Option (List Section × Bool) :=
  match c.op with
  | .set name key value =>
    ((nvramParse layout c.fresh d.cache).bind (nvramBufSet · name key value)).map (·, false)
  | .del name key =>
    ((nvramParse layout c.fresh d.cache).bind (nvramBufDel · name key)).map (·, false)
  | .clear _ => none
  | .loadfile none => none
  | .loadfile (some defile) => (nvramParse layout c.fresh defile).map (·, true)
  | .commit => (nvramParse layout c.fresh d.cache).map (·, true)

/-- The command does not get to `nvram_commit`, or that finds the read-only bytes as it would
write them. -/
def Spared (layout : List LayoutRow) (d : Device) (c : Cmd) : Prop :=
  ∀ p ∈ committed layout d c, SparesReadOnly c.fill p.1 p.2 d

instance decidableSparesFile (fill file : List U8) :
    ∀ sections, Decidable (SparesFile fill file sections)
  | [] => .isTrue trivial
  | s :: rest =>
    have := decidableSparesFile fill file rest
    inferInstanceAs (Decidable (_ → (_ → Section.image s file = _) ∧ SparesFile fill file rest))

instance (fill flash : List U8) (sections : List Section) :
    Decidable (SparesFlash fill flash sections) :=
  have (s : Section) : Decidable (Canonical fill flash s) :=
    inferInstanceAs (Decidable (s.image flash = sectionImage (s.body fill) s.entries))
  decidable_of_iff
    ((∀ s ∈ sections, readOnly s.flag = true → Canonical fill flash s) ∧
      (∀ k < flash.length, (∀ s ∈ sections, ¬ s.covers k) → fill[k]? = flash[k]?) ∧
      ∀ k < flash.length, Untouchable sections k → ∀ s ∈ sections, s.offset + s.size ≤ k →
        s.offset + 4 + (serialize s.entries).length < k)
    ⟨fun h => ⟨h.1, h.2.1, h.2.2⟩, fun h => ⟨h.image, h.gap, h.spill⟩⟩

instance (fill : List U8) (sections : List Section) (flash : Bool) (d : Device) :
    Decidable (SparesReadOnly fill sections flash d) :=
  inferInstanceAs (Decidable (_ ∧ (_ → _ → _)))

instance (layout : List LayoutRow) (d : Device) (c : Cmd) : Decidable (Spared layout d c) :=
  inferInstanceAs (Decidable (∀ p ∈ committed layout d c, _))

section Runs

variable {layout : List LayoutRow} {size : Nat} {d d' : Device} {c : Cmd} {k : Nat}

theorem runOp_committed {rc : Rc} (h : runOp layout c.fresh c.fill d c.op = some (rc, d')) :
    (∃ sections flash, committed layout d c = some (sections, flash) ∧
      Placed layout sections d.cache.length ∧
      nvramCommit c.fill sections flash d = some (rc, d')) ∨
    (∃ sections name, Placed layout sections d.cache.length ∧
      nvramClear sections name d = (rc, d')) ∨ d' = d := by
  obtain ⟨op, fresh, fill⟩ := c
  cases hparse : nvramParse layout fresh d.cache with
  | none => cases op with
    | loadfile defile => cases defile <;> simp [runOp, hparse] at h
    | _ => simp [runOp, hparse] at h
  | some sections =>
    have hplaced := nvramParse_placed hparse
    cases op with
    | set name key value =>
      simp only [runOp, hparse, Option.bind_some] at h
      cases hedit : nvramBufSet sections name key value with
      | none =>
        simp only [hedit, Option.some.injEq, Prod.mk.injEq] at h
        exact Or.inr (Or.inr h.2.symm)
      | some edited =>
        simp only [hedit] at h
        refine Or.inl ⟨edited, false, ?_, editSection_placed hplaced hedit, h⟩
        simp [committed, hparse, hedit]
    | del name key =>
      simp only [runOp, hparse, Option.bind_some] at h
      cases hedit : nvramBufDel sections name key with
      | none =>
        simp only [hedit, Option.some.injEq, Prod.mk.injEq] at h
        exact Or.inr (Or.inr h.2.symm)
      | some edited =>
        simp only [hedit] at h
        refine Or.inl ⟨edited, false, ?_, editSection_placed hplaced hedit, h⟩
        simp [committed, hparse, hedit]
    | clear name =>
      simp only [runOp, hparse, Option.map_some, Option.some.injEq] at h
      exact Or.inr (Or.inl ⟨sections, name, hplaced, h⟩)
    | loadfile defile =>
      cases defile with
      | none =>
        simp only [runOp, hparse, Option.map_some, Option.some.injEq, Prod.mk.injEq] at h
        exact Or.inr (Or.inr h.2.symm)
      | some defile =>
        simp only [runOp, hparse, Option.bind_some] at h
        obtain ⟨loaded, hload, h⟩ := Option.bind_eq_some_iff.mp h
        refine Or.inl ⟨loaded, true, ?_, (nvramParse_placed hload).resize hplaced, h⟩
        simp [committed, hload]
    | commit =>
      simp only [runOp, hparse, Option.bind_some] at h
      refine Or.inl ⟨sections, true, ?_, hplaced, h⟩
      simp [committed, hparse]

theorem nvramClear_protected {sections : List Section} {name : String} {rc : Rc}
    (hplaced : Placed layout sections d.cache.length) (hk : Protected layout k)
    (h : nvramClear sections name d = (rc, d')) :
    d'.cache.length = d.cache.length ∧ d'.cache[k]? = d.cache[k]? ∧ d'.flash = d.flash := by
  unfold nvramClear at h
  split at h
  · obtain ⟨_, rfl⟩ := Prod.mk.inj h
    exact ⟨rfl, rfl, rfl⟩
  · rename_i s hs
    obtain ⟨i, _, hget⟩ := Option.bind_eq_some_iff.mp hs
    have hmem := List.mem_of_getElem? hget
    obtain ⟨hsize, hend⟩ := hplaced.inside s hmem
    have hlen : (clearedSection s.size).length = s.size := by
      rw [clearedSection, List.length_append, length_le32, List.length_replicate]
      omega
    split at h
    · obtain ⟨_, rfl⟩ := Prod.mk.inj h
      exact ⟨rfl, rfl, rfl⟩
    · rename_i hflag
      obtain ⟨_, rfl⟩ := Prod.mk.inj h
      have hstore : s.offset + (clearedSection s.size).length ≤ d.cache.length := by rwa [hlen]
      dsimp only
      rw [fwriteAt_inside (by omega)]
      refine ⟨length_overwrite hstore, ?_, rfl⟩
      apply getElem?_overwrite_out hstore
      rw [hlen]
      by_contra hcov
      exact hflag (hplaced.untouchable hk s hmem (by unfold Section.covers; omega))

theorem nvramCommit_protected {sections : List Section} {flash : Bool} {rc : Rc} {fill : List U8}
    (hapart : layout.Pairwise LayoutRow.Apart) (hplaced : Placed layout sections d.cache.length)
    (hfill : fill.length = d.cache.length) (hflash : d.flash.length = d.cache.length)
    (hspares : SparesReadOnly fill sections flash d) (hk : Protected layout k)
    (h : nvramCommit fill sections flash d = some (rc, d')) :
    d'.cache.length = d.cache.length ∧ d'.cache[k]? = d.cache[k]? ∧
      d'.flash.length = d.flash.length ∧ d'.flash[k]? = d.flash[k]? := by
  obtain ⟨⟨rc', buffer, file⟩, hcommit, hresult⟩ := Option.map_eq_some_iff.mp h
  have hin : ∀ s ∈ sections, s.offset + s.size ≤ d.cache.length :=
    fun s hs => (hplaced.inside s hs).2
  have hdisjoint := hplaced.apart hapart
  have huntouchable := hplaced.untouchable hk
  have hc := commitSections_committed sections hdisjoint hin hcommit
  have hfile := commitSections_file sections hdisjoint hin hspares.1 hcommit k huntouchable
  cases rc' with
  | ng =>
    obtain ⟨_, rfl⟩ := Prod.mk.inj hresult
    exact ⟨hc.length, hfile, rfl, rfl⟩
  | ok =>
    obtain ⟨_, rfl⟩ := Prod.mk.inj hresult
    cases flash with
    | false => exact ⟨hc.length, hfile, rfl, rfl⟩
    | true =>
      have hcheck : ∀ s ∈ sections, (serialize s.entries).length < s.size := by
        intro s hs
        rcases hc.settled s hs with hfit | hng
        · exact hfit.1
        · cases hng.1
      obtain ⟨himage, hgap, hspill⟩ := hspares.2 rfl hcheck
      have hlen := commitSections_length sections hcommit
      have hstore : 0 + buffer.length ≤ d.flash.length := by omega
      refine ⟨hc.length, hfile, length_overwrite hstore, ?_⟩
      rw [if_pos rfl]
      by_cases hkin : k < d.flash.length
      · have hat : (∃ s ∈ sections, s.covers k) ∨ fill[k]? = d.flash[k]? := by
          by_cases hcov : ∃ s ∈ sections, s.covers k
          · exact Or.inl hcov
          · exact Or.inr (hgap k hkin fun s hs hs' => hcov ⟨s, hs, hs'⟩)
        have hget := getElem?_overwrite_in hstore (k := k) (by omega)
        rw [Nat.zero_add] at hget
        rw [hget]
        exact commitSections_buffer sections hdisjoint himage (hspill k hkin huntouchable)
          huntouchable hat hcommit
      · rw [List.getElem?_eq_none (by rw [length_overwrite hstore]; omega),
          List.getElem?_eq_none (by omega)]

structure Kept (d₀ d : Device) (k : Nat) : Prop where
  sizes : d.cache.length = d₀.cache.length ∧ d.flash.length = d₀.flash.length
  cache : d.cache[k]? = d₀.cache[k]?
  flash : d.flash[k]? = d₀.flash[k]?

theorem cliStep_protected (hapart : layout.Pairwise LayoutRow.Apart)
    (hflash : d.flash.length = d.cache.length) (hspared : Spared layout d c)
    (hk : Protected layout k) (h : cliStep layout d c = some d') : Kept d d' k := by
  unfold cliStep at h
  split at h
  · rename_i hfill
    obtain ⟨⟨rc, d''⟩, hrun, hd⟩ := Option.map_eq_some_iff.mp h
    obtain rfl : d'' = d' := hd
    rcases runOp_committed hrun with ⟨sections, flash, hsec, hplaced, hcommit⟩ |
      ⟨sections, name, hplaced, hclear⟩ | rfl
    · obtain ⟨hlen, hcache, hlen', hbyte⟩ := nvramCommit_protected hapart hplaced hfill hflash
        (hspared _ hsec) hk hcommit
      exact ⟨⟨hlen, hlen'⟩, hcache, hbyte⟩
    · obtain ⟨hlen, hcache, hsame⟩ := nvramClear_protected hplaced hk hclear
      exact ⟨⟨hlen, by rw [hsame]⟩, hcache, by rw [hsame]⟩
    · exact ⟨⟨rfl, rfl⟩, rfl, rfl⟩
  · cases h

/-- Any commands whose commits spare the read-only sections leave the bytes outside the
writable sections alone, in the cache file and on flash. -/
theorem read_only_bytes_kept {layout : List LayoutRow} {size : Nat} {d₀ d : Device}
    {cmds : List Cmd} (hapart : layout.Pairwise LayoutRow.Apart)
    (hcache : d₀.cache.length = size) (hflash : d₀.flash.length = size)
    (hrun : Run (Guarded (Spared layout) (Graph (cliStep layout))) d₀ cmds d)
    {k : Nat} (hk : Protected layout k) :
    d.cache[k]? = d₀.cache[k]? ∧ d.flash[k]? = d₀.flash[k]? := by
  have hkept : Kept d₀ d k := by
    apply hrun.invariant (Kept d₀ · k) _ ⟨⟨rfl, rfl⟩, rfl, rfl⟩
    intro s c s' hs hstep
    obtain ⟨hsizes, hbyte, hflashByte⟩ := hs
    have hstep' := cliStep_protected hapart (by omega) hstep.1 hk hstep.2
    obtain ⟨hsizes', hbyte', hflashByte'⟩ := hstep'
    exact ⟨by omega, by rw [hbyte', hbyte], by rw [hflashByte', hflashByte]⟩
  exact ⟨hkept.cache, hkept.flash⟩

end Runs

def smallLayout : List LayoutRow := [⟨"ro", 0, 12, nvRO⟩, ⟨"rw", 12, 16, 0⟩]

def zeroed (op : Op) : Cmd := ⟨op, zeroSlots, List.replicate 32 0⟩

/-- A partition as a commit leaves it: `m=1` in the read-only section. -/
def writtenPartition : List U8 :=
  sectionImage (List.replicate 8 0) [⟨[0x6d], [0x31]⟩] ++ sectionImage (List.replicate 12 0) [] ++
    List.replicate 4 0

theorem read_only_bytes_kept_committed :
    ∃ d, Run (Guarded (Spared smallLayout) (Graph (cliStep smallLayout)))
        ⟨writtenPartition, writtenPartition⟩ [zeroed (.set "rw" [0x61] [0x62]), zeroed .commit] d ∧
      d.cache[4]? = some 0x6d ∧ d.flash[4]? = some 0x6d := by
  obtain ⟨d, hd⟩ := Option.isSome_iff_exists.mp (by decide +kernel :
    (exec (guardStep (Spared smallLayout) (cliStep smallLayout)) ⟨writtenPartition, writtenPartition⟩
      [zeroed (.set "rw" [0x61] [0x62]), zeroed .commit]).isSome = true)
  have hrun := exec_guarded_run hd
  have hkept := @read_only_bytes_kept smallLayout 32 _ _ _ (by simp [smallLayout, LayoutRow.Apart])
    (by decide +kernel) (by decide +kernel) hrun 4 (by
      intro row hrow
      simp only [smallLayout, List.mem_cons, List.not_mem_nil, or_false] at hrow
      rcases hrow with rfl | rfl <;> decide)
  refine ⟨d, hrun, ?_, ?_⟩
  · rw [hkept.1]
    decide +kernel
  · rw [hkept.2]
    decide +kernel

def foreignPartition : List U8 :=
  [0, 0, 0, 0, 0x68, 0x69] ++ List.replicate 26 0

/-- A set in the writable section rewrites the read-only one. -/
theorem set_rewrites_read_only :
    ¬ ∀ (layout : List LayoutRow) (size : Nat) (d₀ d : Device) (cmds : List Cmd),
      layout.Pairwise LayoutRow.Apart → d₀.cache.length = size → d₀.flash.length = size →
      Run (Graph (cliStep layout)) d₀ cmds d → ∀ k, Protected layout k →
      d.cache[k]? = d₀.cache[k]? ∧ d.flash[k]? = d₀.flash[k]? := by
  intro hclaim
  have hset : (exec (cliStep smallLayout) ⟨foreignPartition, foreignPartition⟩
      [zeroed (.set "rw" [0x61] [0x62])]).map (fun d => d.cache[4]?) = some (some 0) := by
    decide +kernel
  obtain ⟨d, hd, hbyte⟩ := Option.map_eq_some_iff.mp hset
  have hkept := hclaim smallLayout 32 _ d _ (by simp [smallLayout, LayoutRow.Apart])
    (by decide +kernel) (by decide +kernel) (exec_run hd) 4 (by
      intro row hrow
      simp only [smallLayout, List.mem_cons, List.not_mem_nil, or_false] at hrow
      rcases hrow with rfl | rfl <;> decide)
  rw [hbyte] at hkept
  exact absurd hkept.1 (by decide +kernel)

end OpenwrtMtk.Nvram
