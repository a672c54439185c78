import Mathlib.Data.List.Forall2
import OpenwrtMtk.Nvram.Codec

/-!
# What nvram_parse reads of a section

The loop knows where a section ends only at the start of an entry: `strchr` and `strlen` run on
to the next NUL. It keeps to the section exactly when each string it looks at ends there. The
slots behind the last entry are what `malloc` returned, since the `memset` clears only the size
of a size.
-/

namespace OpenwrtMtk.Nvram

open Toolkit

set_option autoImplicit false

/-- What the loop stops at before all slots are used: a byte that starts no entry, the end of the
section, or a string with no `=`. -/
def StopsIn (tail : List U8) : Prop :=
  (∀ c ∈ tail.head?, stopsParse c = true) ∨
    ∃ s rest, tail = s ++ 0 :: rest ∧ 0 ∉ s ∧ equalsSign ∉ s

/-- Entries that end in the body, as many as fit into `n` slots, and then something to stop at. -/
structure Readable (n : Nat) (body : List U8) (es : List Entry) : Prop where
  split : ∃ tail, body = serialize es ++ tail ∧ (es.length = n ∨ StopsIn tail)
  storable : ∀ e ∈ es, Storable e
  count : es.length ≤ n

theorem Readable.length_le {n : Nat} {body : List U8} {es : List Entry} (h : Readable n body es) :
    (serialize es).length ≤ body.length := by
  obtain ⟨tail, rfl, _⟩ := h.split
  rw [List.length_append]
  omega

section Entries

variable {stop n p : Nat} {data data' body s : List U8} {es : List Entry}

theorem parseEntries_plain {rest : List U8} (hdata : data.drop p = s ++ 0 :: rest) (hnul : 0 ∉ s)
    (heq : equalsSign ∉ s) : parseEntries stop n data p = some (data, []) := by
  cases n with
  | zero => rfl
  | succ n =>
    have hhead : ∃ c, data[p]? = some c := by
      have hfront := congrArg (fun xs : List U8 => xs[0]?) hdata
      rw [List.getElem?_drop, Nat.add_zero] at hfront
      cases s with
      | nil => exact ⟨0, hfront⟩
      | cons c s => exact ⟨c, hfront⟩
    obtain ⟨c, hc⟩ := hhead
    rw [parseEntries, hc, hdata, cstr_append rest hnul]
    simp only [splitFirst_of_not_mem heq, ite_self]

theorem parseEntries_readable (hp : p ≤ stop) (hstop : stop ≤ data.length)
    (h : Readable n (slice data p (stop - p)) es) :
    ∃ data', parseEntries stop n data p = some (data', es) ∧ data'.length = data.length ∧
      ∀ k, k < p ∨ stop ≤ k → data'[k]? = data[k]? := by
  obtain ⟨tail, hslice, hend⟩ := h.split
  rcases hend with hfull | hhead | ⟨s, rest, rfl, hnul, heq⟩
  · exact parseEntries_serialize es h.storable hp hstop hslice h.count (Or.inl hfull)
  · exact parseEntries_serialize es h.storable hp hstop hslice h.count (Or.inr hhead)
  · obtain ⟨data', hlen, hout, hparse⟩ := parseEntries_front es h.storable hp hstop hslice h.count
    have hfit := h.length_le
    rw [length_slice (by omega)] at hfit
    refine ⟨data', ?_, hlen, fun k hk => hout k (by omega)⟩
    have hsame : slice data' (p + (serialize es).length) (stop - (p + (serialize es).length)) =
        slice data (p + (serialize es).length) (stop - (p + (serialize es).length)) :=
      slice_eq_of_getElem? fun k _ => hout _ (by omega)
    have hrest : data'.drop (p + (serialize es).length) = s ++ 0 :: (rest ++ data'.drop stop) := by
      rw [drop_eq_slice_append data' _ (stop - (p + (serialize es).length)), hsame, ← Nat.sub_sub,
        ← drop_slice, hslice, List.drop_left, Nat.sub_sub]
      have hback : p + (serialize es).length + (stop - (p + (serialize es).length)) = stop := by
        omega
      rw [hback, List.append_assoc]
      rfl
    rw [hparse, parseEntries_plain hrest hnul heq]
    simp

theorem storable_of_split {name value xs : List U8} (hcstr : cstr xs = some s)
    (hsplit : splitFirst equalsSign s = some (name, value))
    (hgo : ∀ c ∈ xs.head?, stopsParse c = false) :
    Storable ⟨name, value⟩ ∧ s.length + 1 = (Entry.bytes ⟨name, value⟩).length ∧
      ∃ rest, xs = (Entry.bytes ⟨name, value⟩) ++ rest := by
  obtain ⟨hnul, rest, rfl⟩ := cstr_eq_some hcstr
  obtain ⟨rfl, hname⟩ := splitFirst_eq_some hsplit
  simp only [List.mem_append, List.mem_cons, not_or] at hnul
  refine ⟨⟨hnul.1, hnul.2.2, hname, ?_⟩, by simp [Entry.bytes]; omega, rest,
    by simp [Entry.bytes]⟩
  intro c hc
  apply hgo
  cases name with
  | nil => cases hc
  | cons b name => exact hc

/-- What a parse of a buffer that ends with the section says about its bytes. -/
theorem readable_of_parseEntries : ∀ (n : Nat) {p : Nat} {data data' : List U8} {es : List Entry},
    parseEntries data.length n data p = some (data', es) → Readable n (data.drop p) es := by
  intro n
  induction n with
  | zero =>
    intro p data data' es h
    obtain ⟨-, rfl⟩ := Prod.mk.inj (Option.some.inj h)
    exact ⟨⟨data.drop p, rfl, Or.inl rfl⟩, by simp, by simp⟩
  | succ n ih =>
    intro p data data' es h
    have hstops : StopsIn (data.drop p) → [] = es → Readable (n + 1) (data.drop p) es := by
      intro hstop hnil
      subst hnil
      exact ⟨⟨data.drop p, rfl, Or.inr hstop⟩, by simp, by simp⟩
    rw [parseEntries] at h
    split at h
    · rename_i hend
      apply hstops _ (Prod.mk.inj (Option.some.inj h)).2
      rw [List.drop_eq_nil_of_le hend]
      exact Or.inl (by simp)
    · rename_i hin
      have hhead : (data.drop p).head? = some data[p] := by
        rw [List.head?_drop, List.getElem?_eq_getElem (by omega)]
      rw [List.getElem?_eq_getElem (by omega)] at h
      simp only at h
      split at h
      · rename_i hstop
        apply hstops _ (Prod.mk.inj (Option.some.inj h)).2
        rw [StopsIn, hhead]
        exact Or.inl fun c hc => Option.some.inj hc ▸ hstop
      · rename_i hgo
        cases hcstr : cstr (data.drop p) with
        | none => rw [hcstr] at h; cases h
        | some s =>
          rw [hcstr] at h
          simp only at h
          cases hsplit : splitFirst equalsSign s with
          | none =>
            rw [hsplit] at h
            obtain ⟨hnul, rest, hdata⟩ := cstr_eq_some hcstr
            apply hstops _ (Prod.mk.inj (Option.some.inj h)).2
            exact Or.inr ⟨s, rest, hdata, hnul, splitFirst_eq_none hsplit⟩
          | some r =>
            obtain ⟨name, value⟩ := r
            rw [hsplit] at h
            obtain ⟨⟨data₂, es₂⟩, hparse, heq⟩ := Option.map_eq_some_iff.mp h
            obtain ⟨-, rfl⟩ := Prod.mk.inj heq
            obtain ⟨he, hlen, rest, hdata⟩ := storable_of_split hcstr hsplit (by
              rw [hhead]
              exact fun c hc => Option.some.inj hc ▸ Bool.eq_false_iff.mpr hgo)
            have hbytes : (Entry.bytes ⟨name, value⟩).length = name.length + value.length + 2 :=
              length_bytes ⟨name, value⟩
            -- the NUL is stored before the string behind it
            have hbehind : (data.set (p + name.length) 0).drop (p + s.length + 1) = rest := by
              rw [List.drop_set_of_lt (by omega), Nat.add_assoc, hlen, ← List.drop_drop, hdata,
                List.drop_left]
            have hnext : Readable n ((data.set (p + name.length) 0).drop (p + s.length + 1)) es₂ :=
              ih (by rwa [List.length_set])
            rw [hbehind] at hnext
            obtain ⟨tail, hrest, hstop⟩ := hnext.split
            refine ⟨⟨tail, by rw [hdata, hrest, serialize_cons, List.append_assoc], ?_⟩, ?_, ?_⟩
            · rw [List.length_cons, Nat.succ_inj]
              exact hstop
            · exact List.forall_mem_cons.mpr ⟨he, hnext.storable⟩
            · rw [List.length_cons]
              exact Nat.succ_le_succ hnext.count

end Entries

def ownEntries (bytes : List U8) : Option (List Entry) :=
  (parseEntries bytes.length maxEntry bytes 4).map Prod.snd

def LayoutRow.image (row : LayoutRow) (file : List U8) : List U8 := slice file row.offset row.size

theorem ownEntries_eq_some {row : LayoutRow} {file : List U8} {es : List Entry}
    (hsize : 4 ≤ row.size) (hend : row.offset + row.size ≤ file.length) :
    ownEntries (row.image file) = some es ↔ Readable maxEntry (row.body file) es := by
  have hlen : (row.image file).length = row.size := length_slice hend
  have hbody : (row.image file).drop 4 = row.body file := drop_slice file row.offset row.size 4
  constructor
  · intro h
    obtain ⟨⟨data', es'⟩, hparse, heq⟩ := Option.map_eq_some_iff.mp h
    obtain rfl : es' = es := heq
    rw [← hbody]
    exact readable_of_parseEntries maxEntry hparse
  · intro h
    have hslice : slice (row.image file) 4 ((row.image file).length - 4) = row.body file := by
      rw [← hbody, slice, List.take_of_length_le (by simp)]
    have hread : Readable maxEntry (slice (row.image file) 4 ((row.image file).length - 4)) es := by
      rwa [hslice]
    obtain ⟨data', hparse, -, -⟩ := parseEntries_readable (by omega) (Nat.le_refl _) hread
    rw [ownEntries, hparse]
    rfl

/-- The slots hold the entries the section has by itself, all of them end inside it, and the
other slots are empty. -/
structure ParsedLocally (file : List U8) (row : LayoutRow) (s : Section) : Prop where
  own : ∃ es rest, ownEntries (row.image file) = some es ∧ 4 + (serialize es).length ≤ row.size ∧
    s.cache = es.map some ++ rest ∧ ∀ x ∈ rest, x = none

def ParsesLocally (layout : List LayoutRow) (fresh : Nat → Slots) (file : List U8) : Prop :=
  ∃ sections, nvramParse layout fresh file = some sections ∧
    List.Forall₂ (ParsedLocally file) layout sections

def LocallyReadable (fresh : Nat → Slots) (file : List U8) : Nat → List LayoutRow → Prop
  | _, [] => True
  | i, row :: rows =>
    (∃ es, Readable maxEntry (row.body file) es ∧ ∀ x ∈ (fresh i).drop es.length, x = none) ∧
      LocallyReadable fresh file (i + 1) rows

section Sections

variable {fresh : Nat → Slots} {file : List U8}

theorem LocallyReadable.readable : ∀ {layout : List LayoutRow} {i : Nat},
    LocallyReadable fresh file i layout →
    ∀ row ∈ layout, ∃ es, Readable maxEntry (row.body file) es := by
  intro layout
  induction layout with
  | nil => intro i _ row hrow; cases hrow
  | cons row layout ih =>
    intro i h
    obtain ⟨⟨es, hes, _⟩, hrest⟩ := h
    exact List.forall_mem_cons.mpr ⟨⟨es, hes⟩, ih hrest⟩

theorem parseSections_readable (fresh : Nat → Slots) : ∀ (rows : List LayoutRow) (i : Nat) (data : List U8),
    rows.Pairwise LayoutRow.Apart →
    (∀ row ∈ rows, 4 ≤ row.size ∧ row.offset + row.size ≤ data.length) →
    data.length = file.length →
    (∀ row ∈ rows, row.body data = row.body file) →
    (∀ row ∈ rows, ∃ es, Readable maxEntry (row.body file) es) →
    ∃ sections, parseSections fresh i rows data = some sections ∧
      (List.Forall₂ (ParsedLocally file) rows sections ↔ LocallyReadable fresh file i rows) := by
  intro rows
  induction rows with
  | nil =>
    intro i data _ _ _ _ _
    exact ⟨[], rfl, iff_of_true List.Forall₂.nil trivial⟩
  | cons row rows ih =>
    intro i data hapart hin hdata hsame hread
    obtain ⟨hrow, hrows⟩ := List.pairwise_cons.mp hapart
    obtain ⟨hsize, hend⟩ := hin row List.mem_cons_self
    obtain ⟨es, hes⟩ := hread row List.mem_cons_self
    have hown := (ownEntries_eq_some hsize (hdata ▸ hend)).mpr hes
    have hslice : slice data (row.offset + 4) (row.offset + row.size - (row.offset + 4)) =
        row.body file := by
      rw [← hsame row List.mem_cons_self, LayoutRow.body]
      congr 1
      omega
    obtain ⟨data', hparse, hlen, hout⟩ := parseEntries_readable (by omega) hend (hslice ▸ hes)
    have hrest : ∀ other ∈ rows, other.body data' = other.body file := by
      intro other hother
      rw [← hsame other (List.mem_cons_of_mem row hother)]
      apply slice_eq_of_getElem?
      intro k hk
      apply hout
      have hd := hrow other hother
      unfold LayoutRow.Apart at hd
      omega
    obtain ⟨sections, hsections, hiff⟩ := ih (i + 1) data' hrows
      (fun other hother => by rw [hlen]; exact hin other (List.mem_cons_of_mem row hother))
      (hlen.trans hdata) hrest (fun other hother => hread other (List.mem_cons_of_mem row hother))
    rw [parseSections, if_neg (by omega), hparse]
    simp only [hsections, Option.map_some]
    refine ⟨_, rfl, ?_⟩
    rw [List.forall₂_cons, LocallyReadable, hiff]
    apply and_congr_left
    intro _
    constructor
    · intro hlocal
      obtain ⟨es', rest, hown', _, hcache, hempty⟩ := hlocal.own
      obtain rfl : es = es' := Option.some.inj (hown.symm.trans hown')
      exact ⟨es, hes, (List.append_cancel_left hcache) ▸ hempty⟩
    · rintro ⟨es', hes', hempty⟩
      have hown' := (ownEntries_eq_some hsize (hdata ▸ hend)).mpr hes'
      obtain rfl : es = es' := Option.some.inj (hown.symm.trans hown')
      have hfit := hes.length_le
      rw [LayoutRow.body, length_slice (by omega)] at hfit
      exact ⟨es, _, hown, by omega, rfl, hempty⟩

/-- A parse is local exactly when the sections can be read by themselves and the slots behind
their entries come zeroed. -/
theorem parsesLocally_iff {layout : List LayoutRow} (hapart : layout.Pairwise LayoutRow.Apart)
    (hin : ∀ row ∈ layout, 4 ≤ row.size ∧ row.offset + row.size ≤ file.length) :
    ParsesLocally layout fresh file ↔ LocallyReadable fresh file 0 layout := by
  have hlocal := fun hread => parseSections_readable fresh layout 0 file hapart hin rfl
    (fun _ _ => rfl) hread
  constructor
  · rintro ⟨sections, hparse, hall⟩
    have hread : ∀ row ∈ layout, ∃ es, Readable maxEntry (row.body file) es := by
      intro row hrow
      obtain ⟨k, hk, rfl⟩ := List.mem_iff_getElem.mp hrow
      have hks : k < sections.length := hall.length_eq ▸ hk
      obtain ⟨es, _, hown, _⟩ := (hall.get hk hks).own
      obtain ⟨hsize, hend⟩ := hin _ hrow
      exact ⟨es, (ownEntries_eq_some hsize hend).mp hown⟩
    obtain ⟨sections', hparse', hiff⟩ := hlocal hread
    obtain rfl : sections = sections' := Option.some.inj (hparse.symm.trans hparse')
    exact hiff.mp hall
  · intro h
    obtain ⟨sections, hparse, hiff⟩ := hlocal h.readable
    exact ⟨sections, hparse, hiff.mpr h⟩

end Sections

def blankFile : List U8 := List.replicate 0x10000 0

theorem nvlayout_in_blankFile :
    ∀ row ∈ nvlayout, 4 ≤ row.size ∧ row.offset + row.size ≤ blankFile.length := by
  have hlen : blankFile.length = 0x10000 := List.length_replicate
  have hvalid := nvlayout_valid (Nat.le_of_eq hlen.symm)
  exact fun row hrow => ⟨hvalid.header row hrow, hvalid.inside row hrow⟩

theorem readable_blankFile (row : LayoutRow) : Readable maxEntry (row.body blankFile) [] := by
  refine ⟨⟨row.body blankFile, rfl, Or.inr (Or.inl ?_)⟩, by simp, by simp⟩
  intro c hc
  have hzero : c = 0 := by
    have hmem : c ∈ blankFile :=
      List.mem_of_mem_drop (List.mem_of_mem_take (List.mem_of_mem_head? hc))
    exact List.eq_of_mem_replicate hmem
  rw [hzero]
  decide

theorem parsesLocally_blankFile : ParsesLocally nvlayout zeroSlots blankFile := by
  apply (parsesLocally_iff (by simp [nvlayout, LayoutRow.Apart]) nvlayout_in_blankFile).mpr
  have hzero : ∀ i, ∀ x ∈ (zeroSlots i).drop 0, x = none :=
    fun i x hx => List.eq_of_mem_replicate hx
  exact ⟨⟨[], readable_blankFile _, hzero 0⟩, ⟨[], readable_blankFile _, hzero 1⟩,
    ⟨[], readable_blankFile _, hzero 2⟩, ⟨[], readable_blankFile _, hzero 3⟩,
    ⟨[], readable_blankFile _, hzero 4⟩, trivial⟩

def usedSlots : Nat → Slots := fun _ => List.replicate maxEntry (some ⟨[0x61], [0x62]⟩)

/-- The slots of an erased section hold what the memory held. -/
theorem blank_section_keeps_used_slots :
    ¬ ∀ (layout : List LayoutRow) (fresh : Nat → Slots) (file : List U8),
      layout.Pairwise LayoutRow.Apart →
      (∀ row ∈ layout, 4 ≤ row.size ∧ row.offset + row.size ≤ file.length) →
      ParsesLocally layout fresh file := by
  intro hclaim
  obtain ⟨sections, hparse, hall⟩ := hclaim nvlayout usedSlots blankFile
    (by simp [nvlayout, LayoutRow.Apart]) nvlayout_in_blankFile
  obtain ⟨sections', hparse', hiff⟩ := parseSections_readable usedSlots nvlayout 0 blankFile
    (by simp [nvlayout, LayoutRow.Apart]) nvlayout_in_blankFile rfl (fun _ _ => rfl)
    fun row _ => ⟨[], readable_blankFile row⟩
  obtain rfl : sections = sections' := Option.some.inj (hparse.symm.trans hparse')
  obtain ⟨⟨es, hes, hempty⟩, -⟩ := hiff.mp hall
  have hin := nvlayout_in_blankFile ⟨"uboot", 0, 0x1000, nvRO⟩ (by simp [nvlayout])
  have hown := (ownEntries_eq_some hin.1 hin.2).mpr hes
  rw [(ownEntries_eq_some hin.1 hin.2).mpr (readable_blankFile _)] at hown
  obtain rfl : [] = es := Option.some.inj hown
  have hslot := hempty (some ⟨[0x61], [0x62]⟩) (List.mem_replicate.mpr ⟨by decide, rfl⟩)
  cases hslot

end OpenwrtMtk.Nvram
