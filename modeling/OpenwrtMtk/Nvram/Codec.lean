import OpenwrtMtk.Nvram.Store

/-!
# Reading back a section

`nvram_parse` of a body that starts with serialized entries returns these entries, as long as
each name has no `=` and starts with a byte the loop does not stop at. The loop writes only
inside the section it reads, so sections that read cleanly do not disturb each other.
-/

namespace OpenwrtMtk.Nvram

open Toolkit

set_option autoImplicit false

def serialize (es : List Entry) : List U8 := es.flatMap Entry.bytes

@[simp] theorem serialize_nil : serialize [] = [] := rfl

@[simp] theorem serialize_cons (e : Entry) (es : List Entry) :
    serialize (e :: es) = e.bytes ++ serialize es := rfl

theorem length_bytes (e : Entry) : e.bytes.length = e.name.length + e.value.length + 2 := by
  simp [Entry.bytes]
  omega

/-- The first byte of a name; an empty name starts with its `=`. -/
def startsEntry (name : List U8) : Prop := ∀ c ∈ name.head?, stopsParse c = false

instance (name : List U8) : Decidable (startsEntry name) :=
  inferInstanceAs (Decidable (∀ c ∈ name.head?, stopsParse c = false))

/-- An entry that is read back as it was written. -/
structure Storable (e : Entry) : Prop where
  name : 0 ∉ e.name
  value : 0 ∉ e.value
  equals : equalsSign ∉ e.name
  start : startsEntry e.name

def EndsBody (es : List Entry) (tail : List U8) : Prop :=
  es.length = maxEntry ∨ ∀ c ∈ tail.head?, stopsParse c = true

/-- The body holds exactly the entries `es`, each of them inside it. -/
structure Clean (body : List U8) (es : List Entry) : Prop where
  split : ∃ tail, body = serialize es ++ tail ∧ EndsBody es tail
  storable : ∀ e ∈ es, Storable e
  count : es.length ≤ maxEntry

theorem Clean.length_le {body : List U8} {es : List Entry} (h : Clean body es) :
    (serialize es).length ≤ body.length := by
  obtain ⟨tail, hbody, _⟩ := h.split
  rw [hbody, List.length_append]
  omega

section Parse

variable {stop n p : Nat} {data rest : List U8} {e : Entry} {es : List Entry}

theorem cstr_bytes (he : Storable e) (rest : List U8) :
    cstr (e.bytes ++ rest) = some (e.name ++ equalsSign :: e.value) := by
  have hnul : (0 : U8) ∉ e.name ++ equalsSign :: e.value := by
    simp only [List.mem_append, List.mem_cons, not_or]
    exact ⟨he.name, by decide, he.value⟩
  have hcut : e.bytes ++ rest = (e.name ++ equalsSign :: e.value) ++ 0 :: rest := by
    simp [Entry.bytes]
  rw [hcut]
  exact cstr_append rest hnul

theorem head_bytes_starts (he : Storable e) (rest : List U8) :
    ∃ c, (e.bytes ++ rest)[0]? = some c ∧ stopsParse c = false := by
  cases hname : e.name with
  | nil => exact ⟨equalsSign, by simp [Entry.bytes, hname], by decide⟩
  | cons c name => exact ⟨c, by simp [Entry.bytes, hname], he.start c (by simp [hname])⟩

theorem parseEntries_cons (he : Storable e) (hp : p < stop) (hdata : data.drop p = e.bytes ++ rest) :
    parseEntries stop (n + 1) data p =
      (parseEntries stop n (data.set (p + e.name.length) 0) (p + e.bytes.length)).map fun r =>
        (r.1, e :: r.2) := by
  obtain ⟨c, hc, hgo⟩ := head_bytes_starts he rest
  have hget : data[p]? = some c := by
    have hfront : (data.drop p)[0]? = some c := by rw [hdata]; exact hc
    simpa [List.getElem?_drop] using hfront
  have hlen : (e.name ++ equalsSign :: e.value).length + 1 = e.bytes.length := by
    simp [Entry.bytes]
    omega
  rw [parseEntries, if_neg (by omega), hget, hdata, cstr_bytes he]
  simp only [hgo, Bool.false_eq_true, if_false, splitFirst_append e.value he.equals]
  rw [Nat.add_assoc, hlen]

theorem parseEntries_stop (htail : ∀ c ∈ (slice data p (stop - p)).head?, stopsParse c = true)
    (hlen : stop ≤ data.length) :
    parseEntries stop n data p = some (data, []) := by
  cases n with
  | zero => rfl
  | succ n =>
    rw [parseEntries]
    by_cases hp : stop ≤ p
    · rw [if_pos hp]
    · have hin : p < data.length := by omega
      have hget : data[p]? = some data[p] := List.getElem?_eq_getElem hin
      have hhead : (slice data p (stop - p)).head? = some data[p] := by
        rw [List.head?_eq_getElem?, getElem?_slice, if_pos (by omega)]
        exact hget
      rw [if_neg hp, hget]
      simp only [htail _ hhead, if_true]

theorem parseEntries_front : ∀ (es : List Entry) {n p : Nat} {data tail : List U8},
    (∀ e ∈ es, Storable e) → p ≤ stop → stop ≤ data.length →
    slice data p (stop - p) = serialize es ++ tail → es.length ≤ n →
    ∃ data', data'.length = data.length ∧
      (∀ k, k < p ∨ p + (serialize es).length ≤ k → data'[k]? = data[k]?) ∧
      parseEntries stop n data p =
        (parseEntries stop (n - es.length) data' (p + (serialize es).length)).map fun r =>
          (r.1, es ++ r.2) := by
  intro es
  induction es with
  | nil =>
    intro n p data tail _ _ _ _ _
    refine ⟨data, rfl, fun _ _ => rfl, ?_⟩
    simp
  | cons e es ih =>
    intro n p data tail hall hp hstop hslice hcount
    have he : Storable e := hall e List.mem_cons_self
    have hbytes := length_bytes e
    obtain ⟨m, rfl⟩ : ∃ m, n = m + 1 := ⟨n - 1, by simp at hcount; omega⟩
    have hfit : p + e.bytes.length ≤ stop := by
      have hlen := congrArg List.length hslice
      rw [length_slice (by omega)] at hlen
      simp only [serialize_cons, List.length_append] at hlen
      omega
    have hdata : data.drop p = e.bytes ++ (serialize es ++ tail ++ data.drop (p + (stop - p))) := by
      rw [drop_eq_slice_append data p (stop - p), hslice]
      simp
    -- the NUL that replaces the `=` lies before the next entry
    have hnext : slice (data.set (p + e.name.length) 0) (p + e.bytes.length)
        (stop - (p + e.bytes.length)) = serialize es ++ tail := by
      apply List.ext_getElem?
      intro k
      have hk := congrArg (fun xs : List U8 => xs[e.bytes.length + k]?) hslice
      simp only [serialize_cons, List.append_assoc, getElem?_slice] at hk
      rw [List.getElem?_append_right (by omega), Nat.add_sub_cancel_left] at hk
      rw [getElem?_slice, List.getElem?_set_ne (by omega), ← hk]
      have hiff : k < stop - (p + e.bytes.length) ↔ e.bytes.length + k < stop - p := by omega
      simp only [hiff, Nat.add_assoc]
    obtain ⟨data', hlen, hout, hparse⟩ := ih (n := m)
      (fun x hx => hall x (List.mem_cons_of_mem e hx)) hfit (by simpa using hstop) hnext
      (by simp at hcount; omega)
    refine ⟨data', by simpa using hlen, ?_, ?_⟩
    · intro k hk
      rw [serialize_cons, List.length_append] at hk
      rw [hout k (by omega), List.getElem?_set_ne (by omega)]
    · rw [parseEntries_cons he (by omega) hdata, hparse, Option.map_map, serialize_cons,
        List.length_append, List.length_cons, Nat.add_sub_add_right, Nat.add_assoc]
      rfl

theorem parseEntries_serialize (es : List Entry) {n p : Nat} {data tail : List U8}
    (hall : ∀ e ∈ es, Storable e) (hp : p ≤ stop) (hstop : stop ≤ data.length)
    (hslice : slice data p (stop - p) = serialize es ++ tail) (hcount : es.length ≤ n)
    (hend : es.length = n ∨ ∀ c ∈ tail.head?, stopsParse c = true) :
    ∃ data', parseEntries stop n data p = some (data', es) ∧ data'.length = data.length ∧
      ∀ k, k < p ∨ stop ≤ k → data'[k]? = data[k]? := by
  obtain ⟨data', hlen, hout, hparse⟩ := parseEntries_front es hall hp hstop hslice hcount
  have hfit : p + (serialize es).length ≤ stop := by
    have hlen := congrArg List.length hslice
    rw [length_slice (by omega), List.length_append] at hlen
    omega
  refine ⟨data', ?_, hlen, fun k hk => hout k (by omega)⟩
  rw [hparse]
  rcases hend with hfull | htail
  · rw [hfull, Nat.sub_self]
    simp [parseEntries]
  · have hrest : slice data' (p + (serialize es).length) (stop - (p + (serialize es).length)) =
        tail := by
      have hsame : slice data' (p + (serialize es).length) (stop - (p + (serialize es).length)) =
          slice data (p + (serialize es).length) (stop - (p + (serialize es).length)) :=
        slice_eq_of_getElem? fun k _ => hout _ (by omega)
      rw [hsame, ← Nat.sub_sub, ← drop_slice, hslice, List.drop_left]
    rw [parseEntries_stop (hrest ▸ htail) (hlen ▸ hstop)]
    simp

end Parse

def LayoutRow.body (row : LayoutRow) (file : List U8) : List U8 :=
  slice file (row.offset + 4) (row.size - 4)

def LayoutRow.Apart (r r' : LayoutRow) : Prop :=
  r.offset + r.size ≤ r'.offset ∨ r'.offset + r'.size ≤ r.offset

/-- A layout of sections that lie side by side in a partition of `size` bytes. -/
structure ValidLayout (layout : List LayoutRow) (size : Nat) : Prop where
  apart : layout.Pairwise LayoutRow.Apart
  names : (layout.map LayoutRow.name).Nodup
  header : ∀ row ∈ layout, 4 ≤ row.size
  inside : ∀ row ∈ layout, row.offset + row.size ≤ size

theorem nvlayout_valid {size : Nat} (h : 0x10000 ≤ size) : ValidLayout nvlayout size where
  apart := by simp [nvlayout, LayoutRow.Apart]
  names := by decide
  header := by decide
  inside := by
    intro row hrow
    have hend : ∀ row ∈ nvlayout, row.offset + row.size ≤ 0x10000 := by decide
    exact Nat.le_trans (hend row hrow) h

/-- The section that is read from a body holding `es`, the memory behind them zeroed. -/
def parsedSection (file : List U8) (es : List Entry) (row : LayoutRow) : Section :=
  { name := row.name, offset := row.offset, size := row.size, flag := row.flag
    crc := crc32 0 (row.body file)
    cache := es.map some ++ List.replicate (maxEntry - es.length) none }

@[simp] theorem parsedSection_entries (file : List U8) (es : List Entry) (row : LayoutRow) :
    (parsedSection file es row).entries = es := by
  simp [parsedSection, Section.entries, List.filterMap_append, List.filterMap_map]

theorem parseSections_clean (E : LayoutRow → List Entry) {file : List U8} :
    ∀ (rows : List LayoutRow) (i : Nat) (data : List U8), rows.Pairwise LayoutRow.Apart →
      (∀ row ∈ rows, 4 ≤ row.size ∧ row.offset + row.size ≤ data.length) →
      (∀ row ∈ rows, Clean (row.body file) (E row)) →
      (∀ row ∈ rows, row.body data = row.body file) →
      parseSections zeroSlots i rows data =
        some (rows.map fun row => parsedSection file (E row) row) := by
  intro rows
  induction rows with
  | nil => intro i data _ _ _ _; rfl
  | cons row rows ih =>
    intro i data hapart hin hclean hsame
    obtain ⟨hrow, hrows⟩ := List.pairwise_cons.mp hapart
    obtain ⟨hsize, hend⟩ := hin row List.mem_cons_self
    have hread : Clean (row.body data) (E row) := by
      rw [hsame row List.mem_cons_self]
      exact hclean row List.mem_cons_self
    obtain ⟨tail, htail, hstop⟩ := hread.split
    have hslice : slice data (row.offset + 4) (row.offset + row.size - (row.offset + 4)) =
        serialize (E row) ++ tail := by
      rw [← htail, LayoutRow.body]
      congr 1
      omega
    obtain ⟨data', hparse, hlen, hout⟩ := parseEntries_serialize (E row) hread.storable
      (by omega) hend hslice hread.count hstop
    have hrest : ∀ other ∈ rows, other.body data' = other.body file := by
      intro other hother
      rw [← hsame other (List.mem_cons_of_mem row hother)]
      apply slice_eq_of_getElem?
      intro k hk
      apply hout
      have hd := hrow other hother
      unfold LayoutRow.Apart at hd
      omega
    have htl := ih (i + 1) data' hrows
      (fun other hother => by rw [hlen]; exact hin other (List.mem_cons_of_mem row hother))
      (fun other hother => hclean other (List.mem_cons_of_mem row hother)) hrest
    rw [parseSections, if_neg (by omega), hparse]
    simp only [htl, Option.map_some, List.map_cons]
    congr 2
    simp only [parsedSection, zeroSlots, List.drop_replicate]
    rw [← hsame row List.mem_cons_self]
    rfl

theorem nvramParse_clean {layout : List LayoutRow} (E : LayoutRow → List Entry) {file : List U8}
    (hlayout : ValidLayout layout file.length)
    (hclean : ∀ row ∈ layout, Clean (row.body file) (E row)) :
    nvramParse layout zeroSlots file =
      some (layout.map fun row => parsedSection file (E row) row) := by
  apply parseSections_clean E layout 0 file hlayout.apart _ hclean (fun _ _ => rfl)
  intro row hrow
  exact ⟨hlayout.header row hrow, hlayout.inside row hrow⟩

end OpenwrtMtk.Nvram
