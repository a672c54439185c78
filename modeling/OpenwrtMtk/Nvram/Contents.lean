import Mathlib.Data.List.Nodup
import OpenwrtMtk.Nvram.Commit

/-!
# The store across command runs

Every run parses the cache file, edits one section and writes all of them back. While each
accepted `nvram set` keeps its section readable, the file holds what the counted runs left:
for each key the value of the last set, unless a del followed.
-/

namespace OpenwrtMtk.Nvram

open Toolkit

set_option autoImplicit false

section Entries

variable {es es' pre post : List Entry} {key key' value : List U8}

def lookup (es : List Entry) (key : List U8) : Option (List U8) :=
  (es.find? fun e => decide (e.name = key)).map Entry.value

theorem lookup_append (es es' : List Entry) (key : List U8) :
    lookup (es ++ es') key = (lookup es key).or (lookup es' key) := by
  unfold lookup
  rw [List.find?_append]
  cases es.find? fun e => decide (e.name = key) <;> simp

theorem lookup_cons_of_ne {e : Entry} (h : e.name ≠ key) : lookup (e :: es) key = lookup es key := by
  simp [lookup, h]

theorem lookup_cons_of_eq {e : Entry} (h : e.name = key) : lookup (e :: es) key = some e.value := by
  simp [lookup, h]

theorem lookup_eq_none (h : ∀ e ∈ es, e.name ≠ key) : lookup es key = none := by
  simpa [lookup, List.find?_eq_none] using h

/-- What a set or del of `key` does to the entries: `old` leaves, `new` comes. -/
structure Replaced (key : List U8) (es : List Entry) (new : List Entry) (es' : List Entry) :
    Prop where
  split : ∃ pre old post, es = pre ++ old ++ post ∧ es' = pre ++ new ++ post ∧
    (∀ e ∈ old, e.name = key) ∧ ∀ e ∈ pre ++ post, e.name ≠ key
  named : ∀ e ∈ new, e.name = key
  single : new.length ≤ 1

namespace Replaced

variable {new : List Entry}

theorem lookup_self (h : Replaced key es new es') : lookup es' key = lookup new key := by
  obtain ⟨pre, old, post, _, rfl, _, hout⟩ := h.split
  rw [lookup_append, lookup_append, lookup_eq_none fun e he => hout e (List.mem_append_left _ he),
    lookup_eq_none fun e he => hout e (List.mem_append_right _ he)]
  simp

theorem lookup_other (h : Replaced key es new es') (hne : key' ≠ key) :
    lookup es' key' = lookup es key' := by
  obtain ⟨pre, old, post, rfl, rfl, hold, _⟩ := h.split
  have hno : ∀ xs : List Entry, (∀ e ∈ xs, e.name = key) → lookup xs key' = none := by
    intro xs hxs
    apply lookup_eq_none
    intro e he
    rw [hxs e he]
    exact hne.symm
  simp only [lookup_append, hno old hold, hno new h.named]

theorem mem (h : Replaced key es new es') {e : Entry} (he : e ∈ es') : e ∈ es ∨ e ∈ new := by
  obtain ⟨pre, old, post, rfl, rfl, _, _⟩ := h.split
  simp only [List.mem_append] at he ⊢
  rcases he with (he | he) | he
  · exact Or.inl (Or.inl (Or.inl he))
  · exact Or.inr he
  · exact Or.inl (Or.inr he)

theorem nodup (h : Replaced key es new es') (hes : (es.map Entry.name).Nodup) :
    (es'.map Entry.name).Nodup := by
  obtain ⟨pre, old, post, rfl, rfl, _, hout⟩ := h.split
  have hkeep : ((pre ++ post).map Entry.name).Nodup := by
    apply List.Nodup.sublist _ hes
    apply List.Sublist.map
    exact List.Sublist.append (List.sublist_append_left pre old) (List.Sublist.refl post)
  match new, h.named, h.single with
  | [], _, _ => simpa using hkeep
  | [e], hnamed, _ =>
    have hkey := hnamed e List.mem_cons_self
    have hperm : ((pre ++ [e] ++ post).map Entry.name).Perm ((e :: (pre ++ post)).map Entry.name) := by
      apply List.Perm.map
      rw [List.append_assoc]
      exact List.perm_middle
    rw [hperm.nodup_iff, List.map_cons, List.nodup_cons]
    refine ⟨?_, hkeep⟩
    intro hin
    obtain ⟨x, hx, hname⟩ := List.mem_map.mp hin
    exact hout x hx (by rw [hname, hkey])

theorem length_serialize_le (h : Replaced key es [] es') :
    (serialize es').length ≤ (serialize es).length := by
  obtain ⟨pre, old, post, rfl, rfl, _, _⟩ := h.split
  simp only [serialize, List.flatMap_append, List.length_append, List.flatMap_nil, List.length_nil]
  omega

end Replaced

end Entries

section Slots

variable {slots slots' pre post : Slots} {key value : List U8}

def entriesOf (slots : Slots) : List Entry := slots.filterMap id

theorem entriesOf_append (pre post : Slots) :
    entriesOf (pre ++ post) = entriesOf pre ++ entriesOf post := List.filterMap_append

theorem split_findIdx {test : Option Entry → Bool} {j : Nat} (h : slots.findIdx? test = some j) :
    ∃ pre x post, slots = pre ++ x :: post ∧ test x = true ∧ (∀ y ∈ pre, test y = false) ∧
      ∀ y, slots.set j y = pre ++ y :: post := by
  obtain ⟨hj, htest, hpre⟩ := List.findIdx?_eq_some_iff_getElem.mp h
  refine ⟨slots.take j, slots[j], slots.drop (j + 1), ?_, htest, ?_, ?_⟩
  · rw [← List.drop_eq_getElem_cons hj, List.take_append_drop]
  · intro y hy
    obtain ⟨k, hk, rfl⟩ := List.mem_iff_getElem.mp hy
    rw [List.length_take] at hk
    rw [List.getElem_take]
    simpa using hpre k (by omega)
  · intro y
    rw [List.set_eq_take_append_cons_drop, if_pos hj]

theorem entriesOf_split (pre post : Slots) (x : Option Entry) :
    entriesOf (pre ++ x :: post) = entriesOf pre ++ x.toList ++ entriesOf post := by
  rw [entriesOf_append, List.append_assoc]
  cases x <;> simp [entriesOf]

theorem mem_entriesOf {e : Entry} : e ∈ entriesOf slots ↔ some e ∈ slots := by
  simp [entriesOf]

theorem replaced_named {j : Nat} {y : Option Entry}
    (hes : ((entriesOf slots).map Entry.name).Nodup) (hy : ∀ e ∈ y, e.name = key)
    (h : slots.findIdx? (isNamed key) = some j) :
    Replaced key (entriesOf slots) y.toList (entriesOf (slots.set j y)) := by
  obtain ⟨pre, x, post, rfl, hx, hpre, hset⟩ := split_findIdx h
  cases x with
  | none => simp [isNamed] at hx
  | some e =>
    have he : e.name = key := by simpa [isNamed] using hx
    refine ⟨⟨entriesOf pre, [e], entriesOf post, ?_, ?_, ?_, ?_⟩, ?_, ?_⟩
    · rw [entriesOf_split]
      rfl
    · rw [hset, entriesOf_split]
    · intro x hx
      rw [List.mem_singleton.mp hx, he]
    · intro x hx
      rcases List.mem_append.mp hx with hx | hx
      · have hno := hpre _ (mem_entriesOf.mp hx)
        simpa [isNamed] using hno
      · -- a second entry of the name would be a duplicate
        intro hname
        rw [entriesOf_split, List.append_assoc, List.map_append, List.nodup_append] at hes
        have hcons := hes.2.1
        simp only [Option.toList_some, List.singleton_append, List.map_cons, List.nodup_cons] at hcons
        exact hcons.1 (List.mem_map.mpr ⟨x, hx, by rw [hname, he]⟩)
    · intro x hx
      exact hy x (by simpa using hx)
    · cases y <;> simp

theorem setSlot_replaced (hes : ((entriesOf slots).map Entry.name).Nodup)
    (h : setSlot slots key value = some slots') :
    Replaced key (entriesOf slots) [⟨key, value⟩] (entriesOf slots') ∧
      slots'.length = slots.length := by
  unfold setSlot at h
  obtain ⟨j, hj, rfl⟩ := Option.map_eq_some_iff.mp h
  refine ⟨?_, List.length_set⟩
  cases hnamed : slots.findIdx? (isNamed key) with
  | some i =>
    obtain rfl : i = j := by simpa [hnamed] using hj
    exact replaced_named (y := some ⟨key, value⟩) hes (by simp) hnamed
  | none =>
    rw [hnamed, Option.none_or] at hj
    obtain ⟨pre, x, post, rfl, hx, _, hset⟩ := split_findIdx hj
    have hempty : x = none := by simpa using hx
    subst hempty
    have hno : ∀ e ∈ entriesOf (pre ++ none :: post), e.name ≠ key := by
      intro e he
      have hfalse := List.findIdx?_eq_none_iff.mp hnamed _ (mem_entriesOf.mp he)
      simpa [isNamed] using hfalse
    rw [entriesOf_split] at hno
    refine ⟨⟨entriesOf pre, [], entriesOf post, ?_, ?_, ?_, ?_⟩, ?_, ?_⟩
    · rw [entriesOf_split]
      rfl
    · rw [hset, entriesOf_split]
      rfl
    · simp
    · simpa using hno
    · simp
    · simp

theorem delSlot_replaced (hes : ((entriesOf slots).map Entry.name).Nodup)
    (h : delSlot slots key = some slots') :
    Replaced key (entriesOf slots) [] (entriesOf slots') ∧ slots'.length = slots.length := by
  unfold delSlot at h
  obtain ⟨j, hj, rfl⟩ := Option.map_eq_some_iff.mp h
  exact ⟨replaced_named (y := none) hes (by simp) hj, List.length_set⟩

theorem find_isNamed (slots : Slots) (key : List U8) :
    (match slots.find? (isNamed key) with
      | some (some e) => some e.value
      | _ => none) = lookup (entriesOf slots) key := by
  induction slots with
  | nil => rfl
  | cons x slots ih =>
    cases x with
    | none =>
      rw [List.find?_cons_of_neg (by simp [isNamed]), ih]
      rfl
    | some e =>
      by_cases he : e.name = key
      · rw [List.find?_cons_of_pos (by simpa [isNamed] using he)]
        exact (lookup_cons_of_eq he).symm
      · rw [List.find?_cons_of_neg (by simpa [isNamed] using he), ih]
        exact (lookup_cons_of_ne he).symm

end Slots

section Layout

variable {layout : List LayoutRow} {name : String} {key value : List U8}

def rowNamed (layout : List LayoutRow) (name : String) : Option LayoutRow :=
  layout.find? fun row => row.name = name

def contents (layout : List LayoutRow) (E : LayoutRow → List Entry) (name : String)
    (key : List U8) : Option (List U8) :=
  (rowNamed layout name).bind fun row => lookup (E row) key

theorem nvramSection_map (sec : LayoutRow → Section) (hsec : ∀ row, (sec row).name = row.name)
    (name : String) :
    nvramSection (layout.map sec) name = layout.findIdx? fun row => row.name = name := by
  rw [nvramSection, List.findIdx?_map]
  congr 1
  funext row
  simp [hsec row]

theorem nvramBufGet_map (sec : LayoutRow → Section) (hsec : ∀ row, (sec row).name = row.name)
    (name : String) (key : List U8) :
    nvramBufGet (layout.map sec) name key =
      contents layout (fun row => (sec row).entries) name key := by
  unfold nvramBufGet contents rowNamed
  rw [nvramSection_map sec hsec]
  cases hfind : layout.findIdx? fun row => row.name = name with
  | none =>
    have hnone : (layout.find? fun row => decide (row.name = name)) = none := by
      rw [List.find?_eq_none]
      simpa using hfind
    rw [hnone]
    rfl
  | some i =>
    obtain ⟨hi, hname, hpre⟩ := List.findIdx?_eq_some_iff_getElem.mp hfind
    have hsome : (layout.find? fun row => decide (row.name = name)) = some layout[i] := by
      rw [List.find?_eq_some_iff_getElem]
      exact ⟨hname, i, hi, rfl, by simpa using hpre⟩
    rw [hsome]
    simp only [List.getElem?_map, List.getElem?_eq_getElem hi, Option.map_some, Option.bind_some]
    exact find_isNamed _ key

theorem editSection_map (sec : LayoutRow → Section) (hsec : ∀ row, (sec row).name = row.name)
    (hnames : (layout.map LayoutRow.name).Nodup) (name : String) (edit : Slots → Option Slots) :
    editSection (layout.map sec) name edit = (rowNamed layout name).bind fun row =>
      if readOnly (sec row).flag then none
      else (edit (sec row).cache).map fun slots =>
        layout.map (Function.update sec row { sec row with cache := slots }) := by
  unfold editSection rowNamed
  rw [nvramSection_map sec hsec]
  cases hfind : layout.findIdx? fun row => row.name = name with
  | none =>
    have hnone : (layout.find? fun row => decide (row.name = name)) = none := by
      rw [List.find?_eq_none]
      simpa using hfind
    rw [hnone]
    rfl
  | some i =>
    obtain ⟨hi, hname, hpre⟩ := List.findIdx?_eq_some_iff_getElem.mp hfind
    have hsome : (layout.find? fun row => decide (row.name = name)) = some layout[i] := by
      rw [List.find?_eq_some_iff_getElem]
      exact ⟨hname, i, hi, rfl, by simpa using hpre⟩
    have hset : ∀ s, (layout.map sec).set i s = layout.map (Function.update sec layout[i] s) := by
      intro s
      have hdistinct : layout.Nodup := List.Nodup.of_map LayoutRow.name hnames
      apply List.ext_getElem
      · simp
      · intro k hk hk'
        rw [List.length_set, List.length_map] at hk
        rw [List.getElem_set, List.getElem_map, List.getElem_map]
        by_cases hik : i = k
        · subst hik
          simp
        · have hne : layout[k] ≠ layout[i] := by
            intro heq
            exact hik ((List.Nodup.getElem_inj_iff hdistinct).mp heq).symm
          rw [if_neg hik, Function.update_of_ne hne]
    rw [hsome]
    simp only [List.getElem?_map, List.getElem?_eq_getElem hi, Option.map_some, Option.bind_some,
      hset]

end Layout

end OpenwrtMtk.Nvram
