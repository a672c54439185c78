import OpenwrtMtk.Luci.SessionRead

/-!
# The round trip of session data

The table that is read has what the written one has, whichever of its entries are written with their
keys. So a value is restored if and only if no table is reached twice in it.
-/

namespace OpenwrtMtk.Luci.Session

open Toolkit

set_option autoImplicit false

section Assign

variable {α : Type} {t : List (Key × Value Int)} {k : Key} {v : Value Int}

/-- What `t[k]` is behind `t[k] = v`. -/
def present (v : Value Int) : Option (Value Int) := if v.isNil then none else some v

theorem rawget_cons (e : Key × α) (t : List (Key × α)) (k : Key) :
    rawget (e :: t) k = if e.1 = k then some e.2 else rawget t k := by
  rw [rawget, List.find?_cons]
  by_cases h : e.1 = k
  · rw [decide_eq_true h, if_pos h]
    rfl
  · rw [decide_eq_false h, if_neg h]
    rfl

theorem rawget_filter (p : Key → Bool) (t : List (Key × α)) (k : Key) :
    rawget (t.filter fun e => p e.1) k = if p k then rawget t k else none := by
  induction t with
  | nil => exact (ite_self _).symm
  | cons e t ih =>
    rw [List.filter_cons, rawget_cons]
    by_cases hp : p e.1 = true
    · rw [if_pos hp, rawget_cons, ih]
      by_cases he : e.1 = k
      · rw [if_pos he, if_pos he, if_pos (he ▸ hp)]
      · rw [if_neg he, if_neg he]
    · rw [if_neg hp, ih]
      by_cases he : e.1 = k
      · rw [if_neg (he ▸ hp), if_neg (he ▸ hp)]
      · rw [if_neg he]

theorem rawget_concat (t : List (Key × α)) (k : Key) (v : α) (k' : Key) :
    rawget (t ++ [(k, v)]) k' = (rawget t k').or (if k = k' then some v else none) := by
  induction t with
  | nil => exact rawget_cons (k, v) [] k'
  | cons e t ih =>
    rw [List.cons_append, rawget_cons, rawget_cons, ih]
    by_cases he : e.1 = k'
    · rw [if_pos he, if_pos he, Option.some_or]
    · rw [if_neg he, if_neg he]

theorem rawget_eq_none {t : List (Key × α)} (hk : k ∉ t.map Prod.fst) : rawget t k = none := by
  cases h : rawget t k with
  | none => rfl
  | some v => exact absurd (List.mem_map_of_mem (mem_of_rawget h)) hk

theorem rawget_replace (t : List (Key × Value Int)) (k : Key) (v : Value Int) (k' : Key) :
    rawget (t.map fun x => if x.1 = k then (k, v) else x) k' =
      if k' = k then (rawget t k).map fun _ => v else rawget t k' := by
  induction t with
  | nil => exact (ite_self _).symm
  | cons e t ih =>
    rw [List.map_cons, rawget_cons, rawget_cons, rawget_cons, ih]
    by_cases he : e.1 = k
    · rw [if_pos he, if_pos he, Option.map_some]
      by_cases hk : k' = k
      · rw [if_pos hk.symm, if_pos hk]
      · rw [if_neg (Ne.symm hk), if_neg hk, if_neg hk, if_neg fun h => hk (h.symm.trans he)]
    · rw [if_neg he, if_neg he]
      by_cases hk : k' = k
      · rw [if_neg fun h => he (h.trans hk), if_pos hk, if_pos hk]
      · rw [if_neg hk, if_neg hk]

theorem any_key (t : List (Key × Value Int)) (k : Key) :
    (t.any fun x => x.1 = k) = true ↔ k ∈ t.map Prod.fst := by
  simp

theorem rawget_assign (t : List (Key × Value Int)) (k : Key) (v : Value Int) (k' : Key) :
    rawget (assign t k v) k' = if k' = k then present v else rawget t k' := by
  rw [assign, present]
  cases v.isNil with
  | true =>
    rw [if_pos rfl, if_pos rfl, rawget_filter (fun x => decide (x ≠ k)) t k']
    by_cases hk : k' = k
    · rw [if_pos hk, if_neg (by simpa using hk)]
    · rw [if_neg hk, if_pos (by simpa using hk)]
  | false =>
    rw [if_neg Bool.false_ne_true, if_neg Bool.false_ne_true]
    by_cases hmem : k ∈ t.map Prod.fst
    · rw [if_pos ((any_key t k).mpr hmem), rawget_replace]
      obtain ⟨e, he, rfl⟩ := List.mem_map.mp hmem
      have hfound : (rawget t e.1).isSome = true := by
        rw [rawget, Option.isSome_map, List.find?_isSome]
        exact ⟨e, he, decide_eq_true rfl⟩
      obtain ⟨w, hw⟩ := Option.isSome_iff_exists.mp hfound
      rw [hw, Option.map_some]
    · rw [if_neg fun h => hmem ((any_key t k).mp h), rawget_concat]
      by_cases hk : k' = k
      · rw [if_pos hk, if_pos hk.symm, hk, rawget_eq_none hmem, Option.none_or]
      · rw [if_neg hk, if_neg (Ne.symm hk), Option.or_none]

theorem assign_nodup (h : (t.map Prod.fst).Nodup) : ((assign t k v).map Prod.fst).Nodup := by
  rw [assign]
  cases v.isNil with
  | true =>
    rw [if_pos rfl]
    exact h.sublist ((List.filter_sublist).map Prod.fst)
  | false =>
    rw [if_neg Bool.false_ne_true]
    by_cases hmem : k ∈ t.map Prod.fst
    · rw [if_pos ((any_key t k).mpr hmem)]
      have hkeys : (t.map fun x => if x.1 = k then (k, v) else x).map Prod.fst =
          t.map Prod.fst := by
        rw [List.map_map]
        apply List.map_congr_left
        intro x _
        by_cases hx : x.1 = k
        · rw [Function.comp_apply, if_pos hx, hx]
        · rw [Function.comp_apply, if_neg hx]
      rw [hkeys]
      exact h
    · rw [if_neg fun h => hmem ((any_key t k).mp h), List.map_append, List.nodup_append]
      refine ⟨h, List.nodup_singleton k, ?_⟩
      intro x hx y hy heq
      have hxk : x = k := heq.trans (List.mem_singleton.mp hy)
      exact hmem (hxk ▸ hx)

end Assign

section Items

variable {t : Constructor} {k : Key} {v : Value Int} {vs : List (Value Int)} {i : Nat}

/-- What items stored from the index `i` on make of `t[k]`, if they store there. -/
def itemAt (i : Nat) (vs : List (Value Int)) : Key → Option (Option (Value Int))
  | .index j => if i ≤ j then vs[j - i]?.map present else none
  | .name _ => none

theorem itemAt_nil (i : Nat) (k : Key) : itemAt i [] k = none := by
  cases k with
  | index j => exact ite_self _
  | name s => rfl

theorem itemAt_cons (i : Nat) (v : Value Int) (vs : List (Value Int)) (k : Key) :
    itemAt i (v :: vs) k = if k = .index i then some (present v) else itemAt (i + 1) vs k := by
  cases k with
  | index j =>
    rw [itemAt, itemAt]
    by_cases hj : j = i
    · rw [if_pos (congrArg Key.index hj), if_pos (Nat.le_of_eq hj.symm), hj, Nat.sub_self]
      rfl
    · rw [if_neg fun h => hj (Key.index.inj h)]
      by_cases hle : i ≤ j
      · have hsub : j - i = j - (i + 1) + 1 := by omega
        rw [if_pos hle, if_pos (by omega), hsub, List.getElem?_cons_succ]
      · rw [if_neg hle, if_neg (by omega)]
  | name s => exact (if_neg fun h => Key.noConfusion h).symm

theorem itemAt_before {j : Nat} (h : j < i) (vs : List (Value Int)) :
    itemAt i vs (.index j) = none := by
  rw [itemAt, if_neg (Nat.not_le_of_lt h)]

theorem itemAt_behind {j : Nat} (h : i + vs.length ≤ j) : itemAt i vs (.index j) = none := by
  rw [itemAt, List.getElem?_eq_none (by omega), Option.map_none, ite_self]

theorem itemAt_concat (i : Nat) (vs : List (Value Int)) (v : Value Int) (k : Key) :
    itemAt i (vs ++ [v]) k =
      if k = .index (i + vs.length) then some (present v) else itemAt i vs k := by
  induction vs generalizing i with
  | nil =>
    rw [List.nil_append, itemAt_cons, itemAt_nil, itemAt_nil]
    rfl
  | cons w vs ih =>
    rw [List.cons_append, itemAt_cons, itemAt_cons, ih, List.length_cons,
      Nat.add_right_comm, Nat.add_assoc]
    by_cases hk : k = .index i
    · have hother : k ≠ .index (i + (vs.length + 1)) := by
        rw [hk]
        intro h
        have := Key.index.inj h
        omega
      rw [if_pos hk, if_neg hother, if_pos hk]
    · rw [if_neg hk, if_neg hk]

theorem rawget_storeFrom (t : List (Key × Value Int)) (i : Nat) (vs : List (Value Int)) (k : Key) :
    rawget (storeFrom t i vs) k = (itemAt i vs k).getD (rawget t k) := by
  induction vs generalizing t i with
  | nil => rw [itemAt_nil]; rfl
  | cons v vs ih =>
    rw [storeFrom, ih, itemAt_cons, rawget_assign]
    by_cases hk : k = .index i
    · rw [if_pos hk, if_pos hk, hk, itemAt_before (Nat.lt_succ_self i)]
      rfl
    · rw [if_neg hk, if_neg hk]

theorem storeFrom_nodup (t : List (Key × Value Int)) (i : Nat) (vs : List (Value Int))
    (h : (t.map Prod.fst).Nodup) : ((storeFrom t i vs).map Prod.fst).Nodup := by
  induction vs generalizing t i with
  | nil => exact h
  | cons v vs ih => exact ih _ _ (assign_nodup h)

/-- What `t[k]` will be. -/
def Constructor.get (t : Constructor) (k : Key) : Option (Value Int) := rawget t.flush.entries k

def Constructor.count (t : Constructor) : Nat := t.stored + t.pending.length

theorem Constructor.get_eq (t : Constructor) (k : Key) :
    t.get k = (itemAt (t.stored + 1) t.pending k).getD (rawget t.entries k) :=
  rawget_storeFrom _ _ _ _

theorem get_closeField (t : Constructor) (k : Key) : t.closeField.get k = t.get k := by
  rw [Constructor.closeField]
  by_cases h : t.pending.length = 50
  · rw [if_pos h]
    rfl
  · rw [if_neg h]

theorem count_closeField (t : Constructor) : t.closeField.count = t.count := by
  rw [Constructor.closeField]
  by_cases h : t.pending.length = 50
  · rw [if_pos h]
    rfl
  · rw [if_neg h]

theorem get_listField (t : Constructor) (v : Value Int) (k : Key) :
    (t.listField v).get k = if k = .index (t.count + 1) then present v else t.get k := by
  have hindex : t.stored + 1 + t.pending.length = t.count + 1 := by
    rw [Constructor.count]
    omega
  rw [Constructor.get_eq, Constructor.get_eq, Constructor.listField, itemAt_concat, hindex]
  by_cases hk : k = .index (t.count + 1)
  · rw [if_pos hk, if_pos hk]
    rfl
  · rw [if_neg hk, if_neg hk]

theorem count_listField (t : Constructor) (v : Value Int) :
    (t.listField v).count = t.count + 1 := by
  rw [Constructor.count, Constructor.listField, List.length_append]
  rfl

theorem get_keyField (hk : ∀ j, k = .index j → t.count < j) (v : Value Int) (k' : Key) :
    (t.keyField k v).get k' = if k' = k then present v else t.get k' := by
  rw [Constructor.get_eq, Constructor.get_eq, Constructor.keyField, rawget_assign]
  by_cases hkey : k' = k
  · rw [if_pos hkey, if_pos hkey]
    cases k with
    | index j =>
      have hj := hk j rfl
      rw [Constructor.count] at hj
      have hbehind : itemAt (t.stored + 1) t.pending (.index j) = none :=
        itemAt_behind (by omega)
      rw [hkey]
      exact congrArg (fun o => o.getD (present v)) hbehind
    | name s =>
      rw [hkey]
      rfl
  · rw [if_neg hkey, if_neg hkey]

end Items

section Gather

variable {k : Key}

theorem gather_cons (f : Field) (fields : List Field) (t : Constructor) :
    gather (f :: fields) t = gather fields (t.closeField.field f) := rfl

theorem gather_append (fields others : List Field) (t : Constructor) :
    gather (fields ++ others) t = gather others (gather fields t) := List.foldl_append

theorem count_items (vs : List (Value Int)) (t : Constructor) :
    (gather (vs.map .item) t).count = t.count + vs.length := by
  induction vs generalizing t with
  | nil => rfl
  | cons v vs ih =>
    have hcount : (t.closeField.listField v).count = t.count + 1 := by
      rw [count_listField, count_closeField]
    rw [List.map_cons, gather_cons, Constructor.field, ih, hcount, List.length_cons]
    omega

theorem get_items (vs : List (Value Int)) (t : Constructor) (k : Key) :
    (gather (vs.map .item) t).get k = (itemAt (t.count + 1) vs k).getD (t.get k) := by
  induction vs generalizing t with
  | nil => rw [itemAt_nil]; rfl
  | cons v vs ih =>
    have hcount : (t.closeField.listField v).count = t.count + 1 := by
      rw [count_listField, count_closeField]
    rw [List.map_cons, gather_cons, Constructor.field, ih, hcount, get_listField,
      count_closeField, get_closeField, itemAt_cons]
    by_cases hk : k = .index (t.count + 1)
    · rw [if_pos hk, if_pos hk, hk, itemAt_before (Nat.lt_succ_self _)]
      rfl
    · rw [if_neg hk, if_neg hk]

theorem get_keyed (rows : List (Key × Value Int)) (t : Constructor) (k : Key)
    (hkeys : (rows.map Prod.fst).Nodup) (hnil : ∀ e ∈ rows, e.2.isNil = false)
    (hindex : ∀ e ∈ rows, ∀ j, e.1 = .index j → t.count < j) :
    (gather (rows.map fun e => .keyed e.1 e.2) t).get k = (rawget rows k).or (t.get k) := by
  induction rows generalizing t with
  | nil => rfl
  | cons e rows ih =>
    rw [List.map_cons, List.nodup_cons] at hkeys
    have hfree : ∀ j, e.1 = .index j → t.closeField.count < j := by
      rw [count_closeField]
      exact hindex e List.mem_cons_self
    have hcount : (t.closeField.keyField e.1 e.2).count = t.count := count_closeField t
    have hrest := ih (t.closeField.keyField e.1 e.2) hkeys.2
      (fun e' he' => hnil e' (List.mem_cons_of_mem _ he'))
      (fun e' he' => by rw [hcount]; exact hindex e' (List.mem_cons_of_mem _ he'))
    rw [List.map_cons, gather_cons, Constructor.field, hrest, get_keyField hfree, get_closeField,
      rawget_cons, present, hnil e List.mem_cons_self, if_neg Bool.false_ne_true]
    by_cases hk : k = e.1
    · rw [if_pos hk, if_pos hk.symm, hk, rawget_eq_none hkeys.1]
      rfl
    · rw [if_neg hk, if_neg (Ne.symm hk)]

theorem closeField_nodup {t : Constructor} (h : (t.entries.map Prod.fst).Nodup) :
    (t.closeField.entries.map Prod.fst).Nodup := by
  rw [Constructor.closeField]
  by_cases hfull : t.pending.length = 50
  · rw [if_pos hfull]
    exact storeFrom_nodup _ _ _ h
  · rw [if_neg hfull]
    exact h

theorem gather_nodup (fields : List Field) (t : Constructor) (h : (t.entries.map Prod.fst).Nodup) :
    ((gather fields t).entries.map Prod.fst).Nodup := by
  induction fields generalizing t with
  | nil => exact h
  | cons f fields ih =>
    have hclosed := closeField_nodup h
    cases f with
    | item v => exact ih _ hclosed
    | keyed k v => exact ih _ (assign_nodup hclosed)

theorem rows_nodup (len : Nat) (t : List (Key × Value Int)) :
    ((rows len t).map Prod.fst).Nodup :=
  storeFrom_nodup _ _ _ (gather_nodup _ _ List.nodup_nil)

end Gather

theorem bracketed_index {len j : Nat} :
    bracketed len (.index j) = true ↔ j < 1 ∨ len + 3 < j := by
  rw [bracketed, Bool.or_eq_true, decide_eq_true_eq, decide_eq_true_eq]

theorem rawget_rows (len : Nat) {t : List (Key × Value Int)} (hkeys : (t.map Prod.fst).Nodup)
    (hindex : Key.index 0 ∉ t.map Prod.fst) (hnil : ∀ e ∈ t, e.2.isNil = false) (k : Key) :
    rawget (rows len t) k = rawget t k := by
  have hpresent {j : Nat} : present ((rawget t (.index j)).getD .nil) = rawget t (.index j) := by
    cases hj : rawget t (.index j) with
    | none => rfl
    | some v =>
      rw [Option.getD_some, present, hnil _ (mem_of_rawget hj), if_neg Bool.false_ne_true]
  let items := (List.range' 1 (extent len t)).map fun i => (rawget t (.index i)).getD .nil
  let keyed := t.filter fun e => bracketed len e.1
  let start : Constructor := ⟨[], 0, []⟩
  have hlength : items.length = extent len t := by
    rw [List.length_map, List.length_range']
  have hcount : (gather (items.map .item) start).count = extent len t := by
    rw [count_items, hlength]
    exact Nat.zero_add _
  have hget : rawget (rows len t) k = (rawget keyed k).or ((itemAt 1 items k).getD none) := by
    have hfields : fieldsOf len t = items.map .item ++ keyed.map fun e => .keyed e.1 e.2 := by
      rw [fieldsOf, List.map_map]
      rfl
    have hrows : rawget (rows len t) k = (gather (fieldsOf len t) start).get k := rfl
    rw [hrows, hfields, gather_append, get_keyed, get_items]
    · rfl
    · exact hkeys.sublist (List.filter_sublist.map Prod.fst)
    · intro e he
      exact hnil e (List.mem_of_mem_filter he)
    · intro e he j hj
      have hmem := List.mem_of_mem_filter he
      have hj0 : j ≠ 0 := fun h => hindex (h ▸ hj ▸ List.mem_map_of_mem hmem)
      have hbracketed := List.of_mem_filter he
      rw [hj] at hbracketed
      have hreach := bracketed_index.mp hbracketed
      have hle := extent_le len t
      omega
  rw [hget, rawget_filter (bracketed len)]
  cases hk : bracketed len k with
  | true =>
    have hnone : (itemAt 1 items k).getD none = none := by
      cases k with
      | index j =>
        have hle := extent_le len t
        rcases bracketed_index.mp hk with hj | hj
        · rw [itemAt_before hj]
          rfl
        · rw [itemAt_behind (by omega)]
          rfl
      | name s => rfl
    rw [if_pos rfl, hnone, Option.or_none]
  | false =>
    obtain ⟨j, rfl, hpos, -⟩ := bracketed_eq_false.mp hk
    rw [if_neg Bool.false_ne_true, Option.none_or]
    by_cases hj : j ≤ extent len t
    · have hitem : items[j - 1]? = some ((rawget t (.index j)).getD .nil) := by
        have hrange : (List.range' 1 (extent len t))[j - 1]? = some j := by
          rw [List.getElem?_range' (by omega)]
          exact congrArg some (by omega)
        rw [List.getElem?_map, hrange]
        rfl
      rw [itemAt, if_pos (Nat.succ_le_of_lt hpos), hitem, Option.map_some, hpresent]
      rfl
    · rw [itemAt_behind (by omega)]
      cases hget' : rawget t (.index j) with
      | none => rfl
      | some v => exact absurd (le_extent (mem_of_rawget hget') rfl hk) hj

/-- The restored value is structurally equal to the written one. -/
inductive SameAs : Datum → Value Int → Prop where
  | bool (b : Bool) : SameAs (.bool b) (.bool b)
  | number (n : Int) : SameAs (.number n) (.number n)
  | string (s : List U8) : SameAs (.string s) (.string s)
  | table {ref : Nat} {entries : List (Key × Datum)} {rows : List (Key × Value Int)}
      (hkeys : (rows.map Prod.fst).Nodup)
      (hsame : ∀ k, (rawget rows k).isSome = (rawget entries k).isSome)
      (hvalues : ∀ k v w, rawget entries k = some v → rawget rows k = some w → SameAs v w) :
      SameAs (.table ref entries) (.table rows)

theorem restored_not_nil (len : Nat → Nat) (v : Datum) : (restored len v).isNil = false := by
  cases v with
  | bool b => rfl
  | number n => rfl
  | string s => rfl
  | table ref entries => rfl

theorem restored_same (len : Nat → Nat) {v : Datum} (hv : WellFormed v) :
    SameAs v (restored len v) := by
  induction hv with
  | bool b => exact .bool b
  | number n => exact .number n
  | string s => exact .string s
  | @table ref entries hkeys hindex _ ih =>
    have hrestored := restoredOf_eq len entries
    have hfst : (restoredOf len entries).map Prod.fst = entries.map Prod.fst := by
      rw [hrestored, List.map_map]
      rfl
    have hnil : ∀ e ∈ restoredOf len entries, e.2.isNil = false := by
      intro e he
      rw [hrestored] at he
      obtain ⟨e, -, rfl⟩ := List.mem_map.mp he
      exact restored_not_nil len e.2
    have hrows (k : Key) : rawget (rows (len ref) (restoredOf len entries)) k =
        (rawget entries k).map (restored len) := by
      rw [rawget_rows (len ref) (hfst ▸ hkeys) (hfst ▸ hindex) hnil, hrestored, rawget_map]
    rw [restored]
    refine .table (rows_nodup _ _) (fun k => ?_) fun k v w hk hw => ?_
    · rw [hrows, Option.isSome_map]
    · rw [hrows, hk] at hw
      cases hw
      exact ih _ (mem_of_rawget hk)

theorem serialized_eq (len : Nat → Nat) {v : Datum} (hv : WellFormed v) :
    serialized len v = if (refs v).Nodup then some (text len v) else none := by
  obtain ⟨hgood, hbad⟩ := serializeData_writes len hv [] List.nodup_nil
  rw [List.append_nil] at hgood hbad
  rw [serialized]
  by_cases h : (refs v).Nodup
  · obtain ⟨seen, hrun, -⟩ := hgood h
    rw [if_pos h, hrun]
    rfl
  · rw [if_neg h, hbad h]
    rfl

theorem restoreData_reads {x : List U8} {w : Value Int} (h : Reads x w) :
    restoreData x = some w := by
  have hchunk : latin "return " ++ x = latin "return" ++ 0x20 :: x := rfl
  have hspace : skipSpace (latin "return" ++ 0x20 :: x) = latin "return" ++ 0x20 :: x := rfl
  have hname : ∀ c ∈ latin "return", nameByte c = true := by decide
  have hstop : ∀ c ∈ (0x20 :: x).head?, nameByte c = false := by
    intro c hc
    cases hc
    rfl
  have hend : Delimited [] := by
    intro c hc
    cases hc
  have hread := h [] (3 * (latin "return" ++ 0x20 :: x).length + 3) hend (by
    rw [List.length_append, List.length_cons]
    omega)
  rw [List.append_nil] at hread
  rw [restoreData, hchunk, loadReturn, hspace]
  dsimp only
  rw [takeWhile_stops hname hstop, dropWhile_stops hname hstop, if_pos rfl, readExp_blank, hread]
  rfl

/-- A value is restored if and only if no table is reached twice in it. -/
theorem session_restored_iff (len : Nat → Nat) {v : Datum} (hv : WellFormed v) :
    (∃ s w, serialized len v = some s ∧ restoreData s = some w ∧ SameAs v w) ↔
      (refs v).Nodup := by
  rw [serialized_eq len hv]
  constructor
  · rintro ⟨s, w, hs, -⟩
    by_contra h
    rw [if_neg h] at hs
    cases hs
  · intro h
    exact ⟨text len v, restored len v, if_pos h, restoreData_reads (reads_text len hv),
      restored_same len hv⟩

def mixed : Datum :=
  .table 0 [(.index 1, .bool true), (.index 3, .string [0x0a, 0x0d, 0]),
    (.index 40, .table 1 [(.name [0x22], .bool false)]), (.name [0x61], .number (-7))]

theorem mixed_wellFormed : WellFormed mixed := by
  refine .table (by simp) (by simp) fun e he => ?_
  rcases List.mem_cons.mp he with rfl | he
  · exact .bool true
  · rcases List.mem_cons.mp he with rfl | he
    · exact .string _
    · rcases List.mem_cons.mp he with rfl | he
      · refine .table (by simp) (by simp) fun e he => ?_
        rw [List.mem_singleton.mp he]
        exact .bool false
      · rw [List.mem_singleton.mp he]
        exact .number (-7)

theorem mixed_restored : ∃ s w, serialized (fun ref => if ref = 0 then 1 else 0) mixed = some s ∧
    restoreData s = some w ∧ SameAs mixed w :=
  (session_restored_iff _ mixed_wellFormed).mpr (by simp [mixed, refs, refsOf])

/-- The table `{ x, x }` with an empty table `x`. -/
def sharing : Datum := .table 0 [(.index 1, .table 1 []), (.index 2, .table 1 [])]

theorem sharing_not_restored : WellFormed sharing ∧
    ¬∃ s w, serialized (fun ref => if ref = 0 then 2 else 0) sharing = some s ∧
      restoreData s = some w ∧ SameAs sharing w := by
  have hempty : WellFormed (.table 1 []) :=
    .table List.nodup_nil List.not_mem_nil fun _ he => absurd he List.not_mem_nil
  constructor
  · refine .table (by simp) (by simp) fun e he => ?_
    rcases List.mem_cons.mp he with rfl | he
    · exact hempty
    · rw [List.mem_singleton.mp he]
      exact hempty
  · rintro ⟨s, w, hs, -⟩
    have hfails : serialized (fun ref => if ref = 0 then 2 else 0) sharing = none := rfl
    rw [hfails] at hs
    cases hs

end OpenwrtMtk.Luci.Session
