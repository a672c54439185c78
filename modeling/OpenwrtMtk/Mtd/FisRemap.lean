import OpenwrtMtk.Mtd.Fis

/-!
# Remapping the FIS directory

What the loops of `fis_remap` find in a directory that has the old partitions next to each other, and
what the move and the new entries make of it.
-/

namespace OpenwrtMtk.Mtd

open Toolkit Nvram

set_option autoImplicit false

section Reading

variable {table : List U8} {pre rest : List U8} {desc : ImageDesc}

theorem load_middle (pre bytes rest : List U8) :
    load (pre ++ (bytes ++ rest)) pre.length bytes.length = .ok bytes := by
  have hlen : pre.length + bytes.length ≤ (pre ++ (bytes ++ rest)).length := by
    rw [List.length_append, List.length_append]
    omega
  rw [load_ok hlen, slice, List.drop_left, List.take_left]

theorem ImageDesc.encode_split (desc : ImageDesc) :
    ∃ tail, desc.encode = desc.name.toList ++ (le32 desc.flashBase ++ tail) := ⟨_, rfl⟩

theorem load_name (htable : table = pre ++ (desc.encode ++ rest)) :
    load table pre.length 16 = .ok desc.name.toList := by
  obtain ⟨tail, htail⟩ := desc.encode_split
  have hload := load_middle pre desc.name.toList (le32 desc.flashBase ++ tail ++ rest)
  rw [Vector.length_toList] at hload
  rw [htable, htail, List.append_assoc]
  exact hload

theorem flashBaseAt_entry (htable : table = pre ++ (desc.encode ++ rest)) :
    flashBaseAt table pre.length = .ok desc.flashBase := by
  obtain ⟨tail, htail⟩ := desc.encode_split
  have hload := load_middle (pre ++ desc.name.toList) (le32 desc.flashBase) (tail ++ rest)
  rw [List.length_append, Vector.length_toList, length_le32] at hload
  have hbytes : table = pre ++ desc.name.toList ++ (le32 desc.flashBase ++ (tail ++ rest)) := by
    rw [htable, htail]
    simp only [List.append_assoc]
  rw [flashBaseAt, hbytes, bind_ok hload, ofLe32_le32]
  rfl

theorem loadByte_entry (hused : desc.Used) (htable : table = pre ++ (desc.encode ++ rest)) :
    ∃ c, loadByte table pre.length = .ok c ∧ ¬(c = 0 ∨ c = 0xff) := by
  obtain ⟨tail, htail⟩ := desc.encode_split
  obtain ⟨c, name, hname⟩ : ∃ c name, desc.name.toList = c :: name :=
    List.exists_cons_of_length_eq_add_one (Vector.length_toList : desc.name.toList.length = 15 + 1)
  have hlen : pre.length < table.length := by
    rw [htable, htail, hname, List.length_append, List.cons_append, List.cons_append,
      List.length_cons]
    omega
  refine ⟨c, ?_, ?_⟩
  · rw [loadByte_ok hlen, htable, htail, hname, List.getD_eq_getElem?_getD,
      List.getElem?_append_right (Nat.le_refl _), Nat.sub_self]
    rfl
  · rintro (hzero | hfree)
    · exact hused.nonzero (by rw [hname, hzero]; rfl)
    · exact hused.written (by rw [hname, hfree]; rfl)

theorem loadByte_free {fill : Nat} (htable : table = pre ++ List.replicate fill 0xff)
    (hlen : pre.length < table.length) : loadByte table pre.length = .ok 0xff := by
  rw [loadByte_ok hlen, htable, List.getD_eq_getElem?_getD,
    List.getElem?_append_right (Nat.le_refl _), Nat.sub_self]
  rw [htable, List.length_append, List.length_replicate] at hlen
  rw [List.getElem?_replicate, if_pos (by omega)]
  rfl

end Reading

section Scanning

variable {table : List U8} {old : List FisPart} {fill : Nat}

def noteDesc (old : List FisPart) (desc : Nat) (s : Scan) (e : ImageDesc) : Scan :=
  let offset := larger s.offset e.flashBase
  if isOld old e.name.toList then ⟨offset, s.first.or (some desc), some desc⟩ else { s with offset }

def scanDescs (old : List FisPart) : List ImageDesc → Nat → Scan → Scan
  | [], _, s => s
  | e :: es, desc, s => scanDescs old es (desc + sizeofDesc) (noteDesc old desc s e)

theorem table_cons {e : ImageDesc} {es : List ImageDesc} {pre : List U8}
    (htable : table = pre ++ (encodeDescs (e :: es) ++ List.replicate fill 0xff)) :
    table = pre ++ (e.encode ++ (encodeDescs es ++ List.replicate fill 0xff)) ∧
      table = pre ++ e.encode ++ (encodeDescs es ++ List.replicate fill 0xff) ∧
      pre.length < table.length := by
  have hentry : table = pre ++ (e.encode ++ (encodeDescs es ++ List.replicate fill 0xff)) := by
    rw [htable, encodeDescs_cons, List.append_assoc]
  refine ⟨hentry, by rw [hentry, List.append_assoc], ?_⟩
  rw [hentry, List.length_append, List.length_append, e.length_encode, sizeofDesc]
  omega

theorem findOld_entries {es : List ImageDesc} (hused : ∀ e ∈ es, e.Used) {pre : List U8}
    (htable : table = pre ++ (encodeDescs es ++ List.replicate fill 0xff)) {turns : Nat}
    (hturns : es.length < turns) (s : Scan) :
    findOld table old turns pre.length s = .ok (scanDescs old es pre.length s) := by
  induction es generalizing pre turns s with
  | nil =>
    obtain ⟨n, rfl⟩ := Nat.exists_eq_add_one.mpr (Nat.zero_lt_of_lt hturns)
    rw [findOld]
    by_cases hin : pre.length < table.length
    · rw [if_pos hin, bind_ok (loadByte_free htable hin), if_pos (Or.inr rfl)]
      rfl
    · rw [if_neg hin]
      rfl
  | cons e es ih =>
    obtain ⟨n, rfl⟩ := Nat.exists_eq_add_one.mpr (Nat.zero_lt_of_lt hturns)
    obtain ⟨hentry, hnext, hin⟩ := table_cons htable
    obtain ⟨c, hc, hother⟩ := loadByte_entry (hused e List.mem_cons_self) hentry
    have hrest := ih (fun e' h => hused e' (List.mem_cons_of_mem e h)) hnext
      (Nat.lt_of_succ_lt_succ hturns) (noteDesc old pre.length s e)
    rw [List.length_append, e.length_encode] at hrest
    rw [findOld, if_pos hin, bind_ok hc, if_neg hother, bind_ok (flashBaseAt_entry hentry),
      bind_ok (load_name hentry)]
    exact hrest

theorem findLimit_entries {es : List ImageDesc} (hused : ∀ e ∈ es, e.Used) {pre : List U8}
    (htable : table = pre ++ (encodeDescs es ++ List.replicate fill 0xff)) {turns : Nat}
    (hturns : es.length < turns) (highest offset : U32) :
    findLimit table highest turns pre.length offset =
      .ok (nearestOf ImageDesc.flashBase highest es offset) := by
  induction es generalizing pre turns offset with
  | nil =>
    obtain ⟨n, rfl⟩ := Nat.exists_eq_add_one.mpr (Nat.zero_lt_of_lt hturns)
    rw [findLimit]
    by_cases hin : pre.length < table.length
    · rw [if_pos hin, bind_ok (loadByte_free htable hin), if_pos (Or.inr rfl)]
      rfl
    · rw [if_neg hin]
      rfl
  | cons e es ih =>
    obtain ⟨n, rfl⟩ := Nat.exists_eq_add_one.mpr (Nat.zero_lt_of_lt hturns)
    obtain ⟨hentry, hnext, hin⟩ := table_cons htable
    obtain ⟨c, hc, hother⟩ := loadByte_entry (hused e List.mem_cons_self) hentry
    have hrest := ih (fun e' h => hused e' (List.mem_cons_of_mem e h)) hnext
      (Nat.lt_of_succ_lt_succ hturns) (nearer highest offset e.flashBase)
    rw [List.length_append, e.length_encode] at hrest
    rw [findLimit, if_pos hin, bind_ok hc, if_neg hother, bind_ok (flashBaseAt_entry hentry)]
    exact hrest

theorem scanDescs_offset (es : List ImageDesc) (desc : Nat) (s : Scan) :
    (scanDescs old es desc s).offset = largestOf ImageDesc.flashBase es s.offset := by
  induction es generalizing desc s with
  | nil => rfl
  | cons e es ih =>
    have hnote : (noteDesc old desc s e).offset = larger s.offset e.flashBase := by
      rw [noteDesc]
      split <;> rfl
    rw [scanDescs, ih, hnote]
    rfl

theorem scanDescs_append (es es' : List ImageDesc) (desc : Nat) (s : Scan) :
    scanDescs old (es ++ es') desc s =
      scanDescs old es' (desc + sizeofDesc * es.length) (scanDescs old es desc s) := by
  induction es generalizing desc s with
  | nil => rfl
  | cons e es ih =>
    rw [List.cons_append, scanDescs, ih, scanDescs, List.length_cons, Nat.mul_succ,
      Nat.add_comm (sizeofDesc * es.length), ← Nat.add_assoc]

theorem scanDescs_others {es : List ImageDesc} (h : ∀ e ∈ es, isOld old e.name.toList = false)
    (desc : Nat) (s : Scan) :
    (scanDescs old es desc s).first = s.first ∧ (scanDescs old es desc s).last = s.last := by
  induction es generalizing desc s with
  | nil => exact ⟨rfl, rfl⟩
  | cons e es ih =>
    obtain ⟨hfirst, hlast⟩ := ih (fun e' hmem => h e' (List.mem_cons_of_mem e hmem))
      (desc + sizeofDesc) (noteDesc old desc s e)
    rw [scanDescs, hfirst, hlast, noteDesc, h e List.mem_cons_self]
    exact ⟨rfl, rfl⟩

theorem scanDescs_olds {es : List ImageDesc} (h : ∀ e ∈ es, isOld old e.name.toList = true)
    {first : Nat} {desc : Nat} {s : Scan} (hfirst : s.first = some first) :
    (scanDescs old es desc s).first = some first ∧ (scanDescs old es desc s).last =
      if es = [] then s.last else some (desc + sizeofDesc * (es.length - 1)) := by
  induction es generalizing desc s with
  | nil => exact ⟨hfirst, rfl⟩
  | cons e es ih =>
    have hnote : noteDesc old desc s e = ⟨larger s.offset e.flashBase, some first, some desc⟩ := by
      rw [noteDesc, h e List.mem_cons_self, hfirst]
      rfl
    obtain ⟨hkept, hlast⟩ := @ih (fun e' hmem => h e' (List.mem_cons_of_mem e hmem))
      (desc + sizeofDesc) (noteDesc old desc s e) (by rw [hnote])
    rw [scanDescs, hkept, hlast, hnote, if_neg (List.cons_ne_nil e es)]
    refine ⟨rfl, ?_⟩
    cases es with
    | nil => rfl
    | cons e' es =>
      rw [if_neg (List.cons_ne_nil e' es)]
      congr 1
      simp only [List.length_cons, sizeofDesc]
      omega

theorem scanDescs_found {before olds behind : List ImageDesc}
    (h : Contiguous old before olds behind) :
    let s := scanDescs old (before ++ olds ++ behind) 0 ⟨0, none, none⟩
    s.offset = largestOf ImageDesc.flashBase (before ++ olds ++ behind) 0 ∧
      s.first = some (sizeofDesc * before.length) ∧
      s.last = some (sizeofDesc * before.length + sizeofDesc * (olds.length - 1)) := by
  obtain ⟨e, es, rfl⟩ := List.exists_cons_of_ne_nil h.some_old
  refine ⟨scanDescs_offset _ _ _, ?_⟩
  obtain ⟨hnone, -⟩ := scanDescs_others h.before 0 ⟨0, none, none⟩
  have hnote : (noteDesc old (sizeofDesc * before.length)
      (scanDescs old before 0 ⟨0, none, none⟩) e).first = some (sizeofDesc * before.length) := by
    rw [noteDesc, h.olds e List.mem_cons_self, hnone]
    rfl
  have hlastNote : (noteDesc old (sizeofDesc * before.length)
      (scanDescs old before 0 ⟨0, none, none⟩) e).last = some (sizeofDesc * before.length) := by
    rw [noteDesc, h.olds e List.mem_cons_self]
    rfl
  obtain ⟨hfirst, hlast⟩ := @scanDescs_olds old es
    (fun e' hmem => h.olds e' (List.mem_cons_of_mem e hmem)) _
    (sizeofDesc * before.length + sizeofDesc) _ hnote
  rw [scanDescs_append, scanDescs_append, Nat.zero_add, scanDescs]
  obtain ⟨hfirst', hlast'⟩ := scanDescs_others h.behind
    (sizeofDesc * (before ++ e :: es).length) (scanDescs old es
      (sizeofDesc * before.length + sizeofDesc) (noteDesc old (sizeofDesc * before.length)
        (scanDescs old before 0 ⟨0, none, none⟩) e))
  rw [Nat.zero_add, hfirst', hlast', hfirst, hlast]
  refine ⟨rfl, ?_⟩
  cases es with
  | nil => exact hlastNote
  | cons e' es =>
    rw [if_neg (List.cons_ne_nil e' es)]
    congr 1
    simp only [List.length_cons, sizeofDesc]
    omega

end Scanning

section Moving

variable {before behind table : List U8} {fill : Nat}

theorem store_inside {block bytes : List U8} {off : Nat} (h : Ends (store block off bytes)) :
    off + bytes.length ≤ block.length := by
  by_contra hout
  have herror : store block off bytes = .error .outside := if_neg fun hin => hout hin.2
  rw [herror] at h
  exact Ends.error h

theorem moveEntries_up {olds : List U8} {shift : Nat} (hshift : shift ≤ fill)
    (htable : table = before ++ (olds ++ (behind ++ List.replicate fill 0xff)))
    (hsize : table.length < 2 ^ 32) :
    ∃ room, room.length = olds.length + shift ∧
      moveEntries table (before.length + (olds.length + shift)) (before.length + olds.length) =
        .ok (before ++ (room ++ (behind ++ List.replicate (fill - shift) 0xff))) := by
  rw [moveEntries]
  by_cases hsame : shift = 0
  · subst hsame
    exact ⟨olds, rfl, by rw [Nat.add_zero, if_pos rfl, htable]; rfl⟩
  · have hlen : table.length = before.length + (olds.length + (behind.length + fill)) := by
      rw [htable, List.length_append, List.length_append, List.length_append, List.length_replicate]
    have hmoved : slice table (before.length + olds.length) (behind.length + (fill - shift)) =
        behind ++ List.replicate (fill - shift) 0xff := by
      rw [slice, htable, ← List.append_assoc, ← List.length_append, List.drop_left,
        List.take_append, List.take_of_length_le (by omega), List.take_replicate]
      congr 2
      omega
    have hsub : sizeSub table.length (before.length + (olds.length + shift)) =
        behind.length + (fill - shift) := by
      rw [sizeSub_of_le (by omega) hsize]
      omega
    refine ⟨(olds ++ (behind ++ List.replicate fill 0xff)).take (olds.length + shift), ?_, ?_⟩
    · rw [List.length_take, List.length_append, List.length_append, List.length_replicate]
      omega
    · rw [if_neg (by omega), Nat.max_eq_left (by omega), hsub, bind_ok (load_ok (by omega)), hmoved,
        bind_ok (store_ok (by
          rw [List.length_append, List.length_replicate]
          omega)), if_neg (by omega), overwrite, List.length_append, List.length_replicate,
        List.drop_eq_nil_of_le (by omega), List.append_nil, htable, List.take_append,
        List.take_of_length_le (by omega), Nat.add_sub_cancel_left, List.append_assoc]
      rfl

/-- To move entries down is to clear far more than there is behind them. -/
theorem moveEntries_down {desc last : Nat} (hdown : desc < last) (hlast : last ≤ table.length)
    (hsize : table.length < 2 ^ 31) : ¬Ends (moveEntries table desc last) := by
  rw [moveEntries, if_neg (Nat.ne_of_lt hdown), ends_load]
  rintro ⟨-, h⟩
  obtain ⟨hin, h⟩ := ends_store.mp h
  rw [if_pos hdown] at h
  have hstore := store_inside h
  rw [length_overwrite hin, List.length_replicate, sizeSub] at hstore
  omega

end Moving

section Placing

theorem placeParts_eq {new : List FisPart} {pre room rest : List U8} (limit base : U32)
    (hroom : room.length = sizeofDesc * new.length) :
    placeParts new pre.length base (limit - base) (pre ++ (room ++ rest)) =
      .ok (pre ++ (encodeDescs (layOut limit base new) ++ rest)) := by
  induction new generalizing pre room base with
  | nil =>
    rw [List.length_nil, Nat.mul_zero, List.length_eq_zero_iff] at hroom
    rw [hroom]
    rfl
  | cons part parts ih =>
    rw [List.length_cons, Nat.mul_succ] at hroom
    have hsplit := List.take_append_drop sizeofDesc room
    have hfirst : (room.take sizeofDesc).length = sizeofDesc := by
      rw [List.length_take]
      omega
    have hrest : (room.drop sizeofDesc).length = sizeofDesc * parts.length := by
      rw [List.length_drop]
      omega
    have hbytes : (if 0 < part.size then part.size else limit - base) =
        if part.size = 0 then limit - base else part.size := by
      by_cases hzero : part.size = 0
      · rw [if_pos hzero, if_neg (by rw [hzero]; exact BitVec.lt_irrefl 0)]
      · rw [if_neg hzero]
        exact if_pos ((BitVec.pos_iff_ne_zero _).mpr hzero)
    rw [placeParts, hbytes, layOut]
    generalize (if part.size = 0 then limit - base else part.size) = bytes
    have hlen := (ImageDesc.ofPart part base bytes).length_encode
    have hstore : store (pre ++ (room ++ rest)) pre.length (ImageDesc.ofPart part base bytes).encode =
        .ok (pre ++ (ImageDesc.ofPart part base bytes).encode ++ (room.drop sizeofDesc ++ rest)) := by
      rw [store_ok (by rw [hlen, List.length_append, List.length_append]; omega)]
      conv_lhs => rw [← hsplit, List.append_assoc, ← List.append_assoc pre]
      rw [overwrite_middle _ _ _ (by rw [hlen, hfirst])]
    have hnext := @ih (pre ++ (ImageDesc.ofPart part base bytes).encode) _ (base + bytes) hrest
    rw [List.length_append, hlen] at hnext
    rw [bind_ok hstore, BitVec.sub_sub, hnext, encodeDescs_cons]
    simp only [List.append_assoc]

end Placing

section Remapping

variable {old new : List FisPart} {before olds behind : List ImageDesc} {n : Nat}
variable {head last : ImageDesc}

def seenLimit (descs : List ImageDesc) (highest : U32) : U32 :=
  nearestOf ImageDesc.flashBase highest descs (largestOf ImageDesc.flashBase descs 0)

def lowerBase (base base' : U32) : U32 := if base' < base then base' else base

def higherBase (base base' : U32) : U32 := if base' < base then base else base'

theorem directoryBytes_head (hhead : olds.head? = some head) :
    ∃ rest, directoryBytes n (before ++ olds ++ behind) =
      encodeDescs before ++ (head.encode ++ rest) := by
  obtain ⟨descs, rfl⟩ := List.head?_eq_some_iff.mp hhead
  rw [directoryBytes, encodeDescs_append, encodeDescs_append, encodeDescs_cons]
  simp only [List.append_assoc]
  exact ⟨_, rfl⟩

theorem directoryBytes_last (hlast : olds.getLast? = some last) :
    ∃ pre rest, directoryBytes n (before ++ olds ++ behind) = pre ++ (last.encode ++ rest) ∧
      pre.length = sizeofDesc * before.length + sizeofDesc * (olds.length - 1) := by
  obtain ⟨descs, rfl⟩ := List.getLast?_eq_some_iff.mp hlast
  refine ⟨encodeDescs before ++ encodeDescs descs, encodeDescs behind ++ List.replicate
    (n - sizeofDesc * (before ++ (descs ++ [last]) ++ behind).length) 0xff, ?_, ?_⟩
  · rw [directoryBytes, encodeDescs_append, encodeDescs_append, encodeDescs_append, encodeDescs_cons]
    simp only [List.append_assoc]
    rfl
  · rw [List.length_append, length_encodeDescs, length_encodeDescs, List.length_append,
      List.length_singleton, Nat.add_sub_cancel]

theorem fisRemap_eq (h : Contiguous old before olds behind) (hhead : olds.head? = some head)
    (hlast : olds.getLast? = some last)
    (hfits : sizeofDesc * (before ++ olds ++ behind).length ≤ n) :
    fisRemap old new (directoryBytes n (before ++ olds ++ behind)) =
      (moveEntries (directoryBytes n (before ++ olds ++ behind))
          (sizeofDesc * before.length + sizeofDesc * new.length)
          (sizeofDesc * before.length + sizeofDesc * olds.length) >>=
        placeParts new (sizeofDesc * before.length) (lowerBase head.flashBase last.flashBase)
          (seenLimit (before ++ olds ++ behind) (higherBase head.flashBase last.flashBase) -
            lowerBase head.flashBase last.flashBase)) := by
  have hlen := length_directoryBytes hfits
  have hturns : (before ++ olds ++ behind).length <
      (directoryBytes n (before ++ olds ++ behind)).length + 1 := by
    rw [hlen]
    unfold sizeofDesc at hfits
    omega
  have htable : directoryBytes n (before ++ olds ++ behind) =
      [] ++ (encodeDescs (before ++ olds ++ behind) ++
        List.replicate (n - sizeofDesc * (before ++ olds ++ behind).length) 0xff) := rfl
  obtain ⟨hoffset, hfirst, hlastPos⟩ := scanDescs_found h
  have hscan := @findOld_entries _ old _ _ h.used _ htable _ hturns ⟨0, none, none⟩
  have hlimit := findLimit_entries h.used htable hturns
    (higherBase head.flashBase last.flashBase)
    (largestOf ImageDesc.flashBase (before ++ olds ++ behind) 0)
  obtain ⟨rest, hheadBytes⟩ := @directoryBytes_head before olds behind n head hhead
  have hheadBase := flashBaseAt_entry hheadBytes
  rw [length_encodeDescs] at hheadBase
  obtain ⟨pre, rest', hlastBytes, hpre⟩ := @directoryBytes_last before olds behind n last hlast
  have hlastBase := flashBaseAt_entry hlastBytes
  rw [hpre] at hlastBase
  have hpos : 0 < olds.length := List.length_pos_iff.mpr h.some_old
  have hbehind : sizeofDesc * before.length + sizeofDesc * (olds.length - 1) + sizeofDesc =
      sizeofDesc * before.length + sizeofDesc * olds.length := by
    unfold sizeofDesc
    omega
  rw [List.length_nil] at hscan hlimit
  rw [fisRemap, bind_ok hscan, bind_ok (orOutside_eq_ok.mpr hfirst),
    bind_ok (orOutside_eq_ok.mpr hlastPos), bind_ok hheadBase, bind_ok hlastBase, hoffset,
    hbehind]
  exact bind_ok hlimit

theorem length_layOut (limit base : U32) (parts : List FisPart) :
    (layOut limit base parts).length = parts.length := by
  induction parts generalizing base with
  | nil => rfl
  | cons part parts ih => exact congrArg (· + 1) (ih _)

theorem fisRemap_up (h : Contiguous old before olds behind) (hhead : olds.head? = some head)
    (hlast : olds.getLast? = some last) (hroom : olds.length ≤ new.length)
    (hfits : sizeofDesc * (before.length + new.length + behind.length) ≤ n) (hn : n < 2 ^ 31) :
    fisRemap old new (directoryBytes n (before ++ olds ++ behind)) =
      .ok (directoryBytes n (before ++ layOut
        (seenLimit (before ++ olds ++ behind) (higherBase head.flashBase last.flashBase))
        (lowerBase head.flashBase last.flashBase) new ++ behind)) := by
  have hold : sizeofDesc * (before ++ olds ++ behind).length ≤ n := by
    rw [List.length_append, List.length_append]
    unfold sizeofDesc at hfits ⊢
    omega
  have htable : directoryBytes n (before ++ olds ++ behind) =
      encodeDescs before ++ (encodeDescs olds ++ (encodeDescs behind ++
        List.replicate (n - sizeofDesc * (before ++ olds ++ behind).length) 0xff)) := by
    rw [directoryBytes, encodeDescs_append, encodeDescs_append]
    simp only [List.append_assoc]
  have hshift : sizeofDesc * (new.length - olds.length) ≤
      n - sizeofDesc * (before ++ olds ++ behind).length := by
    rw [List.length_append, List.length_append]
    unfold sizeofDesc at hfits ⊢
    omega
  have hsum : sizeofDesc * olds.length + sizeofDesc * (new.length - olds.length) =
      sizeofDesc * new.length := by
    rw [← Nat.mul_add, Nat.add_sub_cancel' hroom]
  obtain ⟨room, hlen, hmove⟩ := moveEntries_up hshift htable (by
    rw [length_directoryBytes hold]
    omega)
  rw [length_encodeDescs, length_encodeDescs, hsum] at hmove
  rw [length_encodeDescs, hsum] at hlen
  have hplace := @placeParts_eq new (encodeDescs before) room (encodeDescs behind ++
    List.replicate (n - sizeofDesc * (before ++ olds ++ behind).length -
      sizeofDesc * (new.length - olds.length)) 0xff)
    (seenLimit (before ++ olds ++ behind) (higherBase head.flashBase last.flashBase))
    (lowerBase head.flashBase last.flashBase) hlen
  rw [length_encodeDescs] at hplace
  rw [fisRemap_eq h hhead hlast hold, bind_ok hmove, hplace, directoryBytes, encodeDescs_append,
    encodeDescs_append]
  simp only [List.append_assoc, List.length_append, length_layOut]
  congr 5
  unfold sizeofDesc
  omega

theorem fisRemap_down (h : Contiguous old before olds behind) (hroom : new.length < olds.length)
    (hfits : sizeofDesc * (before ++ olds ++ behind).length ≤ n) (hn : n < 2 ^ 31) :
    ¬Ends (fisRemap old new (directoryBytes n (before ++ olds ++ behind))) := by
  obtain ⟨head, hhead⟩ := Option.ne_none_iff_exists'.mp (List.head?_eq_none_iff.not.mpr h.some_old)
  obtain ⟨last, hlast⟩ :=
    Option.ne_none_iff_exists'.mp (List.getLast?_eq_none_iff.not.mpr h.some_old)
  rw [fisRemap_eq h hhead hlast hfits, ends_bind]
  rintro ⟨table, htable, -⟩
  have hlen := length_directoryBytes hfits
  refine moveEntries_down ?_ ?_ ?_ ⟨table, htable⟩
  · unfold sizeofDesc
    omega
  · rw [hlen]
    rw [List.length_append, List.length_append] at hfits
    unfold sizeofDesc at hfits ⊢
    omega
  · rw [hlen]
    exact hn

end Remapping

end OpenwrtMtk.Mtd
