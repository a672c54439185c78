import OpenwrtMtk.Nfc.HandoverAccess

/-!
# The header of a record

What a record header says and how many of its bytes the parser needs for that. The parser knows no
length, so that it reads behind the message where the message ends before.
-/

namespace OpenwrtMtk.Nfc.Access

open Toolkit

set_option autoImplicit false

section Header

variable (raw : List U8)

def lengthBytes (header : U8) : Nat := if header &&& flagsSr = flagsSr then 1 else 4

def payloadLengthOf (header : U8) : U32 :=
  if header &&& flagsSr = flagsSr then (raw.getD 2 0).setWidth 32
  else longOf (raw.getD 2 0) (raw.getD 3 0) (raw.getD 4 0) (raw.getD 5 0)

structure Header where
  status : Int
  lengths : Lengths
  needs : Nat
  deriving DecidableEq

def idHeader (header : U8) (l : Lengths) : Header :=
  let needs := 2 + lengthBytes header
  if header &&& flagsIl = flagsIl then
    ⟨0, { l with idLengthByte := 1, idLength := raw.getD needs 0 }, needs + 1⟩
  else ⟨0, { l with idLengthByte := 0, idLength := 0 }, needs⟩

def lengthsOf (header : U8) : Lengths where
  typeLength := raw.getD 1 0
  typeLengthByte := 1
  payloadLengthByte := lengthBytes header
  payloadLength := payloadLengthOf raw header

def emptyHeader (header : U8) : Header :=
  let l := lengthsOf raw header
  let h := idHeader raw header l
  if raw.getD 1 0 ≠ 0 then ⟨-1, { typeLength := raw.getD 1 0 }, 2⟩
  else if l.payloadLength ≠ 0 then ⟨-1, l, 2 + lengthBytes header⟩
  else if h.lengths.idLength ≠ 0 then { h with status := -1 }
  else h

def headerOf : Header :=
  let header := raw.getD 0 0
  let tnf := header &&& tnfByteMask
  if tnf = tnfReserved then ⟨-1, {}, 1⟩
  else if tnf = tnfEmpty then emptyHeader raw header
  else if (tnf = tnfUnknown ∨ tnf = tnfUnchanged) ∧ raw.getD 1 0 ≠ 0 then ⟨-1, {}, 2⟩
  else idHeader raw header (lengthsOf raw header)

end Header

section

variable {raw message : List U8} {header : U8} {l : Lengths}

theorem getElem?_eq_if (i : Nat) :
    raw[i]? = if i < raw.length then some (raw.getD i 0) else none := by
  by_cases h : i < raw.length
  · rw [if_pos h, List.getD_eq_getElem?_getD, List.getElem?_eq_getElem h]
    rfl
  · rw [if_neg h, List.getElem?_eq_none (Nat.le_of_not_lt h)]

theorem readPayloadLength_eq (hl : l.typeLengthByte = 1) :
    readPayloadLength raw header l = if 2 + lengthBytes header ≤ raw.length then
      some { l with
        payloadLengthByte := lengthBytes header
        payloadLength := payloadLengthOf raw header } else none := by
  unfold readPayloadLength lengthBytes payloadLengthOf
  by_cases hshort : header &&& flagsSr = flagsSr
  · rw [if_pos hshort, if_pos hshort, if_pos hshort, hl, getElem?_eq_if]
    by_cases h : 2 < raw.length
    · rw [if_pos h, if_pos (by omega)]
      rfl
    · rw [if_neg h, if_neg (by omega)]
      rfl
  · rw [if_neg hshort, if_neg hshort, if_neg hshort]
    by_cases h : 2 + 4 ≤ raw.length
    · rw [if_pos h, getElem?_eq_if, if_pos (by omega), getElem?_eq_if, if_pos (by omega),
        getElem?_eq_if, if_pos (by omega), getElem?_eq_if, if_pos (by omega)]
      rfl
    · rw [if_neg h, List.getElem?_eq_none (by omega : raw.length ≤ 5)]
      cases raw[2]? <;> cases raw[3]? <;> cases raw[4]? <;> rfl

theorem readIdLength_eq (htype : l.typeLengthByte = 1)
    (hpayload : l.payloadLengthByte = lengthBytes header)
    (hin : 2 + lengthBytes header ≤ raw.length) :
    readIdLength raw header l = if (idHeader raw header l).needs ≤ raw.length then
      some (idHeader raw header l).lengths else none := by
  unfold readIdLength idHeader
  by_cases hid : header &&& flagsIl = flagsIl
  · have hplace : l.payloadLengthByte + l.typeLengthByte + 1 = 2 + lengthBytes header := by omega
    rw [if_pos hid, if_pos hid, hplace, getElem?_eq_if]
    by_cases h : 2 + lengthBytes header < raw.length
    · rw [if_pos h]
      exact (if_pos h).symm
    · rw [if_neg h]
      exact (if_neg h).symm
  · rw [if_neg hid, if_neg hid, if_pos hin]

theorem idHeader_needs : 2 + lengthBytes header ≤ (idHeader raw header l).needs := by
  unfold idHeader
  split
  · exact Nat.le_succ _
  · exact Nat.le_refl _

theorem idHeader_status : (idHeader raw header l).status = 0 := by
  unfold idHeader
  split
  · rfl
  · rfl

theorem readLengths_eq : (do
      let l ← readPayloadLength raw header { typeLength := raw.getD 1 0, typeLengthByte := 1 }
      let l ← readIdLength raw header l
      some ((0 : Int), l)) =
    if (idHeader raw header (lengthsOf raw header)).needs ≤ raw.length then
      some (0, (idHeader raw header (lengthsOf raw header)).lengths) else none := by
  rw [readPayloadLength_eq rfl]
  by_cases h : 2 + lengthBytes header ≤ raw.length
  · rw [if_pos h]
    change (readIdLength raw header (lengthsOf raw header) >>= _) = _
    rw [readIdLength_eq rfl rfl h]
    split
    · rfl
    · rfl
  · rw [if_neg h, if_neg fun hneeds => h (Nat.le_trans idHeader_needs hneeds)]
    rfl

theorem readEmpty_eq (hin : 1 < raw.length) : (if raw.getD 1 0 ≠ 0 then
      some ((-1 : Int), ({ typeLength := raw.getD 1 0 } : Lengths))
    else do
      let l ← readPayloadLength raw header { typeLength := raw.getD 1 0, typeLengthByte := 1 }
      if l.payloadLength ≠ 0 then some (-1, l)
      else do
        let l ← readIdLength raw header l
        if l.idLength ≠ 0 then some (-1, l) else some (0, l)) =
    if (emptyHeader raw header).needs ≤ raw.length then
      some ((emptyHeader raw header).status, (emptyHeader raw header).lengths) else none := by
  unfold emptyHeader
  dsimp only
  by_cases htype : raw.getD 1 0 ≠ 0
  · rw [if_pos htype, if_pos htype]
    exact (if_pos hin).symm
  · rw [if_neg htype, if_neg htype, readPayloadLength_eq rfl]
    by_cases h : 2 + lengthBytes header ≤ raw.length
    · rw [if_pos h]
      change (if (lengthsOf raw header).payloadLength ≠ 0 then some (-1, lengthsOf raw header)
        else readIdLength raw header (lengthsOf raw header) >>= _) = _
      by_cases hpayload : (lengthsOf raw header).payloadLength ≠ 0
      · rw [if_pos hpayload, if_pos hpayload]
        exact (if_pos h).symm
      · rw [if_neg hpayload, if_neg hpayload, readIdLength_eq rfl rfl h]
        by_cases hneeds : (idHeader raw header (lengthsOf raw header)).needs ≤ raw.length
        · rw [if_pos hneeds]
          by_cases hid : (idHeader raw header (lengthsOf raw header)).lengths.idLength ≠ 0
          · rw [if_pos hid]
            exact (if_pos hid).trans (if_pos hneeds).symm
          · rw [if_neg hid, if_pos hneeds, idHeader_status]
            exact if_neg hid
        · rw [if_neg hneeds]
          by_cases hid : (idHeader raw header (lengthsOf raw header)).lengths.idLength ≠ 0
          · rw [if_pos hid]
            exact (if_neg hneeds).symm
          · rw [if_neg hid, if_neg hneeds]
            rfl
    · have hbehind : 2 + lengthBytes header ≤ (if (lengthsOf raw header).payloadLength ≠ 0 then
          (⟨-1, lengthsOf raw header, 2 + lengthBytes header⟩ : Header)
        else if (idHeader raw header (lengthsOf raw header)).lengths.idLength ≠ 0 then
          { idHeader raw header (lengthsOf raw header) with status := -1 }
        else idHeader raw header (lengthsOf raw header)).needs := by
        split
        · exact Nat.le_refl _
        · split
          · exact idHeader_needs
          · exact idHeader_needs
      rw [if_neg h, if_neg fun hneeds => h (Nat.le_trans hbehind hneeds)]
      rfl

theorem two_le_idHeader : 2 ≤ (idHeader raw header l).needs :=
  Nat.le_trans (Nat.le_add_right 2 _) idHeader_needs

theorem two_le_emptyHeader : 2 ≤ (emptyHeader raw header).needs := by
  unfold emptyHeader
  dsimp only
  split
  · exact Nat.le_refl 2
  · split
    · exact Nat.le_add_right 2 _
    · split
      · exact two_le_idHeader
      · exact two_le_idHeader

theorem two_le_needs (h : raw.getD 0 0 &&& tnfByteMask ≠ tnfReserved) :
    2 ≤ (headerOf raw).needs := by
  unfold headerOf
  dsimp only
  rw [if_neg h]
  split
  · exact two_le_emptyHeader
  · split
    · exact Nat.le_refl 2
    · exact two_le_idHeader

theorem needs_pos (raw : List U8) : 1 ≤ (headerOf raw).needs := by
  by_cases h : raw.getD 0 0 &&& tnfByteMask = tnfReserved
  · have hheader : headerOf raw = ⟨-1, {}, 1⟩ := if_pos h
    rw [hheader]
  · exact Nat.le_trans (Nat.le_succ 1) (two_le_needs h)

theorem recordIdCheck_behind (hone : 1 < raw.length)
    (hreserved : raw.getD 0 0 &&& tnfByteMask ≠ tnfReserved) :
    recordIdCheck raw = if (headerOf raw).needs ≤ raw.length then
      some ((headerOf raw).status, (headerOf raw).lengths) else none := by
  unfold recordIdCheck
  rw [getElem?_eq_if 0, if_pos (by omega), getElem?_eq_if 1, if_pos hone]
  simp only [Option.bind_eq_bind, Option.bind_some]
  rw [if_neg hreserved]
  unfold headerOf
  dsimp only
  rw [if_neg hreserved]
  by_cases hempty : raw.getD 0 0 &&& tnfByteMask = tnfEmpty
  · rw [if_pos hempty, if_pos hempty]
    exact readEmpty_eq hone
  · rw [if_neg hempty, if_neg hempty]
    split
    · exact (if_pos hone).symm
    · refine readLengths_eq.trans ?_
      rw [idHeader_status]

theorem recordIdCheck_eq : recordIdCheck raw = if (headerOf raw).needs ≤ raw.length then
    some ((headerOf raw).status, (headerOf raw).lengths) else none := by
  by_cases hzero : 0 < raw.length
  · by_cases hreserved : raw.getD 0 0 &&& tnfByteMask = tnfReserved
    · have hheader : headerOf raw = ⟨-1, {}, 1⟩ := if_pos hreserved
      unfold recordIdCheck
      rw [getElem?_eq_if 0, if_pos hzero, hheader]
      exact (if_pos hreserved).trans (if_pos hzero).symm
    · by_cases hone : 1 < raw.length
      · exact recordIdCheck_behind hone hreserved
      · have hneeds := two_le_needs hreserved
        rw [if_neg (by omega)]
        unfold recordIdCheck
        rw [getElem?_eq_if 0, if_pos hzero, getElem?_eq_if 1, if_neg hone]
        exact if_neg hreserved
  · have hneeds := needs_pos raw
    rw [if_neg (by omega)]
    unfold recordIdCheck
    rw [getElem?_eq_if 0, if_neg hzero]
    rfl

end

section Record

/-- The record that the header at `off` says. -/
def recordAt (message : List U8) (off : Nat) : RecordAt :=
  let h := headerOf (message.drop off)
  recordOf (message.getD off 0) off h.status h.lengths

/-- The message has the bytes of the header at `off` that the parser needs. -/
structure HeaderFits (message : List U8) (off : Int) : Prop where
  nonneg : 0 ≤ off
  fits : off.toNat + (headerOf (message.drop off.toNat)).needs ≤ message.length

variable {message : List U8} {off : Int}

theorem parse_ok (h : HeaderFits message off) :
    parse message off = .ok (recordAt message off.toNat) := by
  have hpos := needs_pos (message.drop off.toNat)
  have hfits := h.fits
  have hin : off.toNat < message.length := by omega
  have hneeds : (headerOf (message.drop off.toNat)).needs ≤ (message.drop off.toNat).length := by
    rw [List.length_drop]
    omega
  have hfirst : (message.drop off.toNat)[0]? = some (message.getD off.toNat 0) := by
    rw [List.getElem?_drop, Nat.add_zero, getElem?_eq_if, if_pos hin]
  unfold parse
  dsimp only
  rw [if_neg (Int.not_lt.mpr h.nonneg), hfirst, recordIdCheck_eq, if_pos hneeds]
  rfl

theorem parse_outside (h : ¬HeaderFits message off) : parse message off = .error .outside := by
  unfold parse
  dsimp only
  by_cases hneg : off < 0
  · rw [if_pos hneg]
  · have hpos := needs_pos (message.drop off.toNat)
    have hneeds : ¬(headerOf (message.drop off.toNat)).needs ≤
        (message.drop off.toNat).length := by
      intro hle
      rw [List.length_drop] at hle
      exact h ⟨Int.not_lt.mp hneg, by omega⟩
    rw [if_neg hneg, recordIdCheck_eq, if_neg hneeds]
    cases (message.drop off.toNat)[0]? with
    | none => rfl
    | some header => rfl

theorem ends_parse {β : Type} {f : RecordAt → Checked β} : Ends (parse message off >>= f) ↔
    HeaderFits message off ∧ Ends (f (recordAt message off.toNat)) := by
  by_cases h : HeaderFits message off
  · rw [parse_ok h]
    exact ⟨fun hf => ⟨h, hf⟩, fun hf => hf.2⟩
  · rw [parse_outside h]
    exact ⟨fun hf => absurd hf Ends.error, fun hf => absurd hf.1 h⟩

def RecordAt.toRecord (message : List U8) (r : RecordAt) : NdefRecord where
  flags := r.flags
  tnf := r.tnf
  typeLength := r.typeLength
  type := message.drop r.type
  idLength := r.idLength
  id := if r.idLength ≠ 0 then message.drop (r.type + r.typeLength.toNat) else []
  payloadLength := r.payloadLength
  payloadData := message.drop r.payloadData

/-- The parser with its accesses checked is the parser on memory. -/
theorem parse_toRecord {off : Nat} {r : RecordAt} (h : parse message off = .ok r) :
    Nfc.parse .zero (message.drop off) = some (r.status, r.toRecord message) := by
  unfold parse at h
  rw [if_neg (Int.not_lt.mpr (Int.natCast_nonneg off))] at h
  obtain ⟨header, hheader, h⟩ := bind_eq_ok.mp h
  obtain ⟨⟨status, l⟩, hlengths, h⟩ := bind_eq_ok.mp h
  cases h
  have hfirst : (message.drop off)[0]? = some header := orOutside_eq_ok.mp hheader
  have hcheck : recordIdCheck (message.drop off) = some (status, l) := orOutside_eq_ok.mp hlengths
  have htype : off + (l.payloadLengthByte + l.idLengthByte + l.typeLengthByte + 1) =
      (recordOf header off status l).type := by
    unfold recordOf
    dsimp only
    omega
  unfold Nfc.parse RecordAt.toRecord
  rw [hfirst, hcheck]
  simp only [Option.bind_eq_bind, Option.bind_some, List.drop_drop, htype]
  rfl

end Record

section Compare

/-- The memory at `xs` ends before the comparison of `n` bytes with `name` is decided. -/
def CutShort (xs name : List U8) (n : Nat) : Prop := xs <+: name ∧ xs.length < n

theorem cutShort_nil (name : List U8) (n : Nat) : CutShort [] name (n + 1) :=
  ⟨List.nil_prefix, Nat.succ_pos n⟩

theorem cutShort_cons {x y : U8} {xs ys : List U8} {n : Nat} :
    CutShort (x :: xs) (y :: ys) (n + 1) ↔ x = y ∧ CutShort xs ys n := by
  unfold CutShort
  rw [List.cons_prefix_cons, List.length_cons, Nat.succ_lt_succ_iff, and_assoc]

theorem memcmpEq_eq_none (xs ys : List U8) (n : Nat) :
    memcmpEq xs ys n = none ↔ CutShort xs ys n ∨ CutShort ys xs n := by
  induction n generalizing xs ys with
  | zero =>
    unfold memcmpEq CutShort
    simp
  | succ n ih =>
    cases xs with
    | nil =>
      have hnone : memcmpEq [] ys (n + 1) = none := by
        unfold memcmpEq
        rfl
      exact ⟨fun _ => .inl (cutShort_nil ys n), fun _ => hnone⟩
    | cons x xs =>
      cases ys with
      | nil => exact ⟨fun _ => .inr (cutShort_nil (x :: xs) n), fun _ => rfl⟩
      | cons y ys =>
        rw [memcmpEq, cutShort_cons, cutShort_cons]
        by_cases h : x = y
        · subst h
          rw [if_pos rfl, ih]
          simp
        · rw [if_neg h]
          simp [h, Ne.symm h]

theorem strncmpEq_eq_none {name : List U8} (hzero : 0 ∉ name) (xs : List U8) (n : Nat) :
    strncmpEq xs (name ++ [0]) n = none ↔ CutShort xs name n := by
  induction n generalizing xs name with
  | zero =>
    unfold strncmpEq CutShort
    simp
  | succ n ih =>
    cases xs with
    | nil =>
      have hnone : strncmpEq [] (name ++ [0]) (n + 1) = none := by
        unfold strncmpEq
        rfl
      exact ⟨fun _ => cutShort_nil name n, fun _ => hnone⟩
    | cons x xs =>
      cases name with
      | nil =>
        have hlong : ¬CutShort (x :: xs) [] (n + 1) := fun hcut =>
          List.cons_ne_nil x xs (List.prefix_nil.mp hcut.1)
        rw [List.nil_append, strncmpEq]
        by_cases h : x = 0
        · rw [if_neg (not_not_intro h), if_pos h]
          exact ⟨nofun, fun hcut => absurd hcut hlong⟩
        · rw [if_pos h]
          exact ⟨nofun, fun hcut => absurd hcut hlong⟩
      | cons y name =>
        rw [List.cons_append, strncmpEq, cutShort_cons]
        by_cases h : x = y
        · have hx : x ≠ 0 := by
            intro hx
            apply hzero
            rw [← hx, h]
            exact List.mem_cons_self
          rw [if_neg (not_not_intro h), if_neg hx,
            ih (fun hmem => hzero (List.mem_cons_of_mem y hmem))]
          exact ⟨fun hcut => ⟨h, hcut⟩, fun hcut => hcut.2⟩
        · rw [if_pos h]
          simp [h]

end Compare

end OpenwrtMtk.Nfc.Access
