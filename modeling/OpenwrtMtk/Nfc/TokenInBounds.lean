import OpenwrtMtk.Nfc.HandoverInBounds

/-!
# Which tokens are parsed inside their bytes

The records of a token are taken one behind the other. A record that the parser refuses is taken
again and again, and so are those between which the index wraps around.
-/

namespace OpenwrtMtk.Nfc.Access

open Toolkit Relation

set_option autoImplicit false

section Compare

variable {xs name : List U8}

theorem begins_of_strncmpEq (hzero : 0 ∉ name)
    (h : strncmpEq xs (name ++ [0]) name.length = some true) : name <+: xs := by
  induction name generalizing xs with
  | nil => exact List.nil_prefix
  | cons y name ih =>
    cases xs with
    | nil =>
      unfold strncmpEq at h
      cases h
    | cons x xs =>
      rw [List.cons_append, List.length_cons, strncmpEq] at h
      by_cases heq : x = y
      · have hy : x ≠ 0 := by
          intro hx
          apply hzero
          rw [← hx, heq]
          exact List.mem_cons_self
        rw [if_neg (not_not_intro heq), if_neg hy] at h
        rw [heq, List.cons_prefix_cons]
        exact ⟨rfl, ih (fun hmem => hzero (List.mem_cons_of_mem y hmem)) h⟩
      · rw [if_pos heq] at h
        cases h

theorem strncmpEq_of_begins (hzero : 0 ∉ name) (h : name <+: xs) :
    strncmpEq xs (name ++ [0]) name.length = some true := by
  induction name generalizing xs with
  | nil =>
    unfold strncmpEq
    rfl
  | cons y name ih =>
    cases xs with
    | nil => exact absurd (List.prefix_nil.mp h) (List.cons_ne_nil y name)
    | cons x xs =>
      obtain ⟨rfl, hrest⟩ := List.cons_prefix_cons.mp h
      have hy : y ≠ 0 := fun hy => hzero (hy ▸ List.mem_cons_self)
      rw [List.cons_append, List.length_cons, strncmpEq, if_neg (not_not_intro rfl), if_neg hy]
      exact ih (fun hmem => hzero (List.mem_cons_of_mem y hmem)) hrest

theorem zero_notMem_mime (r : RadioType) : 0 ∉ r.mime := by
  cases r <;> decide

end Compare

/-! ### The type of a record -/

section Types

variable {message : List U8} {ndef : RecordAt} {rs : List RadioType} {r : RadioType}

def TypeIs (message : List U8) (ndef : RecordAt) (r : RadioType) : Prop :=
  r.mime <+: message.drop ndef.type ∧ ndef.typeLength.toNat = r.mime.length

theorem typeIs_iff {same : Bool}
    (hcmp : strncmpEq (message.drop ndef.type) (r.mime ++ [0]) ndef.typeLength.toNat = some same) :
    (same = true ∧ ndef.typeLength.toNat = r.mime.length) ↔ TypeIs message ndef r := by
  constructor
  · rintro ⟨hsame, hlength⟩
    rw [hlength, hsame] at hcmp
    exact ⟨begins_of_strncmpEq (zero_notMem_mime r) hcmp, hlength⟩
  · rintro ⟨hbegins, hlength⟩
    rw [hlength, strncmpEq_of_begins (zero_notMem_mime r) hbegins] at hcmp
    cases hcmp
    exact ⟨rfl, hlength⟩

theorem not_cutShort_of_typeIs {r' : RadioType} (h : TypeIs message ndef r) :
    ¬CutShort (message.drop ndef.type) r'.mime ndef.typeLength.toNat := by
  rintro ⟨_, hlt⟩
  have hle := h.1.length_le
  rw [h.2] at hlt
  omega

theorem findToken_cons (rs : List RadioType)
    (hcmp : strncmpEq (message.drop ndef.type) (r.mime ++ [0]) ndef.typeLength.toNat ≠ none) :
    findToken message ndef (r :: rs) = some (some r) ∧ TypeIs message ndef r ∧
        ndef.payloadLength ≠ 0 ∨
      findToken message ndef (r :: rs) = findToken message ndef rs ∧
        (TypeIs message ndef r → ndef.payloadLength = 0) := by
  obtain ⟨same, hsame⟩ := Option.ne_none_iff_exists'.mp hcmp
  have hiff := typeIs_iff hsame
  rw [findToken, hsame]
  by_cases h : same = true ∧ ndef.typeLength.toNat = r.mime.length ∧ ndef.payloadLength ≠ 0
  · exact .inl ⟨if_pos h, hiff.mp ⟨h.1, h.2.1⟩, h.2.2⟩
  · right
    refine ⟨if_neg h, fun htype => ?_⟩
    by_contra hpayload
    obtain ⟨hsame, hlength⟩ := hiff.mpr htype
    exact h ⟨hsame, hlength, hpayload⟩

theorem findToken_eq_none : findToken message ndef rs = none ↔
    ∃ r ∈ rs, CutShort (message.drop ndef.type) r.mime ndef.typeLength.toNat := by
  induction rs with
  | nil =>
    constructor
    · intro h
      cases h
    · rintro ⟨r, hr, _⟩
      cases hr
  | cons r rs ih =>
    by_cases hcmp : strncmpEq (message.drop ndef.type) (r.mime ++ [0]) ndef.typeLength.toNat = none
    · have hcut := (strncmpEq_eq_none (zero_notMem_mime r) _ _).mp hcmp
      rw [findToken, hcmp]
      exact ⟨fun _ => ⟨r, List.mem_cons_self, hcut⟩, fun _ => rfl⟩
    · have hfirst : ¬CutShort (message.drop ndef.type) r.mime ndef.typeLength.toNat :=
        fun hcut => hcmp ((strncmpEq_eq_none (zero_notMem_mime r) _ _).mpr hcut)
      rcases findToken_cons rs hcmp with ⟨hhit, htype, _⟩ | ⟨hnext, _⟩
      · rw [hhit]
        constructor
        · intro h
          cases h
        · rintro ⟨r', _, hcut⟩
          exact absurd hcut (not_cutShort_of_typeIs htype)
      · rw [hnext, ih]
        constructor
        · rintro ⟨r', hr', hcut⟩
          exact ⟨r', List.mem_cons_of_mem r hr', hcut⟩
        · rintro ⟨r', hr', hcut⟩
          rcases List.mem_cons.mp hr' with rfl | hr'
          · exact absurd hcut hfirst
          · exact ⟨r', hr', hcut⟩

theorem findToken_ne_none : findToken message ndef radios ≠ none ↔
    ∀ r : RadioType, ¬CutShort (message.drop ndef.type) r.mime ndef.typeLength.toNat := by
  rw [ne_eq, findToken_eq_none]
  constructor
  · intro h r hcut
    exact h ⟨r, mem_radios r, hcut⟩
  · rintro h ⟨r, _, hcut⟩
    exact h r hcut

theorem findToken_hit (h : findToken message ndef rs = some (some r)) :
    TypeIs message ndef r ∧ ndef.payloadLength ≠ 0 := by
  induction rs with
  | nil => cases h
  | cons r' rs ih =>
    by_cases hcmp : strncmpEq (message.drop ndef.type) (r'.mime ++ [0])
        ndef.typeLength.toNat = none
    · rw [findToken, hcmp] at h
      cases h
    · rcases findToken_cons rs hcmp with ⟨hhit, hboth⟩ | ⟨hnext, _⟩
      · rw [hhit] at h
        cases h
        exact hboth
      · rw [hnext] at h
        exact ih h

theorem findToken_miss (h : findToken message ndef rs = some none) :
    ∀ r ∈ rs, TypeIs message ndef r → ndef.payloadLength = 0 := by
  induction rs with
  | nil => exact fun r hr => absurd hr List.not_mem_nil
  | cons r' rs ih =>
    by_cases hcmp : strncmpEq (message.drop ndef.type) (r'.mime ++ [0])
        ndef.typeLength.toNat = none
    · rw [findToken, hcmp] at h
      cases h
    · rcases findToken_cons rs hcmp with ⟨hhit, _⟩ | ⟨hnext, hfirst⟩
      · rw [hhit] at h
        cases h
      · rw [hnext] at h
        intro r hr
        rcases List.mem_cons.mp hr with rfl | hr
        · exact hfirst
        · exact ih h r hr

theorem findToken_wifiWps (htype : TypeIs message ndef .wifiWps)
    (h : findToken message ndef radios = some (some r)) : r = .wifiWps := by
  have hpayload := (findToken_hit h).2
  have hcmp : strncmpEq (message.drop ndef.type) (RadioType.wifiWps.mime ++ [0])
      ndef.typeLength.toNat ≠ none := fun hnone =>
    not_cutShort_of_typeIs htype ((strncmpEq_eq_none (zero_notMem_mime .wifiWps) _ _).mp hnone)
  rcases findToken_cons [.bt, .wifiDirect, .wifiFc] hcmp with ⟨hhit, _⟩ | ⟨_, hempty⟩
  · have heq : some (some r) = some (some RadioType.wifiWps) := h.symm.trans hhit
    cases heq
    rfl
  · exact absurd (hempty htype) hpayload

end Types

/-! ### Records -/

section Records

variable {message : List U8} {ndef : RecordAt} {r : RadioType}

def tokenData (message : List U8) (ndef : RecordAt) : List U8 :=
  overwrite (List.replicate payloadLength 0) 0
    (slice message ndef.payloadData ndef.payloadLength.toNat)

def CopyFits (message : List U8) (off n : Nat) : Prop := n ≠ 0 → Within message off n

def Letter (message : List U8) (ndef : RecordAt) : Prop :=
  ndef.tnf = tnfNfcWellKnown ∧ ndef.typeLength = 1 ∧
    (message.getD ndef.type 0 = 0x54 ∨ message.getD ndef.type 0 = 0x55)

structure CommonFits (message : List U8) (ndef : RecordAt) : Prop where
  letter : ndef.tnf = tnfNfcWellKnown → ndef.type < message.length
  type : ¬Letter message ndef → CopyFits message ndef.type ndef.typeLength.toNat
  payload : ¬Letter message ndef → CopyFits message ndef.payloadData ndef.payloadLength.toNat

structure RecordFits (message : List U8) (ndef : RecordAt) : Prop where
  named : ∀ r : RadioType, ¬CutShort (message.drop ndef.type) r.mime ndef.typeLength.toNat
  radio : ∀ r, TypeIs message ndef r → ndef.payloadLength ≠ 0 →
    Within message ndef.payloadData ndef.payloadLength.toNat ∧
      ndef.payloadLength.toNat ≤ payloadLength
  attributes : TypeIs message ndef .wifiWps → ndef.payloadLength ≠ 0 →
    AttributesFit (tokenData message ndef) (ndef.payloadLength.setWidth 16)
  common : (∀ r, TypeIs message ndef r → ndef.payloadLength = 0) → CommonFits message ndef

theorem radioRecord_ends : Ends (radioRecord message ndef r) ↔
    Within message ndef.payloadData ndef.payloadLength.toNat ∧
      ndef.payloadLength.toNat ≤ payloadLength ∧
      (r = .wifiWps → AttributesFit (tokenData message ndef) (ndef.payloadLength.setWidth 16)) := by
  have hcode : r.code = RadioType.wifiWps.code ↔ r = .wifiWps := by
    cases r <;> decide
  unfold radioRecord Within
  rw [ends_load]
  refine and_congr_right fun hin => ?_
  have hlength : (slice message ndef.payloadData ndef.payloadLength.toNat).length =
      ndef.payloadLength.toNat := length_slice hin
  by_cases hfits : ndef.payloadLength.toNat ≤ payloadLength
  · have hstore : Toolkit.store (List.replicate payloadLength 0) 0
        (slice message ndef.payloadData ndef.payloadLength.toNat) = .ok (tokenData message ndef) := by
      apply store_ok
      rw [List.length_replicate, hlength]
      omega
    rw [bind_ok hstore]
    refine (ends_bind_of_ends fun dataType => ends_ok _).trans ?_
    rw [radioPayloadParse_ends, hcode]
    exact ⟨fun h => ⟨hfits, h⟩, fun h => h.2⟩
  · have hstore : Toolkit.store (List.replicate payloadLength 0) 0
        (slice message ndef.payloadData ndef.payloadLength.toNat) = .error .outside := by
      unfold Toolkit.store storeIn
      rw [if_neg]
      rw [List.length_replicate, hlength]
      omega
    rw [hstore]
    exact ⟨fun h => absurd h Ends.error, fun h => absurd h.1 hfits⟩

theorem copyAt_ends {off n : Nat} : Ends (copyAt message off n) ↔ CopyFits message off n := by
  unfold copyAt CopyFits
  by_cases h : n = 0
  · rw [if_pos h]
    exact ⟨fun _ hne => absurd h hne, fun _ => ends_ok _⟩
  · rw [if_neg h]
    constructor
    · rintro ⟨bytes, hload⟩ _
      exact (loadIn_eq_ok.mp hload).1.2
    · intro hfits
      exact ⟨_, load_ok (hfits h)⟩

def letterAt (message : List U8) (ndef : RecordAt) : Option U8 :=
  if ndef.tnf = tnfNfcWellKnown ∧ ndef.typeLength = 1 then some (message.getD ndef.type 0) else none

theorem letter_iff : Letter message ndef ↔
    letterAt message ndef = some 0x54 ∨ letterAt message ndef = some 0x55 := by
  unfold Letter letterAt
  by_cases h : ndef.tnf = tnfNfcWellKnown ∧ ndef.typeLength = 1
  · rw [if_pos h, Option.some_inj, Option.some_inj]
    exact ⟨fun hletter => hletter.2.2, fun hletter => ⟨h.1, h.2, hletter⟩⟩
  · rw [if_neg h]
    constructor
    · rintro ⟨htnf, hlength, _⟩
      exact absurd ⟨htnf, hlength⟩ h
    · rintro (h | h)
      · cases h
      · cases h

theorem letterOf_ok (h : ndef.tnf = tnfNfcWellKnown → ndef.type < message.length) :
    letterOf message ndef = .ok (letterAt message ndef) := by
  unfold letterOf letterAt
  by_cases htnf : ndef.tnf = tnfNfcWellKnown
  · rw [if_pos htnf, bind_ok (loadByte_ok (h htnf))]
    by_cases hlength : ndef.typeLength = 1
    · rw [if_pos hlength, if_pos ⟨htnf, hlength⟩]
    · rw [if_neg hlength, if_neg fun hboth => hlength hboth.2]
  · rw [if_neg htnf, if_neg fun hboth => htnf hboth.1]

theorem type_of_letterOf (h : Ends (letterOf message ndef)) :
    ndef.tnf = tnfNfcWellKnown → ndef.type < message.length := by
  intro htnf
  unfold letterOf at h
  rw [if_pos htnf] at h
  exact (ends_loadByte.mp h).1

theorem commonRecord_ends : Ends (commonRecord message ndef) ↔ CommonFits message ndef := by
  have hcopies : Ends (do
      let type ← copyAt message ndef.type ndef.typeLength.toNat
      let payload ← copyAt message ndef.payloadData ndef.payloadLength.toNat
      (.ok ⟨ndef.tnf, ndef.typeLength.setWidth 16,
        ndef.payloadLength.setWidth 16 + ndef.typeLength.setWidth 16, type ++ payload⟩ :
          Checked Event)) ↔
      CopyFits message ndef.type ndef.typeLength.toNat ∧
        CopyFits message ndef.payloadData ndef.payloadLength.toNat := by
    rw [← copyAt_ends, ← copyAt_ends, ends_bind]
    constructor
    · rintro ⟨type, htype, hrest⟩
      obtain ⟨payload, hpayload, _⟩ := ends_bind.mp hrest
      exact ⟨⟨type, htype⟩, payload, hpayload⟩
    · rintro ⟨⟨type, htype⟩, payload, hpayload⟩
      exact ⟨type, htype, ends_bind.mpr ⟨payload, hpayload, ends_ok _⟩⟩
  unfold commonRecord
  constructor
  · intro h
    obtain ⟨letter, hletter, hrest⟩ := ends_bind.mp h
    have htype := type_of_letterOf ⟨letter, hletter⟩
    rw [letterOf_ok htype] at hletter
    cases hletter
    have hboth : ¬Letter message ndef → CopyFits message ndef.type ndef.typeLength.toNat ∧
        CopyFits message ndef.payloadData ndef.payloadLength.toNat := by
      intro hnot
      rw [letter_iff, not_or] at hnot
      dsimp only at hrest
      rw [if_neg hnot.1, if_neg hnot.2] at hrest
      exact hcopies.mp hrest
    exact ⟨htype, fun hnot => (hboth hnot).1, fun hnot => (hboth hnot).2⟩
  · intro h
    rw [bind_ok (letterOf_ok h.letter)]
    dsimp only
    by_cases htext : letterAt message ndef = some 0x54
    · rw [if_pos htext]
      exact ends_ok _
    · rw [if_neg htext]
      by_cases huri : letterAt message ndef = some 0x55
      · rw [if_pos huri]
        exact ends_ok _
      · rw [if_neg huri]
        have hnot : ¬Letter message ndef := by
          rw [letter_iff, not_or]
          exact ⟨htext, huri⟩
        exact hcopies.mpr ⟨h.type hnot, h.payload hnot⟩

theorem tokenRecord_ends : Ends (tokenRecord message ndef) ↔ RecordFits message ndef := by
  unfold tokenRecord
  rw [ends_orOutside]
  constructor
  · rintro ⟨found, hfound, hrest⟩
    have hnamed := findToken_ne_none.mp (by rw [hfound]; nofun)
    cases found with
    | none =>
      have hmiss := findToken_miss hfound
      have hnot : ∀ r, TypeIs message ndef r → ndef.payloadLength = 0 :=
        fun r => hmiss r (mem_radios r)
      exact ⟨hnamed, fun r htype hpayload => absurd (hnot r htype) hpayload,
        fun htype hpayload => absurd (hnot _ htype) hpayload,
        fun _ => commonRecord_ends.mp hrest⟩
    | some r =>
      obtain ⟨htype, hpayload⟩ := findToken_hit hfound
      obtain ⟨hin, hroom, hattributes⟩ := radioRecord_ends.mp hrest
      exact ⟨hnamed, fun _ _ _ => ⟨hin, hroom⟩,
        fun hwps _ => hattributes (findToken_wifiWps hwps hfound),
        fun hempty => absurd (hempty r htype) hpayload⟩
  · intro h
    obtain ⟨found, hfound⟩ := Option.ne_none_iff_exists'.mp (findToken_ne_none.mpr h.named)
    refine ⟨found, hfound, ?_⟩
    cases found with
    | none =>
      exact commonRecord_ends.mpr (h.common fun r => findToken_miss hfound r (mem_radios r))
    | some r =>
      obtain ⟨htype, hpayload⟩ := findToken_hit hfound
      obtain ⟨hin, hroom⟩ := h.radio r htype hpayload
      refine radioRecord_ends.mpr ⟨hin, hroom, ?_⟩
      rintro rfl
      exact h.attributes htype hpayload

/-! ### The walk -/

variable {i j : Nat}

/-- Where the parser goes from the record at `i`. -/
def nextToken (message : List U8) (i : Nat) : Nat :=
  if (recordAt message i).status = 0 then nextData i (recordAt message i) else i

def TurnFits (message : List U8) (i : Nat) : Prop :=
  i < message.length → HeaderFits message i ∧
    ((recordAt message i).status = 0 → RecordFits message (recordAt message i))

def TurnLeads (message : List U8) (i j : Nat) : Prop :=
  i < message.length ∧ j = nextToken message i

def TokenFits (message : List U8) : Prop := Passes (TurnFits message) (TurnLeads message) 0

theorem tokenTurn_ends : Ends (tokenTurn message i) ↔ TurnFits message i := by
  unfold tokenTurn TurnFits
  by_cases h : i < message.length
  · rw [if_pos h, ends_parse]
    change HeaderFits message i ∧ Ends (if (recordAt message i).status = 0 then _ else _) ↔ _
    by_cases hstatus : (recordAt message i).status = 0
    · rw [if_pos hstatus]
      have hrecord : Ends (tokenRecord message (recordAt message i) >>= fun event =>
          (.ok (.next (nextData i (recordAt message i)) [event]) :
            Checked (Turn (List Event) Int))) ↔ RecordFits message (recordAt message i) :=
        (ends_bind_of_ends fun event => ends_ok _).trans tokenRecord_ends
      constructor
      · rintro ⟨hheader, hrest⟩ _
        exact ⟨hheader, fun _ => hrecord.mp hrest⟩
      · intro hfits
        exact ⟨(hfits h).1, hrecord.mpr ((hfits h).2 hstatus)⟩
    · rw [if_neg hstatus]
      constructor
      · rintro ⟨hheader, _⟩ _
        exact ⟨hheader, fun hzero => absurd hzero hstatus⟩
      · intro hfits
        exact ⟨(hfits h).1, ends_ok _⟩
  · rw [if_neg h]
    exact ⟨fun _ hin => absurd hin h, fun _ => ends_ok _⟩

theorem turnLeads_of_next {events : List Event}
    (h : tokenTurn message i = .ok (.next j events)) : TurnLeads message i j := by
  have hfits := tokenTurn_ends.mp ⟨_, h⟩
  unfold tokenTurn at h
  by_cases hin : i < message.length
  · rw [if_pos hin, parse_ok (hfits hin).1] at h
    obtain ⟨_, hrecord, h⟩ := bind_eq_ok.mp h
    cases hrecord
    change (if (recordAt message i).status = 0 then _ else _) = _ at h
    by_cases hstatus : (recordAt message i).status = 0
    · rw [if_pos hstatus] at h
      obtain ⟨event, _, h⟩ := bind_eq_ok.mp h
      cases h
      exact ⟨hin, (if_pos hstatus).symm⟩
    · rw [if_neg hstatus] at h
      cases h
      exact ⟨hin, (if_neg hstatus).symm⟩
  · rw [if_neg hin] at h
    cases h

theorem length_le_of_stop {ret : Int} (h : tokenTurn message i = .ok (.stop ret)) :
    message.length ≤ i := by
  by_contra hin
  unfold tokenTurn at h
  rw [if_pos (Nat.lt_of_not_le hin)] at h
  obtain ⟨ndef, _, h⟩ := bind_eq_ok.mp h
  by_cases hstatus : ndef.status = 0
  · rw [if_pos hstatus] at h
    obtain ⟨event, _, h⟩ := bind_eq_ok.mp h
    cases h
  · rw [if_neg hstatus] at h
    cases h

theorem tokenTurn_leads : Leads (tokenTurn message) i j ↔
    TurnFits message i ∧ TurnLeads message i j := by
  constructor
  · rintro ⟨events, h⟩
    exact ⟨tokenTurn_ends.mp ⟨_, h⟩, turnLeads_of_next h⟩
  · rintro ⟨hfits, hin, rfl⟩
    obtain ⟨turn, hturn⟩ := tokenTurn_ends.mpr hfits
    cases turn with
    | stop ret => exact absurd hin (Nat.not_lt.mpr (length_le_of_stop hturn))
    | next k events =>
      have hk := (turnLeads_of_next hturn).2
      rw [hk] at hturn
      exact ⟨events, hturn⟩

theorem tokenParse_ends (hlength : 0 < message.length) :
    Ends (tokenParse message) ↔ TokenFits message := by
  unfold tokenParse
  rw [if_neg (by omega)]
  refine (ends_bind_of_ends fun r => ends_ok _).trans ?_
  exact ends_walk (fun _ => tokenTurn_ends) (fun _ _ => tokenTurn_leads) (fun i j h => h.1)
    (Nat.lt_succ_self _)

end Records

/-! ### All three parsers -/

/-- The parsers end without leaving the message, the token buffer or a copied payload, and no more is
copied for a carrier than the message has behind the header of its record. -/
structure ParsedInBounds (message : List U8) : Prop where
  token : Ends (tokenParse message)
  select : ∃ r, selectParse message = .ok r ∧ CopiesFit message (carriersAt message) r.2
  request : ∃ r, requestParse message = .ok r ∧ CopiesFit message (carriersAt message) r.2

theorem handover_messages_parsed_in_bounds {message : List U8}
    (hlength : 1 ≤ message.length ∧ message.length ≤ 65535) :
    ParsedInBounds message ↔ TokenFits message ∧ SelectFits message ∧ RequestFits message := by
  rw [← tokenParse_ends hlength.1, ← selectParse_ends hlength.1, ← requestParse_ends hlength.1]
  constructor
  · intro h
    obtain ⟨select, hselect, _⟩ := h.select
    obtain ⟨request, hrequest, _⟩ := h.request
    exact ⟨h.token, ⟨select, hselect⟩, request, hrequest⟩
  · rintro ⟨htoken, ⟨select, hselect⟩, request, hrequest⟩
    exact ⟨htoken, ⟨select, hselect, selectParse_copies hselect⟩,
      request, hrequest, requestParse_copies hrequest⟩

def selectMessage : List U8 :=
  [0x91, 2, 10, 0x48, 0x73, 0x12, 0xd1, 2, 4, 0x61, 0x63, 1, 1, 0x30, 0] ++
    ([0x5a, 23, 6, 1] ++ mimeWsc ++ [0x30, 0x10, 0x2c, 0, 2, 0xaa, 0xbb])

theorem ends_of_isOk {α : Type} {x : Checked α} (h : x.isOk = true) : Ends x := by
  cases x with
  | error e => cases h
  | ok a => exact ends_ok a

set_option maxRecDepth 10000 in
theorem handover_messages_parsed_in_bounds_select :
    1 ≤ selectMessage.length ∧ selectMessage.length ≤ 65535 ∧ TokenFits selectMessage ∧
      SelectFits selectMessage ∧ RequestFits selectMessage := by
  have hlength : 1 ≤ selectMessage.length ∧ selectMessage.length ≤ 65535 := by decide
  have htoken : (tokenParse selectMessage).isOk = true := by decide
  have hselect : (selectParse selectMessage).isOk = true := by decide
  have hrequest : (requestParse selectMessage).isOk = true := by decide
  obtain ⟨select, hselect⟩ := ends_of_isOk hselect
  obtain ⟨request, hrequest⟩ := ends_of_isOk hrequest
  have hparsed : ParsedInBounds selectMessage := ⟨ends_of_isOk htoken,
    ⟨select, hselect, selectParse_copies hselect⟩, request, hrequest, requestParse_copies hrequest⟩
  exact ⟨hlength.1, hlength.2, (handover_messages_parsed_in_bounds hlength).mp hparsed⟩

/-- A record of a reserved type name format is taken again and again, and a record without its
lengths is read behind its end. -/
theorem handover_messages_may_not_be_parsed :
    tokenParse [0x07] = .error .endless ∧ ¬ParsedInBounds [0x07] ∧
      tokenParse [0xd1] = .error .outside ∧ selectParse [0xd1] = .error .outside ∧
      requestParse [0xd1] = .error .outside := by
  have hendless : tokenParse [0x07] = .error .endless := rfl
  refine ⟨hendless, ?_, rfl, rfl, rfl⟩
  intro h
  obtain ⟨r, hr⟩ := h.token
  rw [hendless] at hr
  cases hr

end OpenwrtMtk.Nfc.Access
