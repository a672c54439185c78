import OpenwrtMtk.Nfc.NdefRoundTrip
import OpenwrtMtk.Nfc.Snep

/-!
# Messages and answers in parts

A message in one part is handed on. One in several parts is not: a later part is compared with a
length of zero. An answer that does not fit is continued behind its end.
-/

namespace OpenwrtMtk.Nfc

open Toolkit

set_option autoImplicit false

def negotiated (effects : List SnepEffect) : List (List U8) :=
  effects.filterMap fun
    | .nego data => some data
    | .send _ => none

abbrev SnepEvent := (List U8 → Negotiated) × List U8

def snepRun (role : ServiceRole) : Snep → List SnepEvent → Option (Snep × List (List SnepEffect))
  | s, [] => some (s, [])
  | s, (nego, u1Data) :: events => do
    let r ← snepParse nego role 1 s u1Data
    let (s, effects) ← snepRun role r.snep events
    some (s, r.effects :: effects)

section Step

variable {nego : List U8 → Negotiated} {role : ServiceRole} {s s' : Snep} {u1Data payload : List U8}
  {r : SnepResult}

theorem beginRead_eq (h : s.beginRead u1Data = some s') :
    s'.readLength = BitVec.ofNat 32 (u1Data.drop snepHeaderLength).length ∧
      s'.readLength.toNat ≤ snepDataSize ∧ s'.received = u1Data.drop snepHeaderLength ∧
      s'.readStatus = s.readStatus := by
  unfold Snep.beginRead at h
  simp only at h
  split at h
  · cases h
  · rename_i hfits
    cases h
    have hsize : snepDataSize = 1024 := rfl
    have htoNat : (BitVec.ofNat 32 (u1Data.drop snepHeaderLength).length).toNat =
        (u1Data.drop snepHeaderLength).length := by
      rw [BitVec.toNat_ofNat, Nat.mod_eq_of_lt (by omega)]
    refine ⟨rfl, ?_, ?_, rfl⟩
    · rw [htoNat]
      omega
    · rw [Snep.received, htoNat, overwrite, List.take_zero, List.nil_append, List.take_left]

theorem continueRead_eq (h : s.continueRead u1Data = some s') (hnonempty : u1Data.length ≠ 0) :
    s'.readLength ≠ 0 ∧ s'.readLength.toNat ≤ snepDataSize := by
  unfold Snep.continueRead at h
  split at h
  · cases h
  · rename_i hfits
    cases h
    have hsize : snepDataSize = 1024 := rfl
    have htoNat : (s.readLength + BitVec.ofNat 32 u1Data.length).toNat =
        s.readLength.toNat + u1Data.length := by
      rw [BitVec.toNat_add, BitVec.toNat_ofNat]
      omega
    constructor
    · intro hzero
      have hnat := congrArg BitVec.toNat hzero
      rw [htoNat] at hnat
      exact hnonempty (Nat.eq_zero_of_add_eq_zero_left hnat)
    · rw [htoNat]
      omega

def Shortens (u1Data : List U8) (r : SnepResult) : Prop :=
  (∀ data ∈ negotiated r.effects, data.length < u1Data.length) ∧
    r.snep.readLength.toNat ≤ snepDataSize

theorem shortens_silent (hsilent : negotiated r.effects = [])
    (hsmall : r.snep.readLength.toNat ≤ snepDataSize) : Shortens u1Data r := by
  refine ⟨?_, hsmall⟩
  intro data hdata
  rw [hsilent] at hdata
  cases hdata

theorem shortens_of_eq {data : List U8} (heq : negotiated r.effects = [data])
    (hshort : data.length < u1Data.length)
    (hsmall : r.snep.readLength.toNat ≤ snepDataSize) : Shortens u1Data r := by
  refine ⟨?_, hsmall⟩
  intro data' hdata'
  rw [heq, List.mem_singleton] at hdata'
  rw [hdata']
  exact hshort

theorem serverContinue_shortens (h : serverContinue nego s u1Data = some r)
    (hnonempty : u1Data.length ≠ 0) : Shortens u1Data r := by
  obtain ⟨s', hread, hrest⟩ := Option.bind_eq_some_iff.mp h
  obtain ⟨hnonzero, hsmall⟩ := continueRead_eq hread hnonempty
  simp only [if_neg hnonzero] at hrest
  split at hrest
  · cases hrest
    exact shortens_silent rfl hsmall
  · cases hrest
    exact shortens_silent rfl hsmall

theorem clientContinue_shortens (h : clientContinue nego s u1Data = some r)
    (hnonempty : u1Data.length ≠ 0) : Shortens u1Data r := by
  obtain ⟨s', hread, hrest⟩ := Option.bind_eq_some_iff.mp h
  obtain ⟨hnonzero, hsmall⟩ := continueRead_eq hread hnonempty
  simp only [if_neg hnonzero] at hrest
  split at hrest
  · cases hrest
    exact shortens_silent rfl hsmall
  · cases hrest
    exact shortens_silent rfl hsmall

theorem length_drop_lt {n : Nat} (hpos : 0 < n) (hnonempty : u1Data.length ≠ 0) :
    (u1Data.drop n).length < u1Data.length := by
  rw [List.length_drop]
  omega

theorem serverPut_shortens (h : serverPut nego s u1Data = some r)
    (hnonempty : u1Data.length ≠ 0) : Shortens u1Data r := by
  obtain ⟨s', hread, hrest⟩ := Option.bind_eq_some_iff.mp h
  obtain ⟨-, hsmall, hreceived, -⟩ := beginRead_eq hread
  split at hrest
  · cases hrest
    exact shortens_silent rfl hsmall
  · cases hrest
    refine shortens_of_eq rfl ?_ hsmall
    rw [hreceived]
    exact length_drop_lt (by decide) hnonempty

theorem clientSuccess_shortens (h : clientSuccess nego s u1Data = some r)
    (hsmall : s.readLength.toNat ≤ snepDataSize) (hnonempty : u1Data.length ≠ 0) :
    Shortens u1Data r := by
  unfold clientSuccess at h
  split at h
  · cases h
    exact shortens_silent rfl hsmall
  · obtain ⟨s', hread, hrest⟩ := Option.bind_eq_some_iff.mp h
    obtain ⟨-, hsmall', hreceived, -⟩ := beginRead_eq hread
    split at hrest
    · cases hrest
      exact shortens_silent rfl hsmall'
    · cases hrest
      refine shortens_of_eq rfl ?_ hsmall'
      rw [hreceived]
      exact length_drop_lt (by decide) hnonempty

theorem serverGet_shortens (h : serverGet nego s u1Data = some r)
    (hsmall : s.readLength.toNat ≤ snepDataSize) (hnonempty : u1Data.length ≠ 0) :
    Shortens u1Data r := by
  have hshort : (u1Data.drop 10).length < u1Data.length := length_drop_lt (by decide) hnonempty
  unfold serverGet at h
  simp only at h
  split at h
  · split at h
    · split at h
      · obtain ⟨bytes, -, hrest⟩ := Option.bind_eq_some_iff.mp h
        cases hrest
        exact shortens_of_eq rfl hshort hsmall
      · split at h
        · obtain ⟨bytes, -, hrest⟩ := Option.bind_eq_some_iff.mp h
          cases hrest
          exact shortens_of_eq rfl hshort hsmall
        · cases h
          exact shortens_of_eq rfl hshort hsmall
    · cases h
      exact shortens_of_eq rfl hshort hsmall
  · cases h
    exact shortens_silent rfl hsmall

theorem snepParse_shortens (h : snepParse nego role 1 s u1Data = some r)
    (hsmall : s.readLength.toNat ≤ snepDataSize) (hnonempty : u1Data.length ≠ 0) :
    Shortens u1Data r := by
  unfold snepParse at h
  rw [if_pos rfl, if_neg hnonempty] at h
  cases role with
  | default =>
    cases h
    exact shortens_silent rfl hsmall
  | server =>
    simp only at h
    split at h
    · exact serverContinue_shortens h hnonempty
    · unfold serverRequest at h
      split at h
      · cases h
        exact shortens_silent rfl hsmall
      · split at h
        · cases h
          exact shortens_silent rfl hsmall
        · simp only at h
          split at h
          · exact serverGet_shortens h hsmall hnonempty
          · split at h
            · exact serverPut_shortens h hnonempty
            · split at h
              · obtain ⟨bytes, -, hrest⟩ := Option.bind_eq_some_iff.mp h
                cases hrest
                exact shortens_silent rfl hsmall
              · cases h
                exact shortens_silent rfl hsmall
  | client =>
    simp only at h
    split at h
    · exact clientContinue_shortens h hnonempty
    · unfold clientResponse at h
      split at h
      · cases h
        exact shortens_silent rfl hsmall
      · split at h
        · cases h
          exact shortens_silent rfl hsmall
        · simp only at h
          split at h
          · exact clientSuccess_shortens h hsmall hnonempty
          · split at h
            · cases h
              exact shortens_silent rfl hsmall
            · cases h
              exact shortens_silent rfl hsmall

/-- A run: what is handed on is shorter than the longest PDU. -/
theorem snepRun_shortens {events : List SnepEvent} {effects : List (List SnepEffect)} {n : Nat}
    (h : snepRun role s events = some (s', effects))
    (hsmall : s.readLength.toNat ≤ snepDataSize)
    (hevents : ∀ e ∈ events, e.2.length ≠ 0 ∧ e.2.length < n) :
    ∀ data ∈ negotiated effects.flatten, data.length < n := by
  induction events generalizing s effects with
  | nil =>
    cases h
    intro data hdata
    cases hdata
  | cons e events ih =>
    obtain ⟨nego, u1Data⟩ := e
    obtain ⟨hnonempty, hlt⟩ := hevents _ List.mem_cons_self
    obtain ⟨r, hr, hrest⟩ := Option.bind_eq_some_iff.mp h
    obtain ⟨⟨last, later⟩, hlater, hboth⟩ := Option.bind_eq_some_iff.mp hrest
    cases hboth
    obtain ⟨hshort, hsmall'⟩ := snepParse_shortens hr hsmall hnonempty
    intro data hdata
    rw [List.flatten_cons, negotiated, List.filterMap_append] at hdata
    rcases List.mem_append.mp hdata with hdata | hdata
    · exact Nat.lt_trans (hshort data hdata) hlt
    · exact ih hlater hsmall' (fun e he => hevents e (List.mem_cons_of_mem _ he)) data hdata

end Step

section Message

variable {nego : List U8 → Negotiated} {role : ServiceRole} {s : Snep} {part msg : List U8}
  {conts : List SnepEvent}

def messageCmd : ServiceRole → U8
  | .client => snepResponseSuccess
  | _ => snepRequestPut

/-- The first PDU of a message of `total` bytes. -/
def firstPdu (role : ServiceRole) (total : Nat) (part : List U8) : List U8 :=
  [snepVersion, messageCmd role] ++ longBytes (BitVec.ofNat 32 total) ++ part

theorem firstPdu_parse (hrole : role ≠ .default) (hstatus : s.readStatus = 1)
    (hpart : part ≠ []) (hfits : part.length ≤ snepDataSize) {total : Nat}
    (htotal : part.length ≤ total) (hsmall : total < 2 ^ 32) :
    ∃ r, snepParse nego role 1 s (firstPdu role total part) = some r ∧
      r.snep.readLength.toNat ≤ snepDataSize ∧
      (part.length = total → r.snep.readStatus = 1 ∧ negotiated r.effects = [part]) ∧
      (part.length < total → negotiated r.effects = []) := by
  have hpos : part.length ≠ 0 := fun hzero => hpart (List.eq_nil_of_length_eq_zero hzero)
  have hpayload : (firstPdu role total part).drop snepHeaderLength = part := rfl
  have hlength : (firstPdu role total part).length = snepHeaderLength + part.length := by
    simp only [firstPdu, List.length_append]
    rfl
  have hnonempty : (firstPdu role total part).length ≠ 0 := by omega
  have hlong : ¬(firstPdu role total part).length < snepHeaderLength := by omega
  have hversion : ¬¬versionSupported (firstPdu role total part) := by
    rw [not_not]
    exact (by decide : (snepVersion &&& 0xf0) >>> 4 = snepVersionMajor)
  have hreq : reqLengthOf (firstPdu role total part) = BitVec.ofNat 32 total :=
    longOf_longBytes _
  have hbegin : ∃ s', s.beginRead (firstPdu role total part) = some s' := by
    unfold Snep.beginRead
    simp only [hpayload]
    rw [if_neg (by omega)]
    exact ⟨_, rfl⟩
  obtain ⟨s', hs'⟩ := hbegin
  obtain ⟨hreadLength, hbound, hreceived, -⟩ := beginRead_eq hs'
  rw [hpayload] at hreadLength hreceived
  have hmore : reqLengthOf (firstPdu role total part) > s'.readLength ↔ part.length < total := by
    rw [hreq, hreadLength, gt_iff_lt, BitVec.lt_def, BitVec.toNat_ofNat, BitVec.toNat_ofNat,
      Nat.mod_eq_of_lt (by omega), Nat.mod_eq_of_lt hsmall]
  have hidle : s.readStatus ≠ 0 := by
    rw [hstatus]
    decide
  unfold snepParse
  rw [if_pos rfl, if_neg hnonempty]
  cases role with
  | default => exact absurd rfl hrole
  | server =>
    have hget : ¬byteAt (firstPdu .server total part) 1 = snepRequestGet :=
      (by decide : ¬snepRequestPut = snepRequestGet)
    have hput : byteAt (firstPdu .server total part) 1 = snepRequestPut := rfl
    simp only
    rw [if_neg hidle, serverRequest, if_neg hlong, if_neg hversion]
    simp only
    rw [if_neg hget, if_pos hput, serverPut, hs']
    simp only [Option.bind_eq_bind, Option.bind_some, hmore]
    split
    · rename_i hlt
      exact ⟨_, rfl, hbound, fun heq => absurd heq (by omega), fun _ => rfl⟩
    · rename_i hdone
      refine ⟨_, rfl, hbound, fun _ => ⟨rfl, ?_⟩, fun hlt => absurd hlt hdone⟩
      rw [hreceived]
      rfl
  | client =>
    have hsuccess : byteAt (firstPdu .client total part) 1 = snepResponseSuccess := rfl
    simp only
    rw [if_neg hidle, clientResponse, if_neg hlong, if_neg hversion]
    simp only
    rw [if_pos hsuccess, clientSuccess, if_neg (by omega), hs']
    simp only [Option.bind_eq_bind, Option.bind_some, hmore]
    split
    · rename_i hlt
      exact ⟨_, rfl, hbound, fun heq => absurd heq (by omega), fun _ => rfl⟩
    · rename_i hdone
      refine ⟨_, rfl, hbound, fun _ => ⟨rfl, ?_⟩, fun hlt => absurd hlt hdone⟩
      rw [hreceived]
      rfl

def HandsOn (role : ServiceRole) (s : Snep) (events : List SnepEvent) (msg : List U8) : Prop :=
  ∃ s' before last, snepRun role s events = some (s', before ++ [last]) ∧ s'.readStatus = 1 ∧
    negotiated before.flatten = [] ∧ negotiated last = [msg]

/-- A message is handed on if and only if it comes in one PDU. -/
theorem handsOn_iff (hrole : role ≠ .default) (hstatus : s.readStatus = 1) (hpart : part ≠ [])
    (hconts : ∀ e ∈ conts, e.2 ≠ []) (hmsg : part ++ (conts.map Prod.snd).flatten = msg)
    (hfits : msg.length ≤ snepDataSize) :
    HandsOn role s ((nego, firstPdu role msg.length part) :: conts) msg ↔ conts = [] := by
  have hsize : snepDataSize = 1024 := rfl
  have hpos : part.length ≠ 0 := fun hzero => hpart (List.eq_nil_of_length_eq_zero hzero)
  have hsum : part.length + (conts.map Prod.snd).flatten.length = msg.length := by
    rw [← hmsg, List.length_append]
  have hfirst : ∃ r, snepParse nego role 1 s (firstPdu role msg.length part) = some r ∧
      r.snep.readLength.toNat ≤ snepDataSize ∧
      (part.length = msg.length → r.snep.readStatus = 1 ∧ negotiated r.effects = [part]) ∧
      (part.length < msg.length → negotiated r.effects = []) :=
    firstPdu_parse hrole hstatus hpart (by omega) (by omega) (by omega)
  obtain ⟨r, hr, hbound, hwhole, hcut⟩ := hfirst
  constructor
  · rintro ⟨s', before, last, hrun, -, hbefore, hlast⟩
    by_contra hne
    obtain ⟨e, he⟩ := List.exists_mem_of_ne_nil conts hne
    have hpiece : ∀ e ∈ conts, e.2.length ≠ 0 ∧
        e.2.length ≤ (conts.map Prod.snd).flatten.length := by
      intro e he
      refine ⟨fun hzero => hconts e he (List.eq_nil_of_length_eq_zero hzero), ?_⟩
      have hsub := List.sublist_flatten_of_mem (List.mem_map_of_mem (f := Prod.snd) he)
      exact hsub.length_le
    obtain ⟨hnonempty, hle⟩ := hpiece e he
    obtain ⟨r', hr', hrest⟩ := Option.bind_eq_some_iff.mp hrun
    obtain ⟨⟨s'', later⟩, hlater, hboth⟩ := Option.bind_eq_some_iff.mp hrest
    obtain rfl : r = r' := Option.some_inj.mp (hr.symm.trans hr')
    have hall : r.effects :: later = before ++ [last] :=
      congrArg Prod.snd (Option.some_inj.mp hboth)
    have hcalls : negotiated (r.effects ++ later.flatten) = [msg] := by
      rw [← List.flatten_cons, hall, List.flatten_append, negotiated, List.filterMap_append]
      change negotiated before.flatten ++ negotiated [last].flatten = [msg]
      rw [hbefore, List.flatten_singleton, hlast, List.nil_append]
    rw [negotiated, List.filterMap_append] at hcalls
    change negotiated r.effects ++ negotiated later.flatten = [msg] at hcalls
    rw [hcut (by omega), List.nil_append] at hcalls
    have hshort : msg.length < msg.length := snepRun_shortens hlater hbound
      (fun e he => ⟨(hpiece e he).1, by have hple := (hpiece e he).2; omega⟩) msg
      (by rw [hcalls]; exact List.mem_singleton_self msg)
    exact absurd hshort (Nat.lt_irrefl _)
  · rintro rfl
    rw [List.map_nil, List.flatten_nil, List.append_nil] at hmsg
    obtain ⟨hdone, hcall⟩ := hwhole (by rw [hmsg])
    refine ⟨r.snep, [], r.effects, ?_, hdone, rfl, ?_⟩
    · rw [snepRun, hr]
      rfl
    · rw [hcall, hmsg]

end Message

section Answer

variable {nego nego' : List U8 → Negotiated} {s : Snep} {length acceptable : U32}
  {ndef : List U8} {role : ServiceRole} {msg part : List U8} {conts : List SnepEvent}

def getRequest (length acceptable : U32) (ndef : List U8) : List U8 :=
  [snepVersion, snepRequestGet] ++ longBytes length ++ longBytes acceptable ++ ndef

def continueRequest : List U8 := [snepVersion, snepRequestContinue] ++ longBytes 0

def Snep.answering (s : Snep) (answer : List U8) (acceptable : U32) : Snep :=
  { s with
    writeData := overwrite (List.replicate snepDataSize 0) 0 answer
    writeLength := BitVec.ofNat 32 answer.length
    maxLength := acceptable
    readStatus := 3 }

theorem serverRequest_parse {u1Data : List U8} (hidle : s.readStatus ≠ 0)
    (hlength : snepHeaderLength ≤ u1Data.length) :
    snepParse nego .server 1 s u1Data = serverRequest nego s u1Data := by
  have hsix : snepHeaderLength = 6 := rfl
  unfold snepParse
  rw [if_pos rfl, if_neg (by omega)]
  simp only
  rw [if_neg hidle]

theorem getRequest_parse (hidle : s.readStatus ≠ 0) (hndef : ndef ≠ [])
    (hret : (nego ndef).ret = 0) (hlong : acceptable.toNat < (nego ndef).answer.length) :
    snepParse nego .server 1 s (getRequest length acceptable ndef) = some
      ⟨s.answering (nego ndef).answer acceptable,
        [.nego ndef, .send ([snepVersion, snepResponseSuccess] ++ longBytes acceptable ++
          (nego ndef).answer.take acceptable.toNat)], 0⟩ := by
  have hfits := (nego ndef).fits
  have hsize : snepDataSize = 1024 := rfl
  have hpos : ndef.length ≠ 0 := fun hzero => hndef (List.eq_nil_of_length_eq_zero hzero)
  have hlength : (getRequest length acceptable ndef).length = 10 + ndef.length := by
    simp only [getRequest, List.length_append]
    rfl
  have hheader : ¬(getRequest length acceptable ndef).length < snepHeaderLength := by
    have hsix : snepHeaderLength = 6 := rfl
    omega
  have hversion : ¬¬versionSupported (getRequest length acceptable ndef) := by
    rw [not_not]
    exact (by decide : (snepVersion &&& 0xf0) >>> 4 = snepVersionMajor)
  have hcmd : byteAt (getRequest length acceptable ndef) 1 = snepRequestGet := rfl
  have hndefAt : (getRequest length acceptable ndef).drop 10 = ndef := rfl
  have hacceptable : acceptableLengthOf (getRequest length acceptable ndef) = acceptable :=
    longOf_longBytes acceptable
  have hanswer : (BitVec.ofNat 32 (nego ndef).answer.length).toNat =
      (nego ndef).answer.length := by
    rw [BitVec.toNat_ofNat, Nat.mod_eq_of_lt (by omega)]
  have hshort : acceptable < BitVec.ofNat 32 (nego ndef).answer.length := by
    rw [BitVec.lt_def, hanswer]
    exact hlong
  have hnot : ¬(acceptable ≥ BitVec.ofNat 32 (nego ndef).answer.length ∧
      BitVec.ofNat 32 (nego ndef).answer.length > 0) :=
    fun hboth => absurd hshort (BitVec.not_lt.mpr hboth.1)
  have hbuffer : overwrite (List.replicate snepDataSize 0) 0 (nego ndef).answer =
      (nego ndef).answer ++ (List.replicate snepDataSize 0).drop (nego ndef).answer.length := by
    rw [overwrite, List.take_zero, List.nil_append, Nat.zero_add]
  have hbytes : bytesAt (overwrite (List.replicate snepDataSize 0) 0 (nego ndef).answer)
      acceptable.toNat = some ((nego ndef).answer.take acceptable.toNat) := by
    rw [hbuffer, bytesAt, if_pos (by rw [List.length_append]; omega),
      List.take_append_of_le_length (Nat.le_of_lt hlong)]
  have hmessage : snepMsgSend snepResponseSuccess acceptable 0
      (overwrite (List.replicate snepDataSize 0) 0 (nego ndef).answer) =
        some ([snepVersion, snepResponseSuccess] ++ longBytes acceptable ++
          (nego ndef).answer.take acceptable.toNat) := by
    rw [snepMsgSend, hbytes]
    rfl
  rw [serverRequest_parse hidle (by omega), serverRequest,
    if_neg hheader, if_neg hversion]
  simp only
  rw [if_pos hcmd, serverGet]
  simp only
  rw [if_pos (by omega), hndefAt, hacceptable, if_pos hret, if_neg hnot, if_pos hshort, hmessage]
  rfl

theorem continueRequest_parse {answer : List U8} (hlong : acceptable.toNat < answer.length)
    (hfits : answer.length ≤ snepDataSize) :
    snepParse nego .server 1 (s.answering answer acceptable) continueRequest =
      if 2 * answer.length ≤ snepDataSize + acceptable.toNat then
        some ⟨{ s.answering answer acceptable with readStatus := 1 },
          [.send (List.replicate (answer.length - acceptable.toNat) 0)], 0⟩
      else none := by
  have hsize : snepDataSize = 1024 := rfl
  have hanswer : (BitVec.ofNat 32 answer.length).toNat = answer.length := by
    rw [BitVec.toNat_ofNat, Nat.mod_eq_of_lt (by omega)]
  have hrest : (BitVec.ofNat 32 answer.length - acceptable).toNat =
      answer.length - acceptable.toNat := by
    rw [BitVec.toNat_sub, hanswer]
    have hlt := acceptable.isLt
    omega
  have hbuffer : (overwrite (List.replicate snepDataSize 0) 0 answer).drop answer.length =
      List.replicate (snepDataSize - answer.length) 0 := by
    rw [overwrite, List.take_zero, List.nil_append, Nat.zero_add, List.drop_left,
      List.drop_replicate]
  have hbytes : bytesAt (List.replicate (snepDataSize - answer.length) (0 : U8))
      (answer.length - acceptable.toNat) =
        if 2 * answer.length ≤ snepDataSize + acceptable.toNat then
          some (List.replicate (answer.length - acceptable.toNat) 0) else none := by
    rw [bytesAt, List.length_replicate, List.take_replicate]
    by_cases henough : 2 * answer.length ≤ snepDataSize + acceptable.toNat
    · rw [if_pos (by omega), if_pos henough, Nat.min_eq_left (by omega)]
    · rw [if_neg (by omega), if_neg henough]
  have hidle : (s.answering answer acceptable).readStatus ≠ 0 := (by decide : (3 : U8) ≠ 0)
  rw [serverRequest_parse hidle (by decide)]
  change serverContinueRequest (s.answering answer acceptable) = _
  rw [serverContinueRequest, snepMsgSend]
  simp only [Snep.answering]
  rw [hrest, hanswer, hbuffer, hbytes]
  by_cases henough : 2 * answer.length ≤ snepDataSize + acceptable.toNat
  · rw [if_pos henough, if_pos henough]
    rfl
  · rw [if_neg henough, if_neg henough]
    rfl

def AnswersWhole (nego nego' : List U8 → Negotiated) (s : Snep) (length acceptable : U32)
    (ndef : List U8) : Prop :=
  ∃ r r' response rest, snepParse nego .server 1 s (getRequest length acceptable ndef) = some r ∧
    r.effects = [.nego ndef, .send response] ∧ byteAt response 1 = snepResponseSuccess ∧
    snepParse nego' .server 1 r.snep continueRequest = some r' ∧ r'.effects = [.send rest] ∧
    response.drop snepHeaderLength ++ rest = (nego ndef).answer

def ZeroTail (answer : List U8) (acceptable : Nat) : Prop :=
  answer.drop acceptable = List.replicate (answer.length - acceptable) 0 ∧
    2 * answer.length ≤ snepDataSize + acceptable

theorem answersWhole_iff (hidle : s.readStatus ≠ 0) (hndef : ndef ≠ [])
    (hret : (nego ndef).ret = 0) (hlong : acceptable.toNat < (nego ndef).answer.length) :
    AnswersWhole nego nego' s length acceptable ndef ↔
      ZeroTail (nego ndef).answer acceptable.toNat := by
  have hget : snepParse nego .server 1 s (getRequest length acceptable ndef) = _ :=
    getRequest_parse hidle hndef hret hlong
  have hcontinue : snepParse nego' .server 1
      (s.answering (nego ndef).answer acceptable) continueRequest = _ :=
    continueRequest_parse hlong (nego ndef).fits
  constructor
  · rintro ⟨r, r', response, rest, hr, heffects, -, hr', heffects', hwhole⟩
    obtain rfl := Option.some_inj.mp (hget.symm.trans hr)
    rw [hcontinue] at hr'
    split at hr'
    · rename_i henough
      cases hr'
      cases heffects
      cases heffects'
      refine ⟨?_, henough⟩
      have hparts : (nego ndef).answer.take acceptable.toNat ++
          List.replicate ((nego ndef).answer.length - acceptable.toNat) 0 =
            (nego ndef).answer := hwhole
      conv at hparts => rhs; rw [← List.take_append_drop acceptable.toNat (nego ndef).answer]
      exact (List.append_cancel_left hparts).symm
    · cases hr'
  · rintro ⟨hzeros, henough⟩
    rw [if_pos henough] at hcontinue
    refine ⟨_, _, _, _, hget, rfl, rfl, hcontinue, rfl, ?_⟩
    rw [← hzeros]
    exact List.take_append_drop acceptable.toNat (nego ndef).answer

/-- Fragmentation is transparent for messages that are not fragmented, and for answers that end in
zeros. -/
theorem snep_transparent_iff (nego : List U8 → Negotiated) (s : Snep) :
    (∀ (role : ServiceRole) (part msg : List U8) (conts : List SnepEvent), role ≠ .default →
      s.readStatus = 1 → part ≠ [] → (∀ e ∈ conts, e.2 ≠ []) →
      part ++ (conts.map Prod.snd).flatten = msg → msg.length ≤ snepDataSize →
        (HandsOn role s ((nego, firstPdu role msg.length part) :: conts) msg ↔ conts = [])) ∧
    ∀ (nego' : List U8 → Negotiated) (length acceptable : U32) (ndef : List U8),
      s.readStatus ≠ 0 → ndef ≠ [] → (nego ndef).ret = 0 →
      acceptable.toNat < (nego ndef).answer.length →
        (AnswersWhole nego nego' s length acceptable ndef ↔
          ZeroTail (nego ndef).answer acceptable.toNat) := by
  constructor
  · intro role part msg conts hrole hstatus hpart hconts hmsg hfits
    exact handsOn_iff hrole hstatus hpart hconts hmsg hfits
  · intro nego' length acceptable ndef hidle hndef hret hlong
    exact answersWhole_iff hidle hndef hret hlong

def exampleSnep : Snep := ⟨[], 0, [], 0, 0, 1⟩

def answering (answer : List U8) (fits : answer.length ≤ snepDataSize) (_ : List U8) :
    Negotiated := ⟨0, answer, fits⟩

theorem snep_transparent_example :
    HandsOn .server exampleSnep
        [(answering [5, 0] (by decide), firstPdu .server 2 [7, 8])] [7, 8] ∧
      AnswersWhole (answering [5, 0] (by decide)) (answering [5, 0] (by decide)) exampleSnep 5 1
        [9] := by
  constructor
  · exact ((snep_transparent_iff _ exampleSnep).1 .server [7, 8] [7, 8] [] (by decide) rfl
      (by decide) (by decide) (by decide) (by decide)).mpr rfl
  · refine ((snep_transparent_iff _ exampleSnep).2 _ 5 1 [9] (by decide) (by decide) rfl
      (by decide)).mpr ?_
    exact ⟨by decide, by decide⟩

/-- A message in two parts is rejected, and an answer of two bytes is continued with a zero. -/
theorem fragments_lost :
    ¬HandsOn .server exampleSnep [(answering [5, 6] (by decide), firstPdu .server 2 [7]),
        (answering [5, 6] (by decide), [8])] [7, 8] ∧
      ¬AnswersWhole (answering [5, 6] (by decide)) (answering [5, 6] (by decide)) exampleSnep 5 1
        [9] := by
  constructor
  · rintro ⟨s', before, last, hrun, hstatus, -⟩
    have hexact : (snepRun .server exampleSnep
        [(answering [5, 6] (by decide), firstPdu .server 2 [7]),
          (answering [5, 6] (by decide), [8])]).map (fun r => r.1.readStatus) = some 2 := by
      decide +kernel
    rw [hrun] at hexact
    have htwo : s'.readStatus = 2 := Option.some_inj.mp hexact
    rw [hstatus] at htwo
    exact absurd htwo (by decide)
  · rintro ⟨r, r', response, rest, hr, heffects, -, hr', heffects', hwhole⟩
    have hexact : ((snepParse (answering [5, 6] (by decide)) .server 1 exampleSnep
        (getRequest 5 1 [9])).bind fun r => (snepParse (answering [5, 6] (by decide)) .server 1
          r.snep continueRequest).map fun r' => (r.effects, r'.effects)) =
            some ([.nego [9], .send [0x10, 0x81, 0, 0, 0, 1, 5]], [.send [0]]) := by
      decide +kernel
    rw [hr] at hexact
    simp only [Option.bind_some] at hexact
    rw [hr', Option.map_some, heffects, heffects'] at hexact
    cases hexact
    exact absurd hwhole (by decide)

end Answer

end OpenwrtMtk.Nfc
