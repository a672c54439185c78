import OpenwrtMtk.Nfc.HandoverParse

/-!
# Handover messages that are built and parsed

A message gets through when all its carriers are alike: only the references are found one by one.
-/

namespace OpenwrtMtk.Nfc

open Toolkit

set_option autoImplicit false

section Message

variable {carriers : List Carrier} {inner : List NdefRecord} {c : Carrier} {a b : U8}
  {random : U16} {o : Outputs}

def carrierBytes (carriers : List Carrier) : List U8 :=
  (carriers.mapIdx (carrierRecord carriers.length)).flatMap NdefRecord.encode

def firstParsed (a b : U8) (inner : List NdefRecord) (carriers : List Carrier) : NdefRecord :=
  { wellKnown flagsMb [a, b] (acData inner) with
    type := a :: b :: (acData inner ++ carrierBytes carriers)
    payloadData := acData inner ++ carrierBytes carriers }

theorem parse_message (hac : (acData inner).length < 256) :
    parse .zero (message [a, b] inner carriers) = some (0, firstParsed a b inner carriers) :=
  parse_wellKnown messageFlags_mb hac

theorem length_message_pos {type : List U8} : (message type inner carriers).length ≠ 0 := by
  rw [message, NdefRecord.encode, List.cons_append, List.length_cons]
  exact Nat.succ_ne_zero _

theorem carrierAt_first (hac : (acData inner).length < 256) (hfirst : carriers[0]? = some c) :
    CarrierAt (message [a, b] inner carriers) (checkLength (firstParsed a b inner carriers)) c := by
  have hplace : checkLength (firstParsed a b inner carriers) =
      BitVec.ofNat 32 (3 + 2 + (acData inner).length) := by
    change 2#32 + BitVec.ofNat 32 (acData inner).length + 3#32 = _
    rw [← BitVec.ofNat_add, ← BitVec.ofNat_add]
    congr 1
    omega
  have hskip : (message [a, b] inner carriers).drop (3 + 2 + (acData inner).length) =
      carrierBytes carriers :=
    List.drop_left' (length_wellKnown messageFlags_mb hac (by decide : 2 < 256))
  cases carriers with
  | nil => cases hfirst
  | cons d carriers =>
    obtain rfl : d = c := Option.some_inj.mp hfirst
    rw [CarrierAt, hplace, offsetBy_ofNat (by omega), hskip, carrierBytes, List.mapIdx_cons,
      List.flatMap_cons]
    exact ⟨_, _, rfl⟩

end Message

/-- The arrays have room for the carriers. -/
structure Outputs.Hold (o : Outputs) (carriers : List Carrier) : Prop where
  radio : carriers.length ≤ o.radio.length
  carrierId : carriers.length ≤ o.carrierId.length
  outLength : carriers.length ≤ o.outLength.length
  outData : ∀ (i : Nat) (c : Carrier), carriers[i]? = some c →
    ∃ buffer : List U8, o.outData[i]? = some buffer ∧ c.payload.length ≤ buffer.length

/-- The carriers as they are given to a builder. -/
structure WellFormed (carriers : List Carrier) : Prop extends Buildable carriers where
  payload_pos : ∀ c ∈ carriers, c.payload ≠ []
  attributed : ∀ c ∈ carriers, c.Attributed

/-- The arrays hold the carriers, each at its place. -/
structure Delivered (carriers : List Carrier) (o : Outputs) : Prop where
  num : o.num = BitVec.ofNat 8 carriers.length
  payload : ∀ (i : Nat) (c : Carrier), carriers[i]? = some c →
    ∃ buffer : List U8, o.outData[i]? = some buffer ∧ buffer.take c.payload.length = c.payload
  length : ∀ (i : Nat) (c : Carrier), carriers[i]? = some c →
    o.outLength[i]? = some (BitVec.ofNat 16 c.payload.length)
  carrierId : ∀ (i : Nat) (c : Carrier), carriers[i]? = some c → o.carrierId[i]? = some (refData i)
  radio : ∀ (i : Nat) (c : Carrier), carriers[i]? = some c →
    ∃ radio : U8, o.radio[i]? = some radio ∧ sameRadio radio c.radio.code

def Alike (carriers : List Carrier) : Prop :=
  ∀ c ∈ carriers, ∀ d ∈ carriers, c.payload = d.payload ∧ c.radio.mime = d.radio.mime

theorem mime_eq_iff (r s : RadioType) : r.mime = s.mime ↔ sameRadio r.code s.code := by
  unfold sameRadio
  cases r <;> cases s <;> decide

section Alike

variable {carriers : List Carrier} {first : Carrier} {o referred o' : Outputs} {radio : U8}

theorem alike_of_first (first : Carrier) (h : ∀ c ∈ carriers, c.payload = first.payload ∧
    c.radio.mime = first.radio.mime) : Alike carriers := by
  intro c hc d hd
  obtain ⟨hpayload, hmime⟩ := h c hc
  obtain ⟨hpayload', hmime'⟩ := h d hd
  exact ⟨hpayload.trans hpayload'.symm, hmime.trans hmime'.symm⟩

/-- Carriers that are delivered by a loop which repeats the first are like the first. -/
theorem alike_of_delivered (hlt : ∀ c ∈ carriers, c.payload.length < 2 ^ 16)
    (hfirstMem : first ∈ carriers) (hradio : sameRadio radio first.radio.code)
    (hrepeated : Repeated radio first carriers.length referred o')
    (h : Delivered carriers o') : Alike carriers := by
  apply alike_of_first first
  intro c hc
  obtain ⟨i, hi, rfl⟩ := List.getElem_of_mem hc
  have hget : carriers[i]? = some carriers[i] := List.getElem?_eq_getElem hi
  have hlength : carriers[i].payload.length = first.payload.length := by
    have heq : BitVec.ofNat 16 carriers[i].payload.length =
        BitVec.ofNat 16 first.payload.length :=
      Option.some_inj.mp ((h.length i _ hget).symm.trans (hrepeated.outLength i hi))
    have hnat := congrArg BitVec.toNat heq
    rw [BitVec.toNat_ofNat, BitVec.toNat_ofNat, Nat.mod_eq_of_lt (hlt _ hc),
      Nat.mod_eq_of_lt (hlt _ hfirstMem)] at hnat
    exact hnat
  constructor
  · obtain ⟨buffer, hbuffer, htake⟩ := h.payload i _ hget
    obtain ⟨before, -, -, hafter⟩ := hrepeated.outData i hi
    obtain rfl : overwrite before 0 first.payload = buffer :=
      Option.some_inj.mp (hafter.symm.trans hbuffer)
    rw [← htake, hlength, overwrite, List.take_zero, List.nil_append, List.take_left]
  · obtain ⟨found, hfound, hsame⟩ := h.radio i _ hget
    obtain rfl : radio = found := Option.some_inj.mp ((hrepeated.radio i hi).symm.trans hfound)
    rw [mime_eq_iff, sameRadio, ← hsame, ← hradio]

/-- Carriers that are alike are delivered by a loop that repeats the first. -/
theorem delivered_of_alike (hfirstMem : first ∈ carriers)
    (hradio : sameRadio radio first.radio.code) (halike : Alike carriers)
    (hrepeated : Repeated radio first carriers.length referred o')
    (hnum : referred.num = BitVec.ofNat 8 carriers.length)
    (hids : ∀ i, i < carriers.length → referred.carrierId[i]? = some (refData i)) :
    Delivered carriers o' := by
  have hin : ∀ i c, carriers[i]? = some c → i < carriers.length ∧ c ∈ carriers :=
    fun i c h => ⟨(List.getElem?_eq_some_iff.mp h).1, List.mem_of_getElem? h⟩
  constructor
  · rw [hrepeated.num, hnum]
  · intro i c h
    obtain ⟨hi, hc⟩ := hin i c h
    obtain ⟨before, -, -, hafter⟩ := hrepeated.outData i hi
    refine ⟨_, hafter, ?_⟩
    rw [(halike c hc first hfirstMem).1, overwrite, List.take_zero, List.nil_append,
      List.take_left]
  · intro i c h
    obtain ⟨hi, hc⟩ := hin i c h
    rw [(halike c hc first hfirstMem).1]
    exact hrepeated.outLength i hi
  · intro i c h
    obtain ⟨hi, hc⟩ := hin i c h
    rw [hrepeated.carrierId]
    exact hids i hi
  · intro i c h
    obtain ⟨hi, hc⟩ := hin i c h
    refine ⟨radio, hrepeated.radio i hi, ?_⟩
    have hsame := (mime_eq_iff _ _).mp (halike first hfirstMem c hc).2
    rw [sameRadio, hradio, hsame]

theorem parseCarriers_delivers {data : List U8} {place : U32} (hwell : WellFormed carriers)
    (hhold : o.Hold carriers) (hfirst : carriers[0]? = some first)
    (hat : CarrierAt data place first) (hreferred : Referred carriers.length 0 o referred) :
    (∀ o', parseCarriers data place carriers.length referred = some (0, o') →
        Delivered carriers o' → Alike carriers) ∧
      (Alike carriers → ∃ o', parseCarriers data place carriers.length referred = some (0, o') ∧
        Delivered carriers o' ∧ o'.receivedRandom = o.receivedRandom) := by
  have hfirstMem : first ∈ carriers := List.mem_of_getElem? hfirst
  have hpos : carriers.length ≠ 0 := by
    have hge := hwell.pos
    omega
  obtain ⟨radio, hradio, hstep⟩ := carrierStep_eq hat (hwell.payload_pos first hfirstMem)
    (hwell.attributed first hfirstMem) (hwell.payload_lt first hfirstMem)
  have hdata : carriers.length ≤ referred.outData.length := by
    rw [hreferred.outData]
    by_contra hshort
    have hlast : o.outData.length < carriers.length := by omega
    obtain ⟨buffer, hbuffer, -⟩ := hhold.outData _ _ (List.getElem?_eq_getElem hlast)
    exact absurd (List.getElem?_eq_some_iff.mp hbuffer).1 (Nat.lt_irrefl _)
  obtain ⟨hrepeated, hexists⟩ := carriers_run (o := {
      referred with num := BitVec.ofNat 8 carriers.length }) hstep
    (hreferred.radio.symm ▸ hhold.radio) (hreferred.outLength.symm ▸ hhold.outLength) hdata
  rw [parseCarriers, if_neg hpos]
  constructor
  · intro o' hrun hdelivered
    obtain ⟨result, hloop, hboth⟩ := Option.bind_eq_some_iff.mp hrun
    obtain rfl : result = o' := congrArg Prod.snd (Option.some_inj.mp hboth)
    exact alike_of_delivered hwell.payload_lt hfirstMem hradio (hrepeated _ hloop) hdelivered
  · intro halike
    have hfits : ∀ i, i < carriers.length → ∀ buffer, referred.outData[i]? = some buffer →
        first.payload.length ≤ buffer.length := by
      intro i hi buffer hbuffer
      have hget : carriers[i]? = some carriers[i] := List.getElem?_eq_getElem hi
      obtain ⟨held, hheld, hle⟩ := hhold.outData i _ hget
      rw [hreferred.outData, hheld] at hbuffer
      obtain rfl : held = buffer := Option.some_inj.mp hbuffer
      rw [(halike first hfirstMem _ (List.getElem_mem hi)).1]
      exact hle
    obtain ⟨o', hloop⟩ := hexists hfits
    have hdone := hrepeated o' hloop
    refine ⟨o', ?_, ?_, ?_⟩
    · rw [hloop]
      rfl
    · exact delivered_of_alike hfirstMem hradio halike hdone rfl
        fun i hi => hreferred.found i (Nat.zero_le i) hi
    · exact hdone.receivedRandom.trans hreferred.receivedRandom

end Alike

section Parsers

variable {carriers : List Carrier} {first : Carrier} {random : U16} {o : Outputs}

theorem acLoop_message {marksFirst : Bool} {isAc : NdefRecord → Option Bool}
    {payload rest : List U8} {base : Nat} (hwell : WellFormed carriers) (hhold : o.Hold carriers)
    (hpayload : RefersFrom marksFirst carriers payload base rest)
    (hisAc : ∀ flags idx power more, isAc (acParsed flags idx power more) = some true)
    (hbase : base ≤ 8) :
    ∃ o', acLoop isAc payload (BitVec.ofNat 32 (base + 9 * carriers.length)) radioEnd
        (BitVec.ofNat 32 base) 0 o = some (carriers.length, o') ∧
      Referred carriers.length 0 o o' := by
  have hle := hwell.le
  obtain ⟨spare, hspare⟩ := Nat.exists_eq_add_of_le hle
  rw [radioEnd] at hle
  rw [hspare]
  exact acLoop_run hpayload hisAc (by omega) (Nat.zero_add _) hhold.radio hhold.carrierId

def selectFirst (carriers : List Carrier) : NdefRecord :=
  firstParsed 0x48 0x73 (acRecords true carriers) carriers

def requestFirst (random : U16) (carriers : List Carrier) : NdefRecord :=
  firstParsed 0x48 0x72 (crRecord random :: acRecords false carriers) carriers

theorem selectParse_message (hwell : WellFormed carriers) (hhold : o.Hold carriers) :
    ∃ referred, Referred carriers.length 0 o referred ∧
      selectParse (selectMessage carriers) o = parseCarriers (selectMessage carriers)
        (checkLength (selectFirst carriers)) carriers.length referred := by
  have hle := hwell.le
  have hlength : (acData (acRecords true carriers)).length = 1 + 9 * carriers.length :=
    length_acData_select
  rw [radioEnd] at hle
  have hparse : parse .zero (selectMessage carriers) = some (0, selectFirst carriers) :=
    parse_message (by omega)
  have hrefers : RefersFrom true carriers (selectFirst carriers).payloadData 1
      (carrierBytes carriers) := rfl
  have hisAc : ∀ flags idx power more,
      selectIsAc (acParsed flags idx power more) = some true := fun _ _ _ _ => rfl
  obtain ⟨referred, hrun, hreferred⟩ := acLoop_message hwell hhold hrefers hisAc (by omega)
  rw [← hlength] at hrun
  have hloop : acLoop selectIsAc (selectFirst carriers).payloadData
      (selectFirst carriers).payloadLength radioEnd 1 0 o = some (carriers.length, referred) := hrun
  have hpos : (selectMessage carriers).length ≠ 0 := length_message_pos
  have htype : strncmpEq (selectFirst carriers).type (typeHs ++ [0])
      (selectFirst carriers).typeLength.toNat = some true := rfl
  have hversion : (selectFirst carriers).payloadData[0]? = some hoVersion := rfl
  refine ⟨referred, hreferred, ?_⟩
  rw [selectParse, if_neg hpos, hparse]
  simp only [Option.bind_eq_bind, Option.bind_some]
  rw [htype]
  simp only [Option.bind_some, if_true]
  rw [hversion]
  simp only [Option.bind_some, if_true]
  rw [hloop]
  rfl

theorem crStep_message (hwell : WellFormed carriers) :
    crStep (requestFirst random carriers).payloadData (requestFirst random carriers).payloadLength
      o = some (some 8, { o with receivedRandom := random }) := by
  have hle := hwell.le
  rw [radioEnd] at hle
  have hlength : (acData (crRecord random :: acRecords false carriers)).length =
      8 + 9 * carriers.length := length_acData_request random
  have hsigned : (1 : U32).slt (requestFirst random carriers).payloadLength = true := by
    change (BitVec.ofNat 32 1).slt (BitVec.ofNat 32
      (acData (crRecord random :: acRecords false carriers)).length) = true
    rw [slt_ofNat (by omega) (by omega), decide_eq_true_iff]
    omega
  have hpointer : offsetBy (requestFirst random carriers).payloadData 1 =
      some ((crRecord random).encode ++ ((acRecords false carriers).flatMap NdefRecord.encode ++
        carrierBytes carriers)) := by
    have hoffset : ∀ payload, offsetBy payload 1 = some (payload.drop 1) :=
      fun payload => offsetBy_ofNat (n := 1) (by omega)
    rw [hoffset]
    simp only [requestFirst, firstParsed, acData, List.flatMap_cons, List.cons_append,
      List.append_assoc, List.drop_succ_cons, List.drop_zero]
  have hbytesLength : (randomBytes random).length < 256 := (by decide : 2 < 256)
  generalize (acRecords false carriers).flatMap NdefRecord.encode ++ carrierBytes carriers = rest
    at hpointer
  have hcr : parse .zero ((crRecord random).encode ++ rest) = some (0, {
      crRecord random with
      type := 0x63 :: 0x72 :: (randomBytes random ++ rest)
      payloadData := randomBytes random ++ rest }) :=
    parse_wellKnown messageFlags_mb hbytesLength
  have htype : memcmpEq (0x63 :: 0x72 :: (randomBytes random ++ rest)) typeCr
      (crRecord random).typeLength.toNat = some true := rfl
  have hlo : (randomBytes random ++ rest)[0]? = some (random.setWidth 8) := rfl
  have hhi : (randomBytes random ++ rest)[1]? = some ((random >>> 8).setWidth 8) := rfl
  have hnext : 1 + (crRecord random).typeLength.setWidth 32 + (crRecord random).payloadLength + 3 =
      (8 : U32) := rfl
  have hword : (random >>> 8).setWidth 8 ++ random.setWidth 8 = random := wordOf_wordBytes random
  rw [crStep, if_pos hsigned, hpointer]
  simp only [Option.bind_eq_bind, Option.bind_some]
  rw [hcr]
  simp only [Option.bind_some]
  rw [htype]
  simp only [Option.bind_some, if_true]
  rw [hlo, hhi, hnext]
  simp only [Option.bind_some]
  rw [hword]

theorem requestParse_message (hwell : WellFormed carriers) (hhold : o.Hold carriers) :
    ∃ referred, Referred carriers.length 0 { o with receivedRandom := random } referred ∧
      requestParse (requestMessage random carriers) o =
        parseCarriers (requestMessage random carriers)
          (checkLength (requestFirst random carriers)) carriers.length referred := by
  have hle := hwell.le
  have hlength : (acData (crRecord random :: acRecords false carriers)).length =
      8 + 9 * carriers.length := length_acData_request random
  rw [radioEnd] at hle
  have hparse : parse .zero (requestMessage random carriers) =
      some (0, requestFirst random carriers) := parse_message (by omega)
  have hrefers : RefersFrom false carriers (requestFirst random carriers).payloadData 8
      (carrierBytes carriers) := by
    rw [RefersFrom]
    simp only [requestFirst, firstParsed, acData, List.flatMap_cons, List.cons_append,
      List.append_assoc, List.drop_succ_cons]
    exact List.drop_left' (length_crRecord random)
  have hisAc : ∀ flags idx power more,
      requestIsAc (acParsed flags idx power more) = some true := fun _ _ _ _ => rfl
  have hhold' : ({ o with receivedRandom := random } : Outputs).Hold carriers :=
    ⟨hhold.radio, hhold.carrierId, hhold.outLength, hhold.outData⟩
  obtain ⟨referred, hrun, hreferred⟩ := acLoop_message hwell hhold' hrefers hisAc (by omega)
  rw [← hlength] at hrun
  have hloop : acLoop requestIsAc (requestFirst random carriers).payloadData
      (requestFirst random carriers).payloadLength radioEnd 8 0
        { o with receivedRandom := random } = some (carriers.length, referred) := hrun
  have hpos : (requestMessage random carriers).length ≠ 0 := length_message_pos
  have htype : memcmpEq (requestFirst random carriers).type typeHr
      (requestFirst random carriers).typeLength.toNat = some true := rfl
  have hversion : (requestFirst random carriers).payloadData[0]? = some hoVersion := rfl
  refine ⟨referred, hreferred, ?_⟩
  rw [requestParse, if_neg hpos, hparse]
  simp only [Option.bind_eq_bind, Option.bind_some]
  rw [htype]
  simp only [Option.bind_some, if_true]
  rw [hversion]
  simp only [Option.bind_some, if_true]
  rw [crStep_message hwell]
  simp only [Option.bind_some]
  rw [hloop]
  rfl

end Parsers

def SelectGetsThrough (carriers : List Carrier) (o : Outputs) : Prop :=
  ∃ bytes o', selectBuild carriers = some ⟨0, some bytes⟩ ∧
    selectParse bytes o = some (0, o') ∧ Delivered carriers o'

def RequestGetsThrough (random : U16) (carriers : List Carrier) (o : Outputs) : Prop :=
  ∃ bytes o', requestBuild random carriers = some ⟨0, some bytes⟩ ∧
    requestParse bytes o = some (0, o') ∧ Delivered carriers o' ∧ o'.receivedRandom = random

/-- A handover message that fits gets through if and only if its carriers are all alike. -/
theorem handover_iff_alike (random : U16) (carriers : List Carrier) (o : Outputs)
    (hwell : WellFormed carriers) (hhold : o.Hold carriers) :
    ((selectMessage carriers).length ≤ defaultAcceptableLength →
        (SelectGetsThrough carriers o ↔ Alike carriers)) ∧
      ((requestMessage random carriers).length ≤ defaultAcceptableLength →
        (RequestGetsThrough random carriers o ↔ Alike carriers)) := by
  have hle := hwell.le
  rw [radioEnd] at hle
  obtain ⟨first, hfirst⟩ : ∃ first, carriers[0]? = some first :=
    ⟨_, List.getElem?_eq_getElem hwell.pos⟩
  constructor
  · intro hfits
    have hbuild := selectBuild_eq hwell.toBuildable hfits
    obtain ⟨referred, hreferred, hparse⟩ := selectParse_message hwell hhold
    have hat : CarrierAt (selectMessage carriers) (checkLength (selectFirst carriers)) first :=
      carrierAt_first (by rw [length_acData_select]; omega) hfirst
    obtain ⟨halike, hdelivers⟩ := parseCarriers_delivers hwell hhold hfirst hat hreferred
    rw [← hparse] at halike hdelivers
    constructor
    · rintro ⟨bytes, o', hbytes, hrun, hdelivered⟩
      rw [hbuild] at hbytes
      cases hbytes
      exact halike o' hrun hdelivered
    · intro hall
      obtain ⟨o', hrun, hdelivered, -⟩ := hdelivers hall
      exact ⟨_, o', hbuild, hrun, hdelivered⟩
  · intro hfits
    have hbuild := requestBuild_eq hwell.toBuildable hfits
    have hmessage : ∃ referred, Referred carriers.length 0 { o with receivedRandom := random }
        referred ∧ requestParse (requestMessage random carriers) o = _ :=
      requestParse_message hwell hhold
    obtain ⟨referred, hreferred, hparse⟩ := hmessage
    have hat : CarrierAt (requestMessage random carriers)
        (checkLength (requestFirst random carriers)) first :=
      carrierAt_first (by rw [length_acData_request]; omega) hfirst
    have hhold' : ({ o with receivedRandom := random } : Outputs).Hold carriers :=
      ⟨hhold.radio, hhold.carrierId, hhold.outLength, hhold.outData⟩
    obtain ⟨halike, hdelivers⟩ := parseCarriers_delivers hwell hhold' hfirst hat hreferred
    rw [← hparse] at halike hdelivers
    constructor
    · rintro ⟨bytes, o', hbytes, hrun, hdelivered, -⟩
      rw [hbuild] at hbytes
      cases hbytes
      exact halike o' hrun hdelivered
    · intro hall
      obtain ⟨o', hrun, hdelivered, hrandom⟩ := hdelivers hall
      exact ⟨_, o', hbuild, hrun, hdelivered, hrandom⟩

section Examples

def exampleOutputs : Outputs where
  num := 0
  receivedRandom := 0
  outData := [[0], [0]]
  outLength := [0, 0]
  radio := [0xff, 0xff]
  carrierId := [0, 0]

def likeCarriers : List Carrier := [⟨1, .bt, [7]⟩, ⟨0, .bt, [7]⟩]

def unlikeCarriers : List Carrier := [⟨1, .bt, [7]⟩, ⟨1, .wifiDirect, [8]⟩]

theorem likeCarriers_get_through :
    SelectGetsThrough likeCarriers exampleOutputs ∧
      RequestGetsThrough 0x1234 likeCarriers exampleOutputs := by
  have hwell : WellFormed likeCarriers := by
    refine ⟨⟨by decide, by decide, by decide⟩, by decide, ?_⟩
    intro c hc hmime
    have hradio : ∀ c ∈ likeCarriers, c.radio.mime ≠ mimeWsc := by decide
    exact absurd hmime (hradio c hc)
  have hhold : exampleOutputs.Hold likeCarriers := by
    refine ⟨by decide, by decide, by decide, ?_⟩
    intro i c h
    have hi : i < 2 := (List.getElem?_eq_some_iff.mp h).1
    have hpayload : ∀ c ∈ likeCarriers, c.payload.length = 1 := by decide
    have hbuffer : ∀ i, i < 2 → exampleOutputs.outData[i]? = some [0] := by decide
    exact ⟨[0], hbuffer i hi, Nat.le_of_eq (hpayload c (List.mem_of_getElem? h))⟩
  have halike : Alike likeCarriers := by
    unfold Alike
    decide
  have hboth := handover_iff_alike 0x1234 likeCarriers exampleOutputs hwell hhold
  exact ⟨(hboth.1 (by decide +kernel)).mpr halike, (hboth.2 (by decide +kernel)).mpr halike⟩

/-- Of two carriers with different payloads the second is lost. -/
theorem unlikeCarriers_lost :
    (selectMessage unlikeCarriers).length ≤ defaultAcceptableLength ∧
      ¬SelectGetsThrough unlikeCarriers exampleOutputs := by
  refine ⟨by decide +kernel, ?_⟩
  rintro ⟨bytes, o', hbuild, hparse, hdelivered⟩
  have hrun : ((selectBuild unlikeCarriers).bind fun built => built.message.bind fun bytes =>
      selectParse bytes exampleOutputs) = some (0, {
        num := 2
        receivedRandom := 0
        outData := [[7], [7]]
        outLength := [1, 1]
        radio := [1, 1]
        carrierId := [0x30, 0x31] }) := by decide +kernel
  rw [hbuild] at hrun
  simp only [Option.bind_some] at hrun
  rw [hparse] at hrun
  cases hrun
  obtain ⟨buffer, hbuffer, htake⟩ := hdelivered.payload 1 ⟨1, .wifiDirect, [8]⟩ rfl
  cases hbuffer
  exact absurd htake (by decide)

end Examples

end OpenwrtMtk.Nfc
