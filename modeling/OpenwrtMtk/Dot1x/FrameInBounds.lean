import OpenwrtMtk.Dot1x.Daemon
import OpenwrtMtk.Lib.Checked

/-!
# What the daemon reads of a frame

`Handle_read`, `ieee802_1x_receive`, `handle_eap` and `handle_eap_response` with the frame they are
given: every read names an offset into the bytes that were received.
-/

namespace OpenwrtMtk.Dot1x.Access

open Toolkit

set_option autoImplicit false

def ethPVlan : U16 := 0x8100

/-- `sizeof(priv_rec) - 1`: two addresses and the type. -/
def sizeofPrivRec : Nat := 14

def ralinkIe : List U8 := [221, 7, 0x00, 0x0c, 0x43, 0x00, 0x00, 0x00, 0x00]

def dot1xDisconnectEntry : U8 := 0
def dot1xReloadConfig : U8 := 1

def loadWord (frame : List U8) (off : Nat) : Checked Nat := do
  let bytes ← load frame off 2
  pure (ntohs bytes 0)

def loadAddr (frame : List U8) (off : Nat) : Checked Mac := do
  let bytes ← load frame off 6
  pure (Vector.ofFn fun i => bytes.getD i 0)

/-- `RTMPCompareMemory`, which stops at the first difference. -/
def compareMemory (frame : List U8) : Nat → List U8 → Checked Bool
  | _, [] => pure true
  | pos, b :: bytes => do
    let x ← loadByte frame pos
    if x = b then compareMemory frame (pos + 1) bytes else pure false

/-! ### The EAP packet -/

/-- `handle_eap_response`, for the packet at `eap` with `len` bytes behind its header. -/
def handleEapResponse (s : Sta) (frame : List U8) (eap len : Nat) : Checked Sta := do
  let identifier ← loadByte frame (eap + 1)
  if identifier ≠ s.eapolSm.currentId then pure s
  else if len < 1 then pure s
  else do
    let header ← load frame eap sizeofEapHdr
    let data ← load frame (eap + sizeofEapHdr) len
    let type ← loadByte frame (eap + sizeofEapHdr)
    let s := { s with lastEapSupp := some (header ++ data) }
    if type = eapTypeIdentity then do
      let identity ← load frame (eap + sizeofEapHdr + 1) (len - 1)
      pure { s with
        eapolSm := { s.eapolSm with authPae := { s.eapolSm.authPae with rxInitialRsp := true } }
        identity := some identity }
    else
      pure { s with
        eapolSm := { s.eapolSm with beAuth := { s.eapolSm.beAuth with rxResp := true } } }

def handleEap (s : Sta) (frame : List U8) (buf len : Nat) : Checked Sta :=
  if len < sizeofEapHdr then pure s
  else do
    let eapLen ← loadWord frame (buf + 2)
    if eapLen < sizeofEapHdr then pure s
    else if len < eapLen then pure s
    else do
      let code ← loadByte frame buf
      if code = eapCodeResponse then handleEapResponse s frame buf (eapLen - 4) else pure s

/-! ### The EAPOL frame -/

section

variable (env : Env)

/-- `Ap_get_sta`: the station with an address, found or made, and what was done to make it; without
a station there is no room for another one. -/
def apGetSta (d : Rtapd) (sa : Mac) (apIdx : Nat) (ethertype : U16) (sock : Int) (aid : U16) :
    Option (Option Nat × Rtapd × List Effect) :=
  match findInChain d sa (d.staHash (staHash sa)) with
  | none => none
  | some (some node) => some (some node, d, [])
  | some none =>
    if maxStaCount ≤ d.numSta then some (none, d, [])
    else
      (addSta env d sa apIdx ethertype sock aid).map fun (d', effects) =>
        (some d.nodes, d', effects)

/-- The types of a frame behind the tests of its header, and then a step of the machines. -/
def dispatchFrame (frame : List U8) (buf datalen node : Nat) (d : Rtapd) : Checked Outcome := do
  let type ← loadByte frame (buf + 1)
  if type = ieee8021xTypeEapPacket then
    match d.sta node with
    | none => pure none
    | some s => do
      let s ← handleEap s frame (buf + 4) datalen
      pure (stepSta env node (d.setSta node fun _ => s))
  else if type = ieee8021xTypeEapolStart then
    pure (andThen (stepSta env node (d.setSm node fun sm =>
      { sm with authPae := { sm.authPae with eapStart := true } })) (stepSta env node))
  else if type = ieee8021xTypeEapolLogoff then
    pure (andThen (stepSta env node (d.setSm node fun sm =>
      { sm with authPae := { sm.authPae with eapLogoff := true } })) (stepSta env node))
  else pure (stepSta env node d)

/-- `ieee802_1x_receive` once there is a station, for the `left` bytes from `pos` on. The prefix
moves the pointer and not the length. -/
def receiveFrom (frame : List U8) (pos left : Nat) (ethertype : U16) (node : Nat) (d : Rtapd) :
    Checked Outcome := do
  let snap ← compareMemory frame pos snap8021h
  let buf := if snap then pos + 8 else pos
  let datalen ← loadWord frame (buf + 2)
  if sizeSub left 4 < datalen then pure (some (d, []))
  else if ethertype ≠ ethPPae ∧ ethertype ≠ ethPPreAuth then pure (some (d, []))
  else do
    let version ← loadByte frame buf
    if version ≠ 1 ∧ version ≠ 2 then pure (some (d, []))
    else dispatchFrame env frame buf datalen node d

def ieee8021xReceive (frame : List U8) (pos left apIdx : Nat) (ethertype : U16) (sock : Int)
    (aid : U16) (d : Rtapd) : Checked Outcome := do
  let sa ← loadAddr frame 6
  match apGetSta env d sa apIdx ethertype sock aid with
  | none => pure none
  | some (none, d, _) => pure (some (d, []))
  | some (some node, d, made) => do
    let received ← receiveFrom env frame pos left ethertype node d
    pure (andThen (some (d, made)) fun _ => received)

/-! ### The record from the socket -/

def innerType (frame : List U8) (left : Nat) (ethertype : U16) : Checked U16 :=
  if ethertype = ethPVlan ∧ 4 ≤ left then do
    let inner ← loadWord frame (sizeofPrivRec + 2)
    pure (BitVec.ofNat 16 inner)
  else pure ethertype

def findInterface (frame : List U8) : List Bss → Nat → Checked (Option Nat)
  | [], _ => pure none
  | bss :: rest, i => do
    let da ← loadAddr frame 0
    if da = bss.ownAddr then pure (some i) else findInterface frame rest (i + 1)

def internalCommand (conf : Config) (frame : List U8) (pos : Nat) (d : Rtapd) :
    Checked Outcome := do
  let icmd ← loadByte frame (pos + 5)
  if icmd = dot1xDisconnectEntry then do
    let sa ← loadAddr frame 6
    pure ((disconnectEntry d sa).map fun d => (d, []))
  else if icmd = dot1xReloadConfig then
    pure ((handleReloadConfig d conf).map fun d => (d, []))
  else pure (some (d, []))

def isCommand (frame : List U8) (pos left : Nat) : Checked Bool :=
  if left = ralinkIe.length then compareMemory frame pos (ralinkIe.take 5) else pure false

def handlePayload (conf : Config) (frame : List U8) (pos left apIdx : Nat) (ethertype : U16)
    (sock : Int) (aid : U16) (d : Rtapd) : Checked Outcome := do
  let command ← isCommand frame pos left
  if command then internalCommand conf frame pos d
  else ieee8021xReceive env frame pos left apIdx ethertype sock aid d

/-- `Handle_read`, for the bytes that `recv` has put into its buffer. -/
def handleRead (conf : Config) (sock : Int) (aid : U16) (d : Rtapd) (frame : List U8) :
    Checked Outcome :=
  let left := sizeSub frame.length sizeofPrivRec
  if left = 0 then pure (some (d, []))
  else do
    let outer ← loadWord frame 12
    let ethertype ← innerType frame left (BitVec.ofNat 16 outer)
    if ethertype ≠ ethPPreAuth ∧ ethertype ≠ ethPPae then pure (some (d, []))
    else do
      let apIdx ← findInterface frame d.conf.bss 0
      match apIdx with
      | none => pure (some (d, []))
      | some apIdx =>
        if BitVec.ofNat 16 outer = ethPVlan then
          handlePayload env conf frame (sizeofPrivRec + 4) (sizeSub left 4) apIdx ethertype sock aid d
        else handlePayload env conf frame sizeofPrivRec left apIdx ethertype sock aid d

end

end OpenwrtMtk.Dot1x.Access

/-!
## Which frames are read inside their bytes

A frame shorter than its record header is read beyond its end, a frame of a station is where it ends
inside the SNAP prefix or the EAPOL header, and a prefix makes eight bytes more of the length count
than there are.
-/

namespace OpenwrtMtk.Dot1x.Access

open Toolkit

set_option autoImplicit false

variable {frame bytes : List U8} {pos off : Nat}

/-! ### Numbers and comparisons -/

theorem ntohs_slice {n : Nat} (buf : List U8) (off : Nat) (hn : 2 ≤ n) :
    ntohs (slice buf off n) 0 = ntohs buf off := by
  have hbyte : ∀ k, k < 2 → (slice buf off n).getD k 0 = buf.getD (off + k) 0 := by
    intro k hk
    rw [List.getD_eq_getElem?_getD, getElem?_slice, if_pos (by omega), List.getD_eq_getElem?_getD]
  unfold ntohs
  rw [hbyte 0 (by decide), hbyte (0 + 1) (by decide)]
  rfl

theorem loadWord_ok (h : off + 2 ≤ frame.length) : loadWord frame off = .ok (ntohs frame off) := by
  rw [loadWord, bind_ok (load_ok h), ntohs_slice _ _ (Nat.le_refl 2)]
  rfl

theorem ends_loadWord {β : Type} {f : Nat → Checked β} : Ends (loadWord frame off >>= f) ↔
    off + 2 ≤ frame.length ∧ Ends (f (ntohs frame off)) := by
  constructor
  · intro h
    obtain ⟨n, hload, hf⟩ := ends_bind.mp h
    obtain ⟨hin, _⟩ := ends_load.mp ⟨n, hload⟩
    rw [loadWord_ok hin] at hload
    cases hload
    exact ⟨hin, hf⟩
  · rintro ⟨hin, hf⟩
    rw [bind_ok (loadWord_ok hin)]
    exact hf

def addrAt (frame : List U8) (off : Nat) : Mac :=
  Vector.ofFn fun i => (slice frame off 6).getD i 0

theorem loadAddr_ok (h : off + 6 ≤ frame.length) : loadAddr frame off = .ok (addrAt frame off) := by
  rw [loadAddr, bind_ok (load_ok h)]
  rfl

theorem slice_cons {xs : List U8} {k : Nat} (h : off < xs.length) :
    slice xs off (k + 1) = xs.getD off 0 :: slice xs (off + 1) k := by
  rw [slice, List.drop_eq_getElem_cons h, List.take_succ_cons, slice, List.getD_eq_getElem?_getD,
    List.getElem?_eq_getElem h]
  rfl

theorem compareMemory_ok (h : pos + bytes.length ≤ frame.length) :
    compareMemory frame pos bytes = .ok (decide (slice frame pos bytes.length = bytes)) := by
  induction bytes generalizing pos with
  | nil => rfl
  | cons b bytes ih =>
    rw [List.length_cons] at h
    rw [compareMemory, bind_ok (loadByte_ok (by omega)), List.length_cons, slice_cons (by omega)]
    by_cases hb : frame.getD pos 0 = b
    · rw [if_pos hb, ih (by omega), hb]
      simp only [List.cons.injEq, true_and]
    · rw [if_neg hb, decide_eq_false]
      · rfl
      · intro heq
        exact hb (List.cons.inj heq).1

theorem compareMemory_short (hpos : pos ≤ frame.length)
    (hshort : frame.length < pos + bytes.length) :
    (frame.drop pos <+: bytes ∧ ¬Ends (compareMemory frame pos bytes)) ∨
      (¬frame.drop pos <+: bytes ∧ compareMemory frame pos bytes = .ok false) := by
  induction bytes generalizing pos with
  | nil =>
    rw [List.length_nil] at hshort
    omega
  | cons b bytes ih =>
    rw [List.length_cons] at hshort
    by_cases hin : pos < frame.length
    · have hhead : frame.getD pos 0 = frame[pos] := by
        rw [List.getD_eq_getElem?_getD, List.getElem?_eq_getElem hin]
        rfl
      rw [compareMemory, bind_ok (loadByte_ok hin), hhead, List.drop_eq_getElem_cons hin,
        List.cons_prefix_cons]
      by_cases hb : frame[pos] = b
      · rw [if_pos hb]
        simpa only [hb, true_and] using ih (by omega) (by omega)
      · rw [if_neg hb]
        exact .inr ⟨fun h => hb h.1, rfl⟩
    · left
      refine ⟨?_, ?_⟩
      · rw [List.drop_eq_nil_of_le (by omega)]
        exact List.nil_prefix
      · intro h
        rw [compareMemory] at h
        exact hin (ends_loadByte.mp h).1

/-! ### The EAP packet -/

/-- The packet at `eap` is an answer under an identifier, with data, and no longer than `len`. -/
structure Answers (frame : List U8) (eap len : Nat) (id : U8) : Prop where
  data : sizeofEapHdr < ntohs frame (eap + 2)
  length : ntohs frame (eap + 2) ≤ len
  code : frame.getD eap 0 = eapCodeResponse
  identifier : frame.getD (eap + 1) 0 = id

structure PacketFits (frame : List U8) (eap len : Nat) (id : U8) : Prop where
  header : eap + sizeofEapHdr ≤ frame.length
  packet : Answers frame eap len id → eap + ntohs frame (eap + 2) ≤ frame.length

theorem handleEapResponse_ends {s : Sta} {eap len : Nat}
    (hheader : eap + sizeofEapHdr ≤ frame.length) :
    Ends (handleEapResponse s frame eap len) ↔
      (frame.getD (eap + 1) 0 = s.eapolSm.currentId → 1 ≤ len →
        eap + sizeofEapHdr + len ≤ frame.length) := by
  unfold sizeofEapHdr at hheader
  rw [handleEapResponse, ends_loadByte]
  by_cases hid : frame.getD (eap + 1) 0 = s.eapolSm.currentId
  · rw [if_neg (by rw [hid]; exact fun h => h rfl)]
    by_cases hlen : len < 1
    · rw [if_pos hlen]
      exact ⟨fun _ _ h => absurd h (by omega), fun _ => ⟨by omega, ends_pure s⟩⟩
    · rw [if_neg hlen, ends_load, ends_load, ends_loadByte]
      constructor
      · rintro ⟨_, _, hdata, _⟩ _ _
        exact hdata
      · intro h
        have hroom := h hid (by omega)
        unfold sizeofEapHdr at hroom ⊢
        refine ⟨by omega, by omega, by omega, by omega, ?_⟩
        dsimp only
        split
        · exact ends_load.mpr ⟨by omega, ends_pure _⟩
        · exact ends_pure _
  · rw [if_pos hid]
    exact ⟨fun _ h => absurd h hid, fun _ => ⟨by omega, ends_pure s⟩⟩

theorem handleEap_ends {s : Sta} {buf len : Nat} : Ends (handleEap s frame buf len) ↔
    (sizeofEapHdr ≤ len → PacketFits frame buf len s.eapolSm.currentId) := by
  unfold handleEap
  by_cases hlen : len < sizeofEapHdr
  · rw [if_pos hlen]
    exact ⟨fun _ h => absurd h (by omega), fun _ => ends_pure s⟩
  · rw [if_neg hlen, ends_loadWord]
    constructor
    · rintro ⟨hroom, hrest⟩ _
      refine ⟨by unfold sizeofEapHdr; omega, fun ha => ?_⟩
      have hdata := ha.data
      have hlength := ha.length
      unfold sizeofEapHdr at hdata hrest
      rw [if_neg (by omega), if_neg (by omega), ends_loadByte, if_pos ha.code] at hrest
      have hpacket := (handleEapResponse_ends (by unfold sizeofEapHdr; omega)).mp hrest.2
        ha.identifier (by omega)
      unfold sizeofEapHdr at hpacket
      omega
    · intro h
      obtain ⟨hheader, hpacket⟩ := h (by omega)
      have hroom : buf + 2 + 2 ≤ frame.length := hheader
      refine ⟨hroom, ?_⟩
      split
      · exact ends_pure s
      · rename_i hdata
        split
        · exact ends_pure s
        · rename_i hlength
          refine ends_loadByte.mpr ⟨by omega, ?_⟩
          split
          · rename_i hcode
            apply (handleEapResponse_ends hheader).mpr
            intro hid hsome
            have hanswers : Answers frame buf len s.eapolSm.currentId :=
              ⟨by unfold sizeofEapHdr; omega, by omega, hcode, hid⟩
            have hin := hpacket hanswers
            unfold sizeofEapHdr
            omega
          · exact ends_pure s

/-! ### The EAPOL frame -/

def headerAt (frame : List U8) (pos : Nat) : Nat :=
  if slice frame pos snap8021h.length = snap8021h then pos + 8 else pos

/-- The frame does not end in the SNAP prefix, nor in the EAPOL header. -/
structure HeaderFits (frame : List U8) (pos : Nat) : Prop where
  snap : frame.length < pos + snap8021h.length → ¬frame.drop pos <+: snap8021h
  header : headerAt frame pos + 4 ≤ frame.length

/-- An EAPOL header of a known version, with an EAP packet and no more than the `left` bytes. -/
structure Announces (frame : List U8) (buf left : Nat) : Prop where
  length : ntohs frame (buf + 2) ≤ left - 4
  version : frame.getD buf 0 = 1 ∨ frame.getD buf 0 = 2
  type : frame.getD (buf + 1) 0 = ieee8021xTypeEapPacket
  packet : sizeofEapHdr ≤ ntohs frame (buf + 2)

/-- What a station that expects `id` reads of an EAP packet in the frame is in the frame. -/
def EapFits (frame : List U8) (pos : Nat) (id : U8) : Prop :=
  Announces frame (headerAt frame pos) (frame.length - pos) →
    PacketFits frame (headerAt frame pos + 4) (ntohs frame (headerAt frame pos + 2)) id

theorem le_headerAt (frame : List U8) (pos : Nat) : pos ≤ headerAt frame pos := by
  unfold headerAt
  split
  · exact Nat.le_add_right pos 8
  · exact Nat.le_refl pos

theorem compare_snap (hpos : pos ≤ frame.length) :
    Ends (compareMemory frame pos snap8021h) ↔
      (frame.length < pos + snap8021h.length → ¬frame.drop pos <+: snap8021h) := by
  by_cases hshort : frame.length < pos + snap8021h.length
  · rcases compareMemory_short hpos hshort with ⟨hbegins, hends⟩ | ⟨hbegins, hok⟩
    · exact ⟨fun h => absurd h hends, fun h => absurd hbegins (h hshort)⟩
    · exact ⟨fun _ _ => hbegins, fun _ => ⟨false, hok⟩⟩
  · exact ⟨fun _ h => absurd h hshort, fun _ => ⟨_, compareMemory_ok (by omega)⟩⟩

theorem header_of_compare (hpos : pos ≤ frame.length) {snap : Bool}
    (h : compareMemory frame pos snap8021h = .ok snap) :
    (if snap then pos + 8 else pos) = headerAt frame pos := by
  unfold headerAt
  by_cases hshort : frame.length < pos + snap8021h.length
  · rcases compareMemory_short hpos hshort with ⟨_, hends⟩ | ⟨_, hok⟩
    · exact absurd ⟨snap, h⟩ hends
    · rw [hok] at h
      cases h
      rw [if_neg (by decide), if_neg]
      intro heq
      have hlen := congrArg List.length heq
      rw [slice, List.length_take, List.length_drop] at hlen
      omega
  · rw [compareMemory_ok (by omega)] at h
    cases h
    simp only [decide_eq_true_eq]

variable {env : Env} {d : Rtapd} {node datalen : Nat} {ethertype : U16}

theorem dispatchFrame_ends {buf : Nat} (hheader : buf + 4 ≤ frame.length) :
    Ends (dispatchFrame env frame buf datalen node d) ↔
      (frame.getD (buf + 1) 0 = ieee8021xTypeEapPacket → sizeofEapHdr ≤ datalen →
        ∀ s, d.sta node = some s → PacketFits frame (buf + 4) datalen s.eapolSm.currentId) := by
  rw [dispatchFrame, ends_loadByte]
  by_cases htype : frame.getD (buf + 1) 0 = ieee8021xTypeEapPacket
  · rw [if_pos htype]
    cases hsta : d.sta node with
    | none => exact ⟨fun _ _ _ _ => nofun, fun _ => ⟨by omega, ends_pure none⟩⟩
    | some s =>
      dsimp only
      constructor
      · rintro ⟨_, hends⟩ _ hpacket s' hs'
        cases hs'
        obtain ⟨s', hs', _⟩ := ends_bind.mp hends
        exact handleEap_ends.mp ⟨s', hs'⟩ hpacket
      · intro h
        obtain ⟨s', hs'⟩ := handleEap_ends.mpr fun hpacket => h htype hpacket s rfl
        refine ⟨by omega, ?_⟩
        rw [bind_ok hs']
        exact ends_pure _
  · rw [if_neg htype]
    refine ⟨fun _ h => absurd h htype, fun _ => ⟨by omega, ?_⟩⟩
    split
    · exact ends_pure _
    · split
      · exact ends_pure _
      · exact ends_pure _

theorem receiveFrom_ends (hpos : pos ≤ frame.length) (hlong : frame.length < 2 ^ 32)
    (htype : ethertype = ethPPae ∨ ethertype = ethPPreAuth) :
    Ends (receiveFrom env frame pos (frame.length - pos) ethertype node d) ↔
      HeaderFits frame pos ∧ ∀ s, d.sta node = some s → EapFits frame pos s.eapolSm.currentId := by
  have hafter := le_headerAt frame pos
  have hknown : ¬(ethertype ≠ ethPPae ∧ ethertype ≠ ethPPreAuth) := fun h =>
    htype.elim h.1 h.2
  rw [receiveFrom]
  constructor
  · intro h
    obtain ⟨snap, hsnap, hrest⟩ := ends_bind.mp h
    dsimp only at hrest
    rw [header_of_compare hpos hsnap] at hrest
    obtain ⟨hroom, hrest⟩ := ends_loadWord.mp hrest
    have hheader : headerAt frame pos + 4 ≤ frame.length := hroom
    refine ⟨⟨(compare_snap hpos).mp ⟨snap, hsnap⟩, hheader⟩, fun s hs ha => ?_⟩
    have hleft : sizeSub (frame.length - pos) 4 = frame.length - pos - 4 :=
      sizeSub_of_le (by omega) (by omega)
    have hlength := ha.length
    have hversion : ¬(frame.getD (headerAt frame pos) 0 ≠ 1 ∧
        frame.getD (headerAt frame pos) 0 ≠ 2) := fun h => ha.version.elim h.1 h.2
    rw [hleft, if_neg (by omega), if_neg hknown, ends_loadByte, if_neg hversion] at hrest
    exact (dispatchFrame_ends hheader).mp hrest.2 ha.type ha.packet s hs
  · rintro ⟨⟨hsnap, hheader⟩, hpacket⟩
    obtain ⟨snap, hok⟩ := (compare_snap hpos).mpr hsnap
    have hleft : sizeSub (frame.length - pos) 4 = frame.length - pos - 4 :=
      sizeSub_of_le (by omega) (by omega)
    rw [bind_ok hok]
    dsimp only
    rw [header_of_compare hpos hok]
    refine ends_loadWord.mpr ⟨hheader, ?_⟩
    rw [hleft, if_neg hknown]
    split
    · exact ends_pure _
    · rename_i hlength
      refine ends_loadByte.mpr ⟨by omega, ?_⟩
      split
      · exact ends_pure _
      · rename_i hversion
        apply (dispatchFrame_ends hheader).mpr
        intro heap hdata s hs
        apply hpacket s hs
        refine ⟨by omega, ?_, heap, hdata⟩
        by_cases hone : frame.getD (headerAt frame pos) 0 = 1
        · exact .inl hone
        · exact .inr (Classical.not_not.mp fun htwo => hversion ⟨hone, htwo⟩)

/-! ### The record -/

def outerType (frame : List U8) : U16 := BitVec.ofNat 16 (ntohs frame 12)

def frameType (frame : List U8) : U16 :=
  if outerType frame = ethPVlan ∧ sizeofPrivRec + 4 ≤ frame.length then
    BitVec.ofNat 16 (ntohs frame (sizeofPrivRec + 2))
  else outerType frame

def payloadAt (frame : List U8) : Nat :=
  if outerType frame = ethPVlan then sizeofPrivRec + 4 else sizeofPrivRec

def IsCommand (frame : List U8) (pos : Nat) : Prop :=
  frame.length - pos = ralinkIe.length ∧ slice frame pos 5 = ralinkIe.take 5

instance decidableIsCommand (frame : List U8) (pos : Nat) : Decidable (IsCommand frame pos) :=
  inferInstanceAs (Decidable (_ ∧ _))

/-- The frame goes to `ieee802_1x_receive`, for an interface. -/
structure Delivered (bss : List Bss) (frame : List U8) (apIdx : Nat) : Prop where
  long : sizeofPrivRec < frame.length
  type : frameType frame = ethPPae ∨ frameType frame = ethPPreAuth
  own : (bss.findIdx? fun b => addrAt frame 0 = b.ownAddr) = some apIdx
  command : ¬IsCommand frame (payloadAt frame)

theorem isCommand_ok (hpos : pos ≤ frame.length) :
    isCommand frame pos (frame.length - pos) = .ok (decide (IsCommand frame pos)) := by
  unfold isCommand
  by_cases hleft : frame.length - pos = ralinkIe.length
  · have hnine : ralinkIe.length = 9 := rfl
    have hfive : (ralinkIe.take 5).length = 5 := rfl
    rw [if_pos hleft, compareMemory_ok (by omega), hfive]
    by_cases hsame : slice frame pos 5 = ralinkIe.take 5
    · rw [decide_eq_true hsame, decide_eq_true (show IsCommand frame pos from ⟨hleft, hsame⟩)]
    · rw [decide_eq_false hsame, decide_eq_false fun h => hsame h.2]
  · rw [if_neg hleft, decide_eq_false fun h => hleft h.1]
    rfl

theorem findInterface_ok (hlong : 6 ≤ frame.length) (bss : List Bss) (i : Nat) :
    findInterface frame bss i =
      .ok ((bss.findIdx? fun b => addrAt frame 0 = b.ownAddr).map (· + i)) := by
  induction bss generalizing i with
  | nil => rfl
  | cons b bss ih =>
    rw [findInterface, bind_ok (loadAddr_ok hlong), List.findIdx?_cons]
    by_cases hown : addrAt frame 0 = b.ownAddr
    · rw [if_pos hown, if_pos (decide_eq_true hown), Option.map_some, Nat.zero_add]
      rfl
    · rw [if_neg hown, if_neg (by rw [decide_eq_true_eq]; exact hown), ih, Option.map_map]
      congr 3
      funext k
      dsimp only [Function.comp]
      omega

variable {conf : Config} {apIdx : Nat} {sock : Int} {aid : U16}

def StationFits (env : Env) (sock : Int) (aid : U16) (d : Rtapd) (frame : List U8) (apIdx : Nat) :
    Prop :=
  ∀ node found made,
    apGetSta env d (addrAt frame 6) apIdx (frameType frame) sock aid =
      some (some node, found, made) →
    HeaderFits frame (payloadAt frame) ∧
      ∀ s, found.sta node = some s → EapFits frame (payloadAt frame) s.eapolSm.currentId

theorem ieee8021xReceive_ends (hlong : sizeofPrivRec ≤ frame.length)
    (hpos : payloadAt frame ≤ frame.length) (hsize : frame.length < 2 ^ 32)
    (htype : frameType frame = ethPPae ∨ frameType frame = ethPPreAuth) :
    Ends (ieee8021xReceive env frame (payloadAt frame) (frame.length - payloadAt frame) apIdx
      (frameType frame) sock aid d) ↔ StationFits env sock aid d frame apIdx := by
  unfold sizeofPrivRec at hlong
  rw [ieee8021xReceive, bind_ok (loadAddr_ok (by omega)), StationFits]
  cases hsta : apGetSta env d (addrAt frame 6) apIdx (frameType frame) sock aid with
  | none => exact ⟨fun _ _ _ _ => nofun, fun _ => ends_pure none⟩
  | some found =>
    obtain ⟨node, found, made⟩ := found
    cases node with
    | none => exact ⟨fun _ _ _ _ => nofun, fun _ => ends_pure _⟩
    | some node =>
      dsimp only
      constructor
      · intro h node' found' made' heq
        cases heq
        obtain ⟨received, hreceived, _⟩ := ends_bind.mp h
        exact (receiveFrom_ends hpos hsize htype).mp ⟨received, hreceived⟩
      · intro h
        obtain ⟨received, hreceived⟩ :=
          (receiveFrom_ends hpos hsize htype).mpr (h node found made rfl)
        rw [bind_ok hreceived]
        exact ends_pure _

theorem internalCommand_ends (hlong : sizeofPrivRec ≤ frame.length) (h : IsCommand frame pos) :
    Ends (internalCommand conf frame pos d) := by
  have hnine : frame.length - pos = 9 := h.1
  unfold sizeofPrivRec at hlong
  rw [internalCommand]
  refine ends_loadByte.mpr ⟨by omega, ?_⟩
  split
  · rw [bind_ok (loadAddr_ok (by omega))]
    exact ends_pure _
  · split
    · exact ends_pure _
    · exact ends_pure _

theorem handlePayload_ends (hlong : sizeofPrivRec ≤ frame.length)
    (hpos : payloadAt frame ≤ frame.length) (hsize : frame.length < 2 ^ 32)
    (htype : frameType frame = ethPPae ∨ frameType frame = ethPPreAuth) :
    Ends (handlePayload env conf frame (payloadAt frame) (frame.length - payloadAt frame) apIdx
      (frameType frame) sock aid d) ↔
      (¬IsCommand frame (payloadAt frame) → StationFits env sock aid d frame apIdx) := by
  rw [handlePayload, bind_ok (isCommand_ok hpos)]
  by_cases hcommand : IsCommand frame (payloadAt frame)
  · rw [if_pos (decide_eq_true hcommand)]
    exact ⟨fun _ h => absurd hcommand h, fun _ => internalCommand_ends hlong hcommand⟩
  · rw [if_neg (by rw [decide_eq_true_eq]; exact hcommand),
      ieee8021xReceive_ends hlong hpos hsize htype]
    exact ⟨fun h _ => h, fun h => h hcommand⟩

def ReadFits (env : Env) (sock : Int) (aid : U16) (d : Rtapd) (frame : List U8) : Prop :=
  sizeofPrivRec ≤ frame.length ∧
    ∀ apIdx, Delivered d.conf.bss frame apIdx → StationFits env sock aid d frame apIdx

theorem innerType_ok (hlong : sizeofPrivRec < frame.length) :
    innerType frame (frame.length - sizeofPrivRec) (outerType frame) = .ok (frameType frame) := by
  unfold innerType frameType
  by_cases hvlan : outerType frame = ethPVlan ∧ sizeofPrivRec + 4 ≤ frame.length
  · rw [if_pos ⟨hvlan.1, by omega⟩, if_pos hvlan, bind_ok (loadWord_ok (by omega))]
    rfl
  · rw [if_neg (fun h => hvlan ⟨h.1, by omega⟩), if_neg hvlan]
    rfl

theorem payloadAt_le (hlong : sizeofPrivRec < frame.length)
    (htype : frameType frame = ethPPae ∨ frameType frame = ethPPreAuth) :
    payloadAt frame ≤ frame.length := by
  unfold payloadAt
  split
  · rename_i hvlan
    by_contra hshort
    unfold frameType at htype
    rw [if_neg (by omega), hvlan] at htype
    rcases htype with htype | htype
    · exact absurd htype (by decide)
    · exact absurd htype (by decide)
  · omega

theorem handlePayload_eq (hlong : sizeofPrivRec < frame.length) (hsize : frame.length < 2 ^ 32)
    (htype : frameType frame = ethPPae ∨ frameType frame = ethPPreAuth) :
    (if outerType frame = ethPVlan then
      handlePayload env conf frame (sizeofPrivRec + 4)
        (sizeSub (frame.length - sizeofPrivRec) 4) apIdx (frameType frame) sock aid d
    else handlePayload env conf frame sizeofPrivRec (frame.length - sizeofPrivRec) apIdx
      (frameType frame) sock aid d) =
      handlePayload env conf frame (payloadAt frame) (frame.length - payloadAt frame) apIdx
        (frameType frame) sock aid d := by
  have hpos := payloadAt_le hlong htype
  unfold payloadAt at hpos ⊢
  by_cases hvlan : outerType frame = ethPVlan
  · rw [if_pos hvlan] at hpos
    rw [if_pos hvlan, if_pos hvlan, sizeSub_of_le (by omega) (by omega), Nat.sub_sub]
  · rw [if_neg hvlan, if_neg hvlan]

theorem handleRead_ends (hsize : frame.length < 2 ^ 32) :
    Ends (handleRead env conf sock aid d frame) ↔ ReadFits env sock aid d frame := by
  unfold handleRead
  dsimp only
  by_cases hshort : frame.length < sizeofPrivRec
  · have hleft : sizeSub frame.length sizeofPrivRec ≠ 0 := by
      unfold sizeSub sizeofPrivRec
      unfold sizeofPrivRec at hshort
      omega
    rw [if_neg hleft, ends_loadWord]
    unfold sizeofPrivRec at hshort
    constructor
    · rintro ⟨hroom, _⟩
      omega
    · rintro ⟨hlong, _⟩
      unfold sizeofPrivRec at hlong
      omega
  · have hleft : sizeSub frame.length sizeofPrivRec = frame.length - sizeofPrivRec :=
      sizeSub_of_le (by omega) hsize
    rw [hleft]
    by_cases hempty : frame.length - sizeofPrivRec = 0
    · rw [if_pos hempty]
      refine ⟨fun _ => ⟨by omega, fun apIdx hdel => ?_⟩, fun _ => ends_pure _⟩
      have := hdel.long
      omega
    · have hlong : sizeofPrivRec < frame.length := by omega
      have hword : 12 + 2 ≤ frame.length := Nat.le_of_lt hlong
      have houter : BitVec.ofNat 16 (ntohs frame 12) = outerType frame := rfl
      rw [if_neg hempty, bind_ok (loadWord_ok hword), houter, bind_ok (innerType_ok hlong)]
      by_cases htype : frameType frame = ethPPae ∨ frameType frame = ethPPreAuth
      · rw [if_neg fun h => htype.elim h.2 h.1, bind_ok (findInterface_ok (by omega) _ _)]
        cases hown : d.conf.bss.findIdx? fun b => addrAt frame 0 = b.ownAddr with
        | none =>
          refine ⟨fun _ => ⟨by omega, fun apIdx hdel => ?_⟩, fun _ => ends_pure _⟩
          rw [hdel.own] at hown
          cases hown
        | some apIdx =>
          dsimp only [Option.map_some, Nat.add_zero]
          rw [handlePayload_eq hlong hsize htype,
            handlePayload_ends (by omega) (payloadAt_le hlong htype) hsize htype]
          constructor
          · intro h
            refine ⟨by omega, fun apIdx' hdel => ?_⟩
            have hsame : some apIdx = some apIdx' := hown.symm.trans hdel.own
            cases hsame
            exact h hdel.command
          · rintro ⟨_, h⟩ hcommand
            exact h apIdx ⟨hlong, htype, hown, hcommand⟩
      · have hother : frameType frame ≠ ethPPreAuth ∧ frameType frame ≠ ethPPae :=
          ⟨fun h => htype (.inr h), fun h => htype (.inl h)⟩
        rw [if_pos hother]
        exact ⟨fun _ => ⟨by omega, fun apIdx hdel => absurd hdel.type htype⟩, fun _ => ends_pure _⟩

end OpenwrtMtk.Dot1x.Access
