import OpenwrtMtk.Dot1x.FrameInBounds
import OpenwrtMtk.Dot1x.StationTable
import OpenwrtMtk.Dot1x.Unverified

/-!
# What is stored of a frame

The packet and the identity that a station stores are slices of the frame, or what it had stored
before; the machines leave both alone.
-/

namespace OpenwrtMtk.Dot1x.Access

open Toolkit

set_option autoImplicit false

def SliceOf (frame v : List U8) : Prop := ∃ off n, off + n ≤ frame.length ∧ v = slice frame off n

/-- A station with what it has stored before, or slices of the frame. -/
structure StoredFrom (frame : List U8) (s s' : Sta) : Prop where
  node : s'.node = s.node
  eap : ∀ v, s'.lastEapSupp = some v → SliceOf frame v ∨ s.lastEapSupp = some v
  identity : ∀ v, s'.identity = some v → SliceOf frame v ∨ s.identity = some v

def Stores (frame : List U8) (d : Rtapd) (_ : List Effect) (d' : Rtapd) : Prop :=
  ∀ s' ∈ d'.staList, (∀ v, s'.lastEapSupp = some v → SliceOf frame v ∨
      ∃ s ∈ d.staList, s.node = s'.node ∧ s.lastEapSupp = some v) ∧
    ∀ v, s'.identity = some v → SliceOf frame v ∨
      ∃ s ∈ d.staList, s.node = s'.node ∧ s.identity = some v

variable {frame : List U8} {env : Env} {d d' : Rtapd} {effects : List Effect} {node : Nat}

theorem StoredFrom.refl (s : Sta) : StoredFrom frame s s :=
  ⟨rfl, fun _ hv => .inr hv, fun _ hv => .inr hv⟩

theorem stores_of (h : ∀ s' ∈ d'.staList, ∃ s ∈ d.staList, StoredFrom frame s s') :
    Stores frame d effects d' := by
  intro s' hs'
  obtain ⟨s, hs, hfrom⟩ := h s' hs'
  constructor
  · intro v hv
    rcases hfrom.eap v hv with hslice | hold
    · exact .inl hslice
    · exact .inr ⟨s, hs, hfrom.node.symm, hold⟩
  · intro v hv
    rcases hfrom.identity v hv with hslice | hold
    · exact .inl hslice
    · exact .inr ⟨s, hs, hfrom.node.symm, hold⟩

theorem stores_of_subset (h : d'.staList ⊆ d.staList) : Stores frame d effects d' :=
  stores_of fun s' hs' => ⟨s', h hs', .refl s'⟩

theorem composes_stores : Composes (Stores frame) where
  nothing d := stores_of_subset (List.Subset.refl d.staList)
  step := by
    intro d mid d' _ _ h h' s' hs'
    constructor
    · intro v hv
      rcases (h' s' hs').1 v hv with hslice | ⟨s, hs, hnode, hold⟩
      · exact .inl hslice
      · rw [← hnode]
        exact (h s hs).1 v hold
    · intro v hv
      rcases (h' s' hs').2 v hv with hslice | ⟨s, hs, hnode, hold⟩
      · exact .inl hslice
      · rw [← hnode]
        exact (h s hs).2 v hold

theorem stores_setSta {f : Sta → Sta} (h : ∀ s, StoredFrom frame s (f s)) :
    Stores frame d effects (d.setSta node f) := by
  apply stores_of
  intro s' hs'
  obtain ⟨s, hs, rfl⟩ := List.mem_map.mp hs'
  refine ⟨s, hs, ?_⟩
  split
  · exact h s
  · exact .refl s

theorem stores_replace {s s' : Sta} (hs : d.sta node = some s) (h : StoredFrom frame s s') :
    Stores frame d effects (d.setSta node fun _ => s') := by
  apply stores_of
  intro t' ht'
  obtain ⟨t, ht, rfl⟩ := List.mem_map.mp ht'
  split
  · exact ⟨s, List.mem_of_find?_eq_some hs, h⟩
  · exact ⟨t, ht, .refl t⟩

/-! ### The machines -/

theorem listAdd_staList (o : SendOracle) (d : Rtapd) (serial : Nat) (msg : RadiusMsg)
    (secret : List U8) (apIdx : Nat) :
    (radiusClientListAdd o d serial msg secret apIdx).staList = d.staList := by
  unfold radiusClientListAdd
  split
  · dsimp only
    split
    · rfl
    · rfl
  · rfl

theorem encapsulate_stores (d : Rtapd) :
    Meets (Stores frame) d (ieee8021xEncapsulateRadius env node d) := by
  apply meets_bind
  intro s _
  apply meets_bind
  intro bss _
  apply meets_bind
  intro taken _
  have htaken : Stores frame { d with radius := taken.2 } [.identifier d node taken.1]
      ({ d with radius := taken.2 }.setSta node fun s =>
        { s with radiusIdentifier := taken.1.toNat }) :=
    stores_setSta fun s => ⟨rfl, fun _ hv => .inr hv, fun _ hv => .inr hv⟩
  dsimp only
  split
  · exact meets_some.mpr htaken
  · apply meets_andThen composes_stores (meets_some.mpr htaken)
    intro d' _ _
    apply meets_bind
    intro secret _
    apply meets_map
    intro finished _
    apply stores_of_subset
    dsimp only
    rw [listAdd_staList]
    exact List.Subset.refl _

theorem runAction_stores (d : Rtapd) (a : Action) :
    Meets (Stores frame) d (runAction env node d a) := by
  have hsame : ∀ effects, Stores frame d effects d :=
    fun _ => stores_of_subset (List.Subset.refl d.staList)
  apply meets_bind
  intro s _
  cases a with
  | txCannedFail id => exact meets_some.mpr (hsame _)
  | txCannedSuccess id => exact meets_some.mpr (hsame _)
  | txInitialMsg id =>
    exact meets_some.mpr (stores_setSta fun s =>
      ⟨rfl, fun _ hv => .inr hv, fun _ hv => .inr hv⟩)
  | txReq id =>
    apply meets_result
    unfold ieee8021xTxReq
    cases s.lastEapRadius with
    | none => exact hsame _
    | some eap =>
      exact stores_setSta fun s => ⟨rfl, fun _ hv => .inr hv, fun _ hv => .inr hv⟩
  | sendRespToServer => exact encapsulate_stores d
  | txKey id => exact meets_result (hsame _)
  | setPortAuthorized authSuccess => exact meets_result (hsame _)
  | setPortUnauthorized => exact meets_some.mpr (hsame _)

theorem runActions_stores (actions : List Action) (d : Rtapd) :
    Meets (Stores frame) d (runActions env node actions d) := by
  induction actions generalizing d with
  | nil => exact meets_some.mpr (composes_stores.nothing d)
  | cons a actions ih =>
    apply meets_andThen composes_stores (runAction_stores d a)
    intro d' _ _
    exact ih d'

theorem stores_after {r : Outcome} (hedit : Stores frame d [] d') (h : Meets (Stores frame) d' r) :
    Meets (Stores frame) d r := by
  intro d'' effects heq
  have hboth := composes_stores.step hedit (h d'' effects heq)
  rwa [List.nil_append] at hboth

theorem setSm_stores (d : Rtapd) (node : Nat) (f : EapolStateMachine → EapolStateMachine) :
    Stores frame d effects (d.setSm node f) :=
  stores_setSta fun _ => ⟨rfl, fun _ hv => .inr hv, fun _ hv => .inr hv⟩

theorem stepSta_stores (d : Rtapd) : Meets (Stores frame) d (stepSta env node d) := by
  apply meets_bind
  intro s _
  apply meets_bind
  intro entered _
  exact stores_after (setSm_stores d node _) (runActions_stores entered.2 _)

/-! ### The packet -/

theorem handleEapResponse_stored {s s' : Sta} {eap len : Nat}
    (h : handleEapResponse s frame eap len = .ok s') : StoredFrom frame s s' := by
  rw [handleEapResponse] at h
  obtain ⟨identifier, _, h⟩ := bind_eq_ok.mp h
  split at h
  · cases h
    exact .refl s
  · split at h
    · cases h
      exact .refl s
    · obtain ⟨header, hheader, h⟩ := bind_eq_ok.mp h
      obtain ⟨data, hdata, h⟩ := bind_eq_ok.mp h
      obtain ⟨type, _, h⟩ := bind_eq_ok.mp h
      obtain ⟨_, rfl⟩ := loadIn_eq_ok.mp hheader
      obtain ⟨hroom, rfl⟩ := loadIn_eq_ok.mp hdata
      have hpacket : SliceOf frame (slice frame eap sizeofEapHdr ++
          slice frame (eap + sizeofEapHdr) len) :=
        ⟨eap, sizeofEapHdr + len, by omega, (slice_add frame eap sizeofEapHdr len).symm⟩
      dsimp only at h
      split at h
      · obtain ⟨identity, hidentity, h⟩ := bind_eq_ok.mp h
        obtain ⟨hin, rfl⟩ := loadIn_eq_ok.mp hidentity
        cases h
        refine ⟨rfl, ?_, ?_⟩
        · intro v hv
          cases hv
          exact .inl hpacket
        · intro v hv
          cases hv
          exact .inl ⟨_, _, hin.2, rfl⟩
      · cases h
        refine ⟨rfl, ?_, fun _ hv => .inr hv⟩
        intro v hv
        cases hv
        exact .inl hpacket

theorem handleEap_stored {s s' : Sta} {buf len : Nat} (h : handleEap s frame buf len = .ok s') :
    StoredFrom frame s s' := by
  unfold handleEap at h
  split at h
  · cases h
    exact .refl s
  · obtain ⟨eapLen, _, h⟩ := bind_eq_ok.mp h
    split at h
    · cases h
      exact .refl s
    · split at h
      · cases h
        exact .refl s
      · obtain ⟨code, _, h⟩ := bind_eq_ok.mp h
        split at h
        · exact handleEapResponse_stored h
        · cases h
          exact .refl s

/-! ### The frame -/

variable {pos left apIdx datalen : Nat} {ethertype aid : U16} {sock : Int} {conf : Config}
  {out : Outcome}

theorem dispatchFrame_stores {buf : Nat}
    (h : dispatchFrame env frame buf datalen node d = .ok out) : Meets (Stores frame) d out := by
  rw [dispatchFrame] at h
  obtain ⟨type, _, h⟩ := bind_eq_ok.mp h
  have htwice : ∀ f, Meets (Stores frame) d
      (andThen (stepSta env node (d.setSm node f)) (stepSta env node)) := fun f =>
    meets_andThen composes_stores (stores_after (setSm_stores d node f) (stepSta_stores _))
      fun d' _ _ => stepSta_stores d'
  split at h
  · cases hsta : d.sta node with
    | none =>
      rw [hsta] at h
      cases h
      exact meets_none
    | some s =>
      rw [hsta] at h
      obtain ⟨s', hs', h⟩ := bind_eq_ok.mp h
      cases h
      exact stores_after (stores_replace hsta (handleEap_stored hs')) (stepSta_stores _)
  · split at h
    · cases h
      exact htwice _
    · split at h
      · cases h
        exact htwice _
      · cases h
        exact stepSta_stores d

theorem receiveFrom_stores (h : receiveFrom env frame pos left ethertype node d = .ok out) :
    Meets (Stores frame) d out := by
  have hsame : Meets (Stores frame) d (some (d, [])) := meets_some.mpr (composes_stores.nothing d)
  rw [receiveFrom] at h
  obtain ⟨snap, _, h⟩ := bind_eq_ok.mp h
  obtain ⟨datalen, _, h⟩ := bind_eq_ok.mp h
  split at h
  · cases h
    exact hsame
  · split at h
    · cases h
      exact hsame
    · obtain ⟨version, _, h⟩ := bind_eq_ok.mp h
      split at h
      · cases h
        exact hsame
      · exact dispatchFrame_stores h

theorem addSta_stores (d : Rtapd) (sa : Mac) (apIdx : Nat) (ethertype : U16) (sock : Int)
    (aid : U16) : Meets (Stores frame) d (addSta env d sa apIdx ethertype sock aid) := by
  apply meets_bind
  intro entered _
  have hlisted : Stores frame d [] (listed d (newSta d sa apIdx ethertype sock aid entered.1)) := by
    intro s' hs'
    rcases List.mem_cons.mp hs' with rfl | hs'
    · exact ⟨fun _ => nofun, fun _ => nofun⟩
    · exact ⟨fun _ hv => .inr ⟨s', hs', rfl, hv⟩, fun _ hv => .inr ⟨s', hs', rfl, hv⟩⟩
  apply stores_after hlisted
  apply meets_andThen composes_stores (runActions_stores entered.2 _)
  intro d' _ _
  exact meets_some.mpr (setSm_stores d' d.nodes _)

theorem apGetSta_stores {sa : Mac} {found : Option Nat}
    (h : apGetSta env d sa apIdx ethertype sock aid = some (found, d', effects)) :
    Stores frame d effects d' := by
  unfold apGetSta at h
  split at h
  · cases h
  · cases h
    exact composes_stores.nothing d
  · split at h
    · cases h
      exact composes_stores.nothing d
    · obtain ⟨⟨d'', effects'⟩, hadd, heq⟩ := Option.map_eq_some_iff.mp h
      cases heq
      exact addSta_stores d sa apIdx ethertype sock aid _ _ hadd

theorem ieee8021xReceive_stores
    (h : ieee8021xReceive env frame pos left apIdx ethertype sock aid d = .ok out) :
    Meets (Stores frame) d out := by
  rw [ieee8021xReceive] at h
  obtain ⟨sa, _, h⟩ := bind_eq_ok.mp h
  cases hsta : apGetSta env d sa apIdx ethertype sock aid with
  | none =>
    rw [hsta] at h
    cases h
    exact meets_none
  | some found =>
    obtain ⟨node, d', made⟩ := found
    rw [hsta] at h
    have hmade : Stores frame d made d' := apGetSta_stores hsta
    cases node with
    | none =>
      cases h
      exact meets_some.mpr hmade
    | some node =>
      obtain ⟨received, hreceived, h⟩ := bind_eq_ok.mp h
      cases h
      exact meets_andThen composes_stores (meets_some.mpr hmade) fun s' log heq => by
        cases heq
        exact receiveFrom_stores hreceived

theorem apFreeSta_subset (h : apFreeSta d node = some d') : d'.staList ⊆ d.staList := by
  obtain ⟨s, _, hrest⟩ := Option.bind_eq_some_iff.mp h
  obtain ⟨mid, hmid, rfl⟩ := Option.map_eq_some_iff.mp hrest
  obtain ⟨chain, _, rfl⟩ := Option.map_eq_some_iff.mp hmid
  exact List.filter_subset_self _

theorem apdFreeStas_subset {nodes : List Nat} (h : apdFreeStas nodes d = some d') :
    d'.staList ⊆ d.staList := by
  induction nodes generalizing d with
  | nil =>
    cases h
    exact List.Subset.refl _
  | cons node nodes ih =>
    obtain ⟨mid, hfree, hrest⟩ := Option.bind_eq_some_iff.mp h
    exact List.Subset.trans (ih hrest) (apFreeSta_subset hfree)

theorem internalCommand_stores (h : internalCommand conf frame pos d = .ok out) :
    Meets (Stores frame) d out := by
  rw [internalCommand] at h
  obtain ⟨icmd, _, h⟩ := bind_eq_ok.mp h
  split at h
  · obtain ⟨sa, _, h⟩ := bind_eq_ok.mp h
    cases h
    apply meets_map
    intro d' hd'
    apply stores_of_subset
    unfold disconnectEntry at hd'
    split at hd'
    · cases hd'
    · cases hd'
      exact List.Subset.refl _
    · exact apFreeSta_subset hd'
  · split at h
    · cases h
      apply meets_map
      intro d' hd'
      apply stores_of_subset
      obtain ⟨mid, hmid, rfl⟩ := Option.map_eq_some_iff.mp hd'
      have hsub := apdFreeStas_subset hmid
      exact hsub
    · cases h
      exact meets_some.mpr (composes_stores.nothing d)

theorem handlePayload_stores
    (h : handlePayload env conf frame pos left apIdx ethertype sock aid d = .ok out) :
    Meets (Stores frame) d out := by
  rw [handlePayload] at h
  obtain ⟨command, _, h⟩ := bind_eq_ok.mp h
  split at h
  · exact internalCommand_stores h
  · exact ieee8021xReceive_stores h

theorem handleRead_stores (h : handleRead env conf sock aid d frame = .ok out) :
    Meets (Stores frame) d out := by
  have hsame : Meets (Stores frame) d (some (d, [])) := meets_some.mpr (composes_stores.nothing d)
  unfold handleRead at h
  dsimp only at h
  split at h
  · cases h
    exact hsame
  · obtain ⟨outer, _, h⟩ := bind_eq_ok.mp h
    obtain ⟨ethertype, _, h⟩ := bind_eq_ok.mp h
    split at h
    · cases h
      exact hsame
    · obtain ⟨apIdx, _, h⟩ := bind_eq_ok.mp h
      cases apIdx with
      | none =>
        cases h
        exact hsame
      | some apIdx =>
        dsimp only at h
        split at h
        · exact handlePayload_stores h
        · exact handlePayload_stores h

/-- A frame is read inside its bytes, and what is stored of it are slices of them, if and only if
its record header is there and the headers and the packet that its station reads are. -/
theorem eapol_frames_read_in_bounds (env : Env) (conf : Config) (sock : Int) (aid : U16)
    (d : Rtapd) {frame : List U8} (hlen : frame.length ≤ 3000) :
    (∃ out, handleRead env conf sock aid d frame = .ok out ∧ Meets (Stores frame) d out) ↔
      ReadFits env sock aid d frame := by
  have hends : Ends (handleRead env conf sock aid d frame) ↔ ReadFits env sock aid d frame :=
    handleRead_ends (by omega)
  rw [← hends]
  constructor
  · rintro ⟨out, hout, _⟩
    exact ⟨out, hout⟩
  · rintro ⟨out, hout⟩
    exact ⟨out, hout, handleRead_stores hout⟩

def eapolRecord (payload : List U8) : List U8 :=
  [2, 0, 0, 0, 0, 1] ++ [2, 0, 0, 0, 1, 7] ++ [0x88, 0x8e] ++ payload

/-- The identity of a station, in a packet that counts `length` bytes. -/
def identityPayload (length : U8) : List U8 :=
  [1, 0, 0, length] ++ [eapCodeResponse, 1, 0, length, eapTypeIdentity, 97]

def stationKnown : Rtapd :=
  { Rtapd.start oneServer with
    staList := [newSta (.start oneServer) (macOf 7) 0 ethPPae 0 1 (eapolSmDefaults 60 none)]
    staHash := fun h => if h = 7 then [0] else []
    numSta := 1
    nodes := 1 }

theorem eapol_frames_read_in_bounds_identity :
    ∃ out, handleRead plainEnv oneServer 0 1 stationKnown (eapolRecord (identityPayload 6)) = .ok out ∧
      Meets (Stores (eapolRecord (identityPayload 6))) stationKnown out := by
  apply (eapol_frames_read_in_bounds plainEnv oneServer 0 1 stationKnown (by decide)).mpr
  refine ⟨by decide, fun apIdx _ node found made hsta => ?_⟩
  have hheader : HeaderFits (eapolRecord (identityPayload 6))
      (payloadAt (eapolRecord (identityPayload 6))) := ⟨by decide, by decide⟩
  exact ⟨hheader, fun s _ _ => ⟨by decide, fun _ => by decide⟩⟩

def prefixedIdentity : List U8 :=
  eapolRecord (snap8021h ++ [0x88, 0x8e] ++ identityPayload 14)

/-- A record that is cut short is read beyond its end, and so is an identity behind the prefix. -/
theorem eapol_frames_may_be_overrun :
    ¬Ends (handleRead plainEnv oneServer 0 1 stationKnown (List.replicate 13 0)) ∧
      ¬Ends (handleRead plainEnv oneServer 0 1 stationKnown prefixedIdentity) := by
  constructor
  · intro h
    obtain ⟨hlong, _⟩ := (handleRead_ends (by decide)).mp h
    exact absurd hlong (by decide)
  · intro h
    obtain ⟨_, hstation⟩ := (handleRead_ends (by decide)).mp h
    have hdelivered : Delivered stationKnown.conf.bss prefixedIdentity 0 :=
      ⟨by decide, by decide, by decide, by decide⟩
    have hchain : findInChain stationKnown (addrAt prefixedIdentity 6)
        (stationKnown.staHash (staHash (addrAt prefixedIdentity 6))) = some (some 0) := by decide
    have hfound : apGetSta plainEnv stationKnown (addrAt prefixedIdentity 6) 0
        (frameType prefixedIdentity) 0 1 = some (some 0, stationKnown, []) := by
      rw [apGetSta, hchain]
    have hpacket := (hstation 0 hdelivered 0 stationKnown [] hfound).2 _ rfl
    have hannounces : Announces prefixedIdentity (headerAt prefixedIdentity
        (payloadAt prefixedIdentity)) (prefixedIdentity.length - payloadAt prefixedIdentity) :=
      ⟨by decide, by decide, by decide, by decide⟩
    have hroom := (hpacket hannounces).packet ⟨by decide, by decide, by decide, by decide⟩
    exact absurd hroom (by decide)

end OpenwrtMtk.Dot1x.Access
