import OpenwrtMtk.Dot1x.RadiusBuffer
import OpenwrtMtk.Lib.Field

/-!
# RADIUS messages on the wire

What a caller puts into a message is what `Radius_msg_parse` finds in its bytes. `Built` says what
a message under construction spells, however often its buffer has moved.
-/

namespace OpenwrtMtk.Dot1x.Raw

open Toolkit

set_option autoImplicit false

/-- The message is a header and attributes, one behind the other. -/
structure Spelled (m : Dot1x.RadiusMsg) (hdr : List U8) (as : List Item) : Prop where
  header : hdr.length = sizeofRadiusHdr
  buf : m.buf = hdr ++ tlvs as
  attrs : m.attrs = tlvStarts sizeofRadiusHdr as
  short : Short as

structure Built (p : RadiusMsg) (hdr : List U8) (as : List Item) : Prop where
  spelled : ∃ m, Lays p m ∧ Spelled m hdr as
  pos : 0 < p.bufSize

variable {heap heap' : Heap} {p : RadiusMsg} {m m' : Dot1x.RadiusMsg} {hdr : List U8}
  {as bs : List Item} {n : Nat}

theorem Spelled.length (h : Spelled m hdr as) :
    m.buf.length = sizeofRadiusHdr + (tlvs as).length := by
  rw [h.buf, List.length_append, h.header]

theorem Spelled.inside (h : Spelled m hdr as) {off : Nat} (hoff : off ∈ m.attrs) :
    off + m.attrLength off ≤ m.buf.length := by
  rw [h.attrs, ← h.header] at hoff
  have hin := tlvStarts_inside hdr [] h.short hoff
  rw [List.append_nil, ← h.buf, h.header, ← h.length] at hin
  exact hin

theorem Spelled.contents (h : Spelled m hdr as) :
    (m.attrs.map fun off => (m.attrType off, m.attrValue off)) = as := by
  have hread := map_tlvAt hdr [] h.short
  rw [List.append_nil, ← h.buf, h.header, ← h.attrs] at hread
  exact hread

theorem Spelled.addAttr {mem : Memory} {type : U8} {data : List U8} (h : Spelled m hdr as)
    (hdata : data.length ≤ radiusMaxAttrLen)
    (hadd : Dot1x.radiusMsgAddAttr mem m type data = some m') :
    Spelled m' hdr (as ++ [(type, data)]) where
  header := h.header
  buf := by
    rw [addAttr_buf hadd, h.buf, tlvs_append, List.append_assoc]
    simp [tlvs, tlv, sizeofRadiusAttrHdr]
  attrs := by
    rw [addAttr_attrs hadd, h.attrs, h.length, tlvStarts_append]
    rfl
  short := by
    apply h.short.append
    intro a ha
    rw [List.mem_singleton.mp ha]
    exact hdata

theorem Built.bytes (h : Built p hdr as) : p.bytes = hdr ++ tlvs as := by
  obtain ⟨m, hlays, hspelled⟩ := h.spelled
  rw [← hlays.buf, hspelled.buf]

theorem Built.used (h : Built p hdr as) : p.bufUsed = sizeofRadiusHdr + (tlvs as).length := by
  obtain ⟨m, hlays, hspelled⟩ := h.spelled
  rw [← hlays.length, hspelled.length]

theorem Lays.contents (h : Lays p m) (hspelled : Spelled m hdr as) : p.contents = as := by
  rw [← hspelled.contents, RadiusMsg.contents, h.attrs, List.map_map]
  apply List.map_congr_left
  intro off hoff
  have hin := h.inside off hoff
  unfold sizeofRadiusAttrHdr at hin
  have hend := hspelled.inside hoff
  rw [h.length] at hend
  exact Prod.ext (h.byte (by omega)) (h.attrValue (by omega) hend)

theorem Built.contents (h : Built p hdr as) : p.contents = as := by
  obtain ⟨m, hlays, hspelled⟩ := h.spelled
  exact hlays.contents hspelled

/-! ## Building -/

/-- Calls of `Radius_msg_add_attr`, one after the other. -/
def addAttrs (heap : Heap) : RadiusMsg → List Item → Option RadiusMsg
  | msg, [] => some msg
  | msg, (type, data) :: attrs =>
    (radiusMsgAddAttr heap msg type data).bind fun added => addAttrs heap added.2 attrs

def eapAttrs : Nat → List U8 → List Item
  | 0, _ => []
  | n + 1, data =>
    if data = [] then []
    else (radiusAttrEapMessage, data.take radiusMaxAttrLen) ::
      eapAttrs n (data.drop radiusMaxAttrLen)

def buildMsg (heap : Heap) (H : Digest) (code identifier : U8) (auth : List U8)
    (before : List Item) (eap : List U8) (after : List Item) (secret : Option (List U8)) :
    Option RadiusMsg :=
  (radiusMsgNew heap code identifier).bind fun msg =>
    (addAttrs heap (setAuthenticator msg auth) before).bind fun msg =>
      (radiusMsgAddEap heap msg eap).bind fun msg =>
        (addAttrs heap msg after).bind fun msg => radiusMsgFinish heap H msg secret

theorem Built.addAttr {type : U8} {data : List U8} (ha : heap.Ample) (h : Built p hdr as)
    (hdata : data.length ≤ radiusMaxAttrLen)
    (hmax : sizeofRadiusHdr + (tlvs (as ++ [(type, data)])).length ≤ 65535) :
    ∃ p', radiusMsgAddAttr heap p type data = some (p'.buf + BitVec.ofNat 32 p.bufUsed, p') ∧
      Built p' hdr (as ++ [(type, data)]) := by
  have hused := h.used
  obtain ⟨m, hlays, hspelled⟩ := h.spelled
  have hroom : p.bufUsed + sizeofRadiusAttrHdr + data.length ≤ 65535 := by
    rw [tlvs_append, List.length_append, tlvs_cons, tlvs_nil, List.append_nil, length_tlv] at hmax
    unfold sizeofRadiusAttrHdr
    dsimp only at hmax
    omega
  obtain ⟨attr, p', m', hp', hm', hlays', hpos, rfl⟩ := addAttr_lays ha hlays h.pos hdata hroom
  exact ⟨p', hp', ⟨m', hlays', hspelled.addAttr hdata hm'⟩, hpos⟩

theorem Built.addAttrs (ha : heap.Ample) (h : Built p hdr as) (hshort : Short bs)
    (hmax : sizeofRadiusHdr + (tlvs (as ++ bs)).length ≤ 65535) :
    ∃ p', Raw.addAttrs heap p bs = some p' ∧ Built p' hdr (as ++ bs) := by
  induction bs generalizing p as with
  | nil => exact ⟨p, rfl, by rwa [List.append_nil]⟩
  | cons b bs ih =>
    have hall : as ++ b :: bs = as ++ [b] ++ bs := by
      rw [List.append_assoc, List.singleton_append]
    rw [hall] at hmax ⊢
    have hfirst : sizeofRadiusHdr + (tlvs (as ++ [b])).length ≤ 65535 := by
      rw [tlvs_append (as ++ [b]), List.length_append] at hmax
      omega
    have hhead : b.2.length ≤ radiusMaxAttrLen := hshort.head
    obtain ⟨mid, hadd, hmid⟩ := h.addAttr ha hhead hfirst
    obtain ⟨p', hrest, hp'⟩ := ih hmid hshort.tail hmax
    refine ⟨p', ?_, hp'⟩
    rw [Raw.addAttrs, hadd, Option.bind_some]
    exact hrest

theorem Built.addEapFrom {data : List U8} (ha : heap.Ample) (h : Built p hdr as)
    (hmax : sizeofRadiusHdr + (tlvs (as ++ eapAttrs n data)).length ≤ 65535) :
    ∃ p', Raw.addEapFrom heap n p data = some p' ∧ Built p' hdr (as ++ eapAttrs n data) := by
  induction n generalizing p as data with
  | zero => exact ⟨p, rfl, by rwa [eapAttrs, List.append_nil]⟩
  | succ n ih =>
    rw [Raw.addEapFrom, eapAttrs]
    rw [eapAttrs] at hmax
    by_cases hdone : data = []
    · rw [if_pos hdone, if_pos hdone, List.append_nil]
      exact ⟨p, rfl, h⟩
    · rw [if_neg hdone] at hmax
      rw [if_neg hdone, if_neg hdone]
      have hall : as ++ (radiusAttrEapMessage, data.take radiusMaxAttrLen) ::
          eapAttrs n (data.drop radiusMaxAttrLen) =
          as ++ [(radiusAttrEapMessage, data.take radiusMaxAttrLen)] ++
            eapAttrs n (data.drop radiusMaxAttrLen) := by
        rw [List.append_assoc, List.singleton_append]
      rw [hall] at hmax ⊢
      have hfirst : sizeofRadiusHdr + (tlvs (as ++
          [(radiusAttrEapMessage, data.take radiusMaxAttrLen)])).length ≤ 65535 := by
        rw [tlvs_append (as ++ _), List.length_append] at hmax
        omega
      obtain ⟨mid, hadd, hmid⟩ := h.addAttr ha (List.length_take_le _ _) hfirst
      obtain ⟨p', hrest, hp'⟩ := ih hmid hmax
      refine ⟨p', ?_, hp'⟩
      rw [hadd, Option.bind_some]
      exact hrest

theorem built_new (ha : heap.Ample) (code id : U8) {auth : List U8} (hauth : auth.length = 16) :
    ∃ p, radiusMsgNew heap code id = some p ∧
      Built (setAuthenticator p auth) (code :: id :: 0 :: 0 :: auth) [] := by
  obtain ⟨p, m, hp, hm, hlays, hused, hsize⟩ := new_lays ha code id
  refine ⟨p, hp, ⟨_, setAuthenticator_lays hlays ?_, ?_⟩, ?_⟩
  · rw [hauth, hused]
    exact Nat.le_refl _
  · rw [Dot1x.radiusMsgNew, if_pos ample_msg, ample_initialize (by decide), Option.map_some] at hm
    cases hm
    have hfill : overwrite (overwrite (List.replicate sizeofRadiusHdr 0) 0 [code, id]) 4 auth =
        code :: id :: 0 :: 0 :: auth := by
      simp [overwrite, sizeofRadiusHdr, hauth, List.replicate]
    exact ⟨by simp [sizeofRadiusHdr, hauth], by rw [tlvs_nil, List.append_nil]; exact hfill, rfl,
      fun a h => by cases h⟩
  · exact Nat.lt_of_lt_of_eq (by decide) hsize.symm

theorem Built.stamp (h : Built p hdr as) {bytes : List U8} (hbytes : bytes.length = 2) :
    Built (p.write (p.hdr + 2) bytes) (overwrite hdr 2 bytes) as := by
  obtain ⟨m, hlays, hspelled⟩ := h.spelled
  have hlen := hspelled.length
  have hhdr := hspelled.header
  have hfits : 2 + bytes.length ≤ hdr.length := by
    rw [hhdr, hbytes]
    decide
  have hin : 2 + bytes.length ≤ p.bufUsed := by
    rw [← hlays.length, hlen, ← hhdr]
    exact Nat.le_add_right_of_le hfits
  have hw := hlays.write hin
  rw [← hlays.hdr] at hw
  refine ⟨⟨_, hw, ?_, ?_, hspelled.attrs, hspelled.short⟩, h.pos⟩
  · rw [length_overwrite hfits, hhdr]
  · dsimp only
    rw [hspelled.buf, overwrite_append_left _ hfits]

theorem Built.refill {type : U8} {old new : List U8} (h : Built p hdr (as ++ [(type, old)]))
    (hlen : new.length = old.length) {attr : U32}
    (hattr : attr = p.buf + BitVec.ofNat 32 (sizeofRadiusHdr + (tlvs as).length)) :
    Built (p.write (attr + BitVec.ofNat 32 sizeofRadiusAttrHdr) new) hdr
      (as ++ [(type, new)]) := by
  have hused := h.used
  obtain ⟨m, hlays, hspelled⟩ := h.spelled
  have hhdr := hspelled.header
  have hlast (bytes : List U8) : tlvs (as ++ [(type, bytes)]) =
      tlvs as ++ [type, BitVec.ofNat 8 (2 + bytes.length)] ++ bytes := by
    simp [tlvs_append, tlv]
  have hlast' : (tlvs (as ++ [(type, old)])).length = (tlvs as).length + 2 + old.length := by
    rw [hlast]
    simp
    omega
  have hin : sizeofRadiusHdr + (tlvs as).length + sizeofRadiusAttrHdr + new.length ≤ p.bufUsed := by
    rw [hused, hlast', hlen]
    unfold sizeofRadiusAttrHdr
    omega
  rw [hattr, add_ofNat]
  refine ⟨⟨_, hlays.write hin, hhdr, ?_, ?_, ?_⟩, h.pos⟩
  · dsimp only
    rw [hspelled.buf, hlast, hlast, hlen]
    have hplace : sizeofRadiusHdr + (tlvs as).length + sizeofRadiusAttrHdr =
        (hdr ++ (tlvs as ++ [type, BitVec.ofNat 8 (2 + old.length)])).length := by
      simp [hhdr, sizeofRadiusAttrHdr, Nat.add_assoc]
    rw [hplace]
    have hmiddle := overwrite_middle (hdr ++ (tlvs as ++ [type, BitVec.ofNat 8 (2 + old.length)]))
      old [] hlen
    simp only [List.append_nil, List.append_assoc] at hmiddle ⊢
    exact hmiddle
  · dsimp only
    rw [hspelled.attrs, tlvStarts_append, tlvStarts_append]
    rfl
  · intro a ha
    rcases List.mem_append.mp ha with ha | ha
    · exact hspelled.short a (List.mem_append_left _ ha)
    · rw [List.mem_singleton.mp ha]
      have hold := hspelled.short (type, old) (by simp)
      rwa [hlen]

theorem read_buf (msg : RadiusMsg) (n : Nat) : msg.read msg.buf n = msg.mem.take n := by
  rw [RadiusMsg.read, BitVec.sub_self]
  rfl

def macAttr (secret : Option (List U8)) (mac : List U8 → List U8) : List Item :=
  (secret.map fun key => (radiusAttrMessageAuthenticator, mac key)).toList

def unsigned (attrs : List Item) (secret : Option (List U8)) : List Item :=
  attrs ++ macAttr secret fun _ => List.replicate md5MacLen 0

theorem Built.finish {H : Digest} {secret : Option (List U8)} (ha : heap.Ample)
    (h : Built p hdr as)
    (hmax : sizeofRadiusHdr + (tlvs (unsigned as secret)).length ≤ 65535) :
    ∃ p' hdr', radiusMsgFinish heap H p secret = some p' ∧
      hdr' = overwrite hdr 2 (htons (sizeofRadiusHdr + (tlvs (unsigned as secret)).length)) ∧
      Built p' hdr' (as ++ macAttr secret fun key =>
        H.hmacMd5 key (hdr' ++ tlvs (unsigned as secret))) := by
  cases secret with
  | none =>
    refine ⟨_, _, rfl, rfl, ?_⟩
    unfold unsigned macAttr
    rw [Option.map_none, Option.map_none, Option.toList_none, List.append_nil, ← h.used]
    exact h.stamp rfl
  | some key =>
    have hshort : (List.replicate md5MacLen (0 : U8)).length ≤ radiusMaxAttrLen := by
      rw [List.length_replicate]
      decide
    obtain ⟨added, hadd, hadded⟩ := h.addAttr ha hshort hmax
    have hlength : (htons added.bufUsed).length = 2 := rfl
    have hstamped := hadded.stamp hlength
    have hmac : (H.hmacMd5 key (added.write (added.hdr + 2) (htons added.bufUsed)).bytes).length =
        (List.replicate md5MacLen (0 : U8)).length := by
      rw [H.length_hmacMd5, List.length_replicate]
      rfl
    have hplace : added.buf + BitVec.ofNat 32 p.bufUsed =
        added.buf + BitVec.ofNat 32 (sizeofRadiusHdr + (tlvs as).length) := by
      rw [h.used]
    have hfilled := hstamped.refill hmac hplace
    rw [hstamped.bytes] at hfilled
    refine ⟨_, overwrite hdr 2 (htons added.bufUsed), ?_, ?_, hfilled⟩
    · rw [radiusMsgFinish, hadd, Option.map_some]
      dsimp only
      rw [read_buf, ← hstamped.bytes]
      rfl
    · rw [hadded.used]
      rfl

/-! ## Parsing -/

theorem parseAttrs_tlvs {front : List U8} (hshort : Short as) (hbuf : m.buf = front ++ tlvs as)
    (hn : as.length ≤ n) :
    ∃ m', Dot1x.parseAttrs .ample n m front.length = some m' ∧ m'.buf = m.buf ∧
      m'.attrs = m.attrs ++ tlvStarts front.length as := by
  induction as generalizing m front n with
  | nil =>
    refine ⟨m, ?_, rfl, by rw [tlvStarts, List.append_nil]⟩
    rw [tlvs_nil, List.append_nil] at hbuf
    cases n with
    | zero => rfl
    | succ n => rw [Dot1x.parseAttrs, if_neg (by rw [hbuf]; exact Nat.lt_irrefl _)]
  | cons a as ih =>
    cases n with
    | zero => cases hn
    | succ n =>
      have hfront : (front ++ tlv a).length = front.length + (2 + a.2.length) := by
        rw [List.length_append, length_tlv]
      have hall : m.buf = front ++ tlv a ++ tlvs as := by
        rw [hbuf, tlvs_cons, List.append_assoc]
      have hlen : m.buf.length = front.length + (2 + a.2.length) + (tlvs as).length := by
        rw [hall, List.length_append, hfront]
      have hattr : m.attrLength front.length = 2 + a.2.length := by
        have hat : tlvLength (front ++ tlv a ++ tlvs as) front.length = 2 + a.2.length :=
          tlvLength_at hshort.head
        rw [← hall] at hat
        exact hat
      obtain ⟨mid, hmid⟩ := ample_addAttrToArray m front.length
      have hmidbuf := addAttrToArray_buf hmid
      have hmidattrs := addAttrToArray_attrs hmid
      have hmidattr : mid.attrLength front.length = 2 + a.2.length := by
        rw [← hattr, Dot1x.RadiusMsg.attrLength, Dot1x.RadiusMsg.attrLength, hmidbuf]
      obtain ⟨m', hrest, hbuf', hattrs'⟩ :=
        ih hshort.tail (hmidbuf.trans hall) (Nat.le_of_succ_le_succ hn)
      refine ⟨m', ?_, hbuf'.trans hmidbuf, ?_⟩
      · have hbad : ¬(m.buf.length < front.length + m.attrLength front.length ∨
            m.attrLength front.length < sizeofRadiusAttrHdr) := by
          rw [hattr]
          unfold sizeofRadiusAttrHdr
          omega
        rw [Dot1x.parseAttrs, if_pos (by omega), if_neg (by unfold sizeofRadiusAttrHdr; omega),
          if_neg hbad, hmid, Option.bind_some, hmidattr, ← hfront]
        exact hrest
      · rw [hattrs', hmidattrs, hfront, List.append_assoc, tlvStarts]
        rfl

theorem ntohs_append {xs ys : List U8} {off : Nat} (h : off + 1 < xs.length) :
    ntohs (xs ++ ys) off = ntohs xs off := by
  unfold ntohs
  simp only [List.getD_eq_getElem?_getD]
  rw [List.getElem?_append_left (by omega), List.getElem?_append_left h]

theorem ntohs_htons {n : Nat} (a b : U8) (rest : List U8) (h : n ≤ 65535) :
    ntohs (a :: b :: (htons n ++ rest)) 2 = n := by
  simp only [ntohs, htons, List.getD_cons_succ, List.getD_cons_zero, List.cons_append,
    BitVec.toNat_ofNat]
  omega

theorem parse_spelled (extra : List U8) (ha : heap.Ample) (hhdr : hdr.length = sizeofRadiusHdr)
    (hshort : Short as) (hlen : ntohs hdr 2 = sizeofRadiusHdr + (tlvs as).length) :
    ∃ q, radiusMsgParse heap (hdr ++ tlvs as ++ extra) = some q ∧ q.bytes = hdr ++ tlvs as ∧
      q.contents = as := by
  have hmsg : (hdr ++ tlvs as).length = sizeofRadiusHdr + (tlvs as).length := by
    rw [List.length_append, hhdr]
  have hdata : (hdr ++ tlvs as ++ extra).length =
      sizeofRadiusHdr + (tlvs as).length + extra.length := by
    rw [List.length_append, hmsg]
  have hntohs : ntohs (hdr ++ tlvs as ++ extra) 2 = sizeofRadiusHdr + (tlvs as).length := by
    rw [List.append_assoc, ntohs_append (by rw [hhdr]; decide), hlen]
  obtain ⟨m, hm, hbuf, hattrs⟩ :=
    parseAttrs_tlvs (m := ⟨hdr ++ tlvs as, sizeofRadiusHdr + (tlvs as).length, [],
      radiusDefaultAttrCount⟩) (n := sizeofRadiusHdr + (tlvs as).length) hshort rfl
      (by have := length_le_tlvs as; omega)
  rw [hhdr] at hm hattrs
  have hparse : Dot1x.radiusMsgParse .ample (hdr ++ tlvs as ++ extra) = some m := by
    rw [Dot1x.radiusMsgParse, if_neg (by omega)]
    dsimp only
    rw [hntohs, if_neg (by omega), if_pos ample_msg, ample_initialize (by omega),
      Option.bind_some, ← hmsg, List.take_left, hmsg]
    exact hm
  have hspelled : Spelled m hdr as := ⟨hhdr, hbuf, hattrs, hshort⟩
  have hsim := parse_lays ha (hdr ++ tlvs as ++ extra)
  rw [hparse] at hsim
  cases hraw : radiusMsgParse heap (hdr ++ tlvs as ++ extra) with
  | none =>
    rw [hraw] at hsim
    cases hsim
  | some q =>
    rw [hraw] at hsim
    have hlays := Option.rel_some_some.mp hsim
    exact ⟨q, rfl, by rw [← hlays.buf, hbuf], hlays.contents hspelled⟩

theorem eapAttrs_values {data : List U8} (h : data.length ≤ n) :
    (eapAttrs n data).flatMap (·.2) = data := by
  induction n generalizing data with
  | zero =>
    rw [List.length_eq_zero_iff.mp (Nat.le_zero.mp h)]
    rfl
  | succ n ih =>
    rw [eapAttrs]
    split
    · rename_i hdone
      rw [hdone, List.flatMap_nil]
    · rw [List.flatMap_cons, ih, List.take_append_drop]
      rw [List.length_drop]
      have : 0 < radiusMaxAttrLen := by decide
      omega

theorem eapAttrs_mem {data : List U8} {a : Item} (h : a ∈ eapAttrs n data) :
    a.1 = radiusAttrEapMessage ∧ a.2.length ≤ radiusMaxAttrLen := by
  induction n generalizing data with
  | zero => cases h
  | succ n ih =>
    rw [eapAttrs] at h
    split at h
    · cases h
    · rcases List.mem_cons.mp h with rfl | h
      · exact ⟨rfl, List.length_take_le _ _⟩
      · exact ih h

theorem getEap_contents {eap : List U8} (ha : heap.Ample) (hne : eap ≠ [])
    (hlen : eap.length ≤ 2 ^ 17)
    (h : (p.contents.filter fun a => a.1 = radiusAttrEapMessage).flatMap (·.2) = eap) :
    radiusMsgGetEap heap p = some eap := by
  have heap : (p.attrs.filter fun attr => p.byte attr = radiusAttrEapMessage).flatMap
      p.attrValue = eap := by
    rw [← h, RadiusMsg.contents, List.filter_map, List.flatMap_map]
    rfl
  obtain ⟨buf, hbuf⟩ := Option.isSome_iff_exists.mp (ha.malloc eap.length hlen)
  rw [radiusMsgGetEap, heap, if_neg hne, hbuf, Option.map_some]

theorem filter_eap {before after : List Item} {eap : List U8} (hn : eap.length ≤ n)
    (htypes : ∀ a ∈ before ++ after, a.1 ≠ radiusAttrEapMessage) :
    ((before ++ eapAttrs n eap ++ after).filter fun a => a.1 = radiusAttrEapMessage).flatMap
      (·.2) = eap := by
  have hnone : ∀ as : List Item, (∀ a ∈ as, a ∈ before ++ after) →
      (as.filter fun a => a.1 = radiusAttrEapMessage) = [] := by
    intro as hsub
    apply List.filter_eq_nil_iff.mpr
    intro a hmem
    rw [decide_eq_true_eq]
    exact htypes a (hsub a hmem)
  have hall : (eapAttrs n eap).filter (fun a => a.1 = radiusAttrEapMessage) = eapAttrs n eap := by
    apply List.filter_eq_self.mpr
    intro a hmem
    rw [decide_eq_true_eq]
    exact (eapAttrs_mem hmem).1
  rw [List.filter_append, List.filter_append, hnone before fun a => List.mem_append_left _,
    hnone after fun a => List.mem_append_right _, hall, List.nil_append, List.append_nil,
    eapAttrs_values hn]

def zeroedMac (bytes : List U8) : List U8 :=
  overwrite bytes (bytes.length - md5MacLen) (List.replicate md5MacLen 0)

theorem zeroedMac_tlvs {type : U8} {mac : List U8} (hmac : mac.length = md5MacLen) :
    zeroedMac (hdr ++ tlvs (as ++ [(type, mac)])) =
      hdr ++ tlvs (as ++ [(type, List.replicate md5MacLen 0)]) := by
  have hlast (bytes : List U8) : hdr ++ tlvs (as ++ [(type, bytes)]) =
      hdr ++ tlvs as ++ [type, BitVec.ofNat 8 (2 + bytes.length)] ++ bytes := by
    simp [tlvs_append, tlv]
  have hplace : (hdr ++ tlvs as ++ [type, BitVec.ofNat 8 (2 + mac.length)] ++ mac).length -
      md5MacLen = (hdr ++ tlvs as ++ [type, BitVec.ofNat 8 (2 + mac.length)]).length := by
    rw [List.length_append, hmac, Nat.add_sub_cancel]
  have hzeros : (List.replicate md5MacLen (0 : U8)).length = mac.length := by
    rw [List.length_replicate, hmac]
  rw [hlast, hlast, zeroedMac, hplace, hzeros]
  have hmiddle := overwrite_middle
    (hdr ++ tlvs as ++ [type, BitVec.ofNat 8 (2 + mac.length)]) mac [] hzeros
  rwa [List.append_nil, List.append_nil] at hmiddle

theorem macAttr_length {secret : Option (List U8)} {mac mac' : List U8 → List U8}
    (h : ∀ key, (mac key).length = (mac' key).length) :
    (tlvs (as ++ macAttr secret mac)).length = (tlvs (as ++ macAttr secret mac')).length := by
  rw [tlvs_append, tlvs_append, List.length_append, List.length_append]
  cases secret with
  | none => rfl
  | some key => simp [macAttr, h key]

theorem prefix_fits {k : Nat} (h : k + (tlvs (as ++ bs)).length ≤ 65535) :
    k + (tlvs as).length ≤ 65535 := by
  rw [tlvs_append, List.length_append] at h
  omega

theorem build_spec {H : Digest} {secret : Option (List U8)} {auth eap : List U8}
    {before after all : List Item} (ha : heap.Ample) (code identifier : U8)
    (hauth : auth.length = 16) (hbefore : Short before) (hafter : Short after)
    (hall : before ++ eapAttrs eap.length eap ++ after = all)
    (hlen : sizeofRadiusHdr + (tlvs (unsigned all secret)).length ≤ 65535)
    (hhdr : hdr = code :: identifier ::
      (htons (sizeofRadiusHdr + (tlvs (unsigned all secret)).length) ++ auth)) :
    ∃ p, buildMsg heap H code identifier auth before eap after secret = some p ∧
      Built p hdr (all ++ macAttr secret fun key =>
        H.hmacMd5 key (hdr ++ tlvs (unsigned all secret))) := by
  have hattrs : sizeofRadiusHdr + (tlvs all).length ≤ 65535 := prefix_fits hlen
  rw [← hall] at hattrs
  have heap' : sizeofRadiusHdr + (tlvs (before ++ eapAttrs eap.length eap)).length ≤ 65535 :=
    prefix_fits hattrs
  have hfirst : sizeofRadiusHdr + (tlvs before).length ≤ 65535 := prefix_fits heap'
  obtain ⟨fresh, hfresh, hbuilt⟩ := built_new ha code identifier hauth
  obtain ⟨p₁, hadd₁, hbuilt₁⟩ := hbuilt.addAttrs ha hbefore (by rwa [List.nil_append])
  obtain ⟨p₂, hadd₂, hbuilt₂⟩ := hbuilt₁.addEapFrom ha heap'
  obtain ⟨p₃, hadd₃, hbuilt₃⟩ := hbuilt₂.addAttrs ha hafter hattrs
  rw [List.nil_append, hall] at hbuilt₃
  obtain ⟨p, hdr', hfin, hstamp, hdone⟩ := hbuilt₃.finish (H := H) ha hlen
  have hsame : hdr' = hdr := by
    rw [hstamp, hhdr]
    simp [overwrite, htons]
  rw [hsame] at hdone
  refine ⟨p, ?_, hdone⟩
  rw [buildMsg, hfresh, Option.bind_some, hadd₁, Option.bind_some, radiusMsgAddEap, hadd₂,
    Option.bind_some, hadd₃, Option.bind_some, hfin]

/-- The Message-Authenticator is the HMAC of the message itself with zeros in its place. -/
theorem Built.macAttr_zeroed {H : Digest} {secret : Option (List U8)}
    (h : Built p hdr (as ++ macAttr secret fun key =>
      H.hmacMd5 key (hdr ++ tlvs (unsigned as secret)))) :
    (macAttr secret fun key => H.hmacMd5 key (hdr ++ tlvs (unsigned as secret))) =
      macAttr secret fun key => H.hmacMd5 key (zeroedMac p.bytes) := by
  rw [h.bytes]
  cases secret with
  | none => rfl
  | some key =>
    have hmac : (H.hmacMd5 key (hdr ++ tlvs (unsigned as (some key)))).length = md5MacLen :=
      H.length_hmacMd5 _ _
    simp only [macAttr, Option.map_some, Option.toList_some]
    rw [zeroedMac_tlvs hmac]
    rfl

theorem getEap_spelled {secret : Option (List U8)} {mac : List U8 → List U8} {eap : List U8}
    {before after : List Item} (ha : heap.Ample) (hne : eap ≠ [])
    (htypes : ∀ a ∈ before ++ after, a.1 ≠ radiusAttrEapMessage)
    (hlen : sizeofRadiusHdr + (tlvs (before ++ eapAttrs eap.length eap ++ after)).length ≤ 65535)
    (hcontents : p.contents = before ++ eapAttrs eap.length eap ++ after ++ macAttr secret mac) :
    radiusMsgGetEap heap p = some eap := by
  have hvalues := eapAttrs_values (Nat.le_refl eap.length)
  have hshort : eap.length ≤ 2 ^ 17 := by
    have hle := length_values_le (eapAttrs eap.length eap)
    rw [hvalues] at hle
    have hpieces := prefix_fits hlen
    rw [tlvs_append, List.length_append] at hpieces
    omega
  apply getEap_contents ha hne hshort
  rw [hcontents, List.append_assoc]
  apply filter_eap (Nat.le_refl _)
  intro a hmem
  rw [← List.append_assoc] at hmem
  rcases List.mem_append.mp hmem with hmem | hmem
  · exact htypes a hmem
  · unfold macAttr at hmem
    rw [Option.mem_toList, Option.map_eq_some_iff] at hmem
    obtain ⟨key, _, rfl⟩ := hmem
    have hne : radiusAttrMessageAuthenticator ≠ radiusAttrEapMessage := by decide
    exact hne

/-- Whatever the buffers did while a message was built: its bytes, also with others behind them,
are parsed to the attributes that were added, the EAP packet among them, and a secret adds the
HMAC of the message with zeros in its place. -/
theorem message_survives {auth eap : List U8} {before after : List Item} (ha : heap.Ample)
    (ha' : heap'.Ample) (H : Digest) (code identifier : U8) (secret : Option (List U8))
    (hauth : auth.length = 16) (hshort : Short (before ++ after))
    (htypes : ∀ a ∈ before ++ after, a.1 ≠ radiusAttrEapMessage) (hne : eap ≠ [])
    (hlen : sizeofRadiusHdr + (tlvs (unsigned (before ++ eapAttrs eap.length eap ++ after)
      secret)).length ≤ 65535) :
    ∃ p, buildMsg heap H code identifier auth before eap after secret = some p ∧
      p.bytes.take sizeofRadiusHdr = code :: identifier :: (htons p.bytes.length ++ auth) ∧
      p.contents = before ++ eapAttrs eap.length eap ++ after ++
        (macAttr secret fun key => H.hmacMd5 key (zeroedMac p.bytes)) ∧
      ∀ extra, ∃ q, radiusMsgParse heap' (p.bytes ++ extra) = some q ∧ q.contents = p.contents ∧
        radiusMsgGetEap heap' q = some eap := by
  obtain ⟨all, hall⟩ : ∃ all, before ++ eapAttrs eap.length eap ++ after = all := ⟨_, rfl⟩
  obtain ⟨hdr, hhdr⟩ : ∃ hdr, hdr = code :: identifier ::
      (htons (sizeofRadiusHdr + (tlvs (unsigned all secret)).length) ++ auth) := ⟨_, rfl⟩
  rw [hall] at hlen ⊢
  obtain ⟨p, hbuild, hbuilt⟩ := build_spec (H := H) ha code identifier hauth
    (fun a h => hshort a (List.mem_append_left _ h))
    (fun a h => hshort a (List.mem_append_right _ h)) hall hlen hhdr
  obtain ⟨m, _, hspelled⟩ := hbuilt.spelled
  have hmac : (tlvs (all ++ macAttr secret fun key =>
      H.hmacMd5 key (hdr ++ tlvs (unsigned all secret)))).length =
        (tlvs (unsigned all secret)).length :=
    macAttr_length fun key => by rw [H.length_hmacMd5, List.length_replicate]; rfl
  have hlength : p.bytes.length = sizeofRadiusHdr + (tlvs (unsigned all secret)).length := by
    rw [hbuilt.bytes, List.length_append, hspelled.header, hmac]
  refine ⟨p, hbuild, ?_, ?_, ?_⟩
  · rw [hlength, ← hhdr, hbuilt.bytes, ← hspelled.header, List.take_left]
  · rw [hbuilt.contents, hbuilt.macAttr_zeroed]
  · intro extra
    have hntohs : ntohs hdr 2 = sizeofRadiusHdr + (tlvs (all ++ macAttr secret fun key =>
        H.hmacMd5 key (hdr ++ tlvs (unsigned all secret)))).length := by
      rw [hmac, hhdr, ntohs_htons _ _ _ hlen]
    obtain ⟨q, hparse, _, hcontents⟩ :=
      parse_spelled extra ha' hspelled.header hspelled.short hntohs
    rw [hbuilt.bytes]
    refine ⟨q, hparse, hcontents.trans hbuilt.contents.symm, ?_⟩
    rw [← hall] at hlen hcontents
    exact getEap_spelled ha' hne htypes (prefix_fits hlen) hcontents

/-- An allocator that moves a buffer whenever it grows. -/
def movingHeap : Heap where
  msg := true
  malloc n := if n ≤ 2 ^ 17 then some 0x10000000 else none
  realloc _ n := if n ≤ 2 ^ 17 then some (BitVec.ofNat 32 (0x20000000 + n)) else none
  attrs _ := true
  malloc_user h := by
    split at h
    · cases h
      bv_omega
    · cases h
  realloc_user h := by
    split at h
    · cases h
      bv_omega
    · cases h

theorem movingHeap_ample : movingHeap.Ample where
  msg := rfl
  malloc n h := by
    unfold movingHeap
    dsimp only
    rw [if_pos h]
    rfl
  realloc p n h := by
    unfold movingHeap
    dsimp only
    rw [if_pos h]
    rfl
  attrs _ := rfl

/-- A packet that makes the buffer grow. -/
theorem message_survives_grown : ∃ p, buildMsg movingHeap zeroDigest radiusCodeAccessRequest 7
      (List.replicate 16 5) [(radiusAttrUserName, [0x61])] (List.replicate 1100 1)
      [(radiusAttrState, [2, 3])] (some [9]) = some p ∧
    ∃ q, radiusMsgParse movingHeap (p.bytes ++ [0]) = some q ∧ q.contents = p.contents ∧
      radiusMsgGetEap movingHeap q = some (List.replicate 1100 1) := by
  have hshort : Short ([(radiusAttrUserName, [0x61])] ++ [(radiusAttrState, [2, 3])]) := by
    unfold Short
    decide
  have hne : List.replicate 1100 (1 : U8) ≠ [] :=
    List.ne_nil_of_length_pos (by rw [List.length_replicate]; decide)
  obtain ⟨p, hbuild, _, _, hparse⟩ := message_survives movingHeap_ample movingHeap_ample zeroDigest
    radiusCodeAccessRequest 7 (some [9]) List.length_replicate hshort (by decide) hne
    (by decide +kernel)
  exact ⟨p, hbuild, hparse [0]⟩

end OpenwrtMtk.Dot1x.Raw
