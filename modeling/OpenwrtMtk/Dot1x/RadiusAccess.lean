import Mathlib.Logic.Relation
import OpenwrtMtk.Dot1x.Radius
import OpenwrtMtk.Lib.Checked

/-!
# What the accessors of a RADIUS message touch

`radius.c` once more, with every read and write of a message: each names the bytes that it may
touch, those of the attribute in hand, of the whole message or of a block it has allocated.
-/

namespace OpenwrtMtk.Dot1x.Access

open Toolkit

set_option autoImplicit false

/-- `malloc` at the places of a program: a block with what is in it, or nothing. A block lies in the
lower half of the address space, which is the user's. -/
structure Allocator where
  malloc : Nat → Nat → Option (List U8)
  length_malloc : ∀ {place n block}, malloc place n = some block → block.length = n
  malloc_user : ∀ {place n block}, malloc place n = some block → n ≤ 2 ^ 31

/-- A pending request; its message holds the header at least. -/
structure SentMsg where
  msg : RadiusMsg
  header : sizeofRadiusHdr ≤ msg.buf.length

def SentMsg.authenticator (sent : SentMsg) : Checked (List U8) := load sent.msg.buf 4 16

section

variable (msg : RadiusMsg)

def typeOf (attr : Nat) : Checked U8 := loadByte msg.buf attr

def lengthOf (attr : Nat) : Checked Nat := (loadByte msg.buf (attr + 1)).map BitVec.toNat

def attrsOf (type : U8) : List Nat → Checked (List Nat)
  | [] => pure []
  | attr :: attrs => do
    let found ← typeOf msg attr
    let rest ← attrsOf type attrs
    pure (if found = type then attr :: rest else rest)

/-! ### `Radius_msg_get_eap` -/

def eapLen : List Nat → Checked Nat
  | [] => pure 0
  | attr :: attrs => do
    let length ← lengthOf msg attr
    let rest ← eapLen attrs
    pure (sizeSub length sizeofRadiusAttrHdr + rest)

/-- The values, one behind the other from `pos` on. -/
def copyEap : List Nat → List U8 → Nat → Checked (List U8)
  | [], eap, _ => pure eap
  | attr :: attrs, eap, pos => do
    let length ← lengthOf msg attr
    let flen := sizeSub length sizeofRadiusAttrHdr
    let value ← loadIn msg.buf attr (attr + length) (attr + sizeofRadiusAttrHdr) flen
    let eap ← store eap pos value
    copyEap attrs eap (pos + flen)

def radiusMsgGetEap (a : Allocator) : Checked (Option (List U8)) := do
  let attrs ← attrsOf msg radiusAttrEapMessage msg.attrs
  let len ← eapLen msg attrs
  if len = 0 then pure none
  else
    match a.malloc 0 len with
    | none => pure none
    | some eap => do
      let eap ← copyEap msg attrs eap 0
      pure (some eap)

/-! ### `Radius_msg_verify` -/

/-- The sixteen bytes behind the attribute's header, and the authenticator of the header, are
replaced while the message is hashed. -/
def checkMac (H : Digest) (secret : List U8) (sent : SentMsg) (attr : Nat) :
    Checked (Bool × RadiusMsg) := do
  let length ← lengthOf msg attr
  let stop := attr + length
  let value := attr + sizeofRadiusAttrHdr
  let orig ← loadIn msg.buf attr stop value md5MacLen
  let zeroed ← storeIn msg.buf attr stop value (List.replicate md5MacLen 0)
  let origAuthenticator ← load zeroed 4 16
  let authenticator ← sent.authenticator
  let hashed ← store zeroed 4 authenticator
  let auth := H.hmacMd5 secret hashed
  let restored ← storeIn hashed attr stop value orig
  let restored ← store restored 4 origAuthenticator
  pure (orig = auth, { msg with buf := restored })

/-- `ResponseAuth = MD5(Code+ID+Length+RequestAuth+Attributes+Secret)`. -/
def checkResponse (H : Digest) (secret : List U8) (sent : SentMsg) : Checked Bool := do
  let start ← load msg.buf 0 4
  let authenticator ← sent.authenticator
  let attrs ← load msg.buf sizeofRadiusHdr (sizeSub msg.buf.length sizeofRadiusHdr)
  let own ← load msg.buf 4 16
  pure (H.md5 (start ++ authenticator ++ attrs ++ secret) = own)

/-- The only Message-Authenticator; without one, or with several, the message is refused. -/
def macAttr : List Nat → Option Nat → Checked (Option Nat)
  | [], attr => pure attr
  | attr :: attrs, seen => do
    let type ← typeOf msg attr
    if type = radiusAttrMessageAuthenticator then
      if seen.isSome then pure none else macAttr attrs (some attr)
    else macAttr attrs seen

/-- `true` is the return value 0. -/
def radiusMsgVerify (H : Digest) (secret : List U8) :
    Option SentMsg → Checked (Bool × RadiusMsg)
  | none => pure (false, msg)
  | some sent => do
    let attr ← macAttr msg msg.attrs none
    match attr with
    | none => pure (false, msg)
    | some attr => do
      let checked ← checkMac msg H secret sent attr
      if checked.1 then do
        let valid ← checkResponse checked.2 H secret sent
        pure (valid, checked.2)
      else pure checked

/-! ### `Radius_msg_get_attr` -/

def findAttr (type : U8) : List Nat → Checked (Option Nat)
  | [] => pure none
  | attr :: attrs => do
    let found ← typeOf msg attr
    if found = type then pure (some attr) else findAttr type attrs

/-- The result and the buffer of the caller, which has `len` bytes where there is one. -/
def radiusMsgGetAttr (type : U8) (buf : Option (List U8)) :
    Checked (Option Nat × Option (List U8)) := do
  let attr ← findAttr msg type msg.attrs
  match attr with
  | none => pure (none, buf)
  | some attr => do
    let length ← lengthOf msg attr
    let dlen := sizeSub length sizeofRadiusAttrHdr
    match buf with
    | none => pure (some dlen, none)
    | some out => do
      let n := if out.length < dlen then out.length else dlen
      let value ← loadIn msg.buf attr (attr + length) (attr + sizeofRadiusAttrHdr) n
      let out ← store out 0 value
      pure (some dlen, some out)

/-! ### Vendor attributes -/

/-- The inner loop of `Radius_msg_get_ms_attr` and `Radius_msg_get_wfa_attr`, with `left` bytes of
the attribute from `pos` on. -/
def searchSub (malloc : Nat → Option (List U8)) (attr stop : Nat) (wanted : U8) :
    Nat → Nat → Nat → Checked VendorSearch
  | 0, _, _ => .error .endless
  | n + 1, pos, left =>
    if left < 2 then pure .next
    else do
      let length ← byteIn msg.buf attr stop (pos + 1)
      if left < length.toNat then searchSub malloc attr stop wanted n pos 0
      else do
        let type ← byteIn msg.buf attr stop pos
        if type ≠ wanted then
          searchSub malloc attr stop wanted n (pos + length.toNat) (left - length.toNat)
        else
          let len := sizeSub length.toNat 2
          match malloc len with
          | none => pure (.stop none)
          | some data => do
            let value ← loadIn msg.buf attr stop (pos + 2) len
            let data ← store data 0 value
            pure (.stop (some data))

/-- What follows the search of an attribute: the `rest` of the attributes, or the return. -/
def afterSearch (rest : Checked (Option (List U8))) : VendorSearch → Checked (Option (List U8))
  | .next => rest
  | .stop data => pure data

/-- `Radius_msg_get_ms_attr` and `Radius_msg_get_wfa_attr`: the first sub-attribute that is
`wanted` in the attributes of a vendor. -/
def getVendorAttr (malloc : Nat → Option (List U8)) (vendor : Nat) (wanted : U8) (rounds : Nat) :
    List Nat → Checked (Option (List U8))
  | [] => pure none
  | attr :: attrs => do
    let type ← typeOf msg attr
    if type ≠ radiusAttrVendorSpecific then getVendorAttr malloc vendor wanted rounds attrs
    else do
      let length ← lengthOf msg attr
      let left := length - sizeofRadiusAttrHdr
      if left < 4 then getVendorAttr malloc vendor wanted rounds attrs
      else do
        let stop := attr + length
        let id ← loadIn msg.buf attr stop (attr + sizeofRadiusAttrHdr) 4
        if ntohl id 0 ≠ vendor then getVendorAttr malloc vendor wanted rounds attrs
        else do
          let found ← searchSub msg malloc attr stop wanted rounds
            (attr + sizeofRadiusAttrHdr + 4) (left - 4)
          afterSearch (getVendorAttr malloc vendor wanted rounds attrs) found

def radiusMsgGetMsAttr (malloc : Nat → Option (List U8)) (msType : U8) (rounds : Nat) :
    Checked (Option (List U8)) :=
  getVendorAttr msg malloc radiusVendorIdMicrosoft msType rounds msg.attrs

def radiusVendorIdWfa : Nat := 40808

def radiusMsgGetWfaAttr (a : Allocator) (wfaSubtype : U8) (rounds : Nat) :
    Checked (Option (List U8)) :=
  getVendorAttr msg (a.malloc 0) radiusVendorIdWfa wfaSubtype rounds msg.attrs

end

/-! ### `decrypt_ms_key` -/

/-- What is hashed with the secret for the block at `pos`: the request's authenticator and the salt,
or the block before it. -/
def maskSeed (key : List U8) (sent : SentMsg) (first : Bool) (pos : Nat) : Checked (List U8) :=
  if first then do
    let authenticator ← sent.authenticator
    let salt ← load key 0 2
    pure (authenticator ++ salt)
  else load key (pos - md5MacLen) md5MacLen

/-- The blocks of a key from `pos` on, written to `plain` from `ppos` on. -/
def decryptFrom (H : Digest) (secret key : List U8) (sent : SentMsg) :
    Nat → Bool → Nat → Nat → List U8 → Checked (List U8)
  | 0, _, _, _, plain => pure plain
  | n + 1, first, pos, ppos, plain => do
    let mask ← maskSeed key sent first pos
    let cipher ← load key pos md5MacLen
    let plain ← store plain ppos (List.zipWith (· ^^^ ·) cipher (H.md5 (secret ++ mask)))
    decryptFrom H secret key sent n false (pos + md5MacLen) (ppos + md5MacLen) plain

def decryptMsKey (a : Allocator) (place : Nat) (H : Digest) (key : List U8) (sent : SentMsg)
    (secret : List U8) : Checked (Option (List U8)) :=
  if key.length < 2 + 16 then pure none
  else
    let left := key.length - 2
    if left % 16 ≠ 0 then pure none
    else
      match a.malloc place left with
      | none => pure none
      | some plain => do
        let plain ← decryptFrom H secret key sent (left / md5MacLen) true 2 0 plain
        let first ← loadByte plain 0
        if left - 1 < first.toNat then pure none
        else
          match a.malloc (place + 1) first.toNat with
          | none => pure none
          | some res => do
            let value ← load plain 1 first.toNat
            let res ← store res 0 value
            pure (some res)

/-- A key of one type, decrypted; its allocations are at `place` and behind it. -/
def radiusMsgGetMsKey (a : Allocator) (place : Nat) (H : Digest) (msg : RadiusMsg)
    (sent : SentMsg) (secret : List U8) (msType : U8) (rounds : Nat) :
    Checked (Option (List U8)) := do
  let key ← radiusMsgGetMsAttr msg (a.malloc place) msType rounds
  match key with
  | none => pure none
  | some key => decryptMsKey a (place + 1) H key sent secret

/-- `sizeof(struct radius_ms_mppe_keys)`. -/
def sizeofRadiusMsMppeKeys : Nat := 16

def radiusMsgGetMsKeys (a : Allocator) (H : Digest) (msg : RadiusMsg) (secret : List U8)
    (rounds : Nat) : Option SentMsg → Checked (Option RadiusMsMppeKeys)
  | none => pure none
  | some sent =>
    match a.malloc 0 sizeofRadiusMsMppeKeys with
    | none => pure none
    | some _ => do
      let send ← radiusMsgGetMsKey a 1 H msg sent secret radiusVendorAttrMsMppeSendKey rounds
      let recv ← radiusMsgGetMsKey a 4 H msg sent secret radiusVendorAttrMsMppeRecvKey rounds
      pure (some ⟨send, recv⟩)

end OpenwrtMtk.Dot1x.Access

/-!
## The accessors stay inside their attributes

The parser has checked that every attribute ends inside the message. That is enough for
`Radius_msg_get_eap` and `Radius_msg_get_attr`; `Radius_msg_verify` reads and writes sixteen bytes
of a Message-Authenticator that may be shorter, and the search of a vendor attribute turns forever
at a sub-attribute of length zero.
-/

namespace OpenwrtMtk.Dot1x.Access

open Toolkit

set_option autoImplicit false

/-- The attribute at `attr` lies behind the header of a message and ends inside it. -/
structure Inside (msg : RadiusMsg) (attr : Nat) : Prop where
  start : sizeofRadiusHdr ≤ attr
  header : sizeofRadiusAttrHdr ≤ msg.attrLength attr
  stop : attr + msg.attrLength attr ≤ msg.buf.length

structure Parsed (msg : RadiusMsg) : Prop where
  header : sizeofRadiusHdr ≤ msg.buf.length
  size : msg.buf.length < 2 ^ 16
  attrs : ∀ attr ∈ msg.attrs, Inside msg attr

/-! ### The parser -/

theorem attrLength_congr {m m' : RadiusMsg} (h : m'.buf = m.buf) (attr : Nat) :
    m'.attrLength attr = m.attrLength attr := by
  unfold RadiusMsg.attrLength
  rw [h]

theorem Inside.congr {m m' : RadiusMsg} {attr : Nat} (h : Inside m attr) (hbuf : m'.buf = m.buf) :
    Inside m' attr := by
  have hlength := attrLength_congr hbuf attr
  exact ⟨h.start, by rw [hlength]; exact h.header, by rw [hlength, hbuf]; exact h.stop⟩

theorem parseAttrs_parsed {mem : Memory} {n pos : Nat} {m m' : RadiusMsg} (hm : Parsed m)
    (hpos : sizeofRadiusHdr ≤ pos) (h : parseAttrs mem n m pos = some m') : Parsed m' := by
  induction n generalizing m pos with
  | zero =>
    cases h
    exact hm
  | succ n ih =>
    rw [parseAttrs] at h
    split at h
    · split at h
      · cases h
      · split at h
        · cases h
        · rename_i hfits
          obtain ⟨added, hadd, hrest⟩ := Option.bind_eq_some_iff.mp h
          have hbuf := addAttrToArray_buf hadd
          have hnew : Inside m pos := ⟨hpos, by omega, by omega⟩
          have hadded : Parsed added := by
            refine ⟨by rw [hbuf]; exact hm.header, by rw [hbuf]; exact hm.size, ?_⟩
            intro attr hattr
            rw [addAttrToArray_attrs hadd] at hattr
            rcases List.mem_append.mp hattr with hattr | hattr
            · exact (hm.attrs attr hattr).congr hbuf
            · rw [List.mem_singleton.mp hattr]
              exact hnew.congr hbuf
          exact ih hadded (by omega) hrest
    · cases h
      exact hm

theorem parse_parsed {mem : Memory} {data : List U8} {msg : RadiusMsg}
    (h : radiusMsgParse mem data = some msg) : Parsed msg := by
  unfold radiusMsgParse at h
  split at h
  · cases h
  · dsimp only at h
    split at h
    · cases h
    · rename_i hlen
      split at h
      · obtain ⟨m, hinit, hparse⟩ := Option.bind_eq_some_iff.mp h
        refine parseAttrs_parsed ⟨?_, ?_, ?_⟩ (Nat.le_refl _) hparse
        · dsimp only
          rw [List.length_take]
          omega
        · have hhigh := (data.getD 2 0).isLt
          have hlow := (data.getD (2 + 1) 0).isLt
          dsimp only
          rw [List.length_take, ntohs]
          omega
        · intro attr hattr
          unfold radiusMsgInitialize at hinit
          split at hinit
          · cases hinit
          · split at hinit
            · cases hinit
              cases hattr
            · cases hinit
      · cases h

/-! ### Types, lengths and values -/

section

variable {msg : RadiusMsg} {attr : Nat} {attrs : List Nat}

theorem attrLength_lt (msg : RadiusMsg) (attr : Nat) : msg.attrLength attr < 256 :=
  (msg.buf.getD (attr + 1) 0).isLt

theorem Inside.typeOf (h : Inside msg attr) : typeOf msg attr = .ok (msg.attrType attr) := by
  have hheader := h.header
  have hstop := h.stop
  unfold sizeofRadiusAttrHdr at hheader
  exact loadByte_ok (by omega)

theorem Inside.lengthOf (h : Inside msg attr) :
    lengthOf msg attr = .ok (msg.attrLength attr) := by
  have hheader := h.header
  have hstop := h.stop
  unfold sizeofRadiusAttrHdr at hheader
  unfold Access.lengthOf
  rw [loadByte_ok (by omega)]
  rfl

theorem Inside.length_value (h : Inside msg attr) :
    (msg.attrValue attr).length = msg.attrLength attr - sizeofRadiusAttrHdr := by
  have hheader := h.header
  have hstop := h.stop
  exact length_slice (by omega)

theorem Inside.sizeSub (h : Inside msg attr) :
    sizeSub (msg.attrLength attr) sizeofRadiusAttrHdr = (msg.attrValue attr).length := by
  rw [h.length_value]
  exact sizeSub_of_le h.header (Nat.lt_trans (attrLength_lt msg attr) (by decide))

theorem Inside.value {n : Nat} (h : Inside msg attr) (hn : n ≤ (msg.attrValue attr).length) :
    loadIn msg.buf attr (attr + msg.attrLength attr) (attr + sizeofRadiusAttrHdr) n =
      .ok ((msg.attrValue attr).take n) := by
  have hheader := h.header
  rw [h.length_value] at hn
  rw [loadIn_ok (Nat.le_add_right _ _) (by omega)]
  congr 1
  rw [RadiusMsg.attrValue, slice, slice, List.take_take, Nat.min_eq_left hn]

/-! ### EAP messages and single attributes -/

theorem attrsOf_ok (type : U8) (h : ∀ attr ∈ attrs, Inside msg attr) :
    attrsOf msg type attrs = .ok (attrs.filter fun attr => msg.attrType attr = type) := by
  induction attrs with
  | nil => rfl
  | cons attr attrs ih =>
    rw [attrsOf, bind_ok (h attr List.mem_cons_self).typeOf,
      bind_ok (ih fun a ha => h a (List.mem_cons_of_mem _ ha)), List.filter_cons]
    by_cases htype : msg.attrType attr = type
    · rw [if_pos htype, if_pos (decide_eq_true htype)]
      rfl
    · rw [if_neg htype, if_neg (by rw [decide_eq_true_eq]; exact htype)]
      rfl

theorem eapLen_ok (h : ∀ attr ∈ attrs, Inside msg attr) :
    eapLen msg attrs = .ok (attrs.flatMap msg.attrValue).length := by
  induction attrs with
  | nil => rfl
  | cons attr attrs ih =>
    have hin := h attr List.mem_cons_self
    rw [eapLen, bind_ok hin.lengthOf, bind_ok (ih fun a ha => h a (List.mem_cons_of_mem _ ha)),
      hin.sizeSub, List.flatMap_cons, List.length_append]
    rfl

theorem copyEap_ok {eap : List U8} {pos : Nat} (h : ∀ attr ∈ attrs, Inside msg attr)
    (hroom : pos + (attrs.flatMap msg.attrValue).length ≤ eap.length) :
    copyEap msg attrs eap pos = .ok (overwrite eap pos (attrs.flatMap msg.attrValue)) := by
  induction attrs generalizing eap pos with
  | nil =>
    rw [copyEap, List.flatMap_nil, overwrite, List.append_nil, List.length_nil, Nat.add_zero,
      List.take_append_drop]
    rfl
  | cons attr attrs ih =>
    have hin := h attr List.mem_cons_self
    rw [List.flatMap_cons, List.length_append] at hroom
    have hstore : pos + (msg.attrValue attr).length ≤ eap.length := by omega
    have hrest : copyEap msg attrs (overwrite eap pos (msg.attrValue attr))
        (pos + (msg.attrValue attr).length) =
          .ok (overwrite (overwrite eap pos (msg.attrValue attr))
            (pos + (msg.attrValue attr).length) (attrs.flatMap msg.attrValue)) :=
      ih (fun a ha => h a (List.mem_cons_of_mem _ ha)) (by rw [length_overwrite hstore]; omega)
    rw [copyEap, bind_ok hin.lengthOf, hin.sizeSub]
    dsimp only
    rw [bind_ok (hin.value (Nat.le_refl _)), List.take_length, bind_ok (store_ok hstore), hrest,
      List.flatMap_cons, overwrite_append _ _ (by omega)]

theorem getEap_ok (hmsg : Parsed msg) (a : Allocator) :
    radiusMsgGetEap msg a =
      .ok ((Dot1x.radiusMsgGetEap msg).filter fun eap => (a.malloc 0 eap.length).isSome) := by
  have hattrs : ∀ attr ∈ msg.attrs.filter fun attr => msg.attrType attr = radiusAttrEapMessage,
      Inside msg attr := fun attr hattr => hmsg.attrs attr (List.mem_filter.mp hattr).1
  rw [radiusMsgGetEap, bind_ok (attrsOf_ok _ hmsg.attrs), bind_ok (eapLen_ok hattrs),
    Dot1x.radiusMsgGetEap]
  generalize hall : (msg.attrs.filter fun attr => msg.attrType attr = radiusAttrEapMessage).flatMap
    msg.attrValue = values
  by_cases hempty : values = []
  · rw [if_pos (by rw [hempty]; rfl), hempty, if_pos rfl]
    rfl
  · rw [if_neg (by rw [List.length_eq_zero_iff]; exact hempty), if_neg hempty]
    cases hmalloc : a.malloc 0 values.length with
    | none => simp only [Option.filter, hmalloc, Option.isSome_none]; rfl
    | some eap =>
      have hlength := a.length_malloc hmalloc
      have hroom : 0 + ((msg.attrs.filter fun attr =>
          msg.attrType attr = radiusAttrEapMessage).flatMap msg.attrValue).length ≤ eap.length := by
        rw [hall]
        omega
      have hcopy := copyEap_ok hattrs hroom
      have hfull : overwrite eap 0 values = values := by
        rw [overwrite, List.take_zero, List.nil_append, Nat.zero_add,
          List.drop_eq_nil_of_le (by omega), List.append_nil]
      rw [hall, hfull] at hcopy
      simp only [Option.filter, hmalloc, Option.isSome_some, bind_ok hcopy]
      rfl

theorem findAttr_ok (type : U8) (h : ∀ attr ∈ attrs, Inside msg attr) :
    findAttr msg type attrs = .ok (attrs.find? fun attr => msg.attrType attr = type) := by
  induction attrs with
  | nil => rfl
  | cons attr attrs ih =>
    rw [findAttr, bind_ok (h attr List.mem_cons_self).typeOf, List.find?_cons]
    by_cases htype : msg.attrType attr = type
    · rw [if_pos htype, decide_eq_true htype]
      rfl
    · rw [if_neg htype, decide_eq_false htype]
      exact ih fun a ha => h a (List.mem_cons_of_mem _ ha)

theorem getAttr_ok (hmsg : Parsed msg) (type : U8) (buf : Option (List U8)) :
    radiusMsgGetAttr msg type buf =
      .ok ((Dot1x.radiusMsgGetAttr msg type).map List.length,
        (Dot1x.radiusMsgGetAttr msg type).elim buf fun value =>
          buf.map fun out => overwrite out 0 (value.take out.length)) := by
  rw [radiusMsgGetAttr, bind_ok (findAttr_ok type hmsg.attrs), Dot1x.radiusMsgGetAttr,
    RadiusMsg.attr?]
  cases hfound : msg.attrs.find? fun attr => msg.attrType attr = type with
  | none => rfl
  | some attr =>
    have hin := hmsg.attrs attr (List.mem_of_find?_eq_some hfound)
    dsimp only [Option.map_some, Option.elim_some]
    rw [bind_ok hin.lengthOf, hin.sizeSub]
    cases buf with
    | none => rfl
    | some out =>
      dsimp only
      have hn : (if out.length < (msg.attrValue attr).length then out.length
          else (msg.attrValue attr).length) ≤ (msg.attrValue attr).length := by
        split <;> omega
      rw [bind_ok (hin.value hn), bind_ok (store_ok (by rw [List.length_take]; split <;> omega))]
      congr 4
      split
      · rfl
      · rw [List.take_length, List.take_of_length_le (by omega)]

/-! ### The Message-Authenticator -/

def macs (msg : RadiusMsg) : List Nat :=
  msg.attrs.filter fun attr => msg.attrType attr = radiusAttrMessageAuthenticator

def MacFits (msg : RadiusMsg) : Prop :=
  ∀ attr, macs msg = [attr] → sizeofRadiusAttrHdr + md5MacLen ≤ msg.attrLength attr

/-- The only one of a list, if what was seen before is `seen`. -/
def sole : Option Nat → List Nat → Option Nat
  | seen, [] => seen
  | none, attr :: attrs => sole (some attr) attrs
  | some _, _ :: _ => none

theorem macAttr_ok {seen : Option Nat} (h : ∀ attr ∈ attrs, Inside msg attr) :
    macAttr msg attrs seen = .ok (sole seen
      (attrs.filter fun attr => msg.attrType attr = radiusAttrMessageAuthenticator)) := by
  induction attrs generalizing seen with
  | nil =>
    cases seen with
    | none => rfl
    | some first => rfl
  | cons attr attrs ih =>
    have hrest : ∀ a ∈ attrs, Inside msg a := fun a ha => h a (List.mem_cons_of_mem _ ha)
    rw [macAttr, bind_ok (h attr List.mem_cons_self).typeOf, List.filter_cons]
    by_cases htype : msg.attrType attr = radiusAttrMessageAuthenticator
    · rw [if_pos htype, if_pos (decide_eq_true htype)]
      cases seen with
      | some first => rfl
      | none => exact ih hrest
    · rw [if_neg htype, if_neg (by rw [decide_eq_true_eq]; exact htype)]
      exact ih hrest

theorem SentMsg.authenticator_ok (sent : SentMsg) :
    sent.authenticator = .ok sent.msg.authenticator := by
  have hheader := sent.header
  unfold sizeofRadiusHdr at hheader
  exact load_ok (by omega)

theorem SentMsg.length_authenticator (sent : SentMsg) : sent.msg.authenticator.length = 16 := by
  have hheader := sent.header
  unfold sizeofRadiusHdr at hheader
  exact length_slice (by omega)

theorem overwrite_slice {buf : List U8} {off n : Nat} (h : off + n ≤ buf.length) :
    overwrite buf off (slice buf off n) = buf := by
  rw [overwrite, length_slice h, slice, ← List.drop_drop, List.append_assoc,
    List.take_append_drop, List.take_append_drop]

theorem restored {buf zeros auth : List U8} {value : Nat} (hvalue : sizeofRadiusHdr ≤ value)
    (hzeros : value + zeros.length ≤ buf.length) (hauth : auth.length = 16) :
    overwrite (overwrite (overwrite (overwrite buf value zeros) 4 auth) value
      (slice buf value zeros.length)) 4 (slice (overwrite buf value zeros) 4 16) = buf := by
  unfold sizeofRadiusHdr at hvalue
  have hslice : (slice buf value zeros.length).length = zeros.length := length_slice hzeros
  have hlen : (overwrite buf value zeros).length = buf.length := length_overwrite hzeros
  have hhdr : (slice buf 4 16).length = 16 := length_slice (by omega)
  rw [slice_overwrite_disjoint hzeros (by omega),
    overwrite_comm (by omega : 4 + auth.length ≤ (overwrite buf value zeros).length) (by omega)
      (by omega),
    overwrite_overwrite hzeros hslice, overwrite_slice hzeros,
    overwrite_overwrite (by omega) (by rw [hhdr, hauth]), overwrite_slice (by omega)]

theorem macBytes_eq (stale : Nat → U8) (h : Inside msg attr)
    (hfits : sizeofRadiusAttrHdr + md5MacLen ≤ msg.attrLength attr) :
    macBytes msg stale attr = slice msg.buf (attr + sizeofRadiusAttrHdr) md5MacLen := by
  have hstop := h.stop
  unfold sizeofRadiusAttrHdr md5MacLen at hfits
  apply List.ext_getElem?
  intro k
  rw [macBytes, List.getElem?_map, getElem?_slice]
  by_cases hk : k < md5MacLen
  · rw [List.getElem?_range hk, if_pos hk, Option.map_some, List.getD_eq_getElem?_getD]
    unfold md5MacLen at hk
    unfold sizeofRadiusAttrHdr
    rw [List.getElem?_eq_getElem (by omega)]
    rfl
  · rw [List.getElem?_eq_none (by rw [List.length_range]; omega), if_neg hk]
    rfl

theorem checkMac_ok (H : Digest) (secret : List U8) (sent : SentMsg) (h : Inside msg attr)
    (hfits : sizeofRadiusAttrHdr + md5MacLen ≤ msg.attrLength attr) (stale : Nat → U8) :
    checkMac msg H secret sent attr =
      .ok (decide (macBytes msg stale attr = H.hmacMd5 secret (macInput msg attr sent.msg)), msg) := by
  have hstart := h.start
  have hstop := h.stop
  have hauth := sent.length_authenticator
  have hmin : min md5MacLen (msg.buf.length - (attr + sizeofRadiusAttrHdr)) = md5MacLen := by
    omega
  have hzeros : (List.replicate md5MacLen (0 : U8)).length = md5MacLen := List.length_replicate
  have horig : (slice msg.buf (attr + sizeofRadiusAttrHdr) md5MacLen).length = md5MacLen :=
    length_slice (by omega)
  have hroom : attr + sizeofRadiusAttrHdr + (List.replicate md5MacLen (0 : U8)).length ≤
      msg.buf.length := by omega
  have hback := restored (by omega : sizeofRadiusHdr ≤ attr + sizeofRadiusAttrHdr) hroom hauth
  rw [hzeros] at hback
  have hzeroed : (overwrite msg.buf (attr + sizeofRadiusAttrHdr)
      (List.replicate md5MacLen 0)).length = msg.buf.length := length_overwrite (by omega)
  have hfour : 4 + 16 ≤ msg.buf.length := by
    unfold sizeofRadiusHdr at hstart
    omega
  have hhashed : (overwrite (overwrite msg.buf (attr + sizeofRadiusAttrHdr)
      (List.replicate md5MacLen 0)) 4 sent.msg.authenticator).length = msg.buf.length := by
    rw [length_overwrite (by omega), hzeroed]
  rw [checkMac, bind_ok h.lengthOf]
  dsimp only
  rw [bind_ok (loadIn_ok (by omega) (by omega)), bind_ok (storeIn_ok (by omega) (by omega)),
    bind_ok (load_ok (by omega)), bind_ok sent.authenticator_ok, bind_ok (store_ok (by omega)),
    bind_ok (storeIn_ok (by omega) (by omega)),
    bind_ok (store_ok (by rw [length_overwrite (by omega), length_slice (by omega)]; omega)),
    hback, macBytes_eq stale h hfits, macInput, hmin]
  rfl

theorem checkResponse_ok (H : Digest) (secret : List U8) (sent : SentMsg)
    (hmsg : Parsed msg) :
    checkResponse msg H secret sent =
      .ok (decide (H.md5 (responseInput msg secret sent.msg) = msg.authenticator)) := by
  have hrest : sizeSub msg.buf.length sizeofRadiusHdr = msg.buf.length - sizeofRadiusHdr :=
    sizeSub_of_le hmsg.header (Nat.lt_trans hmsg.size (by decide))
  have hheader := hmsg.header
  have hslice : slice msg.buf sizeofRadiusHdr (msg.buf.length - sizeofRadiusHdr) =
      msg.buf.drop sizeofRadiusHdr := by
    rw [slice, ← List.length_drop, List.take_length]
  rw [checkResponse, hrest]
  unfold sizeofRadiusHdr at hheader
  rw [bind_ok (load_ok (by omega)), bind_ok sent.authenticator_ok,
    bind_ok (load_ok (by unfold sizeofRadiusHdr; omega)), bind_ok (load_ok (by omega)), hslice,
    responseInput]
  rfl

/-- `Radius_msg_verify` stays inside, and leaves the message as it was, where the
Message-Authenticator has its sixteen bytes. -/
theorem verify_ok (H : Digest) (secret : List U8) (sent : SentMsg) (hmsg : Parsed msg)
    (hfits : MacFits msg) (stale : Nat → U8) :
    radiusMsgVerify msg H secret (some sent) =
      .ok (Dot1x.radiusMsgVerify msg H stale secret sent.msg, msg) := by
  rw [radiusMsgVerify, bind_ok (macAttr_ok hmsg.attrs), Dot1x.radiusMsgVerify]
  cases hmacs : msg.attrs.filter fun attr => msg.attrType attr = radiusAttrMessageAuthenticator with
  | nil => rfl
  | cons attr attrs =>
    cases attrs with
    | cons next attrs => rfl
    | nil =>
      have hin : Inside msg attr := by
        have hmem : attr ∈ macs msg := by
          rw [macs, hmacs]
          exact List.mem_singleton_self attr
        exact hmsg.attrs attr (List.mem_filter.mp hmem).1
      dsimp only [sole]
      rw [bind_ok (checkMac_ok H secret sent hin (hfits attr hmacs) stale)]
      by_cases hmac : macBytes msg stale attr = H.hmacMd5 secret (macInput msg attr sent.msg)
      · rw [if_pos (decide_eq_true hmac), bind_ok (checkResponse_ok H secret sent hmsg),
          decide_eq_true hmac]
        rfl
      · rw [if_neg (by rw [decide_eq_true_eq]; exact hmac), decide_eq_false hmac]
        rfl

theorem macFits_of_verify {H : Digest} {secret : List U8} {sent : SentMsg} (hmsg : Parsed msg)
    (h : Ends (radiusMsgVerify msg H secret (some sent))) : MacFits msg := by
  intro attr hmacs
  have hin : Inside msg attr := by
    have hmem : attr ∈ macs msg := by
      rw [hmacs]
      exact List.mem_singleton_self attr
    exact hmsg.attrs attr (List.mem_filter.mp hmem).1
  rw [radiusMsgVerify, bind_ok (macAttr_ok hmsg.attrs)] at h
  change macs msg = [attr] at hmacs
  rw [← macs, hmacs] at h
  dsimp only [sole] at h
  obtain ⟨checked, hchecked, _⟩ := ends_bind.mp h
  rw [checkMac, bind_ok hin.lengthOf] at hchecked
  obtain ⟨orig, horig, _⟩ := bind_eq_ok.mp hchecked
  have := (loadIn_eq_ok.mp horig).1
  omega

end

end OpenwrtMtk.Dot1x.Access
