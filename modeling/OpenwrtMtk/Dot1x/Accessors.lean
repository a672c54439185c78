import OpenwrtMtk.Dot1x.RadiusAccess

/-!
# When the search of a vendor attribute ends

A sub-attribute that is not wanted is skipped by its length. The search turns forever where it comes
to one of length zero, and it comes there unless what it wants stands before it.
-/

namespace OpenwrtMtk.Dot1x.Access

open Toolkit Relation

set_option autoImplicit false

section Walk

variable (msg : RadiusMsg) (stop : Nat) (wanted : U8)

/-- At `pos` is a sub-attribute that ends before `stop`. -/
structure SubAt (pos : Nat) : Prop where
  header : pos + 2 ≤ stop
  fits : pos + msg.attrLength pos ≤ stop

/-- The sub-attribute at `pos` is not wanted, and the next one is at `next`. -/
structure Skips (pos next : Nat) : Prop where
  sub : SubAt msg stop pos
  other : msg.attrType pos ≠ wanted
  next_eq : next = pos + msg.attrLength pos

/-- From `pos` on, the search comes to what is wanted. -/
def Finds (pos : Nat) : Prop :=
  ∃ p, ReflTransGen (Skips msg stop wanted) pos p ∧ SubAt msg stop p ∧ msg.attrType p = wanted

/-- From `pos` on, the search comes to a sub-attribute of length zero that is not wanted. -/
def Turns (pos : Nat) : Prop :=
  ∃ p, ReflTransGen (Skips msg stop wanted) pos p ∧ p + 2 ≤ stop ∧ msg.attrType p ≠ wanted ∧
    msg.attrLength p = 0

end Walk

section

variable {msg : RadiusMsg} {attr stop pos next n rounds place : Nat} {wanted : U8} {a : Allocator}

theorem finds_of_skips (hskip : Skips msg stop wanted pos next) :
    Finds msg stop wanted pos ↔ Finds msg stop wanted next := by
  constructor
  · rintro ⟨p, hreach, hsub, htype⟩
    rcases ReflTransGen.cases_head hreach with rfl | ⟨q, hq, hrest⟩
    · exact absurd htype hskip.other
    · rw [hskip.next_eq, ← hq.next_eq]
      exact ⟨p, hrest, hsub, htype⟩
  · rintro ⟨p, hreach, hsub, htype⟩
    exact ⟨p, hreach.head hskip, hsub, htype⟩

theorem turns_of_skips (hskip : Skips msg stop wanted pos next)
    (h : Turns msg stop wanted next) : Turns msg stop wanted pos := by
  obtain ⟨p, hreach, hzero⟩ := h
  exact ⟨p, hreach.head hskip, hzero⟩

theorem Turns.skips (h : Turns msg stop wanted pos) :
    ∃ next, Skips msg stop wanted pos next ∧ Turns msg stop wanted next := by
  obtain ⟨p, hreach, hroom, hother, hzero⟩ := h
  rcases ReflTransGen.cases_head hreach with rfl | ⟨next, hskip, hrest⟩
  · have hself : Skips msg stop wanted pos pos :=
      ⟨⟨hroom, by omega⟩, hother, by omega⟩
    exact ⟨pos, hself, pos, ReflTransGen.refl, hroom, hother, hzero⟩
  · exact ⟨next, hskip, p, hrest, hroom, hother, hzero⟩

theorem not_finds_of_not_sub (h : ¬SubAt msg stop pos) : ¬Finds msg stop wanted pos := by
  rintro ⟨p, hreach, hsub, _⟩
  rcases ReflTransGen.cases_head hreach with rfl | ⟨q, hq, _⟩
  · exact h hsub
  · exact h hq.sub

/-! ### The inner loop -/

theorem byteIn_type (hattr : attr ≤ pos) (hroom : pos + 2 ≤ stop) :
    byteIn msg.buf attr stop pos = .ok (msg.attrType pos) := byteIn_ok hattr (by omega)

theorem byteIn_length (hattr : attr ≤ pos) (hroom : pos + 2 ≤ stop) :
    byteIn msg.buf attr stop (pos + 1) = .ok (msg.buf.getD (pos + 1) 0) :=
  byteIn_ok (by omega) (by omega)

theorem searchSub_short {left : Nat} (h : left < 2) :
    searchSub msg (a.malloc place) attr stop wanted (n + 1) pos left = .ok .next := if_pos h

theorem searchSub_misfits (hattr : attr ≤ pos) (hroom : pos + 2 ≤ stop)
    (hfits : ¬pos + msg.attrLength pos ≤ stop) :
    searchSub msg (a.malloc place) attr stop wanted (n + 1) pos (stop - pos) =
      searchSub msg (a.malloc place) attr stop wanted n pos 0 := by
  change (if stop - pos < 2 then _ else _) = _
  rw [if_neg (by omega), bind_ok (byteIn_length hattr hroom)]
  exact if_pos (by change stop - pos < msg.attrLength pos; omega)

theorem searchSub_skips (hattr : attr ≤ pos) (hskip : Skips msg stop wanted pos next) :
    searchSub msg (a.malloc place) attr stop wanted (n + 1) pos (stop - pos) =
      searchSub msg (a.malloc place) attr stop wanted n next (stop - next) := by
  have hroom := hskip.sub.header
  have hfits := hskip.sub.fits
  have hnext := hskip.next_eq
  have hleft : stop - pos - msg.attrLength pos = stop - next := by omega
  change (if stop - pos < 2 then _ else _) = _
  rw [if_neg (by omega), bind_ok (byteIn_length hattr hroom)]
  change (if stop - pos < msg.attrLength pos then _ else _) = _
  rw [if_neg (by omega), bind_ok (byteIn_type hattr hroom), if_pos hskip.other]
  change searchSub msg (a.malloc place) attr stop wanted n (pos + msg.attrLength pos)
    (stop - pos - msg.attrLength pos) = _
  rw [hleft, hnext]

theorem searchSub_turns (hattr : attr ≤ pos) (h : Turns msg stop wanted pos) (n : Nat) :
    searchSub msg (a.malloc place) attr stop wanted n pos (stop - pos) = .error .endless := by
  induction n generalizing pos with
  | zero => rfl
  | succ n ih =>
    obtain ⟨next, hskip, hnext⟩ := h.skips
    have hle := hskip.next_eq
    rw [searchSub_skips hattr hskip]
    exact ih (by omega) hnext

theorem searchSub_finds (a : Allocator) (place : Nat) (hattr : attr ≤ pos) (hsub : SubAt msg stop pos)
    (htype : msg.attrType pos = wanted) :
    ∃ data, searchSub msg (a.malloc place) attr stop wanted (n + 1) pos (stop - pos) =
      .ok (.stop data) := by
  have hroom := hsub.header
  have hfits := hsub.fits
  have hbyte : msg.attrLength pos < 256 := attrLength_lt msg pos
  change ∃ data, (if stop - pos < 2 then _ else _) = _
  rw [if_neg (by omega), bind_ok (byteIn_length hattr hroom)]
  change ∃ data, (if stop - pos < msg.attrLength pos then _ else _) = _
  rw [if_neg (by omega), bind_ok (byteIn_type hattr hroom),
    if_neg (by rw [htype]; exact fun h => h rfl)]
  have hdef : (msg.buf.getD (pos + 1) 0).toNat = msg.attrLength pos := rfl
  dsimp only
  rw [hdef]
  cases hmalloc : a.malloc place (sizeSub (msg.attrLength pos) 2) with
  | none => exact ⟨none, rfl⟩
  | some block =>
    have huser := a.malloc_user hmalloc
    have hlength := a.length_malloc hmalloc
    have htwo : 2 ≤ msg.attrLength pos := by
      unfold sizeSub at huser
      omega
    have hlen : sizeSub (msg.attrLength pos) 2 = msg.attrLength pos - 2 :=
      sizeSub_of_le htwo (by omega)
    have hload : loadIn msg.buf attr stop (pos + 2) (sizeSub (msg.attrLength pos) 2) =
        .ok (slice msg.buf (pos + 2) (sizeSub (msg.attrLength pos) 2)) :=
      loadIn_ok (by omega) (by omega)
    have hslice : (slice msg.buf (pos + 2) (sizeSub (msg.attrLength pos) 2)).length ≤
        sizeSub (msg.attrLength pos) 2 := by
      rw [slice]
      exact List.length_take_le _ _
    have hstore : store block 0 (slice msg.buf (pos + 2) (sizeSub (msg.attrLength pos) 2)) =
        .ok (overwrite block 0 (slice msg.buf (pos + 2) (sizeSub (msg.attrLength pos) 2))) :=
      store_ok (by omega)
    exact ⟨some _, (bind_ok hload).trans (bind_ok hstore)⟩

theorem searchSub_ends (a : Allocator) (place : Nat) (hattr : attr ≤ pos)
    (hturns : ¬Turns msg stop wanted pos)
    (hn : stop - pos < n) :
    (Finds msg stop wanted pos ∧ ∃ data,
      searchSub msg (a.malloc place) attr stop wanted n pos (stop - pos) = .ok (.stop data)) ∨
    (¬Finds msg stop wanted pos ∧
      searchSub msg (a.malloc place) attr stop wanted n pos (stop - pos) = .ok .next) := by
  induction n generalizing pos with
  | zero => omega
  | succ n ih =>
    by_cases hroom : pos + 2 ≤ stop
    · by_cases hfits : pos + msg.attrLength pos ≤ stop
      · by_cases htype : msg.attrType pos = wanted
        · exact .inl ⟨⟨pos, ReflTransGen.refl, ⟨hroom, hfits⟩, htype⟩,
            searchSub_finds a place hattr ⟨hroom, hfits⟩ htype⟩
        · have hskip : Skips msg stop wanted pos (pos + msg.attrLength pos) :=
            ⟨⟨hroom, hfits⟩, htype, rfl⟩
          have hpos : msg.attrLength pos ≠ 0 := fun hzero =>
            hturns ⟨pos, ReflTransGen.refl, hroom, htype, hzero⟩
          rw [searchSub_skips hattr hskip, finds_of_skips hskip]
          exact ih (by omega) (fun h => hturns (turns_of_skips hskip h)) (by omega)
      · right
        refine ⟨not_finds_of_not_sub fun h => hfits h.fits, ?_⟩
        obtain ⟨m, rfl⟩ : ∃ m, n = m + 1 := ⟨n - 1, by omega⟩
        rw [searchSub_misfits hattr hroom hfits, searchSub_short (by decide)]
    · right
      refine ⟨not_finds_of_not_sub fun h => hroom h.header, ?_⟩
      exact searchSub_short (by omega)

theorem searchSub_stop {data : Option (List U8)} (hattr : attr ≤ pos)
    (h : searchSub msg (a.malloc place) attr stop wanted n pos (stop - pos) = .ok (.stop data)) :
    Finds msg stop wanted pos := by
  induction n generalizing pos with
  | zero => cases h
  | succ n ih =>
    by_cases hroom : pos + 2 ≤ stop
    · by_cases hfits : pos + msg.attrLength pos ≤ stop
      · by_cases htype : msg.attrType pos = wanted
        · exact ⟨pos, ReflTransGen.refl, ⟨hroom, hfits⟩, htype⟩
        · have hskip : Skips msg stop wanted pos (pos + msg.attrLength pos) :=
            ⟨⟨hroom, hfits⟩, htype, rfl⟩
          rw [searchSub_skips hattr hskip] at h
          exact (finds_of_skips hskip).mpr (ih (by omega) h)
      · rw [searchSub_misfits hattr hroom hfits] at h
        cases n with
        | zero => cases h
        | succ n =>
          rw [searchSub_short (by decide)] at h
          cases h
    · rw [searchSub_short (by omega)] at h
      cases h

end

end OpenwrtMtk.Dot1x.Access

/-!
## The accessors of a parsed message

Which parsed messages the accessors of `radius.c` read without leaving the attributes and without
turning forever.
-/

namespace OpenwrtMtk.Dot1x.Access

open Toolkit

set_option autoImplicit false

/-! ### The attributes of a vendor -/

section Vendors

variable (msg : RadiusMsg) (vendor : Nat) (wanted : U8)

structure IsVendor (attr : Nat) : Prop where
  type : msg.attrType attr = radiusAttrVendorSpecific
  room : sizeofRadiusAttrHdr + 4 ≤ msg.attrLength attr
  id : ntohl msg.buf (attr + sizeofRadiusAttrHdr) = vendor

/-- The attribute is of the vendor, and a sub-attribute that is `wanted` is found in it. -/
def FindsIn (attr : Nat) : Prop :=
  IsVendor msg vendor attr ∧
    Finds msg (attr + msg.attrLength attr) wanted (attr + sizeofRadiusAttrHdr + 4)

def TurnsIn (attr : Nat) : Prop :=
  IsVendor msg vendor attr ∧
    Turns msg (attr + msg.attrLength attr) wanted (attr + sizeofRadiusAttrHdr + 4)

def SearchEnds (attrs : List Nat) : Prop :=
  ∀ before attr after, attrs = before ++ attr :: after →
    (∀ b ∈ before, ¬FindsIn msg vendor wanted b) → ¬TurnsIn msg vendor wanted attr

end Vendors

section

variable {msg : RadiusMsg} {attr vendor rounds place : Nat} {attrs : List Nat} {wanted : U8}
  {a : Allocator}

theorem searchEnds_cons : SearchEnds msg vendor wanted (attr :: attrs) ↔
    ¬TurnsIn msg vendor wanted attr ∧
      (FindsIn msg vendor wanted attr ∨ SearchEnds msg vendor wanted attrs) := by
  constructor
  · intro h
    refine ⟨h [] attr attrs rfl (fun b hb => by cases hb), ?_⟩
    by_cases hfinds : FindsIn msg vendor wanted attr
    · exact .inl hfinds
    · right
      rintro before next after rfl hbefore
      apply h (attr :: before) next after rfl
      intro b hb
      rcases List.mem_cons.mp hb with rfl | hb
      · exact hfinds
      · exact hbefore b hb
  · rintro ⟨hturns, hrest⟩ before next after heq hbefore
    cases before with
    | nil =>
      cases heq
      exact hturns
    | cons b before =>
      obtain ⟨rfl, htail⟩ := List.cons.inj heq
      rcases hrest with hfinds | hrest
      · exact absurd hfinds (hbefore attr List.mem_cons_self)
      · exact hrest before next after htail fun b hb => hbefore b (List.mem_cons_of_mem _ hb)

theorem ntohl_slice (buf : List U8) (off : Nat) : ntohl (slice buf off 4) 0 = ntohl buf off := by
  have hbyte : ∀ k, k < 4 → (slice buf off 4).getD k 0 = buf.getD (off + k) 0 := by
    intro k hk
    rw [List.getD_eq_getElem?_getD, getElem?_slice, if_pos hk, List.getD_eq_getElem?_getD]
  unfold ntohl ntohs
  rw [hbyte 0 (by decide), hbyte (0 + 1) (by decide), hbyte (0 + 2) (by decide),
    hbyte (0 + 2 + 1) (by decide)]
  rfl

theorem getVendorAttr_other (h : Inside msg attr) (hvendor : ¬IsVendor msg vendor attr) :
    getVendorAttr msg (a.malloc place) vendor wanted rounds (attr :: attrs) =
      getVendorAttr msg (a.malloc place) vendor wanted rounds attrs := by
  have hheader := h.header
  rw [getVendorAttr, bind_ok h.typeOf]
  by_cases htype : msg.attrType attr = radiusAttrVendorSpecific
  · rw [if_neg (by rw [htype]; exact fun hne => hne rfl), bind_ok h.lengthOf]
    dsimp only
    by_cases hroom : msg.attrLength attr - sizeofRadiusAttrHdr < 4
    · rw [if_pos hroom]
    · rw [if_neg hroom, bind_ok (loadIn_ok (by omega) (by omega)), ntohl_slice, if_pos]
      exact fun hid => hvendor ⟨htype, by omega, hid⟩
  · rw [if_pos htype]

theorem getVendorAttr_vendor (h : Inside msg attr) (hvendor : IsVendor msg vendor attr) :
    getVendorAttr msg (a.malloc place) vendor wanted rounds (attr :: attrs) =
      (searchSub msg (a.malloc place) attr (attr + msg.attrLength attr) wanted rounds
        (attr + sizeofRadiusAttrHdr + 4)
        (attr + msg.attrLength attr - (attr + sizeofRadiusAttrHdr + 4)) >>=
          afterSearch (getVendorAttr msg (a.malloc place) vendor wanted rounds attrs)) := by
  have hroom := hvendor.room
  have hleft : attr + msg.attrLength attr - (attr + sizeofRadiusAttrHdr + 4) =
      msg.attrLength attr - sizeofRadiusAttrHdr - 4 := by omega
  rw [getVendorAttr, bind_ok h.typeOf, if_neg (by rw [hvendor.type]; exact fun hne => hne rfl),
    bind_ok h.lengthOf, hleft]
  dsimp only
  rw [if_neg (by omega), bind_ok (loadIn_ok (by omega) (by omega)), ntohl_slice,
    if_neg (by rw [hvendor.id]; exact fun hne => hne rfl)]

def manyRounds : Nat := 256

theorem getVendorAttr_ends (a : Allocator) (place : Nat) (hin : ∀ attr ∈ attrs, Inside msg attr)
    (h : SearchEnds msg vendor wanted attrs) :
    Ends (getVendorAttr msg (a.malloc place) vendor wanted manyRounds attrs) := by
  induction attrs with
  | nil => exact ⟨none, rfl⟩
  | cons attr attrs ih =>
    have hattr := hin attr List.mem_cons_self
    have hrest : ∀ b ∈ attrs, Inside msg b := fun b hb => hin b (List.mem_cons_of_mem _ hb)
    obtain ⟨hturns, hfinds⟩ := searchEnds_cons.mp h
    by_cases hvendor : IsVendor msg vendor attr
    · have hmany : attr + msg.attrLength attr - (attr + sizeofRadiusAttrHdr + 4) < manyRounds := by
        have := attrLength_lt msg attr
        unfold manyRounds
        omega
      rw [getVendorAttr_vendor hattr hvendor]
      have hle : attr ≤ attr + sizeofRadiusAttrHdr + 4 := by omega
      rcases searchSub_ends a place hle (fun ht => hturns ⟨hvendor, ht⟩) hmany with
        ⟨_, data, hstop⟩ | ⟨hnot, hnext⟩
      · rw [bind_ok hstop]
        exact ⟨data, rfl⟩
      · rw [bind_ok hnext]
        exact ih hrest (hfinds.resolve_left fun hf => hnot hf.2)
    · rw [getVendorAttr_other hattr hvendor]
      exact ih hrest (hfinds.resolve_left fun hf => hvendor hf.1)

theorem searchEnds_of_getVendorAttr (hin : ∀ attr ∈ attrs, Inside msg attr)
    (h : Ends (getVendorAttr msg (a.malloc place) vendor wanted rounds attrs)) :
    SearchEnds msg vendor wanted attrs := by
  induction attrs with
  | nil =>
    intro before attr after heq
    cases before <;> cases heq
  | cons attr attrs ih =>
    have hattr := hin attr List.mem_cons_self
    have hrest : ∀ b ∈ attrs, Inside msg b := fun b hb => hin b (List.mem_cons_of_mem _ hb)
    apply searchEnds_cons.mpr
    by_cases hvendor : IsVendor msg vendor attr
    · rw [getVendorAttr_vendor hattr hvendor] at h
      obtain ⟨found, hsearch, hafter⟩ := ends_bind.mp h
      constructor
      · rintro ⟨_, hturns⟩
        rw [searchSub_turns (by omega) hturns] at hsearch
        cases hsearch
      · cases found with
        | next => exact .inr (ih hrest hafter)
        | stop data => exact .inl ⟨hvendor, searchSub_stop (by omega) hsearch⟩
    · rw [getVendorAttr_other hattr hvendor] at h
      exact ⟨fun ht => hvendor ht.1, .inr (ih hrest h)⟩

end

/-! ### The keys -/

theorem length_mask {cipher : List U8} (H : Digest) (bytes : List U8)
    (hcipher : cipher.length = md5MacLen) :
    (List.zipWith (· ^^^ ·) cipher (H.md5 bytes)).length = md5MacLen := by
  rw [List.length_zipWith, hcipher, H.length_md5]
  rfl

theorem maskSeed_ends {key : List U8} {first : Bool} {pos : Nat} (sent : SentMsg)
    (hsalt : 2 ≤ key.length) (hkey : pos ≤ key.length) (hpos : first = false → md5MacLen ≤ pos) :
    Ends (maskSeed key sent first pos) := by
  unfold maskSeed
  cases first with
  | true =>
    rw [if_pos rfl, bind_ok sent.authenticator_ok, bind_ok (load_ok (by omega))]
    exact ⟨_, rfl⟩
  | false =>
    have hfirst := hpos rfl
    rw [if_neg (by decide), load_ok (by omega)]
    exact ⟨_, rfl⟩

theorem decryptFrom_ok (H : Digest) (secret key : List U8) (sent : SentMsg) {n pos ppos : Nat}
    {first : Bool} {plain : List U8} (hkey : pos + md5MacLen * n ≤ key.length)
    (hplain : ppos + md5MacLen * n ≤ plain.length) (hsalt : 2 ≤ key.length)
    (hpos : first = false → md5MacLen ≤ pos) :
    ∃ out, decryptFrom H secret key sent n first pos ppos plain = .ok out ∧
      out.length = plain.length := by
  induction n generalizing pos ppos first plain with
  | zero => exact ⟨plain, rfl, rfl⟩
  | succ n ih =>
    unfold md5MacLen at hkey hplain
    obtain ⟨mask, hmask⟩ := maskSeed_ends sent hsalt (by omega) hpos
    have hload : load key pos md5MacLen = .ok (slice key pos md5MacLen) :=
      load_ok (by unfold md5MacLen; omega)
    have hcipher : (slice key pos md5MacLen).length = md5MacLen :=
      length_slice (by unfold md5MacLen; omega)
    have hblock := length_mask H (secret ++ mask) hcipher
    have hroom : ppos + (List.zipWith (· ^^^ ·) (slice key pos md5MacLen)
        (H.md5 (secret ++ mask))).length ≤ plain.length := by
      rw [hblock]
      unfold md5MacLen
      omega
    have hlength := length_overwrite hroom
    have hrest : ppos + md5MacLen + md5MacLen * n ≤ (overwrite plain ppos (List.zipWith (· ^^^ ·)
        (slice key pos md5MacLen) (H.md5 (secret ++ mask)))).length := by
      rw [hlength]
      unfold md5MacLen
      omega
    obtain ⟨out, hout, hsame⟩ := ih (by unfold md5MacLen; omega) hrest
      (fun _ => Nat.le_add_left md5MacLen pos)
    refine ⟨out, ?_, hsame.trans hlength⟩
    rw [decryptFrom, bind_ok hmask, bind_ok hload, bind_ok (store_ok hroom)]
    exact hout

theorem decryptMsKey_ends (a : Allocator) (place : Nat) (H : Digest) (key : List U8)
    (sent : SentMsg) (secret : List U8) : Ends (decryptMsKey a place H key sent secret) := by
  unfold decryptMsKey
  split
  · exact ⟨none, rfl⟩
  · rename_i hshort
    dsimp only
    split
    · exact ⟨none, rfl⟩
    · rename_i hblocks
      cases hplain : a.malloc place (key.length - 2) with
      | none => exact ⟨none, rfl⟩
      | some plain =>
        have hlength := a.length_malloc hplain
        have hkey : 2 + md5MacLen * ((key.length - 2) / md5MacLen) ≤ key.length := by
          unfold md5MacLen
          omega
        have hroom : 0 + md5MacLen * ((key.length - 2) / md5MacLen) ≤ plain.length := by omega
        have hfirst : true = false → md5MacLen ≤ 2 := fun h => by cases h
        obtain ⟨out, hout, hsame⟩ := decryptFrom_ok H secret key sent hkey hroom (by omega) hfirst
        dsimp only
        rw [bind_ok hout, bind_ok (loadByte_ok (by omega))]
        split
        · exact ⟨none, rfl⟩
        · rename_i hfits
          cases hres : a.malloc (place + 1) (out.getD 0 0).toNat with
          | none => exact ⟨none, rfl⟩
          | some res =>
            have hroom := a.length_malloc hres
            have hvalue : (slice out 1 (out.getD 0 0).toNat).length = (out.getD 0 0).toNat :=
              length_slice (by omega)
            dsimp only
            rw [bind_ok (load_ok (by omega)), bind_ok (store_ok (by omega))]
            exact ⟨some _, rfl⟩

/-! ### All accessors -/

def ampleAllocator : Allocator where
  malloc _ n := if n ≤ 2 ^ 31 then some (List.replicate n 0) else none
  length_malloc := by
    intro place n block h
    split at h
    · cases h
      exact List.length_replicate
    · cases h
  malloc_user := by
    intro place n block h
    split at h
    · assumption
    · cases h

def emptyAllocator : Allocator where
  malloc _ _ := none
  length_malloc := by
    intro place n block h
    cases h
  malloc_user := by
    intro place n block h
    cases h

/-- The accessors come to a value whatever is allocated, and `Radius_msg_verify` leaves the message
as it was. -/
structure StayInside (H : Digest) (msg : RadiusMsg) (type subtype : U8) (secret : List U8)
    (sent : Option SentMsg) : Prop where
  verify : ∃ valid, radiusMsgVerify msg H secret sent = .ok (valid, msg)
  eap : ∀ a, Ends (radiusMsgGetEap msg a)
  attr : ∀ buf, Ends (radiusMsgGetAttr msg type buf)
  keys : ∀ a, ∃ rounds, Ends (radiusMsgGetMsKeys a H msg secret rounds sent)
  wfa : ∀ a, ∃ rounds, Ends (radiusMsgGetWfaAttr msg a subtype rounds)

section

variable {msg : RadiusMsg} {a : Allocator} {H : Digest} {secret : List U8} {sent : SentMsg}
  {place rounds : Nat}

theorem getMsKey_ends (a : Allocator) (place : Nat) (H : Digest) (sent : SentMsg)
    (secret : List U8) {msType : U8} (hmsg : Parsed msg)
    (h : SearchEnds msg radiusVendorIdMicrosoft msType msg.attrs) :
    Ends (radiusMsgGetMsKey a place H msg sent secret msType manyRounds) := by
  obtain ⟨key, hkey⟩ := getVendorAttr_ends a place hmsg.attrs h
  rw [radiusMsgGetMsKey, radiusMsgGetMsAttr, bind_ok hkey]
  cases key with
  | none => exact ⟨none, rfl⟩
  | some key => exact decryptMsKey_ends a (place + 1) H key sent secret

theorem searchEnds_of_getMsKey {msType : U8} (hmsg : Parsed msg)
    (h : Ends (radiusMsgGetMsKey a place H msg sent secret msType rounds)) :
    SearchEnds msg radiusVendorIdMicrosoft msType msg.attrs := by
  obtain ⟨key, hkey, _⟩ := ends_bind.mp h
  exact searchEnds_of_getVendorAttr hmsg.attrs ⟨key, hkey⟩

theorem getMsKeys_ends (hmsg : Parsed msg)
    (hsend : SearchEnds msg radiusVendorIdMicrosoft radiusVendorAttrMsMppeSendKey msg.attrs)
    (hrecv : SearchEnds msg radiusVendorIdMicrosoft radiusVendorAttrMsMppeRecvKey msg.attrs) :
    Ends (radiusMsgGetMsKeys a H msg secret manyRounds (some sent)) := by
  unfold radiusMsgGetMsKeys
  cases a.malloc 0 sizeofRadiusMsMppeKeys with
  | none => exact ⟨none, rfl⟩
  | some keys =>
    obtain ⟨send, hsend⟩ := getMsKey_ends a 1 H sent secret hmsg hsend
    obtain ⟨recv, hrecv⟩ := getMsKey_ends a 4 H sent secret hmsg hrecv
    dsimp only
    rw [bind_ok hsend, bind_ok hrecv]
    exact ⟨_, rfl⟩

theorem searchEnds_of_getMsKeys (hmsg : Parsed msg)
    (h : Ends (radiusMsgGetMsKeys ampleAllocator H msg secret rounds (some sent))) :
    SearchEnds msg radiusVendorIdMicrosoft radiusVendorAttrMsMppeSendKey msg.attrs ∧
      SearchEnds msg radiusVendorIdMicrosoft radiusVendorAttrMsMppeRecvKey msg.attrs := by
  obtain ⟨send, hsend, hrest⟩ := ends_bind.mp h
  obtain ⟨recv, hrecv, _⟩ := ends_bind.mp hrest
  exact ⟨searchEnds_of_getMsKey hmsg ⟨send, hsend⟩, searchEnds_of_getMsKey hmsg ⟨recv, hrecv⟩⟩

end

/-- The accessors of a message that the parser has accepted stay inside if and only if its only
Message-Authenticator has sixteen bytes and no search comes to a sub-attribute of length zero. -/
theorem radius_accessors_stay_inside {mem : Memory} {data : List U8} {msg : RadiusMsg}
    (hparse : radiusMsgParse mem data = some msg) (H : Digest) (type subtype : U8)
    (secret : List U8) (sent : Option SentMsg) :
    StayInside H msg type subtype secret sent ↔
      (sent.isSome → MacFits msg ∧
        SearchEnds msg radiusVendorIdMicrosoft radiusVendorAttrMsMppeSendKey msg.attrs ∧
        SearchEnds msg radiusVendorIdMicrosoft radiusVendorAttrMsMppeRecvKey msg.attrs) ∧
      SearchEnds msg radiusVendorIdWfa subtype msg.attrs := by
  have hmsg := parse_parsed hparse
  constructor
  · intro h
    constructor
    · intro hsent
      obtain ⟨sent, rfl⟩ := Option.isSome_iff_exists.mp hsent
      obtain ⟨valid, hverify⟩ := h.verify
      obtain ⟨rounds, hkeys⟩ := h.keys ampleAllocator
      exact ⟨macFits_of_verify hmsg ⟨_, hverify⟩, searchEnds_of_getMsKeys hmsg hkeys⟩
    · obtain ⟨rounds, hwfa⟩ := h.wfa ampleAllocator
      exact searchEnds_of_getVendorAttr hmsg.attrs hwfa
  · rintro ⟨hsent, hwfa⟩
    refine ⟨?_, ?_, ?_, ?_, ?_⟩
    · cases sent with
      | none => exact ⟨false, rfl⟩
      | some sent => exact ⟨_, verify_ok H secret sent hmsg (hsent rfl).1 fun _ => 0⟩
    · intro a
      exact ⟨_, getEap_ok hmsg a⟩
    · intro buf
      exact ⟨_, getAttr_ok hmsg type buf⟩
    · intro a
      cases sent with
      | none => exact ⟨0, none, rfl⟩
      | some sent =>
        obtain ⟨_, hsend, hrecv⟩ := hsent rfl
        exact ⟨manyRounds, getMsKeys_ends hmsg hsend hrecv⟩
    · intro a
      exact ⟨manyRounds, getVendorAttr_ends a 0 hmsg.attrs hwfa⟩

def packed (code : U8) (attrs : List U8) : List U8 :=
  [code, 0] ++ htons (sizeofRadiusHdr + attrs.length) ++ List.replicate 16 0 ++ attrs

def bareSent : SentMsg := ⟨⟨List.replicate sizeofRadiusHdr 0, 20, [], 16⟩, by decide⟩

def soundAttrs : List U8 :=
  [79, 6, 1, 1, 0, 4] ++ [26, 10, 0, 0, 1, 55, 16, 4, 7, 7] ++ 80 :: 18 :: List.replicate 16 0

def soundMsg : RadiusMsg := ⟨packed 11 soundAttrs, 54, [20, 26, 36], 16⟩

theorem radius_accessors_stay_inside_sound :
    radiusMsgParse .ample (packed 11 soundAttrs) = some soundMsg ∧
      StayInside zeroDigest soundMsg radiusAttrState 1 [] (some bareSent) := by
  have hparse : radiusMsgParse .ample (packed 11 soundAttrs) = some soundMsg := by decide
  have hin := (parse_parsed hparse).attrs
  have hsend : radiusMsgGetMsAttr soundMsg (emptyAllocator.malloc 0) 16 8 = .ok none := by
    decide
  have hrecv : radiusMsgGetMsAttr soundMsg (emptyAllocator.malloc 0) 17 8 = .ok none := by
    decide
  have hwfa : ∀ attr ∈ soundMsg.attrs,
      ntohl soundMsg.buf (attr + sizeofRadiusAttrHdr) ≠ radiusVendorIdWfa := by decide
  refine ⟨hparse, (radius_accessors_stay_inside hparse zeroDigest radiusAttrState 1 []
    (some bareSent)).mpr ⟨fun _ => ⟨?_, ?_, ?_⟩, ?_⟩⟩
  · intro attr hattr
    have hmacs : macs soundMsg = [36] := by decide
    obtain rfl : 36 = attr := List.singleton_inj.mp (hmacs.symm.trans hattr)
    decide
  · exact searchEnds_of_getVendorAttr hin ⟨_, hsend⟩
  · exact searchEnds_of_getVendorAttr hin ⟨_, hrecv⟩
  · intro before attr after heq _ hturns
    have hattr : attr ∈ soundMsg.attrs := by
      rw [heq]
      exact List.mem_append_right before List.mem_cons_self
    exact hwfa attr hattr hturns.1.id

def badAttrs : List U8 := [26, 8, 0, 0, 1, 55, 1, 0] ++ [80, 2]

def badMsg : RadiusMsg := ⟨packed 2 badAttrs, 30, [20, 28], 16⟩

theorem radius_accessors_may_leave :
    radiusMsgParse .ample (packed 2 badAttrs) = some badMsg ∧
      ∀ (H : Digest) (type subtype : U8) (secret : List U8),
        ¬Ends (radiusMsgVerify badMsg H secret (some bareSent)) ∧
        (∀ rounds,
          ¬Ends (radiusMsgGetMsKeys ampleAllocator H badMsg secret rounds (some bareSent))) ∧
        ¬StayInside H badMsg type subtype secret (some bareSent) := by
  have hparse : radiusMsgParse .ample (packed 2 badAttrs) = some badMsg := by decide
  have hmsg := parse_parsed hparse
  have hmacs : macs badMsg = [28] := by decide
  have hshort : ¬MacFits badMsg := by
    intro hfits
    have hlen := hfits 28 hmacs
    exact absurd hlen (by decide)
  refine ⟨hparse, fun H type subtype secret => ⟨?_, ?_, ?_⟩⟩
  · exact fun h => hshort (macFits_of_verify hmsg h)
  · intro rounds h
    have hends := (searchEnds_of_getMsKeys hmsg h).1
    have hvendor : IsVendor badMsg radiusVendorIdMicrosoft 20 := ⟨by decide, by decide, by decide⟩
    apply hends [] 20 [28] rfl (fun b hb => by cases hb)
    exact ⟨hvendor, 26, Relation.ReflTransGen.refl, by decide, by decide, by decide⟩
  · intro h
    obtain ⟨valid, hverify⟩ := h.verify
    exact hshort (macFits_of_verify hmsg ⟨_, hverify⟩)

end OpenwrtMtk.Dot1x.Access
