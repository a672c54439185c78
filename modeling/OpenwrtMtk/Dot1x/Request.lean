import OpenwrtMtk.Dot1x.Ieee8021x

/-!
# The identifier of a request

Whatever a request is built from and signed with, it carries the identifier it was begun with.
-/

namespace OpenwrtMtk.Dot1x

open Toolkit

set_option autoImplicit false

structure Headed (id : U8) (msg : RadiusMsg) : Prop where
  length : sizeofRadiusHdr ≤ msg.buf.length
  identifier : msg.buf[1]? = some id

variable {H : Digest} {mem : Memory} {msg msg' : RadiusMsg} {id : U8}

theorem Headed.eq (h : Headed id msg) : msg.identifier = id := by
  rw [RadiusMsg.identifier, List.getD_eq_getElem?_getD, h.identifier]
  rfl

theorem Headed.append {bytes : List U8} (h : Headed id msg) (hbuf : msg'.buf = msg.buf ++ bytes) :
    Headed id msg' where
  length := by
    rw [hbuf, List.length_append]
    exact Nat.le_add_right_of_le h.length
  identifier := by
    have hlen := h.length
    rw [hbuf, List.getElem?_append_left (by unfold sizeofRadiusHdr at hlen; omega), h.identifier]

theorem Headed.overwrite {off : Nat} {bytes : List U8} (h : Headed id msg) (hoff : 2 ≤ off)
    (hlen : off + bytes.length ≤ msg.buf.length) (hbuf : msg'.buf = overwrite msg.buf off bytes) :
    Headed id msg' where
  length := by
    rw [hbuf, length_overwrite hlen]
    exact h.length
  identifier := by
    rw [hbuf, getElem?_overwrite_out hlen (by omega), h.identifier]

theorem Headed.addAttrs {attrs : List (U8 × List U8)} (h : Headed id msg)
    (hadd : addAttrs mem msg attrs = some msg') : Headed id msg' := by
  induction attrs generalizing msg with
  | nil =>
    cases hadd
    exact h
  | cons attr attrs ih =>
    obtain ⟨mid, hfirst, hrest⟩ := Option.bind_eq_some_iff.mp hadd
    exact ih (h.append (addAttr_buf hfirst)) hrest

theorem Headed.addEapFrom {n : Nat} {data : List U8} (h : Headed id msg)
    (hadd : addEapFrom mem n msg data = some msg') : Headed id msg' := by
  induction n generalizing msg data with
  | zero =>
    cases hadd
    exact h
  | succ n ih =>
    rw [Dot1x.addEapFrom] at hadd
    split at hadd
    · cases hadd
      exact h
    · obtain ⟨mid, hfirst, hrest⟩ := Option.bind_eq_some_iff.mp hadd
      exact ih (h.append (addAttr_buf hfirst)) hrest

theorem Headed.copyState {s : Sta} (h : Headed id msg) (hcopy : copyState mem s msg = some msg') :
    Headed id msg' := by
  unfold Dot1x.copyState at hcopy
  split at hcopy
  · cases hcopy
    exact h
  · split at hcopy
    · unfold radiusMsgCopyAttr at hcopy
      split at hcopy
      · cases hcopy
        exact h
      · exact h.append (addAttr_buf hcopy)
    · cases hcopy
      exact h

theorem headed_new {code : U8} (h : radiusMsgNew mem code id = some msg) : Headed id msg := by
  unfold radiusMsgNew radiusMsgInitialize at h
  split at h
  · obtain ⟨blank, hblank, rfl⟩ := Option.map_eq_some_iff.mp h
    split at hblank
    · cases hblank
    · split at hblank
      · cases hblank
        exact ⟨Nat.le_refl 20, rfl⟩
      · cases hblank
  · cases h

theorem headed_buildRequest {o : SendOracle} {conf : Config} {bss : Bss} {s : Sta}
    (h : buildRequest H o conf bss s id = some msg) : Headed id msg := by
  obtain ⟨fresh, hnew, h⟩ := Option.bind_eq_some_iff.mp h
  obtain ⟨filled, hattrs, h⟩ := Option.bind_eq_some_iff.mp h
  obtain ⟨carrying, heap, hcopy⟩ := Option.bind_eq_some_iff.mp h
  have hfresh := headed_new hnew
  have hsigned : Headed id (radiusMsgMakeAuthenticator H fresh o.seed) := by
    apply hfresh.overwrite (by omega) _ rfl
    rw [H.length_md5]
    exact hfresh.length
  exact ((hsigned.addAttrs hattrs).addEapFrom heap).copyState hcopy

theorem Headed.finish {secret : List U8} (h : Headed id msg)
    (hfin : radiusMsgFinish mem H msg secret = some msg') : Headed id msg' := by
  obtain ⟨signed, hadd, rfl⟩ := Option.map_eq_some_iff.mp hfin
  have hbuf := addAttr_buf hadd
  have hsigned := h.append hbuf
  have htotal : signed.buf.length = msg.buf.length + 18 := by
    rw [hbuf]
    simp [md5MacLen]
  have hlen := hsigned.length
  unfold sizeofRadiusHdr at hlen
  have hstamped : Headed id { signed with
      buf := Toolkit.overwrite signed.buf 2 (htons signed.buf.length) } :=
    hsigned.overwrite (by omega) (by simp only [htons, List.length_cons, List.length_nil]; omega) rfl
  apply hstamped.overwrite _ _ rfl
  · unfold sizeofRadiusAttrHdr
    have := h.length
    unfold sizeofRadiusHdr at this
    omega
  · rw [H.length_hmacMd5, length_overwrite (by simp only [htons, List.length_cons, List.length_nil]; omega), htotal]
    unfold sizeofRadiusAttrHdr
    omega

end OpenwrtMtk.Dot1x
