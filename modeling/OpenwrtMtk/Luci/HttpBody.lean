import Mathlib.Algebra.Order.BigOperators.Group.List
import Mathlib.Algebra.Order.Ring.Nat
import Mathlib.Data.List.TakeWhile
import OpenwrtMtk.Luci.HttpRoundTrip

/-!
# Form parameters in a message body

`urldecode_message_body` on the encoding of a table: what it stores does not depend on how the body
is cut into chunks, and agrees with `urldecode_params` for names that need no escape.
-/

namespace OpenwrtMtk.Luci.Http

open Toolkit

set_option autoImplicit false

section Pairs

variable {pair rest xs ys : List U8} {params params' : Params}

theorem bodyPairs_append (pair xs ys : List U8) (params : Params) :
    bodyPairs pair (xs ++ ys) params =
      (bodyPairs pair xs params).bind fun s => bodyPairs s.1 ys s.2 := by
  induction xs generalizing pair params with
  | nil => rfl
  | cons c xs ih =>
    rw [List.cons_append, bodyPairs, bodyPairs]
    split
    · cases bodyPair params pair with
      | none => rfl
      | some params' => exact ih [] params'
    · exact ih (pair ++ [c]) params

theorem bodyPairs_of_no_separator (hxs : ∀ c ∈ xs, isSeparator c = false) (pair : List U8)
    (params : Params) : bodyPairs pair xs params = some (pair ++ xs, params) := by
  induction xs generalizing pair with
  | nil => rw [bodyPairs, List.append_nil]
  | cons c xs ih =>
    have hc : ¬ isSeparator c = true := by simp [hxs c List.mem_cons_self]
    rw [bodyPairs, if_neg hc, ih fun d hd => hxs d (List.mem_cons_of_mem _ hd), List.append_assoc]
    rfl

theorem bodyPairs_rest (hpair : ∀ c ∈ pair, isSeparator c = false)
    (h : bodyPairs pair xs params = some (rest, params')) : ∀ c ∈ rest, isSeparator c = false := by
  induction xs generalizing pair params with
  | nil =>
    injection h with h
    injection h with hrest
    exact hrest ▸ hpair
  | cons c xs ih =>
    rw [bodyPairs] at h
    split at h
    · obtain ⟨next, -, hnext⟩ := Option.bind_eq_some_iff.mp h
      exact ih (by simp) hnext
    · rename_i hc
      refine ih ?_ h
      intro d hd
      rcases List.mem_append.mp hd with hd | hd
      · exact hpair d hd
      · rw [List.mem_singleton.mp hd]
        exact Bool.eq_false_iff.mpr hc

theorem bodyPairs_resume (h : bodyPairs [] xs params = some (rest, params')) (ys : List U8) :
    bodyPairs [] (rest ++ ys) params' = bodyPairs [] (xs ++ ys) params := by
  have hrest := bodyPairs_rest (by simp) h
  rw [bodyPairs_append, bodyPairs_append, h, bodyPairs_of_no_separator hrest, List.nil_append]

theorem bodyPairs_piece (hpair : ∀ c ∈ pair, isSeparator c = false)
    (h : bodyPair params pair = some params') (ys : List U8) :
    bodyPairs [] (pair ++ 0x26 :: ys) params = bodyPairs [] ys params' := by
  have hsep : isSeparator 0x26 = true := by decide
  rw [bodyPairs_append, bodyPairs_of_no_separator hpair, List.nil_append, Option.bind_some,
    bodyPairs, if_pos hsep]
  dsimp only
  rw [h, Option.bind_some]

end Pairs

section Sink

variable {contentLength : Option Nat} {tlen : Nat} {lchunk rest : List U8} {params params' : Params}

def Admits (contentLength : Option Nat) (tlen : Nat) : Prop :=
  contentLength.any (· + 2 < tlen) = false ∧ tlen ≤ httpMaxContent

theorem Admits.mono {tlen' : Nat} (h : Admits contentLength tlen) (hle : tlen' ≤ tlen) :
    Admits contentLength tlen' := by
  constructor
  · cases contentLength with
    | none => rfl
    | some n =>
      have hn := h.1
      simp only [Option.any_some, decide_eq_false_iff_not] at hn ⊢
      omega
  · exact Nat.le_trans hle h.2

theorem bodySink_step {chunk : Option (List U8)}
    (hadm : Admits contentLength (tlen + (chunk.map List.length).getD 0))
    (h : bodyPairs [] (lchunk ++ chunk.getD [0x26]) params = some (rest, params')) :
    bodySink contentLength ⟨tlen, some lchunk, params⟩ chunk =
      .ok ⟨tlen + (chunk.map List.length).getD 0, some rest, params'⟩ := by
  have hlen : ¬ contentLength.any (· + 2 < tlen + (chunk.map List.length).getD 0) = true := by
    rw [hadm.1]
    exact Bool.false_ne_true
  have hmax : ¬ httpMaxContent < tlen + (chunk.map List.length).getD 0 := Nat.not_lt.mpr hadm.2
  unfold bodySink
  dsimp only
  rw [if_neg hlen, if_neg hmax, h]

theorem bodySink_run (chunks : List (List U8))
    (hadm : Admits contentLength (tlen + chunks.flatten.length))
    (h : bodyPairs [] (lchunk ++ chunks.flatten ++ [0x26]) params = some (rest, params')) :
    (chunks.map some ++ [none]).foldlM (bodySink contentLength) ⟨tlen, some lchunk, params⟩ =
      .ok ⟨tlen + chunks.flatten.length, some rest, params'⟩ := by
  induction chunks generalizing tlen lchunk params with
  | nil =>
    rw [List.flatten_nil, List.append_nil] at h
    rw [List.map_nil, List.nil_append, List.foldlM_cons, bodySink_step hadm h]
    rfl
  | cons c chunks ih =>
    rw [List.flatten_cons, List.length_append, ← Nat.add_assoc] at hadm ⊢
    rw [List.flatten_cons, ← List.append_assoc, List.append_assoc] at h
    have hread := h
    rw [bodyPairs_append] at hread
    obtain ⟨⟨kept, next⟩, hfirst, -⟩ := Option.bind_eq_some_iff.mp hread
    have hstep : bodySink contentLength ⟨tlen, some lchunk, params⟩ (some c) =
        .ok ⟨tlen + c.length, some kept, next⟩ :=
      bodySink_step (hadm.mono (Nat.le_add_right _ _)) hfirst
    rw [← bodyPairs_resume hfirst, ← List.append_assoc] at h
    rw [List.map_cons, List.cons_append, List.foldlM_cons, hstep]
    exact ih hadm h

theorem urldecodeMessageBody_eq (chunks : List (List U8)) (hbody : chunks.flatten ≠ [])
    (hadm : Admits contentLength chunks.flatten.length)
    (h : bodyPairs [] (chunks.flatten ++ [0x26]) params = some (rest, params')) :
    urldecodeMessageBody contentLength params chunks = .ok params' := by
  cases chunks with
  | nil => exact absurd rfl hbody
  | cons c chunks =>
    rw [List.flatten_cons, List.length_append] at hadm
    rw [List.flatten_cons] at h
    have hfirst : bodySink contentLength ⟨0, none, params⟩ (some c) =
        .ok ⟨c.length, some c, params⟩ := by
      have hadm' := hadm.mono (Nat.le_add_right c.length chunks.flatten.length)
      have hlen : ¬ contentLength.any (· + 2 < 0 + c.length) = true := by
        rw [Nat.zero_add, hadm'.1]
        exact Bool.false_ne_true
      have hmax : ¬ httpMaxContent < 0 + c.length := by
        rw [Nat.zero_add]
        exact Nat.not_lt.mpr hadm'.2
      unfold bodySink
      dsimp only [Option.map_some, Option.getD_some]
      rw [if_neg hlen, if_neg hmax, Nat.zero_add]
    rw [urldecodeMessageBody, List.map_cons, List.cons_append, List.foldlM_cons, hfirst]
    have hrun := bodySink_run chunks hadm h
    exact congrArg (Except.map BodyState.params) hrun

end Sink

section Agreement

variable {t : Params}

def keptKey (x : List U8 × List U8) : List U8 × List U8 := (urlencode x.1, plusToBlank x.2)

theorem isspace_of_encodedByte {c : U8} (h : encodedByte c = true) : isspace c = false := by
  have hall : ∀ n : Fin 256, encodedByte (BitVec.ofFin n) = true →
      isspace (BitVec.ofFin n) = false := by decide +kernel
  exact hall c.toFin h

theorem bodyValue_encoded {key : List U8} (val : List U8) (hkey : 0x3d ∉ key) :
    bodyValue (key ++ 0x3d :: urlencode val) = some (urlencode val) := by
  induction key with
  | nil =>
    have hno : ∀ c ∈ urlencode val, (!isspace c) = true := by
      intro c hc
      rw [isspace_of_encodedByte (encodedByte_of_mem_urlencode hc)]
      rfl
    have hdrop : (urlencode val).dropWhile (!isspace ·) = [] := List.dropWhile_eq_nil_iff.mpr hno
    have htake : (urlencode val).takeWhile (!isspace ·) = urlencode val :=
      List.takeWhile_eq_self_iff.mpr hno
    rw [List.nil_append, bodyValue, hdrop, htake]
    exact if_pos ⟨rfl, rfl⟩
  | cons c key ih =>
    have hc : c ≠ 0x3d := fun heq => hkey (heq ▸ List.mem_cons_self)
    rw [List.cons_append, bodyValue, ih fun h => hkey (List.mem_cons_of_mem _ h)]
    exact if_neg fun hand => hc hand.1

theorem bodyPair_encodePair (params : Params) {key : List U8} (val : List U8) (hkey : key ≠ []) :
    bodyPair params (encodePair key val) =
      some (storeParam params (urlencode key) (plusToBlank val)) := by
  have hno : 0x3d ∉ urlencode key := not_mem_urlencode (by decide)
  have hall : ∀ c ∈ urlencode key, decide (c ≠ (0x3d : U8)) = true := fun c hc =>
    decide_eq_true fun heq => hno (heq ▸ hc)
  have hname : bodyKey (encodePair key val) = some (urlencode key) := by
    have hmem : 0x3d ∈ encodePair key val := by simp [encodePair]
    rw [bodyKey, if_pos hmem, encodePair, List.append_assoc, List.takeWhile_append_of_pos hall]
    simp
  have hvalue : bodyValue (encodePair key val) = some (urlencode val) := by
    rw [encodePair, List.append_assoc, List.singleton_append]
    exact bodyValue_encoded val hno
  have hne : urlencode key ≠ [] := fun h => hkey (urlencode_eq_nil.mp h)
  rw [bodyPair, hname]
  dsimp only
  rw [if_neg hne, hvalue, ← urldecode_urlencode val]
  exact finishval_appendval_initval params (urlencode key) (urlencode val) urldecode

theorem bodyPairs_pieces (ps : List (List U8 × List U8)) (hps : ∀ x ∈ ps, x.1 ≠ [])
    (params : Params) :
    bodyPairs [] (ps.flatMap fun x => encodePair x.1 x.2 ++ [0x26]) params =
      some ([], (ps.map keptKey).foldl (fun t x => storeParam t x.1 x.2) params) := by
  induction ps generalizing params with
  | nil => rfl
  | cons x ps ih =>
    have hpair := bodyPair_encodePair params x.2 (hps x List.mem_cons_self)
    rw [List.flatMap_cons, List.append_assoc, List.singleton_append,
      bodyPairs_piece isSeparator_encodePair hpair, ih fun y hy => hps y (List.mem_cons_of_mem _ hy)]
    rfl

theorem joined_append (p : List U8) (ps : List (List U8)) :
    p ++ ps.flatMap (0x26 :: ·) ++ [0x26] = (p :: ps).flatMap (· ++ [0x26]) := by
  induction ps generalizing p with
  | nil => simp
  | cons q ps ih =>
    rw [List.flatMap_cons, List.flatMap_cons, ← ih q]
    simp

theorem bodyPairs_urlencodeParams (ht : ParamTable t) (hne : urlencodeParams t ≠ []) :
    bodyPairs [] (urlencodeParams t ++ [0x26]) [] =
      some ([], ((pairsOf t).map keptKey).foldl (fun t x => storeParam t x.1 x.2) []) := by
  rw [← bodyPairs_pieces _ (fun x hx => key_ne_nil_of_mem_pairsOf ht hx) []]
  match hp : pieces t with
  | [] =>
    rw [urlencodeParams_eq_join, hp] at hne
    exact absurd rfl hne
  | p :: ps =>
    rw [urlencodeParams_eq hp, joined_append, ← hp, pieces, List.flatMap_map]

theorem urldecodeMessageBody_gathers (ht : ParamTable t) {contentLength : Option Nat}
    {chunks : List (List U8)} (hne : ∀ c ∈ chunks, c ≠ [])
    (hbody : chunks.flatten = urlencodeParams t)
    (hadm : Admits contentLength (urlencodeParams t).length) :
    ∃ params, urldecodeMessageBody contentLength [] chunks = .ok params ∧
      Gathers params ((pairsOf t).map keptKey) := by
  have hstart : Gathers [] [] := fun k => rfl
  have hgathers := gathers_stores hstart ((pairsOf t).map keptKey)
  by_cases hempty : urlencodeParams t = []
  · have hpairs : pairsOf t = [] := by
      match hp : pieces t with
      | [] => exact List.map_eq_nil_iff.mp hp
      | p :: ps =>
        have hmem : p ∈ pieces t := hp ▸ List.mem_cons_self
        obtain ⟨x, -, rfl⟩ := List.mem_map.mp hmem
        rw [urlencodeParams_eq hp] at hempty
        exact absurd (List.append_eq_nil_iff.mp hempty).1 (encodePair_ne_nil _ _)
    have hchunks : chunks = [] := by
      cases chunks with
      | nil => rfl
      | cons c chunks =>
        rw [hempty, List.flatten_cons] at hbody
        exact absurd (List.append_eq_nil_iff.mp hbody).1 (hne c List.mem_cons_self)
    subst hchunks
    rw [hpairs] at hgathers ⊢
    refine ⟨[], ?_, hgathers⟩
    rw [hempty] at hadm
    have hlen : ¬ contentLength.any (· + 2 < 0) = true := Bool.eq_false_iff.mp hadm.1
    have hsink : bodySink contentLength ⟨0, none, []⟩ none = .ok ⟨0, none, []⟩ := by
      unfold bodySink
      dsimp only [Option.map_none, Option.getD_none]
      rw [if_neg hlen, if_neg (by decide)]
    rw [urldecodeMessageBody, List.map_nil, List.nil_append, List.foldlM_cons, hsink]
    rfl
  · have hrun := bodyPairs_urlencodeParams ht hempty
    rw [← hbody] at hempty hadm hrun
    exact ⟨_, urldecodeMessageBody_eq chunks hempty hadm hrun, hgathers⟩

/-- A name that `urlencode` changes. -/
def Escaped (key : List U8) : Prop := ∃ c ∈ key, unescaped c = false

theorem urlencode_eq_self {key : List U8} (h : ∀ c ∈ key, unescaped c = true) :
    urlencode key = key := by
  induction key with
  | nil => rfl
  | cons c key ih =>
    have hc : chrenc c = [c] := if_pos (h c List.mem_cons_self)
    have hrest := ih fun d hd => h d (List.mem_cons_of_mem _ hd)
    rw [urlencode] at hrest ⊢
    rw [List.flatMap_cons, hc, hrest]
    rfl

theorem length_le_urlencode (key : List U8) : key.length ≤ (urlencode key).length := by
  induction key with
  | nil => exact Nat.le_refl _
  | cons c key ih =>
    have hc : 1 ≤ (chrenc c).length := by
      unfold chrenc
      split <;> simp
    rw [urlencode] at ih ⊢
    rw [List.flatMap_cons, List.length_append, List.length_cons]
    omega

theorem escaped_urlencode {key : List U8} (h : Escaped key) :
    key.length < (urlencode key).length ∧ 0x25 ∈ urlencode key := by
  obtain ⟨c, hc, hesc⟩ := h
  obtain ⟨front, back, rfl⟩ := List.append_of_mem hc
  have hchr : chrenc c = [0x25, hexDigit (c.toNat / 16), hexDigit (c.toNat % 16)] := by
    rw [chrenc, hesc]
    rfl
  have henc : urlencode (front ++ c :: back) = urlencode front ++ (chrenc c ++ urlencode back) := by
    rw [urlencode, List.flatMap_append, List.flatMap_cons]
    rfl
  rw [henc, hchr]
  constructor
  · have hfront := length_le_urlencode front
    have hback := length_le_urlencode back
    simp only [List.length_append, List.length_cons, List.length_nil]
    omega
  · simp

theorem not_escaped_of_closed {keys : List (List U8)}
    (h : ∀ k ∈ keys, ∃ k' ∈ keys, urlencode k = plusToBlank k') :
    ∀ k ∈ keys, ¬ Escaped k := by
  intro k hk hesc
  have hlong : ∀ n, ∃ k ∈ keys, Escaped k ∧ n ≤ k.length := by
    intro n
    induction n with
    | zero => exact ⟨k, hk, hesc, Nat.zero_le _⟩
    | succ n ih =>
      obtain ⟨k₁, hk₁, hesc₁, hn⟩ := ih
      obtain ⟨hlonger, hpercent⟩ := escaped_urlencode hesc₁
      obtain ⟨k₂, hk₂, heq⟩ := h k₁ hk₁
      have hlen : (plusToBlank k₂).length = k₂.length := List.length_map _
      refine ⟨k₂, hk₂, ?_, ?_⟩
      · rw [heq] at hpercent
        obtain ⟨c, hc, hblank⟩ := List.mem_map.mp hpercent
        refine ⟨c, hc, ?_⟩
        split at hblank
        · exact absurd hblank (by decide)
        · rw [hblank]
          decide
      · rw [heq] at hlonger
        omega
  obtain ⟨k₁, hk₁, -, hn⟩ := hlong ((keys.map List.length).sum + 1)
  have hle := List.le_sum_of_mem (List.mem_map_of_mem (f := List.length) hk₁)
  omega

/-- Both decoders gather the same just if `urlencode` and `urldecode` leave every name alone. -/
theorem valuesOf_blanked_eq_iff (ps : List (List U8 × List U8)) :
    (∀ k, valuesOf k (ps.map keptKey) = valuesOf k (ps.map blanked)) ↔
      ∀ x ∈ ps, ∀ c ∈ x.1, unescaped c = true ∧ c ≠ 0x2b := by
  constructor
  · intro h
    have hclosed : ∀ k ∈ ps.map Prod.fst, ∃ k' ∈ ps.map Prod.fst, urlencode k = plusToBlank k' := by
      intro k hk
      obtain ⟨x, hx, rfl⟩ := List.mem_map.mp hk
      have hmem : plusToBlank x.2 ∈ valuesOf (urlencode x.1) (ps.map keptKey) :=
        mem_valuesOf.mpr (List.mem_map_of_mem (f := keptKey) hx)
      rw [h] at hmem
      obtain ⟨y, hy, heq⟩ := List.mem_map.mp (mem_valuesOf.mp hmem)
      exact ⟨y.1, List.mem_map_of_mem hy, (Prod.mk.inj heq).1.symm⟩
    have hplain := not_escaped_of_closed hclosed
    intro x hx c hc
    have hkey := List.mem_map_of_mem (f := Prod.fst) hx
    have hself : urlencode x.1 = x.1 := by
      apply urlencode_eq_self
      intro d hd
      by_contra hd'
      exact hplain x.1 hkey ⟨d, hd, Bool.eq_false_iff.mpr hd'⟩
    obtain ⟨k', -, heq⟩ := hclosed x.1 hkey
    rw [hself] at heq
    constructor
    · by_contra hc'
      exact hplain x.1 hkey ⟨c, hc, Bool.eq_false_iff.mpr hc'⟩
    · rintro rfl
      rw [heq] at hc
      exact plus_not_mem_plusToBlank k' hc
  · intro h k
    have hmap : ps.map keptKey = ps.map blanked := by
      apply List.map_congr_left
      intro x hx
      have hplus : 0x2b ∉ x.1 := fun hmem => (h x hx _ hmem).2 rfl
      rw [keptKey, blanked, urlencode_eq_self fun c hc => (h x hx c hc).1,
        plusToBlank_eq_self hplus]
    rw [hmap]

/-- The decoder of a message body agrees with the one of a query, however the encoded parameters are
cut, just if no name with a value has a character that is escaped, or a plus sign: the names in a
message body are not decoded. -/
theorem urldecodeMessageBody_agrees_iff (ht : ParamTable t)
    (hsize : (urlencodeParams t).length ≤ httpMaxContent) :
    (∀ contentLength chunks,
      (contentLength = none ∨ contentLength = some (urlencodeParams t).length) →
      (∀ c ∈ chunks, c ≠ []) → chunks.flatten = urlencodeParams t →
      ∃ params, urldecodeMessageBody contentLength [] chunks = .ok params ∧
        ∀ k, params.lookup k = (urldecodeParams (urlencodeParams t) []).lookup k) ↔
      ∀ x ∈ t, x.2.strings ≠ [] → ∀ c ∈ x.1, unescaped c = true ∧ c ≠ 0x2b := by
  have hpairs : (∀ x ∈ t, x.2.strings ≠ [] → ∀ c ∈ x.1, unescaped c = true ∧ c ≠ 0x2b) ↔
      ∀ x ∈ pairsOf t, ∀ c ∈ x.1, unescaped c = true ∧ c ≠ 0x2b := by
    constructor
    · intro h x hx
      obtain ⟨y, hy, hx⟩ := List.mem_flatMap.mp hx
      obtain ⟨v, hv, rfl⟩ := List.mem_map.mp hx
      exact h y hy (List.ne_nil_of_mem hv)
    · intro h x hx hne
      obtain ⟨v, hv⟩ := List.exists_mem_of_ne_nil _ hne
      exact h (x.1, v) (List.mem_flatMap.mpr ⟨x, hx, List.mem_map_of_mem hv⟩)
  rw [hpairs, ← valuesOf_blanked_eq_iff]
  have hquery := urldecodeParams_gathers ht
  constructor
  · intro h
    obtain ⟨chunks, hne, hflat⟩ : ∃ chunks : List (List U8), (∀ c ∈ chunks, c ≠ []) ∧
        chunks.flatten = urlencodeParams t := by
      by_cases hempty : urlencodeParams t = []
      · exact ⟨[], by simp, by rw [hempty]; rfl⟩
      · exact ⟨[urlencodeParams t], by simpa using hempty, by simp⟩
    have hadm : Admits none (urlencodeParams t).length := ⟨rfl, hsize⟩
    obtain ⟨params, hrun, hbody⟩ := urldecodeMessageBody_gathers ht hne hflat hadm
    obtain ⟨params', hrun', heq⟩ := h none chunks (.inl rfl) hne hflat
    rw [hrun] at hrun'
    injection hrun' with hrun'
    subst hrun'
    exact (gathers_lookup_eq_iff hbody hquery).mp heq
  · intro h contentLength chunks hlen hne hflat
    have hadm : Admits contentLength (urlencodeParams t).length := by
      refine ⟨?_, hsize⟩
      rcases hlen with rfl | rfl
      · rfl
      · simp
    obtain ⟨params, hrun, hbody⟩ := urldecodeMessageBody_gathers ht hne hflat hadm
    exact ⟨params, hrun, (gathers_lookup_eq_iff hbody hquery).mpr h⟩

/-- `a=1&a=&b=%26+`, cut behind its third and its fifth byte. -/
theorem urldecodeMessageBody_agrees_example :
    let t : Params := [(latin "a", .array [latin "1", []]), (latin "b", .text (latin "&+"))]
    ∃ params, urldecodeMessageBody (some 13) [] [latin "a=1", latin "&a", latin "=&b=%26+"] =
        .ok params ∧
      ∀ k, params.lookup k = (urldecodeParams (urlencodeParams t) []).lookup k :=
  (urldecodeMessageBody_agrees_iff ⟨by decide, by decide⟩ (by decide)).mpr (by decide)
    _ _ (.inr (by decide)) (by decide) (by decide)

/-- `{ ["a b"] = "c" }`: the body is stored under `a%20b`. -/
theorem urldecodeMessageBody_escaped_name :
    ¬ ∀ t, ParamTable t → (urlencodeParams t).length ≤ httpMaxContent →
      ∀ contentLength chunks,
      (contentLength = none ∨ contentLength = some (urlencodeParams t).length) →
      (∀ c ∈ chunks, c ≠ []) → chunks.flatten = urlencodeParams t →
      ∃ params, urldecodeMessageBody contentLength [] chunks = .ok params ∧
        ∀ k, params.lookup k = (urldecodeParams (urlencodeParams t) []).lookup k := by
  intro h
  obtain ⟨params, hrun, heq⟩ := h [(latin "a b", .text (latin "c"))] ⟨by decide, by decide⟩
    (by decide) none [latin "a%20b=c"] (.inl rfl) (by decide) (by decide)
  have hbody : urldecodeMessageBody none [] [latin "a%20b=c"] =
      .ok [(latin "a%20b", .text (latin "c"))] := by
    rfl
  rw [hbody] at hrun
  injection hrun with hrun
  subst hrun
  exact absurd (heq (latin "a b")) (by decide)

end Agreement

end OpenwrtMtk.Luci.Http
