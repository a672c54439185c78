import OpenwrtMtk.Lib.Lists
import OpenwrtMtk.Luci.HttpParams

/-!
# Encoded parameters and the two decoders

What `urldecode_params` and `urldecode_message_body` make of what `urlencode_params` returns. Each
stores the values of a name in their order; they differ from the table that was encoded, and from
each other, in the names and in the plus signs only.
-/

namespace OpenwrtMtk.Luci.Http

open Toolkit

set_option autoImplicit false

def paramOf : List (List U8) → Option Param
  | [] => none
  | [v] => some (.text v)
  | vs => some (.array vs)

def Gathers (tbl : Params) (ps : List (List U8 × List U8)) : Prop :=
  ∀ k, tbl.lookup k = paramOf (valuesOf k ps)

section Tables

variable {tbl : Params} {ps : List (List U8 × List U8)}

theorem lookup_assignParam (tbl : Params) (key k : List U8) (p : Param) :
    (assignParam tbl key p).lookup k = if k = key then some p else tbl.lookup k := by
  induction tbl with
  | nil =>
    rw [assignParam, List.lookup_cons]
    by_cases h : k = key
    · simp [h]
    · simp [h, beq_false_of_ne h]
  | cons x tbl ih =>
    obtain ⟨k', p'⟩ := x
    rw [assignParam]
    by_cases hk : k' = key
    · rw [if_pos hk, List.lookup_cons, List.lookup_cons]
      by_cases h : k = key
      · simp [h]
      · simp [h, hk, beq_false_of_ne h]
    · rw [if_neg hk, List.lookup_cons, List.lookup_cons]
      by_cases h : k = k'
      · subst h
        simp [hk]
      · rw [beq_false_of_ne h]
        exact ih

theorem assignParam_twice (tbl : Params) (key : List U8) (p q : Param) :
    assignParam (assignParam tbl key p) key q = assignParam tbl key q := by
  induction tbl with
  | nil => simp [assignParam]
  | cons x tbl ih =>
    rw [assignParam, assignParam]
    by_cases h : x.1 = key
    · rw [if_pos h, if_pos h, assignParam, if_pos rfl]
    · rw [if_neg h, if_neg h, assignParam, if_neg h, ih]

theorem gathers_store (h : Gathers tbl ps) (key val : List U8) :
    Gathers (storeParam tbl key val) (ps ++ [(key, val)]) := by
  intro k
  have hkey := h key
  rw [valuesOf_append, valuesOf_cons]
  unfold storeParam
  rw [hkey]
  by_cases hk : k = key
  · subst hk
    rw [if_pos rfl]
    match hvs : valuesOf k ps with
    | [] => exact (lookup_assignParam tbl k k _).trans (if_pos rfl)
    | [v] => exact (lookup_assignParam tbl k k _).trans (if_pos rfl)
    | v :: v' :: vs => exact (lookup_assignParam tbl k k _).trans (if_pos rfl)
  · rw [if_neg (Ne.symm hk), show valuesOf k ([] : List (List U8 × List U8)) = [] from rfl,
      List.append_nil, ← h k]
    match valuesOf key ps with
    | [] => exact (lookup_assignParam tbl key k _).trans (if_neg hk)
    | [v] => exact (lookup_assignParam tbl key k _).trans (if_neg hk)
    | v :: v' :: vs => exact (lookup_assignParam tbl key k _).trans (if_neg hk)

theorem gathers_stores (h : Gathers tbl ps) (qs : List (List U8 × List U8)) :
    Gathers (qs.foldl (fun t x => storeParam t x.1 x.2) tbl) (ps ++ qs) := by
  induction qs generalizing tbl ps with
  | nil =>
    rw [List.append_nil]
    exact h
  | cons x qs ih =>
    rw [List.foldl_cons, List.append_cons]
    exact ih (gathers_store h x.1 x.2)

theorem changeLast_append (f : List U8 → List U8) (ss : List (List U8)) (s : List U8) :
    changeLast f (.array (ss ++ [s])) = .array (ss ++ [f s]) := by
  have hlast : (ss ++ [s]).modify ((ss ++ [s]).length - 1) f = ss ++ [f s] := by
    rw [List.length_append, List.length_singleton, Nat.add_sub_cancel]
    induction ss with
    | nil => rfl
    | cons t ss ih =>
      rw [List.cons_append, List.length_cons, List.modify_succ_cons, ih]
      rfl
  rw [changeLast, hlast]

theorem finishval_appendval_initval (tbl : Params) (key val : List U8) (f : List U8 → List U8) :
    (appendval (initval tbl key) key val).bind (finishval · key f) =
      some (storeParam tbl key (f val)) := by
  have hself (t : Params) (p : Param) : (assignParam t key p).lookup key = some p :=
    (lookup_assignParam t key key p).trans (if_pos rfl)
  have hrun (p : Param) (h : initval tbl key = assignParam tbl key p) :
      (appendval (initval tbl key) key val).bind (finishval · key f) =
        some (assignParam tbl key (changeLast f (changeLast (· ++ val) p))) := by
    rw [h, appendval, hself, Option.map_some, Option.bind_some, assignParam_twice, finishval, hself,
      Option.map_some, assignParam_twice]
  unfold storeParam
  cases hold : tbl.lookup key with
  | none =>
    rw [hrun (.text []) (by rw [initval, hold])]
    rfl
  | some p =>
    cases p with
    | text s =>
      rw [hrun (.array [s, []]) (by rw [initval, hold])]
      rfl
    | array ss =>
      rw [hrun (.array (ss ++ [[]])) (by rw [initval, hold]), changeLast_append, changeLast_append,
        List.nil_append]

end Tables

section Encoding

variable {c : U8} {str rest : List U8}

/-- What `urlencode` leaves and the escape sequences. -/
def encodedByte (c : U8) : Bool := unescaped c || c = 0x25

theorem encodedByte_hexDigit {n : Nat} (h : n < 16) : encodedByte (hexDigit n) = true := by
  have hall : ∀ n : Fin 16, encodedByte (hexDigit n.val) = true := by decide
  exact hall ⟨n, h⟩

theorem encodedByte_of_mem_urlencode (h : c ∈ urlencode str) : encodedByte c = true := by
  obtain ⟨d, -, hc⟩ := List.mem_flatMap.mp h
  unfold chrenc at hc
  split at hc
  · rename_i hd
    rw [List.mem_singleton.mp hc, encodedByte, hd, Bool.true_or]
  · have hlt := d.isLt
    rcases List.mem_cons.mp hc with rfl | hc
    · rfl
    · rcases List.mem_cons.mp hc with rfl | hc
      · exact encodedByte_hexDigit (by omega)
      · rw [List.mem_singleton.mp hc]
        exact encodedByte_hexDigit (by omega)

theorem not_mem_urlencode (h : encodedByte c = false) : c ∉ urlencode str := by
  intro hc
  rw [encodedByte_of_mem_urlencode hc] at h
  exact Bool.noConfusion h

theorem plusToBlank_append (str rest : List U8) :
    plusToBlank (str ++ rest) = plusToBlank str ++ plusToBlank rest := List.map_append

theorem plusToBlank_eq_self (h : 0x2b ∉ str) : plusToBlank str = str := by
  refine (List.map_congr_left ?_).trans (List.map_id str)
  intro c hc
  have hne : c ≠ 0x2b := ne_of_mem_of_not_mem hc h
  exact if_neg hne

theorem plus_not_mem_plusToBlank (str : List U8) : 0x2b ∉ plusToBlank str := by
  intro h
  obtain ⟨c, -, hc⟩ := List.mem_map.mp h
  split at hc
  · exact absurd hc (by decide)
  · contradiction

theorem decodeEscapes_cons (h : c ≠ 0x25) (str : List U8) :
    decodeEscapes (c :: str) = c :: decodeEscapes str := by
  match str with
  | [] => rfl
  | [a] => rfl
  | a :: b :: str => rw [decodeEscapes, if_neg h]

theorem hexValue_hexDigits (c : U8) :
    hexValue (hexDigit (c.toNat / 16)) = some (c.toNat / 16) ∧
      hexValue (hexDigit (c.toNat % 16)) = some (c.toNat % 16) := by
  have hall : ∀ n : Fin 16, hexValue (hexDigit n.val) = some n.val := by decide
  have hlt := c.isLt
  exact ⟨hall ⟨c.toNat / 16, by omega⟩, hall ⟨c.toNat % 16, by omega⟩⟩

theorem decodeEscapes_escape (c : U8) (str : List U8) :
    decodeEscapes (0x25 :: hexDigit (c.toNat / 16) :: hexDigit (c.toNat % 16) :: str) =
      c :: decodeEscapes str := by
  obtain ⟨hhigh, hlow⟩ := hexValue_hexDigits c
  have hsum : 16 * (c.toNat / 16) + c.toNat % 16 = c.toNat := Nat.div_add_mod c.toNat 16
  rw [decodeEscapes, if_pos rfl, hhigh, hlow]
  dsimp only
  rw [hsum, BitVec.ofNat_toNat, BitVec.setWidth_eq]

/-- A decoded character: a plus sign becomes a blank, every other one is back. -/
theorem decodeEscapes_chrenc (c : U8) (str : List U8) :
    decodeEscapes (plusToBlank (chrenc c) ++ str) =
      (if c = 0x2b then 0x20 else c) :: decodeEscapes str := by
  unfold chrenc
  by_cases hc : unescaped c = true
  · have hpercent : (if c = 0x2b then 0x20 else c) ≠ (0x25 : U8) := by
      split
      · decide
      · rintro rfl
        exact absurd hc (by decide)
    rw [if_pos hc]
    exact decodeEscapes_cons hpercent str
  · have hplus : c ≠ 0x2b := by
      rintro rfl
      exact hc (by decide)
    have hdigit : ∀ n : Fin 16, hexDigit n.val ≠ 0x2b := by decide
    have hlt := c.isLt
    rw [if_neg hc, if_neg hplus, plusToBlank_eq_self]
    · exact decodeEscapes_escape c str
    · simp only [List.mem_cons, List.not_mem_nil, or_false, not_or]
      exact ⟨by decide, (hdigit ⟨c.toNat / 16, by omega⟩).symm,
        (hdigit ⟨c.toNat % 16, by omega⟩).symm⟩

theorem urldecode_urlencode (str : List U8) : urldecode (urlencode str) = plusToBlank str := by
  unfold urldecode urlencode
  induction str with
  | nil => rfl
  | cons c str ih =>
    rw [List.flatMap_cons, plusToBlank_append, decodeEscapes_chrenc, ih]
    rfl

theorem urlencode_eq_nil : urlencode str = [] ↔ str = [] := by
  constructor
  · intro h
    cases str with
    | nil => rfl
    | cons c str =>
      rw [urlencode, List.flatMap_cons] at h
      have hc := (List.append_eq_nil_iff.mp h).1
      unfold chrenc at hc
      split at hc <;> exact absurd hc (by simp)
  · rintro rfl
    rfl

end Encoding

section Pairs

def pairsOf (t : Params) : List (List U8 × List U8) :=
  t.flatMap fun x => x.2.strings.map fun v => (x.1, v)

def pieces (t : Params) : List (List U8) := (pairsOf t).map fun x => encodePair x.1 x.2

/-- What `urlencode_params` does with a pair. -/
def join (enc piece : List U8) : List U8 := enc ++ (if enc ≠ [] then [0x26] else []) ++ piece

theorem urlencodeParams_eq_join (t : Params) : urlencodeParams t = (pieces t).foldl join [] := by
  have hall (enc : List U8) :
      t.foldl (fun enc x => x.2.strings.foldl (fun enc v => join enc (encodePair x.1 v)) enc) enc =
        (pieces t).foldl join enc := by
    induction t generalizing enc with
    | nil => rfl
    | cons x t ih =>
      have hpieces : pieces (x :: t) = x.2.strings.map (encodePair x.1) ++ pieces t := by
        rw [pieces, pairsOf, List.flatMap_cons, List.map_append, List.map_map]
        rfl
      rw [List.foldl_cons, ih, hpieces, List.foldl_append, List.foldl_map]
  exact hall []

theorem encodePair_ne_nil (key val : List U8) : encodePair key val ≠ [] := by
  simp [encodePair]

theorem foldl_join (enc : List U8) (henc : enc ≠ []) (ps : List (List U8)) :
    ps.foldl join enc = enc ++ ps.flatMap (0x26 :: ·) := by
  induction ps generalizing enc with
  | nil => simp
  | cons p ps ih =>
    have hstep : join enc p = enc ++ 0x26 :: p := by
      rw [join, if_pos henc, List.append_assoc, List.singleton_append]
    rw [List.foldl_cons, hstep, ih _ (by simp), List.flatMap_cons, List.append_assoc]

theorem urlencodeParams_eq {t : Params} {p : List U8} {ps : List (List U8)}
    (h : pieces t = p :: ps) : urlencodeParams t = p ++ ps.flatMap (0x26 :: ·) := by
  have hmem : p ∈ pieces t := h ▸ List.mem_cons_self
  obtain ⟨x, -, rfl⟩ := List.mem_map.mp hmem
  have hne := encodePair_ne_nil x.1 x.2
  have hfirst : join [] (encodePair x.1 x.2) = encodePair x.1 x.2 := rfl
  rw [urlencodeParams_eq_join, h, List.foldl_cons, hfirst, foldl_join _ hne]

theorem mem_encodePair {c : U8} {key val : List U8} (h : c ∈ encodePair key val) :
    encodedByte c = true ∨ c = 0x3d := by
  rcases List.mem_append.mp h with h | h
  · rcases List.mem_append.mp h with h | h
    · exact .inl (encodedByte_of_mem_urlencode h)
    · exact .inr (List.mem_singleton.mp h)
  · exact .inl (encodedByte_of_mem_urlencode h)

theorem isSeparator_encodePair {key val : List U8} :
    ∀ c ∈ encodePair key val, isSeparator c = false := by
  intro c hc
  rcases mem_encodePair hc with h | rfl
  · by_contra hsep
    simp only [isSeparator, Bool.or_eq_false_iff, decide_eq_false_iff_not, not_and_or, not_not]
      at hsep
    rcases hsep with rfl | rfl
    · exact absurd h (by decide)
    · exact absurd h (by decide)
  · rfl

theorem splitOnP_joined (p : List U8) (ps : List (List U8))
    (hp : ∀ c ∈ p, isSeparator c = false) (hps : ∀ q ∈ ps, ∀ c ∈ q, isSeparator c = false) :
    (p ++ ps.flatMap (0x26 :: ·)).splitOnP isSeparator = p :: ps := by
  induction ps generalizing p with
  | nil =>
    rw [List.flatMap_nil, List.append_nil]
    exact List.splitOnP_eq_singleton hp
  | cons q ps ih =>
    rw [List.flatMap_cons, List.cons_append,
      List.splitOnP_append_cons_of_forall_mem hp 0x26 (by decide),
      ih q (hps q List.mem_cons_self) fun r hr => hps r (List.mem_cons_of_mem _ hr)]

theorem behindQuery_eq_none {url : List U8} (h : 0x3f ∉ url) : behindQuery url = none := by
  induction url with
  | nil => rfl
  | cons c url ih =>
    have hc : c ≠ 0x3f := fun heq => h (heq ▸ List.mem_cons_self)
    rw [behindQuery, ih fun hmem => h (List.mem_cons_of_mem _ hmem)]
    exact if_neg fun hand => hc hand.1

theorem question_not_mem_urlencodeParams (t : Params) : 0x3f ∉ urlencodeParams t := by
  have hpiece : ∀ q ∈ pieces t, 0x3f ∉ q := by
    intro q hq hmem
    obtain ⟨x, -, rfl⟩ := List.mem_map.mp hq
    rcases mem_encodePair hmem with h | h
    · exact absurd h (by decide)
    · exact absurd h (by decide)
  match hp : pieces t with
  | [] => simp [urlencodeParams_eq_join, hp]
  | p :: ps =>
    rw [urlencodeParams_eq hp, List.mem_append, List.mem_flatMap]
    rw [hp] at hpiece
    rintro (hmem | ⟨q, hq, hmem⟩)
    · exact hpiece p List.mem_cons_self hmem
    · rcases List.mem_cons.mp hmem with heq | hmem
      · exact absurd heq (by decide)
      · exact hpiece q (List.mem_cons_of_mem _ hq) hmem

theorem stripQuery_urlencodeParams (t : Params) :
    stripQuery (urlencodeParams t) = urlencodeParams t := by
  have hnone := behindQuery_eq_none fun h =>
    question_not_mem_urlencodeParams t (List.mem_of_mem_tail h)
  rw [stripQuery, hnone, Option.getD_none]

theorem pairKey_encodePair {key : List U8} (val : List U8) (hkey : key ≠ []) :
    pairKey (encodePair key val) = some (urlencode key) ∧
      (encodePair key val).dropWhile (· ≠ 0x3d) = 0x3d :: urlencode val := by
  have hno : ∀ c ∈ urlencode key, decide (c ≠ (0x3d : U8)) = true := by
    intro c hc
    exact decide_eq_true fun heq => not_mem_urlencode (by decide) (heq ▸ hc)
  have htake : (encodePair key val).takeWhile (· ≠ 0x3d) = urlencode key := by
    rw [encodePair, List.append_assoc, List.takeWhile_append_of_pos hno]
    simp
  have hne : urlencode key ≠ [] := fun h => hkey (urlencode_eq_nil.mp h)
  constructor
  · rw [pairKey, htake]
    exact if_neg hne
  · rw [encodePair, List.append_assoc, List.dropWhile_append_of_pos hno]
    rfl

theorem storePair_encodePair (params : Params) {key : List U8} (val : List U8) (hkey : key ≠ []) :
    storePair params (encodePair key val) =
      storeParam params (plusToBlank key) (plusToBlank val) := by
  obtain ⟨hname, hdrop⟩ := pairKey_encodePair val hkey
  have hval : ((pairValue (encodePair key val)).map urldecode).getD [] = plusToBlank val := by
    have htake : (encodePair key val).takeWhile (· ≠ 0x3d) ≠ [] := by
      intro h
      rw [pairKey, h, if_pos rfl] at hname
      contradiction
    rw [pairValue, hdrop]
    by_cases hempty : val = []
    · have henc : urlencode val = [] := urlencode_eq_nil.mpr hempty
      dsimp only
      rw [if_pos (.inr henc), hempty]
      rfl
    · have henc : urlencode val ≠ [] := fun h => hempty (urlencode_eq_nil.mp h)
      dsimp only
      rw [if_neg (not_or.mpr ⟨htake, henc⟩), Option.map_some, Option.getD_some,
        urldecode_urlencode]
  have hblank : plusToBlank key ≠ [] := fun h => hkey (List.map_eq_nil_iff.mp h)
  rw [storePair, hname, Option.map_some, urldecode_urlencode]
  dsimp only
  rw [if_neg hblank, hval]

end Pairs

/-- The tables that `urlencode_params` is made for. -/
structure ParamTable (t : Params) : Prop where
  keys_nodup : (t.map Prod.fst).Nodup
  keys_ne_nil : ∀ x ∈ t, x.1 ≠ []

section RoundTrip

variable {t : Params}

def blanked (x : List U8 × List U8) : List U8 × List U8 := (plusToBlank x.1, plusToBlank x.2)

theorem key_ne_nil_of_mem_pairsOf (ht : ParamTable t) {x : List U8 × List U8} (hx : x ∈ pairsOf t) :
    x.1 ≠ [] := by
  obtain ⟨y, hy, hx⟩ := List.mem_flatMap.mp hx
  obtain ⟨v, -, rfl⟩ := List.mem_map.mp hx
  exact ht.keys_ne_nil y hy

theorem foldl_storePair (ps : List (List U8 × List U8)) (hps : ∀ x ∈ ps, x.1 ≠ [])
    (params : Params) :
    (ps.map fun x => encodePair x.1 x.2).foldl storePair params =
      (ps.map blanked).foldl (fun t x => storeParam t x.1 x.2) params := by
  induction ps generalizing params with
  | nil => rfl
  | cons x ps ih =>
    rw [List.map_cons, List.map_cons, List.foldl_cons, List.foldl_cons,
      storePair_encodePair _ _ (hps x List.mem_cons_self),
      ih fun y hy => hps y (List.mem_cons_of_mem _ hy)]
    rfl

theorem splitOnP_urlencodeParams (t : Params) :
    ((urlencodeParams t).splitOnP isSeparator).filter (· ≠ []) = pieces t := by
  have hsep : ∀ q ∈ pieces t, ∀ c ∈ q, isSeparator c = false := by
    intro q hq
    obtain ⟨x, -, rfl⟩ := List.mem_map.mp hq
    exact isSeparator_encodePair
  have hne : ∀ q ∈ pieces t, decide (q ≠ []) = true := by
    intro q hq
    obtain ⟨x, -, rfl⟩ := List.mem_map.mp hq
    exact decide_eq_true (encodePair_ne_nil _ _)
  match hp : pieces t with
  | [] => simp [urlencodeParams_eq_join, hp]
  | p :: ps =>
    rw [hp] at hsep hne
    rw [urlencodeParams_eq hp, splitOnP_joined p ps (hsep p List.mem_cons_self)
      fun q hq => hsep q (List.mem_cons_of_mem _ hq)]
    exact List.filter_eq_self.mpr hne

theorem urldecodeParams_gathers (ht : ParamTable t) :
    Gathers (urldecodeParams (urlencodeParams t) []) ((pairsOf t).map blanked) := by
  have hrun : urldecodeParams (urlencodeParams t) [] =
      ((pairsOf t).map blanked).foldl (fun t x => storeParam t x.1 x.2) [] := by
    rw [urldecodeParams, stripQuery_urlencodeParams, splitOnP_urlencodeParams]
    exact foldl_storePair _ (fun x hx => key_ne_nil_of_mem_pairsOf ht hx) []
  rw [hrun]
  have hstart : Gathers [] [] := fun k => rfl
  exact gathers_stores hstart _

theorem valuesOf_pairsOf_of_not_mem {k : List U8} (h : k ∉ t.map Prod.fst) :
    valuesOf k (pairsOf t) = [] := by
  rw [valuesOf_eq_nil]
  intro v hv
  obtain ⟨y, hy, hx⟩ := List.mem_flatMap.mp hv
  obtain ⟨w, -, heq⟩ := List.mem_map.mp hx
  obtain ⟨rfl, -⟩ := Prod.mk.inj heq
  exact h (List.mem_map_of_mem hy)

theorem valuesOf_strings (k key : List U8) (vs : List (List U8)) :
    valuesOf k (vs.map fun v => (key, v)) = if key = k then vs else [] := by
  induction vs with
  | nil => simp [valuesOf]
  | cons v vs ih =>
    rw [List.map_cons, valuesOf_cons, ih]
    split <;> rfl

theorem gathers_pairsOf (hkeys : (t.map Prod.fst).Nodup)
    (harrays : ∀ k ss, (k, .array ss) ∈ t → 2 ≤ ss.length) : Gathers t (pairsOf t) := by
  intro k
  induction t with
  | nil => rfl
  | cons x t ih =>
    obtain ⟨key, p⟩ := x
    rw [List.map_cons, List.nodup_cons] at hkeys
    have hrest := ih hkeys.2 fun k ss h => harrays k ss (List.mem_cons_of_mem _ h)
    rw [show pairsOf ((key, p) :: t) = p.strings.map (fun v => (key, v)) ++ pairsOf t from rfl,
      valuesOf_append, valuesOf_strings, List.lookup_cons]
    by_cases hk : key = k
    · subst hk
      have hself : paramOf p.strings = some p := by
        match p, harrays key with
        | .text s, _ => rfl
        | .array [], h => exact absurd (h [] List.mem_cons_self) (by decide)
        | .array [s], h => exact absurd (h [s] List.mem_cons_self) (by simp)
        | .array (s :: s' :: ss), _ => rfl
      rw [if_pos rfl, valuesOf_pairsOf_of_not_mem hkeys.1, List.append_nil, hself, beq_self_eq_true]
    · rw [if_neg hk, List.nil_append, beq_false_of_ne (Ne.symm hk)]
      exact hrest

theorem paramOf_injective {vs ws : List (List U8)} (h : paramOf vs = paramOf ws) : vs = ws := by
  match vs, ws with
  | [], [] => rfl
  | [], [w] => cases h
  | [], _ :: _ :: _ => cases h
  | [v], [] => cases h
  | [v], [w] => injection h with h; injection h with h; rw [h]
  | [v], _ :: _ :: _ => injection h with h; cases h
  | _ :: _ :: _, [] => cases h
  | _ :: _ :: _, [w] => injection h with h; cases h
  | _ :: _ :: _, _ :: _ :: _ => injection h with h; injection h with h

/-- Two tables are equal when the values of every name are the same in the same order. -/
theorem gathers_lookup_eq_iff {tbl tbl' : Params} {ps qs : List (List U8 × List U8)}
    (h : Gathers tbl ps) (h' : Gathers tbl' qs) :
    (∀ k, tbl.lookup k = tbl'.lookup k) ↔ ∀ k, valuesOf k ps = valuesOf k qs := by
  constructor
  · intro heq k
    exact paramOf_injective ((h k).symm.trans ((heq k).trans (h' k)))
  · intro heq k
    rw [h k, h' k, heq k]

theorem strings_nonempty {k : List U8} {p : Param}
    (harrays : ∀ ss, (k, .array ss) ∈ t → 2 ≤ ss.length) (hmem : (k, p) ∈ t) :
    ∃ v, v ∈ p.strings := by
  cases p with
  | text s => exact ⟨s, List.mem_singleton_self s⟩
  | array ss => exact List.exists_mem_of_length_pos (Nat.lt_of_lt_of_le (by decide) (harrays ss hmem))

theorem blanked_eq_self {x : List U8 × List U8} (hkey : 0x2b ∉ x.1) (hval : 0x2b ∉ x.2) :
    blanked x = x := by
  rw [blanked, plusToBlank_eq_self hkey, plusToBlank_eq_self hval]

/-- The encoded parameters are decoded to the table they come from just if nothing in it contains a
plus sign, which the encoder leaves and the decoder takes for a blank. -/
theorem urldecodeParams_urlencodeParams_iff (ht : ParamTable t)
    (harrays : ∀ k ss, (k, .array ss) ∈ t → 2 ≤ ss.length) :
    (∀ k, (urldecodeParams (urlencodeParams t) []).lookup k = t.lookup k) ↔
      ∀ x ∈ t, 0x2b ∉ x.1 ∧ ∀ v ∈ x.2.strings, 0x2b ∉ v := by
  rw [gathers_lookup_eq_iff (urldecodeParams_gathers ht) (gathers_pairsOf ht.keys_nodup harrays)]
  have hpairs : (∀ x ∈ t, 0x2b ∉ x.1 ∧ ∀ v ∈ x.2.strings, 0x2b ∉ v) ↔
      ∀ x ∈ pairsOf t, 0x2b ∉ x.1 ∧ 0x2b ∉ x.2 := by
    constructor
    · intro h x hx
      obtain ⟨y, hy, hx⟩ := List.mem_flatMap.mp hx
      obtain ⟨v, hv, rfl⟩ := List.mem_map.mp hx
      exact ⟨(h y hy).1, (h y hy).2 v hv⟩
    · rintro h ⟨k, p⟩ hx
      have hpair : ∀ v ∈ p.strings, 0x2b ∉ k ∧ 0x2b ∉ v := fun v hv =>
        h (k, v) (List.mem_flatMap.mpr ⟨(k, p), hx, List.mem_map_of_mem hv⟩)
      obtain ⟨v, hv⟩ := strings_nonempty (harrays k) hx
      exact ⟨(hpair v hv).1, fun v hv => (hpair v hv).2⟩
  rw [hpairs]
  constructor
  · rintro heq ⟨k, v⟩ hx
    have hv : v ∈ valuesOf k ((pairsOf t).map blanked) := by
      rw [heq k]
      exact mem_valuesOf.mpr hx
    obtain ⟨y, -, hy⟩ := List.mem_map.mp (mem_valuesOf.mp hv)
    obtain ⟨rfl, rfl⟩ := Prod.mk.inj hy
    exact ⟨plus_not_mem_plusToBlank _, plus_not_mem_plusToBlank _⟩
  · intro hplus k
    have hmap : (pairsOf t).map blanked = pairsOf t := by
      refine (List.map_congr_left ?_).trans (List.map_id _)
      intro x hx
      exact blanked_eq_self (hplus x hx).1 (hplus x hx).2
    rw [hmap]

/-- `{ a = { "1", "2=&" }, ["b;"] = "" }`. -/
theorem urldecodeParams_urlencodeParams_example :
    let t : Params := [(latin "a", .array [latin "1", latin "2=&"]), (latin "b;", .text [])]
    ∀ k, (urldecodeParams (urlencodeParams t) []).lookup k = t.lookup k := by
  refine (urldecodeParams_urlencodeParams_iff ⟨by decide, by decide⟩ ?_).mpr (by decide)
  intro k ss h
  rcases List.mem_cons.mp h with h | h
  · cases h
    decide
  · cases List.mem_singleton.mp h

/-- `{ a = "+" }` comes back as `{ a = " " }`. -/
theorem urldecodeParams_plus :
    ¬ ∀ t, ParamTable t → (∀ k ss, (k, .array ss) ∈ t → 2 ≤ ss.length) →
      ∀ k, (urldecodeParams (urlencodeParams t) []).lookup k = t.lookup k := by
  intro h
  have hplus := h [(latin "a", .text (latin "+"))] ⟨by decide, by decide⟩
    (fun k ss hmem => by cases List.mem_singleton.mp hmem) (latin "a")
  exact absurd hplus (by decide)

end RoundTrip

end OpenwrtMtk.Luci.Http
