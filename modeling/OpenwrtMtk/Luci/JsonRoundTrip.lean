import OpenwrtMtk.Luci.JsonStream
import OpenwrtMtk.Luci.JsonText
import Mathlib.Data.List.Nodup

/-!
# Reading back what the JSON encoder wrote

Inside a container every value of a plain kind is read back as it was. At the top of a text the decoder
wants a byte after a number, and `decode` takes false for a failure.
-/

namespace OpenwrtMtk.Luci.Json

open Toolkit

set_option autoImplicit false

variable {ν : Type}

section Scalars

variable {l r rest : List U8} {c : U8} {fuel : Nat}

theorem parseLiteral_gives (literal rest : List U8) (value : Value ν) :
    Gives (Reads (literal ++ rest)) (parseLiteral literal value) value (Reads rest) := by
  refine gives_bind (fetchAtleast_gives (by simp)) (gives_bind (upTo_gives _ _) ?_)
  have htext : (literal ++ rest).take literal.length = literal := List.take_left
  have hrest : (literal ++ rest).drop literal.length = rest := List.drop_left
  have hchoice : Gives (Holds literal.length (literal ++ rest))
      (if (literal ++ rest).take literal.length = literal then do
          sub literal.length
          pure value
        else throw .invalidSequence : Decoding (Value ν)) value (Reads rest) := by
    rw [if_pos htext]
    refine gives_bind (sub_gives _ _) ?_
    rw [hrest]
    exact gives_pure fun _ hs => hs
  exact hchoice

theorem parseNumber_gives {tonumber : List U8 → Option ν} {x : ν}
    (hl : ∀ d ∈ l, numeric d = true) (hc : numeric c = false) (hx : tonumber l = some x) :
    Gives (Reads (l ++ c :: r)) (parseNumber tonumber) (.number x) (Reads (c :: r)) := by
  have hl' : ∀ d ∈ l, (!numeric d) = false := fun d hd => by rw [hl d hd]; rfl
  have hc' : (!numeric c) = true := by rw [hc]; rfl
  refine gives_bind (fetchUntil_gives hl' hc') (gives_bind (upTo_gives _ _) ?_)
  have htext : (l ++ c :: r).take l.length = l := List.take_left
  have hrest : (l ++ c :: r).drop l.length = c :: r := List.drop_left
  rw [htext, hx]
  refine gives_bind (sub_gives _ _) ?_
  rw [hrest]
  exact gives_pure fun _ hs => hs

theorem parseNumber_fails (tonumber : List U8 → Option ν) (hl : ∀ d ∈ l, numeric d = true) :
    Fails (Reads l) (parseNumber tonumber) .unexpectedEos :=
  fails_first (fetchUntil_fails fun d hd => by rw [hl d hd]; rfl)

def plainByte (c : U8) : Bool := decide (¬ (iscntrl c = true ∨ c = 0x5c ∨ c = 0x22))

theorem escaped_of_not_plain (hc : plainByte c = false) :
    iscntrl c = true ∨ c = 0x5c ∨ c = 0x22 :=
  not_not.mp (of_decide_eq_false hc)

theorem escapeByte_plain (hc : plainByte c = true) : escapeByte false c = [c] := by
  have hnot := of_decide_eq_true hc
  simp only [escapeByte, Bool.false_eq_true, if_false, if_neg hnot]

theorem flatMap_plain (hl : ∀ d ∈ l, plainByte d = true) :
    l.flatMap (escapeByte false) = l := by
  induction l with
  | nil => rfl
  | cons d l ih =>
    obtain ⟨hd, hl⟩ := List.forall_mem_cons.mp hl
    rw [List.flatMap_cons, escapeByte_plain hd, ih hl]
    rfl

theorem stops_plain (hl : ∀ d ∈ l, plainByte d = true) : ∀ d ∈ l, stops d = false := by
  intro d hd
  have hnot := of_decide_eq_true (hl d hd)
  simp only [stops, Bool.or_eq_false_iff, decide_eq_false_iff_not]
  exact ⟨fun h => hnot (.inr (.inl h)), fun h => hnot (.inr (.inr h))⟩

theorem escapeByte_escaped (hc : plainByte c = false) :
    escapeByte false c =
      [0x5c, 0x75, 0x30, 0x30, hexDigit (c.toNat / 16), hexDigit (c.toNat % 16)] := by
  have hesc := escaped_of_not_plain hc
  have hprefix : latin "\\u00" = [0x5c, 0x75, 0x30, 0x30] := by decide
  simp only [escapeByte, Bool.false_eq_true, if_false, if_pos hesc, hprefix]
  rfl

theorem tonumber16_hexDigits (c : U8) :
    tonumber16 [hexDigit (c.toNat / 16), hexDigit (c.toNat % 16)] = some c.toNat := by
  have hall : ∀ n : Fin 256, tonumber16 [hexDigit (n.val / 16), hexDigit (n.val % 16)] =
      some n.val := by decide +kernel
  exact hall ⟨c.toNat, c.isLt⟩

theorem utf8Encode_escaped (hc : plainByte c = false) : utf8Encode 0 c.toNat = [c] := by
  have hsmall : c.toNat ≤ 0x7f := by
    rcases escaped_of_not_plain hc with hcntrl | rfl | rfl
    · simp only [iscntrl, Bool.or_eq_true, decide_eq_true_eq] at hcntrl
      rcases hcntrl with hlow | rfl
      · omega
      · decide
    · decide
    · decide
  simp [utf8Encode, hsmall]

theorem parseEscape_gives (hc : plainByte c = false) (rest : List U8) :
    Gives (Holds 1 (escapeByte false c ++ rest)) parseEscape [c] (Reads rest) := by
  rw [escapeByte_escaped hc]
  have hzero : tonumber16 [0x30, 0x30] = some 0 := by decide
  refine gives_bind (sub_gives _ _) (gives_bind (fetchAtleast_gives (by simp))
    (gives_bind (upTo_gives _ _) (gives_bind (sub_gives _ _) ?_)))
  have hunicode : Gives
      (Reads (0x30 :: 0x30 :: hexDigit (c.toNat / 16) :: hexDigit (c.toNat % 16) :: rest))
      parseUnicode [c] (Reads rest) := by
    refine gives_bind (fetchAtleast_gives (by simp)) (gives_bind (upTo_gives _ _) ?_)
    simp only [List.take_succ_cons, List.take_zero, List.drop_succ_cons, List.drop_zero]
    rw [hzero, tonumber16_hexDigits]
    refine gives_bind (sub_gives _ _) ?_
    rw [utf8Encode_escaped hc]
    exact gives_pure fun _ hs => hs
  exact hunicode

theorem stringLoop_gives (s rest str : List U8)
    (hfuel : (s.flatMap (escapeByte false) ++ 0x22 :: rest).length < fuel) :
    Gives (Reads (s.flatMap (escapeByte false) ++ 0x22 :: rest)) (stringLoop fuel str) (str ++ s)
      (Reads rest) := by
  induction fuel generalizing s str with
  | zero => omega
  | succ fuel ih =>
    rcases exists_first_byte (fun d => !plainByte d) s with hall | ⟨w, c, s', rfl, hw, hc⟩
    · have hplain : ∀ d ∈ s, plainByte d = true := fun d hd => by simpa using hall d hd
      rw [flatMap_plain hplain]
      refine gives_bind (scanString_gives str (stops_plain hplain) (by decide))
        (gives_bind (upTo_gives _ _) ?_)
      exact gives_bind (sub_gives _ _) (gives_pure fun _ hs => hs)
    · have hplain : ∀ d ∈ w, plainByte d = true := fun d hd => by simpa using hw d hd
      have hc' : plainByte c = false := by simpa using hc
      have htext : (w ++ c :: s').flatMap (escapeByte false) ++ 0x22 :: rest =
          w ++ (escapeByte false c ++ (s'.flatMap (escapeByte false) ++ 0x22 :: rest)) := by
        rw [List.flatMap_append, List.flatMap_cons, flatMap_plain hplain]
        simp only [List.append_assoc]
      rw [htext] at hfuel ⊢
      have hfirst : ∃ tail, escapeByte false c ++ (s'.flatMap (escapeByte false) ++ 0x22 :: rest) =
          0x5c :: tail := ⟨_, by rw [escapeByte_escaped hc']; rfl⟩
      have hescape := parseEscape_gives hc' (s'.flatMap (escapeByte false) ++ 0x22 :: rest)
      have hlen : (s'.flatMap (escapeByte false) ++ 0x22 :: rest).length < fuel := by
        rw [escapeByte_escaped hc'] at hfuel
        simp only [List.length_append, List.length_cons] at hfuel ⊢
        omega
      obtain ⟨tail, htail⟩ := hfirst
      rw [htail] at hescape ⊢
      refine gives_bind (scanString_gives str (stops_plain hplain) (by decide))
        (gives_bind (upTo_gives _ _) ?_)
      have hloop := ih s' (str ++ w ++ [c]) hlen
      rw [show str ++ w ++ [c] ++ s' = str ++ (w ++ c :: s') by simp] at hloop
      exact gives_bind hescape hloop

theorem parseString_gives (s rest : List U8) (hfuel : (quoted false s ++ rest).length ≤ fuel) :
    Gives (Holds 1 (quoted false s ++ rest)) (parseString fuel) s (Reads rest) := by
  have htext : quoted false s ++ rest =
      0x22 :: (s.flatMap (escapeByte false) ++ 0x22 :: rest) := by simp [quoted]
  rw [htext] at hfuel ⊢
  refine gives_bind (upTo_gives _ _) ?_
  refine gives_bind (sub_gives _ _) ?_
  exact stringLoop_gives s rest [] (Nat.lt_of_succ_le hfuel)

end Scalars

section Values

variable {N : LuaNumbers ν} {cnull : Bool} {r rest : List U8} {c : U8} {fuel n : Nat}

theorem dispatch_gives {tonumber : List U8 → Option ν} {v : Value ν} (hc : isspace c = false)
    (h : Gives (Holds 1 (c :: r))
      (parse tonumber cnull (dispatch tonumber cnull fuel true none) fuel c) v (Reads rest)) :
    Gives (Reads (c :: r)) (dispatch tonumber cnull (fuel + 1) true none) v (Reads rest) := by
  refine gives_bind (fill_cons c r) ?_
  have hobject : Gives (Holds 1 (c :: r))
      (do
        let robject ← parse tonumber cnull (dispatch tonumber cnull fuel true none) fuel c
        if (none : Option (Value ν)).isSome then throw .tooManyObjects
        else if true then pure robject
        else dispatch tonumber cnull fuel true (some robject)) v (Reads rest) :=
    gives_bind h (gives_pure fun _ hs => hs)
  simpa only [hc, Bool.false_eq_true, if_false] using hobject

theorem dispatch_fails {tonumber : List U8 → Option ν} {e : Fault} (hc : isspace c = false)
    (h : Fails (Holds 1 (c :: r))
      (parse tonumber cnull (dispatch tonumber cnull fuel true none) fuel c) e) :
    Fails (Reads (c :: r)) (dispatch tonumber cnull (fuel + 1) true none) e := by
  refine fails_bind (fill_cons c r) ?_
  have hobject : Fails (Holds 1 (c :: r))
      (do
        let robject ← parse tonumber cnull (dispatch tonumber cnull fuel true none) fuel c
        if (none : Option (Value ν)).isSome then throw .tooManyObjects
        else if true then pure robject
        else dispatch tonumber cnull fuel true (some robject)) e :=
    fails_first h
  simpa only [hc, Bool.false_eq_true, if_false] using hobject

def Delimited (rest : List U8) : Prop := ∃ c r, rest = c :: r ∧ numeric c = false

/-- With fewer than `n` bytes left, `dispatch` reads the text of `v`, where something follows a number. -/
def ReadsBack (N : LuaNumbers ν) (n : Nat) (dispatch : Decoding (Value ν)) (v : Value ν) : Prop :=
  ∀ rest : List U8, (text N v ++ rest).length < n →
    ((∃ x, v = .number x) → Delimited rest) →
    Gives (Reads (text N v ++ rest)) dispatch v (Reads rest)

def Opens (t : List U8) : Prop := ∃ c r, t = c :: r ∧ isspace c = false ∧ c ≠ 0x5d

theorem arrayEntries_append {α : Type} (xs ys : List α) (i : Nat) :
    arrayEntries i (xs ++ ys) = arrayEntries i xs ++ arrayEntries (i + xs.length) ys := by
  induction xs generalizing i with
  | nil => rfl
  | cons x xs ih =>
    rw [List.cons_append, arrayEntries, arrayEntries, ih, List.length_cons, List.cons_append,
      Nat.add_assoc, Nat.add_comm 1]

theorem assign_array (done : List (Value ν)) {v : Value ν} (hv : v.isNil = false) :
    assign (arrayEntries 1 done) (.index (done.length + 1)) v = arrayEntries 1 (done ++ [v]) := by
  have hnone : ((arrayEntries 1 done).any fun x => decide (x.1 = .index (done.length + 1))) =
      false := by
    rw [any_arrayEntries]
    apply decide_eq_false
    omega
  rw [assign, hv, if_neg (by decide), hnone, if_neg (by decide), arrayEntries_append,
    Nat.add_comm 1]
  rfl

theorem arrayLoop_gives {dispatch : Decoding (Value ν)} {vs : List (Value ν)} {v : Value ν}
    {done : List (Value ν)} (hback : ∀ w ∈ v :: vs, ReadsBack N n dispatch w)
    (hnil : ∀ w ∈ v :: vs, w.isNil = false)
    (hn : (joined ((v :: vs).map (text N)) ++ 0x5d :: rest).length < n)
    (hfuel : (joined ((v :: vs).map (text N)) ++ 0x5d :: rest).length < fuel) :
    Gives (Reads (joined ((v :: vs).map (text N)) ++ 0x5d :: rest))
      (arrayLoop dispatch fuel done.length (arrayEntries 1 done))
      (.table (arrayEntries 1 (done ++ v :: vs))) (Reads rest) := by
  induction vs generalizing v done fuel with
  | nil =>
    obtain ⟨fuel, rfl⟩ : ∃ k, fuel = k + 1 := ⟨fuel - 1, by omega⟩
    have htext : joined ([v].map (text N)) ++ 0x5d :: rest = text N v ++ 0x5d :: rest := by
      simp [joined]
    rw [htext] at hn ⊢
    have hv := hback v List.mem_cons_self (0x5d :: rest) hn fun _ => ⟨0x5d, rest, rfl, by decide⟩
    refine gives_bind hv (gives_bind (delimiterLoop_found (by decide) (by decide)) ?_)
    rw [assign_array done (hnil v List.mem_cons_self)]
    exact gives_pure fun _ hs => hs
  | cons w vs ih =>
    obtain ⟨fuel, rfl⟩ : ∃ k, fuel = k + 1 := ⟨fuel - 1, by omega⟩
    have htext : joined ((v :: w :: vs).map (text N)) ++ 0x5d :: rest =
        text N v ++ 0x2c :: (joined ((w :: vs).map (text N)) ++ 0x5d :: rest) := by
      simp [joined]
    rw [htext] at hn hfuel ⊢
    have hv := hback v List.mem_cons_self _ hn fun _ => ⟨0x2c, _, rfl, by decide⟩
    refine gives_bind hv (gives_bind (delimiterLoop_found (by decide) (by decide)) ?_)
    rw [assign_array done (hnil v List.mem_cons_self)]
    simp only [List.length_append, List.length_cons] at hn hfuel
    have hloop : Gives (Reads (joined ((w :: vs).map (text N)) ++ 0x5d :: rest))
        (arrayLoop dispatch fuel (done ++ [v]).length (arrayEntries 1 (done ++ [v])))
        (.table (arrayEntries 1 (done ++ [v] ++ w :: vs))) (Reads rest) :=
      ih (fun x hx => hback x (List.mem_cons_of_mem v hx))
        (fun x hx => hnil x (List.mem_cons_of_mem v hx))
        (by simp only [List.length_append, List.length_cons]; omega)
        (by simp only [List.length_append, List.length_cons]; omega)
    rw [List.length_append, List.append_assoc] at hloop
    exact hloop

theorem parseArray_gives {dispatch : Decoding (Value ν)} {vs : List (Value ν)}
    (hback : ∀ w ∈ vs, ReadsBack N n dispatch w) (hnil : ∀ w ∈ vs, w.isNil = false)
    (hopens : ∀ w ∈ vs, Opens (text N w))
    (hn : (joined (vs.map (text N)) ++ 0x5d :: rest).length < n)
    (hfuel : (joined (vs.map (text N)) ++ 0x5d :: rest).length < fuel) :
    Gives (Holds 1 (0x5b :: (joined (vs.map (text N)) ++ 0x5d :: rest)))
      (parseArray dispatch fuel) (.table (arrayEntries 1 vs)) (Reads rest) := by
  refine gives_bind (sub_gives _ _) ?_
  cases vs with
  | nil =>
    refine gives_bind (delimiterLoop_found (by decide) (by decide)) ?_
    exact gives_pure fun _ hs => hs
  | cons v vs =>
    have hloop : Gives (Reads (joined ((v :: vs).map (text N)) ++ 0x5d :: rest))
        (arrayLoop dispatch fuel 0 []) (.table (arrayEntries 1 (v :: vs))) (Reads rest) :=
      @arrayLoop_gives _ _ _ _ _ _ vs v [] hback hnil hn hfuel
    obtain ⟨c, r, hv, hspace, hc⟩ := hopens v List.mem_cons_self
    have htext : joined ((v :: vs).map (text N)) ++ 0x5d :: rest =
        c :: (r ++ ((vs.map (text N)).flatMap fun t => 0x2c :: t) ++ 0x5d :: rest) := by
      simp [joined, hv]
    rw [htext] at hloop ⊢
    exact gives_bind (delimiterLoop_other hspace (by simpa using hc)) hloop

theorem assign_field {done : List (List U8 × Value ν)} {s : List U8} {v : Value ν}
    (hv : v.isNil = false) (hs : s ∉ done.map Prod.fst) :
    assign (fieldEntries done) (.name s) v = fieldEntries (done ++ [(s, v)]) := by
  have hnone : ((fieldEntries done).any fun x => decide (x.1 = .name s)) = false := by
    simp only [fieldEntries, List.any_map, List.any_eq_false, Function.comp_apply,
      decide_eq_true_eq, Key.name.injEq]
    rintro f hf rfl
    exact hs (List.mem_map_of_mem hf)
  rw [assign, hv, if_neg (by decide), hnone, if_neg (by decide)]
  simp [fieldEntries]

theorem objectEntry_gives {dispatch : Decoding (Value ν)} {d : U8} {v : Value ν}
    {done : List (List U8 × Value ν)} {f : List U8 × Value ν} (hback : ReadsBack N n dispatch f.2)
    (hnil : f.2.isNil = false) (hnew : f.1 ∉ done.map Prod.fst)
    (hd : d ∈ ([0x2c, 0x7d] : List U8)) (hn : (fieldText N f ++ d :: r).length < n)
    (hfuel : (fieldText N f ++ d :: r).length < fuel + 1)
    (hnext : Gives (Reads r)
      (if d = 0x7d then pure (.table (fieldEntries (done ++ [f])))
        else objectLoop dispatch fuel (fieldEntries (done ++ [f])) : Decoding (Value ν)) v
        (Reads rest)) :
    Gives (Reads (fieldText N f ++ d :: r)) (objectLoop dispatch (fuel + 1) (fieldEntries done)) v
      (Reads rest) := by
  have htext : fieldText N f ++ d :: r = quoted false f.1 ++ 0x3a :: (text N f.2 ++ d :: r) := by
    simp [fieldText]
  rw [htext] at hn hfuel ⊢
  have hquote : quoted false f.1 ++ 0x3a :: (text N f.2 ++ d :: r) =
      0x22 :: (f.1.flatMap (escapeByte false) ++ [0x22] ++ 0x3a :: (text N f.2 ++ d :: r)) := by
    simp [quoted]
  have hspace : Gives (Reads (quoted false f.1 ++ 0x3a :: (text N f.2 ++ d :: r))) parseSpace true
      (Holds 1 (quoted false f.1 ++ 0x3a :: (text N f.2 ++ d :: r))) := by
    rw [hquote]
    exact parseSpace_more (w := []) (by simp) (by decide)
  have hname := parseString_gives f.1 (0x3a :: (text N f.2 ++ d :: r)) (Nat.le_of_lt_succ hfuel)
  have hdelimiter : isspace d = false ∧ numeric d = false := by
    rcases List.mem_cons.mp hd with rfl | hd
    · decide
    · obtain rfl := List.mem_singleton.mp hd
      decide
  have hshort : (text N f.2 ++ d :: r).length < n := by
    simp only [List.length_append, List.length_cons] at hn ⊢
    omega
  have hvalue := hback (d :: r) hshort fun _ => ⟨d, r, rfl, hdelimiter.2⟩
  refine gives_bind hspace (gives_bind hname ?_)
  refine gives_bind (delimiterLoop_found (by decide) (by decide)) (gives_bind hvalue
    (gives_bind (delimiterLoop_found hdelimiter.1 hd) ?_))
  rw [assign_field hnil hnew]
  exact hnext

theorem objectLoop_gives {dispatch : Decoding (Value ν)} {fields : List (List U8 × Value ν)}
    {f : List U8 × Value ν} {done : List (List U8 × Value ν)}
    (hback : ∀ g ∈ f :: fields, ReadsBack N n dispatch g.2)
    (hnil : ∀ g ∈ f :: fields, g.2.isNil = false)
    (hnodup : ((done ++ f :: fields).map Prod.fst).Nodup)
    (hn : (joined ((f :: fields).map (fieldText N)) ++ 0x7d :: rest).length < n)
    (hfuel : (joined ((f :: fields).map (fieldText N)) ++ 0x7d :: rest).length < fuel) :
    Gives (Reads (joined ((f :: fields).map (fieldText N)) ++ 0x7d :: rest))
      (objectLoop dispatch fuel (fieldEntries done))
      (.table (fieldEntries (done ++ f :: fields))) (Reads rest) := by
  induction fields generalizing f done fuel with
  | nil =>
    obtain ⟨fuel, rfl⟩ : ∃ k, fuel = k + 1 := ⟨fuel - 1, by omega⟩
    have htext : joined ([f].map (fieldText N)) ++ 0x7d :: rest = fieldText N f ++ 0x7d :: rest := by
      simp [joined]
    rw [htext] at hn hfuel ⊢
    have hnew : f.1 ∉ done.map Prod.fst := by
      rw [List.map_append, List.nodup_append] at hnodup
      exact fun h => hnodup.2.2 f.1 h f.1 (by simp) rfl
    refine objectEntry_gives (hback f List.mem_cons_self) (hnil f List.mem_cons_self) hnew
      (by decide) hn hfuel ?_
    rw [if_pos rfl]
    exact gives_pure fun _ hs => hs
  | cons g fields ih =>
    obtain ⟨fuel, rfl⟩ : ∃ k, fuel = k + 1 := ⟨fuel - 1, by omega⟩
    have htext : joined ((f :: g :: fields).map (fieldText N)) ++ 0x7d :: rest =
        fieldText N f ++ 0x2c :: (joined ((g :: fields).map (fieldText N)) ++ 0x7d :: rest) := by
      simp [joined]
    rw [htext] at hn hfuel ⊢
    have hnew : f.1 ∉ done.map Prod.fst := by
      rw [List.map_append, List.nodup_append] at hnodup
      exact fun h => hnodup.2.2 f.1 h f.1 (by simp) rfl
    have hshort : (joined ((g :: fields).map (fieldText N)) ++ 0x7d :: rest).length + 1 ≤
        (fieldText N f ++ 0x2c :: (joined ((g :: fields).map (fieldText N)) ++
          0x7d :: rest)).length := by
      simp only [List.length_append, List.length_cons]
      omega
    refine objectEntry_gives (hback f List.mem_cons_self) (hnil f List.mem_cons_self) hnew
      (by decide) hn hfuel ?_
    rw [if_neg (by decide)]
    have hdone : done ++ [f] ++ g :: fields = done ++ f :: g :: fields := by simp
    have hloop := ih (f := g) (fun x hx => hback x (List.mem_cons_of_mem f hx))
      (fun x hx => hnil x (List.mem_cons_of_mem f hx)) (hdone ▸ hnodup) (by omega)
      (Nat.lt_of_lt_of_le (Nat.lt_of_succ_le hshort) (Nat.le_of_lt_succ hfuel))
    rw [hdone] at hloop
    exact hloop

theorem parseObject_gives {dispatch : Decoding (Value ν)} {fields : List (List U8 × Value ν)}
    (hne : fields ≠ []) (hback : ∀ g ∈ fields, ReadsBack N n dispatch g.2)
    (hnil : ∀ g ∈ fields, g.2.isNil = false) (hnodup : (fields.map Prod.fst).Nodup)
    (hn : (joined (fields.map (fieldText N)) ++ 0x7d :: rest).length < n)
    (hfuel : (joined (fields.map (fieldText N)) ++ 0x7d :: rest).length < fuel) :
    Gives (Holds 1 (0x7b :: (joined (fields.map (fieldText N)) ++ 0x7d :: rest)))
      (parseObject dispatch fuel) (.table (fieldEntries fields)) (Reads rest) := by
  obtain ⟨f, fields, rfl⟩ := List.exists_cons_of_ne_nil hne
  have hloop : Gives (Reads (joined ((f :: fields).map (fieldText N)) ++ 0x7d :: rest))
      (objectLoop dispatch fuel []) (.table (fieldEntries (f :: fields))) (Reads rest) :=
    @objectLoop_gives _ _ _ _ _ _ fields f [] hback hnil hnodup hn hfuel
  have htext : ∃ r, joined ((f :: fields).map (fieldText N)) ++ 0x7d :: rest = 0x22 :: r :=
    ⟨_, by simp [joined, fieldText, quoted]; rfl⟩
  obtain ⟨r, hr⟩ := htext
  refine gives_bind (sub_gives _ _) ?_
  rw [List.drop_one, List.tail_cons]
  rw [hr] at hloop ⊢
  exact gives_bind (delimiterLoop_other (by decide) (by decide)) hloop

end Values

/-- Strings, booleans, integers that are printed exactly, dense arrays, and tables with string keys that
are not empty. -/
inductive Plain (N : LuaNumbers ν) : Value ν → Prop where
  | bool (b : Bool) : Plain N (.bool b)
  | number (n : Int) : N.Exact n → Plain N (.number (N.ofInt n))
  | string (s : List U8) : Plain N (.string s)
  | array (vs : List (Value ν)) : (∀ v ∈ vs, Plain N v) → Plain N (.table (arrayEntries 1 vs))
  | object (fields : List (List U8 × Value ν)) : fields ≠ [] → (fields.map Prod.fst).Nodup →
      (∀ f ∈ fields, Plain N f.2) → Plain N (.table (fieldEntries fields))

section Numbers

theorem numeric_of_digit {c : U8} (hc : isdigit c = true) : numeric c = true := by
  simp [numeric, hc]

theorem decimal_begins (n : Int) :
    ∃ c r, decimal n = c :: r ∧ (isdigit c || decide (c = 0x2d)) = true := by
  cases n with
  | ofNat n =>
    obtain ⟨c, r, hcr⟩ := List.exists_cons_of_ne_nil (digits_ne_nil n)
    have hc := digits_isdigit n c (by rw [hcr]; exact List.mem_cons_self)
    exact ⟨c, r, hcr, by simp [hc]⟩
  | negSucc n => exact ⟨0x2d, digits (n + 1), rfl, by decide⟩

theorem decimal_numeric (n : Int) : ∀ d ∈ decimal n, numeric d = true := by
  intro d hd
  cases n with
  | ofNat n => exact numeric_of_digit (digits_isdigit n d hd)
  | negSucc n =>
    rcases List.mem_cons.mp hd with rfl | hd
    · decide
    · exact numeric_of_digit (digits_isdigit (n + 1) d hd)

theorem parse_number (tonumber : List U8 → Option ν) (cnull : Bool) (dispatch : Decoding (Value ν))
    (fuel : Nat) {c : U8} (hc : (isdigit c || decide (c = 0x2d)) = true) :
    parse tonumber cnull dispatch fuel c = parseNumber tonumber ∧ isspace c = false ∧
      c ≠ 0x5d := by
  have hrange : c.toNat = 0x2d ∨ 0x30 ≤ c.toNat ∧ c.toNat ≤ 0x39 := by
    rcases (Bool.or_eq_true _ _).mp hc with hdigit | hminus
    · exact .inr (by simpa [isdigit] using hdigit)
    · rw [of_decide_eq_true hminus]
      exact .inl rfl
  have hne : ∀ k : U8, (k.toNat < 0x2d ∨ k.toNat = 0x2e ∨ 0x39 < k.toNat) → c ≠ k := by
    rintro k hk rfl
    omega
  refine ⟨?_, ?_, hne _ (by decide)⟩
  · rw [parse, if_neg (hne _ (by decide)), if_neg (hne _ (by decide)), if_neg (hne _ (by decide)),
      if_neg (hne _ (by decide)), if_neg (hne _ (by decide)), if_neg (hne _ (by decide)),
      if_pos hc]
  · have hblank : ¬ c = 0x20 := hne _ (by decide)
    simp only [isspace, hblank, decide_false, Bool.false_or, Bool.and_eq_false_iff,
      decide_eq_false_iff_not]
    omega

end Numbers

section Plain

variable {N : LuaNumbers ν} {v : Value ν}

theorem text_number (N : LuaNumbers ν) {n : Int} (hn : N.Exact n) :
    text N (.number (N.ofInt n)) = decimal n := by
  simp [text, puts, N.tostring_ofInt n hn]

theorem text_string (N : LuaNumbers ν) (s : List U8) : text N (.string s) = quoted false s := by
  simp [text, puts]

theorem text_bool (N : LuaNumbers ν) (b : Bool) :
    text N (.bool b) = if b then latin "true" else latin "false" := by
  simp [text, puts]

theorem plain_not_nil (h : Plain N v) : v.isNil = false := by
  cases h <;> rfl

theorem plain_opens (h : Plain N v) : Opens (text N v) := by
  cases h with
  | bool b =>
    rw [text_bool]
    cases b with
    | true => exact ⟨0x74, latin "rue", by decide, by decide, by decide⟩
    | false => exact ⟨0x66, latin "alse", by decide, by decide, by decide⟩
  | number n hn =>
    obtain ⟨c, r, hcr, hc⟩ := decimal_begins n
    obtain ⟨_, hspace, hne⟩ := parse_number N.tonumber false (throw .exhausted) 0 hc
    exact ⟨c, r, (text_number N hn).trans hcr, hspace, hne⟩
  | string s => exact ⟨0x22, _, text_string N s, by decide, by decide⟩
  | array vs _ => exact ⟨0x5b, _, text_array N vs, by decide, by decide⟩
  | object fields hne _ _ => exact ⟨0x7b, _, text_object N hne, by decide, by decide⟩

/-- Every plain value is read back, by induction on its tables. -/
theorem plain_readsBack (cnull : Bool) (h : Plain N v) :
    ∀ fuel, ReadsBack N fuel (dispatch N.tonumber cnull fuel true none) v := by
  induction h with
  | bool b =>
    intro fuel rest hlen _
    obtain ⟨fuel, rfl⟩ : ∃ k, fuel = k + 1 := ⟨fuel - 1, by omega⟩
    rw [text_bool]
    cases b with
    | true =>
      refine dispatch_gives (by decide) ?_
      exact (parseLiteral_gives (latin "true") rest (.bool true)).pre fun _ hs => hs.1
    | false =>
      refine dispatch_gives (by decide) ?_
      exact (parseLiteral_gives (latin "false") rest (.bool false)).pre fun _ hs => hs.1
  | number n hn =>
    intro fuel rest hlen hterm
    obtain ⟨fuel, rfl⟩ : ∃ k, fuel = k + 1 := ⟨fuel - 1, by omega⟩
    obtain ⟨d, r, rfl, hd⟩ := hterm ⟨_, rfl⟩
    obtain ⟨c, r', hcr, hc⟩ := decimal_begins n
    obtain ⟨hparse, hspace, _⟩ := parse_number N.tonumber cnull
      (dispatch N.tonumber cnull fuel true none) fuel hc
    have hnumber := parseNumber_gives (r := r) (decimal_numeric n) hd (N.tonumber_decimal n hn)
    rw [text_number N hn]
    rw [hcr, List.cons_append] at hnumber ⊢
    refine dispatch_gives hspace ?_
    rw [hparse]
    exact hnumber.pre fun _ hs => hs.1
  | string s =>
    intro fuel rest hlen _
    obtain ⟨fuel, rfl⟩ : ∃ k, fuel = k + 1 := ⟨fuel - 1, by omega⟩
    rw [text_string] at hlen ⊢
    refine dispatch_gives (by decide) ?_
    exact gives_bind (parseString_gives s rest (Nat.le_of_lt_succ hlen))
      (gives_pure fun _ hs => hs)
  | array vs hvs ih =>
    intro fuel rest hlen _
    obtain ⟨fuel, rfl⟩ : ∃ k, fuel = k + 1 := ⟨fuel - 1, by omega⟩
    have htext : text N (.table (arrayEntries 1 vs)) ++ rest =
        0x5b :: (joined (vs.map (text N)) ++ 0x5d :: rest) := by simp [text_array]
    rw [htext] at hlen ⊢
    have hshort := Nat.lt_of_succ_lt_succ hlen
    refine dispatch_gives (by decide) ?_
    exact parseArray_gives (fun w hw => ih w hw fuel) (fun w hw => plain_not_nil (hvs w hw))
      (fun w hw => plain_opens (hvs w hw)) hshort hshort
  | object fields hne hnodup hfields ih =>
    intro fuel rest hlen _
    obtain ⟨fuel, rfl⟩ : ∃ k, fuel = k + 1 := ⟨fuel - 1, by omega⟩
    have htext : text N (.table (fieldEntries fields)) ++ rest =
        0x7b :: (joined (fields.map (fieldText N)) ++ 0x7d :: rest) := by simp [text_object N hne]
    rw [htext] at hlen ⊢
    have hshort := Nat.lt_of_succ_lt_succ hlen
    refine dispatch_gives (by decide) ?_
    exact parseObject_gives hne (fun f hf => ih f hf fuel)
      (fun f hf => plain_not_nil (hfields f hf)) hnodup hshort hshort

theorem decode_of_gives {tonumber : List U8 → Option ν} {cnull : Bool} {json : List U8}
    (h : Gives (Reads json) (dispatch tonumber cnull (json.length + 1) true none) v (Reads [])) :
    decode tonumber cnull json = if v.truthy then v else .nil := by
  have hwhole : Reads json ⟨json, []⟩ := by simp [Reads, Input.stream]
  obtain ⟨t, hrun, _⟩ := h _ hwhole
  rw [decode, hrun]

theorem decode_number {n : Int} (hn : N.Exact n) (cnull : Bool) :
    decode N.tonumber cnull (text N (.number (N.ofInt n))) = .nil := by
  obtain ⟨c, r, hcr, hc⟩ := decimal_begins n
  obtain ⟨hparse, hspace, _⟩ := parse_number N.tonumber cnull
    (dispatch N.tonumber cnull (decimal n).length true none) (decimal n).length hc
  have hfails : Fails (Reads (decimal n))
      (dispatch N.tonumber cnull ((decimal n).length + 1) true none) .unexpectedEos := by
    have hnumber := parseNumber_fails N.tonumber (decimal_numeric n)
    rw [hcr] at hnumber ⊢
    rw [hcr] at hparse
    refine dispatch_fails hspace ?_
    rw [hparse]
    exact hnumber.pre fun _ hs => hs.1
  have hwhole : Reads (decimal n) ⟨decimal n, []⟩ := by simp [Reads, Input.stream]
  rw [text_number N hn, decode, hfails _ hwhole]

end Plain

/-- What is encoded is decoded again if and only if it is neither false nor a number by itself. -/
theorem decode_encode_iff (N : LuaNumbers ν) (cnull : Bool) (v : Value ν) (hv : Plain N v) :
    decode N.tonumber cnull (encode N.tostring false v) = v ↔
      v ≠ .bool false ∧ ∀ x, v ≠ .number x := by
  rw [encode_eq_text]
  by_cases hnumber : ∃ x, v = .number x
  · obtain ⟨x, rfl⟩ := hnumber
    refine iff_of_false ?_ fun h => h.2 x rfl
    cases hv with
    | number n hn =>
      rw [decode_number hn]
      exact fun h => by cases h
  · have hback := plain_readsBack cnull hv ((text N v).length + 1) [] (by simp)
      fun h => absurd h hnumber
    rw [List.append_nil] at hback
    rw [decode_of_gives hback]
    have hnot : ∀ x, v ≠ .number x := fun x hx => hnumber ⟨x, hx⟩
    cases hv with
    | bool b => cases b <;> simp [Value.truthy]
    | number n hn => exact absurd rfl (hnot _)
    | string s => simp [Value.truthy]
    | array vs _ => simp [Value.truthy]
    | object fields _ _ _ => simp [Value.truthy]

def readDigits (ds : List U8) : Option Nat :=
  if ds ≠ [] ∧ ∀ d ∈ ds, isdigit d = true then
    some (ds.foldl (fun n d => 10 * n + (d.toNat - 0x30)) 0)
  else none

def readDecimal : List U8 → Option Int
  | [] => none
  | c :: r =>
    if c = 0x2d then (readDigits r).map fun n => -(n : Int)
    else (readDigits (c :: r)).map fun n => (n : Int)

theorem readDigits_digits (n : Nat) : readDigits (digits n) = some n := by
  rw [readDigits, if_pos ⟨digits_ne_nil n, digits_isdigit n⟩, digits_value]

def integers : LuaNumbers Int where
  tostring := decimal
  tonumber := readDecimal
  ofInt := id
  Exact n := n.natAbs < 10 ^ 14
  tostring_ofInt _ _ := rfl
  tonumber_decimal := by
    intro n _
    cases n with
    | ofNat n =>
      obtain ⟨c, r, hcr⟩ := List.exists_cons_of_ne_nil (digits_ne_nil n)
      have hc := digits_isdigit n c (by rw [hcr]; exact List.mem_cons_self)
      have hminus : c ≠ 0x2d := by
        rintro rfl
        exact absurd hc (by decide)
      have hread := readDigits_digits n
      rw [decimal, hcr] at *
      rw [readDecimal, if_neg hminus, hread]
      rfl
    | negSucc n =>
      rw [decimal, readDecimal, if_pos rfl, readDigits_digits]
      rfl

/-- `{ a = { 1, false } }`. -/
def exampleValue : Value Int :=
  .table (fieldEntries [(latin "a", .table (arrayEntries 1 [.number (integers.ofInt 1), .bool false]))])

theorem exampleValue_plain : Plain integers exampleValue := by
  refine .object _ (by simp) (by simp) fun f hf => ?_
  obtain rfl := List.mem_singleton.mp hf
  refine .array _ fun v hv => ?_
  rcases List.mem_cons.mp hv with rfl | hv
  · exact .number 1 (by decide : (1 : Int).natAbs < 10 ^ 14)
  · obtain rfl := List.mem_singleton.mp hv
    exact .bool false

theorem exampleValue_decoded :
    decode integers.tonumber false (encode integers.tostring false exampleValue) = exampleValue :=
  (decode_encode_iff integers false exampleValue exampleValue_plain).mpr
    ⟨fun h => (by cases h), fun _ h => (by cases h)⟩

/-- `decode(encode(false))` and `decode(encode(5))` are nil. -/
theorem false_and_five_lost :
    (Plain integers (.bool false) ∧
      decode integers.tonumber false (encode integers.tostring false (.bool false)) ≠
        .bool false) ∧
      Plain integers (.number (integers.ofInt 5)) ∧
        decode integers.tonumber false
          (encode integers.tostring false (.number (integers.ofInt 5))) ≠
            .number (integers.ofInt 5) := by
  refine ⟨⟨.bool false, ?_⟩, .number 5 (by decide : (5 : Int).natAbs < 10 ^ 14), ?_⟩
  · have hnil : decode integers.tonumber false
        (encode integers.tostring false (.bool false)) = .nil := rfl
    rw [hnil]
    exact fun h => by cases h
  · have hnil : decode integers.tonumber false
        (encode integers.tostring false (.number (integers.ofInt 5))) = .nil := rfl
    rw [hnil]
    exact fun h => by cases h

end OpenwrtMtk.Luci.Json
