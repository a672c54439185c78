import Mathlib.Data.List.ReduceOption
import Mathlib.Tactic.FinCases
import OpenwrtMtk.Uci2dat.Config
import OpenwrtMtk.Uci2dat.Parsed

/-!
# Lists with an element for each virtual interface

The keys for all virtual interfaces print one element for each of them, in their order. For
`DefaultKeyID` this is true while no interface lacks an authmode.
-/

namespace OpenwrtMtk.Uci2dat

open Toolkit

set_option autoImplicit false

section Split

variable {element : Vif → List U8} {vs : List Vif}

def fields (text : List U8) : List (List U8) := text.splitOnP (· = 0x3b)

theorem fields_of_clean {text : List U8} (h : 0x3b ∉ text) : fields text = [text] :=
  List.splitOnP_eq_singleton fun _ hc => decide_eq_false (ne_of_mem_of_not_mem hc h)

theorem fields_append {text : List U8} (h : 0x3b ∉ text) (rest : List U8) :
    fields (text ++ 0x3b :: rest) = text :: fields rest :=
  List.splitOnP_append_cons_of_forall_mem
    (fun _ hc => decide_eq_false (ne_of_mem_of_not_mem hc h)) 0x3b (by decide) rest

theorem fields_separated (hvs : vs ≠ []) (h : ∀ v ∈ vs, 0x3b ∉ element v) :
    fields (separated element vs) = vs.map element := by
  induction vs with
  | nil => exact absurd rfl hvs
  | cons v vs ih =>
    have hv := h v List.mem_cons_self
    cases vs with
    | nil =>
      rw [separated, List.flatMap_nil, List.append_nil]
      exact fields_of_clean hv
    | cons w vs =>
      have hrest := ih (by simp) fun u hu => h u (List.mem_cons_of_mem _ hu)
      rw [separated, List.flatMap_cons, List.cons_append, fields_append hv]
      exact congrArg (element v :: ·) hrest

theorem fields_terminated {pieces : List (List U8)} (h : ∀ text ∈ pieces, 0x3b ∉ text) :
    fields (pieces.flatMap (· ++ [0x3b])) = pieces ++ [[]] := by
  induction pieces with
  | nil => rfl
  | cons text pieces ih =>
    rw [List.flatMap_cons, List.append_assoc, List.singleton_append,
      fields_append (h text List.mem_cons_self), ih fun t ht => h t (List.mem_cons_of_mem _ ht)]
    rfl

end Split

section Parsed

variable {s : Section}

def Clean (s : Section) : Prop := ∀ x ∈ s.options, 0x3b ∉ x.2

theorem option_clean (hs : Clean s) {key : String} {value : List U8}
    (h : s.option key = some value) : 0x3b ∉ value := by
  obtain ⟨front, back, hopts, -⟩ := List.lookup_eq_some_iff.mp h
  exact hs (bytes key, value) (by rw [hopts]; simp)

/-- The interfaces that differ from `v` in the authmode and the cipher at most. -/
def Secures (v w : Vif) : Prop := ∃ authmode cipher, w = { v with authmode, cipher }

theorem Secures.ite {p : Prop} [Decidable p] {v w w' : Vif} (h : Secures v w) (h' : Secures v w') :
    Secures v (if p then w else w') := by
  split
  · exact h
  · exact h'

theorem Secures.fixedCipher {v w : Vif} (h : Secures v w) (authmode cipher : String) :
    Secures v (fixedCipher w authmode cipher) := by
  obtain ⟨_, _, rfl⟩ := h
  exact ⟨_, _, rfl⟩

theorem Secures.secured {v w : Vif} (h : Secures v w) (value : List U8) (constant authmode : String) :
    Secures v (secured w value constant authmode) := by
  obtain ⟨_, _, rfl⟩ := h
  exact ⟨_, _, rfl⟩

theorem encryption_secures (v : Vif) (value : List U8) : Secures v (encryption v value) := by
  have hself : Secures v v := ⟨v.authmode, v.cipher, rfl⟩
  have hfirst := (hself.fixedCipher "8021x" "wep").ite (p := begins value "8021x") hself
  exact (hfirst.fixedCipher _ _).ite ((hfirst.fixedCipher _ _).ite ((hfirst.fixedCipher _ _).ite
    ((hfirst.secured _ _ _).ite
      (((hfirst.secured _ _ _).ite ((hfirst.secured _ _ _).ite
        ((hfirst.secured _ _ _).ite (hfirst.secured _ _ _)))).ite
      (((hfirst.secured _ _ _).ite ((hfirst.secured _ _ _).ite
        ((hfirst.secured _ _ _).ite (hfirst.secured _ _ _)))).ite hfirst)))))

theorem parseVif_frame (v : Vif) (s : Section) :
    (parseVif v s).hidden = (s.option "hidden").or v.hidden ∧
      (parseVif v s).key = (s.option "key").or v.key ∧
      (parseVif v s).authServer = (s.option "auth_server").or v.authServer ∧
      (parseVif v s).authPort = (s.option "auth_port").or v.authPort ∧
      (parseVif v s).rekeyinteval = (s.option "rekeyinteval").or v.rekeyinteval ∧
      (parseVif v s).preauth = (s.option "preauth").or v.preauth ∧
      (parseVif v s).pmkcacheperiod = (s.option "pmkcacheperiod").or v.pmkcacheperiod := by
  unfold parseVif
  dsimp only
  split
  · obtain ⟨authmode, cipher, heq⟩ := encryption_secures _ _
    rw [heq]
    exact ⟨rfl, rfl, rfl, rfl, rfl, rfl, rfl⟩
  · exact ⟨rfl, rfl, rfl, rfl, rfl, rfl, rfl⟩

theorem field_clean {field : Vif → Option (List U8)} {key : String}
    (hfield : ∀ s, field (parseVif vif s) = (s.option key).or (field vif))
    (hdefault : 0x3b ∉ fprint (field vif)) (s : Section) (hs : Clean s) :
    0x3b ∉ fprint (field (parseVif vif s)) := by
  rw [hfield]
  cases h : s.option key with
  | none => exact hdefault
  | some value => exact option_clean hs h

end Parsed

section Elements

theorem encrypType_clean (v : Vif) : 0x3b ∉ encrypType v := by
  unfold encrypType
  repeat' split
  all_goals decide

theorem authMode_clean (v : Vif) : 0x3b ∉ authMode v := by
  unfold authMode
  repeat' split
  all_goals decide

theorem ieee8021X_clean (v : Vif) : 0x3b ∉ ieee8021X v := by
  unfold ieee8021X
  repeat' split
  all_goals decide

theorem keyType_clean (i : Nat) (v : Vif) : 0x3b ∉ keyType i v := by
  unfold keyType
  repeat' split
  all_goals decide

theorem hideSSID_clean {s : Section} (hs : Clean s) : 0x3b ∉ hideSSID (parseVif vif s) := by
  unfold hideSSID
  rw [(parseVif_frame vif s).1]
  cases h : (s.option "hidden") with
  | none => decide
  | some value => exact option_clean hs h

end Elements

def multiBssKeys : List String :=
  ["EncrypType", "AuthMode", "HideSSID", "RADIUS_Server", "RADIUS_Port", "PreAuth", "RekeyInterval",
   "PMKCachePeriod", "IEEE8021X", "DefaultKeyID", "Key1Type", "Key2Type", "Key3Type", "Key4Type"]

theorem hooker_elements {key : String} (hkey : key ∈ multiBssKeys) (hne : key ≠ "DefaultKeyID") :
    ∃ element : Vif → List U8, (∀ s, Clean s → 0x3b ∉ element (parseVif vif s)) ∧
      ((∀ cfg value, hooker cfg key value = separated element cfg.used) ∨
        ∀ cfg value, hooker cfg key value = terminated element cfg.used) := by
  have hframe := fun s => parseVif_frame vif s
  simp only [multiBssKeys, List.mem_cons, List.not_mem_nil, or_false] at hkey
  rcases hkey with rfl | rfl | rfl | rfl | rfl | rfl | rfl | rfl | rfl | rfl | rfl | rfl | rfl | rfl
  · exact ⟨encrypType, fun s _ => encrypType_clean _, .inl fun _ _ => rfl⟩
  · exact ⟨authMode, fun s _ => authMode_clean _, .inl fun _ _ => rfl⟩
  · exact ⟨hideSSID, fun s hs => hideSSID_clean hs, .inl fun _ _ => rfl⟩
  · exact ⟨_, field_clean (fun s => (hframe s).2.2.1) (by decide), .inl fun _ _ => rfl⟩
  · exact ⟨_, field_clean (fun s => (hframe s).2.2.2.1) (by decide), .inl fun _ _ => rfl⟩
  · exact ⟨_, field_clean (fun s => (hframe s).2.2.2.2.2.1) (by decide), .inl fun _ _ => rfl⟩
  · exact ⟨_, field_clean (fun s => (hframe s).2.2.2.2.1) (by decide), .inl fun _ _ => rfl⟩
  · exact ⟨_, field_clean (fun s => (hframe s).2.2.2.2.2.2) (by decide), .inl fun _ _ => rfl⟩
  · exact ⟨ieee8021X, fun s _ => ieee8021X_clean _, .inl fun _ _ => rfl⟩
  · exact absurd rfl hne
  · exact ⟨keyType 0, fun s _ => keyType_clean _ _, .inr fun _ _ => rfl⟩
  · exact ⟨keyType 1, fun s _ => keyType_clean _ _, .inr fun _ _ => rfl⟩
  · exact ⟨keyType 2, fun s _ => keyType_clean _ _, .inr fun _ _ => rfl⟩
  · exact ⟨keyType 3, fun s _ => keyType_clean _ _, .inr fun _ _ => rfl⟩

section Configured

theorem foldl_addIface_used (sections : List Section) (cfg : WifiParams)
    (hfree : ∀ j, cfg.vifnum ≤ j → cfg.vifs j = vif) :
    (sections.foldl addIface cfg).used = cfg.used ++ sections.map (parseVif vif) := by
  induction sections generalizing cfg with
  | nil => simp
  | cons s sections ih =>
    have hused : (addIface cfg s).used = cfg.used ++ [parseVif vif s] := by
      unfold addIface WifiParams.used
      dsimp only
      rw [List.range_succ, List.map_append, List.map_singleton, Function.update_self,
        hfree _ (Nat.le_refl _)]
      congr 1
      apply List.map_congr_left
      intro j hj
      exact Function.update_of_ne (Nat.ne_of_lt (List.mem_range.mp hj)) _ _
    rw [List.foldl_cons, ih, hused, List.map_cons, List.append_assoc, List.singleton_append]
    intro j hj
    have hj' : cfg.vifnum + 1 ≤ j := hj
    exact (Function.update_of_ne (by omega) _ _).trans (hfree j (by omega))

theorem used_configured (devname : List U8) (params : List Param) (sections : List Section) :
    (configured devname params sections).used = sections.map (parseVif vif) := by
  rw [configured, foldl_addIface_used _ _ fun _ _ => rfl]
  rfl

variable {devname : List U8} {params : List Param} {value : List U8} {sections : List Section}

theorem fields_hooker {key : String} (hkey : key ∈ multiBssKeys) (hne : key ≠ "DefaultKeyID") :
    ∃ element : Vif → List U8, ∀ devname params value (sections : List Section),
      (∀ s ∈ sections, Clean s) → ∀ i < sections.length,
      (fields (hooker (configured devname params sections) key value))[i]? =
        sections[i]?.map fun s => element (parseVif vif s) := by
  obtain ⟨element, hclean, hprint⟩ := hooker_elements hkey hne
  refine ⟨element, fun devname params value sections hs i hi => ?_⟩
  have hall : ∀ v ∈ sections.map (parseVif vif), 0x3b ∉ element v := by
    intro v hv
    obtain ⟨s, hmem, rfl⟩ := List.mem_map.mp hv
    exact hclean s (hs s hmem)
  rcases hprint with hprint | hprint
  · have hne : sections.map (parseVif vif) ≠ [] := by
      intro hnil
      rw [List.map_eq_nil_iff.mp hnil] at hi
      exact absurd hi (Nat.not_lt_zero i)
    rw [hprint, used_configured, fields_separated hne hall, List.getElem?_map, List.getElem?_map,
      Option.map_map]
    rfl
  · have hterm : terminated element (sections.map (parseVif vif)) =
        ((sections.map (parseVif vif)).map element).flatMap (· ++ [0x3b]) := by
      rw [List.flatMap_map]
      rfl
    have hpieces : ∀ text ∈ (sections.map (parseVif vif)).map element, 0x3b ∉ text := by
      intro text htext
      obtain ⟨v, hv, rfl⟩ := List.mem_map.mp htext
      exact hall v hv
    rw [hprint, used_configured, hterm, fields_terminated hpieces, List.getElem?_append_left
      (by simpa using hi), List.getElem?_map, List.getElem?_map, Option.map_map]
    rfl

end Configured

section DefaultKeyID

/-- What `DefaultKeyID` has of an interface with an authmode. -/
def keyID (v : Vif) : Option (List U8) :=
  v.authmode.map fun authmode => if isWep authmode then fprint v.key else bytes "1"

theorem defaultKeyID_eq (vs : List Vif) :
    vs.flatMap defaultKeyID = (vs.filterMap keyID).flatMap (· ++ [0x3b]) := by
  induction vs with
  | nil => rfl
  | cons v vs ih =>
    rw [List.flatMap_cons, ih, List.filterMap_cons]
    unfold defaultKeyID keyID
    cases v.authmode with
    | none => rfl
    | some authmode =>
      dsimp only [Option.map_some]
      split
      · rfl
      · rfl

theorem keyID_clean {s : Section} (hs : Clean s) {text : List U8}
    (h : keyID (parseVif vif s) = some text) : 0x3b ∉ text := by
  obtain ⟨authmode, -, rfl⟩ := Option.map_eq_some_iff.mp h
  split
  · exact field_clean (fun s => (parseVif_frame vif s).2.1) (by decide) s hs
  · decide

variable {devname : List U8} {params : List Param} {value : List U8} {sections : List Section}

theorem fields_defaultKeyID (hs : ∀ s ∈ sections, Clean s) :
    fields (hooker (configured devname params sections) "DefaultKeyID" value) =
      (sections.map fun s => keyID (parseVif vif s)).reduceOption ++ [[]] := by
  have hprint : hooker (configured devname params sections) "DefaultKeyID" value =
      (configured devname params sections).used.flatMap defaultKeyID := rfl
  rw [hprint, used_configured, defaultKeyID_eq, fields_terminated]
  · rw [List.reduceOption, List.filterMap_map, List.filterMap_map]
    rfl
  · intro text htext
    obtain ⟨v, hv, hid⟩ := List.mem_filterMap.mp htext
    obtain ⟨s, hmem, rfl⟩ := List.mem_map.mp hv
    exact keyID_clean (hs s hmem) hid

def WepWithoutKey (v : Vif) : Prop :=
  ∃ authmode, v.authmode = some authmode ∧ isWep authmode = true ∧ fprint v.key = []

theorem keyID_eq_nil_iff {v : Vif} : keyID v = some [] ↔ WepWithoutKey v := by
  unfold keyID WepWithoutKey
  rw [Option.map_eq_some_iff]
  constructor
  · rintro ⟨authmode, hmode, hid⟩
    split at hid
    · rename_i hwep
      exact ⟨authmode, hmode, hwep, hid⟩
    · exact absurd hid (by decide)
  · rintro ⟨authmode, hmode, hwep, hkey⟩
    exact ⟨authmode, hmode, by rw [if_pos hwep, hkey]⟩

theorem getElem?_replicate_nil {m i : Nat} (h : i ≤ m) :
    (List.replicate m ([] : List U8) ++ [[]])[i]? = some [] := by
  rw [← List.replicate_succ', List.getElem?_replicate]
  exact if_pos (Nat.lt_succ_of_le h)

theorem getElem?_set_replicate {m i j : Nat} (x : Option (List U8)) (hi : i < m) (hne : i ≠ j) :
    (((List.replicate m (some [])).set j x).reduceOption ++ [[]])[i]? = some [] := by
  induction m generalizing i j with
  | zero => exact absurd hi (Nat.not_lt_zero i)
  | succ m ih =>
    have hrest : (List.replicate m (some ([] : List U8))).reduceOption = List.replicate m [] := by
      simp [List.reduceOption]
    rw [List.replicate_succ]
    cases j with
    | zero =>
      rw [List.set_cons_zero]
      cases x with
      | none =>
        rw [List.reduceOption_cons_of_none, hrest]
        exact getElem?_replicate_nil (Nat.le_of_lt_succ hi)
      | some v =>
        obtain ⟨i, rfl⟩ := Nat.exists_eq_succ_of_ne_zero hne
        rw [List.reduceOption_cons_of_some, hrest, List.cons_append, List.getElem?_cons_succ]
        exact getElem?_replicate_nil (by omega)
    | succ j =>
      rw [List.set_cons_succ, List.reduceOption_cons_of_some, List.cons_append]
      cases i with
      | zero => rfl
      | succ i =>
        rw [List.getElem?_cons_succ]
        exact ih (by omega) (by omega)

/-- If no element changes when they all move up by one, they are all there and all empty. -/
theorem eq_replicate_of_shift {os : List (Option (List U8))}
    (h : ∀ i < os.length, ∃ e, (os.reduceOption ++ [[]])[i]? = some e ∧
      (os.reduceOption ++ [[]])[i + 1]? = some e) : os = List.replicate os.length (some []) := by
  have hle : (os.reduceOption).length ≤ os.length := List.reduceOption_length_le os
  by_cases hnil : os = []
  · rw [hnil]
    rfl
  have hpos := List.length_pos_of_ne_nil hnil
  have hlen : (os.reduceOption).length = os.length := by
    obtain ⟨e, -, hlast⟩ := h (os.length - 1) (by omega)
    have hlt := (List.getElem?_eq_some_iff.mp hlast).1
    rw [List.length_append, List.length_singleton] at hlt
    omega
  have hempty : ∀ k ≤ os.length, (os.reduceOption ++ [[]])[os.length - k]? = some [] := by
    intro k hk
    induction k with
    | zero =>
      rw [Nat.sub_zero, ← hlen]
      exact List.getElem?_concat_length
    | succ k ih =>
      obtain ⟨e, hthis, hnext⟩ := h (os.length - (k + 1)) (by omega)
      have heq : os.length - (k + 1) + 1 = os.length - k := by omega
      rw [heq, ih (by omega)] at hnext
      rw [hthis, hnext]
  have hall : ∀ o ∈ os, o = some [] := by
    have hsome : ∀ o ∈ os, o.isSome = true := List.reduceOption_length_eq_iff.mp hlen
    intro o ho
    obtain ⟨e, he⟩ := Option.isSome_iff_exists.mp (hsome o ho)
    have hmem : e ∈ os.reduceOption := List.reduceOption_mem_iff.mpr (he ▸ ho)
    obtain ⟨k, hk, rfl⟩ := List.getElem_of_mem hmem
    have hval := hempty (os.length - k) (by omega)
    rw [show os.length - (os.length - k) = k by omega, List.getElem?_append_left hk,
      List.getElem?_eq_getElem hk] at hval
    injection hval with hval
    rw [← hval]
    exact he
  exact List.eq_replicate_iff.mpr ⟨rfl, hall⟩

end DefaultKeyID

def Positional (key : String) (devname : List U8) (params : List Param) (value : List U8)
    (sections : List Section) : Prop :=
  ∀ i < sections.length, ∃ e,
    (fields (hooker (configured devname params sections) key value))[i]? = some e ∧
      ∀ j < sections.length, j ≠ i → ∀ s, Clean s →
        (fields (hooker (configured devname params (sections.set j s)) key value))[i]? = some e

section Positions

variable {devname : List U8} {params : List Param} {value : List U8} {sections : List Section}

theorem clean_set (hs : ∀ s ∈ sections, Clean s) {s : Section} (h : Clean s) (j : Nat) :
    ∀ r ∈ sections.set j s, Clean r := by
  intro r hr
  rcases List.mem_or_eq_of_mem_set hr with hr | rfl
  · exact hs r hr
  · exact h

theorem positional_of_ne {key : String} (hkey : key ∈ multiBssKeys) (hne : key ≠ "DefaultKeyID")
    (hs : ∀ s ∈ sections, Clean s) : Positional key devname params value sections := by
  obtain ⟨element, hfields⟩ := fields_hooker hkey hne
  intro i hi
  refine ⟨element (parseVif vif sections[i]), ?_, ?_⟩
  · rw [hfields _ _ _ _ hs i hi, List.getElem?_eq_getElem hi, Option.map_some]
  · intro j hj hji s hclean
    rw [hfields _ _ _ _ (clean_set hs hclean j) i (by rwa [List.length_set]),
      List.getElem?_set_ne hji, List.getElem?_eq_getElem hi, Option.map_some]

/-- The options of an interface whose element of `DefaultKeyID` is `1`, and is empty. -/
def openOptions : Section := ⟨[], [], [(bytes "encryption", bytes "none")]⟩

def wepOptions : Section := ⟨[], [], [(bytes "encryption", bytes "wep-open")]⟩

theorem keyID_options (s : Section) (rest : List Section) {x : Option (List U8)}
    (h : keyID (parseVif vif s) = x) :
    (s :: rest).map (fun s => keyID (parseVif vif s)) =
      x :: rest.map fun s => keyID (parseVif vif s) := by
  rw [List.map_cons, h]

theorem wepWithoutKey_of_positional {s : Section} {rest : List Section}
    (hs : ∀ r ∈ s :: rest, Clean r) (hmode : (parseVif vif s).authmode ≠ none)
    (h : Positional "DefaultKeyID" devname params value (s :: rest)) :
    ∀ r ∈ rest, WepWithoutKey (parseVif vif r) := by
  obtain ⟨v, hv⟩ : ∃ v, keyID (parseVif vif s) = some v := by
    obtain ⟨authmode, hsome⟩ := Option.ne_none_iff_exists'.mp hmode
    exact ⟨_, congrArg (Option.map _) hsome⟩
  have hempty : (rest.map fun s => keyID (parseVif vif s)) =
      List.replicate (rest.map fun s => keyID (parseVif vif s)).length (some []) := by
    apply eq_replicate_of_shift
    intro k hk
    rw [List.length_map] at hk
    have hlen : k + 1 < (s :: rest).length := Nat.succ_lt_succ hk
    obtain ⟨e, hthis, hchange⟩ := h (k + 1) hlen
    -- the first interface loses its authmode
    have hclean : Clean ⟨[], [], []⟩ := fun _ hx => absurd hx List.not_mem_nil
    have hlost := hchange 0 (Nat.zero_lt_succ _) (Nat.succ_ne_zero k).symm ⟨[], [], []⟩ hclean
    have hnone : keyID (parseVif vif ⟨[], [], []⟩) = none := rfl
    rw [fields_defaultKeyID (clean_set hs hclean 0), List.set_cons_zero, keyID_options _ rest hnone,
      List.reduceOption_cons_of_none] at hlost
    rw [fields_defaultKeyID hs, keyID_options s rest hv, List.reduceOption_cons_of_some,
      List.cons_append, List.getElem?_cons_succ] at hthis
    exact ⟨e, hthis, hlost⟩
  intro r hr
  have hmem : keyID (parseVif vif r) ∈ rest.map fun s => keyID (parseVif vif s) :=
    List.mem_map_of_mem hr
  rw [hempty] at hmem
  exact keyID_eq_nil_iff.mp (List.eq_of_mem_replicate hmem)

theorem authmode_of_positional {s r : Section} {rest : List Section}
    (hs : ∀ t ∈ s :: r :: rest, Clean t)
    (h : Positional "DefaultKeyID" devname params value (s :: r :: rest)) :
    (parseVif vif s).authmode ≠ none := by
  intro hmode
  have hnone : keyID (parseVif vif s) = none := congrArg (Option.map _) hmode
  obtain ⟨e, -, hchange⟩ := h 0 (Nat.zero_lt_succ _)
  -- the second interface has the first element, whatever it is
  have hfirst (t : Section) (ht : Clean t) (v : List U8) (hv : keyID (parseVif vif t) = some v) :
      v = e := by
    have hthis := hchange 1 (by simp) Nat.one_ne_zero t ht
    rw [fields_defaultKeyID (clean_set hs ht 1), List.set_cons_succ, List.set_cons_zero,
      keyID_options _ _ hnone, keyID_options _ _ hv,
      List.reduceOption_cons_of_none, List.reduceOption_cons_of_some] at hthis
    exact Option.some.inj hthis
  have hopen := hfirst openOptions (by simp [Clean, openOptions]; decide) (bytes "1") (by decide)
  have hwep := hfirst wepOptions (by simp [Clean, wepOptions]; decide) [] (by decide)
  exact absurd (hopen.trans hwep.symm) (by decide)

theorem positional_of_wepWithoutKey {s : Section} {rest : List Section}
    (hs : ∀ r ∈ s :: rest, Clean r) (hmode : (parseVif vif s).authmode ≠ none)
    (hrest : ∀ r ∈ rest, WepWithoutKey (parseVif vif r)) :
    Positional "DefaultKeyID" devname params value (s :: rest) := by
  obtain ⟨v, hv⟩ : ∃ v, keyID (parseVif vif s) = some v := by
    obtain ⟨authmode, hsome⟩ := Option.ne_none_iff_exists'.mp hmode
    exact ⟨_, congrArg (Option.map _) hsome⟩
  have hempty : (rest.map fun s => keyID (parseVif vif s)) =
      List.replicate rest.length (some []) := by
    rw [List.eq_replicate_iff, List.length_map]
    refine ⟨rfl, fun x hx => ?_⟩
    obtain ⟨r, hr, rfl⟩ := List.mem_map.mp hx
    exact keyID_eq_nil_iff.mpr (hrest r hr)
  have hfields (t : Section) (ts : List Section) (hts : ∀ r ∈ t :: ts, Clean r) :
      fields (hooker (configured devname params (t :: ts)) "DefaultKeyID" value) =
        (keyID (parseVif vif t) :: ts.map fun s => keyID (parseVif vif s)).reduceOption ++ [[]] :=
    fields_defaultKeyID hts
  intro i hi
  cases i with
  | zero =>
    refine ⟨v, ?_, ?_⟩
    · rw [hfields s rest hs, hv, List.reduceOption_cons_of_some]
      rfl
    · intro j _ hj t ht
      obtain ⟨j, rfl⟩ := Nat.exists_eq_succ_of_ne_zero hj
      have hclean := clean_set hs ht (j + 1)
      rw [List.set_cons_succ] at hclean ⊢
      rw [hfields s _ hclean, hv, List.reduceOption_cons_of_some]
      rfl
  | succ i =>
    have hi' : i < rest.length := Nat.lt_of_succ_lt_succ hi
    refine ⟨[], ?_, ?_⟩
    · rw [hfields s rest hs, hv, hempty, List.reduceOption_cons_of_some, List.cons_append,
        List.getElem?_cons_succ]
      have hself := getElem?_set_replicate (m := rest.length + 1) (j := 0) (some v)
        (Nat.succ_lt_succ hi') (Nat.succ_ne_zero i)
      exact hself
    · intro j _ hj t ht
      have hclean := clean_set hs ht j
      cases j with
      | zero =>
        rw [List.set_cons_zero] at hclean ⊢
        rw [hfields t rest hclean, hempty]
        exact getElem?_set_replicate (m := rest.length + 1) (j := 0) _ (Nat.succ_lt_succ hi')
          (Nat.succ_ne_zero i)
      | succ j =>
        rw [List.set_cons_succ] at hclean ⊢
        rw [hfields s _ hclean, hv, List.map_set, hempty, List.reduceOption_cons_of_some,
          List.cons_append, List.getElem?_cons_succ]
        exact getElem?_set_replicate _ hi' fun heq => hj (by rw [heq])

theorem positional_defaultKeyID_iff (hs : ∀ s ∈ sections, Clean s) :
    Positional "DefaultKeyID" devname params value sections ↔
      sections.length ≤ 1 ∨ ∃ s rest, sections = s :: rest ∧ (parseVif vif s).authmode ≠ none ∧
        ∀ r ∈ rest, WepWithoutKey (parseVif vif r) := by
  constructor
  · intro h
    match sections, hs, h with
    | [], _, _ => exact .inl (Nat.zero_le 1)
    | [s], _, _ => exact .inl (Nat.le_refl 1)
    | s :: r :: rest, hs, h =>
      have hmode := authmode_of_positional hs h
      exact .inr ⟨s, r :: rest, rfl, hmode, wepWithoutKey_of_positional hs hmode h⟩
  · rintro (hlen | ⟨s, rest, rfl, hmode, hrest⟩)
    · intro i hi
      have hi0 : i = 0 := by omega
      have hpos : 0 < (fields (hooker (configured devname params sections) "DefaultKeyID"
          value)).length := by
        rw [fields_defaultKeyID hs, List.length_append]
        exact Nat.lt_add_left _ Nat.one_pos
      refine ⟨_, (congrArg _ hi0).trans (List.getElem?_eq_getElem hpos), ?_⟩
      intro j hj hji
      omega
    · exact positional_of_wepWithoutKey hs hmode hrest

end Positions

/-- The lists are positional but for `DefaultKeyID`, where an interface without an authmode takes no
place: that one is positional for a single interface, and where all but the first have no element to
be misplaced. -/
theorem multiBss_positional_iff {key : String} (hkey : key ∈ multiBssKeys) (devname : List U8)
    (params : List Param) (value : List U8) {sections : List Section}
    (hs : ∀ s ∈ sections, Clean s) :
    Positional key devname params value sections ↔
      key ≠ "DefaultKeyID" ∨ sections.length ≤ 1 ∨
        ∃ s rest, sections = s :: rest ∧ (parseVif vif s).authmode ≠ none ∧
          ∀ r ∈ rest, WepWithoutKey (parseVif vif r) := by
  by_cases hne : key = "DefaultKeyID"
  · subst hne
    rw [positional_defaultKeyID_iff hs]
    simp
  · exact iff_of_true (positional_of_ne hkey hne hs) (.inl hne)

theorem multiBss_positional_example :
    Positional "AuthMode" (bytes "ra0") cfgElements [] [openOptions, wepOptions] :=
  (multiBss_positional_iff (by decide) _ _ _ (by
    intro s hs
    fin_cases hs
    · exact fun x hx => by fin_cases hx; decide
    · exact fun x hx => by fin_cases hx; decide)).mpr (.inl (by decide))

/-- Two open interfaces: when the first one loses its option `encryption`, the second element of
`1;1;` is gone from `1;`. -/
theorem defaultKeyID_not_positional :
    ¬ ∀ key ∈ multiBssKeys, ∀ devname params value (sections : List Section),
      sections.length ≤ mbssidMax → (∀ s ∈ sections, Clean s) →
      Positional key devname params value sections := by
  intro h
  have hclean : Clean openOptions := fun x hx => by fin_cases hx; decide
  obtain ⟨e, hbefore, hchange⟩ := h "DefaultKeyID" (by decide) [] [] [] [openOptions, openOptions]
    (by decide) (by intro s hs; fin_cases hs <;> exact hclean) 1 (by decide)
  have hafter := hchange 0 (by decide) (by decide) ⟨[], [], []⟩ fun x hx => absurd hx (by simp)
  have h1 : (fields (hooker (configured [] [] [openOptions, openOptions]) "DefaultKeyID" []))[1]? =
      some (bytes "1") := by rfl
  have h2 : (fields (hooker (configured [] [] [⟨[], [], []⟩, openOptions]) "DefaultKeyID" []))[1]? =
      some [] := by rfl
  have heq := (h1.symm.trans hbefore).trans (hafter.symm.trans h2)
  exact absurd heq (by decide)

end OpenwrtMtk.Uci2dat
