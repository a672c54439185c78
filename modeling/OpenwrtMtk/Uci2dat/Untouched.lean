import OpenwrtMtk.Uci2dat.Preserved

/-!
# When uci2dat preserves what it does not understand

The program runs through if all entries fit into the buffers and the package can be parsed. Then an
entry without a hook is one line again, just if it was stored whole and is no format.
-/

namespace OpenwrtMtk.Uci2dat

open Toolkit

set_option autoImplicit false

section Printed

variable {k : List U8} {es : List (List U8 × List U8)} {params : List Param}

theorem header_lines (k : List U8) :
    [bytes "# Generated by uci2dat", bytes "# The word of \"Default\" must not be removed",
      bytes "Default"].filter (isLineOf k) = [] := by
  have hplain : ∀ line ∈ [bytes "# Generated by uci2dat",
      bytes "# The word of \"Default\" must not be removed", bytes "Default"], 0x3d ∉ line := by
    decide +kernel
  rw [List.filter_eq_nil_iff]
  intro line hline h
  rw [isLineOf, List.isPrefixOf_iff_prefix] at h
  exact hplain line hline (h.subset (by simp))

set_option maxRecDepth 4000 in
theorem key_plain {p : Param} (hp : p ∈ cfgElements) {s : String} (hs : p.datKey = some s) :
    0x3d ∉ bytes s ∧ (bytes s).all isText = true ∧ (bytes s).length < entryBuffer := by
  have hall : cfgElements.all fun p => p.datKey.all fun s =>
      !(bytes s).contains 0x3d && (bytes s).all isText &&
        decide ((bytes s).length < entryBuffer) := by
    decide +kernel
  have hp := List.all_eq_true.mp hall p hp
  rw [hs] at hp
  simpa [and_assoc] using hp

theorem keysPlain_cfgElements : KeysPlain cfgElements := fun _ hp _ hs => (key_plain hp hs).1

theorem isFor_fits {p : Param} (hp : p ∈ cfgElements) (hfor : p.isFor k = true) :
    k.all isText = true ∧ k.length < entryBuffer := by
  rw [Param.isFor, decide_eq_true_eq] at hfor
  obtain ⟨s, hs, rfl⟩ := Option.map_eq_some_iff.mp hfor
  exact (key_plain hp hs).2

theorem element_of_mem (h : List.Forall₂ Framed (storedParams es) params) {p : Param}
    (hp : p ∈ params) : ∃ q ∈ cfgElements, Framed { q with value := lastValue q es } p := by
  rw [storedParams, List.forall₂_map_left_iff] at h
  generalize cfgElements = elements at h ⊢
  induction h with
  | nil => cases hp
  | cons hframed _ ih =>
    rcases List.mem_cons.mp hp with rfl | hp
    · exact ⟨_, List.mem_cons_self, hframed⟩
    · obtain ⟨q, hq, hframed⟩ := ih hp
      exact ⟨q, List.mem_cons_of_mem _ hq, hframed⟩

theorem lastValue_mem {p : Param} {v : List U8} (hp : p ∈ cfgElements)
    (h : lastValue p es = some v) : ∃ k, p.isFor k = true ∧ (k, v) ∈ es := by
  have hold := value_of_mem p hp
  unfold lastValue at h
  rw [hold] at h
  clear hold
  induction es using List.reverseRecOn with
  | nil => cases h
  | append_singleton es e ih =>
    rw [List.foldl_append, List.foldl_cons, List.foldl_nil] at h
    split at h
    · rename_i hfor
      cases h
      exact ⟨e.1, hfor, by simp⟩
    · obtain ⟨k, hfor, hmem⟩ := ih h
      exact ⟨k, hfor, List.mem_append_left _ hmem⟩

theorem unhooked_of_isFor {p : Param} (hp : p ∈ cfgElements) (hfor : p.isFor k = true)
    (hhook : p.hook = false) : Unhooked k := by
  intro q hq hqfor
  by_cases hun : isUnknown k = true
  · have hmem : p ∈ cfgElements.filter (·.isFor k) := List.mem_filter.mpr ⟨hp, hfor⟩
    rw [filter_isFor_unknown hun] at hmem
    cases hmem
  · obtain ⟨r, -, -, hsingle⟩ := filter_isFor_known hun
    have hpr : p ∈ cfgElements.filter (·.isFor k) := List.mem_filter.mpr ⟨hp, hfor⟩
    have hqr : q ∈ cfgElements.filter (·.isFor k) := List.mem_filter.mpr ⟨hq, hqfor⟩
    rw [hsingle, List.mem_singleton] at hpr hqr
    rw [hqr, ← hpr, hhook]

theorem unhooked_of_isUnknown (h : isUnknown k = true) : Unhooked k := by
  intro p hp hfor
  have hmem : p ∈ cfgElements.filter (·.isFor k) := List.mem_filter.mpr ⟨hp, hfor⟩
  rw [filter_isFor_unknown h] at hmem
  cases hmem

theorem isFor_of_hooked (h : ¬ Unhooked k) : ∃ p ∈ cfgElements, p.isFor k = true := by
  by_contra hnone
  push Not at hnone
  exact h fun p hp hfor => absurd hfor (hnone p hp)

theorem printed_lines (hk : 0x3d ∉ k) (hun : Unhooked k) (hone : (valuesOf k es).length ≤ 1)
    (hkeys : ∀ x ∈ es, 0x3d ∉ x.1) (hframed : List.Forall₂ Framed (storedParams es) params)
    {hookCfg : Option WifiParams} {known unknown : List (List U8)}
    (hknown : genParams params hookCfg = some known)
    (hunknown : genExtra (es.filter fun e => isUnknown e.1).reverse = some unknown) :
    ∃ texts, (valuesOf k es).mapM printFormat = some texts ∧
      (known ++ unknown).filter (isLineOf k) = texts.map (k ++ 0x3d :: ·) := by
  have hplain : KeysPlain params := by
    intro p hp s hs
    obtain ⟨q, hq, hpq⟩ := element_of_mem hframed hp
    exact keysPlain_cfgElements q hq s (hpq.datKey.symm.trans hs)
  have hhook : ∀ p ∈ params, p.isFor k = true → p.hook = false := by
    intro p hp hfor
    obtain ⟨q, hq, hpq⟩ := element_of_mem hframed hp
    exact hpq.hook.trans (hun q hq ((hpq.isFor k).symm.trans hfor))
  have hvalues : (params.filter (·.isFor k)).filterMap Param.value =
      ((storedParams es).filter (·.isFor k)).filterMap Param.value := by
    refine values_framed hframed ?_
    intro p hp hfor
    obtain ⟨q, hq, rfl⟩ := List.mem_map.mp hp
    exact uciKey_of_unhooked q hq (hun q hq hfor)
  obtain ⟨texts, htexts, hlines⟩ := genParams_lines hk hplain hhook hknown
  obtain ⟨texts', htexts', hlines'⟩ := genExtra_lines hk
    (fun x hx => hkeys x (List.mem_of_mem_filter (List.mem_reverse.mp hx))) hunknown
  refine ⟨texts ++ texts', ?_, ?_⟩
  · rw [← values_stored hone, ← hvalues, List.mapM_append, htexts, htexts']
    rfl
  · rw [List.filter_append, hlines, hlines', List.map_append]

theorem printed_isSome (hplain : ∀ x ∈ es, Unhooked x.1 → 0x25 ∉ x.2)
    (hframed : List.Forall₂ Framed (storedParams es) params) (hookCfg : Option WifiParams) :
    (∃ known, genParams params hookCfg = some known) ∧
      ∃ unknown, genExtra (es.filter fun e => isUnknown e.1).reverse = some unknown := by
  constructor
  · apply genParams_isSome
    intro p hp hhook v hv
    obtain ⟨q, hq, hpq⟩ := element_of_mem hframed hp
    have hqhook : q.hook = false := hpq.hook.symm.trans hhook
    have hlast : lastValue q es = some v :=
      (hpq.value (uciKey_of_unhooked q hq hqhook)).symm.trans hv
    obtain ⟨k, hfor, hmem⟩ := lastValue_mem hq hlast
    exact hplain (k, v) hmem (unhooked_of_isFor hq hfor hqhook)
  · apply genExtra_isSome
    intro x hx
    obtain ⟨hmem, hun⟩ := List.mem_filter.mp (List.mem_reverse.mp hx)
    exact hplain x hmem (unhooked_of_isUnknown hun)

end Printed

section Program

variable {devname file : List U8} {package : Package}

theorem devnames_set {cfgs : List WifiParams} {i : Nat} {cfg : WifiParams}
    (hcfg : cfgs[i]? = some cfg) (params : List Param) :
    devnames (cfgs.set i { cfg with params }) = devnames cfgs := by
  induction cfgs generalizing i with
  | nil => rfl
  | cons c cfgs ih =>
    cases i with
    | zero =>
      cases hcfg
      rfl
    | succ i => exact congrArg (c.devname :: ·) (ih hcfg)

theorem uci2dat_reads {out : List (List U8)} (hlines : ∀ l ∈ lines file, l.length < lineBuffer - 1)
    (h : uci2dat devname file package = some (some out)) :
    ∃ i cfg, (initWifiCfg package)[i]? = some cfg ∧ (∀ x ∈ storedEntries file, Fits x) ∧
      ∃ cfgs, parseUci ((initWifiCfg package).set i
          { cfg with params := storedParams (storedEntries file) }) package = some cfgs ∧
        lastDevice devname cfgs = some (some i) ∧
        genDat devname cfgs
          ((storedEntries file).filter fun e => isUnknown e.1).reverse = some (some out) := by
  obtain ⟨⟨cfgs₁, extra⟩, hparse, h⟩ := Option.bind_eq_some_iff.mp h
  obtain ⟨cfgs₂, hpackage, hgen⟩ := Option.bind_eq_some_iff.mp h
  have hnames₂ := devnames_framed (parseUci_framed hpackage)
  cases hfound : lastDevice devname (initWifiCfg package) with
  | none =>
    rw [parseDat, hfound] at hparse
    cases hparse
  | some found =>
    cases found with
    | none =>
      rw [parseDat, hfound] at hparse
      cases hparse
      rw [genDat, lastDevice, lastFrom_congr hnames₂] at hgen
      rw [lastDevice] at hfound
      rw [hfound] at hgen
      cases hgen
    | some i =>
      obtain ⟨hfits, cfg, hcfg, rfl, rfl⟩ := (parseDat_eq_some_iff hlines hfound fun cfg hcfg =>
        (initWifiCfg_slots package cfg hcfg).1).mp hparse
      refine ⟨i, cfg, hcfg, hfits, cfgs₂, hpackage, ?_, hgen⟩
      rw [lastDevice, lastFrom_congr (hnames₂.trans (devnames_set hcfg _))]
      exact hfound

theorem genDat_eq_some_iff {cfgs : List WifiParams} {extra : ExtraCfgs} {out : List (List U8)}
    {i : Nat} (hfound : lastDevice devname cfgs = some (some i)) :
    genDat devname cfgs extra = some (some out) ↔
      ∃ cfg, cfgs[i]? = some cfg ∧ ∃ n, findDevice cfg.devname cfgs = some n ∧
        ∃ known, genParams cfg.params (n.bind (cfgs[·]?)) = some known ∧
          ∃ unknown, genExtra extra = some unknown ∧
            out = [bytes "# Generated by uci2dat",
              bytes "# The word of \"Default\" must not be removed", bytes "Default"] ++ known ++
                unknown := by
  rw [genDat, hfound]
  dsimp only [Option.bind_eq_bind, Option.bind_some]
  simp only [Option.bind_eq_some_iff]
  constructor
  · rintro ⟨cfg, hcfg, n, hn, known, hknown, unknown, hunknown, heq⟩
    cases heq
    exact ⟨cfg, hcfg, n, hn, known, hknown, unknown, hunknown, rfl⟩
  · rintro ⟨cfg, hcfg, n, hn, known, hknown, unknown, hunknown, rfl⟩
    exact ⟨cfg, hcfg, n, hn, known, hknown, unknown, hunknown, rfl⟩

theorem parsed_params {i : Nat} {cfg : WifiParams} {cfgs : List WifiParams} {params : List Param}
    (h : parseUci ((initWifiCfg package).set i { cfg with params }) package = some cfgs)
    {parsed : WifiParams} (hparsed : cfgs[i]? = some parsed) :
    List.Forall₂ Framed params parsed.params := by
  have hslots := parseUci_framed h
  obtain ⟨hi, rfl⟩ := List.getElem?_eq_some_iff.mp hparsed
  have hset : i < ((initWifiCfg package).set i { cfg with params }).length :=
    hslots.length_eq ▸ hi
  have hslot := hslots.get hset hi
  rw [List.get_eq_getElem, List.get_eq_getElem] at hslot
  simpa using hslot.2

theorem entries_key : ∀ x ∈ entries file, 0x3d ∉ x.1 := by
  intro x hx
  obtain ⟨line, -, hline⟩ := List.mem_filterMap.mp hx
  exact entry_key hline

theorem storedEntries_key : ∀ x ∈ storedEntries file, 0x3d ∉ x.1 := by
  intro x hx
  obtain ⟨v, hmem, -, -⟩ := mem_storedEntries.mp hx
  exact entries_key (x.1, v) hmem

theorem uci2dat_lines {out : List (List U8)} (hlines : ∀ l ∈ lines file, l.length < lineBuffer - 1)
    (h : uci2dat devname file package = some (some out)) {k : List U8} (hk : 0x3d ∉ k)
    (hun : Unhooked k) (hone : (valuesOf k (storedEntries file)).length ≤ 1) :
    ∃ texts, (valuesOf k (storedEntries file)).mapM printFormat = some texts ∧
      out.filter (isLineOf k) = texts.map (k ++ 0x3d :: ·) := by
  obtain ⟨i, cfg, hcfg, -, cfgs, hpackage, hfound, hgen⟩ := uci2dat_reads hlines h
  obtain ⟨parsed, hparsed, n, -, known, hknown, unknown, hunknown, rfl⟩ :=
    (genDat_eq_some_iff hfound).mp hgen
  obtain ⟨texts, htexts, hout⟩ :=
    printed_lines hk hun hone storedEntries_key (parsed_params hpackage hparsed) hknown hunknown
  refine ⟨texts, htexts, ?_⟩
  rw [List.append_assoc, List.filter_append, header_lines, hout]
  rfl

theorem vifnum_set {i : Nat} {cfg : WifiParams} (hcfg : (initWifiCfg package)[i]? = some cfg)
    (params : List Param) :
    ∀ c ∈ (initWifiCfg package).set i { cfg with params }, c.vifnum = 0 := by
  intro c hc
  rcases List.mem_or_eq_of_mem_set hc with hc | rfl
  · exact (initWifiCfg_slots package c hc).2.1
  · exact (initWifiCfg_slots package cfg (List.mem_of_getElem? hcfg)).2.1

theorem uci2dat_isSome (hnames : ∀ s ∈ package, s.name ≠ [])
    (hdevice : devname ∈ devnames (initWifiCfg package))
    (hlines : ∀ l ∈ lines file, l.length < lineBuffer - 1)
    (hfits : ∀ x ∈ storedEntries file, Fits x)
    (hplain : ∀ x ∈ storedEntries file, Unhooked x.1 → 0x25 ∉ x.2)
    (hshort : ShortNames (initWifiCfg package))
    (hifaces : IfacesFit (devnames (initWifiCfg package)) (package.filter isIface)) :
    ∃ out, uci2dat devname file package = some (some out) := by
  obtain ⟨i, hi, hfound⟩ := lastDevice_of_mem hshort hdevice
  obtain ⟨cfg, hcfg⟩ : ∃ cfg, (initWifiCfg package)[i]? = some cfg :=
    ⟨_, List.getElem?_eq_getElem hi⟩
  have hnames₁ := devnames_set hcfg (storedParams (storedEntries file))
  have hparse := (parseDat_eq_some_iff hlines hfound fun cfg hcfg =>
    (initWifiCfg_slots package cfg hcfg).1).mpr ⟨hfits, cfg, hcfg, rfl, rfl⟩
  obtain ⟨cfgs, hpackage⟩ :=
    (parseUci_isSome_iff hnames hnames₁ (vifnum_set hcfg _)).mpr ⟨hshort, hifaces⟩
  have hnames₂ := (devnames_framed (parseUci_framed hpackage)).trans hnames₁
  have hfound₂ : lastDevice devname cfgs = some (some i) := by
    rw [lastDevice, lastFrom_congr hnames₂]
    exact hfound
  have hlen : i < cfgs.length := by
    have hlen := congrArg List.length hnames₂
    rw [devnames, devnames, List.length_map, List.length_map] at hlen
    omega
  have hparsed : cfgs[i]? = some cfgs[i] := List.getElem?_eq_getElem hlen
  obtain ⟨n, hfind⟩ : ∃ n, findDevice cfgs[i].devname cfgs = some n :=
    ⟨_, findDevice_short (hshort.congr hnames₂)⟩
  obtain ⟨⟨known, hknown⟩, unknown, hunknown⟩ := printed_isSome hplain
    (parsed_params hpackage hparsed) (n.bind (cfgs[·]?))
  have hgen := (genDat_eq_some_iff hfound₂).mpr
    ⟨_, hparsed, _, hfind, known, hknown, unknown, hunknown, rfl⟩
  exact ⟨_, Option.bind_eq_some_iff.mpr ⟨_, hparse, Option.bind_eq_some_iff.mpr ⟨cfgs, hpackage,
    hgen⟩⟩⟩

structure Plain (x : List U8 × List U8) : Prop where
  fits : Fits x
  key : x.1.all isText = true
  value : x.2.all isText = true
  format : 0x25 ∉ x.2

def Preserved (devname file : List U8) (package : Package) : Prop :=
  ∃ out, uci2dat devname file package = some (some out) ∧
    ∀ x ∈ entries file, Unhooked x.1 → out.filter (isLineOf x.1) = [x.1 ++ 0x3d :: x.2]

/-- An entry without a hook is one line again just if it is plain. -/
theorem line_preserved_iff {out : List (List U8)}
    (hlines : ∀ l ∈ lines file, l.length < lineBuffer - 1)
    (hkeys : ((entries file).map Prod.fst).Nodup)
    (h : uci2dat devname file package = some (some out)) {x : List U8 × List U8}
    (hx : x ∈ entries file) (hun : Unhooked x.1) :
    out.filter (isLineOf x.1) = [x.1 ++ 0x3d :: x.2] ↔ Plain x := by
  obtain ⟨-, -, -, hfits, -⟩ := uci2dat_reads hlines h
  have hvalues : valuesOf x.1 (storedEntries file) =
      if x.1.all isText then [x.2.takeWhile isText] else [] := by
    rw [valuesOf_storedEntries, valuesOf_of_nodup hkeys hx]
    split <;> rfl
  have hone : (valuesOf x.1 (storedEntries file)).length ≤ 1 := by
    rw [hvalues]
    split <;> simp
  obtain ⟨texts, htexts, hout⟩ := uci2dat_lines hlines h (entries_key x hx) hun hone
  rw [hout]
  rw [hvalues] at htexts
  by_cases hkey : x.1.all isText = true
  · rw [if_pos hkey] at htexts
    obtain ⟨text, htext, h⟩ := Option.bind_eq_some_iff.mp htexts
    cases h
    constructor
    · intro heq
      have hsame : text = x.2 := by simpa using heq
      have hmem : (x.1, x.2.takeWhile isText) ∈ storedEntries file :=
        mem_storedEntries.mpr ⟨x.2, hx, hkey, rfl⟩
      have hcut := List.takeWhile_prefix isText (l := x.2)
      rcases printFormat_shortens htext with hlt | ⟨hformat, hwhole⟩
      · rw [hsame] at hlt
        exact absurd hcut.length_le (Nat.not_le_of_lt hlt)
      · have hall : x.2.takeWhile isText = x.2 := hwhole.symm.trans hsame
        have hfit := hfits _ hmem
        rw [hall] at hfit hformat
        exact ⟨hfit, hkey, List.all_eq_true.mpr (List.takeWhile_eq_self_iff.mp hall), hformat⟩
    · intro hplain
      rw [List.takeWhile_eq_self_iff.mpr (List.all_eq_true.mp hplain.value),
        printFormat_plain hplain.format] at htext
      cases htext
      rfl
  · rw [if_neg hkey] at htexts
    cases htexts
    exact iff_of_false (by simp) fun hplain => hkey hplain.key

/-- Entries without a hook are preserved just if each of them is plain, the stored values of the
other known keys fit, and the package names its devices and interfaces properly. -/
theorem unhooked_preserved_iff (hnames : ∀ s ∈ package, s.name ≠ [])
    (hdevice : devname ∈ devnames (initWifiCfg package))
    (hlines : ∀ l ∈ lines file, l.length ≤ 1022) (hkeys : ((entries file).map Prod.fst).Nodup) :
    Preserved devname file package ↔
      (∀ x ∈ entries file, (Unhooked x.1 → Plain x) ∧
        (¬ Unhooked x.1 → (x.2.takeWhile isText).length < entryBuffer)) ∧
      ShortNames (initWifiCfg package) ∧
      IfacesFit (devnames (initWifiCfg package)) (package.filter isIface) := by
  have hshortlines : ∀ l ∈ lines file, l.length < lineBuffer - 1 := fun l hl =>
    Nat.lt_of_le_of_lt (hlines l hl) (by decide)
  constructor
  · rintro ⟨out, hout, hpreserved⟩
    obtain ⟨i, cfg, hcfg, hfits, cfgs, hpackage, -⟩ := uci2dat_reads hshortlines hout
    refine ⟨?_, (parseUci_isSome_iff hnames (devnames_set hcfg _) (vifnum_set hcfg _)).mp
      ⟨cfgs, hpackage⟩⟩
    intro x hx
    refine ⟨?_, ?_⟩
    · intro hun
      exact (line_preserved_iff hshortlines hkeys hout hx hun).mp (hpreserved x hx hun)
    · intro hhooked
      obtain ⟨p, hp, hfor⟩ := isFor_of_hooked hhooked
      exact (hfits (x.1, x.2.takeWhile isText)
        (mem_storedEntries.mpr ⟨x.2, hx, (isFor_fits hp hfor).1, rfl⟩)).2
  · rintro ⟨hentries, hshort, hifaces⟩
    have hstored : ∀ x ∈ storedEntries file, Fits x ∧ (Unhooked x.1 → 0x25 ∉ x.2) := by
      rintro ⟨k, stored⟩ hx
      obtain ⟨v, hmem, htext, rfl⟩ := mem_storedEntries.mp hx
      by_cases hun : Unhooked k
      · have hplain := (hentries (k, v) hmem).1 hun
        have hcut : v.takeWhile isText = v :=
          List.takeWhile_eq_self_iff.mpr (List.all_eq_true.mp hplain.value)
        dsimp only
        rw [hcut]
        exact ⟨hplain.fits, fun _ => hplain.format⟩
      · obtain ⟨p, hp, hfor⟩ := isFor_of_hooked hun
        exact ⟨⟨(isFor_fits hp hfor).2, (hentries (k, v) hmem).2 hun⟩, fun h => absurd h hun⟩
    obtain ⟨out, hout⟩ := uci2dat_isSome hnames hdevice hshortlines (fun x hx => (hstored x hx).1)
      (fun x hx => (hstored x hx).2) hshort hifaces
    refine ⟨out, hout, ?_⟩
    intro x hx hun
    exact (line_preserved_iff hshortlines hkeys hout hx hun).mpr ((hentries x hx).1 hun)

end Program

section Inputs

def oneDevice : Package :=
  [⟨bytes "wifi-device", bytes "ra0", []⟩,
    ⟨bytes "wifi-iface", bytes "cfg1", [(bytes "device", bytes "ra0")]⟩]

theorem oneDevice_names : ∀ s ∈ oneDevice, s.name ≠ [] := by decide

theorem oneDevice_devnames :
    devnames (initWifiCfg oneDevice) = [bytes "ra0", [], [], []] := by
  decide +kernel

theorem oneDevice_device : bytes "ra0" ∈ devnames (initWifiCfg oneDevice) := by
  rw [oneDevice_devnames]
  exact List.mem_cons_self

theorem oneDevice_short : ShortNames (initWifiCfg oneDevice) := by
  intro cfg hcfg
  have hname : cfg.devname ∈ devnames (initWifiCfg oneDevice) := List.mem_map_of_mem hcfg
  have hall : ∀ name ∈ [bytes "ra0", [], [], []], name.length < devnameSize := by decide
  rw [oneDevice_devnames] at hname
  exact hall cfg.devname hname

theorem oneDevice_fits :
    IfacesFit (devnames (initWifiCfg oneDevice)) (oneDevice.filter isIface) := by
  rw [oneDevice_devnames]
  refine ⟨by decide, ?_⟩
  intro device
  exact (List.countP_le_length.trans (List.takeWhile_prefix _).length_le).trans (by decide)

def plainFile : List U8 := bytes "WiFiTest=7\r\n Foo=a=b\n"

theorem plainFile_read : (∀ l ∈ lines plainFile, l.length ≤ 1022) ∧
    entries plainFile = [(bytes "WiFiTest", bytes "7"), (bytes "Foo", bytes "a=b")] := by
  decide +kernel

theorem unhooked_keys : ∀ k ∈ [bytes "WiFiTest", bytes "Foo"], Unhooked k := by
  show ∀ k ∈ [bytes "WiFiTest", bytes "Foo"],
    ∀ p ∈ cfgElements, p.isFor k = true → p.hook = false
  decide +kernel

theorem unhooked_preserved_example : Preserved (bytes "ra0") plainFile oneDevice := by
  obtain ⟨hshort, hentries⟩ := plainFile_read
  refine (unhooked_preserved_iff oneDevice_names oneDevice_device hshort
    (by rw [hentries]; decide)).mpr ⟨?_, oneDevice_short, oneDevice_fits⟩
  intro x hx
  rw [hentries] at hx
  have hkey : x.1 ∈ [bytes "WiFiTest", bytes "Foo"] := by
    rcases List.mem_pair.mp hx with rfl | rfl <;> decide
  refine ⟨fun _ => ?_, fun h => absurd (unhooked_keys x.1 hkey) h⟩
  rcases List.mem_pair.mp hx with rfl | rfl
  · exact ⟨⟨by decide, by decide⟩, by decide, by decide, by decide⟩
  · exact ⟨⟨by decide, by decide⟩, by decide, by decide, by decide⟩

/-- `Foo=%%` becomes `Foo=%`. -/
theorem percent_not_preserved :
    ¬ ∀ devname file package, (∀ s ∈ package, s.name ≠ []) →
      devname ∈ devnames (initWifiCfg package) → ShortNames (initWifiCfg package) →
      IfacesFit (devnames (initWifiCfg package)) (package.filter isIface) →
      (∀ l ∈ lines file, l.length ≤ 1022) → ((entries file).map Prod.fst).Nodup →
      Preserved devname file package := by
  intro h
  obtain ⟨out, hout, hpreserved⟩ := h (bytes "ra0") (bytes "Foo=%%") oneDevice oneDevice_names
    oneDevice_device oneDevice_short oneDevice_fits (by decide) (by decide)
  have hunhooked : Unhooked (bytes "Foo") :=
    unhooked_keys _ (List.mem_cons_of_mem _ List.mem_cons_self)
  have hline := hpreserved (bytes "Foo", bytes "%%") (by decide) hunhooked
  have hprinted : (uci2dat (bytes "ra0") (bytes "Foo=%%") oneDevice).map
      (Option.map (·.filter (isLineOf (bytes "Foo")))) = some (some [bytes "Foo=%"]) := by
    decide +kernel
  rw [hout, Option.map_some, Option.map_some, hline] at hprinted
  exact absurd hprinted (by decide)

end Inputs

end OpenwrtMtk.Uci2dat
