import Mathlib.Data.List.ReduceOption
import OpenwrtMtk.Uci2dat.Accepted
import OpenwrtMtk.Uci2dat.Dat
import OpenwrtMtk.Uci2dat.Stored

/-!
# What uci2dat preserves

An entry of the DAT file whose key has no hook is stored, gets past the package, and is printed
again. It is the same line afterwards, unless it was cut or was not a plain format.
-/

namespace OpenwrtMtk.Uci2dat

open Toolkit

set_option autoImplicit false

section LastDevice

variable {cfgs cfgs' : List WifiParams} {name : List U8}

theorem lastFrom_congr (h : devnames cfgs = devnames cfgs') (i : Nat) (last : Option Nat) :
    lastFrom name i last cfgs = lastFrom name i last cfgs' := by
  induction cfgs generalizing cfgs' i last with
  | nil =>
    cases cfgs' with
    | nil => rfl
    | cons _ _ => cases h
  | cons cfg cfgs ih =>
    cases cfgs' with
    | nil => cases h
    | cons cfg' cfgs' =>
      obtain ⟨hhead, htail⟩ := List.cons.inj h
      rw [lastFrom, lastFrom, hhead, ih htail, ih htail]

theorem lastFrom_short (h : ShortNames cfgs) (i : Nat) (last : Option Nat) :
    name ∉ devnames cfgs ∧ lastFrom name i last cfgs = some last ∨
      ∃ j < cfgs.length, lastFrom name i last cfgs = some (some (i + j)) := by
  induction cfgs generalizing i last with
  | nil => exact .inl ⟨List.not_mem_nil, rfl⟩
  | cons cfg cfgs ih =>
    have hrest := ih (fun c hc => h c (List.mem_cons_of_mem _ hc)) (i + 1)
    have hnext (j : Nat) : i + 1 + j = i + (j + 1) := by omega
    rw [lastFrom, sameName_short (h cfg List.mem_cons_self)]
    by_cases hname : name = cfg.devname
    · right
      rw [decide_eq_true hname]
      rcases hrest (some i) with ⟨-, heq⟩ | ⟨j, hj, heq⟩
      · exact ⟨0, Nat.zero_lt_succ _, heq⟩
      · exact ⟨j + 1, Nat.succ_lt_succ hj, heq.trans (by rw [hnext])⟩
    · rw [decide_eq_false hname]
      rcases hrest last with ⟨hother, heq⟩ | ⟨j, hj, heq⟩
      · exact .inl ⟨by simpa [devnames, hname] using hother, heq⟩
      · exact .inr ⟨j + 1, Nat.succ_lt_succ hj, heq.trans (by rw [hnext])⟩

theorem lastDevice_of_mem (h : ShortNames cfgs) (hname : name ∈ devnames cfgs) :
    ∃ i < cfgs.length, lastDevice name cfgs = some (some i) := by
  rcases lastFrom_short h 0 none with ⟨hother, -⟩ | ⟨j, hj, heq⟩
  · exact absurd hname hother
  · exact ⟨j, hj, heq.trans (by rw [Nat.zero_add])⟩

end LastDevice

section Frame

/-- A parameter after the package has been parsed: only an option of its own may have changed its
value. -/
structure Framed (p p' : Param) : Prop where
  datKey : p'.datKey = p.datKey
  uciKey : p'.uciKey = p.uciKey
  hook : p'.hook = p.hook
  value : p.uciKey = none → p'.value = p.value

theorem Framed.refl (p : Param) : Framed p p := ⟨rfl, rfl, rfl, fun _ => rfl⟩

theorem Framed.trans {p q r : Param} (h : Framed p q) (h' : Framed q r) : Framed p r where
  datKey := h'.datKey.trans h.datKey
  uciKey := h'.uciKey.trans h.uciKey
  hook := h'.hook.trans h.hook
  value hnone := (h'.value (h.uciKey.trans hnone)).trans (h.value hnone)

theorem Framed.isFor {p p' : Param} (h : Framed p p') (k : List U8) : p'.isFor k = p.isFor k := by
  rw [Param.isFor, Param.isFor, h.datKey]

def SlotFramed (cfg cfg' : WifiParams) : Prop :=
  cfg'.devname = cfg.devname ∧ List.Forall₂ Framed cfg.params cfg'.params

theorem slotFramed_refl (cfg : WifiParams) : SlotFramed cfg cfg :=
  ⟨rfl, List.forall₂_same.mpr fun p _ => Framed.refl p⟩

theorem slotFramed_trans (a b c : WifiParams) (h : SlotFramed a b) (h' : SlotFramed b c) :
    SlotFramed a c := by
  exact ⟨h'.1.trans h.1, forall₂_trans (R := Framed) (fun _ _ _ => Framed.trans) h.2 h'.2⟩

theorem slotFramed_setParams (cfg : WifiParams) (s : Section) :
    SlotFramed cfg (setParams cfg s) := by
  refine ⟨rfl, ?_⟩
  rw [setParams]
  dsimp only
  rw [List.forall₂_map_right_iff, List.forall₂_same]
  intro p _
  refine ⟨rfl, rfl, rfl, ?_⟩
  intro hnone
  dsimp only
  rw [hnone]
  rfl

theorem parseUci_framed {cfgs cfgs' : List WifiParams} {package : Package}
    (h : parseUci cfgs package = some cfgs') : List.Forall₂ SlotFramed cfgs cfgs' := by
  obtain ⟨mid, hdevices, hifaces⟩ := Option.bind_eq_some_iff.mp h
  have hfirst := parseDevices_slots slotFramed_refl slotFramed_trans slotFramed_setParams hdevices
  have hsecond := parseIfaces_slots slotFramed_refl slotFramed_trans
    (fun cfg _ _ _ => slotFramed_refl cfg) hifaces
  exact forall₂_trans slotFramed_trans hfirst hsecond

theorem devnames_framed {cfgs cfgs' : List WifiParams} (h : List.Forall₂ SlotFramed cfgs cfgs') :
    devnames cfgs' = devnames cfgs := by
  induction h with
  | nil => rfl
  | cons h _ ih => exact List.cons_eq_cons.mpr ⟨h.1, ih⟩

theorem values_framed {k : List U8} {params params' : List Param}
    (h : List.Forall₂ Framed params params')
    (hun : ∀ p ∈ params, p.isFor k = true → p.uciKey = none) :
    (params'.filter (·.isFor k)).filterMap Param.value =
      (params.filter (·.isFor k)).filterMap Param.value := by
  induction h with
  | nil => rfl
  | @cons p p' params params' hp _ ih =>
    have hrest := ih fun q hq => hun q (List.mem_cons_of_mem _ hq)
    rw [List.filter_cons, List.filter_cons, hp.isFor]
    by_cases hfor : p.isFor k = true
    · rw [if_pos hfor, if_pos hfor, List.filterMap_cons, List.filterMap_cons, hrest,
        hp.value (hun p List.mem_cons_self hfor)]
    · rw [if_neg hfor, if_neg hfor, hrest]

end Frame

section Stored

variable {k v : List U8} {es : List (List U8 × List U8)}

def storedEntries (file : List U8) : List (List U8 × List U8) :=
  (entries file).filterMap storedEntry

set_option maxRecDepth 4000 in
theorem value_of_mem : ∀ p ∈ cfgElements, p.value = none := by
  decide +kernel

theorem lastValue_eq {p : Param} (hp : p.isFor k = true) :
    lastValue p es = (valuesOf k es).getLast?.or p.value := by
  have hkey : p.datKey.map bytes = some k := by simpa [Param.isFor] using hp
  have hiff (e : List U8 × List U8) : p.isFor e.1 = true ↔ e.1 = k := by
    rw [Param.isFor, hkey, decide_eq_true_eq, Option.some_inj, eq_comm]
  unfold lastValue
  generalize p.value = old
  induction es generalizing old with
  | nil => rfl
  | cons e es ih =>
    rw [List.foldl_cons, ih, valuesOf_cons]
    by_cases he : e.1 = k
    · rw [if_pos ((hiff e).mpr he), if_pos he, List.getLast?_cons]
      cases (valuesOf k es).getLast? <;> rfl
    · rw [if_neg (mt (hiff e).mp he), if_neg he]

def storedParams (es : List (List U8 × List U8)) : List Param :=
  cfgElements.map fun p => { p with value := lastValue p es }

theorem filter_storedParams (k : List U8) (es : List (List U8 × List U8)) :
    (storedParams es).filter (·.isFor k) =
      (cfgElements.filter (·.isFor k)).map fun p => { p with value := lastValue p es } := by
  rw [storedParams, List.filter_map]
  rfl

theorem filter_isFor_unknown (hun : isUnknown k = true) : cfgElements.filter (·.isFor k) = [] := by
  rw [isUnknown, Bool.not_eq_true'] at hun
  exact List.filter_eq_nil_iff.mpr fun p hp => List.any_eq_false.mp hun p hp

theorem filter_isFor_known (hun : ¬ isUnknown k = true) :
    ∃ p ∈ cfgElements, p.isFor k = true ∧ cfgElements.filter (·.isFor k) = [p] := by
  have hknown : cfgElements.any (·.isFor k) = true := by simpa [isUnknown] using hun
  obtain ⟨p, hp, hfor⟩ := List.any_eq_true.mp hknown
  obtain ⟨front, back, hsplit⟩ := List.append_of_mem hp
  have hpair : cfgElements.Pairwise fun p q => p.isFor k = true → q.isFor k = false :=
    isFor_pairwise k rfl
  rw [hsplit, List.pairwise_append, List.pairwise_cons] at hpair
  have hfront : front.filter (·.isFor k) = [] := by
    rw [List.filter_eq_nil_iff]
    intro q hq hqfor
    have hno := hpair.2.2 q hq p List.mem_cons_self hqfor
    rw [hfor] at hno
    cases hno
  have hback : back.filter (·.isFor k) = [] := by
    rw [List.filter_eq_nil_iff]
    intro q hq
    rw [hpair.2.1.1 q hq hfor]
    exact Bool.false_ne_true
  have hhere : (p :: back).filter (·.isFor k) = p :: back.filter (·.isFor k) :=
    List.filter_cons_of_pos hfor
  refine ⟨p, hp, hfor, ?_⟩
  rw [hsplit, List.filter_append, hfront, hhere, hback]
  rfl

theorem values_stored (hone : (valuesOf k es).length ≤ 1) :
    ((storedParams es).filter (·.isFor k)).filterMap Param.value ++
        valuesOf k (es.filter fun e => isUnknown e.1).reverse = valuesOf k es := by
  rw [filter_storedParams, valuesOf_reverse, valuesOf_filter]
  by_cases hun : isUnknown k = true
  · have hrev : (valuesOf k es).reverse = valuesOf k es := by
      match valuesOf k es, hone with
      | [], _ => rfl
      | [_], _ => rfl
    rw [filter_isFor_unknown hun, if_pos hun, hrev]
    rfl
  · obtain ⟨p, hp, hfor, hsingle⟩ := filter_isFor_known hun
    rw [if_neg hun, List.reverse_nil, List.append_nil, hsingle, List.map_singleton,
      List.filterMap_cons, List.filterMap_nil]
    dsimp only
    rw [lastValue_eq hfor, value_of_mem p hp, Option.or_none]
    match valuesOf k es, hone with
    | [], _ => rfl
    | [_], _ => rfl

end Stored

section Read

variable {file : List U8}

theorem entry_key {line : List U8} {x : List U8 × List U8} (h : entry line = some x) :
    0x3d ∉ x.1 := by
  unfold entry splitEntry at h
  split at h
  · cases h
  · cases h
    intro hmem
    have hsign := List.mem_takeWhile_imp hmem
    exact absurd hsign (by decide)

theorem mem_storedEntries {x : List U8 × List U8} :
    x ∈ storedEntries file ↔
      ∃ v, (x.1, v) ∈ entries file ∧ x.1.all isText = true ∧ x.2 = v.takeWhile isText := by
  unfold storedEntries
  rw [List.mem_filterMap]
  constructor
  · rintro ⟨⟨k, v⟩, hmem, h⟩
    unfold storedEntry at h
    split at h
    · rename_i htext
      cases h
      exact ⟨v, hmem, htext, rfl⟩
    · cases h
  · rintro ⟨v, hmem, htext, hv⟩
    refine ⟨(x.1, v), hmem, ?_⟩
    rw [storedEntry, if_pos htext, ← hv]

theorem storedEntries_eq (file : List U8) :
    storedEntries file =
      ((entries file).filter fun x => x.1.all isText).map fun x => (x.1, x.2.takeWhile isText) := by
  unfold storedEntries
  induction entries file with
  | nil => rfl
  | cons x xs ih =>
    rw [List.filterMap_cons, List.filter_cons, ih, storedEntry]
    by_cases htext : x.1.all isText = true
    · rw [if_pos htext, if_pos htext]
      rfl
    · rw [if_neg htext, if_neg htext]

theorem valuesOf_storedEntries (k : List U8) :
    valuesOf k (storedEntries file) =
      (if k.all isText then valuesOf k (entries file) else []).map (·.takeWhile isText) := by
  rw [storedEntries_eq, ← valuesOf_filter fun k : List U8 => k.all isText]
  exact valuesOf_map id (List.takeWhile isText) fun _ _ h => h

theorem mapM_parseLine_isSome {ls : List (List U8)} (h : ∀ l ∈ ls, ∀ c ∈ l, c ≠ 0x0a) :
    (∃ ys, ls.mapM parseLine = some ys) ↔
      ∀ x ∈ (ls.filterMap entry).filterMap storedEntry, Fits x := by
  induction ls with
  | nil => exact iff_of_true ⟨[], rfl⟩ (by simp)
  | cons l ls ih =>
    have hrest := ih fun m hm => h m (List.mem_cons_of_mem _ hm)
    rw [List.filterMap_filterMap] at hrest ⊢
    rw [List.mapM_cons, parseLine_eq (h l List.mem_cons_self), List.filterMap_cons]
    cases (entry l).bind storedEntry with
    | none =>
      rw [← hrest]
      constructor
      · rintro ⟨ys, hys⟩
        obtain ⟨_, -, hys⟩ := Option.bind_eq_some_iff.mp hys
        obtain ⟨zs, hzs, -⟩ := Option.bind_eq_some_iff.mp hys
        exact ⟨zs, hzs⟩
      · rintro ⟨ys, hys⟩
        exact ⟨none :: ys, by rw [hys]; rfl⟩
    | some x =>
      dsimp only
      rw [List.forall_mem_cons, ← hrest]
      by_cases hlong : entryBuffer ≤ x.1.length ∨ entryBuffer ≤ x.2.length
      · rw [if_pos hlong]
        refine iff_of_false (by rintro ⟨ys, hys⟩; cases hys) ?_
        rintro ⟨⟨hkey, hvalue⟩, -⟩
        omega
      · rw [if_neg hlong]
        have hfits : Fits x := ⟨by omega, by omega⟩
        constructor
        · rintro ⟨ys, hys⟩
          obtain ⟨_, -, hys⟩ := Option.bind_eq_some_iff.mp hys
          obtain ⟨zs, hzs, -⟩ := Option.bind_eq_some_iff.mp hys
          exact ⟨hfits, zs, hzs⟩
        · rintro ⟨-, ys, hys⟩
          exact ⟨some x :: ys, by rw [hys]; rfl⟩

theorem mapM_parseLine_eq {ls : List (List U8)} (h : ∀ l ∈ ls, ∀ c ∈ l, c ≠ 0x0a)
    {ys : List (Option (List U8 × List U8))} (hys : ls.mapM parseLine = some ys) :
    ys.reduceOption = (ls.filterMap entry).filterMap storedEntry := by
  induction ls generalizing ys with
  | nil =>
    cases hys
    rfl
  | cons l ls ih =>
    rw [List.mapM_cons] at hys
    obtain ⟨y, hy, hys⟩ := Option.bind_eq_some_iff.mp hys
    obtain ⟨zs, hzs, heq⟩ := Option.bind_eq_some_iff.mp hys
    cases heq
    have hrest := ih (fun m hm => h m (List.mem_cons_of_mem _ hm)) hzs
    rw [parseLine_eq (h l List.mem_cons_self)] at hy
    rw [List.filterMap_filterMap] at hrest ⊢
    rw [List.filterMap_cons]
    cases hentry : (entry l).bind storedEntry with
    | none =>
      rw [hentry] at hy
      cases hy
      exact hrest
    | some x =>
      rw [hentry] at hy
      dsimp only at hy
      split at hy
      · cases hy
      · cases hy
        rw [List.reduceOption_cons_of_some x, hrest]

theorem parseDat_eq_some_iff {devname : List U8} {cfgs cfgs' : List WifiParams} {i : Nat}
    {extra : ExtraCfgs} (hlines : ∀ l ∈ lines file, l.length < lineBuffer - 1)
    (hfound : lastDevice devname cfgs = some (some i))
    (hnew : ∀ cfg ∈ cfgs, cfg.params = cfgElements) :
    parseDat devname file cfgs = some (cfgs', extra) ↔
      (∀ x ∈ storedEntries file, Fits x) ∧ ∃ cfg, cfgs[i]? = some cfg ∧
        cfgs' = cfgs.set i { cfg with params := storedParams (storedEntries file) } ∧
        extra = ((storedEntries file).filter fun e => isUnknown e.1).reverse := by
  have hread (s : List Param × ExtraCfgs) :
      (reads (lineBuffer - 1) file.length file).foldlM datStep s =
        ((lines file).mapM parseLine).map fun es => es.reduceOption.foldl store s := by
    rw [foldlM_reads datStep (fun s line _ => by rw [datStep, datStep, parseLine_newline])
      (fun _ => rfl) hlines (Nat.le_refl _), foldlM_datStep]
  have hfits := mapM_parseLine_isSome fun l (hl : l ∈ lines file) => mem_lines hl
  rw [parseDat, hfound]
  dsimp only [Option.bind_eq_bind, Option.bind_some]
  cases hcfg : cfgs[i]? with
  | none => simp
  | some cfg =>
    have hparams := hnew cfg (List.mem_of_getElem? hcfg)
    rw [Option.bind_some, hread]
    cases hys : (lines file).mapM parseLine with
    | none =>
      rw [hys] at hfits
      refine iff_of_false (by rintro h; cases h) ?_
      rintro ⟨h, -⟩
      obtain ⟨ys, h⟩ := hfits.mpr h
      cases h
    | some ys =>
      have hstored := mapM_parseLine_eq (fun l hl => mem_lines hl) hys
      have hall := hfits.mp ⟨ys, hys⟩
      rw [Option.map_some, Option.bind_some, hstored, foldl_store _ _ (by rw [hparams]), hparams,
        List.append_nil]
      constructor
      · intro h
        cases h
        exact ⟨hall, cfg, rfl, rfl, rfl⟩
      · rintro ⟨-, cfg', h, rfl, rfl⟩
        cases h
        rfl

end Read

end OpenwrtMtk.Uci2dat
