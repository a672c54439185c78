import Mathlib.Data.List.TakeWhile
import OpenwrtMtk.Lib.Lists
import OpenwrtMtk.Uci2dat.Dat
import OpenwrtMtk.Uci2dat.Parsed

/-!
# What is stored for a key, and what is printed for it

Between `parse_dat` and `gen_dat` the value of a key without a hook stays as it is: the lines for the
key are the stored values, printed as formats.
-/

namespace OpenwrtMtk.Uci2dat

open Toolkit

set_option autoImplicit false

section Table

def keyCode (k : Option (List U8)) : Nat :=
  ((k.getD []).foldl (fun n c => n * 31 + c.toNat) 0) % 60013

set_option maxRecDepth 4000 in
theorem datKeys_nodup : (cfgElements.map fun p => p.datKey.map bytes).Nodup :=
  nodup_of_codes keyCode (by decide +kernel)

set_option maxRecDepth 4000 in
theorem uciKey_of_unhooked : ∀ p ∈ cfgElements, p.hook = false → p.uciKey = none := by
  decide +kernel

def Unhooked (k : List U8) : Prop := ∀ p ∈ cfgElements, p.isFor k = true → p.hook = false

theorem isFor_pairwise (k : List U8) {params : List Param}
    (hkeys : params.map Param.datKey = cfgElements.map Param.datKey) :
    params.Pairwise fun p q => p.isFor k = true → q.isFor k = false := by
  have hnodup : (params.map fun p => p.datKey.map bytes).Nodup := by
    have hmap := congrArg (List.map (Option.map bytes)) hkeys
    rw [List.map_map, List.map_map] at hmap
    exact hmap ▸ datKeys_nodup
  refine (List.pairwise_map.mp hnodup).imp ?_
  intro p q hne hp
  unfold Param.isFor at hp ⊢
  rw [decide_eq_true_eq] at hp
  rw [decide_eq_false_iff_not]
  exact fun hq => hne (hp.trans hq.symm)

end Table

section Store

def lastValue (p : Param) (es : List (List U8 × List U8)) : Option (List U8) :=
  es.foldl (fun value e => if p.isFor e.1 then some e.2 else value) p.value

def isUnknown (k : List U8) : Bool := !cfgElements.any (·.isFor k)

theorem foldl_store (es : List (List U8 × List U8)) {params : List Param} (extra : ExtraCfgs)
    (hkeys : params.map Param.datKey = cfgElements.map Param.datKey) :
    es.foldl store (params, extra) =
      (params.map fun p => { p with value := lastValue p es },
        (es.filter fun e => isUnknown e.1).reverse ++ extra) := by
  induction es generalizing params extra with
  | nil =>
    rw [List.foldl_nil, List.filter_nil]
    exact Prod.ext (List.map_id params).symm rfl
  | cons e es ih =>
    have hany : cfgElements.any (·.isFor e.1) = params.any (·.isFor e.1) := by
      have hmap := congrArg (List.any · fun k => k.map bytes = some e.1) hkeys
      rw [List.any_map, List.any_map] at hmap
      exact hmap.symm
    have hindex : cfgElements.findIdx? (·.isFor e.1) = params.findIdx? (·.isFor e.1) := by
      have hmap := congrArg (List.findIdx? fun k => k.map bytes = some e.1) hkeys
      rw [List.findIdx?_map, List.findIdx?_map] at hmap
      exact hmap.symm
    rw [List.foldl_cons, store, hindex]
    cases hfind : params.findIdx? (·.isFor e.1) with
    | none =>
      have hnone : ∀ p ∈ params, p.isFor e.1 = false := List.findIdx?_eq_none_iff.mp hfind
      have hunknown : isUnknown e.1 = true := by
        rw [isUnknown, hany, List.any_eq_false.mpr fun p hp => by simp [hnone p hp]]
        rfl
      have hfilter : (e :: es).filter (fun e => isUnknown e.1) =
          e :: es.filter fun e => isUnknown e.1 := List.filter_cons_of_pos hunknown
      dsimp only
      rw [ih (e :: extra) hkeys, hfilter, List.reverse_cons, List.append_assoc]
      refine Prod.ext (List.map_congr_left fun p hp => ?_) rfl
      rw [lastValue, lastValue, List.foldl_cons, hnone p hp]
      rfl
    | some n =>
      have hknown : isUnknown e.1 = false := by
        obtain ⟨hn, hp, -⟩ := List.findIdx?_eq_some_iff_getElem.mp hfind
        rw [isUnknown, hany, List.any_eq_true.mpr ⟨_, List.getElem_mem hn, hp⟩]
        rfl
      have hfilter : (e :: es).filter (fun e => isUnknown e.1) =
          es.filter fun e => isUnknown e.1 := List.filter_cons_of_neg (by simp [hknown])
      dsimp only
      rw [modify_findIdx? (isFor_pairwise e.1 hkeys) _ hfind, ih extra, hfilter, List.map_map]
      · refine Prod.ext (List.map_congr_left fun p _ => ?_) rfl
        dsimp only [Function.comp]
        rw [lastValue, lastValue, List.foldl_cons]
        by_cases hp : p.isFor e.1 = true
        · rw [if_pos hp, if_pos hp]
          rfl
        · rw [if_neg hp, if_neg hp]
      · rw [List.map_map, ← hkeys]
        apply List.map_congr_left
        intro p _
        dsimp only [Function.comp]
        split <;> rfl

theorem foldlM_datStep (buffers : List (List U8)) (s : List Param × ExtraCfgs) :
    buffers.foldlM datStep s =
      (buffers.mapM parseLine).map fun es => es.reduceOption.foldl store s := by
  induction buffers generalizing s with
  | nil => rfl
  | cons b buffers ih =>
    rw [List.foldlM_cons, List.mapM_cons, datStep]
    cases parseLine b with
    | none => rfl
    | some e =>
      rw [Option.map_some]
      show (buffers.foldlM datStep ((e.map (store s)).getD s)) = _
      rw [ih]
      cases buffers.mapM parseLine with
      | none => rfl
      | some es => cases e <;> rfl

end Store

section Print

theorem printFormat_shortens {v text : List U8} (h : printFormat v = some text) :
    text.length < v.length ∨ 0x25 ∉ v ∧ text = v := by
  induction v using printFormat.induct generalizing text with
  | case1 =>
    cases h
    exact .inr ⟨List.not_mem_nil, rfl⟩
  | case2 => simp [printFormat] at h
  | case3 c hc =>
    rw [printFormat, if_neg hc] at h
    cases h
    exact .inr ⟨by simpa using Ne.symm hc, rfl⟩
  | case4 format ih =>
    rw [printFormat, if_pos rfl, if_pos rfl] at h
    obtain ⟨rest, hrest, rfl⟩ := Option.map_eq_some_iff.mp h
    left
    have hle : rest.length ≤ format.length := by
      rcases ih hrest with hlt | ⟨-, rfl⟩
      · exact Nat.le_of_lt hlt
      · exact Nat.le_refl _
    simp only [List.length_cons]
    omega
  | case5 d format hd =>
    rw [printFormat, if_pos rfl, if_neg hd] at h
    cases h
  | case6 c d format hc ih =>
    rw [printFormat, if_neg hc] at h
    obtain ⟨rest, hrest, rfl⟩ := Option.map_eq_some_iff.mp h
    rcases ih hrest with hlt | ⟨hplain, rfl⟩
    · left
      simp only [List.length_cons] at hlt ⊢
      omega
    · right
      refine ⟨?_, rfl⟩
      rw [List.mem_cons, not_or]
      exact ⟨Ne.symm hc, hplain⟩

theorem printFormat_plain {v : List U8} (h : 0x25 ∉ v) : printFormat v = some v := by
  induction v using printFormat.induct with
  | case1 => rfl
  | case2 => simp at h
  | case3 c hc => rw [printFormat, if_neg hc]
  | case4 format => simp at h
  | case5 d format hd => simp at h
  | case6 c d format hc ih =>
    rw [printFormat, if_neg hc, ih fun hmem => h (List.mem_cons_of_mem _ hmem)]
    rfl

def isLineOf (k line : List U8) : Bool := (k ++ [0x3d]).isPrefixOf line

theorem isLineOf_eq {k k' : List U8} (hk : 0x3d ∉ k) (hk' : 0x3d ∉ k') (text : List U8) :
    isLineOf k (k' ++ 0x3d :: text) = decide (k' = k) := by
  rw [Bool.eq_iff_iff, isLineOf, List.isPrefixOf_iff_prefix, decide_eq_true_eq]
  constructor
  · rintro ⟨rest, h⟩
    rw [List.append_assoc, List.singleton_append] at h
    have hfront {a b : List U8} (ha : 0x3d ∉ a) : (a ++ 0x3d :: b).takeWhile (· ≠ 0x3d) = a := by
      rw [List.takeWhile_append_of_pos fun c hc => decide_eq_true (ne_of_mem_of_not_mem hc ha)]
      simp
    rw [← hfront hk', ← h, hfront hk]
  · rintro rfl
    exact ⟨text, by simp⟩

def KeysPlain (params : List Param) : Prop :=
  ∀ p ∈ params, ∀ s, p.datKey = some s → 0x3d ∉ bytes s

theorem genParams_lines {k : List U8} (hk : 0x3d ∉ k) {params : List Param}
    (hplain : KeysPlain params) (hun : ∀ p ∈ params, p.isFor k = true → p.hook = false)
    {hookCfg : Option WifiParams} {ls : List (List U8)} (h : genParams params hookCfg = some ls) :
    ∃ texts, ((params.filter (·.isFor k)).filterMap Param.value).mapM printFormat = some texts ∧
      ls.filter (isLineOf k) = texts.map (k ++ 0x3d :: ·) := by
  induction params generalizing hookCfg ls with
  | nil =>
    cases h
    exact ⟨[], rfl, rfl⟩
  | cons p params ih =>
    have ihrest := @ih (fun q hq => hplain q (List.mem_cons_of_mem _ hq))
      fun q hq => hun q (List.mem_cons_of_mem _ hq)
    have hpos (hfor : p.isFor k = true) :
        (p :: params).filter (·.isFor k) = p :: params.filter (·.isFor k) :=
      List.filter_cons_of_pos hfor
    have hneg (hfor : ¬ p.isFor k = true) :
        (p :: params).filter (·.isFor k) = params.filter (·.isFor k) :=
      List.filter_cons_of_neg hfor
    rw [genParams] at h
    cases hkey : p.datKey with
    | none =>
      have hfor : p.isFor k = false := by rw [Param.isFor, hkey]; rfl
      rw [hkey] at h
      rw [hneg (by simp [hfor])]
      exact ihrest h
    | some s =>
      rw [hkey] at h
      have hs := hplain p List.mem_cons_self s hkey
      cases hvalue : p.value with
      | none =>
        rw [hvalue] at h
        obtain ⟨texts, htexts, hls⟩ := ihrest h
        refine ⟨texts, ?_, hls⟩
        by_cases hfor : p.isFor k = true
        · rw [hpos hfor, List.filterMap_cons_none hvalue]
          exact htexts
        · rw [hneg hfor]
          exact htexts
      | some v =>
        rw [hvalue] at h
        obtain ⟨text, htext, h⟩ := Option.bind_eq_some_iff.mp h
        obtain ⟨rest, hrest, h⟩ := Option.bind_eq_some_iff.mp h
        cases h
        obtain ⟨texts, htexts, hls⟩ := ihrest hrest
        by_cases hfor : p.isFor k = true
        · have hname : bytes s = k := by
            rw [Param.isFor, hkey, Option.map_some, decide_eq_true_eq] at hfor
            exact Option.some.inj hfor
          rw [if_neg (by rw [hun p List.mem_cons_self hfor]; exact Bool.false_ne_true)] at htext
          refine ⟨text :: texts, ?_, ?_⟩
          · rw [hpos hfor, List.filterMap_cons_some hvalue, List.mapM_cons, htext, htexts]
            rfl
          · rw [List.filter_cons_of_pos (by rw [isLineOf_eq hk hs, hname]; simp), hls, hname]
            rfl
        · have hname : bytes s ≠ k := by
            rintro rfl
            exact hfor (by rw [Param.isFor, hkey]; simp)
          refine ⟨texts, ?_, ?_⟩
          · rw [hneg hfor]
            exact htexts
          · rw [List.filter_cons_of_neg (by rw [isLineOf_eq hk hs]; simpa using hname)]
            exact hls

theorem genParams_isSome {params : List Param} (hookCfg : Option WifiParams)
    (h : ∀ p ∈ params, p.hook = false → ∀ v, p.value = some v → 0x25 ∉ v) :
    ∃ ls, genParams params hookCfg = some ls := by
  induction params generalizing hookCfg with
  | nil => exact ⟨[], rfl⟩
  | cons p params ih =>
    have ihrest := fun hookCfg => ih hookCfg fun q hq => h q (List.mem_cons_of_mem _ hq)
    rw [genParams]
    split
    · rename_i k v hkey hvalue
      obtain ⟨ls, hls⟩ := ihrest (if p.hook then hookCfg.map (hookerEffect · k) else hookCfg)
      rw [hls]
      by_cases hhook : p.hook = true
      · rw [if_pos hhook]
        exact ⟨_, rfl⟩
      · have hplain := h p List.mem_cons_self (by simpa using hhook) v hvalue
        rw [if_neg hhook, printFormat_plain hplain]
        exact ⟨_, rfl⟩
    · exact ihrest hookCfg

theorem genExtra_lines {k : List U8} (hk : 0x3d ∉ k) {extra : ExtraCfgs}
    (hplain : ∀ x ∈ extra, 0x3d ∉ x.1) {ls : List (List U8)} (h : genExtra extra = some ls) :
    ∃ texts, (valuesOf k extra).mapM printFormat = some texts ∧
      ls.filter (isLineOf k) = texts.map (k ++ 0x3d :: ·) := by
  induction extra generalizing ls with
  | nil =>
    cases h
    exact ⟨[], rfl, rfl⟩
  | cons x extra ih =>
    rw [genExtra, List.mapM_cons] at h
    obtain ⟨line, hline, h⟩ := Option.bind_eq_some_iff.mp h
    obtain ⟨rest, hrest, h⟩ := Option.bind_eq_some_iff.mp h
    cases h
    obtain ⟨text, htext, rfl⟩ := Option.map_eq_some_iff.mp hline
    obtain ⟨texts, htexts, hls⟩ := ih (fun y hy => hplain y (List.mem_cons_of_mem _ hy)) hrest
    have hx := hplain x List.mem_cons_self
    rw [valuesOf_cons]
    by_cases hname : x.1 = k
    · refine ⟨text :: texts, ?_, ?_⟩
      · rw [if_pos hname, List.mapM_cons, htext, htexts]
        rfl
      · rw [List.filter_cons_of_pos (by rw [isLineOf_eq hk hx, hname]; simp), hls, hname]
        rfl
    · refine ⟨texts, ?_, ?_⟩
      · rw [if_neg hname]
        exact htexts
      · rw [List.filter_cons_of_neg (by rw [isLineOf_eq hk hx]; simpa using hname)]
        exact hls

theorem genExtra_isSome {extra : ExtraCfgs} (h : ∀ x ∈ extra, 0x25 ∉ x.2) :
    ∃ ls, genExtra extra = some ls := by
  induction extra with
  | nil => exact ⟨[], rfl⟩
  | cons x extra ih =>
    obtain ⟨ls, hls⟩ := ih fun y hy => h y (List.mem_cons_of_mem _ hy)
    refine ⟨(x.1 ++ 0x3d :: x.2) :: ls, ?_⟩
    rw [genExtra] at hls ⊢
    rw [List.mapM_cons, printFormat_plain (h x List.mem_cons_self), hls]
    rfl

end Print

end OpenwrtMtk.Uci2dat
