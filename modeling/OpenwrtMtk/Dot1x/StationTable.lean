import OpenwrtMtk.Dot1x.Compose
import Mathlib.Data.List.Nodup

/-!
# The table of stations and their timers

`sta_list`, the hash chains and `num_sta` are one table: each station is in the list once and in the
chain of its address once. The functions that run the machines of a station leave the table alone;
`Ap_get_sta` adds a station and `Ap_free_sta` takes one out.
-/

namespace OpenwrtMtk.Dot1x

open Toolkit

set_option autoImplicit false

def Timeout.station : Timeout → Option Nat
  | .eapolPortTimersTick sta => some sta
  | .apHandleSessionTimer sta => some sta
  | .radiusClientTimer | .radiusRetryPrimaryTimer => none

def Rtapd.nodesOf (d : Rtapd) : List Nat := d.staList.map (·.node)

structure Table (d : Rtapd) : Prop where
  nodes : d.nodesOf.Nodup
  addrs : (d.staList.map (·.addr)).Nodup
  fresh : ∀ s ∈ d.staList, s.node < d.nodes
  chains : ∀ h node, node ∈ d.staHash h ↔ ∃ s ∈ d.staList, s.node = node ∧ staHash s.addr = h
  once : ∀ h, (d.staHash h).Nodup
  count : d.numSta = d.staList.length

def TimersLive (d : Rtapd) : Prop :=
  ∀ t ∈ d.timeouts, ∀ node, t.station = some node → node ∈ d.nodesOf

/-- The table is the same, and the new timers, if they have a station, are session timers of `node`,
which `session` allows. -/
structure KeepsTable (session : Prop) (node : Nat) (d : Rtapd) (_ : List Effect) (d' : Rtapd) :
    Prop where
  stations : d'.staList.map (fun s => (s.node, s.addr)) = d.staList.map fun s => (s.node, s.addr)
  staHash : d'.staHash = d.staHash
  numSta : d'.numSta = d.numSta
  nodes : d'.nodes = d.nodes
  timeouts : ∀ t ∈ d'.timeouts,
    t ∈ d.timeouts ∨ t.station = none ∨ session ∧ t = .apHandleSessionTimer node

variable {env : Env} {node : Nat} {session : Prop} {d d' : Rtapd} {effects : List Effect}

theorem composes_keepsTable : Composes (KeepsTable session node) where
  nothing d := ⟨rfl, rfl, rfl, rfl, fun _ ht => .inl ht⟩
  step h h' := by
    refine ⟨h'.stations.trans h.stations, h'.staHash.trans h.staHash, h'.numSta.trans h.numSta,
      h'.nodes.trans h.nodes, ?_⟩
    intro t ht
    rcases h'.timeouts t ht with ht | hnew
    · exact h.timeouts t ht
    · exact .inr hnew

namespace KeepsTable

theorem nodesOf (h : KeepsTable session node d effects d') : d'.nodesOf = d.nodesOf := by
  have hfst := congrArg (List.map Prod.fst) h.stations
  simpa [Rtapd.nodesOf, List.map_map, Function.comp_def] using hfst

theorem addrs (h : KeepsTable session node d effects d') :
    d'.staList.map (·.addr) = d.staList.map (·.addr) := by
  have hsnd := congrArg (List.map Prod.snd) h.stations
  simpa [List.map_map, Function.comp_def] using hsnd

theorem mem (h : KeepsTable session node d effects d') {k : Nat} {addr : Mac} :
    (∃ s ∈ d'.staList, s.node = k ∧ s.addr = addr) ↔ ∃ s ∈ d.staList, s.node = k ∧ s.addr = addr := by
  have hmem : ∀ e : Rtapd, (∃ s ∈ e.staList, s.node = k ∧ s.addr = addr) ↔
      (k, addr) ∈ e.staList.map fun s => (s.node, s.addr) := by
    intro e
    simp [List.mem_map, Prod.mk.injEq]
  rw [hmem d', hmem d, h.stations]

theorem table (h : KeepsTable session node d effects d') (hd : Table d) : Table d' where
  nodes := by
    rw [h.nodesOf]
    exact hd.nodes
  addrs := by
    rw [h.addrs]
    exact hd.addrs
  fresh s hs := by
    obtain ⟨s₀, hs₀, hnode, _⟩ := h.mem.mp ⟨s, hs, rfl, rfl⟩
    rw [h.nodes, ← hnode]
    exact hd.fresh s₀ hs₀
  chains i k := by
    rw [h.staHash, hd.chains]
    constructor
    · rintro ⟨s, hs, hnode, rfl⟩
      obtain ⟨s', hs', hnode', haddr⟩ := h.mem.mpr ⟨s, hs, hnode, rfl⟩
      exact ⟨s', hs', hnode', by rw [haddr]⟩
    · rintro ⟨s, hs, hnode, rfl⟩
      obtain ⟨s', hs', hnode', haddr⟩ := h.mem.mp ⟨s, hs, hnode, rfl⟩
      exact ⟨s', hs', hnode', by rw [haddr]⟩
  once i := by
    rw [h.staHash]
    exact hd.once i
  count := by
    have hlen := congrArg List.length h.stations
    simp only [List.length_map] at hlen
    rw [h.numSta, hd.count, hlen]

theorem timersLive (h : KeepsTable session node d effects d') (hnode : node ∈ d.nodesOf)
    (hd : TimersLive d) : TimersLive d' := by
  intro t ht k hk
  rw [h.nodesOf]
  rcases h.timeouts t ht with ht | hnone | ⟨_, rfl⟩
  · exact hd t ht k hk
  · rw [hnone] at hk
    cases hk
  · cases hk
    exact hnode

end KeepsTable

theorem keepsTable_setSta {f : Sta → Sta} (d : Rtapd) (k : Nat)
    (hf : ∀ s, (f s).node = s.node ∧ (f s).addr = s.addr) :
    KeepsTable session node d effects (d.setSta k f) := by
  refine ⟨?_, rfl, rfl, rfl, fun _ ht => .inl ht⟩
  unfold Rtapd.setSta
  rw [List.map_map]
  apply List.map_congr_left
  intro s _
  dsimp only [Function.comp]
  split
  · rw [(hf s).1, (hf s).2]
  · rfl

theorem keepsTable_register (d : Rtapd) {t : Timeout} (ht : t.station = none) :
    KeepsTable session node d effects (d.registerTimeout t) := by
  refine ⟨rfl, rfl, rfl, rfl, fun t' ht' => ?_⟩
  rcases List.mem_append.mp ht' with ht' | ht'
  · exact .inl ht'
  · rw [List.mem_singleton.mp ht']
    exact .inr (.inl ht)

theorem keepsTable_session (d : Rtapd) : KeepsTable True node d effects
    (apStaSessionTimeout d node) := by
  refine ⟨rfl, rfl, rfl, rfl, fun t ht => ?_⟩
  rcases List.mem_append.mp ht with ht | ht
  · exact .inl (List.mem_filter.mp ht).1
  · exact .inr (.inr ⟨trivial, List.mem_singleton.mp ht⟩)

theorem listAdd_keepsTable (o : SendOracle) (d : Rtapd) (serial : Nat) (msg : RadiusMsg)
    (secret : List U8) (apIdx : Nat) :
    KeepsTable session node d effects (radiusClientListAdd o d serial msg secret apIdx) := by
  unfold radiusClientListAdd
  split
  · have hregister : KeepsTable session node d effects
        (if d.radius.msgs = [] then d.registerTimeout .radiusClientTimer else d) := by
      split
      · exact keepsTable_register d rfl
      · exact ⟨rfl, rfl, rfl, rfl, fun _ ht => .inl ht⟩
    exact ⟨hregister.stations, hregister.staHash, hregister.numSta, hregister.nodes,
      hregister.timeouts⟩
  · exact ⟨rfl, rfl, rfl, rfl, fun _ ht => .inl ht⟩

theorem encapsulate_keepsTable (d : Rtapd) :
    Meets (KeepsTable session node) d (ieee8021xEncapsulateRadius env node d) := by
  apply meets_bind
  intro s _
  apply meets_bind
  intro bss _
  apply meets_bind
  intro taken _
  have htaken : KeepsTable session node d [.identifier d node taken.1]
      ({ d with radius := taken.2 }.setSta node fun s =>
        { s with radiusIdentifier := taken.1.toNat }) := by
    have hset : KeepsTable session node { d with radius := taken.2 } [.identifier d node taken.1]
        ({ d with radius := taken.2 }.setSta node fun s =>
          { s with radiusIdentifier := taken.1.toNat }) :=
      keepsTable_setSta _ _ fun _ => ⟨rfl, rfl⟩
    exact ⟨hset.stations, hset.staHash, hset.numSta, hset.nodes, hset.timeouts⟩
  dsimp only
  split
  · exact meets_some.mpr htaken
  · apply meets_andThen composes_keepsTable (meets_some.mpr htaken)
    intro d' _ _
    apply meets_bind
    intro secret _
    apply meets_map
    intro finished _
    exact listAdd_keepsTable _ d' _ _ _ _

theorem machinery_keepsTable : Machinery env node (KeepsTable session node) where
  toComposes := composes_keepsTable
  quiet _ := ⟨rfl, rfl, rfl, rfl, fun _ ht => .inl ht⟩
  edit hf _ := keepsTable_setSta _ _ fun s => ⟨(hf s).1, (hf s).2.1⟩
  encapsulate := encapsulate_keepsTable

section Lookup

theorem sta_spec {s : Sta} (h : d.sta node = some s) : s ∈ d.staList ∧ s.node = node := by
  refine ⟨List.mem_of_find?_eq_some h, ?_⟩
  simpa using List.find?_some h

theorem sta_of_mem (hd : Table d) {s : Sta} (hs : s ∈ d.staList) : d.sta s.node = some s := by
  cases hfind : d.sta s.node with
  | none =>
    have := List.find?_eq_none.mp hfind s hs
    simp at this
  | some s' =>
    obtain ⟨hs', hnode⟩ := sta_spec hfind
    exact congrArg some (List.inj_on_of_nodup_map hd.nodes hs' hs hnode)

theorem sta_of_chain (hd : Table d) {i : U8} {k : Nat} (hk : k ∈ d.staHash i) :
    ∃ s, d.sta k = some s ∧ s ∈ d.staList ∧ staHash s.addr = i := by
  obtain ⟨s, hs, rfl, hi⟩ := (hd.chains i k).mp hk
  exact ⟨s, sta_of_mem hd hs, hs, hi⟩

theorem findInChain_some {addr : Mac} {chain : List Nat} {k : Nat}
    (h : findInChain d addr chain = some (some k)) : ∃ s, d.sta k = some s ∧ s.addr = addr := by
  induction chain with
  | nil => cases h
  | cons node chain ih =>
    rw [findInChain] at h
    split at h
    · cases h
    · rename_i s hs
      split at h
      · rename_i haddr
        cases h
        exact ⟨s, hs, haddr⟩
      · exact ih h

theorem findInChain_none {addr : Mac} {chain : List Nat}
    (h : findInChain d addr chain = some none) :
    ∀ k ∈ chain, ∃ s, d.sta k = some s ∧ s.addr ≠ addr := by
  induction chain with
  | nil =>
    intro k hk
    cases hk
  | cons node chain ih =>
    rw [findInChain] at h
    split at h
    · cases h
    · rename_i s hs
      split at h
      · cases h
      · rename_i haddr
        intro k hk
        rcases List.mem_cons.mp hk with rfl | hk
        · exact ⟨s, hs, haddr⟩
        · exact ih h k hk

theorem addr_new (hd : Table d) {addr : Mac}
    (h : findInChain d addr (d.staHash (staHash addr)) = some none) :
    addr ∉ d.staList.map (·.addr) := by
  intro hmem
  obtain ⟨s, hs, rfl⟩ := List.mem_map.mp hmem
  have hin : s.node ∈ d.staHash (staHash s.addr) := (hd.chains _ _).mpr ⟨s, hs, rfl, rfl⟩
  obtain ⟨s', hs', hne⟩ := findInChain_none h s.node hin
  rw [sta_of_mem hd hs] at hs'
  cases hs'
  exact hne rfl

end Lookup

section Freeing

theorem removeFromChain_erase (hd : Table d) {s : Sta} (hs : s ∈ d.staList) {i : U8}
    {chain left : List Nat} (hsub : ∀ k ∈ chain, k ∈ d.staHash i)
    (h : removeFromChain d s.addr chain = some left) : left = chain.erase s.node := by
  induction chain generalizing left with
  | nil =>
    cases h
    rfl
  | cons k chain ih =>
    obtain ⟨s', hs', hmem, _⟩ := sta_of_chain hd (hsub k List.mem_cons_self)
    obtain ⟨_, rfl⟩ := sta_spec hs'
    rw [removeFromChain, hs'] at h
    dsimp only at h
    split at h
    · rename_i haddr
      cases h
      rw [List.inj_on_of_nodup_map hd.addrs hmem hs haddr, List.erase_cons_head]
    · rename_i haddr
      obtain ⟨left', hleft, rfl⟩ := Option.map_eq_some_iff.mp h
      have hne : s'.node ≠ s.node := fun heq =>
        haddr (by rw [List.inj_on_of_nodup_map hd.nodes hmem hs heq])
      rw [List.erase_cons_tail (by simpa using hne),
        ih (fun k hk => hsub k (List.mem_cons_of_mem _ hk)) hleft]

theorem apFreeSta_spec (hd : Table d) (h : apFreeSta d node = some d') :
    ∃ s ∈ d.staList, s.node = node ∧
      d'.staList = d.staList.filter (fun s => s.node ≠ node) ∧
      d'.staHash = Function.update d.staHash (staHash s.addr)
        ((d.staHash (staHash s.addr)).erase node) ∧
      d'.numSta = d.numSta - 1 ∧ d'.nodes = d.nodes ∧
      d'.timeouts = d.timeouts.filter (· ≠ .eapolPortTimersTick node) := by
  obtain ⟨s, hs, h⟩ := Option.bind_eq_some_iff.mp h
  obtain ⟨hmem, rfl⟩ := sta_spec hs
  obtain ⟨cut, hcut, heq⟩ := Option.map_eq_some_iff.mp h
  obtain ⟨chain, hchain, rfl⟩ := Option.map_eq_some_iff.mp hcut
  cases heq
  rw [removeFromChain_erase hd hmem (fun _ hk => hk) hchain]
  exact ⟨s, hmem, rfl, rfl, rfl, rfl, rfl, rfl⟩

theorem apFreeSta_table (hd : Table d) (h : apFreeSta d node = some d') : Table d' := by
  obtain ⟨s, hs, rfl, hlist, hhash, hnum, hnodes, _⟩ := apFreeSta_spec hd h
  have hsub : d'.staList.Sublist d.staList := by
    rw [hlist]
    exact List.filter_sublist
  have hmem : ∀ s', s' ∈ d'.staList ↔ s' ∈ d.staList ∧ s'.node ≠ s.node := by
    intro s'
    rw [hlist, List.mem_filter]
    simp
  constructor
  · exact (hsub.map _).nodup hd.nodes
  · exact (hsub.map _).nodup hd.addrs
  · intro s' hs'
    rw [hnodes]
    exact hd.fresh s' (hsub.subset hs')
  · intro i k
    have hchain : k ∈ d'.staHash i ↔ k ∈ d.staHash i ∧ k ≠ s.node := by
      rw [hhash]
      by_cases hi : i = staHash s.addr
      · subst hi
        rw [Function.update_self, (hd.once _).mem_erase_iff]
        exact and_comm
      · rw [Function.update_of_ne hi]
        refine ⟨fun hk => ⟨hk, ?_⟩, fun hk => hk.1⟩
        rintro rfl
        obtain ⟨s', hs', hnode, hhash'⟩ := (hd.chains i s.node).mp hk
        rw [List.inj_on_of_nodup_map hd.nodes hs' hs hnode] at hhash'
        exact hi hhash'.symm
    rw [hchain, hd.chains]
    constructor
    · rintro ⟨⟨s', hs', rfl, hi⟩, hne⟩
      exact ⟨s', (hmem s').mpr ⟨hs', hne⟩, rfl, hi⟩
    · rintro ⟨s', hs', rfl, hi⟩
      exact ⟨⟨s', ((hmem s').mp hs').1, rfl, hi⟩, ((hmem s').mp hs').2⟩
  · intro i
    rw [hhash]
    by_cases hi : i = staHash s.addr
    · rw [hi, Function.update_self]
      exact (hd.once _).erase _
    · rw [Function.update_of_ne hi]
      exact hd.once i
  · have hlen : d'.staList.length = d.staList.length - 1 := by
      have herase : d'.nodesOf = d.nodesOf.erase s.node := by
        rw [Rtapd.nodesOf, hlist, List.Nodup.erase_eq_filter hd.nodes, Rtapd.nodesOf,
          List.filter_map]
        congr 1
        apply List.filter_congr
        intro s' _
        simp [bne, beq_eq_decide]
      have hin : s.node ∈ d.nodesOf := List.mem_map.mpr ⟨s, hs, rfl⟩
      have hcut := congrArg List.length herase
      rw [List.length_erase_of_mem hin] at hcut
      simpa [Rtapd.nodesOf] using hcut
    have hpos : 0 < d.staList.length := List.length_pos_of_mem hs
    rw [hnum, hd.count, hlen]
    omega

theorem apFreeSta_timers (hd : Table d) (hlive : TimersLive d)
    (hspare : Timeout.apHandleSessionTimer node ∉ d.timeouts) (h : apFreeSta d node = some d') :
    TimersLive d' ∧ d'.timeouts ⊆ d.timeouts := by
  obtain ⟨s, hs, rfl, hlist, _, _, _, htimeouts⟩ := apFreeSta_spec hd h
  have hsub : d'.timeouts ⊆ d.timeouts := by
    rw [htimeouts]
    exact List.filter_sublist.subset
  refine ⟨?_, hsub⟩
  intro t ht k hk
  obtain ⟨s', hs', rfl⟩ := List.mem_map.mp (hlive t (hsub ht) k hk)
  refine List.mem_map.mpr ⟨s', ?_, rfl⟩
  rw [hlist, List.mem_filter]
  refine ⟨hs', ?_⟩
  have hne : s'.node ≠ s.node := by
    intro heq
    cases t with
    | eapolPortTimersTick k =>
      cases hk
      rw [htimeouts, List.mem_filter, heq] at ht
      simp at ht
    | apHandleSessionTimer k =>
      cases hk
      exact hspare (heq ▸ hsub ht)
    | radiusClientTimer => cases hk
    | radiusRetryPrimaryTimer => cases hk
  simpa using hne

theorem apdFreeStas_sound {nodes : List Nat} (hd : Table d) (hlive : TimersLive d)
    (hspare : ∀ k ∈ nodes, Timeout.apHandleSessionTimer k ∉ d.timeouts)
    (h : apdFreeStas nodes d = some d') : Table d' ∧ TimersLive d' := by
  induction nodes generalizing d with
  | nil =>
    cases h
    exact ⟨hd, hlive⟩
  | cons k nodes ih =>
    obtain ⟨mid, hfree, hrest⟩ := Option.bind_eq_some_iff.mp h
    obtain ⟨hlive', hsub⟩ :=
      apFreeSta_timers hd hlive (hspare k List.mem_cons_self) hfree
    refine ih (apFreeSta_table hd hfree) hlive' ?_ hrest
    intro k' hk' hmem
    exact hspare k' (List.mem_cons_of_mem _ hk') (hsub hmem)

end Freeing

section Adding

/-- The daemon with a station that `Ap_get_sta` has just listed. -/
def listed (d : Rtapd) (s : Sta) : Rtapd :=
  (apStaHashAdd { d with staList := s :: d.staList, numSta := d.numSta + 1, nodes := d.nodes + 1 }
    d.nodes s.addr).registerTimeout (.eapolPortTimersTick d.nodes)

theorem listed_table (hd : Table d) {s : Sta} (hnode : s.node = d.nodes)
    (hnew : s.addr ∉ d.staList.map (·.addr)) : Table (listed d s) := by
  have hout : ∀ i, d.nodes ∉ d.staHash i := by
    intro i hmem
    obtain ⟨s', hs', heq, _⟩ := (hd.chains i d.nodes).mp hmem
    exact absurd (hd.fresh s' hs') (by omega)
  constructor
  · refine List.nodup_cons.mpr ⟨?_, hd.nodes⟩
    intro hmem
    obtain ⟨s', hs', heq⟩ := List.mem_map.mp hmem
    dsimp only at heq
    exact absurd (hd.fresh s' hs') (by omega)
  · exact List.nodup_cons.mpr ⟨hnew, hd.addrs⟩
  · intro s' hs'
    show s'.node < d.nodes + 1
    rcases List.mem_cons.mp hs' with rfl | hs'
    · omega
    · exact Nat.lt_succ_of_lt (hd.fresh s' hs')
  · intro i k
    have hchain : k ∈ (listed d s).staHash i ↔ i = staHash s.addr ∧ k = d.nodes ∨
        k ∈ d.staHash i := by
      show k ∈ Function.update d.staHash (staHash s.addr) _ i ↔ _
      by_cases hi : i = staHash s.addr
      · subst hi
        rw [Function.update_self, List.mem_cons]
        simp
      · rw [Function.update_of_ne hi]
        simp [hi]
    rw [hchain, hd.chains]
    constructor
    · rintro (⟨rfl, rfl⟩ | ⟨s', hs', hk, hi⟩)
      · exact ⟨s, List.mem_cons_self, hnode, rfl⟩
      · exact ⟨s', List.mem_cons_of_mem _ hs', hk, hi⟩
    · rintro ⟨s', hs', rfl, rfl⟩
      rcases List.mem_cons.mp hs' with rfl | hs'
      · exact .inl ⟨rfl, hnode⟩
      · exact .inr ⟨s', hs', rfl, rfl⟩
  · intro i
    show (Function.update d.staHash (staHash s.addr) _ i).Nodup
    by_cases hi : i = staHash s.addr
    · subst hi
      rw [Function.update_self]
      exact List.nodup_cons.mpr ⟨hout _, hd.once _⟩
    · rw [Function.update_of_ne hi]
      exact hd.once i
  · show d.numSta + 1 = ((s :: d.staList).length : Int)
    rw [hd.count, List.length_cons]
    rfl

theorem listed_timers (hlive : TimersLive d) {s : Sta} (hnode : s.node = d.nodes) :
    TimersLive (listed d s) := by
  intro t ht k hk
  rcases List.mem_append.mp ht with ht | ht
  · exact List.mem_cons_of_mem _ (hlive t ht k hk)
  · rw [List.mem_singleton.mp ht] at hk
    cases hk
    exact List.mem_cons.mpr (.inl hnode.symm)

theorem addSta_keepsTable {sa : Mac} {apIdx : Nat} {ethertype aid : U16} {sock : Int}
    (h : addSta env d sa apIdx ethertype sock aid = some (d', effects)) :
    ∃ s, s.node = d.nodes ∧ s.addr = sa ∧
      KeepsTable False d.nodes (listed d s) effects d' := by
  obtain ⟨⟨sm, actions⟩, _, h⟩ := Option.bind_eq_some_iff.mp h
  refine ⟨newSta d sa apIdx ethertype sock aid sm, rfl, rfl, ?_⟩
  have hcomp : Composes (KeepsTable False d.nodes) := composes_keepsTable
  refine meets_andThen hcomp (machinery_keepsTable.runActions actions _) ?_ _ _ h
  intro mid _ _
  exact meets_some.mpr (keepsTable_setSta mid d.nodes fun _ => ⟨rfl, rfl⟩)

end Adding

end OpenwrtMtk.Dot1x
