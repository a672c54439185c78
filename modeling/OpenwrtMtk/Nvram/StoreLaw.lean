import OpenwrtMtk.Nvram.Contents

/-!
# What nvram_get returns after any number of runs
-/

namespace OpenwrtMtk.Nvram

open Toolkit

set_option autoImplicit false

/-- A cache file whose sections read cleanly as `E`, no key twice in one section. -/
structure Holds (layout : List LayoutRow) (size : Nat) (file : List U8)
    (E : LayoutRow → List Entry) : Prop where
  length : file.length = size
  clean : ∀ row ∈ layout, Clean (row.body file) (E row)
  unique : ∀ row ∈ layout, ((E row).map Entry.name).Nodup

/-- The buffer of `nvram_commit`, when malloc returns zeroed memory. -/
def zeroBuffer (size : Nat) : List U8 := List.replicate size 0

/-- A run of `nvram set` or `nvram del`; its arguments are C strings. -/
def IsEdit : Op → Prop
  | .set _ key value => 0 ∉ key ∧ 0 ∉ value
  | .del _ key => 0 ∉ key
  | _ => False

/-- One process: parse the cache file, edit, write back, and the result it returns. -/
def StoreStep (layout : List LayoutRow) (size : Nat) (d : Device) (run : Op × Rc)
    (d' : Device) : Prop :=
  IsEdit run.1 ∧ runOp layout zeroSlots (zeroBuffer size) d run.1 = some (run.2, d')

/-- A run that returned OK counts, one that returned NG does not. -/
def counted (name : String) (key : List U8) (value : Option (List U8)) :
    Op × Rc → Option (List U8)
  | (.set n k v, .ok) => if n = name ∧ k = key then some v else value
  | (.del n k, .ok) => if n = name ∧ k = key then none else value
  | _ => value

/-- The value of the last counted set, none after a counted del, else what was there `before`. -/
def lastCounted (name : String) (key : List U8) (before : Option (List U8))
    (runs : List (Op × Rc)) : Option (List U8) :=
  runs.foldl (counted name key) before

/-- A set that the size check of `nvram_commit` lets through leaves its section readable: the key
has no `=` and starts with a byte that the parser accepts, and checksum and entries fit. -/
def KeepsReadable (layout : List LayoutRow) (d : Device) : Op → Prop
  | .set name key value =>
    ∀ sections s slots, nvramParse layout zeroSlots d.cache = some sections → s ∈ sections →
      s.name = name → readOnly s.flag = false → setSlot s.cache key value = some slots →
      (serialize (entriesOf slots)).length < s.size →
      equalsSign ∉ key ∧ startsEntry key ∧ 4 + (serialize (entriesOf slots)).length ≤ s.size
  | _ => True

section Step

variable {layout : List LayoutRow} {size : Nat} {d d' : Device} {E : LayoutRow → List Entry}
  {row : LayoutRow} {es : List Entry} {rc : Rc} {name : String} {key value : List U8}

theorem Holds.parse (hlayout : ValidLayout layout size) (h : Holds layout size d.cache E) :
    nvramParse layout zeroSlots d.cache =
      some (layout.map fun row => parsedSection d.cache (E row) row) := by
  apply nvramParse_clean E _ h.clean
  rw [h.length]
  exact hlayout

theorem Holds.get (hlayout : ValidLayout layout size) (h : Holds layout size d.cache E)
    (name : String) (key : List U8) :
    nvramGet layout zeroSlots d.cache name key = some (contents layout E name key) := by
  rw [nvramGet, h.parse hlayout, Option.map_some, nvramBufGet_map _ fun _ => rfl]
  simp only [parsedSection_entries]

theorem nvramCommit_cache {fill : List U8} {sections : List Section}
    (h : nvramCommit fill sections false d = some (rc, d')) :
    ∃ buffer, commitSections sections fill d.cache = some (rc, buffer, d'.cache) := by
  obtain ⟨⟨rc', buffer, file⟩, hcommit, hresult⟩ := Option.map_eq_some_iff.mp h
  cases rc' with
  | ok =>
    simp only [Prod.mk.injEq] at hresult
    obtain ⟨rfl, rfl⟩ := hresult
    exact ⟨buffer, hcommit⟩
  | ng =>
    simp only [Prod.mk.injEq] at hresult
    obtain ⟨rfl, rfl⟩ := hresult
    exact ⟨buffer, hcommit⟩

/-- The sections of the rows of a layout, holding `E`. -/
structure SectionsOf (layout : List LayoutRow) (E : LayoutRow → List Entry)
    (sec : LayoutRow → Section) : Prop where
  offset : ∀ row ∈ layout, (sec row).offset = row.offset
  size : ∀ row ∈ layout, (sec row).size = row.size
  entries : ∀ row ∈ layout, (sec row).entries = E row

theorem commit_bodies (hlayout : ValidLayout layout size) (hlen : d.cache.length = size)
    {sec : LayoutRow → Section} (hsec : SectionsOf layout E sec)
    (h : nvramCommit (zeroBuffer size) (layout.map sec) false d = some (rc, d')) :
    d'.cache.length = size ∧
      (∀ row ∈ layout, ((serialize (E row)).length < row.size ∧
          row.body d'.cache = bodyImage (List.replicate (row.size - 4) 0) (E row)) ∨
        (rc = .ng ∧ row.body d'.cache = row.body d.cache)) ∧
      (rc = .ng → ∃ row ∈ layout, row.size ≤ (serialize (E row)).length) := by
  obtain ⟨buffer, hcommit⟩ := nvramCommit_cache h
  have hapart : (layout.map sec).Pairwise Section.Apart := by
    rw [List.pairwise_map]
    apply hlayout.apart.imp_of_mem
    intro r r' hr hr' hd
    unfold LayoutRow.Apart at hd
    unfold Section.Apart
    rw [hsec.offset r hr, hsec.offset r' hr', hsec.size r hr, hsec.size r' hr']
    exact hd
  have hin : ∀ s ∈ layout.map sec, s.offset + s.size ≤ d.cache.length := by
    intro s hs
    obtain ⟨r, hr, rfl⟩ := List.mem_map.mp hs
    rw [hsec.offset r hr, hsec.size r hr, hlen]
    exact hlayout.inside r hr
  have hc := commitSections_committed (layout.map sec) hapart hin hcommit
  refine ⟨by rw [hc.length, hlen], ?_, ?_⟩
  · intro r hr
    have hbody : ∀ file, r.body file = ((sec r).image file).drop 4 := by
      intro file
      rw [Section.image, hsec.offset r hr, hsec.size r hr]
      exact (drop_slice file r.offset r.size 4).symm
    rcases hc.settled (sec r) (List.mem_map.mpr ⟨r, hr, rfl⟩) with ⟨hfit, himage⟩ | ⟨hng, himage⟩
    · rw [hsec.entries r hr, hsec.size r hr] at hfit
      have hpad : (sec r).body (zeroBuffer size) = List.replicate (r.size - 4) 0 := by
        have hend := hlayout.inside r hr
        have hhead := hlayout.header r hr
        rw [Section.body, hsec.offset r hr, hsec.size r hr, zeroBuffer, slice, List.drop_replicate,
          List.take_replicate]
        congr 1
        omega
      refine Or.inl ⟨hfit, ?_⟩
      rw [hbody, himage, hpad, hsec.entries r hr, sectionImage, List.drop_left' (length_le32 _)]
    · exact Or.inr ⟨hng, by rw [hbody, himage, hbody]⟩
  · intro hng
    obtain ⟨s, hs, hover⟩ := hc.refused hng
    obtain ⟨r, hr, rfl⟩ := List.mem_map.mp hs
    rw [hsec.size r hr, hsec.entries r hr] at hover
    exact ⟨r, hr, hover⟩

/-- An edited section, when a commit that counts leaves it readable. -/
structure Edited (row : LayoutRow) (es : List Entry) : Prop where
  unique : (es.map Entry.name).Nodup
  count : es.length ≤ maxEntry
  readable : (serialize es).length < row.size →
    (∀ e ∈ es, Storable e) ∧ 4 + (serialize es).length ≤ row.size

theorem Holds.commit (hlayout : ValidLayout layout size) (hd : Holds layout size d.cache E)
    (hedit : Edited row es) {sec : LayoutRow → Section}
    (hsec : SectionsOf layout (Function.update E row es) sec)
    (h : nvramCommit (zeroBuffer size) (layout.map sec) false d = some (rc, d')) :
    (rc = .ok ∧ Holds layout size d'.cache (Function.update E row es)) ∨
      (rc = .ng ∧ Holds layout size d'.cache E) := by
  obtain ⟨hlen, hbodies, hrefused⟩ := commit_bodies hlayout hd.length hsec h
  -- what was read from a section still fits in it
  have hfit : ∀ r ∈ layout, (serialize (E r)).length ≤ r.size - 4 := by
    intro r hr
    have hle := (hd.clean r hr).length_le
    have hend := hlayout.inside r hr
    have hhead := hlayout.header r hr
    have hlength := hd.length
    rwa [LayoutRow.body, length_slice (by omega)] at hle
  have hclean : ∀ r es, (∀ e ∈ es, Storable e) → es.length ≤ maxEntry →
      (serialize es).length ≤ r.size - 4 →
      Clean (bodyImage (List.replicate (LayoutRow.size r - 4) 0) es) es := by
    intro r es hall hcount hle
    apply bodyImage_clean hall hcount
    rwa [List.length_replicate]
  cases rc with
  | ok =>
    refine Or.inl ⟨rfl, hlen, ?_, ?_⟩
    · intro r hr
      rcases hbodies r hr with ⟨hlt, hbody⟩ | ⟨hng, _⟩
      · rw [hbody]
        by_cases hrow : r = row
        · subst hrow
          rw [Function.update_self] at hlt ⊢
          obtain ⟨hall, hle⟩ := hedit.readable hlt
          exact hclean r es hall hedit.count (by omega)
        · rw [Function.update_of_ne hrow]
          exact hclean r (E r) (hd.clean r hr).storable (hd.clean r hr).count (hfit r hr)
      · cases hng
    · intro r hr
      by_cases hrow : r = row
      · subst hrow
        rw [Function.update_self]
        exact hedit.unique
      · rw [Function.update_of_ne hrow]
        exact hd.unique r hr
  | ng =>
    refine Or.inr ⟨rfl, hlen, ?_, hd.unique⟩
    intro r hr
    rcases hbodies r hr with ⟨hlt, hbody⟩ | ⟨_, hbody⟩
    · -- only the edited section can exceed its size, so it was not written
      have hrow : r ≠ row := by
        intro hrow
        subst hrow
        obtain ⟨t, ht, hover⟩ := hrefused rfl
        by_cases htr : t = r
        · subst htr
          omega
        · rw [Function.update_of_ne htr] at hover
          have hle := hfit t ht
          have hhead := hlayout.header t ht
          omega
      rw [hbody, Function.update_of_ne hrow]
      exact hclean r (E r) (hd.clean r hr).storable (hd.clean r hr).count (hfit r hr)
    · rw [hbody]
      exact hd.clean r hr

theorem entriesOf_parsed (file : List U8) (es : List Entry) (row : LayoutRow) :
    entriesOf (parsedSection file es row).cache = es := parsedSection_entries file es row

theorem length_parsed (file : List U8) {es : List Entry} (row : LayoutRow)
    (h : es.length ≤ maxEntry) : (parsedSection file es row).cache.length = maxEntry := by
  simp only [parsedSection, List.length_append, List.length_map, List.length_replicate]
  omega

theorem length_entriesOf_le (slots : Slots) : (entriesOf slots).length ≤ slots.length :=
  List.length_filterMap_le id slots

def editedSection (file : List U8) (E : LayoutRow → List Entry) (row : LayoutRow)
    (slots : Slots) : LayoutRow → Section :=
  Function.update (fun r => parsedSection file (E r) r) row
    { parsedSection file (E row) row with cache := slots }

theorem sectionsOf_edited (file : List U8) (E : LayoutRow → List Entry) (row : LayoutRow)
    (slots : Slots) :
    SectionsOf layout (Function.update E row (entriesOf slots))
      (editedSection file E row slots) := by
  unfold editedSection
  refine ⟨?_, ?_, ?_⟩ <;> intro r _ <;> by_cases hr : r = row
  · subst hr
    rw [Function.update_self]
    rfl
  · rw [Function.update_of_ne hr]
    rfl
  · subst hr
    rw [Function.update_self]
    rfl
  · rw [Function.update_of_ne hr]
    rfl
  · subst hr
    rw [Function.update_self, Function.update_self]
    rfl
  · rw [Function.update_of_ne hr, Function.update_of_ne hr, parsedSection_entries]

theorem contents_update (E : LayoutRow → List Entry) (es : List Entry) {name : String}
    (hrow : rowNamed layout name = some row) (n : String) (k : List U8) :
    contents layout (Function.update E row es) n k =
      if n = name then lookup es k else contents layout E n k := by
  unfold contents
  split
  · rename_i hn
    subst hn
    rw [hrow, Option.bind_some, Function.update_self]
  · rename_i hn
    cases hother : rowNamed layout n with
    | none => rfl
    | some r =>
      have hne : r ≠ row := by
        intro heq
        subst heq
        have hname : r.name = name := by simpa using List.find?_some hrow
        have hname' : r.name = n := by simpa using List.find?_some hother
        exact hn (by rw [← hname', hname])
      rw [Option.bind_some, Option.bind_some, Function.update_of_ne hne]

theorem rowNamed_mem (h : rowNamed layout name = some row) : row ∈ layout ∧ row.name = name :=
  ⟨List.mem_of_find?_eq_some h, by simpa using List.find?_some h⟩

theorem step_edit (hlayout : ValidLayout layout size) (hd : Holds layout size d.cache E)
    {edit : Slots → Option Slots} {new : List Entry}
    (hedit : ∀ slots slots', ((entriesOf slots).map Entry.name).Nodup → edit slots = some slots' →
      Replaced key (entriesOf slots) new (entriesOf slots') ∧ slots'.length = slots.length)
    (hnew : ∀ row slots, rowNamed layout name = some row → readOnly row.flag = false →
      edit (parsedSection d.cache (E row) row).cache = some slots →
      (serialize (entriesOf slots)).length < row.size →
      (∀ e ∈ new, Storable e) ∧ 4 + (serialize (entriesOf slots)).length ≤ row.size)
    (h : (match editSection (layout.map fun row => parsedSection d.cache (E row) row) name edit with
      | none => some (.ng, d)
      | some sections => nvramCommit (zeroBuffer size) sections false d) = some (rc, d')) :
    ∃ E', Holds layout size d'.cache E' ∧ ∀ n k, contents layout E' n k =
      if rc = .ok ∧ n = name ∧ k = key then lookup new key else contents layout E n k := by
  cases hsections : editSection (layout.map fun row => parsedSection d.cache (E row) row) name edit
    with
  | none =>
    simp only [hsections, Option.some.injEq, Prod.mk.injEq] at h
    obtain ⟨rfl, rfl⟩ := h
    exact ⟨E, hd, fun _ _ => by simp⟩
  | some sections =>
    simp only [hsections] at h
    rw [editSection_map _ (fun _ => rfl) hlayout.names] at hsections
    obtain ⟨row, hrow, hsome⟩ := Option.bind_eq_some_iff.mp hsections
    split at hsome
    · cases hsome
    rename_i hwritable
    have hflag : readOnly row.flag = false := by simpa [parsedSection] using hwritable
    obtain ⟨slots, hslots, rfl⟩ := Option.map_eq_some_iff.mp hsome
    obtain ⟨hmem, _⟩ := rowNamed_mem hrow
    have hclean := hd.clean row hmem
    have hnodup := hd.unique row hmem
    obtain ⟨hrep, hlen⟩ := hedit _ _ (by rwa [entriesOf_parsed]) hslots
    rw [entriesOf_parsed] at hrep
    rw [length_parsed d.cache row hclean.count] at hlen
    have hedited : Edited row (entriesOf slots) := by
      refine ⟨hrep.nodup hnodup, by rw [← hlen]; exact length_entriesOf_le slots, ?_⟩
      intro hlt
      obtain ⟨hstorable, hfit⟩ := hnew row slots hrow hflag hslots hlt
      refine ⟨?_, hfit⟩
      intro e he
      rcases hrep.mem he with he | he
      · exact hclean.storable e he
      · exact hstorable e he
    rcases hd.commit hlayout hedited (sectionsOf_edited d.cache E row slots) h with
      ⟨rfl, hd'⟩ | ⟨rfl, hd'⟩
    · refine ⟨_, hd', ?_⟩
      intro n k
      rw [contents_update E _ hrow]
      by_cases hn : n = name
      · subst hn
        by_cases hk : k = key
        · subst hk
          rw [if_pos rfl, if_pos ⟨rfl, rfl, rfl⟩, hrep.lookup_self]
        · rw [if_pos rfl, if_neg (by simp [hk]), hrep.lookup_other hk, contents, hrow,
            Option.bind_some]
      · rw [if_neg hn, if_neg (by simp [hn])]
    · exact ⟨E, hd', fun _ _ => by simp⟩

theorem counted_set (n : String) (k : List U8) (before : Option (List U8)) :
    counted n k before (.set name key value, rc) =
      if rc = .ok ∧ n = name ∧ k = key then lookup [⟨key, value⟩] key else before := by
  cases rc <;> simp [counted, lookup, eq_comm]

theorem counted_del (n : String) (k : List U8) (before : Option (List U8)) :
    counted n k before (.del name key, rc) =
      if rc = .ok ∧ n = name ∧ k = key then lookup [] key else before := by
  cases rc <;> simp [counted, lookup, eq_comm]

theorem store_step (hlayout : ValidLayout layout size) (hd : Holds layout size d.cache E)
    {run : Op × Rc} (hok : KeepsReadable layout d run.1) (hstep : StoreStep layout size d run d') :
    ∃ E', Holds layout size d'.cache E' ∧
      ∀ n k, contents layout E' n k = counted n k (contents layout E n k) run := by
  obtain ⟨op, rc⟩ := run
  obtain ⟨hargs, hrun⟩ := hstep
  have hparse := hd.parse hlayout
  cases op with
  | set name key value =>
    obtain ⟨hkey, hvalue⟩ := hargs
    simp only [runOp, hparse, Option.bind_some, nvramBufSet] at hrun
    simp only [counted_set]
    apply step_edit hlayout hd (fun _ _ hes hset => setSlot_replaced hes hset) _ hrun
    intro row slots hrow hflag hset hlt
    obtain ⟨hmem, hname⟩ := rowNamed_mem hrow
    obtain ⟨heq, hstart, hfit⟩ := hok _ (parsedSection d.cache (E row) row) slots hparse
      (List.mem_map.mpr ⟨row, hmem, rfl⟩) hname hflag hset hlt
    refine ⟨?_, hfit⟩
    intro e he
    obtain rfl := List.mem_singleton.mp he
    exact ⟨hkey, hvalue, heq, hstart⟩
  | del name key =>
    simp only [runOp, hparse, Option.bind_some, nvramBufDel] at hrun
    simp only [counted_del]
    apply step_edit hlayout hd (fun _ _ hes hdel => delSlot_replaced hes hdel) _ hrun
    intro row slots hrow _ hdel _
    obtain ⟨hmem, _⟩ := rowNamed_mem hrow
    have hclean := hd.clean row hmem
    obtain ⟨hrep, _⟩ := delSlot_replaced (by rw [entriesOf_parsed]; exact hd.unique row hmem) hdel
    rw [entriesOf_parsed] at hrep
    have hle := hclean.length_le
    have hhead := hlayout.header row hmem
    have hend := hlayout.inside row hmem
    have hlength := hd.length
    rw [LayoutRow.body, length_slice (by omega)] at hle
    have hshort := hrep.length_serialize_le
    exact ⟨by simp, by omega⟩
  | clear => exact hargs.elim
  | loadfile => exact hargs.elim
  | commit => exact hargs.elim

/-- Any number of runs, each keeping its section readable. -/
theorem store_run (hlayout : ValidLayout layout size) (hd : Holds layout size d.cache E)
    {runs : List (Op × Rc)}
    (hrun : Run (Guarded (fun d run => KeepsReadable layout d run.1) (StoreStep layout size))
      d runs d') :
    ∃ E', Holds layout size d'.cache E' ∧
      ∀ n k, contents layout E' n k = lastCounted n k (contents layout E n k) runs := by
  induction hrun with
  | nil => exact ⟨E, hd, fun _ _ => rfl⟩
  | snoc _ hstep ih =>
    obtain ⟨E', hd', hcontents⟩ := ih
    obtain ⟨E'', hd'', hcounted⟩ := store_step hlayout hd' hstep.1 hstep.2
    refine ⟨E'', hd'', ?_⟩
    intro n k
    rw [hcounted, hcontents, lastCounted, lastCounted, List.foldl_append]
    rfl

end Step

/-- The store after any runs of set and del, each leaving its section readable: a get returns
the value of the last counted set, and nothing after a counted del. -/
theorem get_returns_last_counted {size : Nat} {d₀ d : Device} {E : LayoutRow → List Entry}
    {runs : List (Op × Rc)} (hsize : 0x10000 ≤ size) (hfile : Holds nvlayout size d₀.cache E)
    (hrun : Run (Guarded (fun d run => KeepsReadable nvlayout d run.1) (StoreStep nvlayout size))
      d₀ runs d) (name : String) (key : List U8) :
    ∃ before, nvramGet nvlayout zeroSlots d₀.cache name key = some before ∧
      nvramGet nvlayout zeroSlots d.cache name key = some (lastCounted name key before runs) := by
  have hlayout := nvlayout_valid hsize
  obtain ⟨E', hd, hcontents⟩ := store_run hlayout hfile hrun
  refine ⟨_, hfile.get hlayout name key, ?_⟩
  rw [hd.get hlayout, hcontents]

section Zeroed

variable {key value : List U8}

def zeroDevice : Device := ⟨zeroBuffer 0x10000, []⟩

theorem zeroDevice_holds : Holds nvlayout 0x10000 zeroDevice.cache fun _ => [] where
  length := List.length_replicate
  clean := by
    intro row _
    refine ⟨⟨_, rfl, Or.inr ?_⟩, by simp, by simp⟩
    intro c hc
    have hmem : c ∈ zeroBuffer 0x10000 :=
      List.mem_of_mem_drop (List.mem_of_mem_take (List.mem_of_mem_head? hc))
    obtain rfl := List.eq_of_mem_replicate hmem
    decide
  unique := by simp

theorem setSlot_fresh (n : Nat) (key value : List U8) :
    setSlot (List.replicate (n + 1) none) key value =
      some (some ⟨key, value⟩ :: List.replicate n none) := by
  have hnamed : (List.replicate (n + 1) (none : Option Entry)).findIdx? (isNamed key) = none := by
    rw [List.findIdx?_eq_none_iff]
    intro x hx
    rw [List.eq_of_mem_replicate hx]
    rfl
  rw [setSlot, hnamed, Option.none_or, List.replicate_succ, List.findIdx?_cons]
  rfl

theorem entriesOf_fresh (e : Entry) (n : Nat) :
    entriesOf (some e :: List.replicate n none) = [e] := by
  have hrest : entriesOf (List.replicate n none) = [] := by
    rw [entriesOf, List.filterMap_eq_nil_iff]
    intro x hx
    exact List.eq_of_mem_replicate hx
  rw [← List.nil_append (some e :: _), entriesOf_split, hrest]
  rfl

def test1 : LayoutRow := ⟨"test1", 0x2000, 0x4000, 0⟩

def oneEntry (key value : List U8) : LayoutRow → List Entry :=
  Function.update (fun _ => []) test1 [⟨key, value⟩]

theorem first_set (hfit : key.length + value.length ≤ 100) :
    ∃ d, runOp nvlayout zeroSlots (zeroBuffer 0x10000) zeroDevice (.set "test1" key value) =
        some (.ok, d) ∧ d.cache.length = 0x10000 ∧
      ∀ row ∈ nvlayout, row.body d.cache =
        bodyImage (List.replicate (row.size - 4) 0) (oneEntry key value row) := by
  have hlayout := nvlayout_valid (Nat.le_refl 0x10000)
  have hrow : rowNamed nvlayout "test1" = some test1 := by decide
  obtain ⟨slots, hslots, hentries⟩ : ∃ slots,
      setSlot (parsedSection zeroDevice.cache [] test1).cache key value = some slots ∧
        entriesOf slots = [⟨key, value⟩] :=
    ⟨_, setSlot_fresh 499 key value, entriesOf_fresh _ _⟩
  have hsec := @sectionsOf_edited nvlayout zeroDevice.cache (fun _ => []) test1 slots
  rw [hentries] at hsec
  have hshort : ∀ row ∈ nvlayout, 4 + (serialize (oneEntry key value row)).length < row.size := by
    have hspace : ∀ row ∈ nvlayout, 1000 ≤ row.size := by decide
    intro row hmem
    have hrowSpace := hspace row hmem
    unfold oneEntry
    by_cases hr : row = test1
    · subst hr
      rw [Function.update_self, serialize_cons, serialize_nil, List.append_nil, length_bytes]
      dsimp only
      omega
    · rw [Function.update_of_ne hr, serialize_nil, List.length_nil]
      omega
  obtain ⟨buffer, file, hcommit⟩ := commitSections_total (zeroBuffer 0x10000) zeroDevice.cache
    (nvlayout.map (editedSection zeroDevice.cache (fun _ => []) test1 slots)) (by
      intro s hs
      obtain ⟨row, hmem, rfl⟩ := List.mem_map.mp hs
      rw [hsec.offset row hmem, hsec.size row hmem, hsec.entries row hmem]
      refine ⟨?_, hshort row hmem⟩
      rw [zeroBuffer, List.length_replicate]
      exact hlayout.inside row hmem)
  have hwrite : nvramCommit (zeroBuffer 0x10000)
      (nvlayout.map (editedSection zeroDevice.cache (fun _ => []) test1 slots)) false zeroDevice =
      some (.ok, ⟨file, zeroDevice.flash⟩) := by
    rw [nvramCommit, hcommit]
    rfl
  obtain ⟨hlen, hbodies, _⟩ := commit_bodies hlayout zeroDevice_holds.length hsec hwrite
  refine ⟨_, ?_, hlen, ?_⟩
  · have hedit : nvramBufSet (nvlayout.map fun row => parsedSection zeroDevice.cache [] row) "test1"
        key value = some (nvlayout.map (editedSection zeroDevice.cache (fun _ => []) test1 slots)) := by
      rw [nvramBufSet, editSection_map _ (fun _ => rfl) hlayout.names, hrow, Option.bind_some,
        if_neg (by decide), hslots]
      rfl
    rw [runOp, zeroDevice_holds.parse hlayout, Option.bind_some, hedit]
    exact hwrite
  · intro row hmem
    rcases hbodies row hmem with ⟨_, hbody⟩ | ⟨hng, _⟩
    · exact hbody
    · cases hng

theorem holds_first_set {d : Device} {e : Entry} (he : Storable e)
    (hbytes : e.bytes = Entry.bytes ⟨key, value⟩) (hfit : key.length + value.length ≤ 100)
    (hlen : d.cache.length = 0x10000)
    (hbodies : ∀ row ∈ nvlayout, row.body d.cache =
      bodyImage (List.replicate (row.size - 4) 0) (oneEntry key value row)) :
    Holds nvlayout 0x10000 d.cache (Function.update (fun _ => []) test1 [e]) where
  length := hlen
  clean := by
    have hspace : ∀ row ∈ nvlayout, 1000 ≤ row.size := by decide
    intro row hmem
    have hrowSpace := hspace row hmem
    have hsame : bodyImage (List.replicate (row.size - 4) 0) (oneEntry key value row) =
        bodyImage (List.replicate (row.size - 4) 0)
          (Function.update (fun _ => []) test1 [e] row) := by
      unfold oneEntry
      by_cases hr : row = test1
      · subst hr
        rw [Function.update_self, Function.update_self, bodyImage, bodyImage]
        simp only [serialize_cons, hbytes]
      · rw [Function.update_of_ne hr, Function.update_of_ne hr]
    rw [hbodies row hmem, hsame]
    by_cases hr : row = test1
    · subst hr
      rw [Function.update_self]
      apply bodyImage_clean
      · intro x hx
        rw [List.mem_singleton.mp hx]
        exact he
      · simp [maxEntry]
      · rw [serialize_cons, serialize_nil, List.append_nil, hbytes, length_bytes,
          List.length_replicate]
        dsimp only
        omega
    · rw [Function.update_of_ne hr]
      exact bodyImage_clean (by simp) (by decide) (by simp)
  unique := by
    intro row _
    by_cases hr : row = test1
    · subst hr
      simp
    · rw [Function.update_of_ne hr]
      simp

/-- The key `a=b` with the value `c`. -/
def equalsKey : Op := .set "test1" [0x61, 0x3d, 0x62] [0x63]

/-- A counted set of `a=b` is read back as the key `a`. -/
theorem equals_key_is_lost :
    ¬ ∀ (d₀ d : Device) (E : LayoutRow → List Entry) (runs : List (Op × Rc)) (name : String)
      (key : List U8), Holds nvlayout 0x10000 d₀.cache E →
      Run (StoreStep nvlayout 0x10000) d₀ runs d →
      nvramGet nvlayout zeroSlots d.cache name key =
        some (lastCounted name key (contents nvlayout E name key) runs) := by
  intro hclaim
  have hlayout := nvlayout_valid (Nat.le_refl 0x10000)
  obtain ⟨d, hrun, hlen, hbodies⟩ := @first_set [0x61, 0x3d, 0x62] [0x63] (by decide)
  have hd := holds_first_set (e := ⟨[0x61], [0x62, 0x3d, 0x63]⟩)
    ⟨by decide, by decide, by decide, by decide⟩ (by decide) (by decide) hlen hbodies
  have hstep : StoreStep nvlayout 0x10000 zeroDevice (equalsKey, .ok) d :=
    ⟨⟨by decide, by decide⟩, hrun⟩
  have hget := hclaim zeroDevice d _ _ "test1" [0x61, 0x3d, 0x62] zeroDevice_holds (.single hstep)
  rw [hd.get hlayout] at hget
  revert hget
  decide

/-- The key `a` with the value `b`, and what a get returns afterwards. -/
theorem get_returns_last_counted_set :
    ∃ d, Run (Guarded (fun d run => KeepsReadable nvlayout d run.1) (StoreStep nvlayout 0x10000))
        zeroDevice [(.set "test1" [0x61] [0x62], .ok)] d ∧
      ∃ before, nvramGet nvlayout zeroSlots zeroDevice.cache "test1" [0x61] = some before ∧
        nvramGet nvlayout zeroSlots d.cache "test1" [0x61] =
          some (lastCounted "test1" [0x61] before [(.set "test1" [0x61] [0x62], .ok)]) := by
  have hlayout := nvlayout_valid (Nat.le_refl 0x10000)
  obtain ⟨d, hset, hlen, hbodies⟩ := @first_set [0x61] [0x62] (by decide)
  have hok : KeepsReadable nvlayout zeroDevice (.set "test1" [0x61] [0x62]) := by
    intro sections s slots hparse hmem hname _ hslots _
    rw [zeroDevice_holds.parse hlayout, Option.some.injEq] at hparse
    subst hparse
    obtain ⟨row, hrow, rfl⟩ := List.mem_map.mp hmem
    have hfresh : setSlot (List.replicate maxEntry none) [0x61] [0x62] = some slots := hslots
    obtain rfl := Option.some.inj ((setSlot_fresh 499 [0x61] [0x62]).symm.trans hfresh)
    have hspace : ∀ row ∈ nvlayout, 1000 ≤ row.size := by decide
    have hrowSpace := hspace row hrow
    refine ⟨by decide, by decide, ?_⟩
    rw [entriesOf_fresh]
    exact Nat.le_trans (by decide) hrowSpace
  have hrun : Run (Guarded (fun d run => KeepsReadable nvlayout d run.1)
      (StoreStep nvlayout 0x10000)) zeroDevice [(.set "test1" [0x61] [0x62], .ok)] d :=
    .single ⟨hok, ⟨by decide, by decide⟩, hset⟩
  exact ⟨d, hrun, get_returns_last_counted (Nat.le_refl _) zeroDevice_holds hrun _ _⟩

end Zeroed

end OpenwrtMtk.Nvram
