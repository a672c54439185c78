import OpenwrtMtk.Lib.Walk
import OpenwrtMtk.Mtd.Jffs2

/-!
# Where the scan of a block ends

The turns of `mtd_parse_jffs2data` as a walk through the block, which leaves it, comes to an end, or
turns for ever.
-/

namespace OpenwrtMtk.Mtd

open Toolkit Relation

set_option autoImplicit false

/-- The offset behind a node, an `unsigned int`. -/
def nextOffset (ofs : Nat) (totlen : U32) : Nat :=
  (BitVec.ofNat 32 ofs + ((totlen + 3) &&& ~~~3)).toNat

def nodeEntry (dir buf : List U8) (ofs : Nat) (nodetype : U16) : Option (Option Entry) :=
  if nodetype = 0xe001 then (readEntry dir buf ofs).map some else some none

def scanTurn (dir buf : List U8) (ofs : Nat) : Checked (Turn (Option Entry) Unit) :=
  if ofs < buf.length then do
    let magic ← orOutside (u16At buf ofs)
    if magic ≠ 0x1985 then return .stop ()
    else do
      let totlen ← orOutside (u32At buf (ofs + 4))
      let nodetype ← orOutside (u16At buf (ofs + 2))
      let entry ← orOutside (nodeEntry dir buf ofs nodetype)
      return .next (nextOffset ofs totlen) entry
  else return .stop ()

def storeEntry (found : Found) : Option Entry → Found
  | some de => found.store de
  | none => found

def mtdParseJffs2data (dir buf : List U8) (turns : Nat) (found : Found) : Checked Found := do
  let r ← walk (scanTurn dir buf) turns 0
  return r.1.foldl storeEntry found

section Reading

variable {buf : List U8} {ofs : Nat}

theorem u16At_ne_none : u16At buf ofs ≠ none ↔ ofs + 2 ≤ buf.length := by
  have hlen := @List.length_drop U8 ofs buf
  unfold u16At
  generalize buf.drop ofs = rest at hlen ⊢
  rcases rest with _ | ⟨a, _ | ⟨b, rest⟩⟩
  · rw [List.length_nil] at hlen
    exact iff_of_false (fun h => h rfl) (by omega)
  · rw [List.length_singleton] at hlen
    exact iff_of_false (fun h => h rfl) (by omega)
  · rw [List.length_cons, List.length_cons] at hlen
    exact iff_of_true (Option.some_ne_none _) (by omega)

theorem u32At_ne_none : u32At buf ofs ≠ none ↔ ofs + 4 ≤ buf.length := by
  have hlen := @List.length_drop U8 ofs buf
  unfold u32At
  generalize buf.drop ofs = rest at hlen ⊢
  rcases rest with _ | ⟨a, _ | ⟨b, _ | ⟨c, _ | ⟨d, rest⟩⟩⟩⟩
  · rw [List.length_nil] at hlen
    exact iff_of_false (fun h => h rfl) (by omega)
  · rw [List.length_cons, List.length_nil] at hlen
    exact iff_of_false (fun h => h rfl) (by omega)
  · rw [List.length_cons, List.length_cons, List.length_nil] at hlen
    exact iff_of_false (fun h => h rfl) (by omega)
  · rw [List.length_cons, List.length_cons, List.length_cons, List.length_nil] at hlen
    exact iff_of_false (fun h => h rfl) (by omega)
  · rw [List.length_cons, List.length_cons, List.length_cons, List.length_cons] at hlen
    exact iff_of_true (Option.some_ne_none _) (by omega)

theorem u16At_some (h : ofs + 2 ≤ buf.length) : ∃ w, u16At buf ofs = some w :=
  Option.ne_none_iff_exists'.mp (u16At_ne_none.mpr h)

theorem u32At_some (h : ofs + 4 ≤ buf.length) : ∃ w, u32At buf ofs = some w :=
  Option.ne_none_iff_exists'.mp (u32At_ne_none.mpr h)

theorem sameStart_ne_none {n : Nat} {name dir : List U8} :
    sameStart n name dir ≠ none ↔ n ≤ name.length ∨ ¬ name <+: dir ∨ 0 ∈ name := by
  induction n generalizing name dir with
  | zero => exact iff_of_true (Option.some_ne_none _) (Or.inl (Nat.zero_le _))
  | succ n ih =>
    cases name with
    | nil =>
      refine iff_of_false (fun h => h rfl) ?_
      rintro (hlen | hstart | hzero)
      · exact absurd hlen (Nat.not_succ_le_zero n)
      · exact hstart List.nil_prefix
      · exact List.not_mem_nil hzero
    | cons c name =>
      rw [sameStart]
      by_cases hdiff : c ≠ dir.headD 0
      · rw [if_pos hdiff]
        refine iff_of_true (Option.some_ne_none _) (Or.inr (Or.inl fun hstart => hdiff ?_))
        obtain ⟨rest, rfl⟩ := hstart
        rfl
      · rw [if_neg hdiff]
        by_cases hend : c = 0
        · rw [if_pos hend]
          exact iff_of_true (Option.some_ne_none _) (Or.inr (Or.inr (hend ▸ List.mem_cons_self)))
        · rw [if_neg hend, ih]
          cases dir with
          | nil => exact absurd (not_not.mp hdiff) hend
          | cons d dir =>
            have hhead : c = d := not_not.mp hdiff
            rw [List.tail_cons, List.length_cons, Nat.add_le_add_iff_right, hhead,
              List.prefix_cons_inj, List.mem_cons]
            refine or_congr_right (or_congr_right ⟨Or.inr, fun h => h.resolve_left ?_⟩)
            intro hzero
            exact hend (hhead.trans hzero.symm)

end Reading

section Fitting

variable (dir buf : List U8) (ofs : Nat)

/-- The name is in the buffer as far as it is compared. -/
structure NameFits : Prop where
  nsize : ofs + 28 < buf.length
  name : (buf.getD (ofs + 28) 0).toNat ≤ buf.length - (ofs + 40) ∨
    ¬ buf.drop (ofs + 40) <+: dir ∨ 0 ∈ buf.drop (ofs + 40)

structure DirentFits : Prop where
  numbers : ofs + 24 ≤ buf.length
  name : dir ≠ [] → u32At buf (ofs + 12) = some 1 → NameFits dir buf ofs

structure NodeFits : Prop where
  magic : ofs < buf.length → ofs + 2 ≤ buf.length
  totlen : u16At buf ofs = some 0x1985 → ofs + 8 ≤ buf.length
  dirent : u16At buf ofs = some 0x1985 → u16At buf (ofs + 2) = some 0xe001 → DirentFits dir buf ofs

def NodeLeads (buf : List U8) (ofs ofs' : Nat) : Prop :=
  u16At buf ofs = some 0x1985 ∧ ∃ totlen, u32At buf (ofs + 4) = some totlen ∧
    ofs' = nextOffset ofs totlen

def ScanFits : Prop := Passes (NodeFits dir buf) (NodeLeads buf) 0

end Fitting

section Turns

variable {dir buf : List U8} {ofs : Nat}

theorem bind_ne_none {α β : Type} {x : Option α} {f : α → Option β} :
    (x >>= f) ≠ none ↔ ∃ a, x = some a ∧ f a ≠ none := by
  cases x with
  | none =>
    refine iff_of_false (fun h => h rfl) ?_
    rintro ⟨a, ha, -⟩
    cases ha
  | some a =>
    constructor
    · intro h
      exact ⟨a, rfl, h⟩
    · rintro ⟨a', ha, h⟩
      cases ha
      exact h

theorem readTarget_ne_none : readTarget dir buf ofs ≠ none ↔
    (dir ≠ [] → ofs + 16 ≤ buf.length ∧ (u32At buf (ofs + 12) = some 1 → NameFits dir buf ofs)) := by
  rw [readTarget]
  by_cases hdir : dir = []
  · rw [if_pos hdir]
    exact iff_of_true (Option.some_ne_none _) fun h => absurd hdir h
  · rw [if_neg hdir, bind_ne_none]
    constructor
    · rintro ⟨pino, hpino, htarget⟩ _
      refine ⟨u32At_ne_none.mp (hpino ▸ Option.some_ne_none _), fun hone => ?_⟩
      rw [hpino, Option.some_inj] at hone
      rw [if_pos hone, bind_ne_none] at htarget
      obtain ⟨nsize, hnsize, hname⟩ := htarget
      obtain ⟨hlt, hget⟩ := List.getElem?_eq_some_iff.mp hnsize
      refine ⟨hlt, ?_⟩
      rw [sameStart_ne_none, List.length_drop] at hname
      rw [List.getD_eq_getElem?_getD, hnsize]
      exact hname
    · intro h
      obtain ⟨hlen, hname⟩ := h hdir
      obtain ⟨pino, hpino⟩ := u32At_some hlen
      refine ⟨pino, hpino, ?_⟩
      by_cases hone : pino = 1
      · obtain ⟨hlt, hfits⟩ := hname (hone ▸ hpino)
        rw [List.getD_eq_getElem?_getD, List.getElem?_eq_getElem hlt] at hfits
        rw [if_pos hone, bind_ne_none]
        refine ⟨buf[ofs + 28], List.getElem?_eq_getElem hlt, ?_⟩
        rw [sameStart_ne_none, List.length_drop]
        exact hfits
      · rw [if_neg hone]
        exact Option.some_ne_none _

theorem readEntry_ne_none : readEntry dir buf ofs ≠ none ↔ DirentFits dir buf ofs := by
  rw [readEntry, bind_ne_none]
  constructor
  · rintro ⟨target, htarget, hrest⟩
    obtain ⟨ino, hino, -⟩ := bind_ne_none.mp hrest
    have hlen : ofs + 20 + 4 ≤ buf.length := u32At_ne_none.mp (hino ▸ Option.some_ne_none _)
    have hname := readTarget_ne_none.mp (htarget ▸ Option.some_ne_none _)
    exact ⟨hlen, fun hdir => (hname hdir).2⟩
  · rintro ⟨hlen, hname⟩
    have htarget : readTarget dir buf ofs ≠ none :=
      readTarget_ne_none.mpr fun hdir => ⟨by omega, hname hdir⟩
    obtain ⟨target, htarget⟩ := Option.ne_none_iff_exists'.mp htarget
    obtain ⟨ino, hino⟩ := u32At_some (by omega : ofs + 20 + 4 ≤ buf.length)
    obtain ⟨version, hversion⟩ := u32At_some (by omega : ofs + 16 + 4 ≤ buf.length)
    refine ⟨target, htarget, bind_ne_none.mpr ⟨ino, hino, bind_ne_none.mpr ⟨version, hversion, ?_⟩⟩⟩
    exact Option.some_ne_none _

theorem nodeEntry_ne_none {nodetype : U16} : nodeEntry dir buf ofs nodetype ≠ none ↔
    (nodetype = 0xe001 → DirentFits dir buf ofs) := by
  rw [nodeEntry]
  by_cases htype : nodetype = 0xe001
  · rw [if_pos htype, Ne, Option.map_eq_none_iff, ← Ne, readEntry_ne_none]
    exact ⟨fun h _ => h, fun h => h htype⟩
  · rw [if_neg htype]
    exact iff_of_true (Option.some_ne_none _) fun h => absurd h htype

theorem orOutside_some {α : Type} {x : Option α} {a : α} (h : x = some a) : orOutside x = .ok a :=
  orOutside_eq_ok.mpr h

theorem scanTurn_node {totlen : U32} {nodetype : U16} {entry : Option Entry}
    (hmagic : u16At buf ofs = some 0x1985) (htotlen : u32At buf (ofs + 4) = some totlen)
    (htype : u16At buf (ofs + 2) = some nodetype)
    (hentry : nodeEntry dir buf ofs nodetype = some entry) :
    scanTurn dir buf ofs = .ok (.next (nextOffset ofs totlen) entry) := by
  have hlen : ofs + 2 ≤ buf.length := u16At_ne_none.mp (hmagic ▸ Option.some_ne_none _)
  rw [scanTurn, if_pos (by omega), bind_ok (orOutside_some hmagic), if_neg (not_not.mpr rfl),
    bind_ok (orOutside_some htotlen), bind_ok (orOutside_some htype),
    bind_ok (orOutside_some hentry)]
  rfl

theorem scanTurn_stop (h : ofs < buf.length → ∃ magic, u16At buf ofs = some magic ∧ magic ≠ 0x1985) :
    scanTurn dir buf ofs = .ok (.stop ()) := by
  rw [scanTurn]
  by_cases hin : ofs < buf.length
  · obtain ⟨magic, hmagic, hother⟩ := h hin
    rw [if_pos hin, bind_ok (orOutside_some hmagic), if_pos hother]
    rfl
  · rw [if_neg hin]
    rfl

theorem ends_scanTurn : Ends (scanTurn dir buf ofs) ↔ NodeFits dir buf ofs := by
  constructor
  · intro h
    rw [scanTurn] at h
    by_cases hin : ofs < buf.length
    · rw [if_pos hin] at h
      obtain ⟨magic, hmagic, h⟩ := ends_orOutside.mp h
      have hlen : ofs + 2 ≤ buf.length := u16At_ne_none.mp (hmagic ▸ Option.some_ne_none _)
      by_cases hnode : magic = 0x1985
      · rw [if_neg (not_not.mpr hnode)] at h
        obtain ⟨totlen, htotlen, h⟩ := ends_orOutside.mp h
        obtain ⟨nodetype, htype, h⟩ := ends_orOutside.mp h
        obtain ⟨entry, hentry, -⟩ := ends_orOutside.mp h
        refine ⟨fun _ => hlen, fun _ => ?_, fun _ hdirent => ?_⟩
        · exact u32At_ne_none.mp (htotlen ▸ Option.some_ne_none _)
        · rw [htype, Option.some_inj] at hdirent
          exact nodeEntry_ne_none.mp (hentry ▸ Option.some_ne_none _) hdirent
      · have hother : u16At buf ofs ≠ some 0x1985 := by
          rw [hmagic]
          exact fun heq => hnode (Option.some.inj heq)
        exact ⟨fun _ => hlen, fun heq => absurd heq hother, fun heq => absurd heq hother⟩
    · have hnone : u16At buf ofs = none :=
        not_not.mp fun hsome => hin (by have := u16At_ne_none.mp hsome; omega)
      refine ⟨fun h => absurd h hin, ?_, ?_⟩
      · rw [hnone]
        exact fun heq => absurd heq.symm (Option.some_ne_none _)
      · rw [hnone]
        exact fun heq => absurd heq.symm (Option.some_ne_none _)
  · rintro ⟨hmagic, htotlen, hdirent⟩
    by_cases hnode : u16At buf ofs = some 0x1985
    · have hlen := htotlen hnode
      obtain ⟨totlen, htotlen⟩ := u32At_some (by omega : ofs + 4 + 4 ≤ buf.length)
      obtain ⟨nodetype, htype⟩ := u16At_some (by omega : ofs + 2 + 2 ≤ buf.length)
      have hfits : nodeEntry dir buf ofs nodetype ≠ none :=
        nodeEntry_ne_none.mpr fun heq => hdirent hnode (heq ▸ htype)
      obtain ⟨entry, hentry⟩ := Option.ne_none_iff_exists'.mp hfits
      exact ⟨_, scanTurn_node hnode htotlen htype hentry⟩
    · refine ⟨_, scanTurn_stop fun hin => ?_⟩
      obtain ⟨magic, hsome⟩ := u16At_some (hmagic hin)
      exact ⟨magic, hsome, fun heq => hnode (heq ▸ hsome)⟩

theorem leads_scanTurn {ofs' : Nat} : Leads (scanTurn dir buf) ofs ofs' ↔
    NodeFits dir buf ofs ∧ NodeLeads buf ofs ofs' := by
  constructor
  · rintro ⟨entry, h⟩
    have hfits := ends_scanTurn.mp ⟨_, h⟩
    refine ⟨hfits, ?_⟩
    by_cases hnode : u16At buf ofs = some 0x1985
    · have hlen := hfits.totlen hnode
      obtain ⟨totlen, htotlen⟩ := u32At_some (by omega : ofs + 4 + 4 ≤ buf.length)
      obtain ⟨nodetype, htype⟩ := u16At_some (by omega : ofs + 2 + 2 ≤ buf.length)
      have hentry : nodeEntry dir buf ofs nodetype ≠ none :=
        nodeEntry_ne_none.mpr fun heq => hfits.dirent hnode (heq ▸ htype)
      obtain ⟨entry', hentry⟩ := Option.ne_none_iff_exists'.mp hentry
      rw [scanTurn_node hnode htotlen htype hentry] at h
      cases h
      exact ⟨hnode, totlen, htotlen, rfl⟩
    · rw [scanTurn_stop fun hin => ?_] at h
      · cases h
      · obtain ⟨magic, hsome⟩ := u16At_some (hfits.magic hin)
        exact ⟨magic, hsome, fun heq => hnode (heq ▸ hsome)⟩
  · rintro ⟨hfits, hnode, totlen, htotlen, rfl⟩
    have hlen := hfits.totlen hnode
    obtain ⟨nodetype, htype⟩ := u16At_some (by omega : ofs + 2 + 2 ≤ buf.length)
    have hentry : nodeEntry dir buf ofs nodetype ≠ none :=
      nodeEntry_ne_none.mpr fun heq => hfits.dirent hnode (heq ▸ htype)
    obtain ⟨entry, hentry⟩ := Option.ne_none_iff_exists'.mp hentry
    exact ⟨entry, scanTurn_node hnode htotlen htype hentry⟩

end Turns

section Scans

variable (dir buf : List U8)

def afterTurn (turns : Nat) (found : Found) : Turn (Option Entry) Unit → Option Found
  | .stop _ => some found
  | .next ofs entry => parseData dir buf turns ofs (storeEntry found entry)

theorem parseData_succ (turns ofs : Nat) (found : Found) : parseData dir buf (turns + 1) ofs found =
    (scanTurn dir buf ofs).toOption.bind (afterTurn dir buf turns found) := by
  rw [parseData, scanTurn]
  by_cases hin : ofs < buf.length
  · rw [if_pos hin, if_pos hin]
    cases u16At buf ofs with
    | none => rfl
    | some magic =>
      by_cases hnode : magic ≠ 0x1985
      · rw [bind_ok (orOutside_some rfl), if_pos hnode]
        exact if_pos hnode
      · rw [bind_ok (orOutside_some rfl), if_neg hnode]
        refine Eq.trans (if_neg hnode) ?_
        cases u32At buf (ofs + 4) with
        | none => rfl
        | some totlen =>
          cases u16At buf (ofs + 2) with
          | none => rfl
          | some nodetype =>
            change (if nodetype = 0xe001 then parseDirent dir buf ofs found else some found).bind _ =
              (orOutside (nodeEntry dir buf ofs nodetype) >>= _).toOption.bind _
            rw [nodeEntry]
            by_cases htype : nodetype = 0xe001
            · rw [if_pos htype, if_pos htype, parseDirent]
              cases readEntry dir buf ofs with
              | none => rfl
              | some de => rfl
            · rw [if_neg htype, if_neg htype]
              rfl
  · rw [if_neg hin, if_neg hin]
    rfl

theorem parseData_eq (turns ofs : Nat) (found : Found) : parseData dir buf turns ofs found =
    (walk (scanTurn dir buf) turns ofs).toOption.map fun r => r.1.foldl storeEntry found := by
  induction turns generalizing ofs found with
  | zero => rfl
  | succ turns ih =>
    rw [parseData_succ, walk]
    cases scanTurn dir buf ofs with
    | error e => rfl
    | ok turn =>
      cases turn with
      | stop _ => rfl
      | next j entry =>
        change parseData dir buf turns j (storeEntry found entry) = _
        rw [ih]
        change _ = (walk (scanTurn dir buf) turns j >>= _).toOption.map _
        cases walk (scanTurn dir buf) turns j with
        | error e => rfl
        | ok r => rfl

theorem ends_parse (turns : Nat) (found : Found) :
    Ends (mtdParseJffs2data dir buf turns found) ↔ Ends (walk (scanTurn dir buf) turns 0) :=
  ends_bind_of_ends fun _ => ends_pure _

theorem scan_ends_iff (found : Found) :
    (∃ turns, Ends (mtdParseJffs2data dir buf turns found)) ↔ ScanFits dir buf := by
  have hbound : ∀ j k, NodeLeads buf j k → j < buf.length := by
    rintro j k ⟨hnode, -⟩
    have hlen := u16At_ne_none.mp (hnode ▸ Option.some_ne_none _ : u16At buf j ≠ none)
    omega
  have hwalk {turns : Nat} (h : buf.length < turns) :=
    ends_walk (i := 0) (fun j => @ends_scanTurn dir buf j) (fun j k => leads_scanTurn) hbound h
  constructor
  · rintro ⟨turns, h⟩
    have hlate := ends_walk_of_le ((ends_parse dir buf turns found).mp h)
      (Nat.le_max_left turns (buf.length + 1))
    exact (hwalk (Nat.lt_of_lt_of_le (Nat.lt_succ_self _) (Nat.le_max_right _ _))).mp hlate
  · intro h
    exact ⟨buf.length + 1, (ends_parse dir buf _ found).mpr ((hwalk (Nat.lt_succ_self _)).mpr h)⟩

theorem zero_length_endless (buf : List U8) (hmagic : u16At buf 0 = some 0x1985)
    (htotlen : u32At buf 4 = some 0) (hother : ∃ nodetype, u16At buf 2 = some nodetype ∧
      nodetype ≠ 0xe001) (turns : Nat) (found : Found) :
    ¬Ends (mtdParseJffs2data dir buf turns found) := by
  obtain ⟨nodetype, htype, hother⟩ := hother
  have hturn : scanTurn dir buf 0 = .ok (.next (nextOffset 0 0) none) :=
    scanTurn_node hmagic htotlen htype (if_neg hother)
  have hlead : Leads (scanTurn dir buf) 0 0 := ⟨none, hturn⟩
  rw [ends_parse]
  exact not_ends_of_cycle ReflTransGen.refl (TransGen.single hlead)

def unmarked : List U8 := [0x85, 0x19, 0x03, 0x20, 0, 0, 0, 0] ++ List.replicate 4088 0xff

theorem unmarked_endless : ¬∃ turns, Ends (mtdParseJffs2data [] unmarked turns ⟨0, 0, 0⟩) := by
  rintro ⟨turns, h⟩
  exact zero_length_endless [] unmarked rfl rfl ⟨0x2003, rfl, by decide⟩ turns ⟨0, 0, 0⟩ h

/-- The numbers of a dirent are read behind the end of a block that ends with its header. -/
example : scanTurn [] [0x85, 0x19, 0x01, 0xe0, 0x28, 0, 0, 0, 0, 0, 0, 0] 0 = .error .outside := rfl

end Scans

end OpenwrtMtk.Mtd
