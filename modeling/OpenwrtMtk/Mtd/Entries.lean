import OpenwrtMtk.Lib.Bits
import OpenwrtMtk.Lib.Extremes
import OpenwrtMtk.Mtd.ScanEnds
import OpenwrtMtk.Mtd.WellFormed

/-!
# The entries that the scan finds

The dirents of well-formed blocks, and what `mtd_parse_jffs2data` has found when it has scanned them
all.
-/

namespace OpenwrtMtk.Mtd

open Toolkit Nvram

set_option autoImplicit false

/-- `struct jffs2_raw_dirent` and the name, with checksums that nobody looks at. -/
structure Dirent where
  hdrCrc : U32
  pino : U32
  version : U32
  ino : U32
  mctime : U32
  type : U8
  unused : U16
  nodeCrc : U32
  nameCrc : U32
  name : List U8

def Dirent.encode (de : Dirent) : List U8 :=
  le16 0x1985 ++ le16 0xe001 ++ le32 (BitVec.ofNat 32 (40 + de.name.length)) ++ le32 de.hdrCrc ++
    le32 de.pino ++ le32 de.version ++ le32 de.ino ++ le32 de.mctime ++
    [BitVec.ofNat 8 de.name.length, de.type] ++ le16 de.unused ++ le32 de.nodeCrc ++
    le32 de.nameCrc ++ de.name

/-- The length of a name is one byte, and a name has no null byte. -/
structure Dirent.Ok (de : Dirent) : Prop where
  length : de.name.length ≤ 255
  name : 0 ∉ de.name

def padLength (n : Nat) : Nat := (4 - n % 4) % 4

/-- The rest of a well-formed block, from a node on, with its dirents. -/
inductive Holds : List U8 → List Dirent → Prop where
  | full : Holds [] []
  | free {rest : List U8} {magic : U16} (hmagic : u16At rest 0 = some magic)
      (hfree : magic ≠ 0x1985) : Holds rest []
  | dirent {de : Dirent} {padding rest : List U8} {es : List Dirent} (hok : de.Ok)
      (hpadding : padding.length = padLength (40 + de.name.length)) (hrest : Holds rest es) :
      Holds (de.encode ++ padding ++ rest) (de :: es)
  | other {node padding rest : List U8} {es : List Dirent} {nodetype : U16} (hok : NodeOk node)
      (hsize : 8 ≤ node.length) (htype : u16At node 2 = some nodetype) (hother : nodetype ≠ 0xe001)
      (hpadding : padding.length = padLength node.length) (hrest : Holds rest es) :
      Holds (node ++ padding ++ rest) es

def scanBlocks (dir : List U8) (blocks : List (List U8)) : Option Found :=
  blocks.foldlM (fun found buf => parseData dir buf (buf.length + 1) 0 found) ⟨0, 0, 0⟩

section Names

def Dirent.isNamed (dir : List U8) (de : Dirent) : Bool := decide (de.pino = 1) && decide (de.name = dir)

def Dirent.startsIn (dir : List U8) (de : Dirent) : Bool :=
  decide (de.pino = 1) && de.name.isPrefixOf dir

def lastInode (p : Dirent → Bool) (es : List Dirent) : U32 :=
  ((es.filter p).getLast?.map Dirent.ino).getD 0

/-- The directory is found, and the numbers are bounds as the integers they are. -/
structure DirectoryFound (dir : List U8) (es : List Dirent) (found : Found) : Prop where
  target : found.targetIno = lastInode (Dirent.isNamed dir) es
  lastIno : ∀ de ∈ es, (de.ino.toNat : Int) ≤ found.lastIno.toInt
  lastVersion : ∀ de ∈ es, (de.version.toNat : Int) ≤ found.lastVersion.toInt

/-- The last entry of `/` whose name starts the directory's name has that name, or the inode number
of the last one that has it; and the numbers are not negative as integers. -/
structure Findable (dir : List U8) (es : List Dirent) : Prop where
  target : ∀ de, (es.filter (Dirent.startsIn dir)).getLast? = some de → de.name ≠ dir →
    de.ino = lastInode (Dirent.isNamed dir) es
  lastIno : ∀ de ∈ es, de.ino.toNat < 2 ^ 31
  lastVersion : ∀ de ∈ es, de.version.toNat < 2 ^ 31

end Names

section Reading

theorem drop_behind (before tail : List U8) (k : Nat) :
    (before ++ tail).drop (before.length + k) = tail.drop k := by
  rw [← List.drop_drop, List.drop_left]

theorem u16At_behind (before tail : List U8) (k : Nat) :
    u16At (before ++ tail) (before.length + k) = u16At tail k := by
  rw [u16At, drop_behind]
  rfl

theorem u32At_behind (before tail : List U8) (k : Nat) :
    u32At (before ++ tail) (before.length + k) = u32At tail k := by
  rw [u32At, drop_behind]
  rfl

theorem getElem?_behind (before tail : List U8) (k : Nat) :
    (before ++ tail)[before.length + k]? = tail[k]? := by
  rw [List.getElem?_append_right (Nat.le_add_right _ _), Nat.add_sub_cancel_left]

theorem sameStart_name {name : List U8} (hname : 0 ∉ name) (more dir : List U8) :
    sameStart name.length (name ++ more) dir = some (name.isPrefixOf dir) := by
  induction name generalizing dir with
  | nil => rfl
  | cons c name ih =>
    obtain ⟨hc, hname⟩ := not_or.mp (List.mem_cons.not.mp hname)
    rw [List.length_cons, List.cons_append, sameStart]
    cases dir with
    | nil => exact if_pos fun h : c = 0 => hc h.symm
    | cons d dir =>
      rw [List.headD_cons, List.tail_cons, List.isPrefixOf_cons_cons]
      by_cases hdiff : c = d
      · rw [if_neg (not_not.mpr hdiff), if_neg (Ne.symm hc), ih hname, beq_iff_eq.mpr hdiff,
          Bool.true_and]
      · rw [if_pos hdiff, beq_eq_false_iff_ne.mpr hdiff, Bool.false_and]

theorem nextOffset_padded {ofs n : Nat} (h : ofs + n + padLength n < 2 ^ 32) :
    nextOffset ofs (BitVec.ofNat 32 n) = ofs + n + padLength n := by
  have hpad : ((BitVec.ofNat 32 n + 3) &&& ~~~(3 : U32)).toNat = (n + 3) % 2 ^ 32 / 4 * 4 := by
    rw [@toNat_and_not 32 2 (BitVec.ofNat 32 n + 3) 3 rfl, BitVec.toNat_add, BitVec.toNat_ofNat,
      Nat.mod_add_mod]
    rfl
  rw [nextOffset, BitVec.toNat_add, hpad, BitVec.toNat_ofNat]
  unfold padLength at h ⊢
  omega

theorem u16At_append {xs : List U8} {k : Nat} {w : U16} (h : u16At xs k = some w) (ys : List U8) :
    u16At (xs ++ ys) k = some w := by
  have hlen := u16At_ne_none.mp (h ▸ Option.some_ne_none _ : u16At xs k ≠ none)
  rw [u16At] at h ⊢
  rw [List.drop_append_of_le_length (by omega)]
  rcases hdrop : xs.drop k with _ | ⟨a, _ | ⟨b, rest⟩⟩
  · rw [hdrop] at h
    cases h
  · rw [hdrop] at h
    cases h
  · rw [hdrop] at h
    exact h

theorem u32At_append {xs : List U8} {k : Nat} {w : U32} (h : u32At xs k = some w) (ys : List U8) :
    u32At (xs ++ ys) k = some w := by
  have hlen := u32At_ne_none.mp (h ▸ Option.some_ne_none _ : u32At xs k ≠ none)
  rw [u32At] at h ⊢
  rw [List.drop_append_of_le_length (by omega)]
  rcases hdrop : xs.drop k with _ | ⟨a, _ | ⟨b, _ | ⟨c, _ | ⟨d, rest⟩⟩⟩⟩
  · rw [hdrop] at h
    cases h
  · rw [hdrop] at h
    cases h
  · rw [hdrop] at h
    cases h
  · rw [hdrop] at h
    cases h
  · rw [hdrop] at h
    exact h

theorem Dirent.encode_length (de : Dirent) : de.encode.length = 40 + de.name.length := by
  rw [encode, List.length_append]
  rfl

theorem Dirent.encode_append (de : Dirent) (more : List U8) : de.encode ++ more =
    le16 0x1985 ++ (le16 0xe001 ++ (le32 (BitVec.ofNat 32 (40 + de.name.length)) ++
      (le32 de.hdrCrc ++ (le32 de.pino ++ (le32 de.version ++ (le32 de.ino ++ (le32 de.mctime ++
        ([BitVec.ofNat 8 de.name.length, de.type] ++ (le16 de.unused ++ (le32 de.nodeCrc ++
          (le32 de.nameCrc ++ (de.name ++ more)))))))))))) := by
  rw [encode]
  simp only [List.append_assoc]

theorem Dirent.encode_ok (de : Dirent) : NodeOk de.encode where
  magic := by
    rw [← List.append_nil de.encode, de.encode_append]
    exact congrArg some (append_bytes16 0x1985)
  totlen := by
    rw [de.encode_length, ← List.append_nil de.encode, de.encode_append]
    exact congrArg some (append_bytes32 _)

theorem Dirent.nodetype (de : Dirent) : u16At de.encode 2 = some 0xe001 := by
  rw [← List.append_nil de.encode, de.encode_append]
  exact congrArg some (append_bytes16 0xe001)

end Reading

section Scan

variable {dir : List U8}

def noteDirent (dir : List U8) (found : Found) (de : Dirent) : Found :=
  found.store ⟨de.startsIn dir, de.version, de.ino⟩

theorem readEntry_dirent (hdir : dir ≠ []) {de : Dirent} (hok : de.Ok) (before more : List U8) :
    readEntry dir (before ++ (de.encode ++ more)) before.length =
      some ⟨de.startsIn dir, de.version, de.ino⟩ := by
  have hpino : u32At (de.encode ++ more) 12 = some de.pino := by
    rw [de.encode_append]
    exact congrArg some (append_bytes32 _)
  have hversion : u32At (de.encode ++ more) 16 = some de.version := by
    rw [de.encode_append]
    exact congrArg some (append_bytes32 _)
  have hino : u32At (de.encode ++ more) 20 = some de.ino := by
    rw [de.encode_append]
    exact congrArg some (append_bytes32 _)
  have hsize : (de.encode ++ more)[28]? = some (BitVec.ofNat 8 de.name.length) := by
    rw [de.encode_append]
    rfl
  have hname : (de.encode ++ more).drop 40 = de.name ++ more := by
    rw [de.encode_append]
    rfl
  have hlen : (BitVec.ofNat 8 de.name.length).toNat = de.name.length := by
    rw [BitVec.toNat_ofNat]
    exact Nat.mod_eq_of_lt (Nat.lt_succ_of_le hok.length)
  have htarget : readTarget dir (before ++ (de.encode ++ more)) before.length =
      some (de.startsIn dir) := by
    rw [readTarget, if_neg hdir, u32At_behind, hpino]
    by_cases hroot : de.pino = 1
    · change (if de.pino = 1 then _ else _) = _
      rw [if_pos hroot, getElem?_behind, hsize]
      change sameStart (BitVec.ofNat 8 de.name.length).toNat _ _ = _
      rw [drop_behind, hname, hlen, sameStart_name hok.name, Dirent.startsIn, decide_eq_true hroot,
        Bool.true_and]
    · change (if de.pino = 1 then _ else _) = _
      rw [if_neg hroot, Dirent.startsIn, decide_eq_false hroot, Bool.false_and]
  rw [readEntry, htarget, u32At_behind, u32At_behind, hino, hversion]
  rfl

theorem parseData_turn {before node padding rest : List U8} {nodetype : U16} {entry : Option Entry}
    {turns : Nat} {found : Found} (hok : NodeOk node) (htype : u16At node 2 = some nodetype)
    (hpadding : padding.length = padLength node.length)
    (hentry : nodeEntry dir (before ++ (node ++ padding ++ rest)) before.length nodetype = some entry)
    (hsize : (before ++ (node ++ padding ++ rest)).length < 2 ^ 32) :
    parseData dir (before ++ (node ++ padding ++ rest)) (turns + 1) before.length found =
      parseData dir (before ++ (node ++ padding) ++ rest) turns (before ++ (node ++ padding)).length
        (storeEntry found entry) := by
  have hnext : nextOffset before.length (BitVec.ofNat 32 node.length) =
      (before ++ (node ++ padding)).length := by
    rw [← List.append_assoc, List.length_append] at hsize
    rw [List.length_append, List.length_append, hpadding, ← Nat.add_assoc] at hsize ⊢
    exact nextOffset_padded (by omega)
  have hturn : scanTurn dir (before ++ (node ++ padding ++ rest)) before.length = _ := scanTurn_node
    ((u16At_behind before _ 0).trans (u16At_append (u16At_append hok.magic padding) rest))
    ((u32At_behind before _ 4).trans (u32At_append (u32At_append hok.totlen padding) rest))
    ((u16At_behind before _ 2).trans (u16At_append (u16At_append htype padding) rest)) hentry
  rw [parseData_succ, hturn, hnext, List.append_assoc before (node ++ padding) rest]
  rfl

theorem parseData_holds (hdir : dir ≠ []) {tail : List U8} {es : List Dirent} (h : Holds tail es)
    (before : List U8) (found : Found) {turns : Nat} (hturns : tail.length < turns)
    (hsize : (before ++ tail).length < 2 ^ 32) :
    parseData dir (before ++ tail) turns before.length found =
      some (es.foldl (noteDirent dir) found) := by
  induction h generalizing before found turns with
  | full =>
    obtain ⟨n, rfl⟩ := Nat.exists_eq_add_one.mpr (Nat.zero_lt_of_lt hturns)
    rw [parseData_succ, scanTurn_stop]
    · rfl
    · intro hin
      rw [List.append_nil] at hin
      exact absurd hin (Nat.lt_irrefl _)
  | free hmagic hfree =>
    obtain ⟨n, rfl⟩ := Nat.exists_eq_add_one.mpr (Nat.zero_lt_of_lt hturns)
    rw [parseData_succ, scanTurn_stop]
    · rfl
    · intro _
      exact ⟨_, (u16At_behind before _ 0).trans hmagic, hfree⟩
  | @dirent de padding rest es hok hpadding _ ih =>
    obtain ⟨n, rfl⟩ := Nat.exists_eq_add_one.mpr (Nat.zero_lt_of_lt hturns)
    have hentry := readEntry_dirent hdir hok before (padding ++ rest)
    rw [← List.append_assoc de.encode] at hentry
    have hnode : nodeEntry dir (before ++ (de.encode ++ padding ++ rest)) before.length 0xe001 =
        some (some ⟨de.startsIn dir, de.version, de.ino⟩) := by
      rw [nodeEntry, if_pos rfl, hentry]
      rfl
    have hlen := de.encode_length
    rw [List.length_append, List.length_append] at hturns
    rw [parseData_turn de.encode_ok de.nodetype (hlen ▸ hpadding) hnode hsize]
    exact ih _ _ (by omega) (by rw [List.append_assoc]; exact hsize)
  | @other node padding rest es nodetype hok hlen htype hother hpadding _ ih =>
    obtain ⟨n, rfl⟩ := Nat.exists_eq_add_one.mpr (Nat.zero_lt_of_lt hturns)
    have hnode : nodeEntry dir (before ++ (node ++ padding ++ rest)) before.length nodetype =
        some none := if_neg hother
    rw [List.length_append, List.length_append] at hturns
    rw [parseData_turn hok htype hpadding hnode hsize]
    exact ih _ _ (by omega) (by rw [List.append_assoc]; exact hsize)

theorem foldlM_holds (hdir : dir ≠ []) {blocks : List (List U8)} {ess : List (List Dirent)}
    (hheld : List.Forall₂ Holds blocks ess) (hsize : ∀ buf ∈ blocks, buf.length < 2 ^ 32)
    (found : Found) :
    blocks.foldlM (fun found buf => parseData dir buf (buf.length + 1) 0 found) found =
      some (ess.flatten.foldl (noteDirent dir) found) := by
  induction hheld generalizing found with
  | nil => rfl
  | @cons buf es blocks ess hblock _ ih =>
    have hparse := parseData_holds hdir hblock [] found (Nat.lt_succ_self _)
      (hsize buf List.mem_cons_self)
    rw [List.foldlM_cons, List.flatten_cons, List.foldl_append]
    rw [List.nil_append, List.length_nil] at hparse
    rw [hparse]
    exact ih (fun buf' hmem => hsize buf' (List.mem_cons_of_mem _ hmem)) _

variable {dev : Device}

def blockAt (dev : Device) (mem : FlashMemory) (mtdofs : Nat) : List U8 :=
  (List.range dev.erasesize).map fun i => mem (mtdofs + i)

/-- `mtd_write_jffs2` scans the blocks up to the first one without a node. -/
theorem findEnd_scans {mem : FlashMemory} {turns mtdofs mtdofs' : Nat} {buf : List U8}
    {found found' : Found}
    (h : findEnd dev dir mem turns mtdofs found = some (some (mtdofs', buf, found'))) :
    ∃ n, mtdofs' = mtdofs + dev.erasesize * n ∧
      ((List.range n).map fun i => blockAt dev mem (mtdofs + dev.erasesize * i)).foldlM
        (fun found buf => parseData dir buf (buf.length + 1) 0 found) found = some found' := by
  induction turns generalizing mtdofs found with
  | zero => cases h
  | succ turns ih =>
    rw [findEnd] at h
    split at h
    · cases h
    · cases hmagic : u16At ((List.range dev.erasesize).map fun i => mem (mtdofs + i)) 0 with
      | none =>
        rw [hmagic] at h
        cases h
      | some magic =>
        rw [hmagic] at h
        dsimp only [Option.bind_eq_bind, Option.bind_some] at h
        split at h
        · cases h
        · split at h
          · cases h
            exact ⟨0, rfl, rfl⟩
          · obtain ⟨found₁, hparse, h⟩ := Option.bind_eq_some_iff.mp h
            obtain ⟨n, hofs, hscan⟩ := ih h
            refine ⟨n + 1, ?_, ?_⟩
            · rw [hofs, Nat.mul_succ]
              omega
            · rw [List.range_succ_eq_map, List.map_cons, List.map_map, List.foldlM_cons]
              change (parseData dir (blockAt dev mem mtdofs) _ 0 found).bind _ = _
              rw [Option.bind_eq_some_iff]
              refine ⟨found₁, hparse, ?_⟩
              rw [← hscan]
              apply congrArg fun blocks => List.foldlM _ found₁ blocks
              apply List.map_congr_left
              intro i _
              change blockAt dev mem (mtdofs + dev.erasesize * (i + 1)) = _
              rw [Nat.mul_succ, Nat.add_assoc, Nat.add_comm dev.erasesize]

end Scan

section Numbers

variable {dir : List U8}

theorem foldl_target (es : List Dirent) (found : Found) :
    (es.foldl (noteDirent dir) found).targetIno =
      ((es.filter (Dirent.startsIn dir)).getLast?.map Dirent.ino).getD found.targetIno := by
  induction es generalizing found with
  | nil => rfl
  | cons de es ih =>
    rw [List.foldl_cons, ih]
    cases hstart : de.startsIn dir with
    | true =>
      rw [List.filter_cons_of_pos hstart, List.getLast?_cons]
      have hkept : (noteDirent dir found de).targetIno = de.ino := by
        rw [noteDirent, hstart]
        rfl
      rw [hkept]
      cases (es.filter (Dirent.startsIn dir)).getLast? with
      | none => rfl
      | some last => rfl
    | false =>
      rw [List.filter_cons_of_neg (by rw [hstart]; exact Bool.false_ne_true)]
      have hkept : (noteDirent dir found de).targetIno = found.targetIno := by
        rw [noteDirent, hstart]
        rfl
      rw [hkept]

theorem largest_bounds (f : Dirent → U32) (es : List Dirent) :
    (∀ de ∈ es, ((f de).toNat : Int) ≤ (largestOf f es 0).toInt) ↔
      ∀ de ∈ es, (f de).toNat < 2 ^ 31 := by
  have hle := (le_largestOf f es 0).2
  have hint := BitVec.toInt_eq_toNat_cond (largestOf f es 0)
  constructor
  · intro h de hmem
    have hde := h de hmem
    have hunsigned := BitVec.le_def.mp (hle de hmem)
    have hlt := (largestOf f es 0).isLt
    split at hint <;> omega
  · intro h de hmem
    have hunsigned := BitVec.le_def.mp (hle de hmem)
    have hlargest : (largestOf f es 0).toNat < 2 ^ 31 := by
      rcases largestOf_mem f es 0 with heq | ⟨de', hmem', heq⟩
      · rw [heq]
        decide
      · exact heq ▸ h de' hmem'
    rw [if_pos (by omega)] at hint
    omega

theorem foldl_numbers (es : List Dirent) (found : Found) :
    (es.foldl (noteDirent dir) found).lastIno = largestOf Dirent.ino es found.lastIno ∧
      (es.foldl (noteDirent dir) found).lastVersion =
        largestOf Dirent.version es found.lastVersion := by
  induction es generalizing found with
  | nil => exact ⟨rfl, rfl⟩
  | cons de es ih => exact ih (noteDirent dir found de)

theorem startsIn_of_isNamed {de : Dirent} (h : de.isNamed dir = true) : de.startsIn dir = true := by
  rw [Dirent.isNamed, Bool.and_eq_true, decide_eq_true_eq, decide_eq_true_eq] at h
  rw [Dirent.startsIn, Bool.and_eq_true, decide_eq_true_eq, List.isPrefixOf_iff_prefix]
  exact ⟨h.1, h.2 ▸ List.prefix_refl _⟩

theorem filter_isNamed (es : List Dirent) : es.filter (Dirent.isNamed dir) =
    (es.filter (Dirent.startsIn dir)).filter (Dirent.isNamed dir) := by
  rw [List.filter_filter]
  apply List.filter_congr
  intro de _
  cases hnamed : de.isNamed dir with
  | true => rw [startsIn_of_isNamed hnamed, Bool.and_self]
  | false => rw [Bool.false_and]

theorem target_iff (es : List Dirent) :
    lastInode (Dirent.startsIn dir) es = lastInode (Dirent.isNamed dir) es ↔
      ∀ de, (es.filter (Dirent.startsIn dir)).getLast? = some de → de.name ≠ dir →
        de.ino = lastInode (Dirent.isNamed dir) es := by
  cases hlast : (es.filter (Dirent.startsIn dir)).getLast? with
  | none =>
    have hnil := List.getLast?_eq_none_iff.mp hlast
    refine iff_of_true ?_ fun de h => absurd h.symm (Option.some_ne_none _)
    rw [lastInode, lastInode, filter_isNamed, hnil]
    rfl
  | some last =>
    have htarget : lastInode (Dirent.startsIn dir) es = last.ino := by
      rw [lastInode, hlast]
      rfl
    rw [htarget]
    by_cases hname : last.name = dir
    · refine iff_of_true ?_ fun de h hother => ?_
      · obtain ⟨init, hinit⟩ := List.getLast?_eq_some_iff.mp hlast
        have hmem : last ∈ es.filter (Dirent.startsIn dir) := by
          rw [hinit]
          exact List.mem_append_right _ List.mem_cons_self
        have hstart := (List.mem_filter.mp hmem).2
        have hnamed : last.isNamed dir = true := by
          rw [Dirent.startsIn, Bool.and_eq_true] at hstart
          rw [Dirent.isNamed, hstart.1, decide_eq_true hname, Bool.and_self]
        rw [lastInode, filter_isNamed, hinit, List.filter_append, List.filter_cons_of_pos hnamed,
          List.filter_nil, List.getLast?_concat]
        rfl
      · cases h
        exact absurd hname hother
    · constructor
      · intro h de hde _
        cases hde
        exact h
      · intro h
        exact h last rfl hname

theorem directory_found_iff {blocks : List (List U8)} {ess : List (List Dirent)} (hdir : dir ≠ [])
    (hheld : List.Forall₂ Holds blocks ess) (hsize : ∀ buf ∈ blocks, buf.length < 2 ^ 32) :
    (∃ found, scanBlocks dir blocks = some found ∧ DirectoryFound dir ess.flatten found) ↔
      Findable dir ess.flatten := by
  have hscan : scanBlocks dir blocks = some (ess.flatten.foldl (noteDirent dir) ⟨0, 0, 0⟩) :=
    foldlM_holds hdir hheld hsize ⟨0, 0, 0⟩
  obtain ⟨hino, hversion⟩ := @foldl_numbers dir ess.flatten ⟨0, 0, 0⟩
  have htarget := @foldl_target dir ess.flatten ⟨0, 0, 0⟩
  constructor
  · rintro ⟨found, heq, hfound⟩
    obtain rfl := Option.some.inj (hscan.symm.trans heq)
    refine ⟨(target_iff _).mp (htarget.symm.trans hfound.target), ?_, ?_⟩
    · exact (largest_bounds Dirent.ino _).mp (hino ▸ hfound.lastIno)
    · exact (largest_bounds Dirent.version _).mp (hversion ▸ hfound.lastVersion)
  · intro h
    refine ⟨_, hscan, htarget.trans ((target_iff _).mpr h.target), ?_, ?_⟩
    · rw [hino]
      exact (largest_bounds Dirent.ino _).mpr h.lastIno
    · rw [hversion]
      exact (largest_bounds Dirent.version _).mpr h.lastVersion

end Numbers

section Examples

/-- A directory of `/`. -/
def rootEntry (name : List U8) (version ino : U32) : Dirent where
  hdrCrc := 0
  pino := 1
  version := version
  ino := ino
  mctime := 0
  type := 4
  unused := 0
  nodeCrc := 0
  nameCrc := 0
  name := name

/-- The bytes of `etc`. -/
def etcName : List U8 := [0x65, 0x74, 0x63]

def etcEntry : Dirent := rootEntry etcName 1 2

/-- The directory `e`. -/
def shortEntry : Dirent := rootEntry [0x65] 2 3

def twoDirents (de de' : Dirent) : List U8 :=
  padNode de.encode ++ (padNode de'.encode ++ List.replicate 4008 0xff)

theorem twoDirents_length (de de' : Dirent) : (twoDirents de de').length =
    (padNode de.encode).length + ((padNode de'.encode).length + 4008) := by
  rw [twoDirents, List.length_append, List.length_append, List.length_replicate]

theorem twoDirents_holds {de de' : Dirent} (hok : de.Ok) (hok' : de'.Ok) :
    Holds (twoDirents de de') [de, de'] := by
  apply Holds.dirent hok
  · rw [List.length_replicate, de.encode_length]
    rfl
  apply Holds.dirent hok'
  · rw [List.length_replicate, de'.encode_length]
    rfl
  exact @Holds.free (List.replicate 4008 0xff) 0xffff rfl (by decide)

theorem etcEntry_ok : etcEntry.Ok where
  length := by decide
  name := by simp [etcEntry, rootEntry, etcName]

theorem shortEntry_ok : shortEntry.Ok where
  length := by decide
  name := by simp [shortEntry, rootEntry]

theorem etc_found : ∃ found, scanBlocks etcName [twoDirents shortEntry etcEntry] = some found ∧
    DirectoryFound etcName [shortEntry, etcEntry] found := by
  have hheld := twoDirents_holds shortEntry_ok etcEntry_ok
  have hlast : ([shortEntry, etcEntry].filter (Dirent.startsIn etcName)).getLast? =
    some etcEntry := rfl
  refine (directory_found_iff (List.cons_ne_nil _ _) (.cons hheld .nil) ?_).mpr ⟨?_, ?_, ?_⟩
  · intro buf hmem
    rw [List.mem_singleton.mp hmem, twoDirents_length]
    decide
  · intro de h hother
    obtain rfl := Option.some.inj (hlast.symm.trans h)
    exact absurd rfl hother
  · decide
  · decide

/-- `e` is taken for `etc`. -/
theorem short_name_found : List.Forall₂ Holds [twoDirents etcEntry shortEntry]
      [[etcEntry, shortEntry]] ∧
    ¬∃ found, scanBlocks etcName [twoDirents etcEntry shortEntry] = some found ∧
      DirectoryFound etcName [etcEntry, shortEntry] found := by
  have hheld := twoDirents_holds etcEntry_ok shortEntry_ok
  refine ⟨.cons hheld .nil, ?_⟩
  rintro ⟨found, hscan, hfound⟩
  have hsize : ∀ buf ∈ [twoDirents etcEntry shortEntry], buf.length < 2 ^ 32 := by
    intro buf hmem
    rw [List.mem_singleton.mp hmem, twoDirents_length]
    decide
  have heq := foldlM_holds (List.cons_ne_nil _ _ : etcName ≠ []) (.cons hheld .nil) hsize ⟨0, 0, 0⟩
  obtain rfl := Option.some.inj (heq.symm.trans hscan)
  have htarget : (3 : U32) = 2 := hfound.target
  exact absurd htarget (by decide)

end Examples

end OpenwrtMtk.Mtd
